/-
  NodeGen.Proofs.JsonText — the texts of JSON values, and that the reader keeps to them.

  `Denotes` is the grammar of JSON, with the three number words that the reader knows beside it; a
  `Document` is a value with whitespace around it. The grammar speaks of whole texts and has no
  notion of what is left to read. The reader takes nothing but such texts (`read_sound`): each reader
  gives back a text of its kind and what follows it.

  An escape stands for a code unit of UTF-16. Two that follow each other make a pair if they can, so what a
  letter is may depend on what follows it (`LetterText`).
-/

import NodeGen.Json.Reader

namespace NodeGen.Json

open Reader

/-! ## The grammar -/

def Spaces (t : Text) : Prop := ∀ c ∈ t, isSpace c = true

def shortEscapes : List (Char × Char) :=
  [('"', '"'), ('\\', '\\'), ('/', '/'), ('b', '\x08'), ('f', '\x0c'), ('n', '\n'), ('r', '\r'), ('t', '\t')]

inductive CharText : Text → Char → Prop
  | plain {c : Char} : c ≠ '"' → c ≠ '\\' → 0x20 ≤ c.toNat → CharText [c] c
  | short {letter c : Char} : (letter, c) ∈ shortEscapes → CharText ['\\', letter] c
  | unit {a b c d : Char} {n : Nat} : hexFour a b c d = some n → isHighSurrogate n = false →
      isLowSurrogate n = false → CharText ['\\', 'u', a, b, c, d] (Char.ofNat n)
  | pair {a b c d e f g h : Char} {high low : Nat} : hexFour a b c d = some high →
      isHighSurrogate high = true → hexFour e f g h = some low → isLowSurrogate low = true →
      CharText ['\\', 'u', a, b, c, d, '\\', 'u', e, f, g, h] (joinSurrogates high low)

def LowFirst (t : Text) : Prop :=
  ∃ a b c d n rest, t = '\\' :: 'u' :: a :: b :: c :: d :: rest ∧ hexFour a b c d = some n ∧ isLowSurrogate n = true

/-- One letter of a string, in front of `rest`. -/
inductive LetterText : Text → Letter → Text → Prop
  | char {core rest : Text} {c : Char} : CharText core c → LetterText core (.char c) rest
  | lone {a b c d : Char} {half : Surrogate} {rest : Text} : hexFour a b c d = some half.unit →
      (isHighSurrogate half.unit = true → ¬ LowFirst rest) → LetterText ['\\', 'u', a, b, c, d] (.lone half) rest

inductive StringText : Text → Letters → Prop
  | nil : StringText [] []
  | cons {core rest : Text} {letter : Letter} {s : Letters} : LetterText core letter rest → StringText rest s →
      StringText (core ++ rest) (letter :: s)

def Digits (t : Text) : Prop := ∀ c ∈ t, c.isDigit = true

inductive WholeText : Text → Prop
  | zero : WholeText ['0']
  | digits {c : Char} {rest : Text} : c ≠ '0' → Digits (c :: rest) → WholeText (c :: rest)

inductive FractionText : Text → Prop
  | none : FractionText []
  | point {digits : Text} : digits ≠ [] → Digits digits → FractionText ('.' :: digits)

inductive ExponentText : Text → Prop
  | none : ExponentText []
  | power {letter : Char} {sign digits : Text} : letter ∈ ['e', 'E'] → sign ∈ [[], ['+'], ['-']] →
      digits ≠ [] → Digits digits → ExponentText (letter :: sign ++ digits)

inductive NumberText : Text → Prop
  | mk {minus whole fraction exponent : Text} : minus ∈ [[], ['-']] → WholeText whole →
      FractionText fraction → ExponentText exponent →
      NumberText (minus ++ whole ++ fraction ++ exponent)

def plainWords : List (Text × Json) :=
  [("null".toList, .null), ("false".toList, .bool false), ("true".toList, .bool true)]

/-- The number words that no JSON has, but many readers do. -/
def notFinite : List Text := ["NaN".toList, "Infinity".toList, "-Infinity".toList]

inductive ItemsText {α : Type} (item : Text → α → Prop) : Text → List α → Prop
  | one {before core after : Text} {a : α} : Spaces before → item core a → Spaces after →
      ItemsText item (before ++ core ++ after) [a]
  | cons {before core after rest : Text} {a : α} {as : List α} : Spaces before → item core a →
      Spaces after → ItemsText item rest as →
      ItemsText item (before ++ core ++ after ++ ',' :: rest) (a :: as)

inductive Enclosed {α : Type} (opening close : Char) (item : Text → α → Prop) : Text → List α → Prop
  | blank {t : Text} : Spaces t → Enclosed opening close item (opening :: t ++ [close]) []
  | items {t : Text} {as : List α} : ItemsText item t as →
      Enclosed opening close item (opening :: t ++ [close]) as

inductive MemberText (value : Text → Json → Prop) : Text → Letters × Json → Prop
  | mk {inside before after core : Text} {key : Letters} {v : Json} : StringText inside key → Spaces before →
      Spaces after → value core v →
      MemberText value ('"' :: inside ++ '"' :: before ++ ':' :: after ++ core) (key, v)

inductive Denotes : Text → Json → Prop
  | word {t : Text} {v : Json} : (t, v) ∈ plainWords → Denotes t v
  | number {t : Text} : NumberText t ∨ t ∈ notFinite → Denotes t (.number t)
  | string {inside : Text} {s : Letters} : StringText inside s → Denotes ('"' :: inside ++ ['"']) (.string s)
  | array {t : Text} {vs : List Json} : Enclosed '[' ']' Denotes t vs → Denotes t (.array vs)
  | object {t : Text} {ms : List (Letters × Json)} : Enclosed '\x7b' '\x7d' (MemberText Denotes) t ms →
      Denotes t (.object ms)

inductive Document : Text → Json → Prop
  | mk {before core after : Text} {v : Json} : Spaces before → Denotes core v → Spaces after →
      Document (before ++ core ++ after) v

/-! ## What is read is of its kind -/

theorem skip_split (t : Text) : ∃ before, Spaces before ∧ t = before ++ skip t :=
  ⟨t.takeWhile isSpace, List.all_eq_true.mp List.all_takeWhile, List.takeWhile_append_dropWhile.symm⟩

theorem simpleEscape_eq {letter c : Char} (h : simpleEscape letter = some c) :
    (letter, c) ∈ shortEscapes ∧ letter ≠ 'u' := by
  unfold simpleEscape at h
  split at h <;> first | (cases h; decide) | cases h

/-- What follows an escape in the text is a letter by itself, or the second half of a pair. -/
theorem secondUnit_cases {n : Nat} {t rest : Text} {letter : Letter} (h : secondUnit n t = .ok (letter, rest)) :
    (rest = t ∧ letter = unitLetter n ∧ (LowFirst t → ∃ a b c d, t = ['\\', 'u', a, b, c, d])) ∨
      ∃ a b c d m, t = '\\' :: 'u' :: a :: b :: c :: d :: rest ∧ hexFour a b c d = some m ∧
        isLowSurrogate m = true ∧ letter = .char (joinSurrogates n m) := by
  unfold secondUnit at h
  split at h
  · rename_i a b c d e left
    split at h
    · cases h
    · rename_i m hm
      split at h
      · rename_i hlow
        cases h
        exact Or.inr ⟨a, b, c, d, m, rfl, hm, hlow, rfl⟩
      · -- a second escape that is no low surrogate is left where it is
        rename_i hlow
        cases h
        refine Or.inl ⟨rfl, rfl, ?_⟩
        rintro ⟨a', b', c', d', n', left', heq, hn', hlow'⟩
        simp only [List.cons.injEq, true_and] at heq
        obtain ⟨rfl, rfl, rfl, rfl, -⟩ := heq
        cases hm.symm.trans hn'
        exact absurd hlow' hlow
  · rename_i hshort
    cases h
    refine Or.inl ⟨rfl, rfl, ?_⟩
    rintro ⟨a, b, c, d, m, left, rfl, -, -⟩
    cases left with
    | nil => exact ⟨a, b, c, d, rfl⟩
    | cons e left => exact absurd rfl (hshort a b c d e left)

theorem unitLetter_of_half {n : Nat} (h : isHighSurrogate n = true ∨ isLowSurrogate n = true) :
    unitLetter n = .lone ⟨n, h⟩ := dif_pos h

/-- A unicode escape that was read. If the text ends with the escape of its second unit, that unit is
    not taken. -/
theorem unicodeEscape_sound {t rest : Text} {letter : Letter} (h : unicodeEscape t = .ok (letter, rest)) :
    (∃ core, '\\' :: 'u' :: t = core ++ rest ∧ LetterText core letter rest) ∨
      ∃ a b c d, rest = ['\\', 'u', a, b, c, d] := by
  unfold unicodeEscape at h
  split at h
  · rename_i a b c d e after
    split at h
    · cases h
    · rename_i n hn
      split at h
      · rename_i hhigh
        rcases secondUnit_cases h with ⟨rfl, rfl, hlast⟩ | ⟨a', b', c', d', m, heq, hm, hlow, rfl⟩
        · by_cases hfirst : LowFirst (e :: after)
          · exact Or.inr (hlast hfirst)
          · rw [unitLetter_of_half (Or.inl hhigh)]
            exact Or.inl ⟨['\\', 'u', a, b, c, d], rfl, .lone hn fun _ => hfirst⟩
        · rw [heq]
          exact Or.inl ⟨['\\', 'u', a, b, c, d, '\\', 'u', a', b', c', d'], rfl, .char (.pair hn hhigh hm hlow)⟩
      · rename_i hhigh
        cases h
        refine Or.inl ⟨['\\', 'u', a, b, c, d], rfl, ?_⟩
        by_cases hlow : isLowSurrogate n = true
        · rw [unitLetter_of_half (Or.inr hlow)]
          exact .lone hn fun h => absurd h hhigh
        · rw [unitLetter, dif_neg (not_or.mpr ⟨hhigh, hlow⟩)]
          exact .char (.unit hn (eq_false_of_ne_true hhigh) (eq_false_of_ne_true hlow))
  · cases h

theorem piece_close {opening t rest : Text} (h : piece opening t = .ok (.close rest)) : t = '"' :: rest := by
  unfold piece at h
  split at h
  · cases h
  · cases h; rfl
  · cases h
  · rename_i after
    cases hread : unicodeEscape after with
    | error fault => rw [hread] at h; cases h
    | ok read => rw [hread] at h; cases h
  · split at h <;> cases h
  · split at h <;> cases h

theorem piece_letter {opening t rest : Text} {letter : Letter} (h : piece opening t = .ok (.letter letter rest)) :
    (∃ core, t = core ++ rest ∧ LetterText core letter rest) ∨ ∃ a b c d, rest = ['\\', 'u', a, b, c, d] := by
  unfold piece at h
  split at h
  · cases h
  · cases h
  · cases h
  · rename_i after
    cases hread : unicodeEscape after with
    | error fault => rw [hread] at h; cases h
    | ok read =>
      rw [hread] at h
      cases h
      exact unicodeEscape_sound hread
  · split at h
    · cases h
    · rename_i c' hc
      cases h
      exact Or.inl ⟨['\\', _], rfl, .char (.short (simpleEscape_eq hc).1)⟩
  · rename_i c' after hquote hempty hunit hletter
    have hslash : c' ≠ '\\' := by
      rintro rfl
      cases after with
      | nil => exact hempty rfl rfl
      | cons letter after => exact hletter letter after rfl rfl
    split at h
    · cases h
    · cases h
      exact Or.inl ⟨[_], rfl, .char (.plain (fun e => hquote e) hslash (Nat.not_lt.mp ‹_›))⟩

/-- What starts with the escape of a low surrogate does so whatever follows. -/
theorem LowFirst.append {t : Text} (h : LowFirst t) (rest : Text) : LowFirst (t ++ rest) := by
  obtain ⟨a, b, c, d, n, left, rfl, hn, hlow⟩ := h
  exact ⟨a, b, c, d, n, left ++ rest, rfl, hn, hlow⟩

theorem LetterText.of_append {core inside rest : Text} {letter : Letter} (h : LetterText core letter (inside ++ rest)) :
    LetterText core letter inside := by
  cases h with
  | char hc => exact .char hc
  | lone hn hlow => exact .lone hn fun hhigh hfirst => hlow hhigh (hfirst.append rest)

theorem pieces_sound {opening t rest : Text} {s : Letters} {fuel : Nat} (h : pieces opening fuel t = .ok (s, rest)) :
    ∃ inside, t = inside ++ '"' :: rest ∧ StringText inside s := by
  induction fuel generalizing t s with
  | zero => cases h
  | succ fuel ih =>
    simp only [pieces, bind, Except.bind] at h
    split at h
    · cases h
    · rename_i p hp
      split at h
      · cases h
        exact ⟨[], piece_close hp, .nil⟩
      · split at h
        · cases h
        · rename_i hrest
          cases h
          rcases piece_letter hp with ⟨core, rfl, hcore⟩ | ⟨a, b, c, d, rfl⟩
          · obtain ⟨inside, rfl, hinside⟩ := ih hrest
            exact ⟨core ++ inside, (List.append_assoc _ _ _).symm, .cons hcore.of_append hinside⟩
          · -- an escape that the text ends with is not read
            cases fuel <;> cases hrest

theorem string_sound {t rest : Text} {s : Letters} (h : Reader.string t = .ok (s, rest)) :
    ∃ inside, t = inside ++ '"' :: rest ∧ StringText inside s :=
  pieces_sound h

/-! ### Numbers -/

theorem digits_takeWhile (t : Text) : Digits (t.takeWhile Char.isDigit) :=
  List.all_eq_true.mp List.all_takeWhile

theorem NumberText.mem {core : Text} {c : Char} (h : NumberText core) (hc : c ∈ core) :
    c.isDigit = true ∨ c ∈ ['-', '+', '.', 'e', 'E'] := by
  obtain ⟨hminus, hwhole, hfraction, hexponent⟩ := h
  simp only [List.mem_append] at hc
  rcases hc with ((hc | hc) | hc) | hc
  · simp only [List.mem_cons, List.not_mem_nil, or_false] at hminus
    rcases hminus with rfl | rfl
    · cases hc
    · obtain rfl := List.mem_singleton.mp hc
      exact Or.inr (by decide)
  · cases hwhole with
    | zero =>
      obtain rfl := List.mem_singleton.mp hc
      exact Or.inl (by decide)
    | digits _ hdigits => exact Or.inl (hdigits c hc)
  · cases hfraction with
    | none => cases hc
    | point _ hdigits =>
      rcases List.mem_cons.mp hc with rfl | hc
      · exact Or.inr (by decide)
      · exact Or.inl (hdigits c hc)
  · cases hexponent with
    | none => cases hc
    | power hletter hsign _ hdigits =>
      simp only [List.mem_cons, List.not_mem_nil, or_false] at hletter hsign
      rcases List.mem_cons.mp hc with rfl | hc
      · rcases hletter with rfl | rfl <;> exact Or.inr (by decide)
      rcases List.mem_append.mp hc with hc | hc
      · rcases hsign with rfl | rfl | rfl
        · cases hc
        · obtain rfl := List.mem_singleton.mp hc
          exact Or.inr (by decide)
        · obtain rfl := List.mem_singleton.mp hc
          exact Or.inr (by decide)
      · exact Or.inl (hdigits c hc)

theorem wholePart_sound {t whole rest : Text} (h : wholePart t = some (whole, rest)) :
    t = whole ++ rest ∧ WholeText whole := by
  unfold wholePart at h
  split at h
  · cases h
  · rename_i c after
    split at h
    · rename_i hzero
      cases h
      exact ⟨congrArg (· :: rest) hzero, .zero⟩
    split at h
    · rename_i hzero hdigit
      cases h
      exact ⟨congrArg (c :: ·) List.takeWhile_append_dropWhile.symm,
        .digits hzero (List.forall_mem_cons.mpr ⟨hdigit, digits_takeWhile after⟩)⟩
    · cases h

theorem fraction_sound (t : Text) : t = (fraction t).1 ++ (fraction t).2 ∧ FractionText (fraction t).1 := by
  unfold fraction
  split
  · rename_i after
    split
    · exact ⟨rfl, .none⟩
    · rename_i hdigits
      exact ⟨congrArg ('.' :: ·) List.takeWhile_append_dropWhile.symm, .point hdigits (digits_takeWhile after)⟩
  · exact ⟨rfl, .none⟩

theorem sign_sound (t : Text) : t = (sign t).1 ++ (sign t).2 ∧ (sign t).1 ∈ [[], ['+'], ['-']] := by
  unfold sign
  split <;> simp

theorem exponent_sound (t : Text) : t = (exponent t).1 ++ (exponent t).2 ∧ ExponentText (exponent t).1 := by
  unfold exponent
  split
  · exact ⟨rfl, .none⟩
  · rename_i c after
    obtain ⟨hsplit, hsign⟩ := sign_sound after
    simp only
    split
    · rename_i hpower
      refine ⟨?_, .power (by simpa using hpower.1) hsign hpower.2 (digits_takeWhile _)⟩
      rw [List.append_assoc, List.takeWhile_append_dropWhile, List.cons_append, ← hsplit]
    · exact ⟨rfl, .none⟩

theorem number_sound {rules : Rules} {t rest : Text} {v : Json} (h : Reader.number rules t = .ok (v, rest)) :
    ∃ core, t = core ++ rest ∧ NumberText core ∧ v = .number core := by
  unfold Reader.number at h
  split at h
  rename_i minus unsigned hsigns
  obtain ⟨hminus, ht⟩ : minus ∈ [[], ['-']] ∧ t = minus ++ unsigned := by
    split at hsigns <;> (cases hsigns; simp)
  simp only at h
  split at h
  · cases h
  · rename_i whole after hwhole
    split at h
    · cases h
    · cases h
      obtain ⟨rfl, hwholeText⟩ := wholePart_sound hwhole
      obtain ⟨hfraction, hfractionText⟩ := fraction_sound after
      obtain ⟨hexponent, hexponentText⟩ := exponent_sound (fraction after).2
      refine ⟨_, ?_, .mk hminus hwholeText hfractionText hexponentText, rfl⟩
      rw [ht, List.append_assoc, List.append_assoc, List.append_assoc, ← hexponent, ← hfraction]

/-! ### Values -/

/-- A reader of a kind of text takes nothing but such texts. -/
def Sound {α : Type} (read : Text → Except Fault (α × Text)) (item : Text → α → Prop) : Prop :=
  ∀ t a rest, read t = .ok (a, rest) → ∃ core, t = core ++ rest ∧ item core a

section Items

variable {α : Type} {read : Text → Except Fault (α × Text)} {item : Text → α → Prop} {close : Char}
  {fuel : Nat} {before t rest : Text} {as : List α}

theorem items_sound (hread : Sound read item) (hb : Spaces before) (h : items close read fuel t = .ok (as, rest)) :
    ∃ inside, before ++ t = inside ++ close :: rest ∧ ItemsText item inside as := by
  induction fuel generalizing before t as with
  | zero => cases h
  | succ fuel ih =>
    simp only [items, bind, Except.bind] at h
    split at h
    · cases h
    · rename_i read' hitem
      obtain ⟨a, left⟩ := read'
      obtain ⟨core, rfl, hcore⟩ := hread t a left hitem
      obtain ⟨after, hafter, hsplit⟩ := skip_split left
      simp only at h
      split at h
      · cases h
      · rename_i c next hskip
        rw [hskip] at hsplit
        split at h
        · rename_i hc
          cases h
          refine ⟨before ++ core ++ after, ?_, .one hb hcore hafter⟩
          rw [hsplit, hc]
          simp
        split at h
        · rename_i hcomma
          split at h
          · cases h
          · rename_i read'' hitems
            cases h
            subst hcomma
            obtain ⟨before', hb', hsplit'⟩ := skip_split next
            obtain ⟨inside, hinside, hitemsText⟩ := ih hb' hitems
            rw [← hsplit'] at hinside
            refine ⟨before ++ core ++ after ++ ',' :: inside, ?_, .cons hb hcore hafter hitemsText⟩
            rw [hsplit, hinside]
            simp
        · cases h

theorem enclosed_sound (opening : Char) (hread : Sound read item) (h : enclosed close read t = .ok (as, rest)) :
    ∃ core, opening :: t = core ++ rest ∧ Enclosed opening close item core as := by
  obtain ⟨before, hb, hsplit⟩ := skip_split t
  have hitems : ∀ n, items close read n (skip t) = .ok (as, rest) →
      ∃ core, opening :: t = core ++ rest ∧ Enclosed opening close item core as := by
    intro n hn
    obtain ⟨inside, hinside, hitemsText⟩ := items_sound hread hb hn
    refine ⟨opening :: inside ++ [close], ?_, .items hitemsText⟩
    simpa using hsplit.trans hinside
  unfold enclosed at h
  split at h
  · rename_i hskip
    rw [← hskip] at h
    exact hitems 1 h
  · rename_i c next hskip
    split at h
    · rename_i hc
      cases h
      subst hc
      rw [hskip] at hsplit
      exact ⟨opening :: before ++ [c], by simpa using hsplit, .blank hb⟩
    · rw [← hskip] at h
      exact hitems _ h

end Items

theorem member_sound {value : Text → Except Fault (Json × Text)} {item : Text → Json → Prop}
    (hvalue : Sound value item) : Sound (member value) (MemberText item) := by
  intro t m rest h
  unfold member at h
  split at h
  · rename_i inside
    simp only [bind, Except.bind] at h
    split at h
    · cases h
    · rename_i read hkey
      obtain ⟨key, left⟩ := read
      obtain ⟨core, rfl, hcore⟩ := string_sound hkey
      obtain ⟨before, hb, hsplit⟩ := skip_split left
      simp only at h
      split at h
      · rename_i next hskip
        rw [hskip] at hsplit
        split at h
        · cases h
        · rename_i read' hread
          obtain ⟨v, left'⟩ := read'
          cases h
          obtain ⟨after, hafter, hsplit'⟩ := skip_split next
          obtain ⟨text, htext, hv⟩ := hvalue _ _ _ hread
          refine ⟨_, ?_, .mk hcore hb hafter hv⟩
          rw [hsplit, hsplit', htext]
          simp
      · cases h
  · cases h

theorem words_sound {word : Text} {v : Json} (h : (word, v) ∈ words) : Denotes word v := by
  simp only [words, List.mem_cons, Prod.mk.injEq, List.not_mem_nil, or_false] at h
  rcases h with ⟨rfl, rfl⟩ | ⟨rfl, rfl⟩ | ⟨rfl, rfl⟩ | ⟨rfl, rfl⟩ | ⟨rfl, rfl⟩ | ⟨rfl, rfl⟩
  · exact .word (by simp [plainWords])
  · exact .word (by simp [plainWords])
  · exact .word (by simp [plainWords])
  all_goals exact .number (Or.inr (by decide))

theorem scalar_sound (rules : Rules) : Sound (scalar rules) Denotes := by
  intro t v rest h
  unfold scalar at h
  split at h
  · rename_i word v' hfind
    cases h
    have hprefix : word.isPrefixOf t = true := by
      have hp := List.find?_some hfind
      exact hp
    obtain ⟨after, rfl⟩ := List.isPrefixOf_iff_prefix.mp hprefix
    rw [List.drop_left]
    exact ⟨word, rfl, words_sound (List.mem_of_find?_eq_some hfind)⟩
  · obtain ⟨core, rfl, hcore, rfl⟩ := number_sound h
    exact ⟨core, rfl, .number (Or.inl hcore)⟩

/-- What is read is a text of the value that is read. -/
theorem value_sound (rules : Rules) (depth : Nat) : Sound (Reader.value rules depth) Denotes := by
  induction depth with
  | zero => intro t v rest h; cases h
  | succ depth ih =>
    intro t v rest h
    unfold Reader.value at h
    split at h
    · rename_i inside
      simp only [bind, Except.bind] at h
      split at h
      · cases h
      · rename_i read hread
        cases h
        obtain ⟨core, rfl, hcore⟩ := string_sound hread
        exact ⟨_, by simp, .string hcore⟩
    · simp only [bind, Except.bind] at h
      split at h
      · cases h
      · rename_i read hread
        cases h
        obtain ⟨core, heq, hcore⟩ := enclosed_sound '[' ih hread
        exact ⟨core, heq, .array hcore⟩
    · simp only [bind, Except.bind] at h
      split at h
      · cases h
      · rename_i read hread
        split at h
        · cases h
        · rename_i v' hclose
          cases h
          obtain ⟨core, heq, hcore⟩ := enclosed_sound '\x7b' (member_sound ih) hread
          unfold closeObject at hclose
          split at hclose
          · cases hclose
            exact ⟨core, heq, .object hcore⟩
          · cases hclose
    · exact scalar_sound rules t v rest h

theorem read_sound {rules : Rules} {t : Text} {v : Json} (h : read rules t = .ok v) : Document t v := by
  unfold read at h
  split at h
  · cases h
  · simp only [bind, Except.bind] at h
    split at h
    · cases h
    · rename_i left hvalue
      obtain ⟨v', rest⟩ := left
      obtain ⟨before, hb, hsplit⟩ := skip_split t
      obtain ⟨core, hcore, hv⟩ := value_sound rules _ _ _ _ hvalue
      simp only at h
      split at h
      · rename_i hskip
        cases h
        obtain ⟨after, hafter, hend⟩ := skip_split rest
        rw [hskip, List.append_nil] at hend
        rw [hsplit, hcore, hend, ← List.append_assoc]
        exact .mk hb hv hafter
      · cases h

end NodeGen.Json
