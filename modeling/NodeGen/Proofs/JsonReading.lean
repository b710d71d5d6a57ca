/-
  NodeGen.Proofs.JsonReading — what the reader makes of a text that denotes a value.

  In a value the reader meets numbers, and objects where they close: an object after those within it, and
  so in the order of the closing brackets (`events`). Rules may object to either (`Rules.fault`). A text that
  denotes a value is read as that value, or it is refused for the first event that the rules object to
  (`answers_value`, `read_of_document`).

  A value is followed by what may stand behind one (`Ends`). A number is cut off where it cannot be longer
  (`Longest`), whatever follows it.
-/

import NodeGen.Proofs.JsonText

namespace NodeGen.Json

open Reader

/-! ## Events -/

inductive Event where
  | number (literal : Text)
  /-- The end of an object. -/
  | close (members : List (Letters × Json))

def Event.number? : Event → Option Text
  | number literal => some literal
  | _ => none

def Event.close? : Event → Option (List (Letters × Json))
  | close members => some members
  | _ => none

mutual

def events : Json → List Event
  | .number literal => [.number literal]
  | .array items => eventsOfItems items
  | .object members => eventsOfMembers members ++ [.close members]
  | _ => []

def eventsOfItems : List Json → List Event
  | [] => []
  | v :: vs => events v ++ eventsOfItems vs

def eventsOfMembers : List (Letters × Json) → List Event
  | [] => []
  | (_, v) :: ms => events v ++ eventsOfMembers ms

end

/-- The objects of a value, each by its members, in the order in which they close. -/
def objects (v : Json) : List (List (Letters × Json)) := v.events.filterMap Event.close?

def numbers (v : Json) : List Text := v.events.filterMap Event.number?

theorem events_array (vs : List Json) : (Json.array vs).events = vs.flatMap events := by
  rw [events]
  induction vs with
  | nil => rfl
  | cons v vs ih => rw [eventsOfItems, ih, List.flatMap_cons]

theorem events_object (ms : List (Letters × Json)) :
    (Json.object ms).events = ms.flatMap (fun m => m.2.events) ++ [.close ms] := by
  rw [events]
  congr 1
  induction ms with
  | nil => rfl
  | cons m ms ih => rw [eventsOfMembers, ih, List.flatMap_cons]

/-- How many digits an integer has; a number with a point or an exponent is none. -/
def integerDigits (literal : Text) : Option Nat :=
  if literal.all (fun c => c.isDigit || c = '-') then some (literal.countP Char.isDigit) else none

def Rules.fault (rules : Rules) : Event → Option Fault
  | .number literal =>
    match integerDigits literal with
    | some n => if rules.maxDigits.any (· < n) then some (.oversizedInteger n) else none
    | none => none
  | .close members => if rules.distinctKeys then (repeatedKey [] members).map .repeatedKey else none

def fault? (rules : Rules) (v : Json) : Option Fault := v.events.findSome? rules.fault

theorem findSome?_flatMap {α β γ : Type} (f : β → Option γ) (g : α → List β) (as : List α) :
    (as.flatMap g).findSome? f = as.findSome? fun a => (g a).findSome? f := by
  induction as with
  | nil => rfl
  | cons a as ih =>
    rw [List.flatMap_cons, List.findSome?_append, ih, List.findSome?_cons]
    cases (g a).findSome? f <;> rfl

theorem fault?_number (rules : Rules) (literal : Text) :
    (Json.number literal).fault? rules = rules.fault (.number literal) := List.findSome?_singleton

theorem fault?_array (rules : Rules) (vs : List Json) : (Json.array vs).fault? rules = vs.findSome? (fault? rules) := by
  rw [fault?, events_array, findSome?_flatMap]
  rfl

theorem fault?_object (rules : Rules) (ms : List (Letters × Json)) : (Json.object ms).fault? rules =
    (ms.findSome? fun m => m.2.fault? rules).or (rules.fault (.close ms)) := by
  rw [fault?, events_object, List.findSome?_append, findSome?_flatMap, List.findSome?_singleton]
  rfl

def barring {α : Type} (fault : Option Fault) (a : α) : Except Fault α :=
  match fault with
  | none => .ok a
  | some f => .error f

@[simp] theorem barring_none {α : Type} (a : α) : barring none a = .ok a := rfl

@[simp] theorem barring_some {α : Type} (f : Fault) (a : α) : barring (some f) a = .error f := rfl

theorem closeObject_eq (rules : Rules) (ms : List (Letters × Json)) :
    closeObject rules ms = barring (rules.fault (.close ms)) (.object ms) := by
  simp only [closeObject, Rules.fault]
  by_cases hdistinct : rules.distinctKeys = true
  · rw [if_pos hdistinct, if_pos hdistinct]
    cases repeatedKey [] ms <;> rfl
  · rw [if_neg hdistinct, if_neg hdistinct]
    rfl

/-! ## Whitespace and strings -/

/-- What holds of a few characters, one by one. -/
theorem forall_mem_of_all {cs : List Char} {p : Char → Prop} [DecidablePred p]
    (h : cs.all (fun c => decide (p c)) = true) : ∀ c ∈ cs, p c := by
  simpa using h

theorem skip_append {before : Text} (h : Spaces before) (t : Text) : skip (before ++ t) = skip t :=
  List.dropWhile_append_of_pos h

theorem skip_cons {c : Char} (h : isSpace c = false) (t : Text) : skip (c :: t) = c :: t :=
  List.dropWhile_cons_of_neg (by simp [h])

theorem length_skip_le (t : Text) : (skip t).length ≤ t.length := (List.dropWhile_sublist _).length_le

theorem simpleEscape_of_mem {letter c : Char} (h : (letter, c) ∈ shortEscapes) :
    simpleEscape letter = some c ∧ letter ≠ 'u' := by
  simp only [shortEscapes, List.mem_cons, Prod.mk.injEq, List.not_mem_nil, or_false] at h
  rcases h with ⟨rfl, rfl⟩ | ⟨rfl, rfl⟩ | ⟨rfl, rfl⟩ | ⟨rfl, rfl⟩ | ⟨rfl, rfl⟩ | ⟨rfl, rfl⟩ | ⟨rfl, rfl⟩ |
    ⟨rfl, rfl⟩
  all_goals exact ⟨rfl, by decide⟩

theorem LetterText.ne_nil {core rest : Text} {letter : Letter} (h : LetterText core letter rest) : core ≠ [] := by
  cases h with
  | char h => cases h <;> simp
  | lone => simp

theorem StringText.length_le {inside : Text} {s : Letters} (h : StringText inside s) : s.length ≤ inside.length := by
  induction h with
  | nil => exact Nat.le_refl _
  | cons hletter _ ih =>
    have hpos := List.length_pos_iff.mpr hletter.ne_nil
    rw [List.length_append, List.length_cons]
    omega

/-- A character of a string is read where the string goes on, be it to its closing quote. -/
theorem piece_of_charText {core : Text} {c : Char} (h : CharText core c) (opening : Text) (e : Char) (rest : Text) :
    piece opening (core ++ e :: rest) = .ok (.letter (.char c) (e :: rest)) := by
  cases h with
  | plain hquote hslash hcontrol => simp [piece, hslash, Nat.not_lt.mpr hcontrol]
  | short hshort =>
    obtain ⟨heq, hu⟩ := simpleEscape_of_mem hshort
    simp [piece, heq]
  | unit hn hhigh hlow => simp [piece, unicodeEscape, hn, hhigh, hlow, unitLetter, Except.map]
  | pair hn hhigh hm hlow => simp [piece, unicodeEscape, secondUnit, hn, hhigh, hm, hlow, Except.map]

/-- A string that starts like a unicode escape starts with one. -/
theorem StringText.escape {inside rest more : Text} {s : Letters} {a b c d : Char} (h : StringText inside s)
    (heq : inside ++ '"' :: rest = '\\' :: 'u' :: a :: b :: c :: d :: more) :
    ∃ n left, hexFour a b c d = some n ∧ inside = '\\' :: 'u' :: a :: b :: c :: d :: left := by
  cases h with
  | nil => exact absurd (List.cons.inj heq).1 (by decide)
  | cons hletter _ =>
    cases hletter with
    | char hc =>
      cases hc with
      | plain _ hslash => exact absurd (List.cons.inj heq).1 hslash
      | short hshort =>
        exact absurd (List.cons.inj (List.cons.inj heq).2).1 (simpleEscape_of_mem hshort).2
      | unit hn =>
        simp only [List.cons_append, List.cons.injEq, true_and] at heq
        obtain ⟨rfl, rfl, rfl, rfl, -⟩ := heq
        exact ⟨_, _, hn, rfl⟩
      | pair hn =>
        simp only [List.cons_append, List.cons.injEq, true_and] at heq
        obtain ⟨rfl, rfl, rfl, rfl, -⟩ := heq
        exact ⟨_, _, hn, rfl⟩
    | lone hn =>
      simp only [List.cons_append, List.cons.injEq, true_and] at heq
      obtain ⟨rfl, rfl, rfl, rfl, -⟩ := heq
      exact ⟨_, _, hn, rfl⟩

/-- A high surrogate stays by itself if what follows it in the string is no low one. -/
theorem secondUnit_of_stringText {inside : Text} {s : Letters} (h : StringText inside s) (hlow : ¬ LowFirst inside)
    (n : Nat) (rest : Text) :
    secondUnit n (inside ++ '"' :: rest) = .ok (unitLetter n, inside ++ '"' :: rest) := by
  unfold secondUnit
  split
  · rename_i a b c d e left heq
    obtain ⟨m, left', hm, rfl⟩ := h.escape heq
    have hnot : ¬ isLowSurrogate m = true := fun hm' => hlow ⟨a, b, c, d, m, left', rfl, hm, hm'⟩
    simp only [hm, if_neg hnot, heq]
  · rfl

/-- A letter of a string is read in front of the rest of the string. -/
theorem piece_of_letterText {core inside : Text} {letter : Letter} {s : Letters} (h : LetterText core letter inside)
    (hinside : StringText inside s) (opening rest : Text) :
    piece opening (core ++ (inside ++ '"' :: rest)) = .ok (.letter letter (inside ++ '"' :: rest)) := by
  have hsecond := fun hlow n => secondUnit_of_stringText hinside hlow n rest
  obtain ⟨e, left, hleft⟩ : ∃ e left, inside ++ '"' :: rest = e :: left := List.exists_cons_of_ne_nil (by simp)
  rw [hleft] at hsecond ⊢
  cases h with
  | char hc => exact piece_of_charText hc opening e left
  | @lone a b c d half _ hn hlow =>
    have hread : unicodeEscape (a :: b :: c :: d :: e :: left) = .ok (unitLetter half.unit, e :: left) := by
      by_cases hhigh : isHighSurrogate half.unit = true
      · simp only [unicodeEscape, hn, if_pos hhigh, hsecond (hlow hhigh)]
      · simp only [unicodeEscape, hn, if_neg hhigh]
    simp only [List.cons_append, List.nil_append, piece, hread, unitLetter_of_half half.half]
    rfl

theorem pieces_of_stringText {inside : Text} {s : Letters} (h : StringText inside s) (opening rest : Text) {fuel : Nat}
    (hfuel : s.length < fuel) : pieces opening fuel (inside ++ '"' :: rest) = .ok (s, rest) := by
  induction h generalizing fuel with
  | nil =>
    obtain ⟨n, rfl⟩ : ∃ n, fuel = n + 1 := ⟨fuel - 1, by omega⟩
    rfl
  | @cons core inside letter s hletter hinside ih =>
    obtain ⟨n, rfl⟩ : ∃ n, fuel = n + 1 := ⟨fuel - 1, by omega⟩
    have hrest : pieces opening n (inside ++ '"' :: rest) = .ok (s, rest) := ih (by simpa using hfuel)
    rw [List.append_assoc]
    simp only [pieces, piece_of_letterText hletter hinside, hrest, bind, Except.bind]
    rfl

theorem string_of_stringText {inside : Text} {s : Letters} (h : StringText inside s) (rest : Text) :
    Reader.string (inside ++ '"' :: rest) = .ok (s, rest) := by
  have hlength := h.length_le
  refine pieces_of_stringText h _ rest ?_
  rw [List.length_append]
  omega

/-! ## Numbers -/

/-- No longer number starts where a text stands. -/
def Longest (number rest : Text) : Prop := ∀ more left, rest = more ++ left → NumberText (number ++ more) → more = []

theorem takeWhile_digits {digits rest : Text} (hdigits : Digits digits)
    (hrest : ∀ c ∈ rest.head?, c.isDigit = false) :
    (digits ++ rest).takeWhile Char.isDigit = digits ∧ (digits ++ rest).dropWhile Char.isDigit = rest := by
  rw [List.takeWhile_append_of_pos hdigits, List.dropWhile_append_of_pos hdigits]
  cases rest with
  | nil => simp
  | cons c rest =>
    have hc : ¬ c.isDigit = true := by simp [hrest c rfl]
    rw [List.takeWhile_cons_of_neg hc, List.dropWhile_cons_of_neg hc, List.append_nil]
    exact ⟨rfl, rfl⟩

theorem Digits.append {s t : Text} (hs : Digits s) (ht : Digits t) : Digits (s ++ t) :=
  List.forall_mem_append.mpr ⟨hs, ht⟩

theorem digits_singleton {c : Char} (h : c.isDigit = true) : Digits [c] := by simpa [Digits] using h

section Parts

variable {minus whole fraction exponent rest : Text}

theorem WholeText.start (h : WholeText whole) : ∃ d more, whole = d :: more ∧ d.isDigit = true := by
  cases h with
  | zero => exact ⟨'0', [], rfl, by decide⟩
  | digits _ hdigits => exact ⟨_, _, rfl, hdigits _ List.mem_cons_self⟩

theorem wholePart_of_wholeText (h : WholeText whole) (hrest : whole = ['0'] ∨ ∀ c ∈ rest.head?, c.isDigit = false) :
    wholePart (whole ++ rest) = some (whole, rest) := by
  cases h with
  | zero => rfl
  | @digits c more hzero hdigits =>
    obtain ⟨hc, hmore⟩ := List.forall_mem_cons.mp hdigits
    have hnext : ∀ c ∈ rest.head?, c.isDigit = false := by
      refine hrest.resolve_left fun he => ?_
      exact hzero (List.cons.inj he).1
    obtain ⟨htake, hdrop⟩ := takeWhile_digits hmore hnext
    simp only [List.cons_append, wholePart, if_neg hzero, if_pos hc, htake, hdrop]

theorem fraction_of_fractionText (h : FractionText fraction)
    (hrest : fraction ≠ [] → ∀ c ∈ rest.head?, c.isDigit = false)
    (hnone : fraction = [] → ∀ more left, rest = more ++ left → FractionText more → more = []) :
    Reader.fraction (fraction ++ rest) = (fraction, rest) := by
  cases h with
  | none =>
    rw [List.nil_append]
    obtain ⟨hsplit, htext⟩ := fraction_sound rest
    have hblank := hnone rfl _ _ hsplit htext
    rw [hblank, List.nil_append] at hsplit
    exact Prod.ext hblank hsplit.symm
  | @point digits hne hdigits =>
    obtain ⟨htake, hdrop⟩ := takeWhile_digits hdigits (hrest (List.cons_ne_nil _ _))
    simp only [List.cons_append, Reader.fraction, htake, hdrop, if_neg hne]

theorem sign_of_sign {sign digits : Text} (hsign : sign ∈ [[], ['+'], ['-']]) (hne : digits ≠ [])
    (hdigits : Digits digits) :
    Reader.sign (sign ++ (digits ++ rest)) = (sign, digits ++ rest) := by
  obtain ⟨d, more, rfl⟩ := List.exists_cons_of_ne_nil hne
  have hd : d.isDigit = true := hdigits d List.mem_cons_self
  simp only [List.mem_cons, List.not_mem_nil, or_false] at hsign
  rcases hsign with rfl | rfl | rfl
  · unfold Reader.sign
    split
    · rename_i he
      rw [(List.cons.inj he).1] at hd
      exact absurd hd (by decide)
    · rename_i he
      rw [(List.cons.inj he).1] at hd
      exact absurd hd (by decide)
    · rfl
  · rfl
  · rfl

theorem exponent_of_exponentText (h : ExponentText exponent)
    (hrest : exponent ≠ [] → ∀ c ∈ rest.head?, c.isDigit = false)
    (hnone : exponent = [] → ∀ more left, rest = more ++ left → ExponentText more → more = []) :
    Reader.exponent (exponent ++ rest) = (exponent, rest) := by
  cases h with
  | none =>
    rw [List.nil_append]
    obtain ⟨hsplit, htext⟩ := exponent_sound rest
    have hblank := hnone rfl _ _ hsplit htext
    rw [hblank, List.nil_append] at hsplit
    exact Prod.ext hblank hsplit.symm
  | @power letter sign digits hletter hsign hne hdigits =>
    obtain ⟨htake, hdrop⟩ := takeWhile_digits hdigits (hrest (by simp))
    have hpower : (letter = 'e' ∨ letter = 'E') ∧ digits ≠ [] := ⟨by simpa using hletter, hne⟩
    simp only [List.cons_append, List.append_assoc, Reader.exponent, sign_of_sign hsign hne hdigits, htake, hdrop,
      if_pos hpower]

theorem FractionText.first {c : Char} (h : FractionText fraction) (hc : c ∈ (fraction ++ rest).head?) :
    c = '.' ∨ fraction = [] ∧ c ∈ rest.head? := by
  cases h with
  | none => exact Or.inr ⟨rfl, hc⟩
  | point => exact Or.inl (Option.some.inj hc).symm

theorem ExponentText.first {c : Char} (h : ExponentText exponent) (hc : c ∈ (exponent ++ rest).head?) :
    c ∈ ['e', 'E'] ∨ exponent = [] ∧ c ∈ rest.head? := by
  cases h with
  | none => exact Or.inr ⟨rfl, hc⟩
  | power hletter => exact Or.inl (Option.some.inj hc ▸ hletter)

/-- One more digit makes a longer number, unless a zero stands for all digits before it. -/
theorem NumberText.snoc {d : Char} (hd : d.isDigit = true) (hminus : minus ∈ [[], ['-']]) (hwhole : WholeText whole)
    (hfraction : FractionText fraction) (hexponent : ExponentText exponent)
    (hzero : whole = ['0'] → fraction ≠ [] ∨ exponent ≠ []) :
    NumberText (minus ++ whole ++ fraction ++ exponent ++ [d]) := by
  cases hexponent with
  | @power letter sign digits hletter hsign hne hdigits =>
    have hmore : ExponentText (letter :: sign ++ (digits ++ [d])) :=
      .power hletter hsign (by simp) (hdigits.append (digits_singleton hd))
    simpa using NumberText.mk hminus hwhole hfraction hmore
  | none =>
    cases hfraction with
    | @point digits hne hdigits =>
      have hmore : FractionText ('.' :: (digits ++ [d])) := .point (by simp) (hdigits.append (digits_singleton hd))
      simpa using NumberText.mk hminus hwhole hmore .none
    | none =>
      cases hwhole with
      | zero => exact absurd (hzero rfl) (by simp)
      | @digits c more hc hdigits =>
        have hmore : WholeText (c :: (more ++ [d])) := .digits hc (hdigits.append (digits_singleton hd))
        simpa using NumberText.mk hminus hmore .none .none

theorem integerDigits_number (hminus : minus ∈ [[], ['-']]) (hwhole : WholeText whole)
    (hfraction : FractionText fraction) (hexponent : ExponentText exponent) :
    integerDigits (minus ++ whole ++ fraction ++ exponent) =
      if fraction = [] ∧ exponent = [] then some whole.length else none := by
  have hdigits : Digits whole := by
    cases hwhole with
    | zero => exact digits_singleton (by decide)
    | digits _ hdigits => exact hdigits
  have hcount : whole.countP Char.isDigit = whole.length := List.countP_eq_length.mpr hdigits
  have hall : whole.all (fun c => c.isDigit || c = '-') = true :=
    List.all_eq_true.mpr fun c hc => by simp [hdigits c hc]
  have hminusAll : minus.all (fun c => c.isDigit || c = '-') = true ∧ minus.countP Char.isDigit = 0 := by
    simp only [List.mem_cons, List.not_mem_nil, or_false] at hminus
    rcases hminus with rfl | rfl <;> decide
  unfold integerDigits
  cases hfraction with
  | point => simp
  | none =>
    cases hexponent with
    | power hletter =>
      simp only [List.mem_cons, List.not_mem_nil, or_false] at hletter
      rcases hletter with rfl | rfl <;> simp
    | none => simp [hall, hminusAll, hcount]


theorem sign_of_number (hminus : minus ∈ [[], ['-']]) (hwhole : WholeText whole) :
    (match minus ++ (whole ++ rest) with
      | '-' :: rest => (['-'], rest)
      | t => ([], t)) = (minus, whole ++ rest) := by
  obtain ⟨d, more, rfl, hd⟩ := hwhole.start
  simp only [List.mem_cons, List.not_mem_nil, or_false] at hminus
  rcases hminus with rfl | rfl
  · split
    · rename_i he
      rw [(List.cons.inj he).1] at hd
      exact absurd hd (by decide)
    · rfl
  · rfl

end Parts

/-- A number is read as far as it goes, and refused if it has too many digits. -/
theorem number_of_numberText (rules : Rules) {core rest : Text} (h : NumberText core) (hlong : Longest core rest) :
    Reader.number rules (core ++ rest) = barring (rules.fault (.number core)) (.number core, rest) := by
  obtain ⟨hminus, hwhole, hfraction, hexponent⟩ := h
  rename_i minus whole fraction exponent
  -- a digit behind the number, or behind a part of it, would be one of that part
  have hrest : (whole = ['0'] → fraction ≠ [] ∨ exponent ≠ []) → ∀ c ∈ rest.head?, c.isDigit = false := by
    intro hzero c hc
    obtain ⟨left, hleft⟩ := List.head?_eq_some_iff.mp hc
    refine eq_false_of_ne_true fun hd => ?_
    exact absurd (hlong [c] left hleft (.snoc hd hminus hwhole hfraction hexponent hzero)) (List.cons_ne_nil _ _)
  have hbehind : (whole = ['0'] → fraction ≠ []) → ∀ c ∈ (exponent ++ rest).head?, c.isDigit = false := by
    intro hzero c hc
    rcases hexponent.first hc with he | ⟨-, hc⟩
    · exact (forall_mem_of_all (by decide) : ∀ c ∈ ['e', 'E'], c.isDigit = false) c he
    · exact hrest (fun hz => Or.inl (hzero hz)) c hc
  have hexponentRead : Reader.exponent (exponent ++ rest) = (exponent, rest) := by
    refine exponent_of_exponentText hexponent (fun hne => hrest fun _ => Or.inr hne) ?_
    rintro rfl more left hsplit hmore
    refine hlong more left hsplit ?_
    simpa using NumberText.mk hminus hwhole hfraction hmore
  have hfractionRead : Reader.fraction (fraction ++ (exponent ++ rest)) = (fraction, exponent ++ rest) := by
    refine fraction_of_fractionText hfraction (fun hne => hbehind fun _ => hne) ?_
    rintro rfl more left hsplit hmore
    cases hmore with
    | none => rfl
    | @point digits hne hdigits =>
      have hpoint : '.' ∈ (exponent ++ rest).head? := by rw [hsplit]; rfl
      rcases hexponent.first hpoint with he | ⟨rfl, -⟩
      · exact absurd he (by decide)
      · refine hlong _ left hsplit ?_
        simpa using NumberText.mk hminus hwhole (.point hne hdigits) .none
  have hwholeRead : wholePart (whole ++ (fraction ++ (exponent ++ rest))) =
      some (whole, fraction ++ (exponent ++ rest)) := by
    refine wholePart_of_wholeText hwhole ?_
    by_cases hzero : whole = ['0']
    · exact Or.inl hzero
    refine Or.inr fun c hc => ?_
    rcases hfraction.first hc with rfl | ⟨-, hc⟩
    · decide
    · exact hbehind (fun hz => absurd hz hzero) c hc
  have hdigits := integerDigits_number hminus hwhole hfraction hexponent
  rw [Rules.fault, hdigits, List.append_assoc, List.append_assoc, List.append_assoc]
  unfold Reader.number
  split
  rename_i hsigns
  obtain ⟨rfl, rfl⟩ := Prod.mk.inj ((sign_of_number hminus hwhole).symm.trans hsigns)
  simp only [hwholeRead, hfractionRead, hexponentRead]
  by_cases hinteger : fraction = [] ∧ exponent = []
  · obtain ⟨rfl, rfl⟩ := hinteger
    by_cases hlimit : rules.maxDigits.any (· < whole.length) = true <;> simp [hlimit]
  · have hkeep : ¬ (fraction = [] ∧ exponent = [] ∧ rules.maxDigits.any (· < whole.length) = true) :=
      fun h => hinteger ⟨h.1, h.2.1⟩
    rw [if_neg hinteger, if_neg hkeep]
    rfl

/-! ## Words -/

theorem isSpace_digit {c : Char} (h : c.isDigit = true) : isSpace c = false ∧ c ≠ ']' := by
  constructor
  · refine eq_false_of_ne_true fun hspace => ?_
    simp only [isSpace, decide_eq_true_eq] at hspace
    rcases hspace with rfl | rfl | rfl | rfl <;> exact absurd h (by decide)
  · rintro rfl
    exact absurd h (by decide)

/-- Where a value may end: with the text, or in front of whitespace, a comma or a closing bracket. -/
def Ends (rest : Text) : Prop := ∀ c ∈ rest.head?, isSpace c = true ∨ c ∈ [',', ']', '\x7d']

theorem ends_nil : Ends [] := by
  rintro c ⟨⟩

theorem ends_cons {c : Char} {rest : Text} (h : c ∈ [',', ']', '\x7d']) : Ends (c :: rest) := by
  rintro c' hc
  obtain rfl := Option.some.inj hc
  exact Or.inr h

theorem Ends.after {after rest : Text} (hafter : Spaces after) (h : Ends rest) : Ends (after ++ rest) := by
  cases after with
  | nil => exact h
  | cons c after =>
    rintro c' hc
    obtain rfl := Option.some.inj hc
    exact Or.inl (hafter c List.mem_cons_self)

/-- What may stand behind a value is no part of a number. -/
theorem Ends.longest {core rest : Text} (h : Ends rest) : Longest core rest := by
  rintro more left rfl hlonger
  cases more with
  | nil => rfl
  | cons c more =>
    rcases h c rfl with hspace | hstop
    · have hnot : ∀ c ∈ ['-', '+', '.', 'e', 'E'], isSpace c = false := forall_mem_of_all (by decide)
      rcases hlonger.mem (List.mem_append_right _ List.mem_cons_self) with hdigit | hsign
      · rw [(isSpace_digit hdigit).1] at hspace
        cases hspace
      · rw [hnot c hsign] at hspace
        cases hspace
    · have hnot : ∀ c ∈ [',', ']', '\x7d'], c.isDigit = false ∧ c ∉ ['-', '+', '.', 'e', 'E'] :=
        forall_mem_of_all (by decide)
      rcases hlonger.mem (List.mem_append_right _ List.mem_cons_self) with hdigit | hsign
      · rw [(hnot c hstop).1] at hdigit
        cases hdigit
      · exact absurd hsign (hnot c hstop).2

/-- A number starts with a digit, or with one behind a minus. -/
theorem NumberText.start {core : Text} (h : NumberText core) :
    ∃ d more, d.isDigit = true ∧ (core = d :: more ∨ core = '-' :: d :: more) := by
  obtain ⟨hminus, hwhole, -, -⟩ := h
  obtain ⟨d, more, rfl, hd⟩ := hwhole.start
  simp only [List.mem_cons, List.not_mem_nil, or_false] at hminus
  rcases hminus with rfl | rfl
  · exact ⟨d, _, hd, Or.inl rfl⟩
  · exact ⟨d, _, hd, Or.inr rfl⟩

/-- No word starts like a number. -/
theorem not_number_of_word {core more rest : Text} {w : Text × Json} (h : NumberText core) (hw : w ∈ words) :
    w.1 ++ more ≠ core ++ rest := by
  intro he
  obtain ⟨d, left, hd, hcore⟩ := h.start
  have hfirst : ∀ w ∈ words, w.1.head?.all (!·.isDigit) = true ∧ w.1.head?.isSome = true ∧
      (w.1.head? = some '-' → w.1.tail.head?.all (!·.isDigit) = true ∧ w.1.tail.head?.isSome = true) := by decide
  obtain ⟨hnot, hsome, hminus⟩ := hfirst w hw
  obtain ⟨c, hc⟩ := Option.isSome_iff_exists.mp hsome
  obtain ⟨word, hword⟩ := List.head?_eq_some_iff.mp hc
  rw [hword] at he hnot hminus
  rcases hcore with rfl | rfl
  · obtain rfl : c = d := (List.cons.inj he).1
    simp [hd] at hnot
  · obtain ⟨hdash, hmore⟩ := List.cons.inj he
    subst hdash
    obtain ⟨hnot, hsome⟩ := hminus rfl
    obtain ⟨c, hc⟩ := Option.isSome_iff_exists.mp hsome
    obtain ⟨word', hword'⟩ := List.head?_eq_some_iff.mp hc
    rw [List.tail_cons] at hword'
    rw [List.tail_cons, hword'] at hnot
    rw [hword'] at hmore
    obtain rfl : c = d := (List.cons.inj hmore).1
    simp [hd] at hnot

theorem scalar_of_number (rules : Rules) {core : Text} (h : NumberText core) (rest : Text) :
    scalar rules (core ++ rest) = Reader.number rules (core ++ rest) := by
  have hnone : words.find? (fun w => w.1.isPrefixOf (core ++ rest)) = none := by
    refine List.find?_eq_none.mpr fun w hw hprefix => ?_
    obtain ⟨more, hmore⟩ := List.isPrefixOf_iff_prefix.mp hprefix
    exact not_number_of_word h hw hmore
  simp only [scalar, hnone]

theorem NumberText.first_append {core : Text} (h : NumberText core) (rest : Text) :
    ∀ c ∈ (core ++ rest).head?, c ∉ ['"', '[', '\x7b'] := by
  intro c hc hopen
  obtain ⟨d, left, hd, rfl | rfl⟩ := h.start
  · obtain rfl := Option.some.inj hc
    have hnot : ∀ c ∈ ['"', '[', '\x7b'], c.isDigit = false := forall_mem_of_all (by decide)
    rw [hnot _ hopen] at hd
    cases hd
  · obtain rfl := Option.some.inj hc
    exact absurd hopen (by decide)

theorem value_of_scalar (rules : Rules) (depth : Nat) {t : Text}
    (h : ∀ c ∈ t.head?, c ∉ ['"', '[', '\x7b']) : Reader.value rules (depth + 1) t = scalar rules t := by
  unfold Reader.value
  split
  · exact absurd (h _ rfl) (by decide)
  · exact absurd (h _ rfl) (by decide)
  · exact absurd (h _ rfl) (by decide)
  · rfl

/-! ## Lists -/

section Items

variable {α : Type} {read : Text → Except Fault (α × Text)} {item : Text → α → Prop} {fault : α → Option Fault}
  {opening close : Char} {n : Nat} {t core : Text} {as : List α}

theorem not_space_of_close (h : close ∈ [']', '\x7d']) : isSpace close = false ∧ close ≠ ',' :=
  (forall_mem_of_all (by decide) : ∀ c ∈ [']', '\x7d'], isSpace c = false ∧ c ≠ ',') close h

def Opens (item : Text → α → Prop) (close : Char) : Prop :=
  ∀ core a, item core a → ∃ c rest, core = c :: rest ∧ isSpace c = false ∧ c ≠ close

/-- A reader takes the texts of an item, if they are no longer than `n`, or it refuses them for the item's
    fault. -/
def Answers (n : Nat) (read : Text → Except Fault (α × Text)) (item : Text → α → Prop) (fault : α → Option Fault) :
    Prop :=
  ∀ core a, item core a → core.length ≤ n → ∀ rest, Ends rest → read (core ++ rest) = barring (fault a) (a, rest)

theorem Opens.skip (hopens : Opens item close) {a : α} (h : item core a) (rest : Text) :
    skip (core ++ rest) = core ++ rest := by
  obtain ⟨c, core', rfl, hspace, -⟩ := hopens core a h
  exact skip_cons hspace _

theorem items_of_itemsText (hopens : Opens item close) (hclose : close ∈ [']', '\x7d'])
    (hread : Answers n read item fault) (h : ItemsText item t as) (hn : t.length ≤ n) (rest : Text) {fuel : Nat}
    (hfuel : as.length ≤ fuel) :
    items close read fuel (Reader.skip (t ++ close :: rest)) = barring (as.findSome? fault) (as, rest) := by
  obtain ⟨hspace, hcomma⟩ := not_space_of_close hclose
  have hends : Ends (close :: rest) := ends_cons (List.mem_cons_of_mem _ hclose)
  induction h generalizing fuel with
  | @one before core after a hb hcore hafter =>
    obtain ⟨m, rfl⟩ : ∃ m, fuel = m + 1 := ⟨fuel - 1, by simp at hfuel; omega⟩
    rw [List.append_assoc, List.append_assoc, skip_append hb, hopens.skip hcore, items,
      hread core a hcore (by simp at hn; omega) _ (hends.after hafter), List.findSome?_singleton]
    cases fault a with
    | some f => rfl
    | none =>
      simp only [barring_none, bind, Except.bind, skip_append hafter, skip_cons hspace, if_true]
      rfl
  | @cons before core after inside a as hb hcore hafter hinside ih =>
    obtain ⟨m, rfl⟩ : ∃ m, fuel = m + 1 := ⟨fuel - 1, by simp at hfuel; omega⟩
    have hrest := ih (by simp at hn; omega) (by simpa using hfuel : as.length ≤ m)
    have hitem := hread core a hcore (by simp at hn; omega) (after ++ (',' :: inside ++ close :: rest))
      ((ends_cons (by decide)).after hafter)
    rw [List.append_assoc, List.append_assoc, List.append_assoc, skip_append hb, hopens.skip hcore, items, hitem,
      List.findSome?_cons]
    cases fault a with
    | some f => rfl
    | none =>
      simp only [barring_none, bind, Except.bind, skip_append hafter, List.cons_append,
        skip_cons (show isSpace ',' = false by decide), if_neg (Ne.symm hcomma), if_true, hrest]
      cases as.findSome? fault <;> rfl

/-- No list has more items than its text has characters, even without the whitespace in front. -/
theorem ItemsText.length_le (hopens : Opens item close) (h : ItemsText item t as) (rest : Text) :
    as.length ≤ (Reader.skip (t ++ rest)).length := by
  induction h with
  | one hb hcore hafter =>
    obtain ⟨c, core', rfl, -, -⟩ := hopens _ _ hcore
    rw [List.append_assoc, List.append_assoc, skip_append hb, hopens.skip hcore]
    simp
  | @cons before core after inside a as hb hcore hafter hinside ih =>
    have hskip := length_skip_le (inside ++ rest)
    obtain ⟨c, core', rfl, -, -⟩ := hopens _ _ hcore
    rw [List.append_assoc, List.append_assoc, List.append_assoc, skip_append hb, hopens.skip hcore]
    simp only [List.length_append, List.length_cons] at hskip ⊢
    omega

theorem ItemsText.opens (hopens : Opens item close) (h : ItemsText item t as) (rest : Text) :
    ∃ c left, Reader.skip (t ++ rest) = c :: left ∧ c ≠ close := by
  obtain ⟨before, core, a, left, rfl, hb, hcore⟩ : ∃ before core a left, t = before ++ (core ++ left) ∧
      Spaces before ∧ item core a := by
    cases h with
    | one hb hcore _ => exact ⟨_, _, _, _, List.append_assoc _ _ _, hb, hcore⟩
    | cons hb hcore _ _ => exact ⟨_, _, _, _, by simp only [List.append_assoc]; rfl, hb, hcore⟩
  obtain ⟨c, core', rfl, hspace, hclose⟩ := hopens core a hcore
  rw [List.append_assoc, skip_append hb, List.append_assoc, hopens.skip hcore]
  exact ⟨c, _, rfl, hclose⟩

theorem enclosed_of_enclosed (hopens : Opens item close) (hclose : close ∈ [']', '\x7d'])
    (hread : Answers n read item fault) (h : Enclosed opening close item t as) (hn : t.length ≤ n + 1) (rest : Text) :
    ∃ inside, t = opening :: inside ∧
      enclosed close read (inside ++ rest) = barring (as.findSome? fault) (as, rest) := by
  cases h with
  | @blank blank hblank =>
    have hspace : isSpace close = false := (not_space_of_close hclose).1
    refine ⟨blank ++ [close], rfl, ?_⟩
    simp [enclosed, skip_append hblank, skip_cons hspace]
  | @items inside _ hitems =>
    refine ⟨inside ++ [close], rfl, ?_⟩
    have hread' : ∀ fuel, as.length ≤ fuel →
        items close read fuel (Reader.skip (inside ++ close :: rest)) = barring (as.findSome? fault) (as, rest) :=
      fun fuel hfuel => items_of_itemsText hopens hclose hread hitems (by simp at hn; omega) rest hfuel
    have hlength := hitems.length_le hopens (close :: rest)
    obtain ⟨c, left, hskip, hc⟩ := hitems.opens hopens (close :: rest)
    rw [hskip] at hread' hlength
    rw [List.append_assoc, List.singleton_append]
    simp only [enclosed, hskip, if_neg hc]
    exact hread' _ hlength

end Items

/-! ## Values -/

def firsts : List Char := ['-', 'N', 'I', 'n', 'f', 't', '"', '[', '\x7b']

theorem Denotes.first {core : Text} {v : Json} (h : Denotes core v) :
    ∃ c rest, core = c :: rest ∧ (c.isDigit = true ∨ c ∈ firsts) := by
  cases h with
  | word h =>
    simp only [plainWords, List.mem_cons, Prod.mk.injEq, List.not_mem_nil, or_false] at h
    rcases h with ⟨rfl, -⟩ | ⟨rfl, -⟩ | ⟨rfl, -⟩
    · exact ⟨'n', _, rfl, by decide⟩
    · exact ⟨'f', _, rfl, by decide⟩
    · exact ⟨'t', _, rfl, by decide⟩
  | number h =>
    rcases h with h | h
    · obtain ⟨d, rest, hd, rfl | rfl⟩ := h.start
      · exact ⟨d, _, rfl, Or.inl hd⟩
      · exact ⟨'-', _, rfl, by decide⟩
    · simp only [notFinite, List.mem_cons, List.not_mem_nil, or_false] at h
      rcases h with rfl | rfl | rfl
      · exact ⟨'N', _, rfl, by decide⟩
      · exact ⟨'I', _, rfl, by decide⟩
      · exact ⟨'-', _, rfl, by decide⟩
  | string => exact ⟨'"', _, rfl, by decide⟩
  | array h => cases h <;> exact ⟨'[', _, rfl, by decide⟩
  | object h => cases h <;> exact ⟨'\x7b', _, rfl, by decide⟩

theorem not_space_of_first {c : Char} (h : c.isDigit = true ∨ c ∈ firsts) : isSpace c = false ∧ c ≠ ']' := by
  rcases h with hdigit | hfirst
  · exact isSpace_digit hdigit
  · exact (forall_mem_of_all (by decide) : ∀ c ∈ firsts, isSpace c = false ∧ c ≠ ']') c hfirst

/-- Whitespace and the start of a value are no byte order mark. -/
theorem not_mark_of_first {before rest : Text} {c : Char} (hb : Spaces before) (h : c.isDigit = true ∨ c ∈ firsts) :
    (before ++ c :: rest).head? ≠ some '\uFEFF' := by
  intro he
  cases before with
  | nil =>
    obtain rfl : c = '\uFEFF' := Option.some.inj he
    exact absurd h (by decide)
  | cons b before =>
    obtain rfl : b = '\uFEFF' := Option.some.inj he
    exact absurd (hb _ List.mem_cons_self) (by decide)

theorem opens_denotes : Opens Denotes ']' := by
  intro core v h
  obtain ⟨c, rest, rfl, hfirst⟩ := h.first
  exact ⟨c, rest, rfl, not_space_of_first hfirst⟩

theorem opens_members : Opens (MemberText Denotes) '\x7d' := by
  intro core m h
  cases h with
  | mk => exact ⟨'"', _, rfl, by decide, by decide⟩

theorem answers_member {n : Nat} {value : Text → Except Fault (Json × Text)} {fault : Json → Option Fault}
    (hvalue : Answers n value Denotes fault) :
    Answers n (member value) (MemberText Denotes) fun m => fault m.2 := by
  intro core m h hn rest hrest
  cases h with
  | @mk inside before after core key v hinside hb hafter hcore =>
    have hskip := opens_denotes.skip hcore rest
    have hread := hvalue core v hcore (by simp at hn; omega) rest hrest
    simp only [List.cons_append, List.append_assoc, member, string_of_stringText hinside, bind, Except.bind,
      skip_append hb, skip_cons (show isSpace ':' = false by decide), skip_append hafter, hskip, hread]
    cases fault v <;> rfl

theorem mem_words_of_plain {w : Text × Json} (h : w ∈ plainWords) : w ∈ words := by
  simp only [plainWords, List.mem_cons, List.not_mem_nil, or_false] at h
  rcases h with rfl | rfl | rfl <;> simp [words]

theorem mem_words_of_notFinite {t : Text} (h : t ∈ notFinite) : (t, .number t) ∈ words := by
  simp only [notFinite, List.mem_cons, List.not_mem_nil, or_false] at h
  rcases h with rfl | rfl | rfl <;> simp [words]

theorem value_of_word (rules : Rules) (depth : Nat) {word : Text} {v : Json} (h : (word, v) ∈ words) (rest : Text) :
    Reader.value rules (depth + 1) (word ++ rest) = barring (v.fault? rules) (v, rest) := by
  simp only [words, List.mem_cons, Prod.mk.injEq, List.not_mem_nil, or_false] at h
  rcases h with ⟨rfl, rfl⟩ | ⟨rfl, rfl⟩ | ⟨rfl, rfl⟩ | ⟨rfl, rfl⟩ | ⟨rfl, rfl⟩ | ⟨rfl, rfl⟩ <;> rfl

/-- A value is read from its texts, or it is refused for its first fault. -/
theorem answers_value (rules : Rules) (n : Nat) : Answers n (Reader.value rules n) Denotes (fault? rules) := by
  induction n with
  | zero =>
    intro core v h hn
    obtain ⟨c, more, rfl, -⟩ := opens_denotes core v h
    exact absurd hn (by simp)
  | succ n ih =>
    intro core v h hn rest hrest
    cases h with
    | word h => exact value_of_word rules n (mem_words_of_plain h) rest
    | @number _ h =>
      rcases h with h | h
      · rw [value_of_scalar rules n (h.first_append rest), scalar_of_number rules h,
          number_of_numberText rules h hrest.longest, fault?_number]
      · exact value_of_word rules n (mem_words_of_notFinite h) rest
    | @string inside s hinside =>
      simp only [List.cons_append, List.append_assoc, List.nil_append, Reader.value, string_of_stringText hinside, bind,
        Except.bind]
      rfl
    | array h =>
      obtain ⟨inside, rfl, hinside⟩ := enclosed_of_enclosed opens_denotes (by decide) ih h hn rest
      rw [fault?_array, List.cons_append, Reader.value, hinside]
      cases List.findSome? (fault? rules) _ <;> rfl
    | object h =>
      obtain ⟨inside, rfl, hinside⟩ := enclosed_of_enclosed opens_members (by decide) (answers_member ih) h hn rest
      rw [fault?_object, List.cons_append, Reader.value, hinside]
      cases hms : List.findSome? _ _ with
      | some f => rfl
      | none =>
        simp only [barring_none, bind, Except.bind, closeObject_eq, Option.none_or]
        cases rules.fault _ <;> rfl

theorem head?_of_document {t : Text} {v : Json} (h : Document t v) : t.head? ≠ some '\uFEFF' := by
  obtain ⟨hb, hcore, -⟩ := h
  obtain ⟨c, rest, rfl, hfirst⟩ := hcore.first
  rw [List.append_assoc]
  exact not_mark_of_first hb hfirst

/-- A text that denotes a value is read as that value, or it is refused for the value's first fault. -/
theorem read_of_document (rules : Rules) {t : Text} {v : Json} (h : Document t v) :
    read rules t = barring (v.fault? rules) v := by
  have hhead := head?_of_document h
  obtain ⟨hb, hcore, hafter⟩ := h
  rename_i before core after
  have hvalue := answers_value rules ((before ++ core ++ after).length + 1) core v hcore (by simp; omega) after
    (by simpa using ends_nil.after hafter)
  have hend : Reader.skip after = [] := by
    have h := skip_append hafter []
    rwa [List.append_nil] at h
  rw [read, if_neg hhead, List.append_assoc, skip_append hb, opens_denotes.skip hcore, ← List.append_assoc, hvalue]
  cases v.fault? rules with
  | some f => rfl
  | none =>
    simp only [barring_none, bind, Except.bind, hend]
    rfl

end NodeGen.Json
