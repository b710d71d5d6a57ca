/-
  NodeGen.Proofs.Oversized — a file that is no grammar, and what a run says of it.

  A file that yields no grammar is refused with a message that starts with its path, and the run exits with code 1.
  There is one exception: an integer with more than 4300 digits. It is no flaw that the loading knows of, and the run
  ends without a report, although the same value with fewer digits is refused for its shape.

  - `Overlong` says that a text starts like a value, complete and without a fault up to such an integer.
    Whatever follows the integer is never read.
  - `read_eq_oversized_iff`: the reading stops in this way for these texts and for no others.
  - `handled_iff`: a file is handled as a grammar file should be unless it has such an integer (`Oversized`), and
    the run aborts if it has one. `unreported` is the least such file.
-/

import NodeGen.Proofs.GrammarFile
import NodeGen.Proofs.Outputs

namespace NodeGen

namespace Json

open NodeGen.Json.Reader

/-! ## Texts at which reading stops -/

def Passing {α : Type} (item : Text → α → Prop) (fault : α → Option Fault) (core : Text) (a : α) : Prop :=
  item core a ∧ fault a = none

inductive ItemsStop {α : Type} (item : Text → α → Prop) (stop : Text → Nat → Prop) : Text → Nat → Prop
  | here {before t : Text} {n : Nat} : Spaces before → stop t n → ItemsStop item stop (before ++ t) n
  | later {before core after t : Text} {a : α} {n : Nat} : Spaces before → item core a → Spaces after →
      ItemsStop item stop t n → ItemsStop item stop (before ++ core ++ after ++ ',' :: t) n

inductive MemberStop (stop : Text → Nat → Prop) : Text → Nat → Prop
  | mk {inside before after t : Text} {key : Letters} {n : Nat} : StringText inside key → Spaces before →
      Spaces after → stop t n → MemberStop stop ('"' :: inside ++ '"' :: before ++ ':' :: after ++ t) n

/-- A text that starts like a value, up to an integer with `n` digits, which the rules forbid. -/
inductive Overlong (rules : Rules) : Text → Nat → Prop
  | integer {core rest : Text} {n : Nat} : NumberText core → Longest core rest → integerDigits core = some n →
      rules.maxDigits.any (· < n) = true → Overlong rules (core ++ rest) n
  | array {t : Text} {n : Nat} : ItemsStop (Passing Denotes (fault? rules)) (Overlong rules) t n →
      Overlong rules ('[' :: t) n
  | object {t : Text} {n : Nat} :
      ItemsStop (Passing (MemberText Denotes) fun m => m.2.fault? rules) (MemberStop (Overlong rules)) t n →
      Overlong rules ('\x7b' :: t) n

/-! ## Lists -/

section Items

variable {α : Type} {read : Text → Except Fault (α × Text)} {item : Text → α → Prop} {fault : α → Option Fault}
  {stop : Text → Nat → Prop} {close : Char} {n k : Nat} {before t : Text}

/-- A reader stops at the texts that `stop` names, if they are no longer than `n`. -/
def Halts (n : Nat) (read : Text → Except Fault (α × Text)) (stop : Text → Nat → Prop) : Prop :=
  ∀ t k, stop t k → t.length ≤ n → read t = .error (.oversizedInteger k)

def HaltsOnly (n : Nat) (read : Text → Except Fault (α × Text)) (stop : Text → Nat → Prop) : Prop :=
  ∀ t k, t.length ≤ n → read t = .error (.oversizedInteger k) → stop t k

theorem items_of_itemsStop (hopens : Opens item close) (hstops : Opens stop close) (hclose : close ∈ [']', '\x7d'])
    (hread : Answers n read item fault) (hhalts : Halts n read stop) (h : ItemsStop (Passing item fault) stop t k)
    (hn : t.length ≤ n) {fuel : Nat} (hfuel : (Reader.skip t).length ≤ fuel) :
    items close read fuel (Reader.skip t) = .error (.oversizedInteger k) := by
  have hcomma : close ≠ ',' := (not_space_of_close hclose).2
  induction h generalizing fuel with
  | @here before t k hb hstop =>
    have hskip : Reader.skip (before ++ t) = t := by
      obtain ⟨c, rest, rfl, hspace, -⟩ := hstops t k hstop
      rw [skip_append hb, skip_cons hspace]
    obtain ⟨c, rest, rfl, -⟩ := hstops t k hstop
    rw [hskip] at hfuel ⊢
    obtain ⟨m, rfl⟩ : ∃ m, fuel = m + 1 := ⟨fuel - 1, by simp at hfuel; omega⟩
    rw [items, hhalts _ k hstop (by simp at hn ⊢; omega)]
    rfl
  | @later before core after t a k hb hcore hafter _ ih =>
    obtain ⟨hcore, hfault⟩ := hcore
    have hskip : Reader.skip (before ++ core ++ after ++ ',' :: t) = core ++ (after ++ ',' :: t) := by
      rw [List.append_assoc, List.append_assoc, skip_append hb, hopens.skip hcore]
    have hshorter := length_skip_le t
    rw [hskip] at hfuel ⊢
    simp only [List.length_append, List.length_cons] at hfuel hn
    obtain ⟨m, rfl⟩ : ∃ m, fuel = m + 1 := ⟨fuel - 1, by omega⟩
    have hitem := hread core a hcore (by omega) (after ++ ',' :: t) ((ends_cons (by decide)).after hafter)
    have hrest := ih (by omega) (show (Reader.skip t).length ≤ m by omega)
    rw [hfault] at hitem
    simp only [items, hitem, barring_none, bind, Except.bind, skip_append hafter,
      skip_cons (show isSpace ',' = false by decide), if_neg (Ne.symm hcomma), if_true, hrest]

theorem itemsStop_of_items (hread : Answers n read item fault) (hsound : Sound read item)
    (honly : HaltsOnly n read stop) {fuel : Nat} (hb : Spaces before) (hn : t.length ≤ n)
    (h : items close read fuel t = .error (.oversizedInteger k)) :
    ItemsStop (Passing item fault) stop (before ++ t) k := by
  induction fuel generalizing before t with
  | zero => cases h
  | succ fuel ih =>
    simp only [items, bind, Except.bind] at h
    split at h
    · rename_i f hitem
      cases h
      exact .here hb (honly t k hn hitem)
    · rename_i read' hitem
      obtain ⟨a, left⟩ := read'
      obtain ⟨core, rfl, hcore⟩ := hsound t a left hitem
      obtain ⟨after, hafter, hsplit⟩ := skip_split left
      simp only at h
      split at h
      · cases h
      · rename_i c next hskip
        rw [hskip] at hsplit
        split at h
        · cases h
        split at h
        · rename_i hcomma
          subst hcomma
          split at h
          · rename_i f hitems
            cases h
            simp only [hsplit, List.length_append, List.length_cons] at hn
            have hends : Ends left := hsplit ▸ (ends_cons (by decide)).after hafter
            have hfault : fault a = none := by
              have hanswer := hread core a hcore (by omega) left hends
              rw [hitem] at hanswer
              cases hfound : fault a with
              | none => rfl
              | some f => rw [hfound] at hanswer; cases hanswer
            obtain ⟨before', hb', hsplit'⟩ := skip_split next
            have hshorter := length_skip_le next
            have hrest := ih hb' (by omega) hitems
            rw [← hsplit'] at hrest
            rw [hsplit, ← List.append_assoc, ← List.append_assoc]
            exact .later hb ⟨hcore, hfault⟩ hafter hrest
          · cases h
        · cases h

theorem enclosed_of_itemsStop (hopens : Opens item close) (hstops : Opens stop close) (hclose : close ∈ [']', '\x7d'])
    (hread : Answers n read item fault) (hhalts : Halts n read stop) (h : ItemsStop (Passing item fault) stop t k)
    (hn : t.length ≤ n) : enclosed close read t = .error (.oversizedInteger k) := by
  obtain ⟨c, rest, hskip, hc⟩ : ∃ c rest, Reader.skip t = c :: rest ∧ c ≠ close := by
    cases h with
    | here hb hstop =>
      obtain ⟨c, rest, rfl, hspace, hc⟩ := hstops _ _ hstop
      exact ⟨c, rest, by rw [skip_append hb, skip_cons hspace], hc⟩
    | later hb hcore hafter _ =>
      obtain ⟨c, rest, rfl, hspace, hc⟩ := hopens _ _ hcore.1
      exact ⟨c, _, by rw [List.append_assoc, List.append_assoc, skip_append hb, List.cons_append, skip_cons hspace],
        hc⟩
  have hitems := items_of_itemsStop hopens hstops hclose hread hhalts h hn (Nat.le_refl _)
  rw [hskip] at hitems
  simp only [enclosed, hskip, if_neg hc]
  exact hitems

theorem itemsStop_of_enclosed (hread : Answers n read item fault) (hsound : Sound read item)
    (honly : HaltsOnly n read stop) (hn : t.length ≤ n)
    (h : enclosed close read t = .error (.oversizedInteger k)) : ItemsStop (Passing item fault) stop t k := by
  obtain ⟨before, hb, hsplit⟩ := skip_split t
  have hshorter := length_skip_le t
  have hitems : ∀ fuel, items close read fuel (Reader.skip t) = .error (.oversizedInteger k) →
      ItemsStop (Passing item fault) stop t k := by
    intro fuel hfuel
    have hstop := itemsStop_of_items hread hsound honly hb (by omega) hfuel
    rwa [← hsplit] at hstop
  unfold enclosed at h
  split at h
  · rename_i hskip
    rw [← hskip] at h
    exact hitems _ h
  · rename_i c next hskip
    split at h
    · cases h
    · rw [← hskip] at h
      exact hitems _ h

end Items

/-! ## Members -/

theorem piece_error {opening t : Text} {f : Fault} (h : piece opening t = .error f) : ∀ k, f ≠ .oversizedInteger k := by
  rintro k rfl
  have hescape : ∀ u, unicodeEscape u ≠ .error (.oversizedInteger k) := by
    intro u hu
    unfold unicodeEscape secondUnit at hu
    repeat' split at hu
    all_goals cases hu
  unfold piece at h
  split at h
  · cases h
  · cases h
  · cases h
  · rename_i rest
    cases hread : unicodeEscape rest with
    | ok read => rw [hread] at h; cases h
    | error f =>
      rw [hread] at h
      cases h
      exact hescape rest hread
  · split at h <;> cases h
  · split at h <;> cases h

theorem string_ne_oversized {t : Text} {k : Nat} : Reader.string t ≠ .error (.oversizedInteger k) := by
  have hpieces : ∀ opening fuel u, pieces opening fuel u ≠ .error (.oversizedInteger k) := by
    intro opening fuel
    induction fuel with
    | zero => intro u h; cases h
    | succ fuel ih =>
      intro u h
      simp only [pieces, bind, Except.bind] at h
      split at h
      · rename_i hpiece
        exact piece_error hpiece k (Except.error.inj h)
      · split at h
        · cases h
        · split at h
          · rename_i hrest
            exact ih _ (hrest.trans h)
          · cases h
  exact hpieces _ _ _

section Members

variable {value : Text → Except Fault (Json × Text)} {stop : Text → Nat → Prop} {n : Nat}

theorem member_halts (hstops : Opens stop ']') (h : Halts n value stop) : Halts n (member value) (MemberStop stop) := by
  rintro t k hstop hn
  obtain ⟨hinside, hb, hafter, hstop⟩ := hstop
  rename_i inside before after t key
  obtain ⟨c, rest, rfl, hspace, -⟩ := hstops t k hstop
  have hread := h _ k hstop (by simp at hn ⊢; omega)
  simp only [List.cons_append, List.append_assoc, member, string_of_stringText hinside, bind, Except.bind,
    skip_append hb, skip_cons (show isSpace ':' = false by decide), skip_append hafter, skip_cons hspace, hread]

theorem member_haltsOnly (h : HaltsOnly n value stop) : HaltsOnly n (member value) (MemberStop stop) := by
  intro t k hn hread
  unfold member at hread
  split at hread
  · rename_i inside
    simp only [bind, Except.bind] at hread
    split at hread
    · rename_i f hkey
      cases hread
      exact absurd hkey string_ne_oversized
    · rename_i read hkey
      obtain ⟨key, left⟩ := read
      obtain ⟨core, rfl, hcore⟩ := string_sound hkey
      obtain ⟨before, hb, hsplit⟩ := skip_split left
      simp only at hread
      split at hread
      · rename_i next hskip
        rw [hskip] at hsplit
        split at hread
        · rename_i f hvalue
          cases hread
          obtain ⟨after, hafter, hsplit'⟩ := skip_split next
          have hshorter := length_skip_le next
          simp only [hsplit, List.length_append, List.length_cons] at hn
          have hstop := h _ k (by omega) hvalue
          have hmember : MemberStop stop
            ('"' :: core ++ '"' :: before ++ ':' :: after ++ Reader.skip next) k := .mk hcore hb hafter hstop
          rw [hsplit, hsplit']
          simpa using hmember
        · cases hread
      · cases hread
  · cases hread

end Members

/-! ## Values -/

/-- A number goes on to where no longer one starts. -/
theorem exists_longest {core : Text} (h : NumberText core) (rest : Text) :
    ∃ core' rest', core ++ rest = core' ++ rest' ∧ NumberText core' ∧ Longest core' rest' := by
  by_cases hlongest : Longest core rest
  · exact ⟨core, rest, rfl, h, hlongest⟩
  simp only [Longest, Classical.not_forall] at hlongest
  obtain ⟨more, left, rfl, hmore, hne⟩ := hlongest
  have hshorter : left.length < (more ++ left).length := by
    have hpos := List.length_pos_iff.mpr hne
    rw [List.length_append]
    omega
  rw [← List.append_assoc]
  exact exists_longest hmore left
termination_by rest.length

theorem number_of_oversized {rules : Rules} {t : Text} {k : Nat}
    (h : Reader.number rules t = .error (.oversizedInteger k)) : ∃ core rest, t = core ++ rest ∧ NumberText core := by
  unfold Reader.number at h
  split at h
  rename_i minus unsigned hsigns
  obtain ⟨hminus, ht⟩ : minus ∈ [[], ['-']] ∧ t = minus ++ unsigned := by
    split at hsigns <;> (cases hsigns; simp)
  simp only at h
  split at h
  · cases h
  · rename_i whole after hwhole
    obtain ⟨rfl, hwholeText⟩ := wholePart_sound hwhole
    refine ⟨minus ++ whole, after, by rw [ht, List.append_assoc], ?_⟩
    simpa using NumberText.mk hminus hwholeText .none .none

theorem fault_eq_oversized_iff {rules : Rules} {core : Text} {k : Nat} :
    rules.fault (.number core) = some (.oversizedInteger k) ↔
      integerDigits core = some k ∧ rules.maxDigits.any (· < k) = true := by
  simp only [Rules.fault]
  cases integerDigits core with
  | none => simp
  | some n =>
    by_cases hn : rules.maxDigits.any (· < n) = true
    · simp only [hn, if_true, Option.some.injEq, Fault.oversizedInteger.injEq]
      constructor
      · rintro rfl
        exact ⟨rfl, hn⟩
      · exact fun h => h.1
    · simp only [hn, Option.some.injEq]
      constructor
      · intro h
        cases h
      · rintro ⟨rfl, h⟩
        exact absurd h hn

theorem Overlong.first {rules : Rules} {t : Text} {k : Nat} (h : Overlong rules t k) :
    ∃ c rest, t = c :: rest ∧ (c.isDigit = true ∨ c ∈ firsts) := by
  cases h with
  | integer hcore =>
    obtain ⟨d, more, hd, rfl | rfl⟩ := hcore.start
    · exact ⟨d, _, rfl, Or.inl hd⟩
    · exact ⟨'-', _, rfl, by decide⟩
  | array => exact ⟨'[', _, rfl, by decide⟩
  | object => exact ⟨'\x7b', _, rfl, by decide⟩

theorem opens_overlong (rules : Rules) : Opens (Overlong rules) ']' := by
  intro t k h
  obtain ⟨c, rest, rfl, hfirst⟩ := h.first
  exact ⟨c, rest, rfl, not_space_of_first hfirst⟩

theorem opens_memberStop (stop : Text → Nat → Prop) : Opens (MemberStop stop) '\x7d' := by
  intro t k h
  cases h with
  | mk => exact ⟨'"', _, rfl, by decide, by decide⟩

theorem value_halts (rules : Rules) (n : Nat) : Halts n (Reader.value rules n) (Overlong rules) := by
  induction n with
  | zero =>
    intro t k h hn
    obtain ⟨c, rest, rfl, -⟩ := opens_overlong rules t k h
    exact absurd hn (by simp)
  | succ n ih =>
    intro t k h hn
    cases h with
    | integer hcore hlongest hdigits hlimit =>
      rw [value_of_scalar rules n (hcore.first_append _), scalar_of_number rules hcore,
        number_of_numberText rules hcore hlongest, fault_eq_oversized_iff.mpr ⟨hdigits, hlimit⟩]
      rfl
    | array hitems =>
      have hread := enclosed_of_itemsStop opens_denotes (opens_overlong rules) (by decide) (answers_value rules n) ih
        hitems (by simpa using hn)
      rw [Reader.value, hread]
      rfl
    | object hitems =>
      have hread := enclosed_of_itemsStop opens_members (opens_memberStop _) (by decide)
        (answers_member (answers_value rules n)) (member_halts (opens_overlong rules) ih) hitems (by simpa using hn)
      rw [Reader.value, hread]
      rfl

theorem value_haltsOnly (rules : Rules) (n : Nat) : HaltsOnly n (Reader.value rules n) (Overlong rules) := by
  induction n with
  | zero => intro t k hn h; cases h
  | succ n ih =>
    intro t k hn h
    unfold Reader.value at h
    split at h
    · rename_i inside
      simp only [bind, Except.bind] at h
      split at h
      · rename_i f hread
        cases h
        exact absurd hread string_ne_oversized
      · cases h
    · rename_i inside
      simp only [bind, Except.bind] at h
      split at h
      · rename_i f hread
        cases h
        exact .array (itemsStop_of_enclosed (answers_value rules n) (value_sound rules n) ih
          (by simpa using hn) hread)
      · cases h
    · rename_i inside
      simp only [bind, Except.bind] at h
      split at h
      · rename_i f hread
        cases h
        exact .object (itemsStop_of_enclosed (answers_member (answers_value rules n))
          (member_sound (value_sound rules n)) (member_haltsOnly ih) (by simpa using hn) hread)
      · rename_i read hread
        simp only [closeObject_eq, Rules.fault] at h
        split at h
        · rename_i f hclose
          cases h
          split at hclose
          · cases hkey : repeatedKey [] read.1 <;> rw [hkey] at hclose <;> cases hclose
          · cases hclose
        · cases h
    · unfold scalar at h
      split at h
      · cases h
      · -- the number read is the longest that starts the text
        obtain ⟨core, rest, rfl, hcore⟩ := number_of_oversized h
        obtain ⟨core', rest', hsplit, hcore', hlongest⟩ := exists_longest hcore rest
        rw [hsplit, number_of_numberText rules hcore' hlongest] at h
        rw [hsplit]
        cases hfault : rules.fault (.number core') with
        | none => rw [hfault] at h; cases h
        | some f =>
          rw [hfault] at h
          cases h
          obtain ⟨hdigits, hlimit⟩ := fault_eq_oversized_iff.mp hfault
          exact .integer hcore' hlongest hdigits hlimit

theorem read_of_overlong {rules : Rules} {before core : Text} {k : Nat} (hb : Spaces before)
    (h : Overlong rules core k) : read rules (before ++ core) = .error (.oversizedInteger k) := by
  obtain ⟨c, rest, rfl, hfirst⟩ := h.first
  have hspace : isSpace c = false := (not_space_of_first hfirst).1
  have hmark : (before ++ c :: rest).head? ≠ some '\uFEFF' := not_mark_of_first hb hfirst
  have hvalue := value_halts rules ((before ++ c :: rest).length + 1) _ k h (by simp; omega)
  rw [read, if_neg hmark, skip_append hb, skip_cons hspace, hvalue]
  rfl

/-- Reading stops at a long integer if the text, whitespace apart, starts like a value up to one, and only then. -/
theorem read_eq_oversized_iff {rules : Rules} {t : Text} {k : Nat} :
    read rules t = .error (.oversizedInteger k) ↔
      ∃ before core, t = before ++ core ∧ Spaces before ∧ Overlong rules core k := by
  constructor
  · intro h
    have hshorter := length_skip_le t
    obtain ⟨before, hb, hsplit⟩ := skip_split t
    refine ⟨before, Reader.skip t, hsplit, hb, ?_⟩
    unfold read at h
    split at h
    · cases h
    simp only [bind, Except.bind] at h
    split at h
    · rename_i f hvalue
      cases h
      exact value_haltsOnly rules _ _ k (by omega) hvalue
    · split at h <;> cases h
  · rintro ⟨before, core, rfl, hb, hcore⟩
    exact read_of_overlong hb hcore

end Json

namespace Grammar

/-- Bytes in which the reading of a grammar meets an integer with `n` digits, more than it may have. -/
def Oversized (bytes : Text.Bytes) (n : Nat) : Prop :=
  ∃ t before core, bytes = Text.Utf8.encode t ∧ t = before ++ core ∧ Json.Spaces before ∧ Json.Overlong rules core n

variable {bytes : Text.Bytes} {n : Nat}

theorem ofText_eq_oversized_iff {t : Text} :
    ofText t = .error (.oversizedInteger n) ↔ Json.read rules t = .error (.oversizedInteger n) := by
  unfold ofText
  cases Json.read rules t with
  | error fault => cases fault <;> simp
  | ok v =>
    dsimp only
    cases ofJson v <;> exact ⟨fun h => (by cases h), fun h => (by cases h)⟩

theorem ofBytes_of_oversized (h : Oversized bytes n) : ofBytes bytes = .error (.oversizedInteger n) := by
  obtain ⟨t, before, core, ht, rfl, hb, hcore⟩ := h
  simp only [ofBytes, Text.Utf8.decode_eq_ok_iff.mpr ht]
  exact ofText_eq_oversized_iff.mpr (Json.read_of_overlong hb hcore)

theorem oversized_of_ofBytes (h : ofBytes bytes = .error (.oversizedInteger n)) : Oversized bytes n := by
  unfold ofBytes at h
  split at h
  · rename_i t hdecode
    have ht := Text.Utf8.decode_eq_ok_iff.mp hdecode
    obtain ⟨before, core, hsplit, hb, hcore⟩ :=
      Json.read_eq_oversized_iff.mp (ofText_eq_oversized_iff.mp h)
    exact ⟨t, before, core, ht, hsplit, hb, hcore⟩
  · cases h

theorem load_of_oversized {w : World} {p : Path} (hread : w.read (Route.ofPath p) = .ok bytes) (h : Oversized bytes n) :
    ((load p).run w).1 = .error (.oversizedInteger n) := by
  rw [load_of_read hread, ofBytes_of_oversized h]
  rfl

/-- The words for a flaw start with the path of the file. -/
theorem Flaw.path_prefix (p : Path) (flaw : Flaw) : p.toText <+: flaw.message p := by
  cases flaw <;> simp [Flaw.message, List.append_assoc]

end Grammar

namespace Command

open Grammar

variable {w : World} {p : Path} {bytes : Text.Bytes}

/-- What becomes of a file that is named as the grammar: it is loaded, with distinct keys and not without any, or it
    is refused in words that start with its path. A run that is given it tells these words as an error and nothing
    else, changes nothing, and exits with code 1. -/
def Handled (w : World) (p : Path) : Prop :=
  (∃ g, ((Grammar.load p).run w).1 = .ok g ∧ g ≠ [] ∧ (g.map Prod.fst).Nodup) ∨
  ∃ flaw, ((Grammar.load p).run w).1 = .error (.flawed p flaw) ∧ p.toText <+: flaw.message p ∧
    ∀ arguments s, parse arguments = .ok s → s.grammar ≠ [] → Path.ofText s.grammar = p →
      ∃ outcome, (invoke arguments).run w = (outcome, w) ∧ outcome.ending = .exit 1 ∧ outcome.on .output = [] ∧
        outcome.on .error = "error: ".toList ++ flaw.message p ++ ['\n']

theorem on_rejected (reason : Text) (ending : Ending) :
    (⟨[.rejected reason none], ending⟩ : Outcome).on .output = [] ∧
    (⟨[.rejected reason none], ending⟩ : Outcome).on .error = "error: ".toList ++ reason ++ ['\n'] := by
  constructor
  · rfl
  · exact List.append_nil _

/-- A run whose grammar file is not loaded. -/
theorem invoke_loadFailed {arguments : List Text} {s : Settings} {e : LoadError} (hparse : parse arguments = .ok s)
    (hnamed : s.grammar ≠ []) (hload : ((Grammar.load (Path.ofText s.grammar)).run w).1 = .error e) :
    (invoke arguments).run w = (loadFailed s.grammar e, w) := by
  have hgrammar : grammarOf w s = .error e := by rw [grammarOf, if_neg hnamed, hload]
  simp only [invoke, hparse]
  exact run_loadFailed hgrammar

/-- A readable file is handled as it should be unless an integer in it is too long, and then the run aborts. -/
theorem handled_iff (hread : w.read (Route.ofPath p) = .ok bytes) :
    (Handled w p ↔ ∀ n, ¬ Oversized bytes n) ∧
    ∀ n, Oversized bytes n → ((Grammar.load p).run w).1 = .error (.oversizedInteger n) ∧
      ∀ arguments s, parse arguments = .ok s → s.grammar ≠ [] → Path.ofText s.grammar = p →
        (invoke arguments).run w = (⟨[], .abort (.oversizedInteger n)⟩, w) := by
  have hload := load_of_read hread
  refine ⟨⟨?_, ?_⟩, fun n hn => ⟨load_of_oversized hread hn, ?_⟩⟩
  · rintro (⟨g, hg, -⟩ | ⟨flaw, hflaw, -⟩) n hn
    · rw [load_of_oversized hread hn] at hg
      cases hg
    · rw [load_of_oversized hread hn] at hflaw
      cases hflaw
  · intro hnone
    cases hbytes : ofBytes bytes with
    | ok g =>
      have hg : ((Grammar.load p).run w).1 = .ok g := by rw [hload, hbytes]; rfl
      exact Or.inl ⟨g, hg, Grammar.load_bases hg⟩
    | error failure =>
      cases failure with
      | oversizedInteger n => exact absurd (oversized_of_ofBytes hbytes) (hnone n)
      | flawed flaw =>
        have hflaw : ((Grammar.load p).run w).1 = .error (.flawed p flaw) := by rw [hload, hbytes]; rfl
        refine Or.inr ⟨flaw, hflaw, flaw.path_prefix p, ?_⟩
        rintro arguments s hparse hnamed rfl
        obtain ⟨houtput, herror⟩ := on_rejected (flaw.message (Path.ofText s.grammar)) (.exit 1)
        exact ⟨_, invoke_loadFailed hparse hnamed hflaw, rfl, houtput, herror⟩
  · rintro arguments s hparse hnamed rfl
    exact invoke_loadFailed hparse hnamed (load_of_oversized hread hn)

theorem handled_iff_digit : Handled (withFile "\x7b\"A\":[1]\x7d".toList) (Path.ofText "g".toList) := by
  have hread : (withFile "\x7b\"A\":[1]\x7d".toList).read (Route.ofPath (Path.ofText "g".toList)) =
      .ok (Text.Utf8.encode "\x7b\"A\":[1]\x7d".toList) := rfl
  obtain ⟨hiff, habort⟩ := handled_iff hread
  refine hiff.mpr fun n hn => ?_
  have hflawed : ((Grammar.load (Path.ofText "g".toList)).run (withFile "\x7b\"A\":[1]\x7d".toList)).1 =
      .error (.flawed (Path.ofText "g".toList) (.notLines [.char 'A'])) := rfl
  rw [(habort n hn).1] at hflawed
  cases hflawed

theorem overlong_ones {n : Nat} {rest : Text} (hlimit : maxDigits < n) (hends : Json.Ends rest) :
    Json.Overlong rules (List.replicate n '1' ++ rest) n := by
  have hdigits : Json.Digits (List.replicate n '1') := fun c hc => by rw [(List.mem_replicate.mp hc).2]; decide
  have hcount : Json.integerDigits (List.replicate n '1') = some n := by
    simp [Json.integerDigits, List.all_replicate, List.countP_replicate]
  have hwhole : Json.WholeText (List.replicate n '1') := by
    obtain ⟨m, rfl⟩ : ∃ m, n = m + 1 := ⟨n - 1, by omega⟩
    exact .digits (by decide) hdigits
  have hnumber : Json.NumberText (List.replicate n '1') := by
    have hparts : Json.NumberText ([] ++ List.replicate n '1' ++ [] ++ []) := .mk (by decide) hwhole .none .none
    simpa using hparts
  exact .integer hnumber hends.longest hcount (decide_eq_true hlimit)

def longText : Text := ['\x7b', '"', 'A', '"', ':', '['] ++ (List.replicate 4301 '1' ++ [']', '\x7d'])

theorem oversized_longText : Oversized (Text.Utf8.encode longText) 4301 := by
  have hblank : Json.Spaces [] := fun c hc => by cases hc
  have hinteger : Json.Overlong rules (List.replicate 4301 '1' ++ [']', '\x7d']) 4301 :=
    overlong_ones (by decide) (Json.ends_cons (by decide))
  have harray : Json.Overlong rules ('[' :: ([] ++ (List.replicate 4301 '1' ++ [']', '\x7d']))) 4301 :=
    .array (.here hblank hinteger)
  have hkey : Json.StringText (['A'] ++ []) [.char 'A'] :=
    .cons (.char (.plain (by decide) (by decide) (by decide))) .nil
  have hobject := Json.Overlong.object (.here hblank (.mk hkey hblank hblank harray))
  exact ⟨longText, [], longText, rfl, rfl, hblank, hobject⟩

/-- A file with an integer of 4301 digits in the place of a line is not refused, and the run that is given it aborts. -/
theorem unreported : ¬ Handled (withFile longText) (Path.ofText "g".toList) ∧
    (invoke [".".toList, "--grammar".toList, "g".toList]).run (withFile longText) =
      (⟨[], .abort (.oversizedInteger 4301)⟩, withFile longText) := by
  have hread : (withFile longText).read (Route.ofPath (Path.ofText "g".toList)) = .ok (Text.Utf8.encode longText) := rfl
  have hload := load_of_oversized hread oversized_longText
  constructor
  · rintro (⟨g, hg, -⟩ | ⟨flaw, hflaw, -⟩)
    · rw [hload] at hg
      cases hg
    · rw [hload] at hflaw
      cases hflaw
  · have hparse : parse [".".toList, "--grammar".toList, "g".toList] =
        .ok ⟨".".toList, "g".toList, some .java, "lox".toList, false⟩ := rfl
    exact invoke_loadFailed hparse (by decide) hload

end Command

end NodeGen
