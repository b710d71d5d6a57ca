/-
  NodeGen.Proofs.Tables — what is known of a grammar that was read, and of its descriptors.

  A grammar file gives at least one table, and no base name twice (`ofBytes_bases`); a grammar's
  descriptors are those of its tables, in order (`parseGrammar_bases`), and all their base names are
  identifiers.
-/

import NodeGen.Descriptor.Parser
import NodeGen.Grammar.File
import NodeGen.Proofs.Texts

namespace NodeGen

/-! ## Reading a file -/

/-- Where a function undoes another, the values that it gives for a list are told by the list. -/
theorem mapM_eq_some_iff {α β : Type} {f : α → Option β} {g : β → α} (h : ∀ a b, f a = some b ↔ a = g b)
    {as : List α} {bs : List β} : as.mapM f = some bs ↔ as = bs.map g := by
  induction as generalizing bs with
  | nil => cases bs <;> simp
  | cons a as ih => cases bs <;> simp [List.mapM_cons, Option.bind_eq_some_iff, h, ih]

namespace Json

theorem Letters.text?_eq_some_iff (s : Letters) (t : Text) : Letters.text? s = some t ↔ s = Letters.ofText t :=
  mapM_eq_some_iff fun letter c => by cases letter <;> simp [Letter.char?]

theorem Letters.ofText_inj {s t : Text} : Letters.ofText s = Letters.ofText t ↔ s = t :=
  List.map_inj_right fun _ _ h => Letter.char.inj h

theorem Letters.nodup_ofText_iff {ts : List Text} : (ts.map Letters.ofText).Nodup ↔ ts.Nodup := by
  simp only [List.Nodup, List.pairwise_map, ne_eq, Letters.ofText_inj]

theorem repeatedKey_eq_none {κ α : Type} [DecidableEq κ] {members : List (κ × α)} {seen : List κ}
    (h : repeatedKey seen members = none) : Text.Fresh seen (members.map Prod.fst) := by
  induction members generalizing seen with
  | nil => exact Text.fresh_nil seen
  | cons m rest ih =>
    unfold repeatedKey at h
    split at h
    · cases h
    · rename_i hm
      exact Text.fresh_cons.mpr ⟨hm, ih h⟩

theorem repeatedKey_of_fresh {κ α : Type} [DecidableEq κ] {members : List (κ × α)} {seen : List κ}
    (h : Text.Fresh seen (members.map Prod.fst)) : repeatedKey seen members = none := by
  induction members generalizing seen with
  | nil => rfl
  | cons m rest ih =>
    obtain ⟨hm, hrest⟩ := Text.fresh_cons.mp h
    unfold repeatedKey
    rw [if_neg hm]
    exact ih hrest

namespace Reader

theorem number_not_object {rules : Rules} {t rest : Text} {members : List (Letters × Json)} :
    number rules t ≠ .ok (.object members, rest) := by
  intro h
  unfold number at h
  simp only at h
  repeat' split at h
  all_goals cases h

theorem scalar_not_object {rules : Rules} {t rest : Text} {members : List (Letters × Json)} :
    scalar rules t ≠ .ok (.object members, rest) := by
  intro h
  unfold scalar at h
  split at h
  · rename_i word value hfind
    have hmem := List.mem_of_find?_eq_some hfind
    cases h
    simp [words] at hmem
  · exact number_not_object h

/-- An object that was read has no key twice if the rules ask for that. -/
theorem value_object {rules : Rules} {depth : Nat} {t rest : Text} {members : List (Letters × Json)}
    (hrules : rules.distinctKeys = true) (h : value rules depth t = .ok (.object members, rest)) :
    (members.map Prod.fst).Nodup := by
  cases depth with
  | zero => cases h
  | succ depth =>
    unfold value at h
    split at h
    · simp only [bind, Except.bind] at h
      split at h <;> cases h
    · simp only [bind, Except.bind] at h
      split at h <;> cases h
    · simp only [bind, Except.bind] at h
      split at h
      · cases h
      · rename_i ms _
        split at h
        · cases h
        · rename_i v hv
          cases h
          unfold closeObject at hv
          rw [if_pos hrules] at hv
          split at hv
          · rename_i hnone
            cases hv
            exact (repeatedKey_eq_none hnone).1
          · cases hv
    · exact absurd h scalar_not_object

end Reader

theorem read_object {rules : Rules} {t : Text} {members : List (Letters × Json)}
    (hrules : rules.distinctKeys = true) (h : read rules t = .ok (.object members)) :
    (members.map Prod.fst).Nodup := by
  unfold read at h
  split at h
  · cases h
  · simp only [bind, Except.bind] at h
    split at h
    · cases h
    · rename_i v hv
      obtain ⟨v, rest⟩ := v
      simp only at h
      split at h
      · cases h
        exact Reader.value_object hrules hv
      · cases h

end Json

namespace Grammar

theorem tables_bases {members : List (Json.Letters × Json)} {ts : List (Json.Letters × List Json.Letters)}
    (h : tables members = .ok ts) : ts.map Prod.fst = members.map Prod.fst := by
  induction members generalizing ts with
  | nil => cases h; rfl
  | cons m rest ih =>
    unfold tables at h
    split at h
    · cases h
    · rename_i lines _
      cases hrest : tables rest with
      | error e => rw [hrest] at h; cases h
      | ok ts' => rw [hrest] at h; cases h; simp [ih hrest]

def letters (g : Grammar) : List (Json.Letters × List Json.Letters) :=
  g.map fun (base, lines) => (Json.Letters.ofText base, lines.map Json.Letters.ofText)

theorem ofTables?_eq_some_iff {ts : List (Json.Letters × List Json.Letters)} {g : Grammar} :
    ofTables? ts = some g ↔ ts = letters g := by
  refine mapM_eq_some_iff fun table t => ?_
  obtain ⟨base, lines⟩ := table
  obtain ⟨base', lines'⟩ := t
  simp [Option.bind_eq_some_iff, Json.Letters.text?_eq_some_iff, mapM_eq_some_iff Json.Letters.text?_eq_some_iff]

theorem letters_bases (g : Grammar) : (letters g).map Prod.fst = (g.map Prod.fst).map Json.Letters.ofText := by
  simp [letters]

/-- A value that denotes a grammar is an object, and its tables are those of the grammar. -/
theorem ofJson_eq_ok_iff_tables {v : Json} {g : Grammar} :
    ofJson v = .ok g ↔ ∃ m members, v = .object (m :: members) ∧ tables (m :: members) = .ok (letters g) := by
  constructor
  · intro h
    unfold ofJson at h
    split at h
    · rename_i m members
      cases hm : tables (m :: members) with
      | error e => rw [hm] at h; cases h
      | ok ts =>
        simp only [hm, bind, Except.bind] at h
        split at h
        · rename_i hts
          cases h
          obtain rfl := ofTables?_eq_some_iff.mp hts
          exact ⟨m, members, rfl, hm⟩
        · cases h
    · cases h
  · rintro ⟨m, members, rfl, hm⟩
    simp only [ofJson, hm, bind, Except.bind, ofTables?_eq_some_iff.mpr rfl]

/-- A grammar file gives at least one table, and no base name twice. -/
theorem ofBytes_bases {bytes : Text.Bytes} {g : Grammar} (h : ofBytes bytes = .ok g) :
    g ≠ [] ∧ (g.map Prod.fst).Nodup := by
  unfold ofBytes at h
  split at h
  · unfold ofText at h
    split at h
    · rename_i value hread
      cases hvalue : ofJson value with
      | error e => rw [hvalue] at h; cases h
      | ok g' =>
        rw [hvalue] at h
        cases h
        obtain ⟨m, members, rfl, hm⟩ := ofJson_eq_ok_iff_tables.mp hvalue
        have hbases := tables_bases hm
        have hdistinct := Json.read_object rfl hread
        constructor
        · rintro rfl
          cases hbases
        · rw [← hbases, letters_bases] at hdistinct
          exact Json.Letters.nodup_ofText_iff.mp hdistinct
    all_goals cases h
  · cases h

theorem builtin_bases : builtin ≠ [] ∧ (builtin.map Prod.fst).Nodup := by decide

end Grammar

/-! ## Descriptors -/

theorem Descriptor.parse_base {base : Text} {lines : List Text} {d : Descriptor}
    (h : Descriptor.parse base lines = .ok d) : d.base = base ∧ Text.isIdentifier base = true := by
  unfold Descriptor.parse at h
  split at h
  · rename_i hb
    split at h
    · cases h; exact ⟨rfl, hb⟩
    · cases h
  · cases h

/-- The descriptors of a grammar are those of its tables, one for each and in order. -/
theorem Descriptor.parseGrammar_cons {base : Text} {lines : List Text} {g : Grammar} {ds : List Descriptor}
    (h : Descriptor.parseGrammar ((base, lines) :: g) = .ok ds) :
    ∃ d rest, ds = d :: rest ∧ Descriptor.parse base lines = .ok d ∧ Descriptor.parseGrammar g = .ok rest := by
  simp only [parseGrammar, List.mapM_cons, bind, Except.bind] at h
  split at h
  · cases h
  · rename_i d hd
    split at h
    · cases h
    · rename_i rest hrest
      cases h
      exact ⟨d, rest, rfl, hd, hrest⟩

theorem Descriptor.parseGrammar_of_parse {base : Text} {lines : List Text} {g : Grammar} {d : Descriptor}
    {ds : List Descriptor} (hd : Descriptor.parse base lines = .ok d) (hds : Descriptor.parseGrammar g = .ok ds) :
    Descriptor.parseGrammar ((base, lines) :: g) = .ok (d :: ds) := by
  unfold parseGrammar at hds ⊢
  simp only [List.mapM_cons, hd, hds, bind, Except.bind, pure, Except.pure]

/-- A grammar with a table that is refused gives the fault of the first such table. -/
theorem Descriptor.parseGrammar_rejected {g : Grammar} {base : Text} {lines : List Text} {fault : Fault}
    (hmem : (base, lines) ∈ g) (hfault : Descriptor.parse base lines = .error fault) :
    ∃ before first firstLines after firstFault, g = before ++ (first, firstLines) :: after ∧
      (∀ table ∈ before, ∃ d, Descriptor.parse table.1 table.2 = .ok d) ∧
      Descriptor.parse first firstLines = .error firstFault ∧ Descriptor.parseGrammar g = .error firstFault := by
  induction g with
  | nil => cases hmem
  | cons table g ih =>
    obtain ⟨head, headLines⟩ := table
    cases hhead : Descriptor.parse head headLines with
    | error firstFault =>
      refine ⟨[], head, headLines, g, firstFault, rfl, by simp, hhead, ?_⟩
      simp only [parseGrammar, List.mapM_cons, hhead, bind, Except.bind]
    | ok d =>
      rcases List.mem_cons.mp hmem with heq | hmem
      · cases heq
        rw [hfault] at hhead
        cases hhead
      · obtain ⟨before, first, firstLines, after, firstFault, rfl, hbefore, hfirst, hrest⟩ := ih hmem
        refine ⟨(head, headLines) :: before, first, firstLines, after, firstFault, rfl,
          List.forall_mem_cons.mpr ⟨⟨d, hhead⟩, hbefore⟩, hfirst, ?_⟩
        unfold parseGrammar at hrest ⊢
        simp only [List.mapM_cons, hhead, hrest, bind, Except.bind]

theorem Descriptor.parseGrammar_bases {g : Grammar} {ds : List Descriptor}
    (h : Descriptor.parseGrammar g = .ok ds) :
    ds.map Descriptor.base = g.map Prod.fst ∧ ∀ d ∈ ds, Text.isIdentifier d.base = true := by
  induction g generalizing ds with
  | nil => cases h; exact ⟨rfl, by simp⟩
  | cons table g ih =>
    obtain ⟨base, lines⟩ := table
    obtain ⟨d, rest, rfl, hd, hrest⟩ := parseGrammar_cons h
    obtain ⟨hbases, hids⟩ := ih hrest
    obtain ⟨hb, hid⟩ := parse_base hd
    refine ⟨by simp [hb, hbases], fun x hx => ?_⟩
    rcases List.mem_cons.mp hx with rfl | hx
    · rw [hb]; exact hid
    · exact hids x hx

end NodeGen
