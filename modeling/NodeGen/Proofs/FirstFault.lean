/-
  NodeGen.Proofs.FirstFault — the first line at fault is the one that is reported.

  The lines of a table are read one after the other. A line offends if it is refused on its own or if its
  variant has the name of an earlier one (`Offence`); the first line that offends gives the table's fault,
  whatever the lines behind it say. The tables of a grammar are read one after the other too, and the
  first one refused gives the grammar's fault. `Descriptor.parse_first_offence` says both, and that a table
  in which no line offends is accepted with the variants of its lines.
-/

import Mathlib.Data.List.Nodup
import NodeGen.Proofs.Lines
import NodeGen.Proofs.Outputs

namespace NodeGen

/-! ## Lines -/

namespace Variant

inductive Offending (seen : List Text) (line : Text) : Fault → Prop
  | refused (fault : Fault) : parse line = .error fault → Offending seen line fault
  | repeated (v : Variant) : parse line = .ok v → v.name ∈ seen →
      Offending seen line (Flaw.inLine (.repeatedVariant v.name) line)

variable {seen lines : List Text} {fault : Fault}

theorem Offending.inLine {line : Text} (h : Offending seen line fault) : ∃ flaw, fault = Flaw.inLine flaw line := by
  cases h with
  | refused _ hparse => exact parse_error hparse
  | repeated v => exact ⟨_, rfl⟩

theorem Offending.mono {seen' : List Text} {line : Text} (h : Offending seen line fault) (hseen : seen ⊆ seen') :
    Offending seen' line fault := by
  cases h with
  | refused _ hparse => exact .refused _ hparse
  | repeated v hv hmem => exact .repeated v hv (hseen hmem)

/-- Lines are refused for the first one that cannot follow those before it. -/
theorem parseAll_eq_error_iff : parseAll seen lines = .error fault ↔
    ∃ before line after variants, lines = before ++ line :: after ∧ parseAll seen before = .ok variants ∧
      Offending (variants.map name ++ seen) line fault := by
  induction lines generalizing seen with
  | nil =>
    constructor
    · intro h
      cases h
    · rintro ⟨before, line, after, -, hlines, -⟩
      simp at hlines
  | cons first rest ih =>
    constructor
    · intro h
      simp only [parseAll, bind, Except.bind] at h
      split at h
      · rename_i hfirst
        cases h
        exact ⟨[], first, rest, [], rfl, rfl, .refused _ hfirst⟩
      · rename_i v hv
        split at h
        · rename_i hseen
          cases h
          exact ⟨[], first, rest, [], rfl, rfl, .repeated v hv hseen⟩
        · rename_i hseen
          split at h
          · rename_i hrest
            cases h
            obtain ⟨before, line, after, variants, rfl, hbefore, hline⟩ := ih.mp hrest
            refine ⟨first :: before, line, after, v :: variants, rfl, ?_, hline.mono fun n hn => ?_⟩
            · simp only [parseAll, hv, bind, Except.bind, if_neg hseen, hbefore]
              rfl
            · simpa [or_left_comm] using hn
          · cases h
    · rintro ⟨before, line, after, variants, hlines, hbefore, hline⟩
      cases before with
      | nil =>
        cases hlines
        cases hbefore
        cases hline with
        | refused _ hparse => simp only [parseAll, hparse, bind, Except.bind]
        | repeated v hv hmem => simp only [parseAll, hv, bind, Except.bind, if_pos (by simpa using hmem)]; rfl
      | cons _ before =>
        simp only [List.cons_append, List.cons.injEq] at hlines
        obtain ⟨rfl, rfl⟩ := hlines
        obtain ⟨hall, hfresh⟩ := parseAll_eq_ok_iff.mp hbefore
        cases hall with
        | @cons _ v _ variants hv hall =>
          obtain ⟨hseen, hfresh⟩ := Text.fresh_cons.mp hfresh
          have hrest : parseAll (v.name :: seen) (before ++ line :: after) = .error fault := by
            refine ih.mpr ⟨before, line, after, variants, rfl, parseAll_eq_ok_iff.mpr ⟨hall, hfresh⟩, ?_⟩
            exact hline.mono fun n hn => by simpa [or_left_comm] using hn
          simp only [parseAll, hv, bind, Except.bind, if_neg hseen, hrest]

end Variant

/-! ## Tables -/

namespace Descriptor

def NamedBefore (lines : List Text) (i : Nat) (name : Text) : Prop :=
  ∃ earlier ∈ lines.take i, ∃ v, Variant.parse earlier = .ok v ∧ v.name = name

inductive Offence (lines : List Text) (i : Nat) (line : Text) : Text → Prop
  | refused (fault : Fault) : lines[i]? = some line → Variant.parse line = .error fault →
      Offence lines i line fault.message
  | repeated (v : Variant) : lines[i]? = some line → Variant.parse line = .ok v → NamedBefore lines i v.name →
      Offence lines i line ("duplicate variant '".toList ++ v.name ++ ['\''])

structure FirstOffence (lines : List Text) (i : Nat) (line message : Text) : Prop where
  offence : Offence lines i line message
  least : ∀ j < i, ∀ line' message', ¬Offence lines j line' message'

variable {base : Text} {lines : List Text} {fault : Fault}

theorem namedBefore_iff {i : Nat} {variants : List Variant} {name : Text}
    (h : Variant.parseAll [] (lines.take i) = .ok variants) :
    NamedBefore lines i name ↔ name ∈ variants.map Variant.name := by
  have hall := (Variant.parseAll_eq_ok_iff.mp h).1
  constructor
  · rintro ⟨earlier, hmem, v, hv, rfl⟩
    obtain ⟨k, hk, rfl⟩ := List.getElem_of_mem hmem
    have hk' : k < variants.length := hall.length_eq ▸ hk
    obtain rfl : v = variants[k] := Except.ok.inj (hv.symm.trans (hall.get hk hk'))
    exact List.mem_map_of_mem (List.getElem_mem hk')
  · intro hname
    obtain ⟨v, hmem, rfl⟩ := List.mem_map.mp hname
    obtain ⟨k, hk, rfl⟩ := List.getElem_of_mem hmem
    have hk' : k < (lines.take i).length := hall.length_eq ▸ hk
    exact ⟨_, List.getElem_mem hk', variants[k], hall.get hk' hk, rfl⟩

/-- The lines before `i` were read; then line `i` offends in the table if it cannot follow them. -/
theorem offence_iff {i : Nat} {line message : Text} {variants : List Variant}
    (h : Variant.parseAll [] (lines.take i) = .ok variants) (hline : lines[i]? = some line) :
    Offence lines i line message ↔
      ∃ fault, Variant.Offending (variants.map Variant.name) line fault ∧ message = fault.message := by
  constructor
  · intro hoffence
    cases hoffence with
    | refused fault _ hparse => exact ⟨fault, .refused fault hparse, rfl⟩
    | repeated v _ hv hname => exact ⟨_, .repeated v hv ((namedBefore_iff h).mp hname), rfl⟩
  · rintro ⟨fault, hoffending, rfl⟩
    cases hoffending with
    | refused _ hparse => exact .refused fault hline hparse
    | repeated v hv hmem => exact .repeated v hline hv ((namedBefore_iff h).mpr hmem)

/-- Lines up to one that offends are refused, whatever follows it. -/
theorem parseAll_of_offence {i : Nat} {line message : Text} {variants : List Variant}
    (hbefore : Variant.parseAll [] (lines.take i) = .ok variants) (h : Offence lines i line message) :
    ∃ fault, fault.line = some line ∧ fault.table = none ∧ fault.message = message ∧
      ∀ after, Variant.parseAll [] (lines.take (i + 1) ++ after) = .error fault := by
  have hline : lines[i]? = some line := by cases h <;> assumption
  obtain ⟨fault, hoffending, rfl⟩ := (offence_iff hbefore hline).mp h
  have hsplit : lines.take (i + 1) = lines.take i ++ [line] := by
    rw [List.take_add_one, hline]
    rfl
  obtain ⟨flaw, hflaw⟩ := hoffending.inLine
  refine ⟨fault, by rw [hflaw]; rfl, by rw [hflaw]; rfl, rfl, fun after => ?_⟩
  rw [hsplit, List.append_assoc]
  exact Variant.parseAll_eq_error_iff.mpr ⟨lines.take i, line, after, variants, rfl, hbefore,
    by rw [List.append_nil]; exact hoffending⟩

/-- No line of lines that were read offends. -/
theorem no_offence {variants : List Variant} (h : Variant.parseAll [] lines = .ok variants) (i : Nat)
    (line message : Text) : ¬Offence lines i line message := by
  intro hoffence
  cases hbefore : Variant.parseAll [] (lines.take i) with
  | ok before =>
    obtain ⟨fault, -, -, -, hafter⟩ := parseAll_of_offence hbefore hoffence
    have herror := hafter (lines.drop (i + 1))
    rw [List.take_append_drop, h] at herror
    cases herror
  | error fault =>
    -- what stops the lines up to `i` stops all of them
    obtain ⟨before, first, after, read, hsplit, hread, hoffending⟩ := Variant.parseAll_eq_error_iff.mp hbefore
    have herror : Variant.parseAll [] lines = .error fault :=
      Variant.parseAll_eq_error_iff.mpr ⟨before, first, after ++ lines.drop i, read,
        by rw [← List.cons_append, ← List.append_assoc, ← hsplit, List.take_append_drop], hread, hoffending⟩
    rw [h] at herror
    cases herror

/-- Whether a line offends is decided by the lines up to it. -/
theorem offence_take_iff {i j : Nat} {line message : Text} :
    Offence (lines.take i) j line message ↔ j < i ∧ Offence lines j line message := by
  have hat : ∀ {line : Text}, (lines.take i)[j]? = some line ↔ j < i ∧ lines[j]? = some line := by
    intro line
    rw [List.getElem?_take]
    by_cases hj : j < i <;> simp [hj]
  have hnamed : ∀ {name : Text}, j < i → (NamedBefore (lines.take i) j name ↔ NamedBefore lines j name) := by
    intro name hj
    rw [NamedBefore, NamedBefore, List.take_take, Nat.min_eq_left hj.le]
  constructor
  · intro h
    cases h with
    | refused fault hline hparse => exact ⟨(hat.mp hline).1, .refused fault (hat.mp hline).2 hparse⟩
    | repeated v hline hv hname =>
      obtain ⟨hj, hline⟩ := hat.mp hline
      exact ⟨hj, .repeated v hline hv ((hnamed hj).mp hname)⟩
  · rintro ⟨hj, h⟩
    cases h with
    | refused fault hline hparse => exact .refused fault (hat.mpr ⟨hj, hline⟩) hparse
    | repeated v hline hv hname => exact .repeated v (hat.mpr ⟨hj, hline⟩) hv ((hnamed hj).mpr hname)

/-- Lines that are refused have a first offence. -/
theorem exists_firstOffence (h : Variant.parseAll [] lines = .error fault) :
    ∃ i line message, FirstOffence lines i line message := by
  obtain ⟨before, line, after, variants, rfl, hbefore, hoffending⟩ := Variant.parseAll_eq_error_iff.mp h
  rw [List.append_nil] at hoffending
  have htake : (before ++ line :: after).take before.length = before := List.take_left
  rw [← htake] at hbefore
  refine ⟨before.length, line, fault.message, (offence_iff hbefore (by simp)).mpr ⟨fault, hoffending, rfl⟩, ?_⟩
  intro j hj line' message' hoffence
  exact no_offence hbefore j line' message' (offence_take_iff.mpr ⟨hj, hoffence⟩)

theorem FirstOffence.before {i : Nat} {line message : Text} (h : FirstOffence lines i line message) :
    ∃ variants, Variant.parseAll [] (lines.take i) = .ok variants := by
  cases hbefore : Variant.parseAll [] (lines.take i) with
  | ok variants => exact ⟨variants, rfl⟩
  | error fault =>
    obtain ⟨j, line', message', hfirst⟩ := exists_firstOffence hbefore
    obtain ⟨hj, hoffence⟩ := offence_take_iff.mp hfirst.offence
    exact absurd hoffence (h.least j hj line' message')

theorem parse_of_parseAll_error (hbase : Text.isIdentifier base = true) (hlines : lines ≠ [])
    (h : Variant.parseAll [] lines = .error fault) :
    Descriptor.parse base lines = .error { fault with table := some base } := by
  unfold Descriptor.parse Variant.parseTable
  rw [if_pos hbase, if_neg hlines, h]

/-- Two tables that are accepted give one if no name is in both. -/
theorem parse_append_iff {base' : Text} {lines' : List Text} {d d' : Descriptor}
    (h : Descriptor.parse base lines = .ok d) (h' : Descriptor.parse base' lines' = .ok d') (e : Descriptor) :
    Descriptor.parse base (lines ++ lines') = .ok e ↔
      (d.variants.map Variant.name).Disjoint (d'.variants.map Variant.name) ∧
        e = ⟨base, d.variants ++ d'.variants⟩ := by
  rw [parse_eq_ok_iff] at h h' ⊢
  have hall := List.rel_append h.variants h'.variants
  constructor
  · intro he
    have hvariants : e.variants = d.variants ++ d'.variants :=
      List.right_unique_forall₂' (fun _ _ _ hv hu => Except.ok.inj (hv.symm.trans hu)) he.variants hall
    have hnodup := he.distinct
    rw [hvariants, List.map_append] at hnodup
    obtain ⟨named, variants⟩ := e
    cases he.named
    cases hvariants
    exact ⟨List.disjoint_of_nodup_append hnodup, rfl⟩
  · rintro ⟨hdisjoint, rfl⟩
    refine ⟨h.identifier, by simp [h.nonempty], rfl, hall, ?_⟩
    rw [List.map_append]
    exact h.distinct.append h'.distinct hdisjoint

end Descriptor

/-! ## The first offence and the first table -/

/-- A table is accepted, with the variants of its lines in order, if its base name is an identifier, it
    has lines, each line is read, and no two have the same name; so two accepted tables put together give
    all their variants, if the names of the one are not those of the other. Else, under a base name that
    is an identifier, the first line that offends gives the line and the words of the fault, and the lines
    behind it have no part in it. The command reports the fault of the first table that is refused. -/
theorem Descriptor.parse_first_offence (base : Text) (lines : List Text) :
    (∀ d, Descriptor.parse base lines = .ok d ↔ Accepted base lines d) ∧
    (∀ base' lines' d d', Descriptor.parse base lines = .ok d → Descriptor.parse base' lines' = .ok d' →
      ∀ e, Descriptor.parse base (lines ++ lines') = .ok e ↔
        (d.variants.map Variant.name).Disjoint (d'.variants.map Variant.name) ∧
          e = ⟨base, d.variants ++ d'.variants⟩) ∧
    (Text.isIdentifier base = true → lines ≠ [] →
      (∃ d, Descriptor.parse base lines = .ok d) ∨ ∃ i line message, FirstOffence lines i line message) ∧
    (Text.isIdentifier base = true → ∀ i line message, FirstOffence lines i line message →
      ∃ fault, fault.line = some line ∧ fault.message = base ++ ": ".toList ++ message ∧
        Descriptor.parse base lines = .error fault ∧
        ∀ after, Descriptor.parse base (lines.take (i + 1) ++ after) = .error fault) ∧
    (∀ w arguments s g, Command.parse arguments = .ok s → Command.grammarOf w s = .ok g → (base, lines) ∈ g →
      (∀ d, Descriptor.parse base lines ≠ .ok d) →
      ∃ before first firstLines after fault, g = before ++ (first, firstLines) :: after ∧
        (∀ table ∈ before, ∃ d, Descriptor.parse table.1 table.2 = .ok d) ∧
        Descriptor.parse first firstLines = .error fault ∧
        ((Command.invoke arguments).run w).1 = ⟨[.rejected fault.message fault.line], .exit 1⟩) := by
  refine ⟨fun d => parse_eq_ok_iff, fun base' lines' d d' h h' => parse_append_iff h h', fun hbase hlines => ?_,
    fun hbase i line message hfirst => ?_, fun w arguments s g hs hg hmem hrefused => ?_⟩
  · cases hread : Variant.parseAll [] lines with
    | error fault => exact .inr (exists_firstOffence hread)
    | ok variants =>
      obtain ⟨hall, hnodup, -⟩ := Variant.parseAll_eq_ok_iff.mp hread
      exact .inl ⟨⟨base, variants⟩, parse_eq_ok_iff.mpr ⟨hbase, hlines, rfl, hall, hnodup⟩⟩
  · obtain ⟨variants, hbefore⟩ := hfirst.before
    obtain ⟨fault, hline, hnone, hmessage, hafter⟩ := parseAll_of_offence hbefore hfirst.offence
    -- the fault depends on the lines up to the offending one only
    have htable : ∀ after, Descriptor.parse base (lines.take (i + 1) ++ after) =
        .error { fault with table := some base } := by
      intro after
      refine parse_of_parseAll_error hbase ?_ (hafter after)
      intro hnil
      have herror := hafter after
      rw [hnil] at herror
      cases herror
    refine ⟨{ fault with table := some base }, hline, ?_, ?_, htable⟩
    · rw [← hmessage, Fault.message, Fault.message, hnone]
    · have hlines := htable (lines.drop (i + 1))
      rwa [List.take_append_drop] at hlines
  · cases hparse : Descriptor.parse base lines with
    | ok d => exact absurd hparse (hrefused d)
    | error fault =>
      obtain ⟨before, first, firstLines, after, fault, hsplit, hbefore, hfirst, hgrammar⟩ :=
        Descriptor.parseGrammar_rejected hmem hparse
      refine ⟨before, first, firstLines, after, fault, hsplit, hbefore, hfirst, ?_⟩
      simp only [Command.invoke, hs]
      rw [Command.run_eq hg, Command.runGrammar_rejected hgrammar]
      rfl

/-- A third line that repeats the name of the first, with a line behind it that is no line. -/
theorem Descriptor.parse_first_offence_third :
    ∃ fault, fault.line = some "A : T x".toList ∧ fault.message = "E: duplicate variant 'A'".toList ∧
      Descriptor.parse ['E'] ["A :".toList, "B :".toList, "A : T x".toList, "C".toList] = .error fault := by
  have hname : NamedBefore ["A :".toList, "B :".toList, "A : T x".toList, "C".toList] 2 ['A'] :=
    ⟨"A :".toList, by decide, ⟨['A'], []⟩, rfl, rfl⟩
  have hfirst : FirstOffence ["A :".toList, "B :".toList, "A : T x".toList, "C".toList] 2 "A : T x".toList
      "duplicate variant 'A'".toList := by
    have hbefore : Variant.parseAll [] ["A :".toList, "B :".toList] = .ok [⟨['A'], []⟩, ⟨['B'], []⟩] := rfl
    refine ⟨.repeated ⟨['A'], [⟨['T'], ['x']⟩]⟩ rfl rfl hname, fun j hj line message h => ?_⟩
    exact no_offence hbefore j line message (offence_take_iff (i := 2).mpr ⟨hj, h⟩)
  obtain ⟨fault, hline, hmessage, hparse, -⟩ :=
    (Descriptor.parse_first_offence ['E'] ["A :".toList, "B :".toList, "A : T x".toList, "C".toList]).2.2.2.1
      rfl 2 _ _ hfirst
  exact ⟨fault, hline, hmessage, hparse⟩

end NodeGen
