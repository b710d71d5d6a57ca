/-
  NodeGen.Proofs.Reprinting — a well-formed variant is written as a line and read again.

  With a tab behind each tag the line is read as the variant. With a space there, as between the
  parentheses of a Java constructor, a tag that ends with a comma makes a separator with it, and the
  rest of the tag is refused as a declaration without a name (`Variant.parse_written`).
-/

import NodeGen.Proofs.Lines
import NodeGen.Source.Java

namespace NodeGen

/-! ## One field -/

def Field.written (gap : Char) (f : Field) : Text := f.tag ++ [gap] ++ f.name

/-- The blank makes a separator with the end of the tag. -/
def Field.Torn (gap : Char) (f : Field) : Prop := gap = ' ' ∧ f.tag.getLast? = some ','

instance (gap : Char) (f : Field) : Decidable (f.Torn gap) := by unfold Field.Torn; infer_instance

section Written

variable {f : Field} {gap : Char}

theorem not_separator_of_noBlank {t : Text} (h : Text.NoBlank t) : ¬ separator <:+: t := by
  intro hsep
  have hspace := h ' ' (hsep.subset (by decide))
  revert hspace
  decide

/-- A separator can only lie across the end of the tag. -/
theorem torn_of_separator {tag name : Text} (htag : Text.NoBlank tag) (hname : Text.NoBlank name)
    (hgap : Text.isBlank gap = true) (h : separator <:+: tag ++ gap :: name) :
    gap = ' ' ∧ tag.getLast? = some ',' := by
  induction tag with
  | nil =>
    rcases separator_infix_cons.mp h with ⟨rfl, -⟩ | h
    · revert hgap
      decide
    · exact absurd h (not_separator_of_noBlank hname)
  | cons c tag ih =>
    have htag' : Text.NoBlank tag := fun d hd => htag d (List.mem_cons_of_mem _ hd)
    rcases separator_infix_cons.mp h with ⟨rfl, rest, hrest⟩ | h
    · cases tag with
      | nil => exact ⟨(List.cons.inj hrest).1, rfl⟩
      | cons d tag =>
        have hd := htag' d List.mem_cons_self
        rw [(List.cons.inj hrest).1] at hd
        exact absurd hd (by decide)
    · obtain ⟨hspace, hlast⟩ := ih htag' h
      refine ⟨hspace, ?_⟩
      cases tag with
      | nil => cases hlast
      | cons d tag => rwa [List.getLast?_cons_cons]

theorem Field.TagFits.noBlank (h : f.TagFits) : Text.NoBlank f.tag := fun c hc => (h.2 c hc).1

theorem Field.TagFits.noBlank_dropLast (h : f.TagFits) : Text.NoBlank f.tag.dropLast :=
  fun c hc => h.noBlank c (List.dropLast_subset _ hc)

theorem Field.written_ne_nil (f : Field) (gap : Char) : f.written gap ≠ [] := by simp [Field.written]

theorem Field.written_trimmed (hfits : f.TagFits) (hname : Text.isIdentifier f.name = true) (gap : Char) :
    Text.Trimmed (f.written gap) := by
  have htag := Text.Trimmed.of_noBlank hfits.noBlank
  have hname' := Text.Trimmed.of_noBlank (Text.noBlank_identifier hname)
  exact htag.append [gap] hname' hfits.1 (Text.identifier_ne_nil hname)

theorem Field.written_declaredBy (hfits : f.TagFits) (hname : Text.isIdentifier f.name = true)
    (hgap : Text.isBlank gap = true) : f.DeclaredBy (f.written gap) := by
  have htrims := (Field.written_trimmed hfits hname gap).trimsTo_self
  exact ⟨⟨hfits.1, hfits.noBlank⟩, hname, [gap], List.cons_ne_nil _ _, List.forall_mem_singleton.mpr hgap, htrims⟩

/-- A written field is one piece, unless it is torn: then its tag without the comma is a piece. -/
theorem Field.splitDeclarations_written (hfits : f.TagFits) (hname : Text.isIdentifier f.name = true)
    (hgap : Text.isBlank gap = true) : splitDeclarations (f.written gap) =
      if f.Torn gap then [f.tag.dropLast, f.name] else [f.written gap] := by
  split
  · rename_i htorn
    obtain ⟨rfl, hlast⟩ := htorn
    have hpart := hfits.noBlank_dropLast
    have hwritten : f.written ' ' = f.tag.dropLast ++ separator ++ f.name := by
      rw [written, ← List.dropLast_append_getLast? ',' hlast, List.dropLast_concat, List.append_assoc _ [','] [' ']]
      rfl
    rw [hwritten, splitDeclarations_append, splitDeclarations_of_not_infix (not_separator_of_noBlank hpart),
      splitDeclarations_of_not_infix (not_separator_of_noBlank (Text.noBlank_identifier hname))]
    rfl
  · rename_i htorn
    refine splitDeclarations_of_not_infix fun h => htorn ?_
    rw [written, List.append_assoc] at h
    exact torn_of_separator hfits.noBlank (Text.noBlank_identifier hname) hgap h

theorem Field.parse_noBlank {t : Text} (h : Text.NoBlank t) (line : Text) :
    Field.parse t line = .error (Flaw.inLine (.fieldShape t) line) := by
  unfold Field.parse
  rw [Text.trim_eq_iff.mpr (Text.Trimmed.of_noBlank h).trimsTo_self, Text.cutBlank_of_noBlank h]

end Written

/-! ## All fields -/

section Fields

variable {gap : Char}

/-- Written fields are read up to the first torn one. -/
theorem Field.parseAll_written {variant line : Text} {seen : List Text} {fields : List Field}
    (hgap : Text.isBlank gap = true) (hfits : ∀ f ∈ fields, f.TagFits)
    (hnames : ∀ f ∈ fields, Text.isIdentifier f.name = true) (hfresh : Text.Fresh seen (fields.map Field.name)) :
    Field.parseAll variant line seen (fields.flatMap fun f => splitDeclarations (f.written gap)) =
      match fields.find? (·.Torn gap) with
      | none => .ok fields
      | some f => .error (Flaw.inLine (.fieldShape f.tag.dropLast) line) := by
  induction fields generalizing seen with
  | nil => rfl
  | cons f fields ih =>
    obtain ⟨hfit, hfits⟩ := List.forall_mem_cons.mp hfits
    obtain ⟨hname, hnames⟩ := List.forall_mem_cons.mp hnames
    obtain ⟨hseen, hfresh⟩ := Text.fresh_cons.mp hfresh
    rw [List.flatMap_cons, Field.splitDeclarations_written hfit hname hgap]
    by_cases htorn : f.Torn gap
    · rw [if_pos htorn, List.find?_cons_of_pos (by simpa using htorn)]
      simp only [List.cons_append, Field.parseAll, Field.parse_noBlank hfit.noBlank_dropLast, bind, Except.bind]
    · have hf : Field.parse (f.written gap) line = .ok f :=
        Field.parse_eq_ok_iff.mpr (Field.written_declaredBy hfit hname hgap)
      have hrest := ih hfits hnames hfresh
      rw [if_neg htorn, List.find?_cons_of_neg (by simpa using htorn)]
      simp only [List.cons_append, List.nil_append, Field.parseAll, hf, if_neg hseen, hrest, bind, Except.bind]
      cases fields.find? (·.Torn gap) <;> rfl

end Fields

/-! ## A whole variant -/

def Variant.written (before after : Text) (gap : Char) (v : Variant) : Text :=
  v.name ++ before ++ ':' :: (after ++ separator.intercalate (v.fields.map (Field.written gap)))

variable {v : Variant} {before after : Text} {gap : Char}

theorem Variant.WellFormed.fields_trimmed (hv : v.WellFormed) (gap : Char) :
    Text.Trimmed (separator.intercalate (v.fields.map (Field.written gap))) := by
  refine Text.Trimmed.intercalate fun piece hp => ?_
  obtain ⟨f, hf, rfl⟩ := List.mem_map.mp hp
  exact ⟨Field.written_trimmed (hv.tags f hf) (hv.fieldNames f hf) gap, Field.written_ne_nil f gap⟩

theorem Variant.WellFormed.colon_not_mem_fields (hv : v.WellFormed) (hgap : Text.isBlank gap = true) :
    ':' ∉ separator.intercalate (v.fields.map (Field.written gap)) := by
  intro hm
  rcases Text.mem_intercalate hm with hm | ⟨piece, hp, hm⟩
  · exact absurd hm (by decide)
  · obtain ⟨f, hf, rfl⟩ := List.mem_map.mp hp
    rcases List.mem_append.mp hm with hm | hm
    · rcases List.mem_append.mp hm with hm | hm
      · exact ((hv.tags f hf).2 ':' hm).2 rfl
      · obtain rfl := List.mem_singleton.mp hm
        exact absurd hgap (by decide)
    · exact Text.not_mem_identifier (hv.fieldNames f hf) (by decide) hm

/-- The pieces of the written fields. -/
theorem Variant.WellFormed.declarations_written (hv : v.WellFormed) (hafter : Text.AllBlank after) (gap : Char) :
    declarations (after ++ separator.intercalate (v.fields.map (Field.written gap))) =
      v.fields.flatMap fun f => splitDeclarations (f.written gap) := by
  have htrims := (hv.fields_trimmed gap).trimsTo hafter (by decide : Text.AllBlank [])
  rw [List.append_nil] at htrims
  cases hfields : v.fields with
  | nil =>
    rw [hfields] at htrims
    exact declarations_eq_nil_iff.mpr htrims
  | cons f rest =>
    have hmem : f.written gap ∈ v.fields.map (Field.written gap) := List.mem_map_of_mem (hfields ▸ List.mem_cons_self)
    have hjoin := Text.intercalate_ne_nil separator hmem (Field.written_ne_nil f gap)
    rw [← hfields, declarations_eq_of_trimsTo htrims hjoin, splitDeclarations_intercalate (List.ne_nil_of_mem hmem),
      List.flatMap_map]

/-- A well-formed variant that is written as a line is read up to its first torn field. -/
theorem Variant.parse_written (hv : v.WellFormed) (hbefore : Text.AllBlank before) (hafter : Text.AllBlank after)
    (hgap : Text.isBlank gap = true) :
    Variant.parse (v.written before after gap) =
      match v.fields.find? (·.Torn gap) with
      | none => .ok v
      | some f => .error ⟨none, .fieldShape f.tag.dropLast, some (v.written before after gap)⟩ := by
  have hblank : ∀ {t : Text}, Text.AllBlank t → ':' ∉ t := fun ht hm => absurd (ht ':' hm) (by decide)
  have hhead : ':' ∉ v.name ++ before := fun hm =>
    (List.mem_append.mp hm).elim (Text.not_mem_identifier hv.name (by decide)) (hblank hbefore)
  have htail : ':' ∉ after ++ separator.intercalate (v.fields.map (Field.written gap)) := fun hm =>
    (List.mem_append.mp hm).elim (hblank hafter) (hv.colon_not_mem_fields hgap)
  obtain ⟨hcount, htake, hdrop⟩ := colon_iff.mp ⟨(rfl : v.written before after gap = _), hhead, htail⟩
  have hname : Text.trim (v.name ++ before) = v.name :=
    Text.trim_eq_iff.mpr ((Text.Trimmed.of_noBlank (Text.noBlank_identifier hv.name)).trimsTo
      (by decide : Text.AllBlank []) hbefore)
  have hfields := @Field.parseAll_written gap v.name (v.written before after gap) [] v.fields hgap hv.tags
    hv.fieldNames ⟨hv.distinct, by simp⟩
  unfold Variant.parse
  rw [if_neg (not_not.mpr hcount)]
  simp only [← htake, ← hdrop, hname, if_pos hv.name, hv.declarations_written hafter, hfields, bind, Except.bind]
  cases v.fields.find? (·.Torn gap) <;> rfl

/-! ## The two forms -/

def Variant.tabbed (v : Variant) : Text :=
  v.name ++ ':' :: ", ".toList.intercalate (v.fields.map fun f => f.tag ++ '\t' :: f.name)

theorem Variant.tabbed_eq (v : Variant) : v.tabbed = v.written [] [] '\t' := by
  have hfield : (fun f : Field => f.tag ++ '\t' :: f.name) = Field.written '\t' :=
    funext fun f => List.append_cons f.tag '\t' f.name
  rw [Variant.tabbed, Variant.written, hfield, List.append_nil]
  rfl

theorem Variant.parse_tabbed (hv : v.WellFormed) : Variant.parse v.tabbed = .ok v := by
  have hnone : v.fields.find? (·.Torn '\t') = none :=
    List.find?_eq_none.mpr fun f _ htorn => absurd (of_decide_eq_true htorn).1 (by decide)
  rw [Variant.tabbed_eq, Variant.parse_written hv (by decide) (by decide) (by decide), hnone]

/-- What stands between the first opening parenthesis and the last closing one. -/
def Text.inParentheses (t : Text) : Text :=
  ((t.dropWhile (· ≠ '(')).tail.reverse.dropWhile (· ≠ ')')).tail.reverse

theorem Text.inParentheses_append {front inside back : Text} (hfront : '(' ∉ front) (hback : ')' ∉ back) :
    inParentheses (front ++ '(' :: (inside ++ ')' :: back)) = inside := by
  have hfront' : ∀ c ∈ front, decide (c ≠ '(') = true := fun c hc => decide_eq_true fun e => hfront (e ▸ hc)
  have hback' : ∀ c ∈ back.reverse, decide (c ≠ ')') = true := fun c hc =>
    decide_eq_true fun e => hback (e ▸ List.mem_reverse.mp hc)
  unfold inParentheses
  rw [List.dropWhile_append_of_pos hfront', List.dropWhile_cons_of_neg (by decide), List.tail_cons,
    List.reverse_append, List.reverse_cons, List.append_assoc, List.dropWhile_append_of_pos hback']
  simp

/-- The line that has the parameters of the constructor for its fields. -/
def Variant.respaced (v : Variant) : Text :=
  v.name ++ " : ".toList ++ Text.inParentheses (Java.constructorRow v)

theorem Variant.inParentheses_constructorRow (hname : Text.isIdentifier v.name = true) :
    Text.inParentheses (Java.constructorRow v) = Java.parameters v.fields := by
  have hrow : Java.constructorRow v =
      ("    ".toList ++ v.name) ++ '(' :: (Java.parameters v.fields ++ ')' :: " \x7b".toList) := by
    unfold Java.constructorRow
    rw [List.append_assoc, List.append_assoc]
    rfl
  rw [hrow]
  refine Text.inParentheses_append (fun hm => ?_) (by decide)
  rcases List.mem_append.mp hm with hm | hm
  · exact absurd hm (by decide)
  · exact Text.not_mem_identifier hname (by decide) hm

theorem Variant.respaced_eq (hname : Text.isIdentifier v.name = true) :
    v.respaced = v.written [' '] [' '] ' ' := by
  rw [Variant.respaced, Variant.inParentheses_constructorRow hname, Variant.written, List.append_assoc,
    List.append_assoc]
  rfl

theorem Variant.parse_respaced (hv : v.WellFormed) :
    Variant.parse v.respaced =
      match v.fields.find? (fun f => f.tag.getLast? = some ',') with
      | none => .ok v
      | some f => .error ⟨none, .fieldShape f.tag.dropLast, some v.respaced⟩ := by
  have hparse := @Variant.parse_written v [' '] [' '] ' ' hv (by decide) (by decide) (by decide)
  have htorn : (fun f : Field => decide (f.Torn ' ')) = fun f => decide (f.tag.getLast? = some ',') := by
    funext f
    simp [Field.Torn]
  rw [Variant.respaced_eq hv.name, hparse, htorn]

/-- A variant is well-formed exactly if it is read from some line, and then its line with tabs is one.
    The line with the constructor's parameters is another one unless a tag ends with a comma; if one
    does, that line is refused. -/
theorem Variant.read_back (v : Variant) :
    (v.WellFormed ↔ ∃ line, Variant.parse line = .ok v) ∧
      (v.WellFormed → Variant.parse v.tabbed = .ok v) ∧
      (v.WellFormed →
        (Variant.parse v.respaced = .ok v ↔ ∀ f ∈ v.fields, f.tag.getLast? ≠ some ',') ∧
        ((∃ flaw, Variant.parse v.respaced = .error ⟨none, flaw, some v.respaced⟩) ↔
          ∃ f ∈ v.fields, f.tag.getLast? = some ',')) := by
  refine ⟨⟨fun hv => ⟨v.tabbed, Variant.parse_tabbed hv⟩, fun ⟨line, h⟩ => Variant.parse_wellFormed h⟩,
    Variant.parse_tabbed, fun hv => ?_⟩
  have hparse := Variant.parse_respaced hv
  cases hfind : v.fields.find? (fun f => f.tag.getLast? = some ',') with
  | none =>
    rw [hfind] at hparse
    have hnone : ∀ f ∈ v.fields, f.tag.getLast? ≠ some ',' := by simpa using hfind
    refine ⟨iff_of_true hparse hnone, iff_of_false ?_ ?_⟩
    · rintro ⟨flaw, h⟩
      rw [hparse] at h
      cases h
    · rintro ⟨f, hf, hlast⟩
      exact hnone f hf hlast
  | some f =>
    rw [hfind] at hparse
    have hmem : f ∈ v.fields := List.mem_of_find?_eq_some hfind
    have hlast : f.tag.getLast? = some ',' := by simpa using List.find?_some hfind
    refine ⟨iff_of_false ?_ fun h => h f hmem hlast, iff_of_true ⟨_, hparse⟩ ⟨f, hmem, hlast⟩⟩
    rw [hparse]
    exact fun h => nomatch h

def Variant.torn : Variant :=
  ⟨"Call".toList, [⟨"Map<K,V>".toList, "env".toList⟩, ⟨"(f),".toList, "args".toList⟩]⟩

theorem Variant.read_back_torn :
    Variant.torn.WellFormed ∧ Variant.parse Variant.torn.tabbed = .ok Variant.torn ∧
      ∃ flaw, Variant.parse Variant.torn.respaced = .error ⟨none, flaw, some Variant.torn.respaced⟩ := by
  have hv : Variant.torn.WellFormed := by decide
  exact ⟨hv, (Variant.read_back Variant.torn).2.1 hv,
    ((Variant.read_back Variant.torn).2.2 hv).2.mpr ⟨_, List.mem_cons_of_mem _ List.mem_cons_self, rfl⟩⟩

end NodeGen
