/-
  NodeGen.Proofs.JavaText — a Java file can be read back: it determines the descriptor and the package.

  The last row that imports `List` ends what may belong to the package (`fileRows_eq`). Below it, the row
  that opens the class gives the base name, the end of the visitor is the first row of its kind, and
  each variant's class ends where the text of its own parts says it does (`variantRows_inj`).
-/

import NodeGen.Proofs.Layout
import NodeGen.Proofs.Lines
import NodeGen.Source.Java

namespace NodeGen.Java

open Text (OneLine)

variable {d d' : Descriptor} {v v' : Variant} {f f' : Field} {base package package' : Text}

/-! ## The parts of a file -/

def packageRow (package : Text) : Text := "package ".toList ++ package ++ [';']

def importRow : Text := "import java.util.List;".toList

def openRow (base : Text) : Text := "abstract class ".toList ++ base ++ " \x7b".toList

def acceptRow : Text := "  abstract <R> R accept(Visitor<R> visitor);".toList

def classesRows (base : Text) (variants : List Variant) : List Text :=
  variants.flatMap fun v => variantRows base v ++ [[], []]

def bodyRows (d : Descriptor) : List Text :=
  [] :: [] :: openRow d.base :: [] :: "  interface Visitor<R> \x7b".toList ::
    (d.variants.map (visitorMethodRow d.base) ++ "  \x7d".toList :: [] :: [] ::
      (classesRows d.base d.variants ++ [acceptRow, "\x7d".toList]))

theorem fileRows_eq (package : Text) (d : Descriptor) :
    fileRows package d = packageRow package :: [] :: importRow :: bodyRows d := by
  have hvisitor : ∀ rest, visitorRows d.base d.variants ++ rest = "  interface Visitor<R> \x7b".toList ::
      (d.variants.map (visitorMethodRow d.base) ++ "  \x7d".toList :: rest) := by
    intro rest
    show _ :: ((d.variants.map (visitorMethodRow d.base) ++ ["  \x7d".toList]) ++ rest) = _
    rw [List.append_assoc]
    rfl
  unfold fileRows
  rw [List.append_assoc, List.append_assoc, List.append_assoc, hvisitor]
  rfl

theorem variantRows_append (base : Text) (v : Variant) (rest : List Text) :
    variantRows base v ++ rest =
      classRow base v :: constructorRow v :: (v.fields.map assignmentRow ++ "    \x7d".toList :: [] ::
        "    @Override".toList :: "    <R> R accept(Visitor<R> visitor) \x7b".toList :: dispatchRow base v ::
        "    \x7d".toList :: (fieldRows v.fields ++ "  \x7d".toList :: rest)) := by
  unfold variantRows
  rw [List.append_assoc, List.append_assoc, List.append_assoc, List.append_assoc]
  rfl

/-! ## Reading one class -/

theorem fieldRow_inj (hf : f.TagFits) (hf' : f'.TagFits) (h : fieldRow f = fieldRow f') : f = f' := by
  unfold fieldRow at h
  rw [List.append_assoc, List.append_assoc, List.append_assoc, List.append_assoc, List.append_assoc,
    List.append_assoc] at h
  have h : f.tag ++ ' ' :: (f.name ++ [';']) = f'.tag ++ ' ' :: (f'.name ++ [';']) := List.append_cancel_left h
  obtain ⟨htag, -, hname⟩ := Text.append_cons_inj (fun c hc => (hf.2 c hc).1) (fun c hc => (hf'.2 c hc).1)
    (by decide) (by decide) h
  obtain ⟨tag, name⟩ := f
  obtain ⟨tag', name'⟩ := f'
  obtain rfl : tag = tag' := htag
  obtain rfl : name = name' := List.append_cancel_right hname
  rfl

theorem fieldRows_inj {fields fields' : List Field} (hf : ∀ f ∈ fields, f.TagFits)
    (hf' : ∀ f ∈ fields', f.TagFits) (h : fieldRows fields = fieldRows fields') : fields = fields' := by
  cases fields with
  | nil =>
    cases fields' with
    | nil => rfl
    | cons f' rest => cases h
  | cons f rest =>
    cases fields' with
    | nil => cases h
    | cons f' rest' =>
      exact Text.map_inj_of_mem (fun a ha b hb => fieldRow_inj (hf a ha) (hf' b hb)) (List.cons.inj h).2

theorem closeRow_not_mem_assignments (fields : List Field) :
    "    \x7d".toList ∉ fields.map assignmentRow := by
  intro hm
  obtain ⟨f, -, he⟩ := List.mem_map.mp hm
  exact Text.ne_of_getElem? 4 (show some ' ' ≠ some '\x7d' by decide) he

theorem closeRow_not_mem_fieldRows (fields : List Field) : "  \x7d".toList ∉ fieldRows fields := by
  intro hm
  have hcases : "  \x7d".toList = [] ∨ ∃ f, fieldRow f = "  \x7d".toList := by
    cases fields with
    | nil => cases hm
    | cons f rest =>
      rcases List.mem_cons.mp hm with he | hm
      · exact Or.inl he
      · obtain ⟨f, -, he⟩ := List.mem_map.mp hm
        exact Or.inr ⟨f, he⟩
  rcases hcases with he | ⟨f, he⟩
  · revert he
    decide
  · exact Text.ne_of_getElem? 2 (show some ' ' ≠ some '\x7d' by decide) he

/-- The rows of a variant's class, whatever follows them, give the variant. -/
theorem variantRows_inj (hv : v.WellFormed) (hv' : v'.WellFormed) {rest rest' : List Text}
    (h : variantRows base v ++ rest = variantRows base v' ++ rest') : v = v' ∧ rest = rest' := by
  rw [variantRows_append, variantRows_append] at h
  obtain ⟨hclass, h⟩ := List.cons.inj h
  obtain ⟨-, h⟩ := List.cons.inj h
  obtain ⟨-, h⟩ := Text.append_first_inj (closeRow_not_mem_assignments _) (closeRow_not_mem_assignments _) h
  have h : fieldRows v.fields ++ "  \x7d".toList :: rest = fieldRows v'.fields ++ "  \x7d".toList :: rest' :=
    congrArg (List.drop 5) h
  obtain ⟨hfields, hrest⟩ := Text.append_first_inj (closeRow_not_mem_fieldRows _) (closeRow_not_mem_fieldRows _) h
  refine ⟨?_, hrest⟩
  have hname : v.name = v'.name := List.append_cancel_left
    (List.append_cancel_right (List.append_cancel_right (List.append_cancel_right hclass)))
  obtain ⟨name, fields⟩ := v
  obtain ⟨name', fields'⟩ := v'
  obtain rfl : name = name' := hname
  obtain rfl : fields = fields' := fieldRows_inj hv.tags hv'.tags hfields
  rfl

/-! ## Reading all classes -/

theorem acceptRow_ne_classRow (base : Text) (v : Variant) : acceptRow ≠ classRow base v :=
  Text.ne_of_getElem? 2 (show some 'a' ≠ some 's' by decide)

theorem classesRows_cons (base : Text) (v : Variant) (vs : List Variant) (rest : List Text) :
    classesRows base (v :: vs) ++ rest = variantRows base v ++ ([] :: [] :: (classesRows base vs ++ rest)) := by
  rw [classesRows, List.flatMap_cons, List.append_assoc, List.append_assoc]
  rfl

theorem classesRows_inj {vs vs' : List Variant} (hv : ∀ v ∈ vs, v.WellFormed) (hv' : ∀ v ∈ vs', v.WellFormed)
    {rest rest' : List Text}
    (h : classesRows base vs ++ acceptRow :: rest = classesRows base vs' ++ acceptRow :: rest') : vs = vs' := by
  induction vs generalizing vs' with
  | nil =>
    cases vs' with
    | nil => rfl
    | cons v' vs' =>
      rw [classesRows_cons, variantRows_append] at h
      exact absurd (List.cons.inj h).1 (acceptRow_ne_classRow base v')
  | cons v vs ih =>
    cases vs' with
    | nil =>
      rw [classesRows_cons, variantRows_append] at h
      exact absurd (List.cons.inj h).1.symm (acceptRow_ne_classRow base v)
    | cons v' vs' =>
      rw [classesRows_cons, classesRows_cons] at h
      obtain ⟨rfl, hmore⟩ := variantRows_inj (hv v List.mem_cons_self) (hv' v' List.mem_cons_self) h
      have h : classesRows base vs ++ acceptRow :: rest = classesRows base vs' ++ acceptRow :: rest' :=
        congrArg (List.drop 2) hmore
      rw [ih (fun v hm => hv v (List.mem_cons_of_mem _ hm)) (fun v hm => hv' v (List.mem_cons_of_mem _ hm)) h]

theorem closeRow_not_mem_methods (base : Text) (variants : List Variant) :
    "  \x7d".toList ∉ variants.map (visitorMethodRow base) := by
  intro hm
  obtain ⟨v, -, he⟩ := List.mem_map.mp hm
  exact Text.ne_of_getElem? 2 (show some ' ' ≠ some '\x7d' by decide) he

theorem bodyRows_inj (hd : d.WellFormed) (hd' : d'.WellFormed) (h : bodyRows d = bodyRows d') : d = d' := by
  have hopen : openRow d.base = openRow d'.base := Option.some.inj (congrArg (·[2]?) h)
  have hbase : d.base = d'.base := List.append_cancel_left (List.append_cancel_right hopen)
  obtain ⟨base, variants⟩ := d
  obtain ⟨base', variants'⟩ := d'
  obtain rfl : base = base' := hbase
  have h := congrArg (List.drop 5) h
  obtain ⟨-, h⟩ := Text.append_first_inj (closeRow_not_mem_methods _ _) (closeRow_not_mem_methods _ _) h
  obtain rfl : variants = variants' := classesRows_inj hd.variants hd'.variants (congrArg (List.drop 2) h)
  rfl

/-! ## Reading a file -/

structure Below (r : Text) : Prop where
  oneLine : OneLine r
  head : r.head? ≠ some 'i'

theorem not_below_importRow : ¬ Below importRow := fun h => h.head rfl

theorem oneLine_tag (h : f.TagFits) : OneLine f.tag := by
  constructor
  · intro hm
    have hb := (h.2 _ hm).1
    revert hb
    decide
  · intro hm
    have hb := (h.2 _ hm).1
    revert hb
    decide

theorem below_visitorMethodRow (hb : OneLine base) (hv : OneLine v.name) : Below (visitorMethodRow base v) := by
  refine ⟨?_, show some ' ' ≠ some 'i' by decide⟩
  have hl := Text.oneLine_lower hb
  unfold visitorMethodRow Variant.visitMethod
  simp only [Text.oneLine_append]
  and_intros <;> first | decide | assumption

theorem below_classRow (hb : OneLine base) (hv : OneLine v.name) : Below (classRow base v) := by
  refine ⟨?_, show some ' ' ≠ some 'i' by decide⟩
  unfold classRow
  simp only [Text.oneLine_append]
  and_intros <;> first | decide | assumption

theorem oneLine_parameters {fields : List Field} (hn : ∀ f ∈ fields, OneLine f.name)
    (ht : ∀ f ∈ fields, OneLine f.tag) : OneLine (parameters fields) := by
  refine OneLine.intercalate (by decide) fun piece hp => ?_
  obtain ⟨f, hf, rfl⟩ := List.mem_map.mp hp
  exact Text.oneLine_append.mpr ⟨Text.oneLine_append.mpr ⟨ht f hf, by decide⟩, hn f hf⟩

theorem below_constructorRow (hv : OneLine v.name) (hp : OneLine (parameters v.fields)) :
    Below (constructorRow v) := by
  refine ⟨?_, show some ' ' ≠ some 'i' by decide⟩
  unfold constructorRow
  simp only [Text.oneLine_append]
  and_intros <;> first | decide | assumption

theorem below_assignmentRow (hf : OneLine f.name) : Below (assignmentRow f) := by
  refine ⟨?_, show some ' ' ≠ some 'i' by decide⟩
  unfold assignmentRow
  simp only [Text.oneLine_append]
  and_intros <;> first | decide | assumption

theorem below_dispatchRow (hb : OneLine base) (hv : OneLine v.name) : Below (dispatchRow base v) := by
  refine ⟨?_, show some ' ' ≠ some 'i' by decide⟩
  unfold dispatchRow Variant.visitMethod
  simp only [Text.oneLine_append]
  and_intros <;> first | decide | assumption

theorem below_fieldRow (hn : OneLine f.name) (ht : OneLine f.tag) : Below (fieldRow f) := by
  refine ⟨?_, show some ' ' ≠ some 'i' by decide⟩
  unfold fieldRow
  simp only [Text.oneLine_append]
  and_intros <;> first | decide | assumption

theorem below_openRow (hb : OneLine base) : Below (openRow base) := by
  refine ⟨?_, show some 'a' ≠ some 'i' by decide⟩
  unfold openRow
  simp only [Text.oneLine_append]
  and_intros <;> first | decide | assumption

theorem below_variantRows (hb : OneLine base) (hv : v.WellFormed) : ∀ r ∈ variantRows base v, Below r := by
  have hname : OneLine v.name := OneLine.of_identifier hv.name
  have hnames : ∀ f ∈ v.fields, OneLine f.name := fun f hf => OneLine.of_identifier (hv.fieldNames f hf)
  have htags : ∀ f ∈ v.fields, OneLine f.tag := fun f hf => oneLine_tag (hv.tags f hf)
  have hassign : ∀ r ∈ v.fields.map assignmentRow, Below r := fun r hr => by
    obtain ⟨f, hf, rfl⟩ := List.mem_map.mp hr
    exact below_assignmentRow (hnames f hf)
  have hfields : ∀ r ∈ fieldRows v.fields, Below r := fun r hr => by
    unfold fieldRows at hr
    split at hr
    · cases hr
    · rcases List.mem_cons.mp hr with rfl | hr
      · exact ⟨by decide, by decide⟩
      · obtain ⟨f, hf, rfl⟩ := List.mem_map.mp hr
        exact below_fieldRow (hnames f hf) (htags f hf)
  have hconstructor := below_constructorRow hname (oneLine_parameters hnames htags)
  have hclass := below_classRow hb hname
  have hdispatch := below_dispatchRow hb hname
  have hclose : Below "    \x7d".toList := ⟨by decide, by decide⟩
  unfold variantRows
  simp only [List.forall_mem_append, List.forall_mem_cons, List.not_mem_nil, false_implies, implies_true, and_true]
  exact ⟨⟨⟨⟨⟨hclass, hconstructor⟩, hassign⟩, hclose, ⟨by decide, by decide⟩, ⟨by decide, by decide⟩,
    ⟨by decide, by decide⟩, hdispatch, hclose⟩, hfields⟩, by decide, by decide⟩

theorem below_bodyRows (hd : d.WellFormed) : ∀ r ∈ bodyRows d, Below r := by
  have hb : OneLine d.base := OneLine.of_identifier hd.base
  have hmethods : ∀ r ∈ d.variants.map (visitorMethodRow d.base), Below r := fun r hr => by
    obtain ⟨v, hv, rfl⟩ := List.mem_map.mp hr
    exact below_visitorMethodRow hb (OneLine.of_identifier (hd.variants v hv).name)
  have hclasses : ∀ r ∈ classesRows d.base d.variants, Below r := fun r hr => by
    obtain ⟨v, hv, hr⟩ := List.mem_flatMap.mp hr
    rcases List.mem_append.mp hr with hr | hr
    · exact below_variantRows hb (hd.variants v hv) r hr
    · have hempty : r = [] := by simpa using hr
      rw [hempty]
      exact ⟨by decide, by decide⟩
  have hopen := below_openRow hb
  unfold bodyRows
  simp only [List.forall_mem_append, List.forall_mem_cons, List.not_mem_nil, false_implies, implies_true, and_true]
  and_intros <;> first | exact ⟨by decide, by decide⟩ | assumption

def below (d : Descriptor) : Text := Text.rows ([] :: importRow :: bodyRows d) ++ ['\n']

theorem file_eq (package : Text) (d : Descriptor) : file package d = packageRow package ++ '\n' :: below d := by
  unfold file below Text.rows
  rw [fileRows_eq, List.intercalate_cons_cons, List.append_assoc, List.append_assoc]
  rfl

theorem lines_below (hd : d.WellFormed) : (below d).splitOn '\n' = [] :: importRow :: (bodyRows d ++ [[]]) := by
  have hrows : ∀ r ∈ [] :: importRow :: bodyRows d, '\n' ∉ r := by
    intro r hr
    rcases List.mem_cons.mp hr with rfl | hr
    · decide
    · rcases List.mem_cons.mp hr with rfl | hr
      · decide
      · exact (below_bodyRows hd r hr).oneLine.noFeed
  unfold below Text.rows
  rw [List.splitOn_append_cons_self, List.splitOn_intercalate '\n' hrows (List.cons_ne_nil _ _), List.splitOn_nil]
  rfl

/-- The lines of a file: those of its package, and below the import its rows. -/
theorem lines_file (hd : d.WellFormed) (package : Text) :
    (file package d).splitOn '\n' =
      ((packageRow package).splitOn '\n' ++ [[]]) ++ importRow :: (bodyRows d ++ [[]]) := by
  rw [file_eq, List.splitOn_append_cons_self, lines_below hd, List.append_assoc]
  rfl

/-- A file gives its descriptor and its package, whatever the package is. -/
theorem file_inj (hd : d.WellFormed) (hd' : d'.WellFormed) (h : file package d = file package' d') :
    d = d' ∧ package = package' := by
  have hlast : ∀ {d : Descriptor}, d.WellFormed → importRow ∉ bodyRows d ++ [[]] := by
    intro d hd hm
    rcases List.mem_append.mp hm with hm | hm
    · exact not_below_importRow (below_bodyRows hd _ hm)
    · exact absurd (List.mem_singleton.mp hm) (by decide)
  have hlines := congrArg (List.splitOn '\n') h
  rw [lines_file hd, lines_file hd'] at hlines
  obtain ⟨hfront, hback⟩ := Text.append_last_inj (hlast hd) (hlast hd') hlines
  refine ⟨bodyRows_inj hd hd' (List.append_cancel_right hback), ?_⟩
  have hrow := congrArg (List.intercalate ['\n']) (List.append_cancel_right hfront)
  rw [List.intercalate_splitOn, List.intercalate_splitOn] at hrow
  exact List.append_cancel_left (List.append_cancel_right hrow)

theorem noReturn_file (hd : d.WellFormed) (hp : '\r' ∉ package) : '\r' ∉ file package d := by
  refine Text.not_mem_rows ?_
  rw [fileRows_eq]
  intro r hr
  rcases List.mem_cons.mp hr with rfl | hr
  · unfold packageRow
    simp only [List.mem_append, not_or]
    exact ⟨⟨by decide, hp⟩, by decide⟩
  · rcases List.mem_cons.mp hr with rfl | hr
    · decide
    · rcases List.mem_cons.mp hr with rfl | hr
      · decide
      · exact (below_bodyRows hd r hr).oneLine.noReturn

/-- Files of accepted tables are equal exactly if the descriptors and the packages are, whatever lines
    the packages hold. -/
theorem file_eq_iff_source {base' : Text} {lines lines' : List Text} (hd : Descriptor.parse base lines = .ok d)
    (hd' : Descriptor.parse base' lines' = .ok d') :
    file package d = file package' d' ↔ d = d' ∧ package = package' := by
  constructor
  · intro h
    exact file_inj (Descriptor.parse_wellFormed hd) (Descriptor.parse_wellFormed hd') h
  · rintro ⟨rfl, rfl⟩
    rfl

/-- A package that goes on like the head of a file, down to its class. -/
def headPackage : Text := "a;\n\nimport java.util.List;\n\n\nabstract class E \x7b\n".toList

theorem file_eq_iff_source_head :
    Descriptor.parse ['E'] ["V : T x".toList] = .ok (Descriptor.oneField ['T']) ∧
      Descriptor.parse ['E'] ["V:;\tx".toList] = .ok (Descriptor.oneField [';']) ∧
      (file ['a'] (Descriptor.oneField ['T']) = file headPackage (Descriptor.oneField [';']) ↔
        Descriptor.oneField ['T'] = Descriptor.oneField [';'] ∧ ['a'] = headPackage) := by
  have hd : Descriptor.parse ['E'] ["V : T x".toList] = .ok (Descriptor.oneField ['T']) := by decide
  have hd' : Descriptor.parse ['E'] ["V:;\tx".toList] = .ok (Descriptor.oneField [';']) := by decide
  exact ⟨hd, hd', file_eq_iff_source hd hd'⟩

end NodeGen.Java
