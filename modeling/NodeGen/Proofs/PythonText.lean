/-
  NodeGen.Proofs.PythonText — a Python file can be read back: it determines the descriptor.

  The tags may be any texts, for a tag is written as a literal, which is one line and is read back
  (`Text.Quoted.encode_injective`). A row of the fields is told from the row that follows them by the
  colon behind the field's name.
-/

import NodeGen.Proofs.Layout
import NodeGen.Proofs.Lines
import NodeGen.Source.Target

namespace NodeGen.Python

open Text (OneLine)

variable {d d' : Descriptor} {v v' : Variant} {f f' : Field} {base : Text}

/-! ## The parts of a file -/

def firstRow (base : Text) : Text :=
  "# Generated by ast_gen 0.1.0 from the ".toList ++ base ++ " grammar. Do not edit.".toList

def openRow (base : Text) : Text := "class ".toList ++ base ++ "(abc.ABC):".toList

def abstractRow : Text := "    @abc.abstractmethod".toList

def headRows (base : Text) : List Text :=
  [firstRow base, [], "from __future__ import annotations".toList, [], "import abc".toList,
    "from dataclasses import dataclass".toList, "from typing import Generic, TypeVar".toList, [],
    "R = TypeVar(\"R\")".toList, [], [], openRow base]

def classesRows (base : Text) (variants : List Variant) : List Text :=
  variants.flatMap fun v => [[], []] ++ variantRows base v

theorem fileRows_eq (d : Descriptor) :
    fileRows d = (headRows d.base ++ visitorRows d.base d.variants ++ [[]]) ++
      abstractRow :: acceptRow d.base :: "        ...".toList :: classesRows d.base d.variants := by
  unfold fileRows
  rw [List.append_assoc, List.append_assoc (headRows d.base ++ visitorRows d.base d.variants)]
  rfl

theorem variantRows_append (base : Text) (v : Variant) (rest : List Text) :
    variantRows base v ++ rest =
      "@dataclass(frozen=True)".toList :: classRow base v ::
        (fieldRows v.fields ++ acceptRow base :: dispatchRow base v :: rest) := by
  unfold variantRows
  rw [List.append_assoc, List.append_assoc]
  rfl

/-! ## Reading one class -/

theorem fieldRow_eq (f : Field) :
    fieldRow f = "    ".toList ++ (f.name ++ ':' :: (' ' :: Text.Quoted.encode f.tag)) := by
  unfold fieldRow
  rw [List.append_assoc, List.append_assoc]
  rfl

theorem fieldRow_inj (hf : Text.isIdentifier f.name = true) (hf' : Text.isIdentifier f'.name = true)
    (h : fieldRow f = fieldRow f') : f = f' := by
  rw [fieldRow_eq, fieldRow_eq] at h
  obtain ⟨hname, -, htag⟩ := Text.identifier_append_inj hf hf' (by decide) (by decide) (List.append_cancel_left h)
  obtain ⟨tag, name⟩ := f
  obtain ⟨tag', name'⟩ := f'
  obtain rfl : name = name' := hname
  obtain rfl : tag = tag' := Text.Quoted.encode_injective (List.cons.inj htag).2
  rfl

theorem fieldRows_inj {fields fields' : List Field} (hf : ∀ f ∈ fields, Text.isIdentifier f.name = true)
    (hf' : ∀ f ∈ fields', Text.isIdentifier f.name = true) (h : fieldRows fields = fieldRows fields') :
    fields = fields' := by
  have hinj : ∀ a ∈ fields, ∀ b ∈ fields', fieldRow a = fieldRow b → a = b :=
    fun a ha b hb => fieldRow_inj (hf a ha) (hf' b hb)
  cases fields with
  | nil =>
    cases fields' with
    | nil => rfl
    | cons f' rest => cases h
  | cons f rest =>
    cases fields' with
    | nil => cases h
    | cons f' rest' => exact Text.map_inj_of_mem hinj (List.append_cancel_right h)

/-- No field is named like a keyword with a blank behind it. -/
theorem fieldRow_ne_acceptRow (hf : Text.isIdentifier f.name = true) (base : Text) : fieldRow f ≠ acceptRow base := by
  intro h
  have haccept : acceptRow base =
      "    ".toList ++ ("def".toList ++ ' ' :: ("accept(self, visitor: ".toList ++ base ++ ".Visitor[R]) -> R:".toList)) := rfl
  rw [fieldRow_eq, haccept] at h
  obtain ⟨-, hc, -⟩ := Text.identifier_append_inj hf (by decide) (by decide) (by decide) (List.append_cancel_left h)
  revert hc
  decide

theorem acceptRow_not_mem_fieldRows {fields : List Field} (hf : ∀ f ∈ fields, Text.isIdentifier f.name = true)
    (base : Text) : acceptRow base ∉ fieldRows fields := by
  intro hm
  unfold fieldRows at hm
  split at hm
  · cases hm
  · rcases List.mem_append.mp hm with hm | hm
    · obtain ⟨f, hmem, he⟩ := List.mem_map.mp hm
      exact fieldRow_ne_acceptRow (hf f hmem) base he
    · cases List.mem_singleton.mp hm

/-- The rows of a variant's class, whatever follows them, give the variant. -/
theorem variantRows_inj (hv : ∀ f ∈ v.fields, Text.isIdentifier f.name = true)
    (hv' : ∀ f ∈ v'.fields, Text.isIdentifier f.name = true) {rest rest' : List Text}
    (h : variantRows base v ++ rest = variantRows base v' ++ rest') : v = v' ∧ rest = rest' := by
  rw [variantRows_append, variantRows_append] at h
  obtain ⟨hclass, h⟩ := List.cons.inj (List.cons.inj h).2
  obtain ⟨hfields, h⟩ :=
    Text.append_first_inj (acceptRow_not_mem_fieldRows hv base) (acceptRow_not_mem_fieldRows hv' base) h
  refine ⟨?_, (List.cons.inj h).2⟩
  have hname : v.name = v'.name := List.append_cancel_left
    (List.append_cancel_right (List.append_cancel_right (List.append_cancel_right hclass)))
  obtain ⟨name, fields⟩ := v
  obtain ⟨name', fields'⟩ := v'
  obtain rfl : name = name' := hname
  obtain rfl : fields = fields' := fieldRows_inj hv hv' hfields
  rfl

/-! ## Reading all classes -/

theorem classesRows_cons (base : Text) (v : Variant) (vs : List Variant) :
    classesRows base (v :: vs) = [] :: [] :: (variantRows base v ++ classesRows base vs) := rfl

theorem classesRows_inj {vs vs' : List Variant}
    (hv : ∀ v ∈ vs, ∀ f ∈ v.fields, Text.isIdentifier f.name = true)
    (hv' : ∀ v ∈ vs', ∀ f ∈ v.fields, Text.isIdentifier f.name = true)
    (h : classesRows base vs = classesRows base vs') : vs = vs' := by
  induction vs generalizing vs' with
  | nil =>
    cases vs' with
    | nil => rfl
    | cons v' vs' => cases h
  | cons v vs ih =>
    cases vs' with
    | nil => cases h
    | cons v' vs' =>
      rw [classesRows_cons, classesRows_cons] at h
      obtain ⟨rfl, hmore⟩ := variantRows_inj (hv v List.mem_cons_self) (hv' v' List.mem_cons_self)
        (List.cons.inj (List.cons.inj h).2).2
      rw [ih (fun v hm => hv v (List.mem_cons_of_mem _ hm)) (fun v hm => hv' v (List.mem_cons_of_mem _ hm)) hmore]

/-! ## Reading a file -/

structure Above (r : Text) : Prop where
  oneLine : OneLine r
  ne : r ≠ abstractRow

theorem above_firstRow (hb : OneLine base) : Above (firstRow base) := by
  constructor
  · unfold firstRow
    simp only [Text.oneLine_append]
    and_intros <;> first | decide | assumption
  · exact Text.ne_of_getElem? 0 (show some '#' ≠ some ' ' by decide)

theorem above_openRow (hb : OneLine base) : Above (openRow base) := by
  constructor
  · unfold openRow
    simp only [Text.oneLine_append]
    and_intros <;> first | decide | assumption
  · exact Text.ne_of_getElem? 0 (show some 'c' ≠ some ' ' by decide)

theorem above_visitorMethodRow (hb : OneLine base) (hv : OneLine v.name) : Above (visitorMethodRow base v) := by
  constructor
  · have hl := Text.oneLine_lower hb
    unfold visitorMethodRow Variant.visitMethod
    simp only [Text.oneLine_append]
    and_intros <;> first | decide | assumption
  · exact Text.ne_of_getElem? 4 (show some ' ' ≠ some '@' by decide)

theorem above_visitorMethodRows (hb : OneLine base) (hv : OneLine v.name) :
    ∀ r ∈ visitorMethodRows base v, Above r := by
  have hmethod := above_visitorMethodRow hb hv
  unfold visitorMethodRows
  simp only [List.forall_mem_cons, List.not_mem_nil, false_implies, implies_true, and_true]
  and_intros <;> first | exact ⟨by decide, by decide⟩ | assumption

theorem above_headRows (hb : OneLine base) : ∀ r ∈ headRows base, Above r := by
  have hfirst := above_firstRow hb
  have hopen := above_openRow hb
  unfold headRows
  simp only [List.forall_mem_cons, List.not_mem_nil, false_implies, implies_true, and_true]
  and_intros <;> first | exact ⟨by decide, by decide⟩ | assumption

theorem above_visitorRows {variants : List Variant} (hb : OneLine base) (hv : ∀ v ∈ variants, OneLine v.name) :
    ∀ r ∈ visitorRows base variants, Above r := by
  intro r hr
  rcases List.mem_cons.mp hr with rfl | hr
  · exact ⟨by decide, by decide⟩
  · rcases Text.mem_intercalate hr with hr | ⟨rows, hrows, hr⟩
    · obtain rfl := List.mem_singleton.mp hr
      exact ⟨by decide, by decide⟩
    · obtain ⟨v, hmem, rfl⟩ := List.mem_map.mp hrows
      exact above_visitorMethodRows hb (hv v hmem) r hr

/-- The rows above the method by which a node of any variant is visited. -/
theorem above_rows (hd : d.Named) : ∀ r ∈ headRows d.base ++ visitorRows d.base d.variants ++ [[]], Above r := by
  have hb : OneLine d.base := OneLine.of_identifier hd.base
  have hv : ∀ v ∈ d.variants, OneLine v.name := fun v hv => OneLine.of_identifier (hd.variants v hv)
  intro r hr
  rcases List.mem_append.mp hr with hr | hr
  · rcases List.mem_append.mp hr with hr | hr
    · exact above_headRows hb r hr
    · exact above_visitorRows hb hv r hr
  · obtain rfl := List.mem_singleton.mp hr
    exact ⟨by decide, by decide⟩

theorem oneLine_classRow (hb : OneLine base) (hv : OneLine v.name) : OneLine (classRow base v) := by
  unfold classRow
  simp only [Text.oneLine_append]
  and_intros <;> first | decide | assumption

theorem oneLine_acceptRow (hb : OneLine base) : OneLine (acceptRow base) := by
  unfold acceptRow
  simp only [Text.oneLine_append]
  and_intros <;> first | decide | assumption

theorem oneLine_dispatchRow (hb : OneLine base) (hv : OneLine v.name) : OneLine (dispatchRow base v) := by
  unfold dispatchRow Variant.visitMethod
  simp only [Text.oneLine_append]
  and_intros <;> first | decide | assumption

/-- The row of a field is one line, whatever its tag. -/
theorem oneLine_fieldRow (hf : OneLine f.name) : OneLine (fieldRow f) := by
  have ht := OneLine.quoted f.tag
  unfold fieldRow
  simp only [Text.oneLine_append]
  and_intros <;> first | decide | assumption

theorem oneLine_variantRows (hb : OneLine base) (hv : OneLine v.name) (hf : ∀ f ∈ v.fields, OneLine f.name) :
    ∀ r ∈ variantRows base v, OneLine r := by
  have hclass := oneLine_classRow hb hv
  have haccept := oneLine_acceptRow hb
  have hdispatch := oneLine_dispatchRow hb hv
  have hfields : ∀ r ∈ fieldRows v.fields, OneLine r := fun r hr => by
    unfold fieldRows at hr
    split at hr
    · cases hr
    · rcases List.mem_append.mp hr with hr | hr
      · obtain ⟨f, hmem, rfl⟩ := List.mem_map.mp hr
        exact oneLine_fieldRow (hf f hmem)
      · obtain rfl := List.mem_singleton.mp hr
        decide
  unfold variantRows
  simp only [List.forall_mem_append, List.forall_mem_cons, List.not_mem_nil, false_implies, implies_true, and_true]
  exact ⟨⟨⟨by decide, hclass⟩, hfields⟩, haccept, hdispatch⟩

theorem oneLine_fileRows (hd : d.Named) : ∀ r ∈ fileRows d, OneLine r := by
  have hb : OneLine d.base := OneLine.of_identifier hd.base
  have haccept := oneLine_acceptRow hb
  have habove : ∀ r ∈ headRows d.base ++ visitorRows d.base d.variants ++ [[]], OneLine r :=
    fun r hr => (above_rows hd r hr).oneLine
  have hclasses : ∀ r ∈ classesRows d.base d.variants, OneLine r := fun r hr => by
    obtain ⟨v, hv, hr⟩ := List.mem_flatMap.mp hr
    rcases List.mem_append.mp hr with hr | hr
    · have hempty : r = [] := by simpa using hr
      rw [hempty]
      decide
    · exact oneLine_variantRows hb (OneLine.of_identifier (hd.variants v hv))
        (fun f hf => OneLine.of_identifier (hd.fields v hv f hf)) r hr
  rw [fileRows_eq]
  refine List.forall_mem_append.mpr ⟨habove, ?_⟩
  simp only [List.forall_mem_cons]
  exact ⟨by decide, haccept, by decide, hclasses⟩

theorem fileRows_ne_nil (d : Descriptor) : fileRows d ≠ [] := by
  rw [fileRows_eq]
  simp

/-- The lines of a file are its rows, and the empty one behind the last line end. -/
theorem lines_file (hd : d.Named) : (file d).splitOn '\n' = fileRows d ++ [[]] := by
  unfold file Text.rows
  rw [List.splitOn_append_cons_self, List.splitOn_nil,
    List.splitOn_intercalate '\n' (fun r hr => (oneLine_fileRows hd r hr).noFeed) (fileRows_ne_nil d)]

/-- A file gives its descriptor. -/
theorem file_inj (hd : d.Named) (hd' : d'.Named) (h : file d = file d') : d = d' := by
  have hrows : fileRows d = fileRows d' := by
    have hlines := congrArg (List.splitOn '\n') h
    rw [lines_file hd, lines_file hd'] at hlines
    exact List.append_cancel_right hlines
  have hfirst : firstRow d.base = firstRow d'.base := Option.some.inj (congrArg (·[0]?) hrows)
  have hbase : d.base = d'.base := List.append_cancel_left (List.append_cancel_right hfirst)
  rw [fileRows_eq, fileRows_eq] at hrows
  obtain ⟨-, hback⟩ := Text.append_first_inj (fun hm => (above_rows hd _ hm).ne rfl)
    (fun hm => (above_rows hd' _ hm).ne rfl) hrows
  have hfields := hd.fields
  have hfields' := hd'.fields
  obtain ⟨base, variants⟩ := d
  obtain ⟨base', variants'⟩ := d'
  obtain rfl : base = base' := hbase
  obtain rfl : variants = variants' :=
    classesRows_inj hfields hfields' (List.cons.inj (List.cons.inj hback).2).2
  rfl

theorem noReturn_file (hd : d.Named) : '\r' ∉ file d :=
  Text.not_mem_rows fun r hr => (oneLine_fileRows hd r hr).noReturn

/-- Files are equal exactly if the descriptors are, for whatever packages they are written. -/
theorem render_eq_iff_descriptor (hd : d.Named) (hd' : d'.Named) (package package' : Text) :
    Target.python.render package d = Target.python.render package' d' ↔ d = d' := by
  constructor
  · intro h
    exact file_inj hd hd' h
  · rintro rfl
    rfl

/-- A line feed, and the two characters of its escape. -/
theorem render_eq_iff_descriptor_escape :
    (Descriptor.oneField ['\n']).Named ∧ (Descriptor.oneField ['\\', 'n']).Named ∧
      (Target.python.render [] (Descriptor.oneField ['\n']) =
          Target.python.render "lox".toList (Descriptor.oneField ['\\', 'n']) ↔
        Descriptor.oneField ['\n'] = Descriptor.oneField ['\\', 'n']) := by
  have hd := Descriptor.oneField_named ['\n']
  have hd' := Descriptor.oneField_named ['\\', 'n']
  exact ⟨hd, hd', render_eq_iff_descriptor hd hd' _ _⟩

end NodeGen.Python
