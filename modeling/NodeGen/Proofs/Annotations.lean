/-
  NodeGen.Proofs.Annotations — a type tag stays inside its annotation, whatever it is.

  A Python file is read line by line. A line declares a field if it is set in by four blanks and goes on
  with an identifier, a colon and a blank; what is left of it is the annotation (`fieldOf?`). For a
  descriptor whose names are identifiers, and any tags at all, `render_inert` says of the file:

  - its annotations are those of the fields, in order, and each is a literal that stands for the tag;
  - with the empty literal in place of each it is the file of the descriptor without tags, so no other
    line, and not the number of lines, depends on a tag;
  - below every line that ends in a colon something stands that is set in deeper (`Bodied`). Fields
    are not needed for that: the class of a variant without any has its `accept`.
-/

import NodeGen.Proofs.Outline
import NodeGen.Proofs.PythonText

namespace NodeGen

/-! ## Descriptors without tags -/

def Field.untagged (f : Field) : Field := { f with tag := [] }

def Variant.untagged (v : Variant) : Variant := { v with fields := v.fields.map Field.untagged }

def Descriptor.untagged (d : Descriptor) : Descriptor := { d with variants := d.variants.map Variant.untagged }

def Descriptor.fields (d : Descriptor) : List Field := d.variants.flatMap Variant.fields

theorem Descriptor.Named.untagged {d : Descriptor} (hd : d.Named) : d.untagged.Named := by
  refine ⟨hd.base, fun v hv => ?_, fun v hv f hf => ?_⟩
  · obtain ⟨v, hmem, rfl⟩ := List.mem_map.mp hv
    exact hd.variants v hmem
  · obtain ⟨v, hmem, rfl⟩ := List.mem_map.mp hv
    obtain ⟨f, hmem', rfl⟩ := List.mem_map.mp hf
    exact hd.fields v hmem f hmem'

namespace Python

open Text (Quoted.encode)

variable {d : Descriptor} {v : Variant} {f : Field} {fields more : List Field} {base a b : Text}
  {rows rest plain plain' : List Text}

/-! ## Annotations -/

def fieldOf? (line : Text) : Option (Text × Text) :=
  (line.dropPrefix? "    ".toList).bind (Text.word? ": ".toList)

def annotations (lines : List Text) : List (Text × Text) := lines.filterMap fieldOf?

/-- A line with the empty literal in place of its annotation; any other line as it stands. -/
def emptied (line : Text) : Text :=
  match fieldOf? line with
  | some (_, hint) => line.take (line.length - hint.length) ++ "''".toList
  | none => line

theorem fieldOf?_fieldRow (hf : Text.isIdentifier f.name = true) :
    fieldOf? (fieldRow f) = some (f.name, Quoted.encode f.tag) := by
  rw [fieldRow_eq, fieldOf?, List.dropPrefix?_append_of_beq _ BEq.rfl]
  exact Text.word?_append hf (by decide)

theorem emptied_fieldRow (hf : Text.isIdentifier f.name = true) : emptied (fieldRow f) = fieldRow f.untagged := by
  have hcut : (fieldRow f).take ((fieldRow f).length - (Quoted.encode f.tag).length) =
      "    ".toList ++ f.name ++ ": ".toList := by
    unfold fieldRow
    rw [List.length_append, Nat.add_sub_cancel, List.take_left]
  simp only [emptied, fieldOf?_fieldRow hf, hcut]
  rfl

theorem emptied_of_none (h : fieldOf? a = none) : emptied a = a := by
  simp only [emptied, h]

def Undeclaring (rows : List Text) : Prop := ∀ r ∈ rows, fieldOf? r = none

theorem Undeclaring.append (h : Undeclaring rows) (h' : Undeclaring rest) : Undeclaring (rows ++ rest) :=
  List.forall_mem_append.mpr ⟨h, h'⟩

theorem undeclaring_cons : Undeclaring (a :: rows) ↔ fieldOf? a = none ∧ Undeclaring rows := List.forall_mem_cons

theorem undeclaring_headRows (base : Text) : Undeclaring (headRows base) := by
  simp only [headRows, undeclaring_cons]
  and_intros
  all_goals first | rfl | exact fun _ hr => nomatch hr

theorem undeclaring_visitorRows (base : Text) (variants : List Variant) : Undeclaring (visitorRows base variants) := by
  refine undeclaring_cons.mpr ⟨rfl, fun r hr => ?_⟩
  rcases Text.mem_intercalate hr with hr | ⟨methods, hmethods, hr⟩
  · rw [List.mem_singleton.mp hr]
    rfl
  · obtain ⟨v, -, rfl⟩ := List.mem_map.mp hmethods
    have hmethod : Undeclaring (visitorMethodRows base v) := by
      simp only [visitorMethodRows, undeclaring_cons]
      and_intros
      all_goals first | rfl | exact fun _ hr => nomatch hr
    exact hmethod r hr

def aboveRows (base : Text) (variants : List Variant) : List Text :=
  headRows base ++ visitorRows base variants ++ [[], abstractRow, acceptRow base, "        ...".toList]

theorem fileRows_split (d : Descriptor) : fileRows d = aboveRows d.base d.variants ++ classesRows d.base d.variants := by
  unfold aboveRows
  rw [fileRows_eq]
  simp only [List.append_assoc]
  rfl

theorem undeclaring_aboveRows (base : Text) (variants : List Variant) : Undeclaring (aboveRows base variants) := by
  refine ((undeclaring_headRows base).append (undeclaring_visitorRows base variants)).append ?_
  simp only [undeclaring_cons]
  and_intros
  all_goals first | rfl | exact fun _ hr => nomatch hr

theorem aboveRows_untagged (base : Text) (variants : List Variant) :
    aboveRows base (variants.map Variant.untagged) = aboveRows base variants := by
  unfold aboveRows visitorRows
  rw [List.map_map]
  rfl

/-! ### Rows with their fields -/

inductive Declares : List Text → List Field → List Text → Prop
  | nil : Declares [] [] []
  | other {row : Text} {rows plain : List Text} {fields : List Field} : fieldOf? row = none →
      Declares rows fields plain → Declares (row :: rows) fields (row :: plain)
  | field {f : Field} {rows plain : List Text} {fields : List Field} : Text.isIdentifier f.name = true →
      Declares rows fields plain → Declares (fieldRow f :: rows) (f :: fields) (fieldRow f.untagged :: plain)

theorem Declares.append (h : Declares rows fields plain) (h' : Declares rest more plain') :
    Declares (rows ++ rest) (fields ++ more) (plain ++ plain') := by
  induction h with
  | nil => exact h'
  | other hrow _ ih => exact .other hrow ih
  | field hf _ ih => exact .field hf ih

structure Faithful (f : Field) (hint : Text × Text) : Prop where
  name : hint.1 = f.name
  literal : ∀ t, Text.Quoted.Literal hint.2 t ↔ t = f.tag
  printable : ∀ c ∈ hint.2, Text.isPrintable c = true

theorem Declares.annotations (h : Declares rows fields plain) : List.Forall₂ Faithful fields (annotations rows) := by
  induction h with
  | nil => exact .nil
  | other hrow _ ih =>
    rw [Python.annotations, List.filterMap_cons_none hrow]
    exact ih
  | @field f _ _ _ hf _ ih =>
    have hfaithful : Faithful f (f.name, Quoted.encode f.tag) :=
      ⟨rfl, fun t => Text.Quoted.literal_encode_iff, fun c hc => Text.Quoted.isPrintable_encode hc⟩
    rw [Python.annotations, List.filterMap_cons_some (fieldOf?_fieldRow hf)]
    exact .cons hfaithful ih

theorem Declares.map_emptied (h : Declares rows fields plain) : rows.map emptied = plain := by
  induction h with
  | nil => rfl
  | other hrow _ ih => rw [List.map_cons, emptied_of_none hrow, ih]
  | field hf _ ih => rw [List.map_cons, emptied_fieldRow hf, ih]

/-- Only rows that declare a field are changed with the tags. -/
theorem Declares.others (h : Declares rows fields plain) :
    List.Forall₂ (fun row row' => row = row' ∨ (fieldOf? row).isSome = true) rows plain := by
  induction h with
  | nil => exact .nil
  | other _ _ ih => exact .cons (Or.inl rfl) ih
  | field hf _ ih => exact .cons (Or.inr (by rw [fieldOf?_fieldRow hf]; rfl)) ih

theorem Undeclaring.declares (h : Undeclaring rows) : Declares rows [] rows := by
  induction rows with
  | nil => exact .nil
  | cons row rows ih =>
    obtain ⟨hrow, hrows⟩ := undeclaring_cons.mp h
    exact .other hrow (ih hrows)

theorem declares_fieldRows (hf : ∀ f ∈ fields, Text.isIdentifier f.name = true) :
    Declares (fieldRows fields) fields (fieldRows (fields.map Field.untagged)) := by
  have hrows : Declares (fields.map fieldRow) fields ((fields.map Field.untagged).map fieldRow) := by
    induction fields with
    | nil => exact .nil
    | cons f fields ih =>
      obtain ⟨hfirst, hmore⟩ := List.forall_mem_cons.mp hf
      exact .field hfirst (ih hmore)
  cases fields with
  | nil => exact .nil
  | cons f fields =>
    have hempty : Declares [[]] [] [[]] := .other rfl .nil
    have hall := hrows.append hempty
    rw [List.append_nil] at hall
    exact hall

theorem declares_variantRows (base : Text) (hv : ∀ f ∈ v.fields, Text.isIdentifier f.name = true) :
    Declares (variantRows base v) v.fields (variantRows base v.untagged) := by
  have hhead : Declares ["@dataclass(frozen=True)".toList, classRow base v] []
      ["@dataclass(frozen=True)".toList, classRow base v] := .other rfl (.other rfl .nil)
  have hbody : Declares [acceptRow base, dispatchRow base v] [] [acceptRow base, dispatchRow base v] :=
    .other rfl (.other rfl .nil)
  have hall := (hhead.append (declares_fieldRows hv)).append hbody
  rw [List.nil_append, List.append_nil] at hall
  exact hall

theorem declares_classesRows {variants : List Variant} (base : Text)
    (hv : ∀ v ∈ variants, ∀ f ∈ v.fields, Text.isIdentifier f.name = true) :
    Declares (classesRows base variants) (variants.flatMap Variant.fields)
      (classesRows base (variants.map Variant.untagged)) := by
  induction variants with
  | nil => exact .nil
  | cons v variants ih =>
    obtain ⟨hfirst, hmore⟩ := List.forall_mem_cons.mp hv
    rw [classesRows_cons, List.map_cons, classesRows_cons, List.flatMap_cons]
    exact .other rfl (.other rfl ((declares_variantRows base hfirst).append (ih hmore)))

theorem declares_fileRows (hd : d.Named) : Declares (fileRows d) d.fields (fileRows d.untagged) := by
  have habove := (undeclaring_aboveRows d.base d.variants).declares
  have hclasses := declares_classesRows d.base hd.fields
  have hall := habove.append hclasses
  rw [← fileRows_split, ← aboveRows_untagged d.base d.variants] at hall
  rw [fileRows_split d.untagged]
  exact hall

/-! ## Bodies -/

def indentation (line : Text) : Nat := (line.takeWhile (· = ' ')).length

def Opens (a b : Text) : Prop := indentation a < indentation b ∧ indentation b < b.length

/-- Right below every line that ends in a colon is one that is set in deeper. -/
def Bodied (lines : List Text) : Prop :=
  ∀ pre a post, lines = pre ++ a :: post → a.getLast? = some ':' → ∃ b rest, post = b :: rest ∧ Opens a b

theorem Bodied.cons (ha : a.getLast? = some ':' → ∃ b more, rest = b :: more ∧ Opens a b) (h : Bodied rest) :
    Bodied (a :: rest) := by
  intro pre x post he hx
  cases pre with
  | nil =>
    obtain ⟨rfl, rfl⟩ := List.cons.inj he
    exact ha hx
  | cons y pre => exact h pre x post (List.cons.inj he).2 hx

/-- A line that is no head may stand above any lines, -/
theorem Bodied.line {c : Char} (ha : a.getLast? = some c) (hc : c ≠ ':') (h : Bodied rest) : Bodied (a :: rest) :=
  .cons (fun hcolon => absurd (Option.some.inj (ha.symm.trans hcolon)) hc) h

theorem Bodied.empty (h : Bodied rest) : Bodied ([] :: rest) := .cons (fun hcolon => nomatch hcolon) h

/-- and a head above a body. -/
theorem Bodied.head (ho : Opens a b) (h : Bodied (b :: rest)) : Bodied (a :: b :: rest) :=
  .cons (fun _ => ⟨b, rest, rfl, ho⟩) h

theorem bodied_nil : Bodied [] := fun pre _ _ he => absurd he.symm (List.append_ne_nil_of_right_ne_nil pre (List.cons_ne_nil _ _))

theorem getLast?_append_of {s t : Text} {c : Char} (h : t.getLast? = some c) : (s ++ t).getLast? = some c := by
  rw [List.getLast?_append, h, Option.some_or]

theorem getLast?_encode (t : Text) : (Quoted.encode t).getLast? = some (Text.Quoted.mark t) := by
  rw [Quoted.encode, ← List.cons_append, List.getLast?_concat]

theorem Bodied.fieldRow (h : Bodied rest) : Bodied (fieldRow f :: rest) := by
  refine .line (getLast?_append_of (getLast?_encode f.tag)) ?_ h
  rcases Text.Quoted.mark_eq f.tag with hm | hm <;> (rw [hm]; decide)

theorem opens_acceptRow (h : indentation a = 0) : Opens a (acceptRow base) := by
  have hlength : 4 < (acceptRow base).length := by
    have hfront : 4 < "    def accept(self, visitor: ".toList.length := by simp
    unfold acceptRow
    rw [List.length_append, List.length_append]
    exact Nat.lt_add_right _ (Nat.lt_add_right _ hfront)
  unfold Opens
  rw [h]
  show 0 < 4 ∧ 4 < _
  exact ⟨by decide, hlength⟩

theorem opens_fieldRow (h : indentation a = 0) (hf : Text.isIdentifier f.name = true) : Opens a (fieldRow f) := by
  obtain ⟨c, more, hname⟩ := List.exists_cons_of_ne_nil (Text.identifier_ne_nil hf)
  have hword : Text.isWord c = true := Text.isWord_of_mem hf (hname ▸ List.mem_cons_self)
  have hblank : c ≠ ' ' := by
    rintro rfl
    revert hword
    decide
  have hin : indentation (Python.fieldRow f) = 4 := by
    rw [fieldRow_eq, hname]
    show ([' ', ' ', ' ', ' '] ++ List.takeWhile (· = ' ') (c :: _)).length = 4
    rw [List.cons_append, List.takeWhile_cons_of_neg (by simpa using hblank)]
    rfl
  have hlength : 4 < (Python.fieldRow f).length := by
    rw [fieldRow_eq, List.length_append, hname]
    show 4 < 4 + (_ + 1)
    omega
  unfold Opens
  rw [h, hin]
  exact ⟨by decide, hlength⟩

theorem Bodied.body (h : Bodied rest) : Bodied (acceptRow base :: dispatchRow base v :: rest) := by
  have hlength : 8 < (dispatchRow base v).length := by
    have hfront : 8 < "        return visitor.".toList.length := by simp
    unfold dispatchRow
    rw [List.length_append, List.length_append]
    exact Nat.lt_add_right _ (Nat.lt_add_right _ hfront)
  have hopens : Opens (acceptRow base) (dispatchRow base v) := by
    show 4 < 8 ∧ 8 < _
    exact ⟨by decide, hlength⟩
  have hlast : (dispatchRow base v).getLast? = some ')' := getLast?_append_of rfl
  exact .head hopens (.line hlast (by decide) h)

theorem Bodied.fieldRows (h : Bodied rest) : Bodied (fields.map Python.fieldRow ++ rest) := by
  induction fields with
  | nil => exact h
  | cons f fields ih => exact ih.fieldRow

/-- The class of a variant has a body, with fields or without. -/
theorem Bodied.variantRows (hv : ∀ f ∈ v.fields, Text.isIdentifier f.name = true) (h : Bodied rest) :
    Bodied (variantRows base v ++ rest) := by
  have hclass : indentation (classRow base v) = 0 := rfl
  have hbody : Bodied (acceptRow base :: dispatchRow base v :: rest) := h.body
  rw [variantRows_append]
  refine .line (c := ')') rfl (by decide) ?_
  cases hfields : v.fields with
  | nil => exact .head (opens_acceptRow hclass) hbody
  | cons f fields =>
    have hf : Text.isIdentifier f.name = true := hv f (hfields ▸ List.mem_cons_self)
    refine .head (b := Python.fieldRow f) (opens_fieldRow hclass hf) ?_
    show Bodied (((f :: fields).map Python.fieldRow ++ [[]]) ++ acceptRow base :: dispatchRow base v :: rest)
    rw [List.append_assoc]
    exact .fieldRows (.empty hbody)

theorem Bodied.classesRows {variants : List Variant} (hv : ∀ v ∈ variants, ∀ f ∈ v.fields, Text.isIdentifier f.name = true)
    (h : Bodied rest) : Bodied (classesRows base variants ++ rest) := by
  induction variants with
  | nil => exact h
  | cons v variants ih =>
    obtain ⟨hfirst, hmore⟩ := List.forall_mem_cons.mp hv
    rw [classesRows_cons, List.cons_append, List.cons_append, List.append_assoc]
    exact .empty (.empty (.variantRows hfirst (ih hmore)))

theorem Bodied.methodRows (h : Bodied rest) : Bodied (visitorMethodRows base v ++ rest) := by
  have hopens : Opens (visitorMethodRow base v) "            ...".toList := by
    show 8 < 12 ∧ 12 < 15
    decide
  exact .line (c := 'd') rfl (by decide) (.head hopens (.line (c := '.') rfl (by decide) h))

theorem Bodied.visitorRows {variants : List Variant} (hne : variants ≠ []) (h : Bodied rest) :
    Bodied (visitorRows base variants ++ rest) := by
  have hmethods : ∀ variants : List Variant,
      Bodied ([[]].intercalate (variants.map (visitorMethodRows base)) ++ rest) := by
    intro variants
    induction variants with
    | nil => exact h
    | cons v variants ih =>
      cases variants with
      | nil =>
        rw [List.map_singleton, List.intercalate_singleton]
        exact h.methodRows
      | cons next variants =>
        rw [List.map_cons, List.map_cons, List.intercalate_cons_cons, List.append_assoc, List.append_assoc]
        exact .methodRows (.empty ih)
  obtain ⟨v, variants, rfl⟩ := List.exists_cons_of_ne_nil hne
  have hopens : Opens "    class Visitor(abc.ABC, Generic[R]):".toList "        @abc.abstractmethod".toList := by
    unfold Opens
    decide
  have hbelow := hmethods (v :: variants)
  -- the visitor opens onto the mark of its first method
  obtain ⟨more, hmore⟩ : ∃ more, [[]].intercalate ((v :: variants).map (visitorMethodRows base)) =
      "        @abc.abstractmethod".toList :: more := by
    cases variants with
    | nil => exact ⟨_, List.intercalate_singleton⟩
    | cons next variants =>
      rw [List.map_cons, List.map_cons, List.intercalate_cons_cons]
      exact ⟨_, rfl⟩
  rw [hmore] at hbelow
  rw [Python.visitorRows, hmore]
  exact .head hopens hbelow

theorem bodied_fileRows (hd : d.Named) (hne : d.variants ≠ []) : Bodied (fileRows d ++ [[]]) := by
  have hclasses : Bodied (classesRows d.base d.variants ++ [[]]) := .classesRows hd.fields (.empty bodied_nil)
  have hopens : Opens (acceptRow d.base) "        ...".toList := by
    show 4 < 8 ∧ 8 < 11
    decide
  have hmiddle : Bodied ([] :: abstractRow :: acceptRow d.base :: "        ...".toList ::
      (classesRows d.base d.variants ++ [[]])) :=
    .empty (.line (c := 'd') rfl (by decide) (.head hopens (.line (c := '.') rfl (by decide) hclasses)))
  have hvisitor : Bodied (visitorRows d.base d.variants ++ _) := hmiddle.visitorRows hne
  have hopen : Opens (openRow d.base) "    class Visitor(abc.ABC, Generic[R]):".toList := by
    show 0 < 4 ∧ 4 < 39
    decide
  have hrows : fileRows d ++ [[]] = headRows d.base ++ (visitorRows d.base d.variants ++
      ([] :: abstractRow :: acceptRow d.base :: "        ...".toList :: (classesRows d.base d.variants ++ [[]]))) := by
    rw [fileRows_eq]
    simp only [List.append_assoc]
    rfl
  rw [hrows]
  refine .line (getLast?_append_of (show _ = some '.' from rfl)) (by decide) (.empty ?_)
  refine .line (c := 's') rfl (by decide) (.empty (.line (c := 'c') rfl (by decide) ?_))
  refine .line (c := 's') rfl (by decide) (.line (c := 'r') rfl (by decide) (.empty ?_))
  exact .line (c := ')') rfl (by decide) (.empty (.empty (.head hopen hvisitor)))

/-! ## A whole file -/

/-- What makes the tags of a descriptor harmless in the text that is rendered from it. -/
structure Inert (package : Text) (d : Descriptor) (text : Text) : Prop where
  /-- The annotations are those of the fields, in order. -/
  annotations : List.Forall₂ Faithful d.fields (annotations (text.splitOn '\n'))
  /-- With empty literals for them, the text is the one that is rendered without tags. -/
  emptied : Text.rows ((text.splitOn '\n').map emptied) = Target.python.render package d.untagged
  /-- So the two texts have the same lines, but for those that declare a field. -/
  others : List.Forall₂ (fun line line' => line = line' ∨ (fieldOf? line).isSome = true) (text.splitOn '\n')
    ((Target.python.render package d.untagged).splitOn '\n')
  /-- A line ends at a line feed only. -/
  noReturn : '\r' ∉ text
  bodies : Bodied (text.splitOn '\n')

theorem rows_splitOn (text : Text) : Text.rows (text.splitOn '\n') = text := List.intercalate_splitOn '\n'

/-- The tags of a rendered descriptor are harmless, whatever they are. -/
theorem render_inert (hd : d.Named) (hne : d.variants ≠ []) (package : Text) :
    Inert package d (Target.python.render package d) := by
  have hlines : (Target.python.render package d).splitOn '\n' = fileRows d ++ [[]] := lines_file hd
  have hplain : (Target.python.render package d.untagged).splitOn '\n' = fileRows d.untagged ++ [[]] :=
    lines_file hd.untagged
  have hempty : Declares [[]] [] [[]] := .other rfl .nil
  have hdeclares := (declares_fileRows hd).append hempty
  rw [List.append_nil, ← hlines, ← hplain] at hdeclares
  refine ⟨hdeclares.annotations, ?_, hdeclares.others, noReturn_file hd, ?_⟩
  · rw [hdeclares.map_emptied, rows_splitOn]
  · rw [hlines]
    exact bodied_fileRows hd hne

/-- A tag with both quotes, that goes on with another declaration on a line of its own. -/
theorem render_inert_breakout :
    (Descriptor.oneField "'\n    y: \"".toList).Named ∧
      (Descriptor.oneField "'\n    y: \"".toList).variants ≠ [] ∧
      Inert "lox".toList (Descriptor.oneField "'\n    y: \"".toList)
        (Target.python.render "lox".toList (Descriptor.oneField "'\n    y: \"".toList)) := by
  have hd := Descriptor.oneField_named "'\n    y: \"".toList
  have hne : (Descriptor.oneField "'\n    y: \"".toList).variants ≠ [] :=
    List.cons_ne_nil _ _
  exact ⟨hd, hne, render_inert hd hne _⟩

end Python

end NodeGen
