/-
  NodeGen.Proofs.Visitor — in the file of either target, the visitor and the nodes belong together.

  How a line reads is fixed for each target by a handful of readers, which know nothing of the descriptor
  (`Java.readers`, `Python.readers`). Each kind of row is read once, for all names and tags: the rows that hold
  a tag or begin with a name are told from all others by the character behind the first word (`Line.read_word`).
  The rows put together have the layout of `Java.shape` and `Python.shape` (`outline_file`), and the agreement
  follows for both at once (`Target.render_agrees`).
-/

import NodeGen.Proofs.JavaText
import NodeGen.Proofs.Outline
import NodeGen.Proofs.PythonText

namespace NodeGen

/-! ## What both targets write -/

section Words

variable {base : Text} {v : Variant} (hb : Text.isIdentifier base = true) (hv : Text.isIdentifier v.name = true)

theorem Text.isIdentifier_append {s t : Text} (hs : isIdentifier s = true) (ht : isIdentifier t = true) :
    isIdentifier (s ++ t) = true := by
  cases s with
  | nil => cases hs
  | cons c s =>
    simp only [isIdentifier, List.cons_append, Bool.and_eq_true, List.all_eq_true, List.forall_mem_append] at hs ⊢
    exact ⟨hs.1, hs.2, fun _ hc => isWord_of_mem ht hc⟩

include hb in
/-- The parameter of a method, which need not be a word, is read up to a character that lower case does not
    bring in. -/
theorem Text.cut?_lower {a : Char} {stop rest : Text} (ha : isWord a = false) (hlow : a.toNat < 97)
    (hzero : a ≠ '\x00') :
    cut? (· ≠ a) (a :: stop) (lower base ++ (a :: stop ++ rest)) = some (lower base, rest) := by
  have hnot : a ∉ lower base := not_mem_lower hlow hzero (not_mem_identifier hb ha)
  exact cut?_append (fun c hc => decide_eq_true (ne_of_mem_of_not_mem hc hnot)) (by simp)

include hb hv

theorem Variant.isIdentifier_visitMethod : Text.isIdentifier (v.visitMethod base) = true :=
  Text.isIdentifier_append (Text.isIdentifier_append (by decide) hv) hb

/-- The head of a node's class: what stands before the name, between it and the base, and behind that. -/
def nodeLine (lead between behind : Text) : Reader where
  lead := lead
  behind t := do
    let (name, t) ← Text.word? between t
    let (base, t) ← Text.word? behind t
    Mark.atEnd (.node name base) t

theorem nodeLine_behind (lead : Text) {a b : Char} {between behind : Text} (ha : Text.isWord a = false)
    (hb' : Text.isWord b = false) : (nodeLine lead (a :: between) (b :: behind)).behind
      (v.name ++ (a :: between ++ (base ++ (b :: behind ++ [])))) = some (.node v.name base) := by
  refine Option.bind_eq_some_iff.mpr ⟨_, Text.word?_append hv ha, ?_⟩
  exact Option.bind_eq_some_iff.mpr ⟨_, Text.word?_append hb hb', rfl⟩

def dispatchLine (passed : Text) : Reader where
  lead := "return visitor.".toList
  behind t := do
    let (method, t) ← Text.word? passed t
    Mark.atEnd (.dispatch method) t

theorem dispatchLine_behind {a : Char} {passed : Text} (ha : Text.isWord a = false) :
    (dispatchLine (a :: passed)).behind (v.visitMethod base ++ (a :: passed ++ [])) =
      some (.dispatch (v.visitMethod base)) :=
  Option.bind_eq_some_iff.mpr ⟨_, Text.word?_append (Variant.isIdentifier_visitMethod hb hv) ha, rfl⟩

end Words

/-! ## Java -/

namespace Java

variable {d : Descriptor} {v : Variant} {f : Field} {base package : Text}

/-! ### Lines -/

def visitorLine : Reader := ⟨"interface Visitor<R> \x7b".toList, Mark.atEnd .visitor⟩

def declarationLine : Reader where
  lead := "R ".toList
  behind t := do
    let (method, t) ← Text.word? ['('] t
    let (parameterType, t) ← Text.word? [' '] t
    let (parameter, t) ← Text.cut? (· ≠ ')') ");".toList t
    Mark.atEnd (.declaration ⟨method, parameterType, parameter⟩) t

/-- The head of the method by which a node is visited, whatever its parameters are. -/
def acceptLine : Reader := ⟨"<R> R accept(".toList, fun _ => some .accept⟩

def classLine : Reader := nodeLine "static class ".toList " extends ".toList " \x7b".toList

def callLine : Reader := dispatchLine "(this);".toList

def readers : List Reader := [visitorLine, declarationLine, classLine, acceptLine, callLine]

def shape : Shape where
  front := [0, 0, 0]
  visitor := 2
  before := []
  method := 4
  after := []
  close := 2
  middle := []
  lead := []
  node := 2
  above v := 4 :: v.fields.map (fun _ => 6) ++ [4, 4]
  accept := 4
  dispatch := 6
  below v := 4 :: v.fields.map fun _ => 4
  trail := [2]
  back := [2, 0]
  inVisitor := by decide
  closes := by decide
  own := by simp
  outside := by decide
  inNode v := by simp; omega
  inAccept := by decide
  leaves v := by simp

theorem read_visitorMethodRow (hb : Text.isIdentifier base = true) (hv : Text.isIdentifier v.name = true) :
    Line.read readers (visitorMethodRow base v) = ⟨4, [.declaration (v.declaration base)]⟩ := by
  have hrow : visitorMethodRow base v = "    ".toList ++ (declarationLine.lead ++
      (v.visitMethod base ++ (['('] ++ (v.name ++ ([' '] ++ (Text.lower base ++ (");".toList ++ []))))))) := by
    unfold visitorMethodRow
    simp only [List.append_assoc, List.append_nil]
    rfl
  rw [hrow]
  refine Line.read_lead [visitorLine] declarationLine [classLine, acceptLine, callLine]
    (by decide) (by decide) ?_ rfl rfl
  refine Option.bind_eq_some_iff.mpr ⟨_, Text.word?_append (Variant.isIdentifier_visitMethod hb hv) (by decide), ?_⟩
  refine Option.bind_eq_some_iff.mpr ⟨_, Text.word?_append hv (by decide), ?_⟩
  exact Option.bind_eq_some_iff.mpr ⟨_, Text.cut?_lower hb (by decide) (by decide) (by decide), rfl⟩

theorem read_classRow (hb : Text.isIdentifier base = true) (hv : Text.isIdentifier v.name = true) :
    Line.read readers (classRow base v) = ⟨2, [.node v.name base]⟩ := by
  have hrow : classRow base v = "  ".toList ++ (classLine.lead ++
      (v.name ++ (" extends ".toList ++ (base ++ (" \x7b".toList ++ []))))) := by
    unfold classRow
    simp only [List.append_assoc, List.append_nil]
    rfl
  rw [hrow]
  exact Line.read_lead [visitorLine, declarationLine] classLine [acceptLine, callLine]
    (by decide) (by decide) (nodeLine_behind hb hv _ (by decide) (by decide)) rfl rfl

theorem read_dispatchRow (hb : Text.isIdentifier base = true) (hv : Text.isIdentifier v.name = true) :
    Line.read readers (dispatchRow base v) = ⟨6, [.dispatch (v.visitMethod base)]⟩ := by
  have hrow : dispatchRow base v = "      ".toList ++ (callLine.lead ++
      (v.visitMethod base ++ ("(this);".toList ++ []))) := by
    unfold dispatchRow
    simp only [List.append_assoc, List.append_nil]
    rfl
  rw [hrow]
  exact Line.read_lead [visitorLine, declarationLine, classLine, acceptLine] callLine []
    (by decide) (by decide) (dispatchLine_behind hb hv (by decide)) rfl rfl

/-- A constructor is no method of the visitor, even of a variant that is named as the result is. -/
theorem read_constructorRow (hv : Text.isIdentifier v.name = true) :
    Line.read readers (constructorRow v) = ⟨4, []⟩ := by
  have hrow : constructorRow v = "    ".toList ++ (v.name ++ '(' :: (parameters v.fields ++ ") \x7b".toList)) := by
    unfold constructorRow
    simp only [List.append_assoc]
    rfl
  rw [hrow, Line.read_word (by decide) hv (by decide) (by decide)]
  rfl

theorem read_assignmentRow (f : Field) : Line.read readers (assignmentRow f) = ⟨6, []⟩ := rfl

theorem read_fieldRow (f : Field) : Line.read readers (fieldRow f) = ⟨4, []⟩ := rfl

theorem outline_assignmentRows (fields : List Field) :
    outline readers (fields.map assignmentRow) = plain (fields.map fun _ => 6) := by
  rw [plain, List.map_map]
  exact outline_map fun f _ => ⟨List.cons_ne_nil _ _, read_assignmentRow f⟩

theorem outline_fieldRows (fields : List Field) :
    outline readers (fieldRows fields) = plain (fields.map fun _ => 4) := by
  rw [plain, List.map_map]
  cases fields with
  | nil => rfl
  | cons f fields => exact outline_map fun f _ => ⟨List.cons_ne_nil _ _, read_fieldRow f⟩

theorem outline_variantRows (hb : Text.isIdentifier base = true) (hv : Text.isIdentifier v.name = true) :
    outline readers (variantRows base v ++ [[], []]) = shape.nodeLines base v := by
  have hhead : outline readers [classRow base v, constructorRow v] = [⟨2, [.node v.name base]⟩, ⟨4, []⟩] := by
    rw [← read_classRow hb hv, ← read_constructorRow hv]
    rfl
  have haccept : outline readers ["    \x7d".toList, [], "    @Override".toList,
      "    <R> R accept(Visitor<R> visitor) \x7b".toList, dispatchRow base v, "    \x7d".toList] =
      [⟨4, []⟩, ⟨4, []⟩, ⟨4, [.accept]⟩, ⟨6, [.dispatch (v.visitMethod base)]⟩, ⟨4, []⟩] := by
    rw [← read_dispatchRow hb hv]
    rfl
  have hclose : outline readers ["  \x7d".toList] = [⟨2, []⟩] := rfl
  unfold variantRows
  rw [outline_append, outline_append, outline_append, outline_append, outline_append, hhead, haccept, hclose,
    outline_assignmentRows, outline_fieldRows]
  simp [Shape.nodeLines, Shape.body, shape, plain, outline]

theorem outline_visitorMethodRows (hd : d.Named) :
    outline readers (d.variants.map (visitorMethodRow d.base)) = d.declarations.flatMap shape.methodLines := by
  have hlines : d.declarations.flatMap shape.methodLines =
      d.variants.map fun v => ⟨4, [.declaration (v.declaration d.base)]⟩ := by
    rw [Descriptor.declarations, List.flatMap_map, List.map_eq_flatMap]
    rfl
  rw [hlines]
  exact outline_map fun v hv => ⟨List.cons_ne_nil _ _, read_visitorMethodRow hd.base (hd.variants v hv)⟩

theorem outline_file (hd : d.WellFormed) (hp : '\n' ∉ package) :
    outline readers ((file package d).splitOn '\n') = shape.lines d := by
  have hpackage : (packageRow package).splitOn '\n' = [packageRow package] := by
    refine List.splitOn_eq_singleton fun hm => ?_
    unfold packageRow at hm
    rcases List.mem_append.mp hm with hm | hm
    · rcases List.mem_append.mp hm with hm | hm
      · revert hm
        decide
      · exact hp hm
    · cases List.mem_singleton.mp hm
  have hclasses : outline readers (classesRows d.base d.variants) = d.variants.flatMap (shape.nodeLines d.base) :=
    outline_flatMap fun v hv => outline_variantRows hd.base (hd.variants v hv).name
  have hback : outline readers [acceptRow, "\x7d".toList, []] = plain shape.back := rfl
  have hfront : ∀ rest, outline readers (packageRow package :: [] :: importRow :: [] :: [] :: openRow d.base :: [] ::
      "  interface Visitor<R> \x7b".toList :: rest) =
      plain shape.front ++ ⟨shape.visitor, [.visitor]⟩ :: outline readers rest := fun _ => rfl
  have hclose : ∀ rest, outline readers ("  \x7d".toList :: [] :: [] :: rest) =
      ⟨shape.close, []⟩ :: outline readers rest := fun _ => rfl
  rw [lines_file hd, hpackage, bodyRows]
  simp only [List.cons_append, List.nil_append, List.append_assoc]
  rw [hfront, outline_append, outline_visitorMethodRows hd.named, hclose, outline_append, hclasses, hback]
  rfl

end Java

/-! ## Python -/

namespace Python

variable {d : Descriptor} {v : Variant} {f : Field} {base : Text}

/-! ### Lines -/

def visitorLine : Reader where
  lead := "class ".toList
  behind t := if t = "Visitor(abc.ABC, Generic[R]):".toList then some .visitor else none

def declarationLine : Reader where
  lead := "def ".toList
  behind t := do
    let (method, t) ← Text.word? "(self, ".toList t
    let (parameter, t) ← Text.cut? (· ≠ ':') ": ".toList t
    let (parameterType, t) ← Text.word? ") -> R:".toList t
    Mark.atEnd (.declaration ⟨method, parameterType, parameter⟩) t

def acceptLine : Reader := ⟨"def accept(".toList, fun _ => some .accept⟩

def classLine : Reader := nodeLine "class ".toList ['('] "):".toList

def callLine : Reader := dispatchLine "(self)".toList

def readers : List Reader := [visitorLine, declarationLine, classLine, acceptLine, callLine]

def shape : Shape where
  front := [0, 0, 0, 0, 0, 0, 0]
  visitor := 4
  before := [8]
  method := 8
  after := [12]
  close := 4
  middle := [⟨4, [.accept]⟩, ⟨8, []⟩]
  lead := [0]
  node := 0
  above v := v.fields.map fun _ => 4
  accept := 4
  dispatch := 8
  below _ := []
  trail := []
  back := []
  inVisitor := by decide
  closes := by decide
  own := by simp
  outside := by decide
  inNode v := by simp
  inAccept := by decide
  leaves v := by simp

theorem read_visitorMethodRow (hb : Text.isIdentifier base = true) (hv : Text.isIdentifier v.name = true) :
    Line.read readers (visitorMethodRow base v) = ⟨8, [.declaration (v.declaration base)]⟩ := by
  have hrow : visitorMethodRow base v = "        ".toList ++ (declarationLine.lead ++ (v.visitMethod base ++
      ("(self, ".toList ++ (Text.lower base ++ (": ".toList ++ (v.name ++ (") -> R:".toList ++ []))))))) := by
    unfold visitorMethodRow
    simp only [List.append_assoc, List.append_nil]
    rfl
  rw [hrow]
  refine Line.read_lead [visitorLine] declarationLine [classLine, acceptLine, callLine]
    (by decide) (by decide) ?_ rfl rfl
  refine Option.bind_eq_some_iff.mpr ⟨_, Text.word?_append (Variant.isIdentifier_visitMethod hb hv) (by decide), ?_⟩
  refine Option.bind_eq_some_iff.mpr ⟨_, Text.cut?_lower hb (by decide) (by decide) (by decide), ?_⟩
  exact Option.bind_eq_some_iff.mpr ⟨_, Text.word?_append hv (by decide), rfl⟩

/-- A class is not the visitor if something else follows its name, even if it is named as the visitor is. -/
theorem visitorLine_behind_eq_none {name rest : Text} (hname : Text.isIdentifier name = true)
    (hrest : rest ≠ "abc.ABC, Generic[R]):".toList) : visitorLine.behind (name ++ '(' :: rest) = none := by
  refine if_neg fun h => ?_
  obtain ⟨-, -, he⟩ := Text.identifier_append_inj (t := "Visitor".toList) (b := '(') hname (by decide)
    (by decide) (by decide) h
  exact hrest he

theorem read_classRow (hb : Text.isIdentifier base = true) (hv : Text.isIdentifier v.name = true) :
    Line.read readers (classRow base v) = ⟨0, [.node v.name base]⟩ := by
  have hrow : classRow base v = [] ++ (classLine.lead ++ (v.name ++ (['('] ++ (base ++ ("):".toList ++ []))))) := by
    unfold classRow
    simp only [List.append_assoc, List.append_nil]
    rfl
  have hrest : base ++ ("):".toList ++ []) ≠ "abc.ABC, Generic[R]):".toList := by
    intro h
    obtain ⟨-, hc, -⟩ := Text.identifier_append_inj (a := ')') (t := "abc".toList) (b := '.') hb (by decide)
      (by decide) (by decide) h
    revert hc
    decide
  rw [hrow]
  refine Line.read_lead [visitorLine, declarationLine] classLine [acceptLine, callLine]
    (by decide) (by decide) (nodeLine_behind hb hv _ (by decide) (by decide)) ?_ rfl
  exact List.filterMap_cons_none ((visitorLine.read_append _).trans (visitorLine_behind_eq_none hv hrest))

/-- The base class is no node: the module of its own base is set off by a dot. -/
theorem read_openRow (hb : Text.isIdentifier base = true) : Line.read readers (openRow base) = ⟨0, []⟩ := by
  have hrow : openRow base = [] ++ (classLine.lead ++ (base ++ (['('] ++ ("abc.ABC):".toList ++ [])))) := by
    unfold openRow
    simp only [List.append_assoc, List.append_nil]
    rfl
  have hnode : classLine.behind (base ++ (['('] ++ ("abc.ABC):".toList ++ []))) = none := by
    refine Option.bind_eq_none_iff.mpr fun cut hcut => ?_
    obtain rfl := Option.some.inj ((Text.word?_append hb (by decide)).symm.trans hcut)
    rfl
  rw [hrow]
  refine Line.read_plain (by decide) (by rintro _ ⟨⟩; decide) ?_
  simp only [readers, List.forall_mem_cons, List.not_mem_nil, false_implies, implies_true, and_true]
  exact ⟨(visitorLine.read_append _).trans (visitorLine_behind_eq_none hb (by decide)), rfl,
    (classLine.read_append _).trans hnode, rfl, rfl⟩

/-- The head of a visit is no method of the visitor, for what it takes is of no variant's type. -/
theorem read_acceptRow (hb : Text.isIdentifier base = true) :
    Line.read readers (acceptRow base) = ⟨4, [.accept]⟩ := by
  have hrow : acceptRow base = "    ".toList ++ (acceptLine.lead ++
      ("self, visitor: ".toList ++ (base ++ ".Visitor[R]) -> R:".toList))) := by
    unfold acceptRow
    simp only [List.append_assoc]
    rfl
  have hdeclaration : declarationLine.behind ("accept".toList ++ ("(self, ".toList ++ ("visitor".toList ++
      (": ".toList ++ (base ++ ".Visitor[R]) -> R:".toList))))) = none := by
    have hmethod : ∀ rest, Text.word? "(self, ".toList ("accept".toList ++ ("(self, ".toList ++ rest)) =
        some ("accept".toList, rest) := fun rest => Text.word?_append (by decide) (by decide)
    have hparameter : ∀ rest, Text.cut? (· ≠ ':') ": ".toList ("visitor".toList ++ (": ".toList ++ rest)) =
        some ("visitor".toList, rest) := fun rest => Text.cut?_append (List.all_eq_true.mp (by decide)) (by decide)
    have htype : Text.word? ") -> R:".toList (base ++ ".Visitor[R]) -> R:".toList) = none :=
      Text.word?_eq_none hb (by decide) (by decide)
    simp only [declarationLine, hmethod, hparameter, htype, Option.bind_eq_bind, Option.bind_some, Option.bind_none]
  rw [hrow]
  refine Line.read_lead [visitorLine, declarationLine, classLine] acceptLine [callLine]
    (by decide) (by decide) rfl (List.filterMap_eq_nil_iff.mpr ?_) rfl
  simp only [List.forall_mem_cons, List.not_mem_nil, false_implies, implies_true, and_true]
  exact ⟨rfl, (declarationLine.read_append _).trans hdeclaration, rfl⟩

theorem read_dispatchRow (hb : Text.isIdentifier base = true) (hv : Text.isIdentifier v.name = true) :
    Line.read readers (dispatchRow base v) = ⟨8, [.dispatch (v.visitMethod base)]⟩ := by
  have hrow : dispatchRow base v = "        ".toList ++ (callLine.lead ++
      (v.visitMethod base ++ ("(self)".toList ++ []))) := by
    unfold dispatchRow
    simp only [List.append_assoc, List.append_nil]
    rfl
  rw [hrow]
  exact Line.read_lead [visitorLine, declarationLine, classLine, acceptLine] callLine []
    (by decide) (by decide) (dispatchLine_behind hb hv (by decide)) rfl rfl

/-- A field is none of these, whatever its name and its tag are. -/
theorem read_fieldRow (hf : Text.isIdentifier f.name = true) : Line.read readers (fieldRow f) = ⟨4, []⟩ := by
  rw [fieldRow_eq, Line.read_word (by decide) hf (by decide) (by decide)]
  rfl

theorem outline_fieldRows {fields : List Field} (hf : ∀ f ∈ fields, Text.isIdentifier f.name = true) :
    outline readers (fieldRows fields) = plain (fields.map fun _ => 4) := by
  have hrows : outline readers (fields.map fieldRow) = fields.map fun _ => ⟨4, []⟩ :=
    outline_map fun f hmem => ⟨List.cons_ne_nil _ _, read_fieldRow (hf f hmem)⟩
  rw [plain, List.map_map]
  cases fields with
  | nil => rfl
  | cons f fields =>
    show outline readers ((f :: fields).map fieldRow ++ [[]]) = _
    rw [outline_append, hrows]
    exact List.append_nil _

theorem outline_variantRows (hb : Text.isIdentifier base = true) (hv : Text.isIdentifier v.name = true)
    (hf : ∀ f ∈ v.fields, Text.isIdentifier f.name = true) :
    outline readers ([[], []] ++ variantRows base v) = shape.nodeLines base v := by
  have hhead : outline readers ["@dataclass(frozen=True)".toList, classRow base v] =
      [⟨0, []⟩, ⟨0, [.node v.name base]⟩] := by
    rw [← read_classRow hb hv]
    rfl
  have haccept : outline readers [acceptRow base, dispatchRow base v] =
      [⟨4, [.accept]⟩, ⟨8, [.dispatch (v.visitMethod base)]⟩] := by
    rw [← read_acceptRow hb, ← read_dispatchRow hb hv]
    rfl
  unfold variantRows
  rw [outline_append, outline_append, outline_append, hhead, haccept, outline_fieldRows hf]
  simp [Shape.nodeLines, Shape.body, shape, plain, outline]

theorem outline_visitorMethodRows (hb : Text.isIdentifier base = true) (hv : Text.isIdentifier v.name = true) :
    outline readers (visitorMethodRows base v) = shape.methodLines (v.declaration base) := by
  show _ = plain [8] ++ ⟨8, [.declaration (v.declaration base)]⟩ :: plain [12]
  rw [← read_visitorMethodRow hb hv]
  rfl

theorem outline_file (hd : d.Named) : outline readers ((file d).splitOn '\n') = shape.lines d := by
  have hfront : outline readers (headRows d.base) = plain shape.front := by
    show plain [0, 0, 0, 0, 0, 0] ++ [Line.read readers (openRow d.base)] = _
    rw [read_openRow hd.base]
    rfl
  have hvisitor : outline readers (visitorRows d.base d.variants) =
      ⟨4, [.visitor]⟩ :: d.declarations.flatMap shape.methodLines := by
    have hopen : ∀ rest, outline readers ("    class Visitor(abc.ABC, Generic[R]):".toList :: rest) =
        ⟨4, [.visitor]⟩ :: outline readers rest := fun _ => rfl
    rw [visitorRows, hopen, outline_intercalate, List.flatMap_map, Descriptor.declarations, List.flatMap_map,
      List.flatMap_congr fun v hv => outline_visitorMethodRows hd.base (hd.variants v hv)]
  have hmiddle : ∀ rest, outline readers (abstractRow :: acceptRow d.base :: "        ...".toList :: rest) =
      ⟨shape.close, []⟩ :: (shape.middle ++ outline readers rest) := by
    intro rest
    show plain [4] ++ Line.read readers (acceptRow d.base) :: (plain [8] ++ outline readers rest) = _
    rw [read_acceptRow hd.base]
    rfl
  have hclasses : outline readers (classesRows d.base d.variants) = d.variants.flatMap (shape.nodeLines d.base) :=
    outline_flatMap fun v hv => outline_variantRows hd.base (hd.variants v hv) (hd.fields v hv)
  rw [lines_file hd, fileRows_eq, outline_append, outline_append, outline_append, outline_append, hfront, hvisitor,
    hmiddle, hclasses]
  simp [Shape.lines, Shape.nodesLines, shape, plain, outline]

end Python

/-! ## Both targets -/

namespace Target

def readers : Target → List Reader
  | java => Java.readers
  | python => Python.readers

/-- Whatever a descriptor's tags and names are, and whatever package is named: in the file of either target the
    visitor and the nodes are the descriptor's, and no other line can be taken for a part of one. -/
theorem render_agrees {base package : Text} {lines : List Text} {d : Descriptor}
    (h : Descriptor.parse base lines = .ok d) (hp : '\n' ∉ package) (target : Target) :
    Agrees (outline target.readers ((target.render package d).splitOn '\n')) d := by
  have hd := Descriptor.parse_wellFormed h
  cases target with
  | java =>
    show Agrees (outline Java.readers ((Java.file package d).splitOn '\n')) d
    rw [Java.outline_file hd hp]
    exact Java.shape.agrees hd.distinct
  | python =>
    show Agrees (outline Python.readers ((Python.file d).splitOn '\n')) d
    rw [Python.outline_file hd.named]
    exact Python.shape.agrees hd.distinct

def wordTable : List Text :=
  ["R : return visitor, R accept".toList, "Visitor :".toList, "accept : visitor.visitRR(this); R".toList]

def wordDescriptor : Descriptor :=
  ⟨['R'], [⟨['R'], [⟨"return".toList, "visitor".toList⟩, ⟨['R'], "accept".toList⟩]⟩, ⟨"Visitor".toList, []⟩,
    ⟨"accept".toList, [⟨"visitor.visitRR(this);".toList, ['R']⟩]⟩]⟩

theorem render_agrees_words :
    Descriptor.parse ['R'] wordTable = .ok wordDescriptor ∧ '\n' ∉ "lox".toList ∧
      Agrees (outline java.readers ((java.render "lox".toList wordDescriptor).splitOn '\n')) wordDescriptor ∧
      Agrees (outline python.readers ((python.render "lox".toList wordDescriptor).splitOn '\n')) wordDescriptor := by
  have h : Descriptor.parse ['R'] wordTable = .ok wordDescriptor := by decide +kernel
  have hp : '\n' ∉ "lox".toList := by decide
  exact ⟨h, hp, render_agrees h hp java, render_agrees h hp python⟩

end Target

end NodeGen
