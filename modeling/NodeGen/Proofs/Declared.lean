/-
  NodeGen.Proofs.Declared — the names that a file declares, and when one of them comes twice.

  The parser refuses a variant with the name of another one, and a field with the name of another one of its variant.
  The files declare more names than these: the base type, the visitor, and in every node the method `accept`. No
  check compares them with the names in the table.

  The names are read off the lines of a file (`Java.types`, `Python.classes`), by readers that know nothing of the
  descriptor.
  - `Java.types_below`: the types are the base, `Visitor` and the variants.
  - `Python.classes_file`: the classes are the base and the variants; the members of a node are its fields and
    `accept`.
  - `Descriptor.declares_once_iff`: for an accepted descriptor, when each of these lists is without a repetition.
    `declaredTwice` is a descriptor with a repetition in all three.
-/

import NodeGen.Proofs.JavaText
import NodeGen.Proofs.Outline
import NodeGen.Proofs.PythonText

namespace NodeGen

theorem Text.takeWhile_isWord {name rest : Text} {a : Char} (hname : isIdentifier name = true) (ha : isWord a = false) :
    (name ++ a :: rest).takeWhile isWord = name :=
  takeWhile_append (fun _ hc => isWord_of_mem hname hc) (by simpa using ha)

/-! ## Java -/

namespace Java

variable {d : Descriptor} {v : Variant} {base package : Text}

def leads : List Text := ["abstract class ".toList, "static class ".toList, "interface ".toList]

def declared? (line : Text) : Option Text :=
  leads.findSome? fun lead => ((Text.trimLeft line).dropPrefix? lead).map (·.takeWhile Text.isWord)

/-- The types that a text declares, those within other types too. -/
def types (t : Text) : List Text := (t.splitOn '\n').filterMap declared?

def typesBelow (package t : Text) : List Text := types (t.drop (packageRow package).length)

/-- A line declares the name behind the first words that lead to one. -/
theorem declared?_lead (before after : List Text) {front lead name rest : Text} {a : Char}
    (hleads : leads = before ++ lead :: after) (hfront : Text.AllBlank front)
    (hfirst : ∀ t : Text, ∀ c ∈ (lead ++ t).head?, Text.isBlank c = false)
    (hbefore : ∀ t : Text, before.findSome? ((lead ++ t).dropPrefix? ·) = none)
    (hname : Text.isIdentifier name = true) (ha : Text.isWord a = false) :
    declared? (front ++ (lead ++ (name ++ a :: rest))) = some name := by
  have hnone : before.findSome? (fun l => ((lead ++ (name ++ a :: rest)).dropPrefix? l).map (·.takeWhile Text.isWord)) =
      none := by
    refine List.findSome?_eq_none_iff.mpr fun l hl => ?_
    rw [List.findSome?_eq_none_iff.mp (hbefore _) l hl]
    rfl
  rw [declared?, Text.trimLeft_append hfront (hfirst _), hleads, List.findSome?_append, hnone, List.findSome?_cons,
    List.dropPrefix?_append_of_beq _ BEq.rfl]
  exact congrArg some (Text.takeWhile_isWord hname ha)

theorem declared?_openRow (hb : Text.isIdentifier base = true) : declared? (openRow base) = some base := by
  have hrow : openRow base = [] ++ ("abstract class ".toList ++ (base ++ ' ' :: ['\x7b'])) := List.append_assoc _ _ _
  rw [hrow]
  exact declared?_lead [] _ rfl (by decide) (by simp; decide) (by simp) hb (by decide)

theorem declared?_classRow (hv : Text.isIdentifier v.name = true) : declared? (classRow base v) = some v.name := by
  have hrow : classRow base v =
      "  ".toList ++ ("static class ".toList ++ (v.name ++ ' ' :: ("extends ".toList ++ base ++ " \x7b".toList))) := by
    unfold classRow
    simp only [List.append_assoc]
    rfl
  rw [hrow]
  exact declared?_lead ["abstract class ".toList] _ rfl (by decide) (by simp; decide) (fun _ => rfl) hv (by decide)

/-- A constructor declares no type, even that of a variant with a name like a keyword. -/
theorem declared?_constructorRow (hv : Text.isIdentifier v.name = true) : declared? (constructorRow v) = none := by
  have hrow : constructorRow v = "    ".toList ++ (v.name ++ '(' :: (parameters v.fields ++ ") \x7b".toList)) := by
    unfold constructorRow
    simp only [List.append_assoc]
    rfl
  have hfirst : ∀ c ∈ (v.name ++ '(' :: (parameters v.fields ++ ") \x7b".toList)).head?, Text.isBlank c = false := by
    intro c hc
    obtain ⟨b, more, hname⟩ := List.exists_cons_of_ne_nil (Text.identifier_ne_nil hv)
    rw [hname] at hc
    obtain rfl : b = c := Option.some.inj hc
    exact Text.noBlank_identifier hv b (by rw [hname]; exact List.mem_cons_self)
  have hleads : ∀ lead ∈ leads, (lead.dropWhile Text.isWord).head?.any (· ≠ '(') = true := by decide
  rw [declared?, hrow, Text.trimLeft_append (by decide) hfirst]
  refine List.findSome?_eq_none_iff.mpr fun lead hlead => ?_
  rw [Text.dropPrefix?_eq_none hv (by decide) (hleads lead hlead)]
  rfl

theorem declared_variantRows (hv : Text.isIdentifier v.name = true) :
    (variantRows base v ++ [[], []]).filterMap declared? = [v.name] := by
  have hassignments : (v.fields.map assignmentRow).filterMap declared? = [] := by
    rw [List.filterMap_map]
    exact List.filterMap_eq_nil_iff.mpr fun f _ => rfl
  have hfields : (fieldRows v.fields).filterMap declared? = [] := by
    refine List.filterMap_eq_nil_iff.mpr fun r hr => ?_
    unfold fieldRows at hr
    split at hr
    · cases hr
    · rcases List.mem_cons.mp hr with rfl | hr
      · rfl
      · obtain ⟨f, -, rfl⟩ := List.mem_map.mp hr
        rfl
  have haccept : ["    \x7d".toList, [], "    @Override".toList, "    <R> R accept(Visitor<R> visitor) \x7b".toList,
      dispatchRow base v, "    \x7d".toList].filterMap declared? = [] := rfl
  have hclose : ["  \x7d".toList].filterMap declared? = [] := rfl
  have hblank : [[], []].filterMap declared? = [] := rfl
  have hhead : [classRow base v, constructorRow v].filterMap declared? = [v.name] := by
    simp [declared?_classRow hv, declared?_constructorRow hv]
  unfold variantRows
  simp only [List.filterMap_append, hhead, hassignments, haccept, hfields, hclose, hblank, List.append_nil]

/-- Below its package, a file declares the base type, its visitor and the variants. -/
theorem types_below (hd : d.WellFormed) :
    types (below d) = d.base :: "Visitor".toList :: d.variants.map Variant.name := by
  have hmethods : (d.variants.map (visitorMethodRow d.base)).filterMap declared? = [] := by
    rw [List.filterMap_map]
    exact List.filterMap_eq_nil_iff.mpr fun v _ => rfl
  have hclasses : (classesRows d.base d.variants).filterMap declared? = d.variants.map Variant.name := by
    rw [classesRows, List.filterMap_flatMap, List.map_eq_flatMap]
    exact List.flatMap_congr fun v hv => declared_variantRows (hd.variants v hv).name
  have hfront : [[], importRow, [], []].filterMap declared? = [] := rfl
  have hopen : [openRow d.base].filterMap declared? = [d.base] := by simp [declared?_openRow hd.base]
  have hvisitor : [[], "  interface Visitor<R> \x7b".toList].filterMap declared? = ["Visitor".toList] := rfl
  have hmiddle : ["  \x7d".toList, [], []].filterMap declared? = [] := rfl
  have hback : [acceptRow, "\x7d".toList, []].filterMap declared? = [] := rfl
  have hlines : (below d).splitOn '\n' =
      [[], importRow, [], []] ++ ([openRow d.base] ++ ([[], "  interface Visitor<R> \x7b".toList] ++
        (d.variants.map (visitorMethodRow d.base) ++ (["  \x7d".toList, [], []] ++
          (classesRows d.base d.variants ++ [acceptRow, "\x7d".toList, []]))))) := by
    rw [lines_below hd, bodyRows]
    simp
  rw [types, hlines]
  simp only [List.filterMap_append, hfront, hopen, hvisitor, hmethods, hmiddle, hclasses, hback, List.append_nil,
    List.nil_append]
  rfl

end Java

/-! ## Python -/

namespace Python

variable {d : Descriptor} {v : Variant} {vs : List Variant} {f : Field} {base : Text}

def memberLeads : List Text := ["def ".toList, "class ".toList]

/-- The name of the member that a line of a class declares: a method, a class, or a field with its type. -/
def member? (line : Text) : Option Text :=
  (line.dropPrefix? "    ".toList).bind fun t =>
    (memberLeads.findSome? fun lead => (t.dropPrefix? lead).map (·.takeWhile Text.isWord)).or
      ((Text.word? [':'] t).map Prod.fst)

structure Class where
  name : Text
  members : List Text
  deriving DecidableEq

/-- The classes that lines declare, if they are not set in. The lines of a class are those below it that are. -/
def classesOf : List Text → List Class
  | [] => []
  | line :: rest =>
    match line.dropPrefix? "class ".toList with
    | some t => ⟨t.takeWhile Text.isWord, (rest.takeWhile (·.head? = some ' ')).filterMap member?⟩ :: classesOf rest
    | none => classesOf rest

def inked (lines : List Text) : List Text := lines.filter (!·.isEmpty)

theorem inked_append (above below : List Text) : inked (above ++ below) = inked above ++ inked below :=
  List.filter_append above below

def classes (t : Text) : List Class := classesOf (inked (t.splitOn '\n'))

section Lines

variable {line t : Text} {above body rest : List Text}

theorem classesOf_append (h : ∀ l ∈ above, l.head? ≠ some 'c') : classesOf (above ++ rest) = classesOf rest := by
  induction above with
  | nil => rfl
  | cons l above ih =>
    obtain ⟨hl, habove⟩ := List.forall_mem_cons.mp h
    have hnone : l.dropPrefix? "class ".toList = none := by
      rw [Option.eq_none_iff_forall_ne_some]
      intro t ht
      obtain ⟨front, rfl, hfront⟩ := List.dropPrefix?_eq_some_iff.mp ht
      rw [eq_of_beq hfront] at hl
      exact hl rfl
    rw [List.cons_append, classesOf, hnone]
    exact ih habove

/-- A class ends above the first line that is not set in. -/
theorem classesOf_class (hline : line.dropPrefix? "class ".toList = some t) (hbody : ∀ l ∈ body, l.head? = some ' ')
    (hrest : ∀ l ∈ rest.head?, l.head? ≠ some ' ') :
    classesOf (line :: (body ++ rest)) = ⟨t.takeWhile Text.isWord, body.filterMap member?⟩ :: classesOf rest := by
  have hblock : (body ++ rest).takeWhile (fun l => decide (l.head? = some ' ')) = body :=
    Text.takeWhile_append (by simpa using hbody) (by simpa using hrest)
  have hmore : classesOf (body ++ rest) = classesOf rest :=
    classesOf_append fun l hl => by rw [hbody l hl]; decide
  rw [classesOf, hline]
  simp only [hblock, hmore]

end Lines

/-! ### Members -/

theorem member?_fieldRow (hf : Text.isIdentifier f.name = true) : member? (fieldRow f) = some f.name := by
  have hother : ∀ lead ∈ memberLeads, (lead.dropWhile Text.isWord).head?.any (· ≠ ':') = true := by decide
  have hleads : memberLeads.findSome? (fun lead =>
      ((f.name ++ ':' :: (' ' :: Text.Quoted.encode f.tag)).dropPrefix? lead).map (·.takeWhile Text.isWord)) =
      none := by
    refine List.findSome?_eq_none_iff.mpr fun lead hlead => ?_
    rw [Text.dropPrefix?_eq_none hf (by decide) (hother lead hlead)]
    rfl
  have hword : Text.word? [':'] (f.name ++ ([':'] ++ ' ' :: Text.Quoted.encode f.tag)) = some (f.name, _) :=
    Text.word?_append hf (by decide)
  rw [member?, fieldRow_eq, List.dropPrefix?_append_of_beq _ BEq.rfl, Option.bind_some, hleads, Option.none_or]
  exact congrArg (Option.map Prod.fst) hword

theorem member?_acceptRow (base : Text) : member? (acceptRow base) = some "accept".toList := by
  have hrow : acceptRow base = "    ".toList ++ ("def ".toList ++
      ("accept".toList ++ '(' :: ("self, visitor: ".toList ++ base ++ ".Visitor[R]) -> R:".toList))) := by
    unfold acceptRow
    simp only [List.append_assoc]
    rfl
  rw [member?, hrow, List.dropPrefix?_append_of_beq _ BEq.rfl, Option.bind_some, memberLeads, List.findSome?_cons,
    List.dropPrefix?_append_of_beq _ BEq.rfl]
  exact congrArg some (Text.takeWhile_isWord (by decide) (by decide))

/-- A line that is set in deeper than a member declares none. -/
theorem member?_dispatchRow (base : Text) (v : Variant) : member? (dispatchRow base v) = none := rfl

theorem member?_visitorMethodRow (base : Text) (v : Variant) : member? (visitorMethodRow base v) = none := rfl

def bodyRows (base : Text) (v : Variant) : List Text := v.fields.map fieldRow ++ [acceptRow base, dispatchRow base v]

def membersOf (v : Variant) : List Text := v.fields.map Field.name ++ ["accept".toList]

theorem members_bodyRows (hf : ∀ f ∈ v.fields, Text.isIdentifier f.name = true) :
    (bodyRows base v).filterMap member? = membersOf v := by
  have hfields : (v.fields.map fieldRow).filterMap member? = v.fields.map Field.name := by
    rw [List.filterMap_map, ← List.filterMap_eq_map]
    exact List.filterMap_congr fun f hmem => member?_fieldRow (hf f hmem)
  have haccept : [acceptRow base, dispatchRow base v].filterMap member? = ["accept".toList] := by
    simp [member?_acceptRow, member?_dispatchRow]
  rw [bodyRows, List.filterMap_append, hfields, haccept, membersOf]

/-! ### Classes -/

def nodeRows (base : Text) (v : Variant) : List Text :=
  "@dataclass(frozen=True)".toList :: classRow base v :: bodyRows base v

theorem inked_fieldRows (fields : List Field) : inked (fieldRows fields) = fields.map fieldRow := by
  have hfull : inked (fields.map fieldRow) = fields.map fieldRow := by
    refine List.filter_eq_self.mpr fun r hr => ?_
    obtain ⟨f, -, rfl⟩ := List.mem_map.mp hr
    rfl
  cases fields with
  | nil => rfl
  | cons f fields =>
    have hrows : fieldRows (f :: fields) = (f :: fields).map fieldRow ++ [[]] := rfl
    rw [hrows, inked_append, hfull]
    exact List.append_nil _

theorem inked_classesRows (base : Text) (vs : List Variant) :
    inked (classesRows base vs) = vs.flatMap (nodeRows base) := by
  rw [classesRows, inked, List.filter_flatMap]
  refine List.flatMap_congr fun v _ => ?_
  have hhead : inked [[], [], "@dataclass(frozen=True)".toList, classRow base v] =
      ["@dataclass(frozen=True)".toList, classRow base v] := rfl
  have hback : inked [acceptRow base, dispatchRow base v] = [acceptRow base, dispatchRow base v] := rfl
  have hrows : [[], []] ++ variantRows base v = [[], [], "@dataclass(frozen=True)".toList, classRow base v] ++
      (fieldRows v.fields ++ [acceptRow base, dispatchRow base v]) := by
    rw [variantRows, List.append_assoc]
    rfl
  show inked ([[], []] ++ variantRows base v) = nodeRows base v
  rw [hrows, inked_append, inked_append, hhead, hback, inked_fieldRows]
  rfl

theorem head?_bodyRows {r : Text} (h : r ∈ bodyRows base v) : r.head? = some ' ' := by
  rcases List.mem_append.mp h with h | h
  · obtain ⟨f, -, rfl⟩ := List.mem_map.mp h
    rfl
  · rcases List.mem_cons.mp h with rfl | h
    · rfl
    · obtain rfl := List.mem_singleton.mp h
      rfl

/-- Nodes start with a line that is not set in. -/
theorem head?_nodes {r : Text} (h : r ∈ (vs.flatMap (nodeRows base)).head?) : r.head? ≠ some ' ' := by
  cases vs with
  | nil => cases h
  | cons v vs =>
    obtain rfl : "@dataclass(frozen=True)".toList = r := Option.some.inj h
    decide

theorem classesOf_nodes (hnames : ∀ v ∈ vs, Text.isIdentifier v.name = true)
    (hfields : ∀ v ∈ vs, ∀ f ∈ v.fields, Text.isIdentifier f.name = true) :
    classesOf (vs.flatMap (nodeRows base)) = vs.map fun v => ⟨v.name, membersOf v⟩ := by
  induction vs with
  | nil => rfl
  | cons v vs ih =>
    obtain ⟨hname, hnames⟩ := List.forall_mem_cons.mp hnames
    obtain ⟨hfield, hfields⟩ := List.forall_mem_cons.mp hfields
    have hline : (classRow base v).dropPrefix? "class ".toList = some (v.name ++ '(' :: (base ++ "):".toList)) := by
      have hrow : classRow base v = "class ".toList ++ (v.name ++ '(' :: (base ++ "):".toList)) := by
        unfold classRow
        simp only [List.append_assoc]
        rfl
      rw [hrow, List.dropPrefix?_append_of_beq _ BEq.rfl]
    have hbody : ∀ r ∈ bodyRows base v, r.head? = some ' ' := fun _ => head?_bodyRows
    have hrest : ∀ r ∈ (vs.flatMap (nodeRows base)).head?, r.head? ≠ some ' ' := fun _ => head?_nodes
    have hclass := classesOf_class hline hbody hrest
    rw [Text.takeWhile_isWord hname (by decide), members_bodyRows hfield, ih hnames hfields] at hclass
    exact hclass

def baseRows (d : Descriptor) : List Text :=
  inked (visitorRows d.base d.variants ++ [[]]) ++ [abstractRow, acceptRow d.base, "        ...".toList]

theorem mem_visitorRows {r : Text} (h : r ∈ inked ([[]].intercalate (vs.map (visitorMethodRows base)))) :
    r.head? = some ' ' ∧ member? r = none := by
  obtain ⟨hmem, hfull⟩ := List.mem_filter.mp h
  rcases Text.mem_intercalate hmem with hempty | ⟨rows, hrows, hr⟩
  · obtain rfl := List.mem_singleton.mp hempty
    cases hfull
  · obtain ⟨v, -, rfl⟩ := List.mem_map.mp hrows
    rcases List.mem_cons.mp hr with rfl | hr
    · exact ⟨rfl, rfl⟩
    rcases List.mem_cons.mp hr with rfl | hr
    · exact ⟨rfl, member?_visitorMethodRow base v⟩
    · obtain rfl := List.mem_singleton.mp hr
      exact ⟨rfl, rfl⟩

theorem baseRows_eq (d : Descriptor) : baseRows d = "    class Visitor(abc.ABC, Generic[R]):".toList ::
    (inked ([[]].intercalate (d.variants.map (visitorMethodRows d.base))) ++
      [abstractRow, acceptRow d.base, "        ...".toList]) := by
  have hblank : inked [[]] = [] := rfl
  rw [baseRows, inked_append, hblank, List.append_nil]
  rfl

theorem head?_baseRows {r : Text} (h : r ∈ baseRows d) : r.head? = some ' ' := by
  rw [baseRows_eq] at h
  rcases List.mem_cons.mp h with rfl | h
  · rfl
  rcases List.mem_append.mp h with h | h
  · exact (mem_visitorRows h).1
  · simp only [List.mem_cons, List.not_mem_nil, or_false] at h
    rcases h with rfl | rfl | rfl <;> rfl

theorem members_baseRows (d : Descriptor) : (baseRows d).filterMap member? = ["Visitor".toList, "accept".toList] := by
  have hmethods : (inked ([[]].intercalate (d.variants.map (visitorMethodRows d.base)))).filterMap member? = [] :=
    List.filterMap_eq_nil_iff.mpr fun r hr => (mem_visitorRows hr).2
  have hvisitor : member? "    class Visitor(abc.ABC, Generic[R]):".toList = some "Visitor".toList := by decide
  have haccept : [abstractRow, acceptRow d.base, "        ...".toList].filterMap member? = ["accept".toList] := by
    rw [List.filterMap_cons_none rfl, List.filterMap_cons_some (member?_acceptRow d.base)]
    rfl
  rw [baseRows_eq, List.filterMap_cons_some hvisitor, List.filterMap_append, hmethods, haccept]
  rfl

/-- A file declares the base type, with the visitor and the method that is visited, and the nodes. -/
theorem classes_file (hd : d.Named) : classes (file d) =
    ⟨d.base, ["Visitor".toList, "accept".toList]⟩ :: d.variants.map fun v => ⟨v.name, membersOf v⟩ := by
  have hlines : inked ((file d).splitOn '\n') = inked (headRows d.base).dropLast ++ openRow d.base :: (baseRows d ++
      d.variants.flatMap (nodeRows d.base)) := by
    have hhead : inked (headRows d.base) = inked (headRows d.base).dropLast ++ [openRow d.base] := rfl
    have haccept : inked [abstractRow, acceptRow d.base, "        ...".toList] =
        [abstractRow, acceptRow d.base, "        ...".toList] := rfl
    have hrows : fileRows d ++ [[]] = headRows d.base ++ ((visitorRows d.base d.variants ++ [[]]) ++
        ([abstractRow, acceptRow d.base, "        ...".toList] ++ (classesRows d.base d.variants ++ [[]]))) := by
      rw [fileRows_eq]
      simp
    have hend : inked [[]] = [] := rfl
    rw [lines_file hd, hrows, baseRows]
    simp only [inked_append, hhead, haccept, inked_classesRows, hend, List.append_assoc, List.append_nil]
    rfl
  have habove : ∀ l ∈ inked (headRows d.base).dropLast, l.head? ≠ some 'c' := by
    have hrows : inked (headRows d.base).dropLast = [firstRow d.base, "from __future__ import annotations".toList,
      "import abc".toList, "from dataclasses import dataclass".toList, "from typing import Generic, TypeVar".toList,
      "R = TypeVar(\"R\")".toList] := rfl
    rw [hrows]
    simp only [List.forall_mem_cons, List.not_mem_nil, false_implies, implies_true, and_true]
    exact ⟨show some '#' ≠ some 'c' by decide, by decide, by decide, by decide, by decide, by decide⟩
  have hopen : (openRow d.base).dropPrefix? "class ".toList = some (d.base ++ '(' :: "abc.ABC):".toList) := by
    have hrow : openRow d.base = "class ".toList ++ (d.base ++ '(' :: "abc.ABC):".toList) := List.append_assoc _ _ _
    rw [hrow, List.dropPrefix?_append_of_beq _ BEq.rfl]
  have hbody : ∀ r ∈ baseRows d, r.head? = some ' ' := fun _ => head?_baseRows
  have hrest : ∀ r ∈ (d.variants.flatMap (nodeRows d.base)).head?, r.head? ≠ some ' ' := fun _ => head?_nodes
  rw [classes, hlines, classesOf_append habove, classesOf_class hopen hbody hrest, members_baseRows,
    Text.takeWhile_isWord hd.base (by decide), classesOf_nodes hd.variants hd.fields]

end Python

/-! ## Repetitions -/

namespace Descriptor

variable {d : Descriptor} {v : Variant} {base : Text} {lines : List Text}

theorem forall_ne_iff_not_mem {name : Text} :
    name ∉ d.variants.map Variant.name ↔ ∀ v ∈ d.variants, v.name ≠ name := by
  simp only [List.mem_map, not_exists, not_and]

theorem types_java (hd : d.WellFormed) (package : Text) :
    Java.typesBelow package (Target.java.render package d) = d.base :: "Visitor".toList :: d.variants.map Variant.name := by
  have hfile : (Target.java.render package d).drop (Java.packageRow package).length = [] ++ '\n' :: Java.below d := by
    show (Java.file package d).drop _ = _
    rw [Java.file_eq, List.drop_left]
    rfl
  rw [← Java.types_below hd, Java.typesBelow, hfile, Java.types, List.splitOn_append_cons_self, List.splitOn_nil]
  rfl

theorem classes_python (hd : d.WellFormed) (package : Text) : Python.classes (Target.python.render package d) =
    ⟨d.base, ["Visitor".toList, "accept".toList]⟩ :: d.variants.map fun v => ⟨v.name, Python.membersOf v⟩ :=
  Python.classes_file hd.named

theorem nodup_membersOf (hv : v.WellFormed) :
    (Python.membersOf v).Nodup ↔ ∀ f ∈ v.fields, f.name ≠ "accept".toList := by
  rw [Python.membersOf, List.nodup_append]
  constructor
  · rintro ⟨-, -, hne⟩ f hf
    exact hne f.name (List.mem_map_of_mem hf) _ List.mem_cons_self
  · intro h
    refine ⟨hv.distinct, List.nodup_singleton _, fun name hname other hother => ?_⟩
    obtain ⟨f, hf, rfl⟩ := List.mem_map.mp hname
    obtain rfl := List.mem_singleton.mp hother
    exact h f hf

/-- When the names that the files of a descriptor declare are without a repetition: those of the types in the Java
    file, if neither the base nor a variant is named `Visitor`, and no variant as the base is; those of the classes in
    the Python file, if no variant is named as the base is; those of the members of each class, if no field is named
    `accept`. -/
theorem declares_once_iff (h : parse base lines = .ok d) (package : Text) :
    ((Java.typesBelow package (Target.java.render package d)).Nodup ↔
      base ≠ "Visitor".toList ∧ ∀ v ∈ d.variants, v.name ≠ "Visitor".toList ∧ v.name ≠ base) ∧
    (((Python.classes (Target.python.render package d)).map Python.Class.name).Nodup ↔
      ∀ v ∈ d.variants, v.name ≠ base) ∧
    ((∀ c ∈ Python.classes (Target.python.render package d), c.members.Nodup) ↔
      ∀ v ∈ d.variants, ∀ f ∈ v.fields, f.name ≠ "accept".toList) := by
  have hd := parse_wellFormed h
  obtain rfl : d.base = base := (parse_eq_ok_iff.mp h).named
  have hnames : (d.variants.map fun v => (⟨v.name, Python.membersOf v⟩ : Python.Class)).map Python.Class.name =
      d.variants.map Variant.name := List.map_map
  refine ⟨?_, ?_, ?_⟩
  · rw [types_java hd, List.nodup_cons, List.nodup_cons, List.mem_cons, not_or, forall_ne_iff_not_mem,
      forall_ne_iff_not_mem]
    constructor
    · rintro ⟨⟨hbase, hne⟩, hvisitor, -⟩
      exact ⟨hbase, fun v hv => ⟨hvisitor v hv, hne v hv⟩⟩
    · rintro ⟨hbase, hvariants⟩
      exact ⟨⟨hbase, fun v hv => (hvariants v hv).2⟩, fun v hv => (hvariants v hv).1, hd.distinct⟩
  · rw [classes_python hd, List.map_cons, hnames, List.nodup_cons, forall_ne_iff_not_mem]
    exact ⟨fun h => h.1, fun h => ⟨h, hd.distinct⟩⟩
  · have hbase : ["Visitor".toList, "accept".toList].Nodup := by decide
    rw [classes_python hd, List.forall_mem_cons, List.forall_mem_map]
    constructor
    · rintro ⟨-, hnodes⟩ v hv
      exact (nodup_membersOf (hd.variants v hv)).mp (hnodes v hv)
    · intro hfields
      exact ⟨hbase, fun v hv => (nodup_membersOf (hd.variants v hv)).mpr (hfields v hv)⟩

theorem declares_once_iff_leaf :
    parse ['E'] ["V : T x".toList] = .ok (oneField ['T']) ∧
      (Java.typesBelow "lox".toList (Target.java.render "lox".toList (oneField ['T']))).Nodup ∧
      ((Python.classes (Target.python.render "lox".toList (oneField ['T']))).map Python.Class.name).Nodup ∧
      ∀ c ∈ Python.classes (Target.python.render "lox".toList (oneField ['T'])), c.members.Nodup := by
  have h : parse ['E'] ["V : T x".toList] = .ok (oneField ['T']) := by decide
  obtain ⟨htypes, hclasses, hmembers⟩ := declares_once_iff h "lox".toList
  exact ⟨h, htypes.mpr (by decide), hclasses.mpr (by decide), hmembers.mpr (by decide)⟩

/-- A variant with the name of its base, one with that of the visitor, and a field with that of the method. -/
def clashing : Descriptor :=
  ⟨['B'], [⟨['B'], [⟨['T'], "accept".toList⟩]⟩, ⟨"Visitor".toList, []⟩]⟩

/-- All of them are accepted, and each name is declared twice. -/
theorem declaredTwice : parse ['B'] ["B : T accept".toList, "Visitor :".toList] = .ok clashing ∧
    ¬ (Java.typesBelow "lox".toList (Target.java.render "lox".toList clashing)).Nodup ∧
    ¬ ((Python.classes (Target.python.render "lox".toList clashing)).map Python.Class.name).Nodup ∧
    ∃ c ∈ Python.classes (Target.python.render "lox".toList clashing), ¬ c.members.Nodup := by
  have h : parse ['B'] ["B : T accept".toList, "Visitor :".toList] = .ok clashing := by decide
  have hd := parse_wellFormed h
  rw [types_java hd, classes_python hd]
  refine ⟨h, by decide, by decide, ⟨['B'], ["accept".toList, "accept".toList]⟩, ?_, by decide⟩
  exact List.mem_cons_of_mem _ List.mem_cons_self

end Descriptor

end NodeGen
