/-
  NodeGen.Proofs.Outline — what the lines of a source file say about a visitor and the nodes it visits.

  A line is read by itself, whatever stands around it: how far it is set in, and all that the rest of it can
  be read as (`Line.read`). A block is a line with the lines below it that are set in deeper (`blocks`).
  Braces are not counted, for a tag may hold any of them.

  `Agrees` says that a file's visitor and nodes belong together, in terms of its lines alone. Both targets
  lay a file out in the same way around different words. That layout is `Shape`, and each file that has it
  agrees (`Shape.agrees`); what is left for a target is to find its shape in the text.
-/

import Mathlib.Data.List.Nodup
import NodeGen.Proofs.Layout
import NodeGen.Proofs.Lines

namespace NodeGen

/-! ## Words in a line -/

namespace Text

/-- Cuts a text behind all its first characters that have `p`, if `stop` stands there: what is before `stop`
    and what is behind it. -/
def cut? (p : Char → Bool) (stop t : Text) : Option (Text × Text) :=
  ((t.dropWhile p).dropPrefix? stop).map fun rest => (t.takeWhile p, rest)

def word? (stop t : Text) : Option (Text × Text) := (cut? isWord stop t).filter fun cut => isIdentifier cut.1

/-- The first part of a list, up to an element without `p`. -/
theorem takeWhile_append {α : Type} {p : α → Bool} {part rest : List α} (hpart : ∀ a ∈ part, p a = true)
    (hrest : ∀ a ∈ rest.head?, p a = false) : (part ++ rest).takeWhile p = part := by
  rw [List.takeWhile_append_of_pos hpart]
  cases rest with
  | nil => simp
  | cons a rest => rw [List.takeWhile_cons_of_neg (by simp [hrest a rfl]), List.append_nil]

variable {p : Char → Bool} {a : Char} {name part stop rest : Text}

theorem cut?_append (hpart : ∀ c ∈ part, p c = true) (ha : p a = false) :
    cut? p (a :: stop) (part ++ (a :: stop ++ rest)) = some (part, rest) := by
  have hdrop : (part ++ (a :: stop ++ rest)).dropWhile p = a :: stop ++ rest := by
    rw [List.dropWhile_append_of_pos hpart]
    exact List.dropWhile_cons_of_neg (by simp [ha])
  have htake : (part ++ (a :: stop ++ rest)).takeWhile p = part := takeWhile_append hpart (by simpa using ha)
  rw [cut?, hdrop, htake, List.dropPrefix?_append_of_beq rest BEq.rfl]
  rfl

theorem word?_append (hname : isIdentifier name = true) (ha : isWord a = false) :
    word? (a :: stop) (name ++ (a :: stop ++ rest)) = some (name, rest) := by
  rw [word?, cut?_append (fun c hc => isWord_of_mem hname hc) ha]
  simp [hname]

theorem word?_eq_none {b : Char} (hname : isIdentifier name = true) (hb : isWord b = false) (hne : b ≠ a) :
    word? (a :: stop) (name ++ b :: rest) = none := by
  have hdrop : (name ++ b :: rest).dropWhile isWord = b :: rest := by
    rw [List.dropWhile_append_of_pos fun c hc => isWord_of_mem hname hc]
    exact List.dropWhile_cons_of_neg (by simp [hb])
  rw [word?, cut?, hdrop, List.dropPrefix?, if_neg (by simpa using hne)]
  rfl

/-- What stands behind a word shows that a text does not start with another one. -/
theorem dropPrefix?_eq_none {lead : Text} (hname : isIdentifier name = true) (ha : isWord a = false)
    (hlead : (lead.dropWhile isWord).head?.any (· ≠ a) = true) : (name ++ a :: rest).dropPrefix? lead = none := by
  obtain ⟨hsome, hne⟩ := (Option.any_eq_true_iff_get _ _).mp hlead
  obtain ⟨b, hb⟩ := Option.isSome_iff_exists.mp hsome
  have hne : b ≠ a := by simpa [hb] using hne
  obtain ⟨more, hmore⟩ := List.head?_eq_some_iff.mp hb
  have hword : isWord b = false := head?_dropWhile hb
  have hcut : lead = lead.takeWhile isWord ++ b :: more := by
    rw [← hmore, List.takeWhile_append_dropWhile]
  rw [Option.eq_none_iff_forall_ne_some]
  intro t ht
  obtain ⟨front, he, hfront⟩ := List.dropPrefix?_eq_some_iff.mp ht
  rw [eq_of_beq hfront, hcut, List.append_assoc, List.cons_append] at he
  have hstart : ∀ c ∈ lead.takeWhile isWord, isWord c = true := List.all_eq_true.mp List.all_takeWhile
  obtain ⟨-, hab, -⟩ :=
    append_cons_inj (fun c hc => isWord_of_mem hname hc) hstart (by simp [ha]) (by simp [hword]) he
  exact hne hab.symm

end Text

/-! ## Lines -/

structure Declaration where
  method : Text
  parameterType : Text
  parameter : Text
  deriving DecidableEq

inductive Mark where
  /-- The head of a visitor. -/
  | visitor
  | declaration (m : Declaration)
  /-- The head of a node's class. -/
  | node (name base : Text)
  /-- The head of the method by which a node is visited. -/
  | accept
  /-- The line that calls a visitor. -/
  | dispatch (method : Text)
  deriving DecidableEq

namespace Mark

def visitor? : Mark → Option Unit
  | visitor => some ()
  | _ => none

def declaration? : Mark → Option Declaration
  | declaration m => some m
  | _ => none

def node? : Mark → Option (Text × Text)
  | node name base => some (name, base)
  | _ => none

def accept? : Mark → Option Unit
  | accept => some ()
  | _ => none

def dispatch? : Mark → Option Text
  | dispatch method => some method
  | _ => none

def atEnd (mark : Mark) (t : Text) : Option Mark := if t = [] then some mark else none

end Mark

structure Reader where
  lead : Text
  behind : Text → Option Mark

def Reader.read (r : Reader) (t : Text) : Option Mark := (t.dropPrefix? r.lead).bind r.behind

theorem Reader.read_append (r : Reader) (t : Text) : r.read (r.lead ++ t) = r.behind t := by
  rw [Reader.read, List.dropPrefix?_append_of_beq t BEq.rfl]
  rfl

structure Line where
  depth : Nat
  marks : List Mark

def Line.read (readers : List Reader) (line : Text) : Line :=
  ⟨(line.takeWhile Text.isBlank).length, readers.filterMap (·.read (Text.trimLeft line))⟩

def outline (readers : List Reader) (lines : List Text) : List Line :=
  (lines.filter (!·.isEmpty)).map (Line.read readers)

section Reading

variable {readers : List Reader}

theorem Line.read_append {front t : Text} (hfront : Text.AllBlank front)
    (hfirst : ∀ c ∈ t.head?, Text.isBlank c = false) :
    Line.read readers (front ++ t) = ⟨front.length, readers.filterMap (·.read t)⟩ := by
  rw [Line.read, Text.takeWhile_append hfront hfirst, Text.trimLeft_append hfront hfirst]

/-- A line is what its first words say, if they lead no other reader on. -/
theorem Line.read_lead (before : List Reader) (r : Reader) (after : List Reader) {front t : Text} {mark : Mark}
    (hfront : Text.AllBlank front) (hlead : r.lead.head?.map Text.isBlank = some false)
    (hmark : r.behind t = some mark) (hbefore : before.filterMap (·.read (r.lead ++ t)) = [])
    (hafter : after.filterMap (·.read (r.lead ++ t)) = []) :
    Line.read (before ++ r :: after) (front ++ (r.lead ++ t)) = ⟨front.length, [mark]⟩ := by
  obtain ⟨c, hc, hblank⟩ := Option.map_eq_some_iff.mp hlead
  have hfirst : ∀ b ∈ (r.lead ++ t).head?, Text.isBlank b = false := by
    intro b hb
    rw [List.head?_append, hc] at hb
    obtain rfl : c = b := Option.some.inj hb
    exact hblank
  rw [Line.read_append hfront hfirst, List.filterMap_append, hbefore, List.filterMap_cons, r.read_append, hmark,
    hafter]
  rfl

theorem Line.read_plain {front t : Text} (hfront : Text.AllBlank front)
    (hfirst : ∀ c ∈ t.head?, Text.isBlank c = false) (hreaders : ∀ r ∈ readers, r.read t = none) :
    Line.read readers (front ++ t) = ⟨front.length, []⟩ := by
  rw [Line.read_append hfront hfirst, List.filterMap_eq_nil_iff.mpr hreaders]

/-- A line is nothing to readers that look for other words in its place. -/
theorem Line.read_word {front name rest : Text} {a : Char} (hfront : Text.AllBlank front)
    (hname : Text.isIdentifier name = true) (ha : Text.isWord a = false)
    (hreaders : readers.all (fun r => (r.lead.dropWhile Text.isWord).head?.any (· ≠ a)) = true) :
    Line.read readers (front ++ (name ++ a :: rest)) = ⟨front.length, []⟩ := by
  refine Line.read_plain hfront (fun c hc => ?_) fun r hr => ?_
  · obtain ⟨b, more, rfl⟩ := List.exists_cons_of_ne_nil (Text.identifier_ne_nil hname)
    obtain rfl : b = c := Option.some.inj hc
    exact Text.noBlank_identifier hname b List.mem_cons_self
  · rw [Reader.read, Text.dropPrefix?_eq_none hname ha (List.all_eq_true.mp hreaders r hr)]
    rfl

theorem outline_append (ls ls' : List Text) :
    outline readers (ls ++ ls') = outline readers ls ++ outline readers ls' := by
  simp [outline]

theorem outline_intercalate (blocks : List (List Text)) :
    outline readers ([[]].intercalate blocks) = blocks.flatMap (outline readers) := by
  induction blocks with
  | nil => rfl
  | cons block blocks ih =>
    cases blocks with
    | nil => simp
    | cons next blocks =>
      rw [List.intercalate_cons_cons, outline_append, outline_append, ih, List.append_assoc]
      rfl

theorem outline_map {α : Type} {as : List α} {row : α → Text} {line : α → Line}
    (hrow : ∀ a ∈ as, row a ≠ [] ∧ Line.read readers (row a) = line a) :
    outline readers (as.map row) = as.map line := by
  have hfull : (as.map row).filter (!·.isEmpty) = as.map row := by
    rw [List.filter_eq_self]
    intro r hr
    obtain ⟨a, ha, rfl⟩ := List.mem_map.mp hr
    simpa using (hrow a ha).1
  rw [outline, hfull, List.map_map]
  exact List.map_congr_left fun a ha => (hrow a ha).2

theorem outline_flatMap {α : Type} {as : List α} {rows : α → List Text} {lines : α → List Line}
    (hrows : ∀ a ∈ as, outline readers (rows a) = lines a) :
    outline readers (as.flatMap rows) = as.flatMap lines := by
  rw [outline, List.filter_flatMap, List.map_flatMap]
  exact List.flatMap_congr hrows

end Reading

/-! ## Blocks -/

def marks (lines : List Line) : List Mark := lines.flatMap Line.marks

@[simp] theorem marks_nil : marks [] = [] := rfl

@[simp] theorem marks_cons (line : Line) (lines : List Line) : marks (line :: lines) = line.marks ++ marks lines := rfl

@[simp] theorem marks_append (lines lines' : List Line) : marks (lines ++ lines') = marks lines ++ marks lines' :=
  List.flatMap_append

@[simp] theorem marks_flatMap {α : Type} (as : List α) (lines : α → List Line) :
    marks (as.flatMap lines) = as.flatMap fun a => marks (lines a) := List.flatMap_assoc

/-- The lines that open a block, by what each is, with the block: the lines below that are set in deeper. -/
def blocks {α : Type} (opens : Mark → Option α) : List Line → List (α × List Line)
  | [] => []
  | line :: rest =>
    (line.marks.filterMap opens).map (fun a => (a, rest.takeWhile (line.depth < ·.depth))) ++ blocks opens rest

section Blocks

variable {α : Type} {opens : Mark → Option α} {lines rest body : List Line} {line : Line} {a : α}

theorem blocks_append (h : (marks lines).filterMap opens = []) : blocks opens (lines ++ rest) = blocks opens rest := by
  induction lines with
  | nil => rfl
  | cons line lines ih =>
    rw [marks_cons, List.filterMap_append, List.append_eq_nil_iff] at h
    rw [List.cons_append, blocks, h.1, ih h.2]
    rfl

theorem blocks_eq_nil (h : (marks lines).filterMap opens = []) : blocks opens lines = [] := by
  rw [← List.append_nil lines]
  exact blocks_append h

/-- A block ends above the first line that is not set in deeper. -/
theorem blocks_open (hopen : line.marks.filterMap opens = [a]) (hbody : ∀ l ∈ body, line.depth < l.depth)
    (hrest : ∀ l ∈ rest.head?, l.depth ≤ line.depth) :
    blocks opens (line :: (body ++ rest)) = (a, body) :: blocks opens (body ++ rest) := by
  have hblock : (body ++ rest).takeWhile (fun l => line.depth < l.depth) = body :=
    Text.takeWhile_append (by simpa using hbody) (by simpa using hrest)
  rw [blocks, hopen, hblock]
  rfl

end Blocks

/-! ## Visitor and nodes -/

def Variant.declaration (base : Text) (v : Variant) : Declaration := ⟨v.visitMethod base, v.name, Text.lower base⟩

def Descriptor.declarations (d : Descriptor) : List Declaration := d.variants.map (Variant.declaration d.base)

theorem Variant.visitMethod_inj {base : Text} {v v' : Variant} (h : v.visitMethod base = v'.visitMethod base) :
    v.name = v'.name := List.append_cancel_left (List.append_cancel_right h)

namespace Descriptor

variable {d : Descriptor}

theorem nodup_methods (hd : (d.variants.map Variant.name).Nodup) : (d.declarations.map Declaration.method).Nodup := by
  rw [declarations, List.map_map]
  exact List.pairwise_map.mpr ((List.pairwise_map.mp hd).imp fun hne h => hne (Variant.visitMethod_inj h))

theorem filter_declarations (hd : (d.variants.map Variant.name).Nodup) {v : Variant} (hv : v ∈ d.variants) :
    d.declarations.filter (·.parameterType = v.name) = [v.declaration d.base] := by
  have hsame : ∀ w ∈ d.variants, decide (w.name = v.name) = (w == v) := by
    intro w hw
    rw [Bool.eq_iff_iff, decide_eq_true_iff, beq_iff_eq]
    exact ⟨List.inj_on_of_nodup_map hd hw hv, congrArg Variant.name⟩
  have honly : d.variants.filter (fun w => w.name = v.name) = [v] := by
    rw [List.filter_congr hsame, List.filter_beq, List.count_eq_one_of_mem hd.of_map hv]
    rfl
  rw [declarations, List.filter_map]
  exact congrArg (List.map _) honly

end Descriptor

structure Agrees (lines : List Line) (d : Descriptor) : Prop where
  /-- There is one visitor, and it declares a method for each variant, in order. -/
  visitor : (blocks Mark.visitor? lines).map (fun b => (marks b.2).filterMap Mark.declaration?) = [d.declarations]
  /-- No other line of the file can be read as such a declaration. -/
  declarations : (marks lines).filterMap Mark.declaration? = d.declarations
  distinct : (((marks lines).filterMap Mark.declaration?).map Declaration.method).Nodup
  /-- There is one node class for each variant, in order. It is visited by one method, whose body is one line:
      the call of the variant's method. -/
  nodes : (blocks Mark.node? lines).map (fun b => (b.1, (blocks Mark.accept? b.2).map fun b => b.2.map Line.marks)) =
    d.variants.map fun v => ((v.name, d.base), [[[Mark.dispatch (v.visitMethod d.base)]]])
  /-- No other line of the file can be read as such a call. -/
  dispatches : (marks lines).filterMap Mark.dispatch? = d.variants.map (Variant.visitMethod d.base)
  /-- The called method is the one that is declared for the variant. -/
  called : ∀ v ∈ d.variants, ((marks lines).filterMap Mark.declaration?).filter (·.parameterType = v.name) =
    [v.declaration d.base]

def plain (depths : List Nat) : List Line := depths.map fun depth => ⟨depth, []⟩

@[simp] theorem marks_plain (depths : List Nat) : marks (plain depths) = [] := by
  simp [marks, plain, List.flatMap_map]

theorem mem_plain {depths : List Nat} {line : Line} (h : line ∈ plain depths) : line.depth ∈ depths := by
  obtain ⟨depth, hdepth, rfl⟩ := List.mem_map.mp h
  exact hdepth

/-- A first line is no deeper than `n` if neither the first of these nor, without one, that of the rest is. -/
theorem depth_head_plain {depths : List Nat} {rest : List Line} {n : Nat} (hdepths : ∀ depth ∈ depths.head?, depth ≤ n)
    (hrest : ∀ l ∈ rest.head?, l.depth ≤ n) : ∀ l ∈ (plain depths ++ rest).head?, l.depth ≤ n := by
  cases depths with
  | nil => exact hrest
  | cons depth depths =>
    intro l hl
    obtain rfl : ⟨depth, []⟩ = l := Option.some.inj hl
    exact hdepths depth rfl

structure Shape where
  /-- The lines above the visitor, -/
  front : List Nat
  /-- its head, -/
  visitor : Nat
  /-- and in it each method's declaration, between the lines around that. -/
  before : List Nat
  method : Nat
  after : List Nat
  /-- The line that ends the visitor, and those from there to the first node. -/
  close : Nat
  middle : List Line
  /-- The lines above each node's class, -/
  lead : List Nat
  /-- its head, -/
  node : Nat
  /-- and in it the method by which the node is visited, between the lines around that. -/
  above : Variant → List Nat
  accept : Nat
  dispatch : Nat
  below : Variant → List Nat
  /-- The lines below each node's class, and those below all. -/
  trail : List Nat
  back : List Nat
  inVisitor : ∀ depth ∈ method :: (before ++ after), visitor < depth
  closes : close ≤ visitor
  /-- The base class may be visited by a method of its own. -/
  own : ∀ line ∈ middle, ∀ mark ∈ line.marks, mark = .accept
  outside : ∀ depth ∈ lead ++ trail ++ back, depth ≤ node
  inNode : ∀ v, ∀ depth ∈ accept :: (above v ++ below v), node < depth
  inAccept : accept < dispatch
  leaves : ∀ v, ∀ depth ∈ (below v).head?, depth ≤ accept

namespace Shape

variable (s : Shape) {d : Descriptor} {base : Text} {vs : List Variant} {v : Variant}

def methodLines (m : Declaration) : List Line := plain s.before ++ ⟨s.method, [.declaration m]⟩ :: plain s.after

def body (base : Text) (v : Variant) : List Line :=
  plain (s.above v) ++ ⟨s.accept, [.accept]⟩ ::
    ([⟨s.dispatch, [.dispatch (v.visitMethod base)]⟩] ++ plain (s.below v))

def nodeLines (base : Text) (v : Variant) : List Line :=
  plain s.lead ++ ⟨s.node, [.node v.name base]⟩ :: (s.body base v ++ plain s.trail)

def nodesLines (base : Text) (vs : List Variant) : List Line := vs.flatMap (s.nodeLines base) ++ plain s.back

def lines (d : Descriptor) : List Line :=
  plain s.front ++ ⟨s.visitor, [.visitor]⟩ ::
    (d.declarations.flatMap s.methodLines ++ ⟨s.close, []⟩ :: (s.middle ++ s.nodesLines d.base d.variants))

theorem filterMap_middle {α : Type} {opens : Mark → Option α} (h : opens .accept = none) :
    (marks s.middle).filterMap opens = [] := by
  rw [List.filterMap_eq_nil_iff]
  intro mark hmark
  obtain ⟨line, hline, hmark⟩ := List.mem_flatMap.mp hmark
  rw [s.own line hline mark hmark, h]

@[simp] theorem marks_methodLines (m : Declaration) : marks (s.methodLines m) = [.declaration m] := by
  simp [methodLines]

@[simp] theorem marks_nodesLines (base : Text) (vs : List Variant) : marks (s.nodesLines base vs) =
    vs.flatMap fun v => [.node v.name base, .accept, .dispatch (v.visitMethod base)] := by
  simp [nodesLines, nodeLines, body]

/-- All that the lines say, in order, as far as it is asked for. Only the heads of visits have to be left out. -/
theorem filterMap_lines {α : Type} {opens : Mark → Option α} (haccept : opens .accept = none) (d : Descriptor) :
    (marks (s.lines d)).filterMap opens = (opens .visitor).toList ++
      (d.declarations.filterMap (fun m => opens (.declaration m)) ++ d.variants.flatMap fun v =>
        (opens (.node v.name d.base)).toList ++ (opens (.dispatch (v.visitMethod d.base))).toList) := by
  have hmiddle := s.filterMap_middle haccept
  rw [List.filterMap_eq_flatMap_toList] at hmiddle ⊢
  rw [List.filterMap_eq_flatMap_toList]
  simp [lines, hmiddle, haccept, List.flatMap_assoc]

/-! ### Blocks -/

theorem depth_methodLines {m : Declaration} {line : Line} (h : line ∈ s.methodLines m) : s.visitor < line.depth := by
  have hall := s.inVisitor
  rw [List.forall_mem_cons, List.forall_mem_append] at hall
  obtain ⟨hmethod, hbefore, hafter⟩ := hall
  rcases List.mem_append.mp h with h | h
  · exact hbefore _ (mem_plain h)
  · rcases List.mem_cons.mp h with rfl | h
    · exact hmethod
    · exact hafter _ (mem_plain h)

theorem blocks_visitor (d : Descriptor) :
    blocks Mark.visitor? (s.lines d) = [((), d.declarations.flatMap s.methodLines)] := by
  have hall : (marks (s.lines d)).filterMap Mark.visitor? = [()] := by
    rw [s.filterMap_lines rfl]
    simp [Mark.visitor?]
  rw [lines, marks_append, marks_plain] at hall
  rw [lines, blocks_append (by simp), blocks_open rfl, blocks_eq_nil (List.cons.inj hall).2]
  · intro line hline
    obtain ⟨m, -, hline⟩ := List.mem_flatMap.mp hline
    exact s.depth_methodLines hline
  · rintro line ⟨⟩
    exact s.closes

/-- In the class of a node there is one method by which it is visited, and one line in that. -/
theorem blocks_accept (base : Text) (v : Variant) :
    blocks Mark.accept? (s.body base v) = [((), [⟨s.dispatch, [.dispatch (v.visitMethod base)]⟩])] := by
  rw [body, blocks_append (by simp), blocks_open rfl, blocks_eq_nil (by simp [Mark.accept?])]
  · intro line hline
    obtain rfl := List.mem_singleton.mp hline
    exact s.inAccept
  · rw [← List.append_nil (plain (s.below v))]
    exact depth_head_plain (s.leaves v) (by simp)

theorem depth_body {line : Line} (h : line ∈ s.body base v) : s.node < line.depth := by
  have hall := s.inNode v
  rw [List.forall_mem_cons, List.forall_mem_append] at hall
  obtain ⟨haccept, habove, hbelow⟩ := hall
  rcases List.mem_append.mp h with h | h
  · exact habove _ (mem_plain h)
  · rcases List.mem_cons.mp h with rfl | h
    · exact haccept
    · rcases List.mem_cons.mp h with rfl | h
      · exact haccept.trans s.inAccept
      · exact hbelow _ (mem_plain h)

theorem nodesLines_cons (base : Text) (v : Variant) (vs : List Variant) :
    s.nodesLines base (v :: vs) = plain s.lead ++ ⟨s.node, [.node v.name base]⟩ ::
      (s.body base v ++ (plain s.trail ++ s.nodesLines base vs)) := by
  simp [nodesLines, nodeLines]

/-- Whether another node follows or not, a node's class ends above the next line. -/
theorem depth_head {line : Line} (h : line ∈ (plain s.trail ++ s.nodesLines base vs).head?) :
    line.depth ≤ s.node := by
  have hall := s.outside
  rw [List.forall_mem_append, List.forall_mem_append] at hall
  obtain ⟨⟨hlead, htrail⟩, hback⟩ := hall
  refine depth_head_plain (fun depth hd => htrail depth (List.mem_of_mem_head? hd)) ?_ line h
  cases vs with
  | nil =>
    rw [nodesLines, List.flatMap_nil, List.nil_append, ← List.append_nil (plain s.back)]
    exact depth_head_plain (fun depth hd => hback depth (List.mem_of_mem_head? hd)) (by simp)
  | cons v vs =>
    rw [nodesLines_cons]
    refine depth_head_plain (fun depth hd => hlead depth (List.mem_of_mem_head? hd)) fun l hl => ?_
    obtain rfl : ⟨s.node, [.node v.name base]⟩ = l := Option.some.inj hl
    exact le_rfl

theorem blocks_nodes (base : Text) (vs : List Variant) :
    blocks Mark.node? (s.nodesLines base vs) = vs.map fun v => ((v.name, base), s.body base v) := by
  induction vs with
  | nil => exact blocks_eq_nil (by simp)
  | cons v vs ih =>
    have hbody : (marks (s.body base v)).filterMap Mark.node? = [] := by
      simp [body, Mark.node?]
    rw [nodesLines_cons, blocks_append (by simp), blocks_open rfl (fun _ => s.depth_body) (fun _ => s.depth_head),
      blocks_append hbody, blocks_append (by simp), ih]
    rfl

theorem blocks_lines (d : Descriptor) :
    blocks Mark.node? (s.lines d) = d.variants.map fun v => ((v.name, d.base), s.body d.base v) := by
  have habove : s.lines d = (plain s.front ++ ⟨s.visitor, [.visitor]⟩ :: (d.declarations.flatMap s.methodLines ++
      ⟨s.close, []⟩ :: s.middle)) ++ s.nodesLines d.base d.variants := by
    simp [lines]
  rw [habove, blocks_append, s.blocks_nodes]
  have hmethods : (marks (d.declarations.flatMap s.methodLines)).filterMap Mark.node? = [] := by
    simp [← List.map_eq_flatMap, Mark.node?]
  have hmiddle := s.filterMap_middle (show Mark.accept.node? = none from rfl)
  simp only [marks_append, marks_cons, marks_plain, List.filterMap_append, hmethods, hmiddle]
  rfl

/-! ### Agreement -/

theorem declarations_lines (d : Descriptor) : (marks (s.lines d)).filterMap Mark.declaration? = d.declarations := by
  rw [s.filterMap_lines rfl]
  simp [Mark.declaration?]

theorem declarations_methods (ms : List Declaration) :
    (marks (ms.flatMap s.methodLines)).filterMap Mark.declaration? = ms := by
  rw [List.filterMap_eq_flatMap_toList]
  simp [List.flatMap_assoc, Mark.declaration?]

theorem dispatches_lines (d : Descriptor) :
    (marks (s.lines d)).filterMap Mark.dispatch? = d.variants.map (Variant.visitMethod d.base) := by
  rw [s.filterMap_lines rfl]
  simp [Mark.dispatch?, ← List.map_eq_flatMap]

/-- A file of this layout agrees with its descriptor, whose variants have names of their own. -/
theorem agrees (hd : (d.variants.map Variant.name).Nodup) : Agrees (s.lines d) d where
  visitor := by
    rw [s.blocks_visitor, List.map_singleton, s.declarations_methods]
  declarations := s.declarations_lines d
  distinct := by
    rw [s.declarations_lines]
    exact Descriptor.nodup_methods hd
  nodes := by
    rw [s.blocks_lines, List.map_map]
    exact List.map_congr_left fun v _ => by simp [s.blocks_accept]
  dispatches := s.dispatches_lines d
  called := fun v hv => by
    rw [s.declarations_lines]
    exact Descriptor.filter_declarations hd hv

end Shape

end NodeGen
