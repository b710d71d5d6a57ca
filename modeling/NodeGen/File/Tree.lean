/-
  NodeGen.File.Tree — a file tree as a finite map from locations to nodes.

  The view is `get?`. `insert` changes it at one location (`get?_insert`) and `erase` empties one
  location (`get?_erase`); erasing what was newly inserted gives back the very same tree
  (`erase_insert`).
-/

import NodeGen.Text.Utf8

namespace NodeGen

open Text (Bytes)

/-- The names that lead from the root to a node, the root itself being `[]`. -/
abbrev Location := List Text

inductive Node where
  | file (mode : Nat) (content : Bytes)
  | directory (mode : Nat)
  | link (target : Text)
  deriving DecidableEq, Repr

namespace Node

def isDirectory : Node → Bool
  | .directory _ => true
  | _ => false

/-- The permission bits; those of a link are never asked for. -/
def mode : Node → Nat
  | .file m _ => m
  | .directory m => m
  | .link _ => 0o777

def withMode (m : Nat) : Node → Node
  | .file _ content => .file m content
  | .directory _ => .directory m
  | .link target => .link target

end Node

structure Tree where
  nodes : List (Location × Node)
  deriving DecidableEq, Repr

namespace Tree

def find (l : Location) : List (Location × Node) → Option Node
  | [] => none
  | e :: rest => if e.1 = l then some e.2 else find l rest

def put (l : Location) (n : Node) : List (Location × Node) → List (Location × Node)
  | [] => [(l, n)]
  | e :: rest => if e.1 = l then (l, n) :: rest else e :: put l n rest

def get? (t : Tree) (l : Location) : Option Node := find l t.nodes

/-- The node at a location set; a new location goes to the end. -/
def insert (t : Tree) (l : Location) (n : Node) : Tree := ⟨put l n t.nodes⟩

def erase (t : Tree) (l : Location) : Tree := ⟨t.nodes.filter fun e => e.1 ≠ l⟩

/-- Without what lies below a node, the node itself kept. -/
def eraseBelow (t : Tree) (l : Location) : Tree :=
  ⟨t.nodes.filter fun e => e.1 = l ∨ ¬ l.isPrefixOf e.1⟩

def below (t : Tree) (l : Location) : List (Location × Node) :=
  t.nodes.filterMap fun e =>
    if e.1 ≠ l ∧ l.isPrefixOf e.1 then some (e.1.drop l.length, e.2) else none

theorem get?_insert (t : Tree) (l k : Location) (n : Node) :
    (t.insert l n).get? k = if k = l then some n else t.get? k := by
  obtain ⟨nodes⟩ := t
  simp only [insert, get?]
  induction nodes with
  | nil => by_cases h : k = l <;> simp [put, find, h, Ne.symm]
  | cons e rest ih =>
    by_cases he : e.1 = l
    · by_cases h : k = l
      · simp [put, find, he, h]
      · simp [put, find, he, h, Ne.symm h]
    · simp only [put, he, if_false, find, ih]
      by_cases h : k = l
      · simp [h, he]
      · simp [h]

@[simp] theorem get?_insert_self (t : Tree) (l : Location) (n : Node) :
    (t.insert l n).get? l = some n := by simp [get?_insert]

theorem get?_erase (t : Tree) (l k : Location) :
    (t.erase l).get? k = if k = l then none else t.get? k := by
  obtain ⟨nodes⟩ := t
  simp only [erase, get?]
  induction nodes with
  | nil => simp [find]
  | cons e rest ih =>
    by_cases he : e.1 = l
    · by_cases h : k = l
      · simpa [List.filter_cons, he, h] using ih
      · simpa [List.filter_cons, find, he, h, Ne.symm h] using ih
    · by_cases h : e.1 = k
      · simp [find, h, h ▸ he]
      · simpa [List.filter_cons, he, find, h] using ih

@[simp] theorem get?_erase_self (t : Tree) (l : Location) : (t.erase l).get? l = none := by
  simp [get?_erase]

/-- What was newly inserted leaves no trace when it is erased. -/
theorem erase_insert {t : Tree} {l : Location} (h : t.get? l = none) (n : Node) :
    (t.insert l n).erase l = t := by
  obtain ⟨nodes⟩ := t
  simp only [insert, erase, get?, Tree.mk.injEq] at h ⊢
  induction nodes with
  | nil => simp [put]
  | cons e rest ih =>
    by_cases he : e.1 = l
    · simp [find, he] at h
    · simp only [find, he, if_false] at h
      simpa [put, he] using ih h

end Tree

end NodeGen
