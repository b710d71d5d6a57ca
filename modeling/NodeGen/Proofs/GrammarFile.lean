/-
  NodeGen.Proofs.GrammarFile — which files are grammar files.

  The bytes of a file are a grammar exactly if they are the UTF-8 form of a JSON text that denotes
  an object of arrays of strings, with at least one member and no key twice (`load_iff_document`).
  Keys are compared as the texts they denote, whatever the escapes they are written with.
-/

import NodeGen.Command.Run
import NodeGen.Proofs.Encoding
import NodeGen.Proofs.JsonReading
import NodeGen.Proofs.Tables

namespace NodeGen

namespace Json

theorem string?_eq_some_iff (v : Json) (s : Letters) : v.string? = some s ↔ v = .string s := by
  cases v <;> simp [string?]

/-- The arrays of strings are the values that give strings. -/
theorem strings?_eq_some_iff {v : Json} {lines : List Letters} :
    v.strings? = some lines ↔ v = .array (lines.map .string) := by
  cases v with
  | array items => simp [strings?, mapM_eq_some_iff string?_eq_some_iff]
  | _ => simp [strings?]

end Json

namespace Grammar

variable {g : Grammar} {t : Text} {bytes : Text.Bytes}

/-- The members of the object that tables are written as. -/
def entries (ts : List (Json.Letters × List Json.Letters)) : List (Json.Letters × Json) :=
  ts.map fun (base, lines) => (base, .array (lines.map .string))

/-- The members of the object that a grammar is written as. -/
def members (g : Grammar) : List (Json.Letters × Json) := entries g.letters

theorem members_bases (g : Grammar) : g.members.map Prod.fst = (g.map Prod.fst).map Json.Letters.ofText := by
  rw [members, entries, List.map_map, ← letters_bases]
  rfl

theorem tables_eq_ok_iff {ms : List (Json.Letters × Json)} {ts : List (Json.Letters × List Json.Letters)} :
    tables ms = .ok ts ↔ ms = entries ts := by
  induction ms generalizing ts with
  | nil =>
    cases ts with
    | nil => exact ⟨fun _ => rfl, fun _ => rfl⟩
    | cons table rest => exact ⟨fun h => (by cases h), fun h => (by cases h)⟩
  | cons m ms ih =>
    obtain ⟨base, value⟩ := m
    constructor
    · intro h
      unfold tables at h
      split at h
      · cases h
      · rename_i lines hlines
        cases hrest : tables ms with
        | error flaw => rw [hrest] at h; cases h
        | ok rest =>
          rw [hrest] at h
          cases h
          rw [Json.strings?_eq_some_iff.mp hlines, ih.mp hrest]
          rfl
    · intro h
      cases ts with
      | nil => cases h
      | cons table rest =>
        obtain ⟨base', lines⟩ := table
        obtain ⟨hm, hms⟩ := List.cons.inj h
        obtain ⟨rfl, rfl⟩ := Prod.mk.inj hm
        simp only [tables, Json.strings?_eq_some_iff.mpr rfl, ih.mpr hms]
        rfl

/-- A value denotes a grammar if it is an object of the grammar's members, and there are some. -/
theorem ofJson_eq_ok_iff {v : Json} : ofJson v = .ok g ↔ v = .object g.members ∧ g ≠ [] := by
  rw [ofJson_eq_ok_iff_tables]
  constructor
  · rintro ⟨m, ms, rfl, hm⟩
    have hms := tables_eq_ok_iff.mp hm
    refine ⟨congrArg Json.object hms, ?_⟩
    rintro rfl
    cases hms
  · rintro ⟨rfl, hg⟩
    cases g with
    | nil => exact absurd rfl hg
    | cons table rest => exact ⟨_, _, rfl, tables_eq_ok_iff.mpr rfl⟩

/-- No fault is found in an array of strings. -/
theorem fault?_lines (rules : Json.Rules) (lines : List Json.Letters) :
    (Json.array (lines.map .string)).fault? rules = none := by
  rw [Json.fault?_array, List.findSome?_map]
  exact List.findSome?_eq_none_iff.mpr fun _ _ => rfl

theorem fault?_members (hnodup : (g.map Prod.fst).Nodup) : (Json.object g.members).fault? rules = none := by
  have hkeys : Json.repeatedKey [] g.members = none :=
    Json.repeatedKey_of_fresh (by rw [members_bases]; exact ⟨Json.Letters.nodup_ofText_iff.mpr hnodup, by simp⟩)
  have hvalues : g.members.findSome? (fun m => m.2.fault? rules) = none := by
    refine List.findSome?_eq_none_iff.mpr fun m hm => ?_
    obtain ⟨table, -, rfl⟩ := List.mem_map.mp hm
    exact fault?_lines rules table.2
  rw [Json.fault?_object, hvalues, Json.Rules.fault, hkeys]
  rfl

theorem ofText_eq_ok_iff :
    ofText t = .ok g ↔ Json.Document t (.object g.members) ∧ g ≠ [] ∧ (g.map Prod.fst).Nodup := by
  constructor
  · intro h
    unfold ofText at h
    split at h
    · rename_i v hread
      cases hv : ofJson v with
      | error flaw => rw [hv] at h; cases h
      | ok g' =>
        rw [hv] at h
        cases h
        obtain ⟨rfl, hg⟩ := ofJson_eq_ok_iff.mp hv
        refine ⟨Json.read_sound hread, hg, ?_⟩
        have hdistinct := Json.read_object rfl hread
        rw [members_bases] at hdistinct
        exact Json.Letters.nodup_ofText_iff.mp hdistinct
    all_goals cases h
  · rintro ⟨hdocument, hg, hnodup⟩
    have hread : Json.read rules t = .ok (.object g.members) := by
      rw [Json.read_of_document rules hdocument, fault?_members hnodup]
      rfl
    simp only [ofText, hread, ofJson_eq_ok_iff.mpr ⟨rfl, hg⟩]
    rfl

theorem ofBytes_eq_ok_iff :
    ofBytes bytes = .ok g ↔ ∃ t, bytes = Text.Utf8.encode t ∧ Json.Document t (.object g.members) ∧
      g ≠ [] ∧ (g.map Prod.fst).Nodup := by
  constructor
  · intro h
    unfold ofBytes at h
    split at h
    · rename_i t hdecode
      have ht := Text.Utf8.decode_eq_ok_iff.mp hdecode
      exact ⟨t, ht, ofText_eq_ok_iff.mp h⟩
    · cases h
  · rintro ⟨t, ht, hdocument⟩
    simp only [ofBytes, Text.Utf8.decode_eq_ok_iff.mpr ht]
    exact ofText_eq_ok_iff.mpr hdocument

def Failure.told (p : Path) : Failure → LoadError
  | .flawed flaw => .flawed p flaw
  | .oversizedInteger digits => .oversizedInteger digits

theorem load_of_read {w : World} {p : Path} (hread : w.read (Route.ofPath p) = .ok bytes) :
    ((load p).run w).1 = (ofBytes bytes).mapError (Failure.told p) := by
  simp only [load, Script.run_bind, Script.run_ask, World.perform, hread]
  rcases ofBytes bytes with (flaw | digits) | g <;> rfl

/-- A file is loaded as a grammar exactly if its bytes are the UTF-8 form of a JSON text that denotes
    an object of the grammar's tables, in their order: at least one, each an array of strings, and no
    two under one key. -/
theorem load_iff_document {w : World} {p : Path} (hread : w.read (Route.ofPath p) = .ok bytes) :
    ((load p).run w).1 = .ok g ↔ ∃ t, bytes = Text.Utf8.encode t ∧ Json.Document t (.object g.members) ∧
      g ≠ [] ∧ (g.map Prod.fst).Nodup := by
  rw [← ofBytes_eq_ok_iff]
  simp only [load, Script.run_bind, Script.run_ask, World.perform, hread]
  cases ofBytes bytes with
  | ok g' => exact ⟨fun h => congrArg Except.ok (Except.ok.inj h), fun h => congrArg Except.ok (Except.ok.inj h)⟩
  | error failure =>
    refine ⟨fun h => ?_, fun h => by cases h⟩
    cases failure <;> cases h

/-- A file `g` with the given text, and nothing else. -/
def withFile (t : Text) : World where
  tree := ⟨[([], .directory 0o755), (["g".toList], .file 0o644 (Text.Utf8.encode t))]⟩
  cwd := []
  umask := 0o022
  suffixes := Suffix.ofNat
  drawn := 0

/-- A text with a key and a line that are written with escapes, the line with a pair of surrogates. -/
def escapedText : Text := " \x7b \"\\u0041b\" : [\"V :\", \"\\uD83D\\uDE00 : int\\tx\"]\n\x7d".toList

def withEscapes : World := withFile escapedText

theorem load_iff_document_escapes :
    ∃ t, Text.Utf8.encode escapedText = Text.Utf8.encode t ∧
      Json.Document t (.object (members [("Ab".toList, ["V :".toList, "😀 : int\tx".toList])])) ∧
      [("Ab".toList, ["V :".toList, "😀 : int\tx".toList])] ≠ [] ∧
      ([("Ab".toList, ["V :".toList, "😀 : int\tx".toList])].map Prod.fst).Nodup := by
  have hread : withEscapes.read (Route.ofPath (Path.ofText "g".toList)) = .ok (Text.Utf8.encode escapedText) := rfl
  refine (load_iff_document hread).mp ?_
  have hload : ((load (Path.ofText "g".toList)).run withEscapes).1.toOption =
      some [("Ab".toList, ["V :".toList, "😀 : int\tx".toList])] := by decide +kernel
  revert hload
  cases ((load (Path.ofText "g".toList)).run withEscapes).1 with
  | ok g => exact fun h => congrArg Except.ok (Option.some.inj h)
  | error e => exact fun h => by cases h

end Grammar

end NodeGen
