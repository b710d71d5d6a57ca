/-
  NodeGen.Json.Value — JSON values. Members keep their order and their repetitions; a number is kept
  as it is written.
-/

import NodeGen.Json.Letters

namespace NodeGen

inductive Json where
  | null
  | bool (b : Bool)
  | number (literal : Text)
  | string (s : Json.Letters)
  | array (items : List Json)
  | object (members : List (Json.Letters × Json))

namespace Json

def string? : Json → Option Letters
  | .string s => some s
  | _ => none

def strings? : Json → Option (List Letters)
  | .array items => items.mapM string?
  | _ => none

/-- The first key, in order, that an earlier member has too. -/
def repeatedKey {κ α : Type} [DecidableEq κ] (seen : List κ) : List (κ × α) → Option κ
  | [] => none
  | (key, _) :: rest => if key ∈ seen then some key else repeatedKey (key :: seen) rest

end Json

end NodeGen
