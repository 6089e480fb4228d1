import Archivist.Number.Binary

/-!
Documents: JSON trees whose objects keep the order of their fields. Whole numbers and floating-point
numbers are told apart.
-/

set_option autoImplicit false

namespace Archivist

/-- A document tree. A whole number lies between `-2^63` and `2^64 - 1`, a float is a finite double,
and no object has two fields of one name. -/
inductive Json where
  | null
  | bool (b : Bool)
  | int (n : Int)
  | float (x : Binary)
  | string (s : String)
  | array (items : List Json)
  | object (fields : List (String × Json))
  deriving Repr, Inhabited

/-- The entries of an object, in document order. -/
abbrev Fields := List (String × Json)

namespace Fields

def names (fields : Fields) : List String := fields.map Prod.fst

def has (fields : Fields) (name : String) : Bool := fields.any (·.1 == name)

def take? (name : String) : Fields → Option (Json × Fields)
  | [] => none
  | (key, value) :: rest =>
    if key = name then some (value, rest)
    else (take? name rest).map fun (found, left) => (found, (key, value) :: left)

/-- Sets the entry of a name. It keeps its place if there is one, else it comes last. -/
def put (name : String) (value : Json) : Fields → Fields
  | [] => [(name, value)]
  | (key, old) :: rest =>
    if key = name then (name, value) :: rest else (key, old) :: put name value rest

/-- An object from entries that may repeat a name: the last value in the first place. -/
def ofEntries (entries : List (String × Json)) : Fields :=
  entries.foldl (fun fields (name, value) => put name value fields) []

end Fields

namespace Json

def kind : Json → String
  | .null => "null"
  | .bool _ => "bool"
  | .int _ | .float _ => "number"
  | .string _ => "string"
  | .array _ => "array"
  | .object _ => "object"

mutual

def weight : Json → Nat
  | .array items => weightItems items + 1
  | .object fields => weightFields fields + 1
  | _ => 1

def weightItems : List Json → Nat
  | [] => 0
  | item :: rest => weight item + weightItems rest + 1

def weightFields : List (String × Json) → Nat
  | [] => 0
  | (_, value) :: rest => weight value + weightFields rest + 1

end

mutual

/-- How many arrays and objects are open at once, at most. -/
def depth : Json → Nat
  | .array items => depthItems items + 1
  | .object fields => depthFields fields + 1
  | _ => 0

def depthItems : List Json → Nat
  | [] => 0
  | item :: rest => max (depth item) (depthItems rest)

def depthFields : List (String × Json) → Nat
  | [] => 0
  | (_, value) :: rest => max (depth value) (depthFields rest)

end

end Json

end Archivist
