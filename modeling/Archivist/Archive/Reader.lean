import Archivist.Attempt
import Archivist.Json.Basic

/-!
The archive that walks a document. It keeps a stack of entered nodes, innermost first, and each node
loses what was entered from it: a field is taken out of its object, an element off its array.
-/

set_option autoImplicit false

namespace Archivist

namespace Reader

/-- What is left of an entered node. An array remembers how long it was. -/
inductive Node where
  | value (document : Json)
  | object (fields : Fields)
  | array (items : List Json) (length : Nat)
  deriving Repr

namespace Node

def kind : Node → String
  | .value document => document.kind
  | .object _ => "object"
  | .array _ _ => "array"

/-- How many values and fields are left, the node included. -/
def weight : Node → Nat
  | .value document => document.weight
  | .object fields => Json.weightFields fields + 1
  | .array items _ => Json.weightItems items + 1

def fieldCount : Node → Nat
  | .value (.object fields) | .object fields => fields.length
  | _ => 0

end Node

end Reader

/-- The entered nodes, innermost first; the last one is the root. -/
structure Reader where
  nodes : List Reader.Node
  deriving Repr

namespace Reader

def ofJson (document : Json) : Reader := ⟨[.value document]⟩

def weight (r : Reader) : Nat :=
  match r.nodes with
  | [] => 0
  | node :: _ => node.weight

def fieldCount (r : Reader) : Nat :=
  match r.nodes with
  | [] => 0
  | node :: _ => node.fieldCount

def top : Attempt Reader (Node × List Node) := fun r =>
  match r.nodes with
  | [] => (.error (.malformed .noCurrentNode), r)
  | node :: rest => (.ok (node, rest), r)

def object : Attempt Reader (Fields × List Node) := fun r =>
  match r.nodes with
  | [] => (.error (.malformed .noCurrentNode), r)
  | .object fields :: rest => (.ok (fields, rest), r)
  | .value (.object fields) :: rest => (.ok (fields, rest), ⟨.object fields :: rest⟩)
  | node :: _ => (.error (.malformed (.notAnObject node.kind)), r)

/-- The elements left of the current node, which is an array from now on, and its length. -/
def array : Attempt Reader (List Json × Nat × List Node) := fun r =>
  match r.nodes with
  | [] => (.error (.malformed .noCurrentNode), r)
  | .array items length :: rest => (.ok (items, length, rest), r)
  | .value (.array items) :: rest =>
    (.ok (items, items.length, rest), ⟨.array items items.length :: rest⟩)
  | node :: _ => (.error (.malformed (.notAnArray node.kind)), r)

def startField (name : String) : Attempt Reader Unit := do
  let (fields, rest) ← object
  match fields.take? name with
  | none => .fail (.fieldAbsent name)
  | some (value, left) => .modify fun _ => ⟨.value value :: .object left :: rest⟩

def startElement : Attempt Reader Unit := do
  let (items, length, rest) ← array
  match items with
  | [] => .malformed .noMoreElements
  | item :: items => .modify fun _ => ⟨.value item :: .array items length :: rest⟩

/-- Leaves the node entered last; the root is never left. -/
def finishNode : Attempt Reader Unit := fun r =>
  match r.nodes with
  | _ :: next :: rest => (.ok (), ⟨next :: rest⟩)
  | _ => (.error (.malformed .noOpenNode), r)

/-- The length of the current array, whatever was entered from it. -/
def readSize : Attempt Reader Nat := do
  let (_, length, _) ← array
  return length

def leaf? : Json → Option Leaf
  | .null => some .null
  | .bool b => some (.bool b)
  | .int n => some (.ofInt n)
  | .float x => some (.float x)
  | .string s => some (.text s)
  | .array _ | .object _ => none

/-- Takes the leaf of the current node, which is null from now on. -/
def readValue : Attempt Reader Leaf := do
  let (node, rest) ← top
  match node with
  | .value document =>
    match leaf? document with
    | some leaf => do
      Attempt.modify fun _ => ⟨.value .null :: rest⟩
      return leaf
    | none => .malformed (.notALeaf document.kind)
  | _ => .malformed (.notALeaf "a container")

def isNull : Attempt Reader Bool := do
  let (node, _) ← top
  match node with
  | .value .null => return true
  | _ => return false

def nextFieldName : Attempt Reader (Option String) := do
  let (fields, _) ← object
  return fields.names.head?

end Reader

end Archivist
