import Archivist.Attempt
import Archivist.Json.Basic

/-!
The archive that builds a document. It keeps a stack of open nodes, innermost first; a node becomes
an object, an array or a leaf with the first thing written into it, and an untouched node closes as an
empty object.
-/

set_option autoImplicit false

namespace Archivist

namespace Writer

inductive Node where
  | pending
  | object (fields : Fields)
  | array (items : List Json)
  | leaf (value : Json)
  deriving Repr

def Node.close : Node → Json
  | .pending => .object []
  | .object fields => .object fields
  | .array items => .array items
  | .leaf value => value

/-- An open node and the name it will have in the object around it. -/
structure Frame where
  key : Option String
  node : Node
  deriving Repr

end Writer

structure Writer where
  frames : List Writer.Frame
  deriving Repr

namespace Writer

def new : Writer := ⟨[⟨none, .pending⟩]⟩

/-- The document of a leaf, unless it is a float that is not finite. -/
def leafJson : Leaf → Except Error Json
  | .null => .ok .null
  | .bool b => .ok (.bool b)
  | .int n => .ok (.int n)
  | .uint n => .ok (.int n)
  | .float x => if x.isFinite then .ok (.float x) else .error (.unrepresentable (.nonFinite x))
  | .text s => .ok (.string s)

/-- Opens a field of the current node, which becomes an object if nothing was written into it. -/
def startField (name : String) : Attempt Writer Unit := fun w =>
  match w.frames with
  | [] => (.error (.unrepresentable .noCurrentNode), w)
  | ⟨key, .pending⟩ :: rest => (.ok (), ⟨⟨some name, .pending⟩ :: ⟨key, .object []⟩ :: rest⟩)
  | ⟨key, .object fields⟩ :: rest =>
    (.ok (), ⟨⟨some name, .pending⟩ :: ⟨key, .object fields⟩ :: rest⟩)
  | _ :: _ => (.error (.unrepresentable (.fieldOutsideObject name)), w)

def startElement : Attempt Writer Unit := fun w =>
  match w.frames with
  | [] => (.error (.unrepresentable .noCurrentNode), w)
  | ⟨key, .array items⟩ :: rest => (.ok (), ⟨⟨none, .pending⟩ :: ⟨key, .array items⟩ :: rest⟩)
  | _ :: _ => (.error (.unrepresentable .elementOutsideSequence), w)

/-- Closes the node opened last and adds it to the one around it. A field that is there already is
refused, and the closed node is lost. -/
def finishNode : Attempt Writer Unit := fun w =>
  match w.frames with
  | [] | [_] => (.error (.unrepresentable .noOpenNode), w)
  | closed :: ⟨key, node⟩ :: rest =>
    match node, closed.key with
    | .object fields, some name =>
      if fields.has name then
        (.error (.unrepresentable (.repeatedField name)), ⟨⟨key, node⟩ :: rest⟩)
      else (.ok (), ⟨⟨key, .object (fields ++ [(name, closed.node.close)])⟩ :: rest⟩)
    | .array items, none => (.ok (), ⟨⟨key, .array (items ++ [closed.node.close])⟩ :: rest⟩)
    | _, _ => (.error (.unrepresentable .unbalanced), ⟨⟨key, node⟩ :: rest⟩)

/-- Turns the current node into an array. The size announced is not held against what follows. -/
def writeSize (_size : Nat) : Attempt Writer Unit := fun w =>
  match w.frames with
  | [] => (.error (.unrepresentable .noCurrentNode), w)
  | ⟨key, .pending⟩ :: rest => (.ok (), ⟨⟨key, .array []⟩ :: rest⟩)
  | _ :: _ => (.error (.unrepresentable .sequenceOverContent), w)

/-- Turns the current node into a leaf. What is wrong with the leaf counts before what is wrong with
the node. -/
def writeValue (leaf : Leaf) : Attempt Writer Unit := fun w =>
  match leafJson leaf, w.frames with
  | .error e, _ => (.error e, w)
  | .ok _, [] => (.error (.unrepresentable .noCurrentNode), w)
  | .ok value, ⟨key, .pending⟩ :: rest => (.ok (), ⟨⟨key, .leaf value⟩ :: rest⟩)
  | .ok _, _ :: _ => (.error (.unrepresentable .valueOverContent), w)

def document (w : Writer) : Except Error Json :=
  match w.frames with
  | [] => .error (.unrepresentable (.leftOpen 0))
  | [root] => .ok root.node.close
  | _ :: others => .error (.unrepresentable (.leftOpen others.length))

end Writer

end Archivist
