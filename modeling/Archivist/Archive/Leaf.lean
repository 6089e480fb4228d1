import Archivist.Number.Binary

/-!
Leaves of a document as an archive hands them over. A whole number is signed as long as it fits into
63 bits, and unsigned beyond.
-/

set_option autoImplicit false

namespace Archivist

inductive Leaf where
  | null
  | bool (b : Bool)
  | int (n : Int)
  | uint (n : Nat)
  | float (x : Binary)
  | text (s : String)
  deriving DecidableEq, Repr

namespace Leaf

def kind : Leaf → String
  | .null => "null"
  | .bool _ => "bool"
  | .int _ | .uint _ => "integer"
  | .float _ => "float"
  | .text _ => "string"

/-- A whole number of a document, signed if it can be. -/
def ofInt (n : Int) : Leaf :=
  if n < Nat.pow 2 63 then .int n else .uint n.toNat

def toInt? : Leaf → Option Int
  | .int n => some n
  | .uint n => some n
  | _ => none

theorem toInt?_ofInt (n : Int) : (ofInt n).toInt? = some n := by
  unfold ofInt
  split
  · rfl
  · simp only [toInt?, Option.some.injEq]
    omega

def describe : Leaf → String
  | .int n => s!"Int({n})"
  | .uint n => s!"UInt({n})"
  | leaf => leaf.kind

end Leaf

end Archivist
