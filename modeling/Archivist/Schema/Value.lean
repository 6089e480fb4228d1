import Archivist.Archive.Leaf
import Archivist.Error
import Archivist.Schema.Ty

/-!
Values of the types of a schema. A value says what it is: a record carries its name, a map the type of
its keys, and a reference what it was declared to point to.
-/

set_option autoImplicit false

namespace Archivist

inductive Atom where
  | bool (b : Bool)
  | char (c : Char)
  | text (s : String)
  | int (kind : IntKind) (n : Int)
  | float (width : FloatWidth) (x : Binary)
  deriving DecidableEq, Repr

namespace Atom

def ty : Atom → AtomTy
  | .bool _ => .bool
  | .char _ => .char
  | .text _ => .text
  | .int kind _ => .int kind
  | .float width _ => .float width

/-- The leaf of a value. Every float is written as a double. -/
def leaf : Atom → Leaf
  | .bool b => .bool b
  | .char c => .text (String.singleton c)
  | .text s => .text s
  | .int kind n => if kind.signed then .int n else .uint n.toNat
  | .float _ x => .float x

def lt : Atom → Atom → Bool
  | .bool a, .bool b => !a && b
  | .char a, .char b => a < b
  | .text a, .text b => a < b
  | .int _ a, .int _ b => a < b
  | _, _ => false

end Atom

namespace AtomTy

def initial : AtomTy → Atom
  | .bool => .bool false
  | .char => .char '\x00'
  | .text => .text ""
  | .int kind => .int kind 0
  | .float width => .float width .zero

def readInt (kind : IntKind) (leaf : Leaf) (n : Int) : Except Malformed Atom :=
  if kind.InRange n then .ok (.int kind n) else .error (.outOfRange leaf kind.readName)

/-- The value that a leaf denotes. Floats take whole numbers too and round what they cannot hold. -/
def read : AtomTy → Leaf → Except Malformed Atom
  | .bool, .bool b => .ok (.bool b)
  | .bool, leaf => .error (.wrongLeaf "bool" leaf)
  | .char, .text s =>
    match s.toList with
    | [c] => .ok (.char c)
    | _ => .error (.notOneCharacter s)
  | .char, leaf => .error (.wrongLeaf "char" leaf)
  | .text, .text s => .ok (.text s)
  | .text, leaf => .error (.wrongLeaf "string" leaf)
  | .int kind, .int n => readInt kind (.int n) n
  | .int kind, .uint n => readInt kind (.uint n) n
  | .int kind, leaf => .error (.wrongLeaf kind.readName leaf)
  | .float width, .float x => .ok (.float width (width.format.ofBinary x))
  | .float width, .int n => .ok (.float width (width.format.ofInt n))
  | .float width, .uint n => .ok (.float width (width.format.ofInt n))
  | .float width, leaf => .error (.wrongLeaf width.name leaf)

end AtomTy

inductive Value where
  | atom (a : Atom)
  | absent
  | present (item : Value)
  | list (items : List Value)
  | map (key : KeyTy) (entries : List (Atom × Value))
  | record (name : String) (fields : List Value)
  | ref (declared : Target) (item : Value)
  deriving Repr, Inhabited

namespace Value

def items : Value → List Value
  | .list items => items
  | _ => []

def fields : Value → List Value
  | .record _ fields => fields
  | _ => []

def target? : Value → Option Target
  | .atom a => some (.atom a.ty)
  | .record name _ => some (.record name)
  | _ => none

mutual

/-- How deep references lie in each other. -/
def depth : Value → Nat
  | .atom _ | .absent => 0
  | .present item => item.depth
  | .list items | .record _ items => depthOf items
  | .map _ entries => depthIn entries
  | .ref _ item => item.depth + 1

def depthOf : List Value → Nat
  | [] => 0
  | item :: rest => max item.depth (depthOf rest)

def depthIn : List (Atom × Value) → Nat
  | [] => 0
  | (_, item) :: rest => max item.depth (depthIn rest)

end

theorem depth_le_depthOf {items : List Value} {item : Value} (h : item ∈ items) : item.depth ≤ depthOf items := by
  induction items with
  | nil => cases h
  | cons first rest ih =>
    rcases List.mem_cons.1 h with rfl | h
    · exact Nat.le_max_left _ _
    · exact Nat.le_trans (ih h) (Nat.le_max_right _ _)

theorem depth_le_depthIn {entries : List (Atom × Value)} {entry : Atom × Value} (h : entry ∈ entries) :
    entry.2.depth ≤ depthIn entries := by
  induction entries with
  | nil => cases h
  | cons first rest ih =>
    rcases List.mem_cons.1 h with rfl | h
    · exact Nat.le_max_left _ _
    · exact Nat.le_trans (ih h) (Nat.le_max_right _ _)

end Value

/-- Sets the value of a key in a list of entries, given how keys are told apart and how they are ordered. A key that
is there already stays as it is. -/
def insertBy {κ ν : Type} (same : κ → κ → Prop) [DecidableRel same] (before : κ → κ → Bool) (key : κ) (value : ν) :
    List (κ × ν) → List (κ × ν)
  | [] => [(key, value)]
  | (k, v) :: rest =>
    if same key k then (k, value) :: rest
    else if before key k then (key, value) :: (k, v) :: rest
    else (k, v) :: insertBy same before key value rest

/-- The entries of a map, each key once, in the order in which the map is walked. -/
abbrev Entries := List (Atom × Value)

abbrev Entries.insert (before : Atom → Atom → Bool) : Atom → Value → Entries → Entries := insertBy Eq before

end Archivist
