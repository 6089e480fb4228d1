import Archivist.Number.Binary

/-!
Types of the values that are saved and loaded, as data. Records and bases are named here and declared
in a schema, so types may refer to each other in cycles.
-/

set_option autoImplicit false

namespace Archivist

inductive IntKind where
  | i8 | i16 | i32 | i64 | isize
  | u8 | u16 | u32 | u64 | usize
  deriving DecidableEq, Repr

namespace IntKind

def signed : IntKind → Bool
  | .i8 | .i16 | .i32 | .i64 | .isize => true
  | _ => false

def bits : IntKind → Nat
  | .i8 | .u8 => 8
  | .i16 | .u16 => 16
  | .i32 | .u32 => 32
  | .i64 | .u64 | .isize | .usize => 64

def least (k : IntKind) : Int := if k.signed then -Nat.pow 2 (k.bits - 1) else 0

def greatest (k : IntKind) : Int :=
  if k.signed then Nat.pow 2 (k.bits - 1) - 1 else Nat.pow 2 k.bits - 1

def InRange (k : IntKind) (n : Int) : Prop := k.least ≤ n ∧ n ≤ k.greatest

instance (k : IntKind) (n : Int) : Decidable (k.InRange n) :=
  inferInstanceAs (Decidable (_ ∧ _))

def name : IntKind → String
  | .i8 => "i8" | .i16 => "i16" | .i32 => "i32" | .i64 => "i64" | .isize => "isize"
  | .u8 => "u8" | .u16 => "u16" | .u32 => "u32" | .u64 => "u64" | .usize => "usize"

/-- The type a message names: pointer-sized numbers are read as 64-bit ones. -/
def readName : IntKind → String
  | .isize => "i64"
  | .usize => "u64"
  | k => k.name

end IntKind

inductive FloatWidth where
  | single
  | double
  deriving DecidableEq, Repr

namespace FloatWidth

def format : FloatWidth → Format
  | .single => .single
  | .double => .double

def name : FloatWidth → String
  | .single => "f32"
  | .double => "f64"

end FloatWidth

inductive AtomTy where
  | bool
  | char
  | text
  | int (kind : IntKind)
  | float (width : FloatWidth)
  deriving DecidableEq, Repr

/-- Types of the keys of maps that are part of a schema. A textual key is a string with its own rules for field
names. Of other keys there are only atoms here, although a map can be read and written with keys of any type. -/
inductive KeyTy where
  | atom (type : AtomTy)
  | text
  | named (name : String)
  deriving DecidableEq, Repr

def KeyTy.isTextual : KeyTy → Bool
  | .atom _ => false
  | _ => true

inductive ListKind where
  | vector
  | deque
  | linked
  deriving DecidableEq, Repr

/-- How a map orders its entries: by key, or in some order of its own. -/
inductive MapKind where
  | sorted
  | hashed
  deriving DecidableEq, Repr

inductive RefKind where
  | box
  | counted
  | shared
  deriving DecidableEq, Repr

/-- What a reference can be declared to point to: one type, or any type that implements a base. -/
inductive Target where
  | atom (type : AtomTy)
  | record (name : String)
  | base (name : String)
  deriving DecidableEq, Repr

inductive Ty where
  | atom (type : AtomTy)
  | option (item : Ty)
  | list (kind : ListKind) (item : Ty)
  | array (item : Ty) (length : Nat)
  | map (kind : MapKind) (key : KeyTy) (item : Ty)
  | record (name : String)
  | ref (kind : RefKind) (target : Target)
  deriving DecidableEq, Repr

namespace Ty

def height : Ty → Nat
  | .atom _ | .record _ => 1
  | .option item | .list _ item | .array item _ | .map _ _ item => item.height + 1
  | .ref _ _ => 2

end Ty

/-- The type of the values behind a reference; a base has none of its own. -/
def Target.ty? : Target → Option Ty
  | .atom type => some (.atom type)
  | .record name => some (.record name)
  | .base _ => none

end Archivist
