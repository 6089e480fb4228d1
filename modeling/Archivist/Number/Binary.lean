/-!
Binary floating-point numbers as exact dyadic values. A finite number is `± m · 2^e`, kept with an
odd `m` (zero is `m = 0`, `e = 0`), so equal numbers are equal terms, and a narrow number is its own
wide form. Rounding to a format is the only lossy step.
-/

set_option autoImplicit false

namespace Archivist

inductive Binary where
  | nan
  | infinite (negative : Bool)
  | finite (negative : Bool) (m : Nat) (e : Int)
  deriving DecidableEq, Repr, Inhabited

/-- How many significant bits a number may have, and the exponents of its last bit. -/
structure Format where
  precision : Nat
  minExponent : Int
  maxExponent : Int
  deriving DecidableEq, Repr

namespace Format

def single : Format := ⟨24, -149, 104⟩

def double : Format := ⟨53, -1074, 971⟩

end Format

namespace Binary

def zero : Binary := .finite false 0 0

/-- Moves factors of two from `m` into the exponent; `bits` bounds how many there can be. -/
def reduce (bits m : Nat) (e : Int) : Nat × Int :=
  match bits with
  | 0 => (m, e)
  | bits + 1 => if m % 2 = 0 then reduce bits (m / 2) (e + 1) else (m, e)

/-- The number `± m · 2^e` in its one canonical form. -/
def ofDyadic (negative : Bool) (m : Nat) (e : Int) : Binary :=
  if m = 0 then .finite negative 0 0
  else
    let (m, e) := reduce m.log2 m e
    .finite negative m e

def isFinite : Binary → Bool
  | .finite .. => true
  | _ => false

def isZero : Binary → Bool
  | .finite _ m _ => m == 0
  | _ => false

def negate : Binary → Binary
  | .nan => .nan
  | .infinite s => .infinite (!s)
  | .finite s m e => .finite (!s) m e

/-- The whole number next to `num / den`; a half goes to the even neighbour. -/
def roundDiv (num den : Nat) : Nat :=
  let q := num / den
  let r := num % den
  if 2 * r < den then q
  else if den < 2 * r then q + 1
  else if q % 2 = 0 then q else q + 1

def scaleDown (num den : Nat) (e : Int) : Nat × Nat :=
  if 0 ≤ e then (num, den * Nat.pow 2 e.toNat) else (num * Nat.pow 2 (-e).toNat, den)

/-- The exponent of the leading bit of `num / den`, for positive `num` and `den`. -/
def leadingExponent (num den : Nat) : Int :=
  let k : Int := (num.log2 : Int) - den.log2
  let (n, d) := scaleDown num den k
  if n < d then k - 1 else k

end Binary

namespace Format

open Binary

/-- The exponent of the last bit that the format keeps of `num / den`. -/
def lastExponent (f : Format) (num den : Nat) : Int :=
  max f.minExponent (leadingExponent num den - (f.precision - 1))

/-- The number of the format nearest to `± num / den`; a half goes to the even neighbour, and what
is too large becomes infinite. -/
def round (f : Format) (negative : Bool) (num den : Nat) : Binary :=
  if num = 0 then .finite negative 0 0
  else
    let e := f.lastExponent num den
    let (n, d) := scaleDown num den e
    let m := roundDiv n d
    if f.maxExponent < e ∨ e = f.maxExponent ∧ Nat.pow 2 f.precision ≤ m then .infinite negative
    else ofDyadic negative m e

def ofInt (f : Format) (n : Int) : Binary :=
  f.round (n < 0) n.natAbs 1

/-- The number of the format nearest to a number of another format. -/
def ofBinary (f : Format) : Binary → Binary
  | .nan => .nan
  | .infinite s => .infinite s
  | .finite s m e => f.round s (m * Nat.pow 2 e.toNat) (Nat.pow 2 (-e).toNat)

def Holds (f : Format) (x : Binary) : Prop := f.ofBinary x = x

instance (f : Format) (x : Binary) : Decidable (f.Holds x) :=
  inferInstanceAs (Decidable (_ = _))

/-- The rounded product of two finite numbers. The formats need no other operands. -/
def mul (f : Format) : Binary → Binary → Binary
  | .finite s m e, .finite t n g =>
    f.round (s != t) (m * n * Nat.pow 2 (e + g).toNat) (Nat.pow 2 (-(e + g)).toNat)
  | _, _ => .nan

def div (f : Format) : Binary → Binary → Binary
  | .finite s m e, .finite t n g =>
    if n = 0 then .nan
    else f.round (s != t) (m * Nat.pow 2 (e - g).toNat) (n * Nat.pow 2 (g - e).toNat)
  | _, _ => .nan

end Format

end Archivist
