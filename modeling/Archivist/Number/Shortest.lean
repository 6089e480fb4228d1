import Archivist.Number.Decimal

/-!
The fewest decimal digits that read back as a given floating-point number. All real numbers that
round to it form an interval; of the decimal grids, coarse to fine, the first with a point inside
decides, and of two points inside the nearer one is taken.
-/

set_option autoImplicit false

namespace Archivist

/-- The numbers from `lo / den` to `hi / den` round to `mid / den`; so do the ends if `closed`. -/
structure Neighbourhood where
  lo : Nat
  mid : Nat
  hi : Nat
  den : Nat
  closed : Bool
  deriving Repr

namespace Neighbourhood

/-- The interval around `m · 2^e`. Below a power of two the next number is only half as far. -/
def around (f : Format) (m : Nat) (e : Int) : Neighbourhood :=
  let q := f.lastExponent (m * Nat.pow 2 e.toNat) (Nat.pow 2 (-e).toNat)
  let m := m * Nat.pow 2 (e - q).toNat
  let below := if m = Nat.pow 2 (f.precision - 1) ∧ f.minExponent < q then 1 else 2
  let unit := Nat.pow 2 (q - 2).toNat
  { lo := (4 * m - below) * unit
    mid := 4 * m * unit
    hi := (4 * m + 2) * unit
    den := Nat.pow 2 (2 - q).toNat
    closed := m % 2 = 0 }

def compareDecimal (num den : Nat) (d : Decimal) : Ordering :=
  let (n, g) := d.fraction
  compare (num * g) (n * den)

def contains (i : Neighbourhood) (d : Decimal) : Bool :=
  match compareDecimal i.lo i.den d, compareDecimal i.hi i.den d with
  | .lt, .gt => true
  | .eq, .gt => i.closed
  | .lt, .eq => i.closed
  | _, _ => false

/-- The largest `k` with `10^k ≤ mid / den`, searched upwards from a low estimate. -/
def leadingPower (i : Neighbourhood) : Int :=
  let low := (Binary.leadingExponent i.mid i.den * 30103).fdiv 100000 - 1
  let reached (k : Int) : Bool := compareDecimal i.mid i.den ⟨1, k⟩ != .lt
  if reached (low + 3) then low + 3
  else if reached (low + 2) then low + 2
  else if reached (low + 1) then low + 1
  else low

/-- The point of the grid `10^exponent` just below `mid / den`, or on it. -/
def floorOn (i : Neighbourhood) (exponent : Int) : Nat :=
  let (n, g) := Decimal.fraction ⟨1, exponent⟩
  i.mid * g / (i.den * n)

/-- Whether `digits + 1` is nearer to `mid / den` than `digits`; from the middle, the even one. -/
def upperNearer (i : Neighbourhood) (digits : Nat) (exponent : Int) : Bool :=
  match compareDecimal (2 * i.mid) i.den ⟨2 * digits + 1, exponent⟩ with
  | .lt => false
  | .gt => true
  | .eq => digits % 2 = 1

def pick (i : Neighbourhood) (exponent : Int) : Option Decimal :=
  let digits := i.floorOn exponent
  let low : Decimal := ⟨digits, exponent⟩
  let high : Decimal := ⟨digits + 1, exponent⟩
  match i.contains low, i.contains high with
  | true, true => some (if i.upperNearer digits exponent then high else low)
  | true, false => some low
  | false, true => some high
  | false, false => none

/-- Tries ever finer grids, at most `tries` of them. -/
def search (i : Neighbourhood) (tries : Nat) (exponent : Int) : Decimal :=
  match tries with
  | 0 => ⟨i.floorOn exponent, exponent⟩
  | tries + 1 => (i.pick exponent).getD (i.search tries (exponent - 1))

end Neighbourhood

/-- The shortest decimal that rounds to `m · 2^e`, for `m ≠ 0`. Seventeen digits always suffice
for the formats in use. -/
def Format.shortest (f : Format) (m : Nat) (e : Int) : Decimal :=
  let i := Neighbourhood.around f m e
  let d := i.search 17 i.leadingPower
  Decimal.trim 17 d.digits d.exponent

end Archivist
