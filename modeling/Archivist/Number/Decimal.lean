import Archivist.Number.Binary

/-!
Decimal numerals `digits · 10^exponent`, and the texts they are written as. Which exponents are
written out in full is a choice of the format that prints them, held in a `Layout`.
-/

set_option autoImplicit false

namespace Archivist

structure Decimal where
  digits : Nat
  exponent : Int
  deriving DecidableEq, Repr, Inhabited

namespace Decimal

/-- Drops trailing zeros; `tries` bounds how many. -/
def trim (tries digits : Nat) (exponent : Int) : Decimal :=
  match tries with
  | 0 => ⟨digits, exponent⟩
  | tries + 1 =>
    if digits % 10 = 0 then trim tries (digits / 10) (exponent + 1) else ⟨digits, exponent⟩

def fraction (d : Decimal) : Nat × Nat :=
  if 0 ≤ d.exponent then (d.digits * Nat.pow 10 d.exponent.toNat, 1)
  else (d.digits, Nat.pow 10 (-d.exponent).toNat)

end Decimal

/-- Numerals whose first digit stands for `10^k` are written out in full for
`leastPlain ≤ k < leastScientific`, always with a point; all others get a signed exponent. -/
structure Layout where
  leastPlain : Int
  leastScientific : Int
  deriving DecidableEq, Repr

namespace Layout

/-- A point after the first `whole` digits; zeros fill up either side. -/
def point (digits : List Char) (whole : Int) : List Char :=
  if whole ≤ 0 then '0' :: '.' :: (List.replicate (-whole).toNat '0' ++ digits)
  else
    let whole := whole.toNat
    if digits.length ≤ whole then
      digits ++ List.replicate (whole - digits.length) '0' ++ ['.', '0']
    else digits.take whole ++ '.' :: digits.drop whole

/-- One digit before the point, and the point only if more digits follow. -/
def scientific (digits : List Char) (k : Int) : List Char :=
  let mantissa := match digits with
    | [] => []
    | [d] => [d]
    | d :: rest => d :: '.' :: rest
  mantissa ++ 'e' :: (if k < 0 then '-' else '+') :: Nat.toDigits 10 k.natAbs

def render (layout : Layout) (d : Decimal) : List Char :=
  let digits := Nat.toDigits 10 d.digits
  let k := d.exponent + digits.length - 1
  if layout.leastPlain ≤ k ∧ k < layout.leastScientific then point digits (k + 1)
  else scientific digits k

end Layout

end Archivist
