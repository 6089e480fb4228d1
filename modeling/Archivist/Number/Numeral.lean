import Archivist.Number.Decimal

/-!
Decimal numerals as text, and the doubles they denote. A numeral is read in one of two ways: exactly,
with one rounding, or in two roundings, which is what documents use.
-/

set_option autoImplicit false

namespace Archivist

structure Numeral where
  negative : Bool
  whole : List Char
  decimals : List Char := []
  exponent : Int := 0
  deriving DecidableEq, Repr

namespace Numeral

/-- The largest significand that is gathered digit by digit. -/
def capacity : Nat := Nat.pow 2 64 - 1

/-- Appends digits to a significand as long as it stays within `capacity`. Gives the significand and
the digits that did not fit. -/
def gather (significand : Nat) : List Char → Nat × List Char
  | [] => (significand, [])
  | c :: rest =>
    let next := Nat.ofDigitChars 10 [c] significand
    if next ≤ capacity then gather next rest else (significand, c :: rest)

/-- The digits that count: of those before the point the ones beyond `capacity` keep their places as
powers of ten, of those after the point they are dropped. -/
def significand (n : Numeral) : Decimal :=
  let (s, skipped) := gather 0 n.whole
  let (s, dropped) := gather s n.decimals
  ⟨s, n.exponent + skipped.length - (n.decimals.length - dropped.length)⟩

def doublePower (k : Nat) : Binary := Format.double.round false (Nat.pow 10 k) 1

/-- Divides by `10^308` while the power is below `-308`, then by what is left. -/
def scaleDown (x : Binary) : Nat → Nat → Binary
  | 0, k => Format.double.div x (doublePower k)
  | steps + 1, k =>
    if k ≤ 308 then Format.double.div x (doublePower k)
    else if x.isZero then x
    else scaleDown (Format.double.div x (doublePower 308)) steps (k - 308)

/-- The significand is rounded to a double first, then multiplied or divided by a double power of
ten. There is no result if it is too large. -/
def twiceRounded? (n : Numeral) : Option Binary :=
  let d := n.significand
  let x := Format.double.round false d.digits 1
  let x :=
    if d.exponent < 0 then
      let k := d.exponent.natAbs
      scaleDown x (k / 308) k
    else if x.isZero then x
    else if 308 < d.exponent then .infinite false
    else Format.double.mul x (doublePower d.exponent.toNat)
  if x.isFinite then some (if n.negative then x.negate else x) else none

/-- Powers of ten beyond this lie outside every format, whatever the digits. -/
def farPower (digits : Nat) : Int := 400 + digits

def nearest (n : Numeral) : Binary :=
  let digits := n.whole ++ n.decimals
  let value := Nat.ofDigitChars 10 digits 0
  let d : Decimal := ⟨value, n.exponent - n.decimals.length⟩
  if value = 0 then .finite n.negative 0 0
  else if farPower digits.length < d.exponent then .infinite n.negative
  else if d.exponent < -farPower digits.length then .finite n.negative 0 0
  else
    let (num, den) := d.fraction
    Format.double.round n.negative num den

def readExponent? : List Char → Option Int
  | '-' :: cs => if cs ≠ [] ∧ cs.all Char.isDigit then some (-(Nat.ofDigitChars 10 cs 0)) else none
  | '+' :: cs => if cs ≠ [] ∧ cs.all Char.isDigit then some (Nat.ofDigitChars 10 cs 0) else none
  | cs => if cs ≠ [] ∧ cs.all Char.isDigit then some (Nat.ofDigitChars 10 cs 0) else none

/-- Reads a plain numeral, all of the text: digits with at most one point and an optional power of
ten. One of the two runs of digits may be empty. -/
def read? (negative : Bool) (text : List Char) : Option Numeral :=
  let (whole, rest) := text.span Char.isDigit
  let (decimals, rest) := match rest with
    | '.' :: rest => rest.span Char.isDigit
    | rest => ([], rest)
  if whole = [] ∧ decimals = [] then none
  else match rest with
    | [] => some ⟨negative, whole, decimals, 0⟩
    | c :: cs =>
      if c = 'e' ∨ c = 'E' then (readExponent? cs).map (⟨negative, whole, decimals, ·⟩) else none

end Numeral

namespace Binary

def read? (text : String) : Option Binary :=
  let (negative, cs) := match text.toList with
    | '-' :: cs => (true, cs)
    | '+' :: cs => (false, cs)
    | cs => (false, cs)
  let word := String.ofList (cs.map Char.toLower)
  if word = "nan" then some .nan
  else if word = "inf" ∨ word = "infinity" then some (.infinite negative)
  else (Numeral.read? negative cs).map Numeral.nearest

end Binary

end Archivist
