/-!
Values of TOML that are written in one piece: truth values, numbers, dates and times.
-/

set_option autoImplicit false

namespace Archivist.Toml

def isHexDigit (c : Char) : Bool :=
  c.isDigit || ('a' ≤ c && c ≤ 'f') || ('A' ≤ c && c ≤ 'F')

def isDigitOf (base : Nat) (c : Char) : Bool :=
  if base = 16 then isHexDigit c else c.isDigit && c.toNat < '0'.toNat + base

/-- Digits with single underscores between them. -/
def isDigitRun (base : Nat) : List Char → Bool
  | [] => false
  | [c] => isDigitOf base c
  | c :: '_' :: rest => isDigitOf base c && isDigitRun base rest
  | c :: rest => isDigitOf base c && isDigitRun base rest

def digitValue (c : Char) : Nat :=
  if c.isDigit then c.toNat - '0'.toNat else c.toLower.toNat - 'a'.toNat + 10

def runValue (base : Nat) (cs : List Char) : Nat :=
  (cs.filter (· ≠ '_')).foldl (fun n c => base * n + digitValue c) 0

def dropSign : List Char → List Char
  | '+' :: cs => cs
  | '-' :: cs => cs
  | cs => cs

/-- Decimal digits without a zero in front. -/
def isDecimal (cs : List Char) : Bool :=
  isDigitRun 10 cs && (cs.length = 1 || cs.head? ≠ some '0')

def isInteger (cs : List Char) : Bool :=
  match cs with
  | '0' :: 'x' :: rest => isDigitRun 16 rest && runValue 16 rest < Nat.pow 2 63
  | '0' :: 'o' :: rest => isDigitRun 8 rest && runValue 8 rest < Nat.pow 2 63
  | '0' :: 'b' :: rest => isDigitRun 2 rest && runValue 2 rest < Nat.pow 2 63
  | _ =>
    let digits := dropSign cs
    let bound := if cs.head? = some '-' then Nat.pow 2 63 + 1 else Nat.pow 2 63
    isDecimal digits && runValue 10 digits < bound

def isExponent (cs : List Char) : Bool := isDigitRun 10 (dropSign cs)

def isFractionTail : List Char → Bool
  | '.' :: cs =>
    let digits := cs.takeWhile fun c => c.isDigit || c = '_'
    isDigitRun 10 digits &&
      match cs.drop digits.length with
      | [] => true
      | mark :: exponent => (mark = 'e' || mark = 'E') && isExponent exponent
  | mark :: exponent => (mark = 'e' || mark = 'E') && isExponent exponent
  | [] => false

def isFloat (cs : List Char) : Bool :=
  let cs := dropSign cs
  let whole := cs.takeWhile fun c => c.isDigit || c = '_'
  cs = "inf".toList || cs = "nan".toList || (isDecimal whole && isFractionTail (cs.drop whole.length))

def splitDigits? (count : Nat) (cs : List Char) : Option (Nat × List Char) :=
  let digits := cs.take count
  if digits.length = count && digits.all Char.isDigit then some (runValue 10 digits, cs.drop count)
  else none

def isLeapYear (year : Nat) : Bool := year % 4 = 0 && (year % 100 ≠ 0 || year % 400 = 0)

def daysIn (year month : Nat) : Nat :=
  if month = 2 then if isLeapYear year then 29 else 28
  else if month ∈ [4, 6, 9, 11] then 30
  else 31

def afterDate? (cs : List Char) : Option (List Char) := do
  let (year, '-' :: cs) ← splitDigits? 4 cs | none
  let (month, '-' :: cs) ← splitDigits? 2 cs | none
  let (day, cs) ← splitDigits? 2 cs
  if 1 ≤ month ∧ month ≤ 12 ∧ 1 ≤ day ∧ day ≤ daysIn year month then some cs else none

/-- Splits off a time of day. A minute can have a leap second. -/
def afterTime? (cs : List Char) : Option (List Char) := do
  let (hour, ':' :: cs) ← splitDigits? 2 cs | none
  let (minute, ':' :: cs) ← splitDigits? 2 cs | none
  let (second, cs) ← splitDigits? 2 cs
  if hour ≤ 23 ∧ minute ≤ 59 ∧ second ≤ 60 then
    match cs with
    | '.' :: rest =>
      if rest.head?.any Char.isDigit then some (rest.dropWhile Char.isDigit) else none
    | _ => some cs
  else none

def isOffset : List Char → Bool
  | [] => true
  | [c] => c = 'Z' || c = 'z'
  | sign :: cs =>
    (sign = '+' || sign = '-') &&
      match splitDigits? 2 cs with
      | some (hour, ':' :: cs) =>
        match splitDigits? 2 cs with
        | some (minute, []) => hour ≤ 23 && minute ≤ 59
        | _ => false
      | _ => false

def isDateTime (cs : List Char) : Bool :=
  match afterDate? cs with
  | none => afterTime? cs = some []
  | some [] => true
  | some (mark :: cs) =>
    (mark = 'T' || mark = 't' || mark = ' ') && (afterTime? cs).any isOffset

def isScalar (cs : List Char) : Bool :=
  cs = "true".toList || cs = "false".toList || isInteger cs || isFloat cs || isDateTime cs

end Archivist.Toml
