import Archivist.Json.Basic
import Archivist.Number.Numeral

/-!
Reading JSON text. The grammar is strict, blanks may surround every token, and at most 127 arrays
and objects may be open at once. A text that is not a document has no reading; why is not said.
-/

set_option autoImplicit false

namespace Archivist.Json

def maxDepth : Nat := 127

def isBlank (c : Char) : Bool := c == ' ' || c == '\n' || c == '\t' || c == '\r'

def skipBlanks (cs : List Char) : List Char := cs.dropWhile isBlank

def hexValue? (c : Char) : Option Nat :=
  if '0' ≤ c ∧ c ≤ '9' then some (c.toNat - '0'.toNat)
  else if 'a' ≤ c ∧ c ≤ 'f' then some (c.toNat - 'a'.toNat + 10)
  else if 'A' ≤ c ∧ c ≤ 'F' then some (c.toNat - 'A'.toNat + 10)
  else none

def readHex4 : List Char → Option (Nat × List Char)
  | a :: b :: c :: d :: rest => do
    let a ← hexValue? a
    let b ← hexValue? b
    let c ← hexValue? c
    let d ← hexValue? d
    some (((a * 16 + b) * 16 + c) * 16 + d, rest)
  | _ => none

def readUnicode (cs : List Char) : Option (Char × List Char) := do
  let (unit, rest) ← readHex4 cs
  if unit < 0xD800 ∨ 0xDFFF < unit then some (Char.ofNat unit, rest)
  else if 0xDC00 ≤ unit then none
  else match rest with
    | '\\' :: 'u' :: rest => do
      let (low, rest) ← readHex4 rest
      if 0xDC00 ≤ low ∧ low ≤ 0xDFFF then
        some (Char.ofNat (0x10000 + (unit - 0xD800) * 0x400 + (low - 0xDC00)), rest)
      else none
    | _ => none

def readEscape : List Char → Option (Char × List Char)
  | '"' :: rest => some ('"', rest)
  | '\\' :: rest => some ('\\', rest)
  | '/' :: rest => some ('/', rest)
  | 'b' :: rest => some ('\x08', rest)
  | 'f' :: rest => some ('\x0c', rest)
  | 'n' :: rest => some ('\n', rest)
  | 'r' :: rest => some ('\r', rest)
  | 't' :: rest => some ('\t', rest)
  | 'u' :: rest => readUnicode rest
  | _ => none

/-- The characters up to the closing quote; `fuel` bounds their number. -/
def readChars : Nat → List Char → Option (List Char × List Char)
  | 0, _ => none
  | _, [] => none
  | fuel + 1, c :: rest =>
    if c = '"' then some ([], rest)
    else if c = '\\' then do
      let (c, rest) ← readEscape rest
      let (text, rest) ← readChars fuel rest
      some (c :: text, rest)
    else if c.toNat < 0x20 then none
    else do
      let (text, rest) ← readChars fuel rest
      some (c :: text, rest)

def readString (cs : List Char) : Option (String × List Char) :=
  (readChars cs.length cs).map fun (text, rest) => (String.ofList text, rest)

def readDigits (cs : List Char) : Option (List Char × List Char) :=
  match cs.span Char.isDigit with
  | ([], _) => none
  | split => some split

/-- Digits before the point: a leading zero stands alone. -/
def readWhole (cs : List Char) : Option (List Char × List Char) := do
  let (digits, rest) ← readDigits cs
  if digits.head? = some '0' ∧ 1 < digits.length then none else some (digits, rest)

def readDecimals : List Char → Option (List Char × List Char)
  | '.' :: cs => readDigits cs
  | cs => some ([], cs)

def readPower (cs : List Char) : Option (Option Int × List Char) :=
  match cs with
  | c :: cs =>
    if c = 'e' ∨ c = 'E' then
      let (negative, cs) := match cs with
        | '-' :: cs => (true, cs)
        | '+' :: cs => (false, cs)
        | cs => (false, cs)
      (readDigits cs).map fun (digits, rest) =>
        let power : Int := Nat.ofDigitChars 10 digits 0
        (some (if negative then -power else power), rest)
    else some (none, c :: cs)
  | [] => some (none, [])

/-- The document of a number. Without point and power it is whole if it fits into 64 bits, signed or
not; minus zero is a float. -/
def ofNumeral (n : Numeral) (whole : Bool) : Option Json :=
  let magnitude := Nat.ofDigitChars 10 n.whole 0
  if whole ∧ n.negative = false ∧ magnitude < Nat.pow 2 64 then some (.int magnitude)
  else if whole ∧ n.negative = true ∧ 0 < magnitude ∧ magnitude ≤ Nat.pow 2 63 then
    some (.int (-magnitude))
  else n.twiceRounded?.map .float

def readNumber (negative : Bool) (cs : List Char) : Option (Json × List Char) := do
  let (whole, cs) ← readWhole cs
  let (decimals, cs) ← readDecimals cs
  let (power, cs) ← readPower cs
  let document ← ofNumeral ⟨negative, whole, decimals, power.getD 0⟩ (decimals = [] ∧ power = none)
  some (document, cs)

mutual

/-- One value. `fuel` bounds the calls, `room` the containers that may still be opened. -/
def readValue : Nat → Nat → List Char → Option (Json × List Char)
  | 0, _, _ => none
  | fuel + 1, room, cs =>
    match skipBlanks cs with
    | 'n' :: 'u' :: 'l' :: 'l' :: cs => some (.null, cs)
    | 't' :: 'r' :: 'u' :: 'e' :: cs => some (.bool true, cs)
    | 'f' :: 'a' :: 'l' :: 's' :: 'e' :: cs => some (.bool false, cs)
    | '"' :: cs => (readString cs).map fun (text, cs) => (.string text, cs)
    | '-' :: cs => readNumber true cs
    | '[' :: cs =>
      if room = 0 then none
      else match skipBlanks cs with
        | ']' :: cs => some (.array [], cs)
        | cs => (readItems fuel (room - 1) cs).map fun (items, cs) => (.array items, cs)
    | '\x7b' :: cs =>
      if room = 0 then none
      else match skipBlanks cs with
        | '\x7d' :: cs => some (.object [], cs)
        | cs => (readFields fuel (room - 1) cs).map fun (fields, cs) =>
          (.object (Fields.ofEntries fields), cs)
    | cs => readNumber false cs

def readItems : Nat → Nat → List Char → Option (List Json × List Char)
  | 0, _, _ => none
  | fuel + 1, room, cs => do
    let (item, cs) ← readValue fuel room cs
    match skipBlanks cs with
    | ',' :: cs => do
      let (rest, cs) ← readItems fuel room cs
      some (item :: rest, cs)
    | ']' :: cs => some ([item], cs)
    | _ => none

def readFields : Nat → Nat → List Char → Option (List (String × Json) × List Char)
  | 0, _, _ => none
  | fuel + 1, room, cs => do
    let '"' :: cs := skipBlanks cs | none
    let (name, cs) ← readString cs
    let ':' :: cs := skipBlanks cs | none
    let (value, cs) ← readValue fuel room cs
    match skipBlanks cs with
    | ',' :: cs => do
      let (rest, cs) ← readFields fuel room cs
      some ((name, value) :: rest, cs)
    | '\x7d' :: cs => some ([(name, value)], cs)
    | _ => none

end

def parse? (text : String) : Option Json := do
  let cs := text.toList
  let (document, rest) ← readValue (2 * cs.length + 1) maxDepth cs
  if skipBlanks rest = [] then some document else none

end Archivist.Json
