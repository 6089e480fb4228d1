import Archivist.Text.IdentifierContinue
import Archivist.Text.IdentifierStart

/-!
Words and literals of source text, recognised at the front of a list of characters. Every function here
gives the characters that follow what it has recognised.
-/

set_option autoImplicit false

namespace Archivist.Source

def isWordStart (c : Char) : Bool :=
  c.isAlpha || c = '_' || (127 < c.toNat && Text.startsIdentifier c)

def isWordPart (c : Char) : Bool :=
  c.isAlphanum || c = '_' || (127 < c.toNat && Text.continuesIdentifier c)

def afterWord? : List Char → Option (List Char)
  | c :: cs => if isWordStart c then some (cs.dropWhile isWordPart) else none
  | [] => none

/-- Drops the word that may follow a literal without a blank, such as the type of a number. -/
def afterSuffix (cs : List Char) : List Char := (afterWord? cs).getD cs

def hexDigit? (c : Char) : Option Nat :=
  if c.isDigit then some (c.toNat - '0'.toNat)
  else if 'a' ≤ c ∧ c ≤ 'f' then some (c.toNat - 'a'.toNat + 10)
  else if 'A' ≤ c ∧ c ≤ 'F' then some (c.toNat - 'A'.toNat + 10)
  else none

def readCodePoint? (count value : Nat) : List Char → Option (Char × List Char)
  | [] => none
  | c :: cs =>
    match hexDigit? c with
    | some digit => if count = 6 then none else readCodePoint? (count + 1) (16 * value + digit) cs
    | none =>
      if count = 0 then none
      else if c = '_' then readCodePoint? count value cs
      else if c = '\x7d' ∧ value.isValidChar then some (Char.ofNat value, cs)
      else none

/-- A line that ends in a backslash goes on at the first character of a later line. -/
def afterLineBreak? : List Char → Option (List Char)
  | '\r' :: '\n' :: cs => afterLineBreak? cs
  | '\r' :: _ => none
  | c :: cs => if c = ' ' ∨ c = '\t' ∨ c = '\n' then afterLineBreak? cs else some (c :: cs)
  | [] => none

structure Quotation where
  byte : Nat → Bool
  codePoints : Bool
  zero : Bool
  plain : Char → Bool

namespace Quotation

def text : Quotation := ⟨(· < 128), true, true, fun _ => true⟩

def bytes : Quotation := ⟨fun _ => true, false, true, (·.toNat < 128)⟩

/-- Text for which a zero byte marks the end, so that none may stand in it. -/
def terminated : Quotation := ⟨(· ≠ 0), true, false, (· ≠ '\x00')⟩

def readEscape? (q : Quotation) : List Char → Option (Char × List Char)
  | 'n' :: cs => some ('\n', cs)
  | 'r' :: cs => some ('\r', cs)
  | 't' :: cs => some ('\t', cs)
  | '\\' :: cs => some ('\\', cs)
  | '\'' :: cs => some ('\'', cs)
  | '"' :: cs => some ('"', cs)
  | '0' :: cs => if q.zero then some ('\x00', cs) else none
  | 'x' :: high :: low :: cs => do
    let value := 16 * (← hexDigit? high) + (← hexDigit? low)
    if q.byte value then some (Char.ofNat value, cs) else none
  | 'u' :: '\x7b' :: cs => do
    let (c, cs) ← readCodePoint? 0 0 cs
    if q.codePoints && (q.zero || c ≠ '\x00') then some (c, cs) else none
  | _ => none

def read? (q : Quotation) : Nat → List Char → Option (List Char × List Char)
  | 0, _ => none
  | _ + 1, [] => none
  | _ + 1, '"' :: cs => some ([], cs)
  | fuel + 1, '\r' :: cs =>
    match cs with
    | '\n' :: cs => do
      let (value, cs) ← q.read? fuel cs
      some ('\n' :: value, cs)
    | _ => none
  | fuel + 1, '\\' :: cs =>
    match cs with
    | '\n' :: _ | '\r' :: _ => do q.read? fuel (← afterLineBreak? cs)
    | _ => do
      let (c, cs) ← q.readEscape? cs
      let (value, cs) ← q.read? fuel cs
      some (c :: value, cs)
  | fuel + 1, c :: cs =>
    if q.plain c then do
      let (value, cs) ← q.read? fuel cs
      some (c :: value, cs)
    else none

/-- Reads to a quote with the given number of `#` after it. Nothing is escaped. -/
def readRaw? (q : Quotation) (hashes : Nat) : List Char → Option (List Char × List Char)
  | [] => none
  | '\r' :: '\n' :: cs => do
    let (value, cs) ← q.readRaw? hashes cs
    some ('\r' :: '\n' :: value, cs)
  | c :: cs =>
    if c = '"' ∧ (List.replicate hashes '#').isPrefixOf cs then some ([], cs.drop hashes)
    else if c = '\r' ∨ q.plain c = false then none
    else do
      let (value, cs) ← q.readRaw? hashes cs
      some (c :: value, cs)

def readHashed? (q : Quotation) (cs : List Char) : Option (List Char × List Char) :=
  let hashes := (cs.takeWhile (· = '#')).length
  match cs.drop hashes with
  | '"' :: cs => if hashes ≤ 255 then q.readRaw? hashes cs else none
  | _ => none

def readRest? (q : Quotation) (cs : List Char) : Option (List Char × List Char) :=
  q.read? (cs.length + 1) cs

end Quotation

def readText? : List Char → Option (List Char × List Char)
  | '"' :: cs => Quotation.text.readRest? cs
  | 'r' :: cs => Quotation.text.readHashed? cs
  | _ => none

def afterQuotation? : List Char → Option (List Char)
  | '"' :: cs => do some (afterSuffix (← readText? ('"' :: cs)).2)
  | 'r' :: cs => do some (afterSuffix (← readText? ('r' :: cs)).2)
  | 'b' :: '"' :: cs => do some (afterSuffix (← Quotation.bytes.readRest? cs).2)
  | 'b' :: 'r' :: cs => do some (afterSuffix (← Quotation.bytes.readHashed? cs).2)
  | 'c' :: '"' :: cs => do some (afterSuffix (← Quotation.terminated.readRest? cs).2)
  | 'c' :: 'r' :: cs => do some (afterSuffix (← Quotation.terminated.readHashed? cs).2)
  | _ => none

def afterOne? (q : Quotation) : List Char → Option (List Char)
  | '\\' :: cs => do
    let (_, '\'' :: cs) ← q.readEscape? cs | none
    some (afterSuffix cs)
  | c :: '\'' :: cs => if q.plain c then some (afterSuffix cs) else none
  | _ => none

def afterCharacter? : List Char → Option (List Char)
  | 'b' :: '\'' :: cs => afterOne? .bytes cs
  | '\'' :: cs => afterOne? .text cs
  | _ => none

/--
Recognises digits with at most one point, up to the mark of an exponent. Says whether there is a point,
and the characters from the mark on. A point before a word or another point is not part of a number.
-/
def mantissa? (point : Bool) : List Char → Option (Bool × List Char)
  | [] => some (point, [])
  | c :: cs =>
    if c.isDigit || c = '_' then mantissa? point cs
    else if c = '.' && !point then
      if cs.head?.any fun d => d = '.' || isWordStart d then none else mantissa? true cs
    else some (point, c :: cs)

def afterExponent? (sign digit : Bool) : List Char → Option (List Char)
  | [] => if digit then some [] else none
  | c :: cs =>
    if c.isDigit then afterExponent? sign true cs
    else if c = '_' then afterExponent? sign digit cs
    else if (c = '+' || c = '-') && !digit then
      if sign then none else afterExponent? true digit cs
    else if digit then some (c :: cs) else none

def afterFraction? : List Char → Option (List Char)
  | c :: cs => do
    if !c.isDigit then none
    let (point, rest) ← mantissa? false cs
    match rest with
    | mark :: exponent =>
      if mark = 'e' || mark = 'E' then
        (afterExponent? false false exponent).or (if point then some rest else none)
      else if point then some rest else none
    | [] => if point then some rest else none
  | [] => none

/-- Recognises digits of a base. A digit that is too large ends a number only if it is a letter. -/
def afterDigits? (base : Nat) (empty : Bool) : List Char → Option (List Char)
  | [] => if empty then none else some []
  | c :: cs =>
    match hexDigit? c with
    | some digit =>
      if digit < base then afterDigits? base false cs
      else if c.isDigit || empty then none
      else some (c :: cs)
    | none =>
      if c = '_' then if empty && base = 10 then none else afterDigits? base empty cs
      else if empty then none else some (c :: cs)

def afterInteger? : List Char → Option (List Char)
  | '0' :: 'x' :: cs => afterDigits? 16 true cs
  | '0' :: 'o' :: cs => afterDigits? 8 true cs
  | '0' :: 'b' :: cs => afterDigits? 2 true cs
  | cs => afterDigits? 10 true cs

/-- A number ends where no word goes on. -/
def numberEnd? (cs : List Char) : Option (List Char) :=
  let rest := afterSuffix cs
  if rest.head?.any isWordPart then none else some rest

def afterNumber? (cs : List Char) : Option (List Char) :=
  ((afterFraction? cs).bind numberEnd?).or ((afterInteger? cs).bind numberEnd?)

def afterLiteral? (cs : List Char) : Option (List Char) :=
  (afterQuotation? cs).or ((afterCharacter? cs).or (afterNumber? cs))

structure TextLiteral where
  source : String
  value : String
  deriving DecidableEq, Repr

def TextLiteral.ofSource? (source : String) : Option TextLiteral := do
  let (value, _) ← readText? source.toList
  some ⟨source, String.ofList value⟩

end Archivist.Source
