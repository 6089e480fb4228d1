import Archivist.Toml.Outline
import Archivist.Toml.Scalar

/-!
TOML text into its lines, and these into the outline. Values are checked and dropped.
-/

set_option autoImplicit false

namespace Archivist.Toml

def skipBlank (cs : List Char) : List Char := cs.dropWhile fun c => c = ' ' || c = '\t'

def isPlain (c : Char) : Bool := c = '\t' || (0x20 ≤ c.toNat && c.toNat ≠ 0x7f)

def readCodePoint? (count : Nat) (cs : List Char) : Option (Char × List Char) :=
  let digits := cs.take count
  if digits.length = count && digits.all isHexDigit && (runValue 16 digits).isValidChar then
    some (Char.ofNat (runValue 16 digits), cs.drop count)
  else none

def readEscape? : List Char → Option (Char × List Char)
  | 'b' :: cs => some ('\x08', cs)
  | 't' :: cs => some ('\t', cs)
  | 'n' :: cs => some ('\n', cs)
  | 'f' :: cs => some ('\x0c', cs)
  | 'r' :: cs => some ('\r', cs)
  | '"' :: cs => some ('"', cs)
  | '\\' :: cs => some ('\\', cs)
  | 'u' :: cs => readCodePoint? 4 cs
  | 'U' :: cs => readCodePoint? 8 cs
  | _ => none

def readString? : Nat → List Char → Option (List Char × List Char)
  | 0, _ => none
  | _ + 1, [] => none
  | _ + 1, '"' :: cs => some ([], cs)
  | fuel + 1, '\\' :: cs => do
    let (c, cs) ← readEscape? cs
    let (text, cs) ← readString? fuel cs
    some (c :: text, cs)
  | fuel + 1, c :: cs =>
    if isPlain c then do
      let (text, cs) ← readString? fuel cs
      some (c :: text, cs)
    else none

def readLiteral? : List Char → Option (List Char × List Char)
  | [] => none
  | '\'' :: cs => some ([], cs)
  | c :: cs =>
    if isPlain c then do
      let (text, cs) ← readLiteral? cs
      some (c :: text, cs)
    else none

/-- Three quotes end a string of several lines; up to two before them belong to it. -/
def afterQuotes? (quote : Char) (cs : List Char) : Option (List Char) :=
  let count := (cs.takeWhile (· = quote)).length
  if 3 ≤ count then some (cs.drop (min count 5)) else none

/-- After a backslash at its end, a line goes on at the first character that is no blank. -/
def afterLineEnd? (cs : List Char) : Option (List Char) :=
  match skipBlank cs with
  | '\n' :: cs => some (cs.dropWhile fun c => c = ' ' || c = '\t' || c = '\n')
  | '\r' :: '\n' :: cs =>
    some (cs.dropWhile fun c => c = ' ' || c = '\t' || c = '\n' || c = '\r')
  | _ => none

def afterLines? (quote : Char) : Nat → List Char → Option (List Char)
  | 0, _ => none
  | _ + 1, [] => none
  | fuel + 1, c :: cs =>
    if c = quote then
      match afterQuotes? quote (c :: cs) with
      | some cs => some cs
      | none => afterLines? quote fuel cs
    else if c = '\\' && quote = '"' then
      match afterLineEnd? cs with
      | some cs => afterLines? quote fuel cs
      | none => do afterLines? quote fuel (← readEscape? cs).2
    else if c = '\n' || (c = '\r' && cs.head? = some '\n') || isPlain c then
      afterLines? quote fuel cs
    else none

def isBareKeyChar (c : Char) : Bool := c.isAlphanum || c = '_' || c = '-'

def readSimpleKey? : List Char → Option (String × List Char)
  | '"' :: cs => do
    let (text, cs) ← readString? (cs.length + 1) cs
    some (String.ofList text, cs)
  | '\'' :: cs => do
    let (text, cs) ← readLiteral? cs
    some (String.ofList text, cs)
  | cs =>
    let bare := cs.takeWhile isBareKeyChar
    if bare.isEmpty then none else some (String.ofList bare, cs.drop bare.length)

def readKey? : Nat → List Char → Option (List String × String × List Char)
  | 0, _ => none
  | fuel + 1, cs => do
    let (first, cs) ← readSimpleKey? (skipBlank cs)
    match skipBlank cs with
    | '.' :: cs => do
      let (path, key, cs) ← readKey? fuel cs
      some (first :: path, key, cs)
    | cs => some ([], first, cs)

def afterComment : List Char → List Char
  | '#' :: cs => cs.dropWhile isPlain
  | cs => cs

def afterLine? (cs : List Char) : Option (List Char) :=
  match afterComment (skipBlank cs) with
  | [] => some []
  | '\n' :: cs => some cs
  | '\r' :: '\n' :: cs => some cs
  | _ => none

def skipLines : Nat → List Char → List Char
  | 0, cs => cs
  | fuel + 1, cs =>
    match skipBlank cs with
    | [] => []
    | c :: rest =>
      if c = '#' || c = '\n' || c = '\r' then
        match afterLine? (c :: rest) with
        | some cs => skipLines fuel cs
        | none => c :: rest
      else c :: rest

def endsScalar (c : Char) : Bool :=
  c = ',' || c = ']' || c = '\x7d' || c = '#' || c = ' ' || c = '\t' || c = '\n' || c = '\r'

/-- Recognises a value in one piece. A blank can stand between a day and a time. -/
def afterScalar? (cs : List Char) : Option (List Char) :=
  let piece := cs.takeWhile (!endsScalar ·)
  let rest := cs.drop piece.length
  let longer := piece ++ rest.take 1 ++ (rest.drop 1).takeWhile (!endsScalar ·)
  if afterDate? piece = some [] && rest.head? = some ' ' && isScalar longer then
    some (cs.drop longer.length)
  else if isScalar piece then some rest
  else none

mutual

def readValue? : Nat → List Char → Option (Kept × List Char)
  | 0, _ => none
  | _ + 1, '"' :: '"' :: '"' :: cs => do some (none, ← afterLines? '"' (cs.length + 1) cs)
  | _ + 1, '\'' :: '\'' :: '\'' :: cs => do some (none, ← afterLines? '\'' (cs.length + 1) cs)
  | _ + 1, '"' :: cs => do some (none, (← readString? (cs.length + 1) cs).2)
  | _ + 1, '\'' :: cs => do some (none, (← readLiteral? cs).2)
  | fuel + 1, '[' :: cs => do some (none, ← afterItems? fuel cs)
  | fuel + 1, '\x7b' :: cs =>
    match skipBlank cs with
    | '\x7d' :: cs => some (some [], cs)
    | cs => do
      let (table, cs) ← readPairs? fuel ⟨.heading, []⟩ cs
      some (some table.entries, cs)
  | _ + 1, cs => do some (none, ← afterScalar? cs)

def afterItems? : Nat → List Char → Option (List Char)
  | 0, _ => none
  | fuel + 1, cs =>
    match skipLines cs.length cs with
    | ']' :: cs => some cs
    | cs => do
      let (_, cs) ← readValue? fuel cs
      match skipLines cs.length cs with
      | ',' :: cs => afterItems? fuel cs
      | ']' :: cs => some cs
      | _ => none

def readPairs? : Nat → Table → List Char → Option (Table × List Char)
  | 0, _, _ => none
  | fuel + 1, table, cs => do
    let (path, key, '=' :: cs) ← readKey? (cs.length + 1) cs | none
    let (value, cs) ← readValue? fuel (skipBlank cs)
    let table ← table.assignPath path key value
    match skipBlank cs with
    | ',' :: cs => readPairs? fuel table cs
    | '\x7d' :: cs => some (table, cs)
    | _ => none

end

def readLine? (cs : List Char) : Option (Line × List Char) :=
  match cs with
  | '[' :: '[' :: cs => do
    let (path, key, ']' :: ']' :: cs) ← readKey? (cs.length + 1) cs | none
    some (.element path key, cs)
  | '[' :: cs => do
    let (path, key, ']' :: cs) ← readKey? (cs.length + 1) cs | none
    some (.heading path key, cs)
  | _ => do
    let (path, key, '=' :: cs) ← readKey? (cs.length + 1) cs | none
    let (value, cs) ← readValue? (cs.length + 1) (skipBlank cs)
    some (.entry path key value, cs)

def readLines? : Nat → List Char → Option (List Line)
  | 0, _ => none
  | fuel + 1, cs =>
    match skipLines cs.length cs with
    | [] => some []
    | cs => do
      let (line, cs) ← readLine? cs
      let rest ← readLines? fuel (← afterLine? cs)
      some (line :: rest)

def lines? (text : String) : Option (List Line) :=
  let cs := match text.toList with
    | '\ufeff' :: cs => cs
    | cs => cs
  readLines? (cs.length + 1) cs

def parse? (text : String) : Option Table := do
  let outline ← Outline.ofLines? (← lines? text)
  some outline.root

end Archivist.Toml
