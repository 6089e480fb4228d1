import Archivist.Source.Literal
import Archivist.Source.Token
import Archivist.Text.Quoted

/-!
Source text into tokens. Blanks and comments are passed over, but a comment that documents what follows
it is an attribute.
-/

set_option autoImplicit false

namespace Archivist.Source

def blankRanges : List (Nat × Nat) :=
  [(0x9, 0xd), (0x20, 0x20), (0x85, 0x85), (0xa0, 0xa0), (0x1680, 0x1680), (0x2000, 0x200a),
   (0x200e, 0x200f), (0x2028, 0x2029), (0x202f, 0x202f), (0x205f, 0x205f), (0x3000, 0x3000)]

def isBlank (c : Char) : Bool :=
  blankRanges.any fun (first, last) => first ≤ c.toNat && c.toNat ≤ last

def splitLine : List Char → List Char × List Char
  | [] => ([], [])
  | '\n' :: cs => ([], '\n' :: cs)
  | '\r' :: '\n' :: cs => ([], '\n' :: cs)
  | c :: cs =>
    let (line, rest) := splitLine cs
    (c :: line, rest)

/-- Splits off what stands before the end of a comment. Comments nest. -/
def splitComment? (depth : Nat) : List Char → Option (List Char × List Char)
  | [] => none
  | '/' :: '*' :: cs => do
    let (inside, cs) ← splitComment? (depth + 1) cs
    some ('/' :: '*' :: inside, cs)
  | '*' :: '/' :: cs =>
    match depth with
    | 0 => some ([], cs)
    | depth + 1 => do
      let (inside, cs) ← splitComment? depth cs
      some ('*' :: '/' :: inside, cs)
  | c :: cs => do
    let (inside, cs) ← splitComment? depth cs
    some (c :: inside, cs)

/-- Drops blanks and the comments that document nothing. -/
def skipBlank : Nat → List Char → List Char
  | 0, cs => cs
  | _ + 1, [] => []
  | fuel + 1, '/' :: '/' :: cs =>
    match cs with
    | '/' :: '/' :: _ => skipBlank fuel (splitLine cs).2
    | '/' :: _ | '!' :: _ => '/' :: '/' :: cs
    | _ => skipBlank fuel (splitLine cs).2
  | fuel + 1, '/' :: '*' :: cs =>
    let skipped := match splitComment? 0 cs with
      | some (_, rest) => skipBlank fuel rest
      | none => '/' :: '*' :: cs
    match cs with
    | '*' :: '/' :: _ | '*' :: '*' :: _ => skipped
    | '*' :: _ | '!' :: _ => '/' :: '*' :: cs
    | _ => skipped
  | fuel + 1, c :: cs => if isBlank c then skipBlank fuel cs else c :: cs

/-- A carriage return that ends no line. -/
def hasBareReturn : List Char → Bool
  | [] => false
  | '\r' :: '\n' :: cs => hasBareReturn cs
  | c :: cs => c = '\r' || hasBareReturn cs

def documentation (inner : Bool) (text : List Char) : List Token :=
  .mark '#' false :: (if inner then [.mark '!' false] else []) ++
    [.group .brackets
      [.word "doc", .mark '=' false, .literal (Text.quoted (String.ofList text))]]

def documentation? (cs : List Char) : Option (List Token × List Char) := do
  let (inner, text, rest) ← match cs with
    | '/' :: '/' :: '!' :: cs => some (true, splitLine cs)
    | '/' :: '/' :: '/' :: cs => some (false, splitLine cs)
    | '/' :: '*' :: '!' :: cs => (splitComment? 0 cs).map (true, ·)
    | '/' :: '*' :: '*' :: cs => (splitComment? 0 cs).map (false, ·)
    | _ => none
  if hasBareReturn text then none else some (documentation inner text, rest)

def fixedKeywords : List String := ["_", "super", "self", "Self", "crate"]

def between (start rest : List Char) : String :=
  String.ofList (start.take (start.length - rest.length))

def afterAnyWord? : List Char → Option (List Char)
  | 'r' :: '#' :: cs => do
    let rest ← afterWord? cs
    if between cs rest ∈ fixedKeywords then none else some rest
  | cs => afterWord? cs

/-- What begins like a word, but can only be a literal. -/
def quotationStarts : List String :=
  ["r\"", "r#\"", "r##", "b\"", "b\'", "br\"", "br#", "c\"", "cr\"", "cr#"]

def isMark (c : Char) : Bool := "~!@#$%^&*-=+|;:,<.>/?\'".toList.contains c

def startsMark : List Char → Bool
  | '/' :: c :: _ => c ≠ '/' && c ≠ '*'
  | c :: _ => isMark c
  | [] => false

/-- Splits a mark off. An apostrophe is one only if it makes a lifetime of the word after it. -/
def mark? : List Char → Option (Token × List Char)
  | '\'' :: cs => do
    let rest ← afterAnyWord? cs
    let raw := ['r', '#'].isPrefixOf cs
    if rest.head? = some '\'' || (rest.head? = some '#' && !raw) then none
    else some (.mark '\'' true, cs)
  | c :: cs => if startsMark (c :: cs) then some (.mark c (startsMark cs), cs) else none
  | [] => none

def word? (cs : List Char) : Option (Token × List Char) := do
  if quotationStarts.any (·.toList.isPrefixOf cs) then none
  let rest ← afterAnyWord? cs
  some (.word (between cs rest), rest)

def leaf? (cs : List Char) : Option (Token × List Char) :=
  match afterLiteral? cs with
  | some rest => some (.literal (between cs rest), rest)
  | none => (mark? cs).or (word? cs)

def scan : Nat → List Char → Option (List Token × List Char)
  | 0, _ => none
  | fuel + 1, cs =>
    match skipBlank cs.length cs with
    | [] => some ([], [])
    | c :: cs =>
      match Delimiter.closed? c, Delimiter.opened? c with
      | some _, _ => some ([], c :: cs)
      | none, some delimiter => do
        let (inner, last :: cs) ← scan fuel cs | none
        if last = delimiter.closing then
          let (tokens, cs) ← scan fuel cs
          some (.group delimiter inner :: tokens, cs)
        else none
      | none, none => do
        let (first, cs) ← (documentation? (c :: cs)).or
          ((leaf? (c :: cs)).map fun (token, cs) => ([token], cs))
        let (tokens, cs) ← scan fuel cs
        some (first ++ tokens, cs)

def tokens? (text : String) : Option (List Token) :=
  let cs := match text.toList with
    | '\ufeff' :: cs => cs
    | cs => cs
  match scan (cs.length + 1) cs with
  | some (tokens, []) => some tokens
  | _ => none

end Archivist.Source
