import Archivist.Source.Token

/-!
Reading tokens from the left, and what can be wrong with them. A group that is left before its end is
noted and does not stop the reading; it is a fault once everything else has been read.
-/

set_option autoImplicit false

namespace Archivist.Source

inductive Fault where
  /-- The text does not fall into tokens. -/
  | scan
  /-- None of the alternatives stands here. `atEnd` says whether nothing does. -/
  | expected (alternatives : List String) (atEnd : Bool)
  | keyword (word : String)
  /-- Something follows what should be all. -/
  | surplus
  /-- Something follows what should be all of a group. -/
  | unclosed (delimiter : Delimiter)
  | refused (reason : String)
  deriving DecidableEq, Repr

namespace Fault

def alternativesText : List String → String
  | [] => "unexpected token"
  | [a] => "expected " ++ a
  | [a, b] => "expected " ++ a ++ " or " ++ b
  | alternatives => "expected one of: " ++ ", ".intercalate alternatives

def message : Fault → String
  | .scan => "cannot parse string into token stream"
  | .expected [] true => "unexpected end of input"
  | .expected alternatives true => "unexpected end of input, " ++ alternativesText alternatives
  | .expected alternatives false => alternativesText alternatives
  | .keyword word => s!"expected identifier, found keyword `{word}`"
  | .surplus => "unexpected token"
  | .unclosed delimiter => s!"unexpected token, expected `{delimiter.closing}`"
  | .refused reason => reason

end Fault

/-- The tokens still to be read, and the first group that has been left before its end. -/
structure Cursor where
  tokens : List Token
  left? : Option Delimiter := none

/-- The first group that has been left before its end, when a group is left here. -/
def Cursor.leave (delimiter : Delimiter) (c : Cursor) : Option Delimiter :=
  c.left?.or (if c.tokens.isEmpty then none else some delimiter)

abbrev Reading := StateT Cursor (Except Fault)

def keywords : List String :=
  ["_", "abstract", "as", "async", "await", "become", "box", "break", "const", "continue", "crate",
   "do", "dyn", "else", "enum", "extern", "false", "final", "fn", "for", "if", "impl", "in", "let",
   "loop", "macro", "match", "mod", "move", "mut", "override", "priv", "pub", "ref", "return", "Self",
   "self", "static", "struct", "super", "trait", "true", "try", "type", "typeof", "unsafe", "unsized",
   "use", "virtual", "where", "while", "yield"]

def ticked (text : String) : String := "`" ++ text ++ "`"

def startsWithMarks : List Char → List Token → Bool
  | [], _ => true
  | [c], .mark d _ :: _ => c = d
  | c :: cs, .mark d joined :: rest => c = d && joined && startsWithMarks cs rest
  | _, _ => false

def startsWithLifetime : List Token → Bool
  | .mark '\'' _ :: .word _ :: _ => true
  | _ => false

/-- Drops one token, or a lifetime, which is two. -/
def dropToken : List Token → List Token
  | .mark '\'' _ :: .word _ :: rest => rest
  | _ :: rest => rest
  | [] => []

def startsWithGroup (delimiter : Delimiter) : List Token → Bool
  | .group d _ :: _ => d = delimiter
  | _ => false

/-- Literals, truth values and negative numbers. -/
def startsWithLiteral : List Token → Bool
  | .literal _ :: _ => true
  | .word w :: _ => w = "true" || w = "false"
  | .mark '-' _ :: .literal text :: _ => text.toList.head?.any Char.isDigit
  | _ => false

namespace Reading

variable {α : Type}

def tokens : Reading (List Token) := return (← get).tokens

def isAtEnd : Reading Bool := return (← tokens).isEmpty

def peekMark (text : String) : Reading Bool := return startsWithMarks text.toList (← tokens)

def peekWord (text : String) : Reading Bool := do
  match ← tokens with
  | .word w :: _ => return w = text
  | _ => return false

def peekWords (texts : List String) : Reading Bool := do
  match ← tokens with
  | .word w :: _ => return w ∈ texts
  | _ => return false

def peekAnyWord : Reading Bool := do
  match ← tokens with
  | .word _ :: _ => return true
  | _ => return false

def peekIdentifier : Reading Bool := do
  match ← tokens with
  | .word w :: _ => return w ∉ keywords
  | _ => return false

def peekLifetime : Reading Bool := return startsWithLifetime (← tokens)

def peekGroup (delimiter : Delimiter) : Reading Bool :=
  return startsWithGroup delimiter (← tokens)

def peekLiteral : Reading Bool := return startsWithLiteral (← tokens)

def advance (count : Nat) : Reading Unit :=
  modify fun s => { s with tokens := s.tokens.drop count }

def unexpected (alternatives : List String) : Reading α := do
  throw (.expected alternatives (← isAtEnd))

def mark (text : String) : Reading String := do
  if ← peekMark text then
    advance text.length
    return text
  else throw (.expected [ticked text] false)

def mark? (text : String) : Reading (List String) := do
  if ← peekMark text then return [← mark text] else return []

def word (text : String) : Reading String := do
  if ← peekWord text then
    advance 1
    return text
  else unexpected [ticked text]

def word? (text : String) : Reading (List String) := do
  if ← peekWord text then return [← word text] else return []

def anyWord : Reading String := do
  match ← tokens with
  | .word w :: _ =>
    advance 1
    return w
  | _ => unexpected ["identifier"]

def identifier : Reading String := do
  match ← tokens with
  | .word w :: _ => if w ∈ keywords then throw (.keyword w) else anyWord
  | _ => unexpected ["identifier"]

def lifetime : Reading String := do
  match ← tokens with
  | .mark '\'' _ :: .word w :: _ =>
    advance 2
    return "\'" ++ w
  | _ => unexpected ["lifetime"]

def literal : Reading (List String) := do
  if ← peekMark "-" then
    let minus ← mark "-"
    return minus :: (← literalText)
  else literalText
where
  literalText : Reading (List String) := do
    match ← tokens with
    | .literal text :: _ | .word text :: _ =>
      advance 1
      return [text]
    | _ => unexpected ["literal"]

def group (delimiter : Delimiter) : Reading (List Token) := do
  match ← tokens with
  | .group d inner :: _ =>
    if d = delimiter then
      advance 1
      return inner
    else unexpected [delimiter.title]
  | _ => unexpected [delimiter.title]

def within (delimiter : Delimiter) (inside : Reading α) : Reading α := do
  let inner ← group delimiter
  let outer ← get
  set { outer with tokens := inner }
  let result ← inside
  let left ← get
  set { tokens := outer.tokens, left? := left.leave delimiter : Cursor }
  return result

def all (reading : Reading α) (tokens : List Token) : Except Fault α := do
  let (result, rest) ← reading ⟨tokens, none⟩
  if let some delimiter := rest.left? then throw (.unclosed delimiter)
  if !rest.tokens.isEmpty then throw .surplus
  return result

end Reading

end Archivist.Source
