import Archivist.Source.Declaration

/-!
The items of an attribute: words with arguments, and commas between them. What is wrong with an item is
part of it, since it counts only when the items before it are in order.
-/

set_option autoImplicit false

namespace Archivist.Derive

open Source (Attribute Delimiter Fault PathExpr Reading TextLiteral Token)

inductive Key where
  | word (text : String)
  | path
  | fault (fault : Fault)
  deriving DecidableEq, Repr

inductive Argument where
  | none
  | text (literal : TextLiteral)
  /-- `=` without a text, and whether nothing at all follows. -/
  | value (missing : Bool)
  /-- `(dyn path)`. `left?` is the group that goes on after what it should hold. -/
  | dynamic (path : PathExpr) (left? : Option Delimiter)
  | group (fault : Fault)
  | other
  deriving DecidableEq, Repr

/-- An item of an attribute: what stands between two commas. -/
structure Item where
  key : Key
  argument : Argument
  isFollowed : Bool
  isLast : Bool
  deriving DecidableEq, Repr

namespace Item

def keyRest : Nat → Reading (List String)
  | 0 => throw .surplus
  | fuel + 1 => do
    if ← Reading.peekMark "::" then
      let _ ← Reading.mark "::"
      return (← Reading.anyWord) :: (← keyRest fuel)
    else return []

def readKey : Reading Key := do
  let colons ← Reading.mark? "::"
  if ← Reading.peekAnyWord then
    let first ← Reading.anyWord
    let rest ← keyRest ((← Reading.tokens).length + 1)
    return if colons.isEmpty && rest.isEmpty then .word first else .path
  else if ← Reading.peekLiteral then
    throw (.refused "unexpected literal in nested attribute, expected ident")
  else throw (.refused "unexpected token in nested attribute, expected ident")

def faultAmid : Fault → Fault
  | .expected alternatives _ => .expected alternatives false
  | fault => fault

def dynamicPath (fuel : Nat) : Reading PathExpr := do
  let _ ← Reading.word "dyn"
  Reading.path fuel false

def readGroup (inner : List Token) : Argument :=
  match dynamicPath (Reading.budget inner) ⟨inner, none⟩ with
  | .ok (path, rest) => .dynamic path (rest.leave .parentheses)
  | .error fault => .group fault

def readArgument : List Token → Argument × List Token
  | [] => (.none, [])
  | .mark '=' _ :: .literal source :: rest =>
    match TextLiteral.ofSource? source with
    | some literal => (.text literal, rest)
    | none => (.value false, rest)
  | .mark '=' _ :: rest => (.value rest.isEmpty, rest)
  | .group .parentheses inner :: rest => (readGroup inner, rest)
  | rest => (.other, rest)

def ofTokens (isLast : Bool) (tokens : List Token) : Item :=
  match readKey ⟨tokens, none⟩ with
  | .ok (key, rest) =>
    let (argument, rest) := readArgument rest.tokens
    ⟨key, argument, !rest.isEmpty, isLast⟩
  | .error fault => ⟨.fault (if isLast then fault else faultAmid fault), .none, false, isLast⟩

def splitCommas : List Token → List (List Token)
  | [] => [[]]
  | token :: rest =>
    match token, splitCommas rest with
    | .mark ',' _, parts => [] :: parts
    | token, part :: parts => (token :: part) :: parts
    | token, [] => [[token]]

/-- The items of the parts between commas. The last comma can end the list. -/
def ofParts : List (List Token) → List Item
  | [] | [[]] => []
  | [part] => [ofTokens true part]
  | part :: parts => ofTokens false part :: ofParts parts

def form (a : Attribute) : String := "#[" ++ "::".intercalate a.path ++ "(...)]"

def ofAttribute (a : Attribute) : Except Fault (List Item) :=
  match a.arguments with
  | .list tokens => .ok (ofParts (splitCommas tokens))
  | .none =>
    .error (.refused ("expected attribute arguments in parentheses: " ++ form a))
  | .value => .error (.refused ("expected parentheses: " ++ form a))

end Item

end Archivist.Derive
