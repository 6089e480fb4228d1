import Archivist.Source.Reading

/-!
Attributes: `#[name(…)]`, `#[name = …]` and `#[name]` before what they say something about.
-/

set_option autoImplicit false

namespace Archivist.Source

inductive Arguments where
  | none
  | value
  | list (tokens : List Token)

structure Attribute where
  absolute : Bool
  path : List String
  arguments : Arguments
  text : String

namespace Attribute

def name? (a : Attribute) : Option String :=
  match a.absolute, a.path with
  | false, [name] => some name
  | _, _ => none

def pathKeywords : List String := ["super", "self", "Self", "crate"]

def readSegments : Nat → Reading (List String)
  | 0 => throw .surplus
  | fuel + 1 => do
    if (← Reading.peekIdentifier) || (← Reading.peekWords pathKeywords) then
      let segment ← Reading.anyWord
      if ← Reading.peekMark "::" then
        let _ ← Reading.mark "::"
        if (← Reading.peekIdentifier) || (← Reading.peekWords pathKeywords) then
          return segment :: (← readSegments fuel)
        else Reading.unexpected ["path segment after `::`"]
      else return [segment]
    else return [← Reading.identifier]

def readArguments : Reading Arguments := do
  match ← Reading.tokens with
  | .group _ inner :: _ =>
    Reading.advance 1
    return .list inner
  | tokens =>
    if ← Reading.peekMark "=" then
      let _ ← Reading.mark "="
      if ← Reading.isAtEnd then Reading.unexpected ["an expression"]
      Reading.advance tokens.length
      return .value
    else return .none

def read : Reading Attribute := do
  let _ ← Reading.mark "#"
  let text := match ← Reading.tokens with
    | token :: _ => token.text
    | [] => ""
  Reading.within .brackets do
    let colons ← Reading.mark? "::"
    let path ← readSegments ((← Reading.tokens).length + 1)
    return ⟨!colons.isEmpty, path, ← readArguments, text⟩

def words (a : Attribute) : List String := ["#", a.text]

def readSome : Nat → Reading (List Attribute)
  | 0 => return []
  | fuel + 1 => do
    if ← Reading.peekMark "#" then return (← read) :: (← readSome fuel) else return []

def readAll : Reading (List Attribute) := do readSome (← Reading.tokens).length

end Attribute

end Archivist.Source
