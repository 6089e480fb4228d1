import Archivist.Source.Type

/-!
The parameters of a generic type and its `where` clause. A parameter has two texts: as an implementation
declares it, without its default, and as it is given as an argument.
-/

set_option autoImplicit false

namespace Archivist.Source

structure Parameter where
  isLifetime : Bool
  declared : List String
  used : String
  /-- Whether a comma follows it. -/
  comma : Bool
  deriving DecidableEq, Repr

namespace Parameter

def declaredWords (parameters : List Parameter) : List String :=
  if parameters.isEmpty then []
  else Listed.angled (parameters.map fun p => ⟨p.isLifetime, p.declared, p.comma⟩)

def usedWords (parameters : List Parameter) : List String :=
  if parameters.isEmpty then []
  else Listed.angled (parameters.map fun p => ⟨p.isLifetime, [p.used], p.comma⟩)

end Parameter

structure Predicate where
  words : List String
  /-- Whether a comma follows it. -/
  comma : Bool
  deriving DecidableEq, Repr

def startsParameterEnd (tokens : List Token) : Bool :=
  startsArgumentEnd tokens || startsWithMarks ['='] tokens

def startsPredicateEnd (tokens : List Token) : Bool :=
  tokens.isEmpty || startsWithGroup .braces tokens || startsWithMarks [','] tokens ||
    startsWithMarks [';'] tokens || startsWithMarks ['='] tokens ||
    (startsWithMarks [':'] tokens && !startsWithMarks [':', ':'] tokens)

namespace Reading

def lifetimesUntil (stop : List Token → Bool) : Nat → Reading (List String)
  | 0 => throw .surplus
  | fuel + 1 => do
    if stop (← tokens) then return []
    let first ← lifetime
    if ← peekMark "+" then
      let plus ← mark "+"
      return first :: plus :: (← lifetimesUntil stop fuel)
    else return [first]

/-- A colon before bounds goes if there are none. -/
def constrained (name : List String) (bounds : List String) : List String :=
  if bounds.isEmpty then name else name ++ ":" :: bounds

def parameter (fuel : Nat) : Reading Parameter := do
  let attributes := (← Attribute.readAll).flatMap Attribute.words
  if ← peekLifetime then
    let name ← lifetime
    let bounds ← if ← peekMark ":" then do
        let _ ← mark ":"
        lifetimesUntil (fun rest => rest.isEmpty || startsArgumentEnd rest) fuel
      else pure []
    return ⟨true, constrained (attributes ++ [name]) bounds, name, false⟩
  else if ← peekIdentifier then
    let name ← identifier
    let bounds ← if ← peekMark ":" then do
        let _ ← mark ":"
        boundsUntil fuel startsParameterEnd
      else pure []
    if ← peekMark "=" then
      let _ ← mark "="
      let _ ← type fuel true
    return ⟨false, constrained (attributes ++ [name]) bounds, name, false⟩
  else if ← peekWord "const" then
    let start ← word "const"
    let name ← identifier
    let colon ← mark ":"
    let type ← type fuel true
    if ← peekMark "=" then
      let _ ← mark "="
      let _ ← constant fuel
    return ⟨false, attributes ++ [start, name, colon] ++ type.words, name, false⟩
  else if ← peekWord "_" then
    let name ← anyWord
    return ⟨false, attributes ++ [name], name, false⟩
  else unexpected ["lifetime", "identifier", "`const`"]

def parametersRest (budget : Nat) : Nat → Reading (List Parameter)
  | 0 => throw .surplus
  | fuel + 1 => do
    if ← peekMark ">" then return []
    let first ← parameter budget
    if ← peekMark ">" then return [first]
    let _ ← mark ","
    return { first with comma := true } :: (← parametersRest budget fuel)

def parameters (fuel : Nat) : Reading (List Parameter) := do
  if ← peekMark "<" then
    let _ ← mark "<"
    let parameters ← parametersRest fuel fuel
    let _ ← mark ">"
    return parameters
  else return []

def predicate (fuel : Nat) : Reading (List String) := do
  if (← peekLifetime) && startsWithMarks [':'] (dropToken (← tokens)) then
    let name ← lifetime
    let colon ← mark ":"
    return name :: colon :: (← lifetimesUntil startsLifetimeEnd fuel)
  else
    let binder ← binder?
    let type ← type fuel true
    let colon ← mark ":"
    return binder ++ type.words ++ colon :: (← boundsUntil fuel startsPredicateEnd)
where
  startsLifetimeEnd (rest : List Token) : Bool :=
    startsPredicateEnd rest || startsWithMarks [':'] rest

def predicatesRest (budget : Nat) : Nat → Reading (List Predicate)
  | 0 => throw .surplus
  | fuel + 1 => do
    if startsPredicateEnd (← tokens) then return []
    let words ← predicate budget
    if ← peekMark "," then
      let _ ← mark ","
      return ⟨words, true⟩ :: (← predicatesRest budget fuel)
    else return [⟨words, false⟩]

def conditions (fuel : Nat) : Reading (List Predicate) := do
  let _ ← word "where"
  predicatesRest fuel fuel

end Reading

end Archivist.Source
