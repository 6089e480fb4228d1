import Archivist.Source.Generics

/-!
Declarations of types: structures, enumerations and unions, with their attributes, parameters and
conditions.
-/

set_option autoImplicit false

namespace Archivist.Source

structure FieldDeclaration where
  attributes : List Attribute
  name : String
  type : TypeExpr

inductive Shape where
  | named (fields : List FieldDeclaration)
  | unit
  | tuple
  | enumeration
  | union

structure TypeDeclaration where
  attributes : List Attribute
  name : String
  parameters : List Parameter
  conditions : List Predicate
  shape : Shape

namespace Reading

variable {α : Type}

def visibility : Reading Unit := do
  if ← peekWord "pub" then
    let _ ← word "pub"
    match ← tokens with
    | .group .parentheses [.word scope] :: _ =>
      if scope ∈ ["crate", "self", "super"] then advance 1
    | .group .parentheses (.word "in" :: _) :: _ =>
      within .parentheses do
        let _ ← word "in"
        let _ ← mark? "::"
        let _ ← Attribute.readSegments ((← tokens).length + 1)
    | _ => return

def separated (item : Reading α) : Nat → Reading (List α)
  | 0 => throw .surplus
  | fuel + 1 => do
    if ← isAtEnd then return []
    let first ← item
    if ← isAtEnd then return [first]
    let _ ← mark ","
    return first :: (← separated item fuel)

def namedField (fuel : Nat) : Reading FieldDeclaration := do
  let attributes ← Attribute.readAll
  visibility
  let name ← if ← peekWord "_" then anyWord else identifier
  let _ ← mark ":"
  return ⟨attributes, name, ← type fuel true⟩

def unnamedField (fuel : Nat) : Reading Unit := do
  let _ ← Attribute.readAll
  visibility
  let _ ← type fuel true

def namedFields (fuel : Nat) : Reading (List FieldDeclaration) :=
  within .braces (separated (namedField fuel) fuel)

def unnamedFields (fuel : Nat) : Reading Unit :=
  within .parentheses do
    let _ ← separated (unnamedField fuel) fuel

def expressionItem : Reading Unit := do
  let rest ← tokens
  let count := (rest.takeWhile fun token => !startsWithMarks [','] [token]).length
  if count = 0 then unexpected ["an expression"]
  advance count

def variant (fuel : Nat) : Reading Unit := do
  let _ ← Attribute.readAll
  visibility
  let _ ← identifier
  if ← peekGroup .braces then
    let _ ← namedFields fuel
  else if ← peekGroup .parentheses then unnamedFields fuel
  if ← peekMark "=" then
    let _ ← mark "="
    expressionItem

def conditions? (fuel : Nat) : Reading (List Predicate) := do
  if ← peekWord "where" then conditions fuel else return []

def structureBody (fuel : Nat) : Reading (List Predicate × Shape) := do
  if ← peekWord "where" then
    let given ← conditions fuel
    if ← peekGroup .braces then return (given, .named (← namedFields fuel))
    else if ← peekMark ";" then
      let _ ← mark ";"
      return (given, .unit)
    else unexpected ["curly braces", "`;`"]
  else if ← peekGroup .parentheses then
    unnamedFields fuel
    let hasConditions ← peekWord "where"
    let given ← conditions? fuel
    if ← peekMark ";" then
      let _ ← mark ";"
      return (given, .tuple)
    else unexpected (if hasConditions then ["`;`"] else ["`where`", "`;`"])
  else if ← peekGroup .braces then return ([], .named (← namedFields fuel))
  else if ← peekMark ";" then
    let _ ← mark ";"
    return ([], .unit)
  else unexpected ["`where`", "parentheses", "curly braces", "`;`"]

def enumerationBody (fuel : Nat) : Reading (List Predicate × Shape) := do
  let given ← conditions? fuel
  let _ ← within .braces (separated (variant fuel) fuel)
  return (given, .enumeration)

def unionBody (fuel : Nat) : Reading (List Predicate × Shape) := do
  let given ← conditions? fuel
  let _ ← namedFields fuel
  return (given, .union)

def declaration (fuel : Nat) : Reading TypeDeclaration := do
  let attributes ← Attribute.readAll
  visibility
  let body ← if ← peekWord "struct" then pure structureBody
    else if ← peekWord "enum" then pure enumerationBody
    else if ← peekWord "union" then pure unionBody
    else unexpected ["`struct`", "`enum`", "`union`"]
  let _ ← anyWord
  let name ← identifier
  let parameters ← parameters fuel
  let (conditions, shape) ← body fuel
  return { attributes, name, parameters, conditions, shape }

end Reading

def TypeDeclaration.parse (text : String) : Except Fault TypeDeclaration :=
  match tokens? text with
  | some tokens => Reading.all (Reading.declaration (Reading.budget tokens)) tokens
  | none => .error .scan

end Archivist.Source
