import Archivist.Source.Attribute
import Archivist.Source.Expression
import Archivist.Source.Scan

/-!
Paths, types and bounds in source text. Reading one gives its words, which generated code repeats with
blanks between them: lifetimes stand first among generic arguments there, whatever their order was.
-/

set_option autoImplicit false

namespace Archivist.Source

structure Segment where
  name : String
  arguments : List String := []
  deriving DecidableEq, Repr

structure PathExpr where
  absolute : Bool
  segments : List Segment
  deriving DecidableEq, Repr

namespace PathExpr

def words (p : PathExpr) : List String :=
  (if p.absolute then ["::"] else []) ++
    ["::"].intercalate (p.segments.map fun s => s.name :: s.arguments)

def spaced (p : PathExpr) : String := " ".intercalate p.words

def text (p : PathExpr) : String :=
  (if p.absolute then "::" else "") ++ "::".intercalate (p.segments.map (·.name))

def last? (p : PathExpr) : Option Segment := p.segments.getLast?

def isPlain (p : PathExpr) : Bool := p.segments.all (·.arguments.isEmpty)

def isName (p : PathExpr) : Bool := !p.absolute && p.segments.length = 1

def apply (p : PathExpr) (arguments : List String) : PathExpr :=
  match p.segments.getLast? with
  | some last => { p with segments := p.segments.dropLast ++ [{ last with arguments }] }
  | none => p

end PathExpr

/-- What a type is, as far as a flattened field cares. -/
inductive TypeForm where
  | path (last : String)
  | enclosed (inner : TypeForm)
  | other
  deriving DecidableEq, Repr

structure TypeExpr where
  words : List String
  form : TypeForm
  /-- The path, if the type is one that is not qualified by another type. -/
  path? : Option PathExpr := none
  /-- The words of the type as a bound, if it can be one. -/
  bound? : Option (List String) := none
  deriving DecidableEq, Repr

def TypeExpr.text (t : TypeExpr) : String := " ".intercalate t.words

structure Bound where
  words : List String
  isTrait : Bool
  inner : List String
  deriving DecidableEq, Repr

structure Listed where
  isLifetime : Bool
  words : List String
  comma : Bool
  deriving DecidableEq, Repr

namespace Listed

def withComma (l : Listed) : List String := if l.comma then l.words ++ [","] else l.words

/-- A list in angle brackets, lifetimes first. Every member keeps the comma after it. -/
def angled (members : List Listed) : List String :=
  let lifetimes := members.filter (·.isLifetime)
  let others := members.filter (!·.isLifetime)
  let gap := if !others.isEmpty && lifetimes.getLast?.any (!·.comma) then [","] else []
  "<" :: lifetimes.flatMap withComma ++ gap ++ others.flatMap withComma ++ [">"]

end Listed

def parenthesized (words : List String) : String :=
  Delimiter.parentheses.enclose (" ".intercalate words)

def leadingKeywords : List String := ["super", "self", "Self", "crate"]

def typeStarts : List String :=
  ["`for`", "parentheses", "`fn`", "`unsafe`", "`extern`", "identifier", "`::`", "`<`", "`dyn`",
   "square brackets", "`*`", "`&`", "`!`", "`impl`", "`_`", "lifetime"]

/-- What a type can begin with after `for<…>`. -/
def boundTypeStarts : List String :=
  ["identifier", "`fn`", "`unsafe`", "`extern`", "`super`", "`self`", "`Self`", "`crate`"]

def startsArgumentEnd (tokens : List Token) : Bool :=
  startsWithMarks [','] tokens || startsWithMarks ['>'] tokens

namespace Reading

def peekBound : Reading Bool := do
  return (← peekAnyWord) || (← peekMark "::") || (← peekMark "?") || (← peekLifetime) ||
    (← peekGroup .parentheses)

def binderRest : Nat → Reading (List String)
  | 0 => throw .surplus
  | fuel + 1 => do
    if ← peekMark ">" then return [← mark ">"]
    let attributes ← Attribute.readAll
    let name ← lifetime
    let words := attributes.flatMap Attribute.words ++ [name]
    if ← peekMark ">" then return words ++ [← mark ">"]
    let comma ← mark ","
    return words ++ comma :: (← binderRest fuel)

def binder? : Reading (List String) := do
  if ← peekWord "for" then
    let start := [← word "for", ← mark "<"]
    return start ++ (← binderRest ((← tokens).length + 1))
  else return []

def captureRest : Nat → Reading (List String)
  | 0 => throw .surplus
  | fuel + 1 => do
    if ← peekMark ">" then return [← mark ">"]
    let name ← if ← peekLifetime then lifetime
      else if (← peekIdentifier) || (← peekWord "Self") then anyWord
      else unexpected ["lifetime", "identifier", "`Self`"]
    if ← peekMark ">" then return [name, ← mark ">"]
    let comma ← mark ","
    return name :: comma :: (← captureRest fuel)

/-- Whether a name is followed by generic arguments. In expressions they come only after `::`. -/
def peekAngle (inExpression : Bool) : Reading Bool := do
  let afterColons := (← peekMark "::") && startsWithMarks ['<'] ((← tokens).drop 2)
  return (!inExpression && (← peekMark "<") && !(← peekMark "<=")) || afterColons

def convention? : Reading (List String) := do
  if ← peekWord "extern" then
    let start ← word "extern"
    match ← tokens with
    | .literal text :: _ =>
      if text.toList.head? = some '"' || text.toList.head? = some 'r' then
        advance 1
        return [start, text]
      else return [start]
    | _ => return [start]
  else return []

mutual

/-- Reads a type. `plus` says whether further bounds can follow it. -/
def type : Nat → Bool → Reading TypeExpr
  | 0, _ => throw .surplus
  | fuel + 1, plus => do
    let binder ← binder?
    let startsPath := (← peekIdentifier) || (← peekWords leadingKeywords)
    if !binder.isEmpty && !startsPath && !(← peekWords ["fn", "unsafe", "extern"]) then
      unexpected boundTypeStarts
    if ← peekGroup .parentheses then enclosedType fuel plus
    else if ← peekWords ["fn", "unsafe", "extern"] then
      return { words := binder ++ (← function fuel), form := .other }
    else if startsPath || (← peekMark "::") || (← peekMark "<") then pathType fuel plus binder
    else if ← peekWord "dyn" then
      let start := [← word "dyn"] ++ (← mark? "*")
      return { words := start ++ (← objectBounds fuel plus), form := .other }
    else if ← peekGroup .brackets then
      let words ← within .brackets do
        let item ← type fuel true
        if ← peekMark ";" then
          let semicolon ← mark ";"
          return item.words ++ semicolon :: (← expression (readings fuel) fuel)
        else return item.words
      return { words := [Delimiter.brackets.enclose (" ".intercalate words)], form := .other }
    else if ← peekMark "*" then
      let star ← mark "*"
      let access ← if (← peekWord "const") || (← peekWord "mut") then anyWord
        else unexpected ["`const`", "`mut`"]
      return { words := [star, access] ++ (← type fuel false).words, form := .other }
    else if ← peekMark "&" then
      let start ← mark "&"
      let name ← if ← peekLifetime then pure [← lifetime] else pure []
      let access ← word? "mut"
      return { words := [start] ++ name ++ access ++ (← type fuel false).words, form := .other }
    else if ← peekMark "!" then return { words := [← mark "!"], form := .other }
    else if ← peekWord "impl" then
      let start ← word "impl"
      let bounds ← boundSequence fuel plus true
      if !bounds.2 then throw (.refused "at least one trait must be specified")
      return { words := start :: bounds.1, form := .other }
    else if ← peekWord "_" then return { words := [← anyWord], form := .other }
    else if ← peekLifetime then return { words := ← objectBounds fuel true, form := .other }
    else unexpected typeStarts

def enclosedType : Nat → Bool → Reading TypeExpr
  | 0, _ => throw .surplus
  | fuel + 1, plus => do
    let inside ← within .parentheses do
      if ← isAtEnd then return { words := [], form := .other : TypeExpr }
      else if ← peekLifetime then
        return { words := ← objectBounds fuel true, form := .enclosed .other }
      else if ← peekMark "?" then
        let words := (← traitBound fuel).words
        return { words, form := .other, bound? := some words }
      else
        let first ← type fuel true
        if ← peekMark "," then
          let comma ← mark ","
          return { words := first.words ++ comma :: (← typesRest fuel), form := .other }
        else return { first with form := .enclosed first.form }
    let words := [parenthesized inside.words]
    let isBound := inside.bound?.isSome
    if inside.form = .other && isBound then
      let more ← moreBounds fuel
      return { words := words ++ more, form := .other,
               bound? := if more.isEmpty then inside.bound? else none }
    else if plus && isBound && (← peekMark "+") then
      let first := [parenthesized (inside.bound?.getD [])]
      return { words := first ++ (← moreBounds fuel), form := .other }
    else return { words, form := inside.form }

def moreBounds : Nat → Reading (List String)
  | 0 => throw .surplus
  | fuel + 1 => do
    if ← peekMark "+" then
      let plus ← mark "+"
      let next ← bound fuel false
      return plus :: next.words ++ (← moreBounds fuel)
    else return []

def typesRest : Nat → Reading (List String)
  | 0 => throw .surplus
  | fuel + 1 => do
    if ← isAtEnd then return []
    let item ← type fuel true
    if ← isAtEnd then return item.words
    let comma ← mark ","
    return item.words ++ comma :: (← typesRest fuel)

def pathType : Nat → Bool → List String → Reading TypeExpr
  | 0, _, _ => throw .surplus
  | fuel + 1, plus, binder => do
    if ← peekMark "<" then
      let (words, last) ← qualifiedPath fuel false
      return { words, form := .path last }
    let path ← path fuel false
    let form := (path.last?.map (TypeForm.path ·.name)).getD .other
    if (← peekMark "!") && !(← peekMark "!=") && path.isPlain then
      let bang ← mark "!"
      match ← tokens with
      | .group delimiter inner :: _ =>
        advance 1
        let arguments := delimiter.enclose (Token.listText inner)
        return { words := path.words ++ [bang, arguments], form := .other }
      | _ => unexpected ["delimiter"]
    let first := binder ++ path.words
    if plus && (← peekMark "+") then
      return { words := first ++ (← traitsRest fuel), form := .other }
    else if !binder.isEmpty then
      return { words := first, form := .other, bound? := some first }
    else return { words := first, form, path? := some path, bound? := some first }

/-- Reads bounds after a first one; the last plus may stand alone. -/
def traitsRest : Nat → Reading (List String)
  | 0 => throw .surplus
  | fuel + 1 => do
    if ← peekMark "+" then
      let plus ← mark "+"
      if ← peekBound then
        let next ← bound fuel false
        return plus :: next.words ++ (← traitsRest fuel)
      else return [plus]
    else return []

def boundSequence : Nat → Bool → Bool → Reading (List String × Bool)
  | 0, _, _ => throw .surplus
  | fuel + 1, plus, capture => do
    let first ← bound fuel capture
    if plus && (← peekMark "+") then
      let sign ← mark "+"
      if ← peekBound then
        let (rest, isTrait) ← boundSequence fuel plus capture
        return (first.words ++ sign :: rest, first.isTrait || isTrait)
      else return (first.words ++ [sign], first.isTrait)
    else return (first.words, first.isTrait)

def objectBounds : Nat → Bool → Reading (List String)
  | 0, _ => throw .surplus
  | fuel + 1, plus => do
    let (words, isTrait) ← boundSequence fuel plus false
    if !isTrait then throw (.refused "at least one trait is required for an object type")
    return words

/-- Reads a bound. `capture` says whether it can be `use<…>`. -/
def bound : Nat → Bool → Reading Bound
  | 0, _ => throw .surplus
  | fuel + 1, capture => do
    if ← peekLifetime then
      let words := [← lifetime]
      return ⟨words, false, words⟩
    else if ← peekWord "use" then
      let start := [← word "use", ← mark "<"]
      let words := start ++ (← captureRest ((← tokens).length + 1))
      if !capture then
        throw (.refused "`use<...>` precise capturing syntax is not allowed here")
      return ⟨words, false, words⟩
    else if ← peekGroup .parentheses then
      let inside ← within .parentheses (traitBound fuel)
      return ⟨[parenthesized inside.words], true, inside.words⟩
    else traitBound fuel

def traitBound : Nat → Reading Bound
  | 0 => throw .surplus
  | fuel + 1 => do
    let outer ← binder?
    let modifier ← mark? "?"
    let inner ← if outer.isEmpty && !modifier.isEmpty then binder? else pure []
    let path ← path fuel false
    let takesArguments := path.last?.any (·.arguments.isEmpty)
    let afterColons := (← peekMark "::") && startsWithGroup .parentheses ((← tokens).drop 2)
    let path ← if takesArguments && ((← peekGroup .parentheses) || afterColons) then do
        let _ ← mark? "::"
        let inputs ← within .parentheses (typesRest fuel)
        pure (path.apply (parenthesized inputs :: (← output fuel)))
      else pure path
    if !modifier.isEmpty && !(outer.isEmpty && inner.isEmpty) then
      throw (.refused "`for<...>` binder not allowed with `?` trait polarity modifier")
    let words := modifier ++ outer ++ path.words
    return ⟨words, true, words⟩

def output : Nat → Reading (List String)
  | 0 => throw .surplus
  | fuel + 1 => do
    if ← peekMark "->" then
      let arrow ← mark "->"
      return arrow :: (← type fuel false).words
    else return []

def function : Nat → Reading (List String)
  | 0 => throw .surplus
  | fuel + 1 => do
    let start := (← word? "unsafe") ++ (← convention?) ++ [← word "fn"]
    let inputs ← within .parentheses (inputsRest fuel)
    return start ++ parenthesized inputs :: (← output fuel)

def inputsRest : Nat → Reading (List String)
  | 0 => throw .surplus
  | fuel + 1 => do
    if ← isAtEnd then return []
    let attributes := (← Attribute.readAll).flatMap Attribute.words
    let isNamed := ((← peekIdentifier) || (← peekWord "_")) &&
      startsWithMarks [':'] ((← tokens).drop 1) && !startsWithMarks [':', ':'] ((← tokens).drop 1)
    let name ← if isNamed then pure [← anyWord, ← mark ":"] else pure []
    if ← peekMark "..." then
      let dots ← mark "..."
      return attributes ++ name ++ dots :: (← mark? ",")
    let item ← type fuel true
    let words := attributes ++ name ++ item.words
    if ← isAtEnd then return words
    let comma ← mark ","
    return words ++ comma :: (← inputsRest fuel)

def qualifiedPath : Nat → Bool → Reading (List String × String)
  | 0, _ => throw .surplus
  | fuel + 1, inExpression => do
    let start ← mark "<"
    let self ← type fuel true
    let trait ← if ← peekWord "as" then do
        let as ← word "as"
        pure (as :: (← path fuel false).words)
      else pure []
    let close := [← mark ">", ← mark "::"]
    let path : PathExpr := ⟨false, ← segments fuel inExpression⟩
    let last := (path.last?.map (·.name)).getD ""
    return (start :: self.words ++ trait ++ close ++ path.words, last)

def segments : Nat → Bool → Reading (List Segment)
  | 0, _ => throw .surplus
  | fuel + 1, inExpression => do
    let first ← segment fuel inExpression
    if ← peekMark "::" then
      let _ ← mark "::"
      return first :: (← segments fuel inExpression)
    else return [first]

def path : Nat → Bool → Reading PathExpr
  | 0, _ => throw .surplus
  | fuel + 1, inExpression => do
    let colons ← mark? "::"
    return ⟨!colons.isEmpty, ← pathSegments fuel inExpression⟩

def pathSegments : Nat → Bool → Reading (List Segment)
  | 0, _ => throw .surplus
  | fuel + 1, inExpression => do
    let first ← segment fuel inExpression
    if (← peekMark "::") && !startsWithGroup .parentheses ((← tokens).drop 2) then
      let _ ← mark "::"
      return first :: (← pathSegments fuel inExpression)
    else return [first]

def segment : Nat → Bool → Reading Segment
  | 0, _ => throw .surplus
  | fuel + 1, inExpression => do
    if ← peekWords ["super", "self", "crate", "try"] then return ⟨← anyWord, []⟩
    let name ← if ← peekWord "Self" then anyWord else identifier
    if ← peekAngle inExpression then return ⟨name, ← angled fuel⟩
    else return ⟨name, []⟩

def angled : Nat → Reading (List String)
  | 0 => throw .surplus
  | fuel + 1 => do
    let colons ← mark? "::"
    let _ ← mark "<"
    let members ← argumentsRest fuel
    let _ ← mark ">"
    return colons ++ Listed.angled members

def readings : Nat → TypeReadings
  | 0 => ⟨throw .surplus, throw .surplus, throw .surplus⟩
  | fuel + 1 => {
      type := do return (← type fuel false).words
      path := do
        if ← peekMark "<" then return ((← qualifiedPath fuel true).1, false)
        else
          let path ← path fuel true
          return (path.words, path.isPlain)
      arguments := angled fuel }

def argumentsRest : Nat → Reading (List Listed)
  | 0 => throw .surplus
  | fuel + 1 => do
    if ← peekMark ">" then return []
    let isLifetime := (← peekLifetime) && !startsWithMarks ['+'] (dropToken (← tokens))
    let words ← if isLifetime then pure [← lifetime] else argument fuel
    if ← peekMark ">" then return [⟨isLifetime, words, false⟩]
    let _ ← mark ","
    return ⟨isLifetime, words, true⟩ :: (← argumentsRest fuel)

def argument : Nat → Reading (List String)
  | 0 => throw .surplus
  | fuel + 1 => do
    if (← peekLiteral) || (← peekGroup .braces) then constant fuel
    else
      let first ← type fuel true
      if first.path?.any (·.isName) then
        if ← peekMark "=" then
          let sign ← mark "="
          if (← peekLiteral) || (← peekGroup .braces) then
            return first.words ++ sign :: (← constant fuel)
          else return first.words ++ sign :: (← type fuel true).words
        else if ← peekMark ":" then
          let colon ← mark ":"
          return first.words ++ colon :: (← boundsUntil fuel startsArgumentEnd)
        else return first.words
      else return first.words

def constant : Nat → Reading (List String)
  | 0 => throw .surplus
  | fuel + 1 => do
    if ← peekGroup .braces then enclosedWords .braces (statements (readings fuel) fuel)
    else constantWord

def boundsUntil : Nat → (List Token → Bool) → Reading (List String)
  | 0, _ => throw .surplus
  | fuel + 1, stop => do
    if stop (← tokens) then return []
    let first ← bound fuel false
    if ← peekMark "+" then
      let plus ← mark "+"
      return first.words ++ plus :: (← boundsUntil fuel stop)
    else return first.words

end

def budget (tokens : List Token) : Nat := 16 * (Token.listWeight tokens + 1)

end Reading

def PathExpr.parse (text : String) : Except Fault PathExpr :=
  match tokens? text with
  | some tokens => Reading.all (Reading.path (Reading.budget tokens) false) tokens
  | none => .error .scan

end Archivist.Source
