import Archivist.Source.Reading

/-!
Expressions inside types, such as the length of an array. They are read for their words, and to know
where they end.
-/

set_option autoImplicit false

namespace Archivist.Source

def operators : List String :=
  ["<<=", ">>=", "...", "..=", "&&", "||", "<<", ">>", "+=", "-=", "*=", "/=", "%=", "^=", "&=", "|=",
   "==", "!=", ">=", "<=", "->", "=>", "::", ".."]

def binaryOperators : List String :=
  operators.filter (· ∉ ["...", "->", "=>", "::", "..=", ".."]) ++
    ["+", "-", "*", "/", "%", "^", "&", "|", "=", ">", "<"]

namespace Token

/-- The words of tokens: marks are grouped to operators, a group is one word. -/
def wordsWithin : Nat → List Token → List String
  | 0, _ => []
  | _ + 1, [] => []
  | fuel + 1, .mark '\'' _ :: .word w :: rest => ("\'" ++ w) :: wordsWithin fuel rest
  | fuel + 1, .mark c joined :: rest =>
    match operators.find? (startsWithMarks ·.toList (.mark c joined :: rest)) with
    | some operator => operator :: wordsWithin fuel (rest.drop (operator.length - 1))
    | none => String.singleton c :: wordsWithin fuel rest
  | fuel + 1, .group delimiter inner :: rest =>
    delimiter.enclose (" ".intercalate (wordsWithin fuel inner)) :: wordsWithin fuel rest
  | fuel + 1, .word w :: rest => w :: wordsWithin fuel rest
  | fuel + 1, .literal text :: rest => text :: wordsWithin fuel rest

def words (tokens : List Token) : List String := wordsWithin (listWeight tokens + 1) tokens

end Token

structure TypeReadings where
  type : Reading (List String)
  /-- A path, and whether it is plain: neither qualified nor with generic arguments. -/
  path : Reading (List String × Bool)
  arguments : Reading (List String)

/-- Words that begin an expression which ends with a block. -/
def blockWords : List String :=
  ["if", "match", "while", "for", "loop", "unsafe", "const", "async", "try"]

/-- Words that begin a statement which is no expression. -/
def itemWords : List String :=
  ["fn", "struct", "enum", "static", "use", "impl", "trait", "mod", "type", "extern", "pub", "macro"]

namespace Reading

variable {α : Type}

def enclosedWords (delimiter : Delimiter) (inside : Reading (List String)) :
    Reading (List String) := do
  return [delimiter.enclose (" ".intercalate (← within delimiter inside))]

def wordsUntil (stop : Token → Bool) : Reading (List String) := do
  let passed := (← tokens).takeWhile (!stop ·)
  advance passed.length
  return Token.words passed

def throughBlock : Reading (List String) := do
  let head ← wordsUntil fun
    | .group .braces _ => true
    | _ => false
  let block ← group .braces
  return head ++ [Delimiter.braces.enclose (" ".intercalate (Token.words block))]

def blockExpression : Nat → Reading (List String)
  | 0 => throw .surplus
  | fuel + 1 => do
    let words ← throughBlock
    if ← peekWord "else" then return words ++ (← blockExpression fuel) else return words

def binaryOperator? : Reading (Option String) := do
  if (← peekMark "=>") || (← peekMark "->") then return none
  let rest ← tokens
  return binaryOperators.find? (startsWithMarks ·.toList rest)

def peekExpression : Reading Bool := do
  let rest ← tokens
  let marks := ["-", "!", "*", "&", "|", "::", "<", ".."]
  return startsWithLiteral rest || startsWithLifetime rest || (← peekAnyWord) ||
    Delimiter.all.any (startsWithGroup · rest) || marks.any (startsWithMarks ·.toList rest)

def constantWord : Reading (List String) := do
  if ← peekLiteral then literal
  else if ← peekIdentifier then return [← identifier]
  else unexpected []

mutual

def expression (r : TypeReadings) : Nat → Reading (List String)
  | 0 => throw .surplus
  | fuel + 1 => do
    if (← peekMark "..=") || (← peekMark "..") then rangeEnd r fuel
    else
      let first ← operand r fuel
      return first ++ (← operations r fuel)

def rangeEnd (r : TypeReadings) : Nat → Reading (List String)
  | 0 => throw .surplus
  | fuel + 1 => do
    let dots ← if ← peekMark "..=" then mark "..=" else mark ".."
    if ← peekExpression then
      let last ← operand r fuel
      return dots :: last ++ (← operations r fuel)
    else return [dots]

def operations (r : TypeReadings) : Nat → Reading (List String)
  | 0 => throw .surplus
  | fuel + 1 => do
    if ← peekWord "as" then
      let as ← word "as"
      let type ← r.type
      return as :: type ++ (← operations r fuel)
    else if (← peekMark "..=") || (← peekMark "..") then rangeEnd r fuel
    else
      match ← binaryOperator? with
      | some operator =>
        let sign ← mark operator
        let next ← operand r fuel
        return sign :: next ++ (← operations r fuel)
      | none => return []

def operand (r : TypeReadings) : Nat → Reading (List String)
  | 0 => throw .surplus
  | fuel + 1 => do
    if (← peekMark "-") || (← peekMark "!") || (← peekMark "*") then
      let sign ← if ← peekMark "-" then mark "-" else if ← peekMark "!" then mark "!" else mark "*"
      return sign :: (← operand r fuel)
    else if ← peekMark "&" then
      let sign ← mark "&"
      let access ← word? "mut"
      return sign :: access ++ (← operand r fuel)
    else
      let first ← atom r fuel
      return first ++ (← trailers r fuel)

def atom (r : TypeReadings) : Nat → Reading (List String)
  | 0 => throw .surplus
  | fuel + 1 => do
    if ← peekLiteral then literal
    else if ← peekMark "||" then
      let bars ← mark "||"
      return bars :: (← expression r fuel)
    else if ← peekMark "|" then
      let bar ← mark "|"
      let inputs ← wordsUntil fun token => startsWithMarks ['|'] [token]
      let close ← mark "|"
      return bar :: inputs ++ close :: (← expression r fuel)
    else if ← peekWords blockWords then blockExpression ((← tokens).length + 1)
    else if ← peekWords ["return", "break", "continue", "yield"] then
      let start ← anyWord
      if ← peekExpression then return start :: (← expression r fuel) else return [start]
    else if ← peekWords ["let", "move", "static"] then wordsUntil fun _ => false
    else if (← peekIdentifier) || (← peekWords ["self", "Self", "super", "crate"]) ||
        (← peekMark "::") || (← peekMark "<") then
      let (path, isPlain) ← r.path
      if isPlain && (← peekMark "!") && !(← peekMark "!=") then
        let bang ← mark "!"
        match ← tokens with
        | .group delimiter inner :: _ =>
          advance 1
          return path ++ [bang, delimiter.enclose (Token.listText inner)]
        | _ => unexpected ["delimiter"]
      else if ← peekGroup .braces then return path ++ Token.words [.group .braces (← group .braces)]
      else return path
    else if ← peekGroup .parentheses then enclosedWords .parentheses (expressions r fuel)
    else if ← peekGroup .brackets then
      enclosedWords .brackets do
        if ← isAtEnd then return []
        let first ← expression r fuel
        if ← peekMark ";" then
          let semicolon ← mark ";"
          return first ++ semicolon :: (← expression r fuel)
        else if ← isAtEnd then return first
        else
          let comma ← mark ","
          return first ++ comma :: (← expressions r fuel)
    else if ← peekGroup .braces then enclosedWords .braces (statements r fuel)
    else if ← peekWord "_" then return [← anyWord]
    else if ← peekLifetime then
      let label ← lifetime
      let colon ← mark ":"
      return label :: colon :: (← throughBlock)
    else unexpected ["an expression"]

def trailers (r : TypeReadings) : Nat → Reading (List String)
  | 0 => throw .surplus
  | fuel + 1 => do
    if ← peekGroup .parentheses then
      let inputs ← enclosedWords .parentheses (expressions r fuel)
      return inputs ++ (← trailers r fuel)
    else if ← peekGroup .brackets then
      let index ← enclosedWords .brackets (expression r fuel)
      return index ++ (← trailers r fuel)
    else if ← peekMark "?" then
      let sign ← mark "?"
      return sign :: (← trailers r fuel)
    else if (← peekMark ".") && !(← peekMark "..") then
      let dot ← mark "."
      let member ← if (← peekIdentifier) || (← peekWord "await") then pure [← anyWord]
        else match ← tokens with
          | .literal text :: _ => do
            advance 1
            pure [text]
          | _ => unexpected ["identifier or integer"]
      let arguments ← if ← peekMark "::" then r.arguments else pure []
      return dot :: member ++ arguments ++ (← trailers r fuel)
    else return []

def expressions (r : TypeReadings) : Nat → Reading (List String)
  | 0 => throw .surplus
  | fuel + 1 => do
    if ← isAtEnd then return []
    let first ← expression r fuel
    if ← isAtEnd then return first
    let comma ← mark ","
    return first ++ comma :: (← expressions r fuel)

def statements (r : TypeReadings) : Nat → Reading (List String)
  | 0 => throw .surplus
  | fuel + 1 => do
    if ← isAtEnd then return []
    else if ← peekMark ";" then
      let semicolon ← mark ";"
      return semicolon :: (← statements r fuel)
    else if ← peekWord "let" then
      let words ← wordsUntil fun token => startsWithMarks [';'] [token]
      let semicolon ← mark ";"
      return words ++ semicolon :: (← statements r fuel)
    else if (← peekWords itemWords) || (← peekMark "#") then
      let words ← wordsUntil fun token =>
        startsWithMarks [';'] [token] || startsWithGroup .braces [token]
      let block ← if ← peekGroup .braces then
          pure (Token.words [.group .braces (← group .braces)])
        else pure [← mark ";"]
      return words ++ block ++ (← statements r fuel)
    else
      let isBlock := (← peekWords blockWords) || (← peekGroup .braces)
      let words ← if isBlock then atom r fuel else expression r fuel
      if ← isAtEnd then return words
      else if (← peekMark ";") || isBlock then return words ++ (← statements r fuel)
      else throw (.refused "unexpected token, expected `;`")

end

end Reading

end Archivist.Source
