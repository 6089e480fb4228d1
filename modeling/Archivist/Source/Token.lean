/-!
Tokens of source text: words, literals, marks, and groups between brackets, which nest. Their text is
on one line, with a blank between two tokens unless the first is a mark that is joined to the second.
-/

set_option autoImplicit false

namespace Archivist.Source

inductive Delimiter where
  | parentheses
  | brackets
  | braces
  deriving DecidableEq, Repr

namespace Delimiter

def opening : Delimiter → Char
  | .parentheses => '('
  | .brackets => '['
  | .braces => '\x7b'

def closing : Delimiter → Char
  | .parentheses => ')'
  | .brackets => ']'
  | .braces => '\x7d'

def all : List Delimiter := [.parentheses, .brackets, .braces]

def opened? (c : Char) : Option Delimiter := all.find? (·.opening = c)

def closed? (c : Char) : Option Delimiter := all.find? (·.closing = c)

/-- Braces stand apart from what they hold, other brackets do not. -/
def enclose : Delimiter → String → String
  | .parentheses, text => "(" ++ text ++ ")"
  | .brackets, text => "[" ++ text ++ "]"
  | .braces, text => "\x7b " ++ text ++ (if text.isEmpty then "" else " ") ++ "\x7d"

def title : Delimiter → String
  | .parentheses => "parentheses"
  | .brackets => "square brackets"
  | .braces => "curly braces"

end Delimiter

inductive Token where
  /-- A word as it is written, with the `r#` that lets it be a keyword. -/
  | word (text : String)
  /-- A literal as it is written. -/
  | literal (text : String)
  /-- A mark is joined to the next token if it stands right before another mark. -/
  | mark (c : Char) (joined : Bool)
  | group (delimiter : Delimiter) (inner : List Token)
  deriving Repr

namespace Token

def isJoined : Token → Bool
  | .mark _ joined => joined
  | _ => false

mutual

def text : Token → String
  | .word text => text
  | .literal text => text
  | .mark c _ => String.singleton c
  | .group delimiter inner => delimiter.enclose (listText inner)

def listText : List Token → String
  | [] => ""
  | [token] => token.text
  | token :: rest => token.text ++ (if token.isJoined then "" else " ") ++ listText rest

end

mutual

def weight : Token → Nat
  | .group _ inner => listWeight inner + 1
  | _ => 1

def listWeight : List Token → Nat
  | [] => 0
  | token :: rest => token.weight + listWeight rest

end

end Token

end Archivist.Source
