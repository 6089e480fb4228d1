import Archivist.Json.Basic
import Archivist.Number.Shortest

/-!
JSON text of a document, compact or indented by two blanks.
-/

set_option autoImplicit false

namespace Archivist.Json

/-- Floats are written out in full from `10^-5` up to below `10^16`. -/
def floatLayout : Layout := ⟨-5, 16⟩

def printFloat : Binary → List Char
  | .finite s m e =>
    let body := if m = 0 then ['0', '.', '0'] else floatLayout.render (Format.double.shortest m e)
    if s then '-' :: body else body
  | _ => "null".toList

def printInt (n : Int) : List Char :=
  if n < 0 then '-' :: Nat.toDigits 10 n.natAbs else Nat.toDigits 10 n.natAbs

/-- Quotes, backslashes and control characters are escaped, nothing else. -/
def escape (c : Char) : List Char :=
  if c = '"' then ['\\', '"']
  else if c = '\\' then ['\\', '\\']
  else if c = '\x08' then ['\\', 'b']
  else if c = '\t' then ['\\', 't']
  else if c = '\n' then ['\\', 'n']
  else if c = '\x0c' then ['\\', 'f']
  else if c = '\r' then ['\\', 'r']
  else if c.toNat < 0x20 then
    ['\\', 'u', '0', '0', Nat.digitChar (c.toNat / 16), Nat.digitChar (c.toNat % 16)]
  else [c]

def printString (s : String) : List Char :=
  '"' :: (s.toList.flatMap escape ++ ['"'])

mutual

def print : Json → List Char
  | .null => ['n', 'u', 'l', 'l']
  | .bool true => ['t', 'r', 'u', 'e']
  | .bool false => ['f', 'a', 'l', 's', 'e']
  | .int n => printInt n
  | .float x => printFloat x
  | .string s => printString s
  | .array [] => ['[', ']']
  | .array (item :: rest) => '[' :: (print item ++ printItems rest)
  | .object [] => ['\x7b', '\x7d']
  | .object ((name, value) :: rest) =>
    '\x7b' :: (printString name ++ ':' :: (print value ++ printFields rest))

def printItems : List Json → List Char
  | [] => [']']
  | item :: rest => ',' :: (print item ++ printItems rest)

def printFields : List (String × Json) → List Char
  | [] => ['\x7d']
  | (name, value) :: rest =>
    ',' :: (printString name ++ ':' :: (print value ++ printFields rest))

end

def newLine (level : Nat) : List Char := '\n' :: List.replicate (2 * level) ' '

mutual

/-- Text with every item and field on a line of its own; empty containers stay on one line. -/
def printIndented (level : Nat) : Json → List Char
  | .array (item :: rest) =>
    '[' :: (newLine (level + 1) ++ printIndented (level + 1) item ++ indentItems level rest)
  | .object ((name, value) :: rest) =>
    '\x7b' :: (newLine (level + 1) ++ printString name ++ ':' :: ' ' ::
      (printIndented (level + 1) value ++ indentFields level rest))
  | .null => print .null
  | .bool b => print (.bool b)
  | .int n => print (.int n)
  | .float x => print (.float x)
  | .string s => print (.string s)
  | .array [] => print (.array [])
  | .object [] => print (.object [])

def indentItems (level : Nat) : List Json → List Char
  | [] => newLine level ++ [']']
  | item :: rest =>
    ',' :: (newLine (level + 1) ++ printIndented (level + 1) item ++ indentItems level rest)

def indentFields (level : Nat) : List (String × Json) → List Char
  | [] => newLine level ++ ['\x7d']
  | (name, value) :: rest =>
    ',' :: (newLine (level + 1) ++ printString name ++ ':' :: ' ' ::
      (printIndented (level + 1) value ++ indentFields level rest))

end

def render (indented : Bool) (document : Json) : String :=
  String.ofList (if indented then document.printIndented 0 else document.print)

end Archivist.Json
