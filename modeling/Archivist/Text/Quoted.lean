import Archivist.Text.GraphemeExtend
import Archivist.Text.Unprintable

/-!
Text in double quotes, as it appears in messages. What a reader of the message could not see or tell
apart is written as an escape.
-/

set_option autoImplicit false

namespace Archivist.Text

/-- A code point in lower-case hexadecimal between braces, without leading zeros. -/
def codePoint (c : Char) : List Char :=
  '\\' :: 'u' :: '\x7b' :: (Nat.toDigits 16 c.toNat ++ ['\x7d'])

def quoteChar (c : Char) : List Char :=
  if c = '\x00' then ['\\', '0']
  else if c = '\t' then ['\\', 't']
  else if c = '\r' then ['\\', 'r']
  else if c = '\n' then ['\\', 'n']
  else if c = '\\' then ['\\', '\\']
  else if c = '"' then ['\\', '"']
  else if extendsGrapheme c || isUnprintable c then codePoint c
  else [c]

def quoted (s : String) : String :=
  String.ofList ('"' :: (s.toList.flatMap quoteChar ++ ['"']))

end Archivist.Text
