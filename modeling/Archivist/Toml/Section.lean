import Archivist.Json.Printer

/-!
Sections of a TOML document, in every notation that the format has for tables. The name of a table is
text of the document and can be a path; keys are given in quotes.
-/

set_option autoImplicit false

namespace Archivist.Toml

inductive SectionForm where
  /-- `[t]`, then a line for each key. -/
  | heading
  /-- `[t.key]` for each key, with a line for its version. -/
  | subheadings
  /-- `t.key = …` for each key. -/
  | dotted
  /-- `t = …` with the keys between braces. -/
  | inlineTable
  /-- `[[t]]`, then a line for each key. -/
  | element
  | value
  | malformed
  deriving DecidableEq, Repr

structure Section where
  table : String
  form : SectionForm
  keys : List String
  deriving DecidableEq, Repr

namespace Section

def quotedKey (key : String) : String := String.ofList (Json.printString key)

def pair (key : String) : String := quotedKey key ++ " = \"1\""

def lines (s : Section) : List String :=
  match s.form with
  | .heading => ("[" ++ s.table ++ "]") :: s.keys.map pair
  | .subheadings =>
    s.keys.flatMap fun key => ["[" ++ s.table ++ "." ++ quotedKey key ++ "]", "version = \"1\""]
  | .dotted => s.keys.map fun key => s.table ++ "." ++ pair key
  | .inlineTable => [s.table ++ " = \x7b " ++ ", ".intercalate (s.keys.map pair) ++ " \x7d"]
  | .element => ("[[" ++ s.table ++ "]]") :: s.keys.map pair
  | .value => [s.table ++ " = 3"]
  | .malformed => ["= ="]

def document (sections : List Section) : String :=
  String.join ((sections.flatMap lines).map (· ++ "\n"))

end Section

end Archivist.Toml
