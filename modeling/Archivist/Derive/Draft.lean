import Archivist.Json.Printer

/-!
Drafts of type declarations: the parts of a declaration, and the source text that they make.
-/

set_option autoImplicit false

namespace Archivist.Derive

inductive ArgumentDraft where
  | none
  /-- `= "text"` -/
  | text (value : String)
  /-- `= 5` -/
  | number (digits : String)
  /-- `(dyn path)` -/
  | dynamic (path : String)
  /-- `(path)` -/
  | plain (path : String)
  deriving DecidableEq, Repr

structure ItemDraft where
  key : String
  argument : ArgumentDraft
  deriving DecidableEq, Repr

structure AttributeDraft where
  name : String
  items : List ItemDraft
  deriving DecidableEq, Repr

structure FieldDraft where
  name : String
  type : String
  attributes : List AttributeDraft
  deriving DecidableEq, Repr

inductive ShapeDraft where
  | named
  | unit
  | tuple
  | enumeration
  | union
  deriving DecidableEq, Repr

structure Draft where
  name : String
  shape : ShapeDraft
  attributes : List AttributeDraft
  fields : List FieldDraft
  /-- How the parameters of a generic type are declared. -/
  parameters : List String
  /-- The text of the `where` clause. -/
  conditions : String
  deriving DecidableEq, Repr

def ArgumentDraft.source : ArgumentDraft → String
  | .none => ""
  | .text value => " = " ++ String.ofList (Json.printString value)
  | .number digits => " = " ++ digits
  | .dynamic path => "(dyn " ++ path ++ ")"
  | .plain path => "(" ++ path ++ ")"

def ItemDraft.source (i : ItemDraft) : String := i.key ++ i.argument.source

def AttributeDraft.source (a : AttributeDraft) : String :=
  "#[" ++ a.name ++ "(" ++ ", ".intercalate (a.items.map ItemDraft.source) ++ ")] "

namespace FieldDraft

def attributesSource (f : FieldDraft) : String :=
  String.join (f.attributes.map AttributeDraft.source)

def namedSource (f : FieldDraft) : String := f.attributesSource ++ f.name ++ ": " ++ f.type

def unnamedSource (f : FieldDraft) : String := f.attributesSource ++ f.type

end FieldDraft

namespace Draft

def whereSource (d : Draft) : String := if d.conditions = "" then "" else " where " ++ d.conditions

def namedBody (d : Draft) : String :=
  d.whereSource ++ " \x7b " ++ ", ".intercalate (d.fields.map FieldDraft.namedSource) ++ " \x7d"

def head (d : Draft) (kind : String) : String :=
  String.join (d.attributes.map AttributeDraft.source) ++ kind ++ " " ++ d.name ++
    if d.parameters.isEmpty then "" else "<" ++ ", ".intercalate d.parameters ++ ">"

def source (d : Draft) : String :=
  match d.shape with
  | .named => d.head "struct" ++ d.namedBody
  | .unit => d.head "struct" ++ d.whereSource ++ ";"
  | .tuple =>
    d.head "struct" ++ "(" ++ ", ".intercalate (d.fields.map FieldDraft.unnamedSource) ++ ")" ++
      d.whereSource ++ ";"
  | .enumeration => d.head "enum" ++ d.whereSource ++ " \x7b \x7d"
  | .union => d.head "union" ++ d.namedBody

end Draft

end Archivist.Derive
