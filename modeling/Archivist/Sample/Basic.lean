import Archivist.Registry.Shared
import Archivist.Sample.Records
import Archivist.Saving
import Archivist.Schema.TypeText

/-!
The sample schema with a registry to start from, archives, and a family of generic records.
-/

set_option autoImplicit false

namespace Archivist.Sample

def pair : Family where
  name := "Pair"
  fields
    | [first, second] => some [.required "first" first, .optional "second" second]
    | _ => none

def families : List Family := [pair]

def registered : List String :=
  ["Circle", "Square", "Group", "Wheel", "Gear", "Pin", "Axle", "Unrelated", "Stamped"]

def relations : List (Target × String) :=
  [(shape, "Circle"), (shape, "Square"), (shape, "Group"), (shape, "Wheel"),
   (part, "Wheel"), (part, "Gear"), (part, "Pin"), (part, "Axle")]

def relate (S : Schema) (r : Registry) (base : Target) (record : String) : Registry.Change :=
  r.insertRelation (S.info base) (S.info (.record record)) (.of (.record record))

def registry (S : Schema) : Registry :=
  let bound := registered.foldl (fun r name => (r.register (S.info (.record name))).registry) .empty
  relations.foldl (fun r (base, name) => (relate S r base name).registry) bound

/-- A pair of archives. Some have a policy of their own for types without binding. -/
structure Channel where
  reader : Archive
  writer : Archive
  policy : Option UnknownTypes := none
  deriving Repr

def json : Channel := ⟨.jsonReader, .jsonWriter, none⟩

/-- Archives that nothing is bound for at the start, and that refuse types without binding. -/
def other (path : String) : Channel := ⟨⟨path ++ "OtherIn"⟩, ⟨path ++ "OtherOut"⟩, some .reject⟩

/-- An archive for writing only, that never refuses. -/
def plain (path : String) : Channel := ⟨.jsonReader, ⟨path ++ "PlainOut"⟩, some .sentinel⟩

end Archivist.Sample
