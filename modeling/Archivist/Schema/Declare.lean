import Archivist.Schema.Basic

/-!
Building schemas record by record. A field that is given no initial value gets the one of its type,
for which the records it contains are declared before.
-/

set_option autoImplicit false

namespace Archivist

structure FieldDecl where
  name : String
  type : Ty
  mode : FieldMode := .required
  initial? : Option Value := none

namespace FieldDecl

def required (name : String) (type : Ty) : FieldDecl := ⟨name, type, .required, none⟩

def optional (name : String) (type : Ty) : FieldDecl := ⟨name, type, .optional, none⟩

def skipped (type : Ty) : FieldDecl := ⟨"", type, .skipped, none⟩

def flattened (type : Ty) : FieldDecl := ⟨"", type, .flattened, none⟩

def initially (field : FieldDecl) (value : Value) : FieldDecl := { field with initial? := some value }

def resolve (S : Schema) (field : FieldDecl) : Field :=
  ⟨field.name, field.type, field.mode, (field.initial? <|> field.type.initial? S).getD .absent⟩

end FieldDecl

namespace Base

def fieldAt? (positions : List (String × Nat)) : Value → Option Value
  | .record name fields => (positions.lookup name).bind (fields[·]?)
  | _ => none

theorem depth_fieldAt? (positions : List (String × Nat)) (v part : Value) (h : fieldAt? positions v = some part) :
    part.depth ≤ v.depth := by
  cases v with
  | record name fields =>
    obtain ⟨i, -, hi⟩ := Option.bind_eq_some_iff.1 h
    exact Value.depth_le_depthOf (List.mem_of_getElem? hi)
  | _ => cases h

/-- A base that shows one field of each record that implements it. -/
def ofFields (name : String) (positions : List (String × Nat)) : Base :=
  ⟨name, fieldAt? positions, depth_fieldAt? positions⟩

end Base

namespace Schema

def declared (S : Schema) (name : String) (fields : List FieldDecl) (identity : Identity := .plain) :
    Record :=
  ⟨name, fields.map (FieldDecl.resolve S), identity⟩

def declare (S : Schema) (name : String) (fields : List FieldDecl)
    (identity : Identity := .plain) : Schema :=
  { S with records := S.records ++ [S.declared name fields identity] }

def adopt (S : Schema) (records : List Record) : Schema :=
  { S with records := S.records ++ records.filter fun r => (S.record? r.name).isNone }

end Schema

end Archivist
