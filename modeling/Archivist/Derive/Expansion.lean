import Archivist.Derive.Manifest
import Archivist.Derive.Options

/-!
What is derived for a declared type: the statements that save and load it, field by field, and its
registrations.
-/

set_option autoImplicit false

namespace Archivist.Derive

open Source (FieldDeclaration Parameter PathExpr Predicate)
open Source (TextLiteral TypeDeclaration TypeExpr TypeForm)

def fieldlessTypes : List String :=
  ["Vec", "VecDeque", "LinkedList", "BTreeMap", "HashMap", "Option", "String", "str", "bool", "char",
   "u8", "u16", "u32", "u64", "u128", "usize", "i8", "i16", "i32", "i64", "i128", "isize",
   "f32", "f64"]

def isFlattenable : TypeForm → Bool
  | .path last => last ∉ fieldlessTypes
  | .enclosed inner => isFlattenable inner
  | .other => false

structure Member where
  name : String
  type : TypeExpr
  options : FieldOptions
  deriving DecidableEq, Repr

namespace Member

def read (field : FieldDeclaration) : Except Refusal Member := do
  let options ← FieldOptions.read field.attributes
  if options.flatten && !isFlattenable field.type.form then throw .notFlattenable
  return ⟨field.name, field.type, options⟩

/-- An identifier without the mark that lets it be a reserved word. -/
def plainName (name : String) : String :=
  match name.toList with
  | 'r' :: '#' :: rest => String.ofList rest
  | _ => name

def document (m : Member) : TextLiteral :=
  m.options.rename.getD ⟨Text.quoted (plainName m.name), plainName m.name⟩

def documentName (m : Member) : String := m.document.value

/-- Whether the field is written where the tag has its place. -/
def isReserved (m : Member) : Bool :=
  !m.options.skip && !m.options.flatten && m.documentName = tagField

end Member

inductive Direction where
  | save
  | load
  deriving DecidableEq, Repr

inductive Access where
  | named (document : TextLiteral)
  | optional (document : TextLiteral)
  | flattened
  deriving DecidableEq, Repr

structure Statement where
  direction : Direction
  field : String
  access : Access
  deriving DecidableEq, Repr

def Member.access (m : Member) : Access :=
  if m.options.flatten then .flattened
  else if m.options.optional then .optional m.document
  else .named m.document

def Member.statement? (direction : Direction) (m : Member) : Option Statement :=
  if m.options.skip then none else some ⟨direction, m.name, m.access⟩

inductive PointeeKind where
  | plain
  | polymorphic
  | tagged (tag : TextLiteral)
  deriving DecidableEq, Repr

def TypeOptions.pointeeKind (o : TypeOptions) : PointeeKind :=
  match o.tag with
  | some tag => .tagged tag
  | none => if o.isPolymorphic then .polymorphic else .plain

inductive Condition where
  /-- What the type itself asks for. -/
  | given (predicate : Predicate)
  /-- A type that can be saved and loaded. -/
  | scribe (type : String)
  /-- A value of the type to start from. -/
  | initial
  deriving DecidableEq, Repr

inductive Declaration where
  /-- Saving a value, and loading into one that exists. -/
  | scribe (conditions : List Condition) (saves loads : List Statement)
  /-- Loading a new value. -/
  | loadNew (conditions : List Condition)
  | pointee (kind : PointeeKind)
  | register
  | relate (base : PathExpr)
  deriving DecidableEq, Repr

structure Expansion where
  root : PathExpr
  name : String
  parameters : List Parameter
  declarations : List Declaration
  deriving DecidableEq, Repr

def isGeneric (d : TypeDeclaration) : Bool := !d.parameters.isEmpty

def members (d : TypeDeclaration) : Except Refusal (List Member) :=
  match d.shape with
  | .named fields => fields.mapM Member.read
  | .unit => .ok []
  | .tuple => .error .tuple
  | .enumeration => .error .enumeration
  | .union => .error .union

def requirements (d : TypeDeclaration) (members : List Member) : List Condition :=
  d.conditions.map .given ++
    if isGeneric d then (members.filter (!·.options.skip)).map (.scribe ·.type.text) else []

def TypeOptions.registrations (o : TypeOptions) : List Declaration :=
  .pointee o.pointeeKind ::
    if o.tag.isSome then .register :: o.bases.map .relate else []

def derive (manifest : Option Toml.Table) (d : TypeDeclaration) : Except Refusal Expansion := do
  let options ← TypeOptions.read d.attributes
  let members ← members d
  if options.isPolymorphic && members.any Member.isReserved then throw .reservedField
  let conditions := requirements d members
  return {
    root := options.root.getD (packagePath manifest supportPackage)
    name := d.name
    parameters := d.parameters
    declarations :=
      [.scribe conditions (members.filterMap (·.statement? .save))
        (members.filterMap (·.statement? .load)),
       .loadNew (conditions ++ [.initial])] ++
      if isGeneric d then [] else options.registrations }

end Archivist.Derive
