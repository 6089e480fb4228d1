import Archivist.Schema.Value

/-!
Schemas: the records, bases and textual key types that types refer to by name.
-/

set_option autoImplicit false

namespace Archivist

def unknownTag : String := "unknown"

def tagField : String := "type"

/-- The fields that hold the key and the value of an entry of a map whose keys are not field names. -/
def keyField : String := "key"

def valueField : String := "value"

/-- How a field is kept: under its name, where it may be absent when it is read if it is optional; not at all; or
within the node of the record itself. -/
inductive FieldMode where
  | required
  | optional
  | skipped
  | flattened
  deriving DecidableEq, Repr

structure Field where
  /-- The name in the document; skipped and flattened fields have none. -/
  name : String
  type : Ty
  mode : FieldMode
  initial : Value
  deriving Repr

/-- Whether values behind a reference carry a type tag, and which. -/
inductive Identity where
  | plain
  | untagged
  | tagged (tag : String)
  deriving DecidableEq, Repr

namespace Identity

def isPolymorphic : Identity → Bool
  | .plain => false
  | _ => true

def isTagged : Identity → Bool
  | .tagged _ => true
  | _ => false

def tag : Identity → String
  | .tagged tag => tag
  | _ => unknownTag

end Identity

structure Record where
  name : String
  fields : List Field
  identity : Identity := .plain
  deriving Repr

def Record.initial (r : Record) : Value := .record r.name (r.fields.map Field.initial)

/-- A base that types implement. Its accessor, if it has one, gives what it shows of a value: a part of it, or something
that the base has at hand. That references lie no deeper there than in the value is a limit set here, without which
saving need not end. -/
structure Base where
  name : String
  shown : Value → Option Value
  level (v part : Value) : shown v = some part → part.depth ≤ v.depth

def Base.plain (name : String) : Base where
  name := name
  shown _ := none
  level _ _ h := by cases h

structure KeyOrder where
  before : Atom → Atom → Bool
  irrefl (a : Atom) : before a a = false
  trans {a b c : Atom} : before a b = true → before b c = true → before a c = true

/-- A string type whose values serve as field names, within its own rules. -/
structure TextKey where
  name : String
  toField : String → Option String
  ofField : String → Option String

namespace Atom

theorem lt_irrefl (a : Atom) : a.lt a = false := by
  cases a <;> simp [lt]

theorem lt_trans {a b c : Atom} (h : a.lt b = true) (h' : b.lt c = true) : a.lt c = true := by
  cases a <;> cases b <;> simp only [lt, decide_eq_true_eq, Bool.false_eq_true] at h <;>
    cases c <;> simp only [lt, decide_eq_true_eq, Bool.false_eq_true] at h' ⊢
  case bool.bool.bool => simp_all
  case char.char.char => exact Char.lt_trans h h'
  case text.text.text => exact String.lt_trans h h'
  case int.int.int => exact Int.lt_trans h h'

end Atom

def KeyOrder.natural : KeyOrder := ⟨Atom.lt, Atom.lt_irrefl, Atom.lt_trans⟩

structure Schema where
  /-- Stands before the name of every record and base in messages. -/
  path : String
  records : List Record
  bases : List Base := []
  textKeys : List TextKey := []
  /-- The order in which hashed maps are walked. It can be any, but here it depends on the keys alone, whereas a hash
  table may show the same keys in another order if they came to it in another way. -/
  hashOrder : KeyTy → KeyOrder := fun _ => .natural

namespace Schema

variable (S : Schema)

def record? (name : String) : Option Record := S.records.find? (·.name = name)

def base? (name : String) : Option Base := S.bases.find? (·.name = name)

/-- The fields of a record; a name that is not declared has none. -/
def fieldsOf (name : String) : List Field :=
  match S.record? name with
  | some r => r.fields
  | none => []

def initialOf (name : String) : Value := .record name ((S.fieldsOf name).map Field.initial)

/-- What a reference declared with a base shows of the value behind it. -/
def shown? (declared : Target) (v : Value) : Option Value :=
  match declared, v.target? with
  | .base name, some _ => (S.base? name).bind (·.shown v)
  | _, _ => none

theorem depth_shown? {declared : Target} {v part : Value} (h : S.shown? declared v = some part) :
    part.depth ≤ v.depth := by
  unfold shown? at h
  split at h
  · obtain ⟨b, -, hb⟩ := Option.bind_eq_some_iff.1 h
    exact b.level v part hb
  · cases h

def toField? (key : KeyTy) (text : String) : Option String :=
  match key with
  | .atom _ => none
  | .text => some text
  | .named name => (S.textKeys.find? (·.name = name)).bind (·.toField text)

def ofField? (key : KeyTy) (name : String) : Option String :=
  match key with
  | .atom _ => none
  | .text => some name
  | .named type => (S.textKeys.find? (·.name = type)).bind (·.ofField name)

def fieldName? (key : KeyTy) : Atom → Option String
  | .text text => S.toField? key text
  | _ => none

def keyOf? (key : KeyTy) (name : String) : Option Atom := (S.ofField? key name).map .text

def before (kind : MapKind) (key : KeyTy) : Atom → Atom → Bool :=
  match kind with
  | .sorted => Atom.lt
  | .hashed => (S.hashOrder key).before

/-- A base always stands for tagged values, and has no tag itself. -/
def identity : Target → Identity
  | .atom _ => .plain
  | .record name => ((S.record? name).map Record.identity).getD .plain
  | .base _ => .untagged

def isPolymorphic (t : Target) : Bool := (S.identity t).isPolymorphic

def tag (t : Target) : String := (S.identity t).tag

/-- Whether a reference keeps a value of the given type as it is: only if it is declared with that very
type, and the type is polymorphic. -/
def keeps (declared runtime : Target) : Bool :=
  match declared with
  | .base _ => false
  | _ => S.isPolymorphic declared && declared = runtime

def typeName : Target → String
  | .atom .bool => "bool"
  | .atom .char => "char"
  | .atom .text => "alloc::string::String"
  | .atom (.int kind) => kind.name
  | .atom (.float width) => width.name
  | .record name => S.path ++ name
  | .base name => "dyn " ++ S.path ++ name

/-- A bound on the type formers that can lie on top of each other within one node. -/
def span : Nat :=
  S.records.foldr (fun r n => r.fields.foldr (fun f m => f.type.height + m) 0 + 2 + n) 0

end Schema

/-- The value of a type before anything is loaded into it. A base has no such value. -/
def Ty.initial? (S : Schema) : Ty → Option Value
  | .atom type => some (.atom type.initial)
  | .option _ => some .absent
  | .list _ _ => some (.list [])
  | .array item length => (item.initial? S).map fun v => .list (List.replicate length v)
  | .map _ key _ => some (.map key [])
  | .record name => (S.record? name).map Record.initial
  | .ref _ (.atom type) => some (.ref (.atom type) (.atom type.initial))
  | .ref _ (.record name) => (S.record? name).map fun r => .ref (.record name) r.initial
  | .ref _ (.base _) => none

end Archivist
