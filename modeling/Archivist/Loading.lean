import Archivist.Registry.Shared
import Archivist.Slot

/-!
Reading values of a type from the current node of an archive, either as new values or in place. A
polymorphic reference finds the type of its value by the tag in the document.

Types may contain themselves. Whatever lies below a node, or is left of it once its tag is taken, is
lighter than the node and read by the loader for lighter nodes. Within one node the steps are counted,
and they are never used up unless a record contains itself through flattened fields alone.
-/

set_option autoImplicit false

namespace Archivist

structure Loading where
  schema : Schema
  archive : Archive := .jsonReader

namespace Loading

open ReadState

variable (env : Loading)

def readAtom (type : AtomTy) : Attempt ReadState Atom := do
  match type.read (← onReader Reader.readValue) with
  | .ok a => return a
  | .error cause => .malformed cause

/-- Null is no value; anything else is one. -/
def readOption (item : Attempt ReadState Value) : Attempt ReadState Value := do
  if ← onReader Reader.isNull then
    let _ ← onReader Reader.readValue
    return .absent
  else
    return .present (← item)

def appendItems (item : Attempt ReadState Value) : Nat → Attempt (Slot (List Value)) Unit
  | 0 => pure ()
  | count + 1 => do
    let value ← Slot.lift (inElement item)
    Slot.update (· ++ [value])
    appendItems item count

def fillList (item : Attempt ReadState Value) : Attempt (Slot Value) Unit :=
  Slot.within (fun _ => []) Value.list do
    appendItems item (← Slot.lift (onReader Reader.readSize))

def checkSize (length : Nat) : Attempt ReadState Unit := do
  let found ← onReader Reader.readSize
  if found = length then pure () else .fail (.sizeMismatch length found)

def readArray (length : Nat) (item : Attempt ReadState Value) : Attempt ReadState Value := do
  checkSize length
  Slot.fresh (.list []) (fillList item)

def fillArray (length : Nat) (item : Attempt (Slot Value) Unit) : Attempt (Slot Value) Unit :=
  Slot.within Value.items Value.list do
    Slot.lift (checkSize length)
    Slot.inOrder <| List.replicate length do
      Slot.lift (onReader Reader.startElement)
      item
      Slot.lift (onReader Reader.finishNode)

/-- How the keys of a map are read: from the names of fields, if they are keys, or beside their values. -/
inductive KeyReader (κ : Type) where
  | names (ofField : String → Option κ)
  | beside (read : Attempt ReadState κ)

section Maps

variable {κ ν α : Type}

/-- Reads fields until none is left, at most as many as told. A value is read before its key is looked
at. -/
def addNamed (ofField : String → Option κ) (item : Attempt ReadState ν) (insert : κ → ν → α → α) :
    Nat → Attempt (Slot α) Unit
  | 0 => pure ()
  | count + 1 => do
    match ← Slot.lift (onReader Reader.nextFieldName) with
    | none => pure ()
    | some name => do
      let value ← Slot.lift (inField name item)
      match ofField name with
      | none => .malformed .invalidKey
      | some key => do
        Slot.update (insert key value)
        addNamed ofField item insert count

def addPairs (read : Attempt ReadState κ) (item : Attempt ReadState ν) (insert : κ → ν → α → α) :
    Nat → Attempt (Slot α) Unit
  | 0 => pure ()
  | count + 1 => do
    let (key, value) ← Slot.lift <| inElement do
      let key ← inField keyField read
      let value ← inField valueField item
      return (key, value)
    Slot.update (insert key value)
    addPairs read item insert count

/-- Fills a map of any kind, with keys of any type, with all fields of an object or all elements of an array. -/
def addMap (keys : KeyReader κ) (item : Attempt ReadState ν) (insert : κ → ν → α → α) : Attempt (Slot α) Unit :=
  match keys with
  | .names ofField => do
    let slot ← Attempt.get
    addNamed ofField item insert (slot.state.reader.fieldCount + 1)
  | .beside read => do addPairs read item insert (← Slot.lift (onReader Reader.readSize))

end Maps

def keyReader : KeyTy → KeyReader Atom
  | .atom type => .beside (readAtom type)
  | key => .names (env.schema.keyOf? key)

def fillMap (kind : MapKind) (key : KeyTy) (item : Attempt ReadState Value) : Attempt (Slot Value) Unit :=
  Slot.within (fun _ => []) (Value.map key) <|
    addMap (env.keyReader key) item (Entries.insert (env.schema.before kind key))

/-- Enters a field that may be absent. Says whether it was there. -/
def enterOptional (name : String) : Attempt ReadState Bool := fun s =>
  match onReader (Reader.startField name) s with
  | (.ok (), s) => (.ok true, s)
  | (.error e, s) =>
    if e.isFieldAbsent then (note (.fieldSkipped name) >>= fun _ => pure false) s else (.error e, s)

/-- Loads one field of a record in place. Only the absence of the field itself is tolerated. -/
def fillField (load : Ty → Attempt (Slot Value) Unit) (field : Field) : Attempt (Slot Value) Unit :=
  match field.mode with
  | .skipped => pure ()
  | .flattened => load field.type
  | .required => do
    Slot.lift (onReader (Reader.startField field.name))
    load field.type
    Slot.lift (onReader Reader.finishNode)
  | .optional => do
    if ← Slot.lift (enterOptional field.name) then
      load field.type
      Slot.lift (onReader Reader.finishNode)

/-- Loads the fields of a record in place, in declaration order. Flattened fields are loaded from the
node of the record, the others each from a node of their own. -/
def fillRecord (name : String) (deep flat : Ty → Attempt (Slot Value) Unit) :
    Attempt (Slot Value) Unit :=
  Slot.within Value.fields (Value.record name) <| Slot.inOrder <|
    (env.schema.fieldsOf name).map fun field =>
      fillField (if field.mode = .flattened then flat else deep) field

def enterTag : Attempt ReadState Unit := fun s =>
  match onReader (Reader.startField tagField) s with
  | (.error (.fieldAbsent _), s) => (.error (.malformed .noTag), s)
  | r => r

def readTag : Attempt ReadState String := do
  enterTag
  match ← onReader Reader.readValue with
  | .text tag => do
    onReader Reader.finishNode
    return tag
  | leaf => .malformed (.tagNotText leaf)

def bound? (registry : Registry) (tag : String) : Option (Target × Ty) :=
  (registry.input? env.archive tag).bind fun bound => bound.ty?.map (bound, ·)

/-- Binds a tagged target for the archive, so its own tag is known. -/
def warmUp (target : Target) : Attempt ReadState Unit :=
  if (env.schema.identity target).isTagged then
    change (·.ensureInput (env.schema.info target) env.archive)
  else pure ()

def resolve (target : Target) : Attempt ReadState (String × Target × Ty) := do
  env.warmUp target
  let tag ← readTag
  withRegistry fun registry =>
    match env.bound? registry tag with
    | none => .fail (.unknownType tag)
    | some found => return (tag, found)

def accepts (registry : Registry) (kind : RefKind) (target bound : Target) : Bool :=
  env.schema.keeps target bound || (registry.upcaster? target bound).any (·.passes kind bound)

def readTagged (kind : RefKind) (target : Target) (loadNew : Ty → Attempt ReadState Value) :
    Attempt ReadState Value := do
  let (tag, bound, type) ← env.resolve target
  let item ← loadNew type
  withRegistry fun registry =>
    if env.accepts registry kind target bound then return .ref target item
    else .fail (.incompatibleType tag (env.schema.typeName target))

def readPlain (target : Target) (loadNew : Ty → Attempt ReadState Value) : Attempt ReadState Value :=
  match target.ty? with
  | some type => loadNew type
  | none => .malformed (.onlyByTag (env.schema.typeName target))

def readRef (kind : RefKind) (target : Target) (deep flat : Ty → Attempt ReadState Value) :
    Attempt ReadState Value :=
  if env.schema.isPolymorphic target then env.readTagged kind target deep
  else do return .ref target (← env.readPlain target flat)

/-- How nodes of some weight are loaded: as new values, and in place. -/
structure Loader where
  new : Ty → Attempt ReadState Value
  into : Ty → Attempt (Slot Value) Unit

section Within

variable (lighter : Loader)

mutual

/-- Reads a new value from the current node in so many steps, given how lighter nodes are loaded. -/
def newWithin : Nat → Ty → Attempt ReadState Value
  | 0, _ => .fail .endless
  | _ + 1, .atom type => do return .atom (← readAtom type)
  | steps + 1, .option item => readOption (newWithin steps item)
  | _ + 1, .list _ item => Slot.fresh (.list []) (fillList (lighter.new item))
  | _ + 1, .array item length => readArray length (lighter.new item)
  | _ + 1, .map kind key item => Slot.fresh (.map key []) (env.fillMap kind key (lighter.new item))
  | steps + 1, .record name =>
    Slot.fresh (env.schema.initialOf name) (env.fillRecord name lighter.into (intoWithin steps))
  | steps + 1, .ref kind target => env.readRef kind target lighter.new (newWithin steps)

/-- Loads a value in place from the current node in so many steps. Leaves, options and references are
replaced as a whole, sequences and maps are emptied and filled anew. -/
def intoWithin : Nat → Ty → Attempt (Slot Value) Unit
  | 0, _ => .fail .endless
  | _ + 1, .atom type => Slot.assign do return .atom (← readAtom type)
  | steps + 1, .option item => Slot.assign (readOption (newWithin steps item))
  | _ + 1, .list _ item => fillList (lighter.new item)
  | _ + 1, .array item length => fillArray length (lighter.into item)
  | _ + 1, .map kind key item => env.fillMap kind key (lighter.new item)
  | steps + 1, .record name => env.fillRecord name lighter.into (intoWithin steps)
  | steps + 1, .ref kind target => Slot.assign (env.readRef kind target lighter.new (newWithin steps))

end

end Within

/-- Steps that suffice within one node. A record that is met there for the second time either lacks a
field by then or is met without end. -/
def steps (type : Ty) : Nat := 2 * env.schema.span + type.height + 1

def loader : Nat → Loader
  | 0 => ⟨fun _ => .fail .endless, fun _ => .fail .endless⟩
  | weight + 1 =>
    ⟨fun type => env.newWithin (loader weight) (env.steps type) type,
     fun type => env.intoWithin (loader weight) (env.steps type) type⟩

def loadNew (type : Ty) : Attempt ReadState Value := fun s =>
  (env.loader (s.reader.weight + 1)).new type s

def loadPlain (target : Target) : Attempt ReadState Value := env.readPlain target env.loadNew

def load (type : Ty) : Attempt (Slot Value) Unit := fun slot =>
  (env.loader (slot.state.reader.weight + 1)).into type slot

end Loading

end Archivist
