import Archivist.Archive.Writer
import Archivist.Registry.Basic
import Archivist.Schema.Fold

/-!
Writing values. A value is written into the current node of an archive. Behind a reference to a
polymorphic target it is preceded by the tag of its own type, which the registry knows for the archive
at hand.
-/

set_option autoImplicit false

namespace Archivist

inductive UnknownTypes where
  /-- Write the unknown tag and what the declared base shows. -/
  | sentinel
  | reject
  deriving DecidableEq, Repr

structure Saving where
  schema : Schema
  registry : Registry
  archive : Archive := .jsonWriter
  unknownTypes : UnknownTypes := .sentinel

structure WriteState where
  writer : Writer
  log : Log := []
  deriving Repr

namespace WriteState

def new : WriteState := ⟨.new, []⟩

def onWriter {α : Type} (x : Attempt Writer α) : Attempt WriteState α :=
  x.on WriteState.writer fun s writer => { s with writer }

def note (event : Event) : Attempt WriteState Unit :=
  .modify fun s => { s with log := s.log ++ [event] }

/-- Writes one field: opens it, fills it, closes it. If filling fails the field stays open. -/
def inField (name : String) (fill : Attempt WriteState Unit) : Attempt WriteState Unit := do
  onWriter (Writer.startField name)
  fill
  onWriter Writer.finishNode

def inElement (fill : Attempt WriteState Unit) : Attempt WriteState Unit := do
  onWriter Writer.startElement
  fill
  onWriter Writer.finishNode

def writeLeaf (leaf : Leaf) : Attempt WriteState Unit := onWriter (Writer.writeValue leaf)

def writeTag (tag : String) : Attempt WriteState Unit := inField tagField (writeLeaf (.text tag))

def writeItems : List (Attempt WriteState Unit) → Attempt WriteState Unit
  | [] => pure ()
  | item :: rest => do
    inElement item
    writeItems rest

def writeFields : List Field → List (Attempt WriteState Unit) → Attempt WriteState Unit
  | field :: declared, item :: rest => do
    match field.mode with
    | .skipped => pure ()
    | .flattened => item
    | .required | .optional => inField field.name item
    writeFields declared rest
  | _, _ => pure ()

end WriteState

/-- How the keys of a map are written: as the names of fields, if they have any, or beside their values. -/
inductive KeyWriter (κ : Type) where
  | names (toField : κ → Option String)
  | beside (write : κ → Attempt WriteState Unit)

namespace KeyWriter

open WriteState

variable {κ : Type}

def writeNamed (toField : κ → Option String) : List (κ × Attempt WriteState Unit) → Attempt WriteState Unit
  | [] => pure ()
  | (key, item) :: rest => do
    match toField key with
    | some name => inField name item
    | none => .unrepresentable .keyWithoutName
    writeNamed toField rest

def writePairs (write : κ → Attempt WriteState Unit) : List (κ × Attempt WriteState Unit) → Attempt WriteState Unit
  | [] => pure ()
  | (key, item) :: rest => do
    inElement do
      inField keyField (write key)
      inField valueField item
    writePairs write rest

/-- Writes a map with keys of any type, given its entries with how their values are written. -/
def writeMap : KeyWriter κ → List (κ × Attempt WriteState Unit) → Attempt WriteState Unit
  | .names toField, entries => writeNamed toField entries
  | .beside write, entries => do
    onWriter (Writer.writeSize entries.length)
    writePairs write entries

end KeyWriter

namespace Saving

open WriteState

variable (env : Saving)

def keyWriter (key : KeyTy) : KeyWriter Atom :=
  if key.isTextual then .names (env.schema.fieldName? key) else .beside fun k => writeLeaf k.leaf

/-- Writes a value as a binding does: with the tag in front. The value is taken as one of the bound type, which is
checked. -/
def throughBinding (binding : OutputBinding) (item : Value) (whole : Attempt WriteState Unit) :
    Attempt WriteState Unit :=
  if item.target? = some binding.bound then do
    writeTag binding.tag
    whole
  else .fail (.incompatibleType binding.tag (env.schema.typeName binding.bound))

/-- Writes a value behind a reference, given how it is written as a whole and how what the declared base shows of it
is. -/
def behind (declared : Target) (item : Value) (whole shown : Attempt WriteState Unit) : Attempt WriteState Unit :=
  if env.schema.isPolymorphic declared then
    if item.target? = some declared then do
      writeTag (env.schema.tag declared)
      whole
    else
      match item.target?.bind (env.registry.output? env.archive) with
      | some binding => env.throughBinding binding item whole
      | none =>
        match env.unknownTypes with
        | .sentinel => do
          note (.writtenAsUnknown ((item.target?.map env.schema.typeName).getD "") (env.schema.typeName declared))
          writeTag unknownTag
          shown
        | .reject => .fail (.unknownRuntimeType ((item.target?.map env.schema.typeName).getD ""))
  else whole

def writing : Value.Algebra (Attempt WriteState Unit) where
  atom a := writeLeaf a.leaf
  absent := writeLeaf .null
  present item := item
  list items := do
    onWriter (Writer.writeSize items.length)
    writeItems items
  map key entries := (env.keyWriter key).writeMap entries
  record name fields := writeFields (env.schema.fieldsOf name) fields
  ref declared item whole shown? := env.behind declared item whole (shown?.getD (pure ()))

def save (v : Value) : Attempt WriteState Unit := env.schema.fold env.writing v

def saveShown (declared : Target) (item : Value) : Attempt WriteState Unit :=
  ((env.schema.shown? declared item).map env.save).getD (pure ())

@[simp] theorem save_atom (a : Atom) : env.save (.atom a) = writeLeaf a.leaf := rfl

@[simp] theorem save_absent : env.save .absent = writeLeaf .null := rfl

@[simp] theorem save_present (item : Value) : env.save (.present item) = env.save item := Schema.fold_present item

@[simp] theorem save_list (items : List Value) :
    env.save (.list items) =
      (onWriter (Writer.writeSize items.length) >>= fun _ => writeItems (items.map env.save)) := by
  rw [save, Schema.fold_list, ← List.length_map env.save]
  rfl

@[simp] theorem save_map (key : KeyTy) (entries : List (Atom × Value)) :
    env.save (.map key entries) = (env.keyWriter key).writeMap (entries.map fun e => (e.1, env.save e.2)) :=
  Schema.fold_map key entries

@[simp] theorem save_record (name : String) (fields : List Value) :
    env.save (.record name fields) = writeFields (env.schema.fieldsOf name) (fields.map env.save) :=
  Schema.fold_record name fields

@[simp] theorem save_ref (declared : Target) (item : Value) :
    env.save (.ref declared item) = env.behind declared item (env.save item) (env.saveShown declared item) :=
  Schema.fold_ref declared item

end Saving

end Archivist
