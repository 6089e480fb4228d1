import Archivist.Event
import Archivist.Schema.Basic
import Archivist.Table

/-!
The registry of bindings. A tag belongs to the first type that claims it. Its owner may be bound for
archives, for each of them on its own, and related to bases that references can be declared with.
None of the operations here takes anything back.
-/

set_option autoImplicit false

namespace Archivist

/-- An archive, known by its name. Bindings for one archive mean nothing to another. -/
structure Archive where
  name : String
  deriving DecidableEq, Repr

namespace Archive

def jsonReader : Archive := ⟨"ps_scribe::archive::json::JsonInputArchive"⟩

def jsonWriter : Archive := ⟨"ps_scribe::archive::json::JsonOutputArchive"⟩

end Archive

structure TypeInfo where
  id : Target
  name : String
  tag : String
  deriving DecidableEq, Repr

def Schema.info (S : Schema) (t : Target) : TypeInfo := ⟨t, S.typeName t, S.tag t⟩

/-- Turns a value of one type into one of a base. A reference that may be shared and one with a single
owner are turned each in its own way. -/
structure Upcaster where
  shared : Target
  unique : Target
  deriving DecidableEq, Repr

namespace Upcaster

def of (t : Target) : Upcaster := ⟨t, t⟩

/-- Whether a value of the given type passes. A counted reference is made from a single owner. -/
def passes (up : Upcaster) (kind : RefKind) (t : Target) : Bool :=
  match kind with
  | .shared => up.shared = t
  | .box | .counted => up.unique = t

end Upcaster

/-- How values of a type are written: with a tag in front. A value is taken for one of the type only after
a check. -/
structure OutputBinding where
  bound : Target
  tag : String
  deriving DecidableEq, Repr

structure Registry where
  owners : Table String Target := {}
  tags : Table Target String := {}
  inputs : Table (Archive × String) Target := {}
  outputs : Table (Archive × Target) OutputBinding := {}
  relations : Table (Target × Target) Upcaster := {}
  deriving Repr

namespace Registry

def empty : Registry := {}

/-- A registry after a change: whether an entry was added, and what there is to say about it. -/
structure Change where
  registry : Registry
  added : Bool
  log : Log := []
  deriving Repr

def typeOf? (r : Registry) (tag : String) : Option Target := r.owners.get? tag

def tagOf? (r : Registry) (t : Target) : Option String := r.tags.get? t

def input? (r : Registry) (a : Archive) (tag : String) : Option Target := r.inputs.get? (a, tag)

def output? (r : Registry) (a : Archive) (t : Target) : Option OutputBinding := r.outputs.get? (a, t)

def upcaster? (r : Registry) (base t : Target) : Option Upcaster := r.relations.get? (base, t)

/-- A type that can never be bound: it has no tag, or another type owns it. -/
def isRefused (r : Registry) (t : TypeInfo) : Bool :=
  t.tag = unknownTag || (r.typeOf? t.tag).any (· ≠ t.id)

/-- Makes a type the owner of its tag if nobody is. Says whether it is the owner now. -/
def claim (r : Registry) (t : TypeInfo) : Change :=
  if t.tag = unknownTag then ⟨r, false, [.untaggedType t.name]⟩
  else match r.typeOf? t.tag with
    | some owner =>
      if owner = t.id then ⟨r, true, []⟩ else ⟨r, false, [.takenTag t.tag t.name]⟩
    | none =>
      let owners := (r.owners.tryInsert t.tag t.id).2
      let tags := (r.tags.tryInsert t.id t.tag).2
      ⟨{ r with owners, tags }, true, []⟩

def insertInput (r : Registry) (t : TypeInfo) (a : Archive) : Change :=
  let claimed := r.claim t
  if claimed.added then
    let r := claimed.registry
    let (added, inputs) := r.inputs.tryInsert (a, t.tag) t.id
    let log := if added then [.boundInput t.name t.tag a.name] else []
    ⟨{ r with inputs }, added, claimed.log ++ log⟩
  else claimed

def insertOutput (r : Registry) (t : TypeInfo) (a : Archive) : Change :=
  let claimed := r.claim t
  if claimed.added then
    let r := claimed.registry
    let (added, outputs) := r.outputs.tryInsert (a, t.id) ⟨t.id, t.tag⟩
    let log := if added then [.boundOutput t.name t.tag a.name] else []
    ⟨{ r with outputs }, added, claimed.log ++ log⟩
  else claimed

/-- Relates a type to a base. The first upcaster stays. -/
def insertRelation (r : Registry) (base t : TypeInfo) (up : Upcaster) : Change :=
  let (added, relations) := r.relations.tryInsert (base.id, t.id) up
  ⟨{ r with relations }, added, if added then [.related t.name base.name] else []⟩

def register (r : Registry) (t : TypeInfo) : Change :=
  let input := r.insertInput t .jsonReader
  let output := input.registry.insertOutput t .jsonWriter
  ⟨output.registry, input.added || output.added, input.log ++ output.log⟩

def describeInput (typeName : String) : String :=
  "InputBinding \x7b type_name: " ++ Text.quoted typeName ++ ", .. \x7d"

def describeOutput (tag : String) : String :=
  "OutputBinding \x7b tag: " ++ Text.quoted tag ++ ", .. \x7d"

def describePending : String := "Registration(..)"

end Registry

end Archivist
