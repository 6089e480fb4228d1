import Archivist.Registry.Basic

/-!
The registry that all users share. Each operation looks first whether there is anything to do, and
changes the registry only then. The look and the change are separate steps, between which others may
come.
-/

set_option autoImplicit false

namespace Archivist.Registry

/-- Nothing to do for a type that cannot be bound or is bound for reading and writing JSON. -/
def isSettled (r : Registry) (t : TypeInfo) : Bool :=
  r.isRefused t || (r.input? .jsonReader t.tag).isSome && (r.output? .jsonWriter t.id).isSome

def isInputSettled (r : Registry) (t : TypeInfo) (a : Archive) : Bool :=
  r.isRefused t || (r.input? a t.tag).isSome

def isOutputSettled (r : Registry) (t : TypeInfo) (a : Archive) : Bool :=
  r.isRefused t || (r.output? a t.id).isSome

def ensure (r : Registry) (t : TypeInfo) : Change :=
  if r.isSettled t then ⟨r, false, []⟩ else r.register t

def ensureInput (r : Registry) (t : TypeInfo) (a : Archive) : Change :=
  if r.isInputSettled t a then ⟨r, false, []⟩ else r.insertInput t a

def ensureOutput (r : Registry) (t : TypeInfo) (a : Archive) : Change :=
  if r.isOutputSettled t a then ⟨r, false, []⟩ else r.insertOutput t a

end Archivist.Registry
