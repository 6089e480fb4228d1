import Archivist.Archive.Reader
import Archivist.Registry.Basic

/-!
Loading in place: the value that is being loaded is part of the state, so a load that fails leaves it
as far as it got.
-/

set_option autoImplicit false

namespace Archivist

/-- What reading works on besides the value it makes. -/
structure ReadState where
  reader : Reader
  registry : Registry
  log : Log := []
  deriving Repr

/-- A value that is being loaded in place. -/
structure Slot (α : Type) where
  state : ReadState
  value : α
  deriving Repr

namespace ReadState

variable {α : Type}

def onReader (x : Attempt Reader α) : Attempt ReadState α :=
  x.on ReadState.reader fun s reader => { s with reader }

def note (event : Event) : Attempt ReadState Unit :=
  .modify fun s => { s with log := s.log ++ [event] }

def withRegistry (x : Registry → Attempt ReadState α) : Attempt ReadState α := fun s =>
  x s.registry s

def change (f : Registry → Registry.Change) : Attempt ReadState Unit := fun s =>
  let c := f s.registry
  (.ok (), { s with registry := c.registry, log := s.log ++ c.log })

/-- Reads one field: enters it, reads it, leaves it. If reading fails the field stays entered. -/
def inField (name : String) (read : Attempt ReadState α) : Attempt ReadState α := do
  onReader (Reader.startField name)
  let value ← read
  onReader Reader.finishNode
  return value

def inElement (read : Attempt ReadState α) : Attempt ReadState α := do
  onReader Reader.startElement
  let value ← read
  onReader Reader.finishNode
  return value

end ReadState

namespace Slot

variable {α β ρ : Type}

def lift (x : Attempt ReadState ρ) : Attempt (Slot α) ρ :=
  x.on Slot.state fun slot state => { slot with state }

/-- Replaces the value by a new one, if that could be read. -/
def assign (x : Attempt ReadState α) : Attempt (Slot α) Unit := fun slot =>
  match x slot.state with
  | (.ok value, state) => (.ok (), ⟨state, value⟩)
  | (.error e, state) => (.error e, ⟨state, slot.value⟩)

def fresh (initial : α) (x : Attempt (Slot α) Unit) : Attempt ReadState α := fun s =>
  match x ⟨s, initial⟩ with
  | (.ok (), slot) => (.ok slot.value, slot.state)
  | (.error e, slot) => (.error e, slot.state)

def update (f : α → α) : Attempt (Slot α) Unit := .modify fun slot => { slot with value := f slot.value }

/-- Loads the content of a value, which is put together again whether that fails or not. -/
def within (content : α → β) (make : β → α) (x : Attempt (Slot β) ρ) : Attempt (Slot α) ρ :=
  fun slot =>
    match x ⟨slot.state, content slot.value⟩ with
    | (r, inner) => (r, ⟨inner.state, make inner.value⟩)

/-- Loads values one after the other, each by its own step; values without a step stay as they are. -/
def each (s : ReadState) : List (Attempt (Slot α) Unit) → List α → Except Error Unit × Slot (List α)
  | x :: xs, value :: values =>
    match x ⟨s, value⟩ with
    | (.ok (), slot) =>
      match each slot.state xs values with
      | (r, rest) => (r, ⟨rest.state, slot.value :: rest.value⟩)
    | (.error e, slot) => (.error e, ⟨slot.state, slot.value :: values⟩)
  | _, values => (.ok (), ⟨s, values⟩)

def inOrder (xs : List (Attempt (Slot α) Unit)) : Attempt (Slot (List α)) Unit := fun slot =>
  each slot.state xs slot.value

end Slot

end Archivist
