import Archivist.Proofs.Loading.Principle
import Archivist.Proofs.Registry.History

/-!
What loads do to the registry, whether they fail or not: they bind types for reading, one after the
other, and nothing else.
-/

set_option autoImplicit false

namespace Archivist

/-- Where a step keeps the state that reading works on. -/
structure View (σ : Type) where
  get : σ → ReadState
  put : σ → ReadState → σ

namespace View

def whole : View ReadState := ⟨id, fun _ s => s⟩

def slot (α : Type) : View (Slot α) := ⟨Slot.state, fun slot state => { slot with state }⟩

variable {σ : Type} (V : View σ)

def registry (s : σ) : Registry := (V.get s).registry

def reader (s : σ) : Reader := (V.get s).reader

/-- The same state with another registry and log. -/
def under (s : σ) (r : Registry) (log : Log) : σ := V.put s ⟨(V.get s).reader, r, log⟩

@[simp] theorem registry_whole (s : ReadState) : whole.registry s = s.registry := rfl

@[simp] theorem registry_slot {α : Type} (s : Slot α) : (slot α).registry s = s.state.registry := rfl

@[simp] theorem reader_whole (s : ReadState) : whole.reader s = s.reader := rfl

@[simp] theorem reader_slot {α : Type} (s : Slot α) : (slot α).reader s = s.state.reader := rfl

@[simp] theorem under_whole (s : ReadState) (r : Registry) (log : Log) :
    whole.under s r log = ⟨s.reader, r, log⟩ := rfl

@[simp] theorem under_slot {α : Type} (s : Slot α) (r : Registry) (log : Log) :
    (slot α).under s r log = ⟨⟨s.state.reader, r, log⟩, s.value⟩ := rfl

end View

/-- A relation between registries that any number of steps can go through. -/
structure Advance (R : Registry → Registry → Prop) : Prop where
  refl (r : Registry) : R r r
  trans {r r' r'' : Registry} : R r r' → R r' r'' → R r r''

/-- A step that takes the registry to a related one. -/
def Advances {σ α : Type} (R : Registry → Registry → Prop) (V : View σ) (x : Attempt σ α) : Prop :=
  ∀ s, R (V.registry s) (V.registry (x s).2)

namespace Advances

variable {R : Registry → Registry → Prop} {α β ρ : Type}

theorem lift {x : Attempt ReadState ρ} (hx : Advances R .whole x) :
    Advances R (.slot α) (Slot.lift x) := by
  intro slot
  have hs := hx slot.state
  rcases hxs : x slot.state with ⟨res, t⟩
  rw [hxs] at hs
  rwa [Slot.lift_of_eq hxs]

theorem assign {x : Attempt ReadState α} (hx : Advances R .whole x) :
    Advances R (.slot α) (Slot.assign x) := by
  intro slot
  rw [View.registry_slot, View.registry_slot, Slot.state_assign]
  exact hx slot.state

theorem fresh {x : Attempt (Slot α) Unit} (initial : α) (hx : Advances R (.slot α) x) :
    Advances R .whole (Slot.fresh initial x) := by
  intro s
  rw [View.registry_whole, View.registry_whole, Slot.state_fresh]
  exact hx ⟨s, initial⟩

theorem within {x : Attempt (Slot β) ρ} (content : α → β) (make : β → α)
    (hx : Advances R (.slot β) x) : Advances R (.slot α) (Slot.within content make x) := by
  intro slot
  have hs := hx ⟨slot.state, content slot.value⟩
  rcases hxs : x ⟨slot.state, content slot.value⟩ with ⟨res, inner⟩
  rw [hxs] at hs
  rwa [Slot.within_of_eq hxs]

end Advances

namespace Advance

open ReadState

variable {R : Registry → Registry → Prop} (h : Advance R)
variable {σ α β : Type} {V : View σ}

include h

theorem pure (a : α) : Advances R V (Pure.pure a) := fun _ => h.refl _

theorem fail (e : Error) : Advances R V (.fail e : Attempt σ α) := fun _ => h.refl _

theorem bind {x : Attempt σ α} {f : α → Attempt σ β} (hx : Advances R V x)
    (hf : ∀ a, Advances R V (f a)) : Advances R V (x >>= f) := by
  intro s
  have hs := hx s
  rcases hxs : x s with ⟨e | a, t⟩
  · rw [hxs] at hs
    rw [Attempt.bind_of_eq_error hxs]
    exact hs
  · rw [hxs] at hs
    rw [Attempt.bind_of_eq_ok hxs]
    exact h.trans hs (hf a t)

theorem onReader (x : Attempt Reader α) : Advances R .whole (onReader x) := fun _ => h.refl _

theorem ask {γ : Type} {answer : Registry → Option γ} {k : γ → Attempt ReadState α} (e : Error)
    (hk : ∀ c, Advances R .whole (k c)) :
    Advances R .whole (withRegistry fun r => (answer r).elim (.fail e) k) := by
  intro s
  change R s.registry ((answer s.registry).elim (.fail e) k s).2.registry
  cases answer s.registry with
  | none => exact h.refl _
  | some c => exact hk c s

theorem enterOptional (name : String) : Advances R .whole (Loading.enterOptional name) := by
  intro s
  rcases hx : Reader.startField name s.reader with ⟨e | _, reader⟩
  · simp only [Loading.enterOptional, onReader_of_eq hx]
    split <;> exact h.refl _
  · simp only [Loading.enterOptional, onReader_of_eq hx]
    exact h.refl _

theorem readTag : Advances R .whole Loading.readTag := by
  refine h.bind (fun s => ?_) fun _ => h.bind (h.onReader _) fun leaf => ?_
  · rcases hx : Reader.startField tagField s.reader with ⟨e | _, reader⟩
    · cases e <;> simp only [Loading.enterTag, onReader_of_eq hx] <;> exact h.refl _
    · simp only [Loading.enterTag, onReader_of_eq hx]
      exact h.refl _
  · split
    · exact h.bind (h.onReader _) fun _ => h.pure _
    · exact h.fail _

theorem each {xs : List (Attempt (Slot α) Unit)} (hx : ∀ x ∈ xs, Advances R (.slot α) x)
    (s : ReadState) (vs : List α) : R s.registry (Slot.each s xs vs).2.state.registry := by
  induction xs generalizing s vs with
  | nil => simpa using h.refl _
  | cons x xs ih =>
    cases vs with
    | nil => simpa using h.refl _
    | cons v vs =>
      have hs := hx x (by simp) ⟨s, v⟩
      rcases hxs : x ⟨s, v⟩ with ⟨e | _, slot⟩
      · rw [hxs] at hs
        rwa [Slot.each_cons_of_eq_error hxs]
      · rw [hxs] at hs
        rcases hr : Slot.each slot.state xs vs with ⟨res, rest⟩
        have hrest := ih (fun x hm => hx x (by simp [hm])) slot.state vs
        rw [hr] at hrest
        rw [Slot.each_cons_of_eq_ok hxs hr]
        exact h.trans hs hrest

theorem stepwise {S : Schema}
    (ensure : ∀ r t a, R r (Registry.ensureInput r (S.info t) a).registry) :
    Loading.Stepwise S (Advances R .whole) (fun {α} => Advances R (.slot α)) where
  pure := h.pure
  fail := h.fail
  bind := h.bind
  readValue := h.onReader _
  isNull := h.onReader _
  readSize := h.onReader _
  nextFieldName := h.onReader _
  inField _ hx := h.bind (h.onReader _) fun _ => h.bind hx fun _ => h.bind (h.onReader _) fun _ => h.pure _
  inElement hx := h.bind (h.onReader _) fun _ => h.bind hx fun _ => h.bind (h.onReader _) fun _ => h.pure _
  readTag := h.readTag
  ensure t a s := ensure s.registry t a
  ask _ e _ _ hk := h.ask e hk
  fresh := .fresh
  pureIn := h.pure
  failIn := h.fail
  bindIn := h.bind
  lift := .lift
  update _ _ := h.refl _
  assign := .assign
  within := .within
  inOrder hx slot := h.each hx slot.state slot.value
  field _ hx := h.bind (.lift (h.onReader _)) fun _ => h.bind hx fun _ => .lift (h.onReader _)
  optional name hx := by
    refine h.bind (.lift (h.enterOptional name)) fun entered => ?_
    split
    · exact h.bind hx fun _ => .lift (h.onReader _)
    · exact h.pure _
  element hx := h.bind (.lift (h.onReader _)) fun _ => h.bind hx fun _ => .lift (h.onReader _)
  count hf slot := hf (slot.state.reader.fieldCount + 1) slot

section Load

variable {env : Loading}
  (ensure : ∀ r t a, R r (Registry.ensureInput r (env.schema.info t) a).registry)

include ensure

theorem loadNew (type : Ty) : Advances R .whole (env.loadNew type) := fun s =>
  ((h.stepwise ensure).loader env (s.reader.weight + 1)).1 type s

theorem load (type : Ty) : Advances R (.slot Value) (env.load type) := fun slot =>
  ((h.stepwise ensure).loader env (slot.state.reader.weight + 1)).2 type slot

end Load

end Advance

namespace Registry

theorem Extends.advance : Advance Extends := ⟨.refl, .trans⟩

/-- A registry after bindings for reading were inserted into another. -/
def Warms (S : Schema) (r r' : Registry) : Prop :=
  ∃ bindings : List (Target × Archive),
    r' = r.run S (bindings.map fun (t, a) => .insert (.input t a))

theorem warms_ensureInput (S : Schema) (r : Registry) (t : Target) (a : Archive) :
    Warms S r (r.ensureInput (S.info t) a).registry := by
  unfold ensureInput
  split
  · exact ⟨[], rfl⟩
  · exact ⟨[(t, a)], rfl⟩

theorem Warms.advance (S : Schema) : Advance (Warms S) where
  refl _ := ⟨[], rfl⟩
  trans := by
    rintro r _ _ ⟨bindings, rfl⟩ ⟨others, rfl⟩
    exact ⟨bindings ++ others, by rw [List.map_append, run_append]⟩

/-- Loads insert bindings for reading and nothing else. -/
theorem warms_loadNew (env : Loading) (type : Ty) :
    Advances (Warms env.schema) .whole (env.loadNew type) :=
  (Warms.advance env.schema).loadNew (warms_ensureInput env.schema) type

theorem warms_load (env : Loading) (type : Ty) :
    Advances (Warms env.schema) (.slot Value) (env.load type) :=
  (Warms.advance env.schema).load (warms_ensureInput env.schema) type

end Registry

end Archivist
