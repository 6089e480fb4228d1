import Archivist.Error

/-!
Steps on a state that may fail. A failed step keeps what it did to the state, which is how nodes left
open and half-filled values show.
-/

set_option autoImplicit false

namespace Archivist

/-- A step on a state of type `σ`: its result or error, and the state it leaves either way. -/
def Attempt (σ α : Type) : Type := σ → Except Error α × σ

namespace Attempt

variable {σ τ α β : Type}

protected def pure (a : α) : Attempt σ α := fun s => (.ok a, s)

protected def bind (x : Attempt σ α) (f : α → Attempt σ β) : Attempt σ β := fun s =>
  match x s with
  | (.ok a, s) => f a s
  | (.error e, s) => (.error e, s)

instance : Monad (Attempt σ) where
  pure := Attempt.pure
  bind := Attempt.bind

def fail (e : Error) : Attempt σ α := fun s => (.error e, s)

def malformed (cause : Malformed) : Attempt σ α := fail (.malformed cause)

def unrepresentable (cause : Unrepresentable) : Attempt σ α := fail (.unrepresentable cause)

def get : Attempt σ σ := fun s => (.ok s, s)

def modify (f : σ → σ) : Attempt σ Unit := fun s => (.ok (), f s)

def on (part : σ → τ) (put : σ → τ → σ) (x : Attempt τ α) : Attempt σ α := fun s =>
  match x (part s) with
  | (r, t) => (r, put s t)

@[simp] theorem pure_apply (a : α) (s : σ) : (pure a : Attempt σ α) s = (.ok a, s) := rfl

@[simp] theorem bind_apply (x : Attempt σ α) (f : α → Attempt σ β) (s : σ) :
    (x >>= f) s = match x s with
      | (.ok a, s) => f a s
      | (.error e, s) => (.error e, s) := rfl

@[simp] theorem fail_apply (e : Error) (s : σ) : (fail e : Attempt σ α) s = (.error e, s) := rfl

instance : LawfulMonad (Attempt σ) :=
  LawfulMonad.mk' (Attempt σ)
    (fun x => by
      funext s
      simp only [Functor.map, Attempt.bind, Function.comp_apply, Attempt.pure]
      rcases x s with ⟨_ | _, _⟩ <;> rfl)
    (fun _ _ => rfl)
    (fun x f g => by
      funext s
      simp only [bind_apply]
      rcases x s with ⟨_ | _, _⟩ <;> rfl)

end Attempt

end Archivist
