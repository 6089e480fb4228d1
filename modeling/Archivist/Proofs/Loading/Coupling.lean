import Mathlib.Data.List.Forall2
import Archivist.Proofs.Loading.Principle

/-!
Two runs side by side. Steps are coupled if from related states they both succeed, with related results
in related states again, or both fail; whatever is put together from coupled steps is coupled.
-/

set_option autoImplicit false

namespace Archivist

/-- How two runs end together: `R` relates what they leave if they succeed, `F` if they fail. -/
inductive Ending {σ α : Type} (F : Error → σ → Error → σ → Prop) (R : σ → σ → Prop) (A : α → α → Prop) :
    Except Error α × σ → Except Error α × σ → Prop where
  | ok {a b : α} {s t : σ} (ha : A a b) (hs : R s t) : Ending F R A (.ok a, s) (.ok b, t)
  | error {e e' : Error} {s t : σ} (h : F e s e' t) : Ending F R A (.error e, s) (.error e', t)

/-- Nothing is said of how two runs fail, but that they both do. -/
def Unspecified {σ : Type} (_ : Error) (_ : σ) (_ : Error) (_ : σ) : Prop := True

theorem Ending.cases {σ α : Type} {F : Error → σ → Error → σ → Prop} {R : σ → σ → Prop} {A : α → α → Prop}
    {p q : Except Error α × σ} (h : Ending F R A p q) :
    (∃ a b s t, p = (.ok a, s) ∧ q = (.ok b, t) ∧ A a b ∧ R s t) ∨
    ∃ e e' s t, p = (.error e, s) ∧ q = (.error e', t) ∧ F e s e' t := by
  cases h with
  | ok ha hs => exact .inl ⟨_, _, _, _, rfl, rfl, ha, hs⟩
  | error h => exact .inr ⟨_, _, _, _, rfl, rfl, h⟩

/-- Steps that take states related by `R` to states related by `R'`, with results related by `A`. -/
def Coupled {σ α : Type} (F : Error → σ → Error → σ → Prop) (R R' : σ → σ → Prop) (A : α → α → Prop)
    (x y : Attempt σ α) : Prop :=
  ∀ ⦃s t : σ⦄, R s t → Ending F R' A (x s) (y t)

namespace Slot

def Related {α : Type} (R : ReadState → ReadState → Prop) (B : α → α → Prop) (p q : Slot α) : Prop :=
  R p.state q.state ∧ B p.value q.value

/-- What failures leave in slots counts only as far as the states go. -/
def Failing {α : Type} (F : Error → ReadState → Error → ReadState → Prop) (e : Error) (p : Slot α) (e' : Error)
    (q : Slot α) : Prop :=
  F e p.state e' q.state

end Slot

namespace Coupled

section Generic

variable {σ α β : Type} {F : Error → σ → Error → σ → Prop} {R R' R'' : σ → σ → Prop}
  {A : α → α → Prop} {B : β → β → Prop} {x y : Attempt σ α} {f g : α → Attempt σ β}

theorem pure {a b : α} (h : A a b) : Coupled F R R A (Pure.pure a) (Pure.pure b) := fun _ _ hs => .ok h hs

theorem fail {e e' : Error} (h : ∀ {s t}, R s t → F e s e' t) :
    Coupled F R R' A (.fail e) (.fail e') := fun _ _ hs => .error (h hs)

theorem bind (hx : Coupled F R R' A x y) (hf : ∀ a b, A a b → Coupled F R' R'' B (f a) (g b)) :
    Coupled F R R'' B (x >>= f) (y >>= g) := by
  intro s t hs
  obtain ⟨a, b, s', t', hx, hy, ha, hs'⟩ | ⟨e, e', s', t', hx, hy, h⟩ := (hx hs).cases
  · rw [Attempt.bind_of_eq_ok hx, Attempt.bind_of_eq_ok hy]
    exact hf a b ha hs'
  · rw [Attempt.bind_of_eq_error hx, Attempt.bind_of_eq_error hy]
    exact .error h

end Generic

variable {α β ρ : Type} {F : Error → ReadState → Error → ReadState → Prop} {R R' : ReadState → ReadState → Prop}
  {A : ρ → ρ → Prop} {B B' : α → α → Prop} {C C' : β → β → Prop}

theorem lift {x y : Attempt ReadState ρ} (h : Coupled F R R' A x y) :
    Coupled (Slot.Failing F) (Slot.Related R B) (Slot.Related R' B) A (Slot.lift x) (Slot.lift y) := by
  intro p q hp
  obtain ⟨a, b, s, t, hx, hy, ha, hs⟩ | ⟨e, e', s, t, hx, hy, hf⟩ := (h hp.1).cases
  · rw [Slot.lift_of_eq hx, Slot.lift_of_eq hy]
    exact .ok ha ⟨hs, hp.2⟩
  · rw [Slot.lift_of_eq hx, Slot.lift_of_eq hy]
    exact .error hf

theorem update {f g : α → α} (h : ∀ a b, B a b → B (f a) (g b)) :
    Coupled (Slot.Failing F) (Slot.Related R B) (Slot.Related R B) Eq (Slot.update f) (Slot.update g) :=
  fun p q hp => .ok rfl ⟨hp.1, h p.value q.value hp.2⟩

theorem assign {x y : Attempt ReadState α} (h : Coupled F R R' B' x y) :
    Coupled (Slot.Failing F) (Slot.Related R B) (Slot.Related R' B') Eq (Slot.assign x) (Slot.assign y) := by
  intro p q hp
  obtain ⟨a, b, s, t, hx, hy, ha, hs⟩ | ⟨e, e', s, t, hx, hy, hf⟩ := (h hp.1).cases
  · rw [Slot.assign_of_eq_ok hx, Slot.assign_of_eq_ok hy]
    exact .ok rfl ⟨hs, ha⟩
  · rw [Slot.assign_of_eq_error hx, Slot.assign_of_eq_error hy]
    exact .error hf

theorem fresh {x y : Attempt (Slot α) Unit} {a b : α} (hab : B a b)
    (h : Coupled (Slot.Failing F) (Slot.Related R B) (Slot.Related R' B') Eq x y) :
    Coupled F R R' B' (Slot.fresh a x) (Slot.fresh b y) := by
  intro s t hs
  have hp : Slot.Related R B ⟨s, a⟩ ⟨t, b⟩ := ⟨hs, hab⟩
  obtain ⟨_, _, p, q, hx, hy, -, hpq⟩ | ⟨e, e', p, q, hx, hy, hf⟩ := (h hp).cases
  · rw [Slot.fresh_of_eq_ok hx, Slot.fresh_of_eq_ok hy]
    exact .ok hpq.2 hpq.1
  · rw [Slot.fresh_of_eq_error hx, Slot.fresh_of_eq_error hy]
    exact .error hf

theorem within {x y : Attempt (Slot β) ρ} {content : α → β} {make : β → α}
    (hc : ∀ a b, B a b → C (content a) (content b)) (hm : ∀ a b, C' a b → B' (make a) (make b))
    (h : Coupled (Slot.Failing F) (Slot.Related R C) (Slot.Related R' C') A x y) :
    Coupled (Slot.Failing F) (Slot.Related R B) (Slot.Related R' B') A (Slot.within content make x)
      (Slot.within content make y) := by
  intro p q hp
  have hi : Slot.Related R C ⟨p.state, content p.value⟩ ⟨q.state, content q.value⟩ := ⟨hp.1, hc _ _ hp.2⟩
  obtain ⟨a, b, p', q', hx, hy, ha, hpq⟩ | ⟨e, e', p', q', hx, hy, hf⟩ := (h hi).cases
  · rw [Slot.within_of_eq hx, Slot.within_of_eq hy]
    exact .ok ha ⟨hpq.1, hm _ _ hpq.2⟩
  · rw [Slot.within_of_eq hx, Slot.within_of_eq hy]
    exact .error hf

theorem inOrder {xs ys : List (Attempt (Slot α) Unit)}
    (h : List.Forall₂ (Coupled (Slot.Failing F) (Slot.Related R B) (Slot.Related R B) Eq) xs ys) :
    Coupled (Slot.Failing F) (Slot.Related R (List.Forall₂ B)) (Slot.Related R (List.Forall₂ B)) Eq
      (Slot.inOrder xs) (Slot.inOrder ys) := by
  rintro ⟨s, vs⟩ ⟨t, ws⟩ ⟨hs, hvs⟩
  simp only [Slot.inOrder] at hs hvs ⊢
  induction h generalizing s t vs ws with
  | nil =>
    simp only [Slot.each_nil]
    exact .ok rfl ⟨hs, hvs⟩
  | cons hx _ ih =>
    cases hvs with
    | nil =>
      simp only [Slot.each_of_nil]
      exact .ok rfl ⟨hs, .nil⟩
    | @cons v w vs ws hv hvs =>
      have hp : Slot.Related R B ⟨s, v⟩ ⟨t, w⟩ := ⟨hs, hv⟩
      obtain ⟨_, _, p, q, hx, hy, -, hpq⟩ | ⟨e, e', p, q, hx, hy, hf⟩ := (hx hp).cases
      · obtain ⟨_, _, p', q', hr, hr', -, hpq'⟩ | ⟨e, e', p', q', hr, hr', hf⟩ :=
          (ih p.state vs q.state ws hpq.1 hvs).cases
        · rw [Slot.each_cons_of_eq_ok hx hr, Slot.each_cons_of_eq_ok hy hr']
          exact .ok rfl ⟨hpq'.1, .cons hpq.2 hpq'.2⟩
        · rw [Slot.each_cons_of_eq_ok hx hr, Slot.each_cons_of_eq_ok hy hr']
          exact .error hf
      · rw [Slot.each_cons_of_eq_error hx, Slot.each_cons_of_eq_error hy]
        exact .error hf

end Coupled

end Archivist
