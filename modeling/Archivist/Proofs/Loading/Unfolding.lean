import Archivist.Proofs.Loading.Stability
import Mathlib.Data.List.Forall2

/-!
Loading unfolded. Main statement: a load is put together from the loads of its parts as its type is, and
where a record lies within the node of another, this holds of all loads that come to an end.
-/

set_option autoImplicit false

namespace Archivist

namespace Attempt

/-- What the first step comes to the second one comes to as well, unless it is endless. -/
def Persists {σ α : Type} (x y : Attempt σ α) : Prop := ∀ s, y s = x s ∨ ∃ t, x s = (.error .endless, t)

namespace Persists

section Generic

variable {σ α β : Type} {x y z : Attempt σ α} {f g : α → Attempt σ β}

theorem refl (x : Attempt σ α) : Persists x x := fun _ => .inl rfl

theorem endless (y : Attempt σ α) : Persists (.fail .endless) y := fun s => .inr ⟨s, rfl⟩

theorem trans (h : Persists x y) (h' : Persists y z) : Persists x z := by
  intro s
  rcases h s with hx | hx
  · rw [← hx]
    exact h' s
  · exact .inr hx

theorem bind (hx : Persists x y) (hf : ∀ a, Persists (f a) (g a)) : Persists (x >>= f) (y >>= g) := by
  intro s
  rcases hx s with hy | ⟨t, ht⟩
  · rcases ha : x s with ⟨e | a, t⟩
    · rw [bind_of_eq_error ha, bind_of_eq_error (hy.trans ha)]
      exact .inl rfl
    · rw [bind_of_eq_ok ha, bind_of_eq_ok (hy.trans ha)]
      exact hf a t
  · exact .inr ⟨t, bind_of_eq_error ht⟩

end Generic

variable {α β ρ : Type}

theorem assign {x y : Attempt ReadState α} (h : Persists x y) : Persists (Slot.assign x) (Slot.assign y) := by
  intro slot
  rcases h slot.state with hy | ⟨t, ht⟩
  · exact .inl (by simp only [Slot.assign, hy])
  · exact .inr ⟨_, Slot.assign_of_eq_error ht⟩

theorem fresh {x y : Attempt (Slot α) Unit} (initial : α) (h : Persists x y) :
    Persists (Slot.fresh initial x) (Slot.fresh initial y) := by
  intro s
  rcases h ⟨s, initial⟩ with hy | ⟨t, ht⟩
  · exact .inl (by simp only [Slot.fresh, hy])
  · exact .inr ⟨_, Slot.fresh_of_eq_error ht⟩

theorem within {x y : Attempt (Slot β) ρ} (content : α → β) (make : β → α) (h : Persists x y) :
    Persists (Slot.within content make x) (Slot.within content make y) := by
  intro slot
  rcases h ⟨slot.state, content slot.value⟩ with hy | ⟨t, ht⟩
  · exact .inl (by simp only [Slot.within, hy])
  · exact .inr ⟨_, Slot.within_of_eq ht⟩

theorem inOrder {xs ys : List (Attempt (Slot α) Unit)} (h : List.Forall₂ Persists xs ys) :
    Persists (Slot.inOrder xs) (Slot.inOrder ys) := by
  rintro ⟨s, vs⟩
  simp only [Slot.inOrder]
  induction h generalizing s vs with
  | nil => exact .inl rfl
  | @cons x y xs ys h _ ih =>
    cases vs with
    | nil => exact .inl (by simp)
    | cons v vs =>
      rcases h ⟨s, v⟩ with hy | ⟨t, ht⟩
      · rcases hx : x ⟨s, v⟩ with ⟨e | _, slot⟩
        · rw [Slot.each_cons_of_eq_error hx, Slot.each_cons_of_eq_error (hy.trans hx)]
          exact .inl rfl
        · rcases hr : Slot.each slot.state xs vs with ⟨res, rest⟩
          rw [Slot.each_cons_of_eq_ok hx hr]
          rcases ih slot.state vs with hr' | ⟨t, ht⟩
          · exact .inl (Slot.each_cons_of_eq_ok (hy.trans hx) (hr'.trans hr))
          · cases hr.symm.trans ht
            exact .inr ⟨_, rfl⟩
      · exact .inr ⟨_, Slot.each_cons_of_eq_error ht⟩

end Persists

end Attempt

namespace Loading

open ReadState Attempt

variable (env : Loading)

section Steps

variable {flat flat' : Ty → Attempt (Slot Value) Unit}

/-- How a record loads one of its fields: a flattened one from its own node. -/
def fillPart (deep flat : Ty → Attempt (Slot Value) Unit) (field : Field) : Attempt (Slot Value) Unit :=
  fillField (if field.mode = .flattened then flat else deep) field

theorem fillPart_of_flattened {field : Field} (hm : field.mode = .flattened)
    (deep flat : Ty → Attempt (Slot Value) Unit) : fillPart deep flat field = flat field.type := by
  simp only [fillPart, fillField, hm, if_true]

theorem persists_fillPart (deep : Ty → Attempt (Slot Value) Unit) (h : ∀ type, Persists (flat type) (flat' type))
    (field : Field) : Persists (fillPart deep flat field) (fillPart deep flat' field) := by
  by_cases hm : field.mode = .flattened
  · rw [fillPart_of_flattened hm, fillPart_of_flattened hm]
    exact h field.type
  · simp only [fillPart, if_neg hm]
    exact .refl _

theorem persists_fillRecord (name : String) (deep : Ty → Attempt (Slot Value) Unit)
    (h : ∀ type, Persists (flat type) (flat' type)) :
    Persists (env.fillRecord name deep flat) (env.fillRecord name deep flat') := by
  refine .within _ _ (.inOrder (List.forall₂_map_left_iff.2 (List.forall₂_map_right_iff.2 ?_)))
  exact List.forall₂_same.2 fun field _ => persists_fillPart deep h field

theorem persists_readRef (kind : RefKind) (target : Target) (deep : Ty → Attempt ReadState Value)
    {flat flat' : Ty → Attempt ReadState Value} (h : ∀ type, Persists (flat type) (flat' type)) :
    Persists (env.readRef kind target deep flat) (env.readRef kind target deep flat') := by
  unfold readRef
  split
  · exact .refl _
  · refine .bind ?_ fun _ => .refl _
    unfold readPlain
    split
    · exact h _
    · exact .refl _

theorem persists_readOption {x y : Attempt ReadState Value} (h : Persists x y) :
    Persists (readOption x) (readOption y) := by
  refine .bind (.refl _) fun null => ?_
  cases null with
  | true => exact .refl _
  | false => exact h.bind fun _ => .refl _

theorem persists_succ (lighter : Loader) (steps : Nat) : ∀ type,
    Persists (env.newWithin lighter steps type) (env.newWithin lighter (steps + 1) type) ∧
    Persists (env.intoWithin lighter steps type) (env.intoWithin lighter (steps + 1) type) := by
  induction steps with
  | zero => exact fun _ => ⟨.endless _, .endless _⟩
  | succ steps ih =>
    intro type
    cases type with
    | option item =>
      have ho := persists_readOption (ih item).1
      exact ⟨ho, ho.assign⟩
    | record name =>
      have hr := env.persists_fillRecord name lighter.into fun type => (ih type).2
      exact ⟨hr.fresh _, hr⟩
    | ref kind target =>
      have hr := env.persists_readRef kind target lighter.new fun type => (ih type).1
      exact ⟨hr, hr.assign⟩
    | _ => exact ⟨.refl _, .refl _⟩

theorem persists_within (lighter : Loader) {k j : Nat} (hk : k ≤ j) (type : Ty) :
    Persists (env.newWithin lighter k type) (env.newWithin lighter j type) ∧
    Persists (env.intoWithin lighter k type) (env.intoWithin lighter j type) := by
  induction hk with
  | refl => exact ⟨.refl _, .refl _⟩
  | @step j _ ih =>
    have hstep := env.persists_succ lighter j type
    exact ⟨ih.1.trans hstep.1, ih.2.trans hstep.2⟩

end Steps

section Unfolding

variable (weight : Nat) (type : Ty)

theorem agree_loader_new : Agree .whole weight ((env.loader weight).new type) (env.loadNew type) :=
  fun _ hs => env.loader_new_eq hs type

theorem agree_loader_into : Agree (.slot Value) weight ((env.loader weight).into type) (env.load type) :=
  fun _ hs => env.loader_into_eq hs type

theorem load_list (kind : ListKind) (item : Ty) : env.load (.list kind item) = fillList (env.loadNew item) := by
  funext slot
  have hl := ((Local.stepwise env.schema).loader env slot.state.reader.weight).1 item
  exact agree_fillList hl (env.agree_loader_new _ item) slot (Nat.lt_succ_self _)

theorem load_array (item : Ty) (length : Nat) :
    env.load (.array item length) = fillArray length (env.load item) := by
  funext slot
  have hl := ((Local.stepwise env.schema).loader env slot.state.reader.weight).2 item
  exact agree_fillArray hl (env.agree_loader_into _ item) length slot (Nat.lt_succ_self _)

theorem load_map (kind : MapKind) (key : KeyTy) (item : Ty) :
    env.load (.map kind key item) = env.fillMap kind key (env.loadNew item) := by
  funext slot
  have hl := ((Local.stepwise env.schema).loader env slot.state.reader.weight).1 item
  exact agree_fillMap env hl (env.agree_loader_new _ item) kind key slot (Nat.lt_succ_self _)

/-- Flattened fields are loaded in fewer steps than they would be on their own, which makes no difference if
the load ends. -/
theorem persists_load_record (name : String) :
    Persists (env.load (.record name)) (env.fillRecord name env.load env.load) := by
  intro slot
  have hstep : env.steps (.record name) = 2 * env.schema.span + 1 + 1 := rfl
  generalize hw : slot.state.reader.weight = weight
  have hl := (Local.stepwise env.schema).loader env weight
  have hl' := ((Local.stepwise env.schema).loader env (weight + 1)).2
  have hload : env.load (.record name) slot =
      env.fillRecord name (env.loader weight).into
        (env.intoWithin (env.loader weight) (2 * env.schema.span + 1)) slot := by
    simp only [load, hw, loader, hstep, intoWithin]
  have hflat : ∀ type, Persists (env.intoWithin (env.loader weight) (2 * env.schema.span + 1) type)
      ((env.loader (weight + 1)).into type) := fun type =>
    (env.persists_within _ (by simp only [steps]; omega) type).2
  have hfill : env.fillRecord name (env.loader weight).into (env.loader (weight + 1)).into slot =
      env.fillRecord name env.load env.load slot :=
    agree_fillRecord env name hl.2 hl' (env.agree_loader_into weight) (env.agree_loader_into (weight + 1)) slot
      (Nat.lt_succ_of_le (Nat.le_of_eq hw))
  rw [hload, ← hfill]
  exact env.persists_fillRecord name _ hflat slot

end Unfolding

end Loading

end Archivist
