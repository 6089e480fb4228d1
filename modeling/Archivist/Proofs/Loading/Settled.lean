import Archivist.Proofs.Loading.Polymorphic
import Archivist.Proofs.Reordering.Outcome

/-!
Loads for which nothing is left to bind. If the registry has all tagged types that a load can come to,
the load leaves it as it is, and every tag stands for the same type from the first step to the last.
-/

set_option autoImplicit false

namespace Archivist

open ReadState

namespace Loading

namespace Stepwise

variable {P : {α : Type} → Attempt ReadState α → Prop} {Q : {α ρ : Type} → Attempt (Slot α) ρ → Prop}
  {S : Schema} (h : Stepwise S P Q) (env : Loading) (r : Registry)

include h

theorem fillDeclared {load : Ty → Attempt (Slot Value) Unit} {field : Field}
    (hl : field.mode ≠ .skipped → Q (load field.type)) : Q (Loading.fillField load field) := by
  by_cases hm : field.mode = .skipped
  · simp only [Loading.fillField, hm]
    exact h.pureIn _
  · have hf : Q (Loading.fillField (fun _ => load field.type) field) := h.fillField (fun _ => hl hm) field
    exact hf

/-- Every load that starts from the root has a property that is kept step by step, if the references
that it can come to keep it. -/
theorem reached_within {root : Ty} {lighter : Loader}
    (href : ∀ {kind target} {deep flat : Ty → Attempt ReadState Value}, env.Reaches r root (.ref kind target) →
      (∀ type, env.Reaches r root type → P (deep type)) → (∀ type, env.Reaches r root type → P (flat type)) →
        P (env.readRef kind target deep flat))
    (hl : ∀ type, env.Reaches r root type → P (lighter.new type) ∧ Q (lighter.into type)) (steps : Nat) :
    ∀ type, env.Reaches r root type →
      P (env.newWithin lighter steps type) ∧ Q (env.intoWithin lighter steps type) := by
  induction steps with
  | zero => exact fun _ _ => ⟨h.fail _, h.failIn _⟩
  | succ steps ih =>
    intro type ht
    cases type with
    | atom type =>
      have ha := h.bind (h.readAtom type) fun a => h.pure (Value.atom a)
      exact ⟨ha, h.assign ha⟩
    | option item =>
      have ho := h.readOption (ih item (ht.part (by simp [parts]))).1
      exact ⟨ho, h.assign ho⟩
    | list kind item =>
      have hf := h.fillList (hl item (ht.part (by simp [parts]))).1
      exact ⟨h.fresh _ hf, hf⟩
    | array item length =>
      obtain ⟨hn, hi⟩ := hl item (ht.part (by simp [parts]))
      exact ⟨h.readArray length hn, h.fillArray length hi⟩
    | map kind key item =>
      have hm := h.fillMap env kind key (hl item (ht.part (by simp [parts]))).1
      exact ⟨h.fresh _ hm, hm⟩
    | record name =>
      have hr : Q (env.fillRecord name lighter.into (env.intoWithin lighter steps)) := by
        refine h.within _ _ (h.inOrder fun x hx => ?_)
        obtain ⟨field, hf, rfl⟩ := List.mem_map.1 hx
        have hfield := fun hm => ht.part (mem_parts_of_field (r := r) hf hm)
        split
        · exact h.fillDeclared fun hm => (ih _ (hfield hm)).2
        · exact h.fillDeclared fun hm => (hl _ (hfield hm)).2
      exact ⟨h.fresh _ hr, hr⟩
    | ref kind target =>
      have hr := href ht (fun type h => (hl type h).1) fun type h => (ih type h).1
      exact ⟨hr, h.assign hr⟩

theorem reached {root : Ty}
    (href : ∀ {kind target} {deep flat : Ty → Attempt ReadState Value}, env.Reaches r root (.ref kind target) →
      (∀ type, env.Reaches r root type → P (deep type)) → (∀ type, env.Reaches r root type → P (flat type)) →
        P (env.readRef kind target deep flat)) (weight : Nat) :
    ∀ type, env.Reaches r root type →
      P ((env.loader weight).new type) ∧ Q ((env.loader weight).into type) := by
  induction weight with
  | zero => exact fun _ _ => ⟨h.fail _, h.failIn _⟩
  | succ weight ih => exact fun type => h.reached_within env r href ih (env.steps type) type

end Stepwise

variable (env : Loading) (r : Registry)

/-- Nothing is left to bind for the references that loading a value of the root type can come to. -/
def Settled (root : Ty) : Prop :=
  ∀ ⦃kind target⦄, env.Reaches r root (.ref kind target) → (env.schema.identity target).isTagged = true →
    r.isInputSettled (env.schema.info target) env.archive = true

variable {env r}

section References

variable {target : Target} {s t : ReadState}

theorem warmUp_settled (h : (env.schema.identity target).isTagged = true →
      r.isInputSettled (env.schema.info target) env.archive = true) (hs : s.registry = r) :
    env.warmUp target s = (.ok (), s) := by
  subst hs
  unfold warmUp
  split
  · rename_i ht
    simp [change, Registry.ensureInput_of_settled _ _ _ (h ht)]
  · rfl

theorem resolve_settled (h : (env.schema.identity target).isTagged = true →
      r.isInputSettled (env.schema.info target) env.archive = true) (hs : s.registry = r) {tag : String}
    (ht : readTag s = (.ok tag, t)) :
    env.resolve target s =
      match env.bound? t.registry tag with
      | none => (.error (.unknownType tag), t)
      | some found => (.ok (tag, found), t) :=
  resolve_of_eq (by rw [warmUp_settled h hs, ht])

end References

end Loading

namespace Registry

/-- Registries that do not change from a given one on. -/
def Staying (r a b : Registry) : Prop := a = r → b = r

theorem Staying.advance (r : Registry) : Advance (Staying r) := ⟨fun _ => id, fun h h' => h' ∘ h⟩

end Registry

namespace Loading

open Registry

variable {env : Loading} {r : Registry}

theorem staying_readRef {kind : RefKind} {target : Target} {deep flat : Ty → Attempt ReadState Value}
    (h : (env.schema.identity target).isTagged = true →
      r.isInputSettled (env.schema.info target) env.archive = true)
    (hd : ∀ type ∈ env.parts r (.ref kind target), Advances (Staying r) .whole (deep type))
    (hf : ∀ type ∈ env.parts r (.ref kind target), Advances (Staying r) .whole (flat type)) :
    Advances (Staying r) .whole (env.readRef kind target deep flat) := by
  have hstay := Staying.advance r
  unfold readRef
  split
  · rename_i hp
    intro s hs
    rw [View.registry_whole] at hs
    have htag : Staying r s.registry (readTag s).2.registry := hstay.readTag s
    rcases ht : readTag s with ⟨e | tag, t⟩
    · have hr : env.resolve target s = (.error e, t) := resolve_of_eq (by rw [warmUp_settled h hs, ht])
      rw [readTagged_of_resolve_error hr]
      rw [ht] at htag
      exact htag hs
    · rw [ht] at htag
      have htr : t.registry = r := htag hs
      have hr := resolve_settled h hs ht
      cases hb : env.bound? t.registry tag with
      | none =>
        rw [hb] at hr
        rw [readTagged_of_resolve_error hr]
        exact htr
      | some found =>
        obtain ⟨bound, type⟩ := found
        rw [hb] at hr
        have hload := hd type (mem_parts_of_bound? hp (htr ▸ hb)) t htr
        rcases hl : deep type t with ⟨e | item, u⟩
        · rw [readTagged_of_load_error hr hl]
          rw [hl] at hload
          exact hload
        · rw [readTagged_of_load hr hl]
          rw [hl] at hload
          exact hload
  · rename_i hp
    refine hstay.bind ?_ fun _ => hstay.pure _
    unfold readPlain
    split
    · exact hf _ (mem_parts_of_plain hp (by assumption))
    · exact hstay.fail _

theorem staying_stepwise (r : Registry) : Stepwise { path := "", records := [] } (Advances (Staying r) .whole)
    (fun {α} => Advances (Staying r) (.slot α)) := by
  refine (Staying.advance r).stepwise fun a t archive => ?_
  have hrefused : a.isInputSettled (Schema.info { path := "", records := [] } t) archive = true := by
    cases t <;> rfl
  rw [ensureInput_of_settled _ _ _ hrefused]
  exact id

variable {root : Ty} (h : env.Settled r root)

include h

theorem Settled.staying (weight : Nat) {type : Ty} (ht : env.Reaches r root type) :
    Advances (Staying r) .whole ((env.loader weight).new type) ∧
      Advances (Staying r) (.slot Value) ((env.loader weight).into type) :=
  (staying_stepwise r).reached env r (fun ht hd hf => staying_readRef (h ht) (fun _ hp => hd _ (ht.part hp))
    fun _ hp => hf _ (ht.part hp)) weight type ht

theorem Settled.staying_within (weight steps : Nat) {type : Ty} (ht : env.Reaches r root type) :
    Advances (Staying r) .whole (env.newWithin (env.loader weight) steps type) ∧
      Advances (Staying r) (.slot Value) (env.intoWithin (env.loader weight) steps type) :=
  (staying_stepwise r).reached_within env r (fun ht hd hf => staying_readRef (h ht) (fun _ hp => hd _ (ht.part hp))
    fun _ hp => hf _ (ht.part hp)) (fun _ => h.staying weight) steps type ht

end Loading

end Archivist
