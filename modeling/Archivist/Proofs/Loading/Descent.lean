import Mathlib.Algebra.Order.BigOperators.Group.List
import Mathlib.Data.List.Perm.Subperm
import Mathlib.Logic.Relation
import Archivist.Proofs.Loading.Forgetting
import Archivist.Proofs.Loading.Remains

/-!
How far the loads within one node go down. Types are loaded from the node of another type through options,
flattened fields and references that are not polymorphic. If this comes to an end at all it does so within
as many steps as the span of the schema, and more steps then make no difference.
-/

set_option autoImplicit false

namespace Archivist

open Relation

def Record.cost (record : Record) : Nat := record.fields.foldr (fun f m => f.type.height + m) 0 + 2

theorem Record.height_le_cost {record : Record} {field : Field} (h : field ∈ record.fields) :
    field.type.height + 2 ≤ record.cost := by
  have hsum : ∀ fields : List Field, field ∈ fields →
      field.type.height ≤ fields.foldr (fun f m => f.type.height + m) 0 := by
    intro fields hf
    induction fields with
    | nil => cases hf
    | cons f fields ih =>
      simp only [List.foldr_cons]
      rcases List.mem_cons.1 hf with rfl | hf
      · omega
      · have := ih hf
        omega
  have := hsum record.fields h
  unfold cost
  omega

theorem Ty.height_pos (type : Ty) : 0 < type.height := by
  cases type <;> simp [height]

namespace Schema

variable (S : Schema)

/-- `S.Flat type part`: a value of the type may be loaded by loading one of the other type from the same node. -/
inductive Flat : Ty → Ty → Prop where
  | option (item : Ty) : Flat (.option item) item
  | field {name : String} {field : Field} (hf : field ∈ S.fieldsOf name) (hm : field.mode = .flattened) :
    Flat (.record name) field.type
  | plain {kind : RefKind} {target : Target} {type : Ty} (hp : S.isPolymorphic target = false)
    (ht : target.ty? = some type) : Flat (.ref kind target) type

/-- Going down within one node comes to an end in fewer steps. -/
def EndsWithin : Nat → Ty → Prop
  | 0, _ => False
  | steps + 1, type => ∀ part, S.Flat type part → EndsWithin steps part

variable {S} {type part : Ty} {steps : Nat}

theorem EndsWithin.descend (h : S.EndsWithin steps type) (hp : TransGen S.Flat type part) :
    ∃ fewer < steps, S.EndsWithin fewer part := by
  induction hp with
  | single hstep =>
    cases steps with
    | zero => exact h.elim
    | succ steps => exact ⟨steps, Nat.lt_succ_self _, h _ hstep⟩
  | tail _ hstep ih =>
    obtain ⟨fewer, hlt, hends⟩ := ih
    cases fewer with
    | zero => exact hends.elim
    | succ fewer => exact ⟨fewer, Nat.lt_of_succ_lt hlt, hends _ hstep⟩

theorem EndsWithin.acyclic (h : S.EndsWithin steps type) : ¬ TransGen S.Flat type type := by
  induction steps using Nat.strongRecOn with
  | ind steps ih =>
    intro hcycle
    obtain ⟨fewer, hlt, hends⟩ := h.descend hcycle
    exact ih fewer hlt hends hcycle

theorem span_eq_sum : S.span = (S.records.map Record.cost).sum := by
  unfold span
  induction S.records with
  | nil => rfl
  | cons r records ih => simp only [List.foldr_cons, List.map_cons, List.sum_cons, ih, Record.cost]

theorem cost_le_span {visited : List Record} (hd : (visited.map Record.name).Nodup) (hs : visited ⊆ S.records) :
    (visited.map Record.cost).sum ≤ S.span := by
  obtain ⟨others, hperm, hsub⟩ := hd.of_map.subperm hs
  calc (visited.map Record.cost).sum = (others.map Record.cost).sum := (hperm.symm.map _).sum_eq
    _ ≤ (S.records.map Record.cost).sum := (hsub.map _).sum_le_sum fun _ _ => Nat.zero_le _
    _ = S.span := span_eq_sum.symm

/-- Where no record leads back to itself, the way down meets every record once, and the span bounds it. -/
theorem endsWithin_of_acyclic {visited : List Record} (hd : (visited.map Record.name).Nodup)
    (hs : visited ⊆ S.records) (above : ∀ record ∈ visited, TransGen S.Flat (.record record.name) type)
    (acyclic : ∀ name, ReflTransGen S.Flat type (.record name) → ¬ TransGen S.Flat (.record name) (.record name))
    (hsteps : type.height + (S.span - (visited.map Record.cost).sum) ≤ steps) : S.EndsWithin steps type := by
  induction steps generalizing visited type with
  | zero =>
    have := type.height_pos
    omega
  | succ steps ih =>
    intro part hp
    have hbelow : ∀ name, ReflTransGen S.Flat part (.record name) →
        ¬ TransGen S.Flat (.record name) (.record name) := fun name h => acyclic name (h.head hp)
    have habove : ∀ record ∈ visited, TransGen S.Flat (.record record.name) part :=
      fun record hr => (above record hr).tail hp
    cases hp with
    | option item =>
      refine ih hd hs habove hbelow ?_
      simp only [Ty.height] at hsteps
      omega
    | plain hp ht =>
      refine ih hd hs habove hbelow ?_
      have := Exchange.Fits.height_of_ty? ht
      simp only [Ty.height] at hsteps
      omega
    | @field name field hf hm =>
      obtain ⟨record, hr, hname, hf'⟩ := exists_declared hf
      have hnew : record.name ∉ visited.map Record.name := by
        intro hmem
        obtain ⟨other, ho, heq⟩ := List.mem_map.1 hmem
        refine acyclic name .refl ?_
        have hback := above other ho
        rwa [heq, hname] at hback
      have hd' : ((record :: visited).map Record.name).Nodup := List.nodup_cons.2 ⟨hnew, hd⟩
      have hs' : record :: visited ⊆ S.records := List.cons_subset.2 ⟨hr, hs⟩
      have hcost := cost_le_span hd' hs'
      have hheight := Record.height_le_cost hf'
      refine ih hd' hs' (fun other ho => ?_) hbelow ?_
      · rcases List.mem_cons.1 ho with rfl | ho
        · exact .single (hname ▸ .field hf hm)
        · exact habove other ho
      · simp only [List.map_cons, List.sum_cons, Ty.height] at hcost hsteps ⊢
        omega

theorem EndsWithin.span (h : S.EndsWithin steps type) : S.EndsWithin (type.height + S.span) type := by
  have hd : (([] : List Record).map Record.name).Nodup := List.nodup_nil
  refine endsWithin_of_acyclic hd (List.nil_subset _) nofun (fun name hreach => ?_) ?_
  · rcases reflTransGen_iff_eq_or_transGen.1 hreach with heq | hdown
    · exact heq ▸ h.acyclic
    · obtain ⟨fewer, -, hends⟩ := h.descend hdown
      exact hends.acyclic
  · simp

end Schema

namespace Loading

open ReadState Reader

variable {env : Loading} {lighter : Loader}

theorem fillRecord_congr {name : String} {deep flat flat' : Ty → Attempt (Slot Value) Unit}
    (h : ∀ field ∈ env.schema.fieldsOf name, field.mode = .flattened → flat field.type = flat' field.type) :
    env.fillRecord name deep flat = env.fillRecord name deep flat' := by
  unfold fillRecord
  congr 2
  refine List.map_congr_left fun field hf => ?_
  by_cases hm : field.mode = .flattened
  · simp only [fillField, hm, ↓reduceIte, h field hf hm]
  · simp only [hm, ↓reduceIte]

theorem readRef_congr {kind : RefKind} {target : Target} {deep flat flat' : Ty → Attempt ReadState Value}
    (h : env.schema.isPolymorphic target = false → ∀ type, target.ty? = some type → flat type = flat' type) :
    env.readRef kind target deep flat = env.readRef kind target deep flat' := by
  unfold readRef readPlain
  cases hp : env.schema.isPolymorphic target with
  | true => rfl
  | false =>
    cases ht : target.ty? with
    | none => rfl
    | some type => simp only [h hp type ht]

theorem step_congr {deep flat flat' : Loader} {type : Ty}
    (h : ∀ part, env.schema.Flat type part → flat.new part = flat'.new part ∧ flat.into part = flat'.into part) :
    env.stepNew deep flat type = env.stepNew deep flat' type ∧
      env.stepInto deep flat type = env.stepInto deep flat' type := by
  cases type with
  | option item => simp only [stepNew, stepInto, (h item (.option item)).1, and_self]
  | record name =>
    have hr : env.fillRecord name deep.into flat.into = env.fillRecord name deep.into flat'.into :=
      fillRecord_congr fun field hf hm => (h _ (.field hf hm)).2
    simp only [stepNew, stepInto, hr, and_self]
  | ref kind target =>
    have hr : env.readRef kind target deep.new flat.new = env.readRef kind target deep.new flat'.new :=
      readRef_congr fun hp part ht => (h part (.plain hp ht)).1
    simp only [stepNew, stepInto, hr, and_self]
  | _ => simp only [stepNew, stepInto, and_self]

theorem within_eq {k j : Nat} {type : Ty} (h : env.schema.EndsWithin k type) (hk : k ≤ j) :
    env.newWithin lighter j type = env.newWithin lighter k type ∧
      env.intoWithin lighter j type = env.intoWithin lighter k type := by
  induction k generalizing j type with
  | zero => exact h.elim
  | succ k ih =>
    obtain ⟨j, rfl⟩ : ∃ i, j = i + 1 := ⟨j - 1, by omega⟩
    simp only [newWithin_succ, intoWithin_succ]
    exact step_congr fun part hp => ih (h part hp) (Nat.le_of_succ_le_succ hk)

section Success

variable {rest : List Node} {fields : Fields} {s : ReadState}

theorem each_flat_ok {deep flat : Ty → Attempt (Slot Value) Unit} {declared : List Field} {priors : List Value}
    {slot : Slot (List Value)}
    (hshape : List.Forall₂ (fun f p => f.mode ≠ .skipped → env.schema.Shaped f.type p) declared priors)
    (hsheds : ∀ field ∈ declared,
      Sheds (.slot Value) (fillField (if field.mode = .flattened then flat else deep) field))
    (hs : Remains rest fields s)
    (h : Slot.each s (declared.map fun field => fillField (if field.mode = .flattened then flat else deep) field)
      priors = (.ok (), slot)) {field : Field} (hf : field ∈ declared) (hm : field.mode = .flattened) :
    ∃ s' prior slot', Remains rest fields s' ∧ env.schema.Shaped field.type prior ∧
      flat field.type ⟨s', prior⟩ = (.ok (), slot') := by
  induction hshape generalizing s slot with
  | nil => cases hf
  | @cons first prior declared priors hfirst _ ih =>
    rw [List.map_cons] at h
    rcases hx : fillField (if first.mode = .flattened then flat else deep) first ⟨s, prior⟩ with ⟨e | _, t⟩
    · cases (Slot.each_cons_of_eq_error hx).symm.trans h
    rcases List.mem_cons.1 hf with rfl | hf
    · simp only [hm, ↓reduceIte, fillField] at hx
      exact ⟨s, prior, t, hs, hfirst (by simp [hm]), hx⟩
    · rcases hrest : Slot.each t.state (declared.map fun field =>
        fillField (if field.mode = .flattened then flat else deep) field) priors with ⟨res, slot'⟩
      cases (Slot.each_cons_of_eq_ok hx hrest).symm.trans h
      exact ih (fun f hf => hsheds f (List.mem_cons_of_mem _ hf))
        (hsheds first List.mem_cons_self (s := ⟨s, prior⟩) hs _ _ hx) hrest hf

variable (hS : env.schema.Initialised)

include hS

theorem endsWithin_of_ok (weight steps : Nat) (type : Ty) (hs : Remains rest fields s) :
    (∀ v t, env.newWithin (env.loader weight) steps type s = (.ok v, t) → env.schema.EndsWithin steps type) ∧
    ∀ prior v t, env.schema.Shaped type prior →
      env.intoWithin (env.loader weight) steps type ⟨s, prior⟩ = (.ok (), ⟨t, v⟩) →
        env.schema.EndsWithin steps type := by
  have hsheds := (Sheds.stepwise env.schema).loader env weight
  induction steps generalizing type s with
  | zero =>
    refine ⟨fun v t h => ?_, fun prior v t _ h => ?_⟩
    · simp only [newWithin] at h
      cases h
    · simp only [intoWithin] at h
      cases h
  | succ steps ih =>
    have hwithin := (Sheds.stepwise env.schema).within_steps env hsheds.1 hsheds.2 steps
    cases type with
    | option item =>
      have ho : ∀ v t, readOption (env.newWithin (env.loader weight) steps item) s = (.ok v, t) →
          env.schema.EndsWithin (steps + 1) (.option item) := by
        rintro v t h part ⟨⟩
        obtain ⟨n, left, hr, hn, -⟩ := id hs
        rw [readOption_of_fields? hr hn] at h
        obtain ⟨w, u, hx, -⟩ := Attempt.bind_eq_ok h
        exact (ih item hs).1 w u hx
      simp only [newWithin, intoWithin]
      exact ⟨ho, fun prior v t _ h => ho v t (Slot.assign_eq_ok h)⟩
    | record name =>
      have hfill : ∀ field : Field, Sheds (.slot Value) (fillField
          (if field.mode = .flattened then env.intoWithin (env.loader weight) steps else (env.loader weight).into)
            field) := by
        intro field
        split
        · exact ((Sheds.stepwise env.schema).fillField (fun type => (hwithin type).2) field).2
        · exact ((Sheds.stepwise env.schema).fillField hsheds.2 field).2
      have hr : ∀ prior v t, env.schema.Shaped (.record name) prior →
          env.fillRecord name (env.loader weight).into (env.intoWithin (env.loader weight) steps) ⟨s, prior⟩ =
            (.ok (), ⟨t, v⟩) → env.schema.EndsWithin (steps + 1) (.record name) := by
        intro prior v t hshape h part hpart
        cases hpart with
        | field hf hm =>
          obtain ⟨priors, rfl, hfields⟩ := hshape.exists_fields
          rcases heach : Slot.each s ((env.schema.fieldsOf name).map fun field => fillField
            (if field.mode = .flattened then env.intoWithin (env.loader weight) steps else (env.loader weight).into)
              field) priors with ⟨res, ⟨u, vs⟩⟩
          cases (fillRecord_of_each heach).symm.trans h
          obtain ⟨s', p, ⟨u', w⟩, hs', hp, hx⟩ :=
            each_flat_ok hfields (fun field _ => hfill field) hs heach hf hm
          exact (ih _ hs').2 p w u' hp hx
      simp only [newWithin, intoWithin]
      exact ⟨fun v t h => hr _ v t (Schema.shaped_initialOf hS name) (Slot.fresh_eq_ok h), hr⟩
    | ref kind target =>
      have hr : ∀ v t, env.readRef kind target (env.loader weight).new (env.newWithin (env.loader weight) steps) s =
          (.ok v, t) → env.schema.EndsWithin (steps + 1) (.ref kind target) := by
        rintro v t h part hpart
        cases hpart with
        | plain hp ht =>
          simp only [readRef, hp, Bool.false_eq_true, ↓reduceIte, readPlain, ht] at h
          obtain ⟨w, u, hx, -⟩ := Attempt.bind_eq_ok h
          exact (ih part hs).1 w u hx
      simp only [newWithin, intoWithin]
      exact ⟨hr, fun prior v t _ h => hr v t (Slot.assign_eq_ok h)⟩
    | _ =>
      refine ⟨fun v t _ part hpart => ?_, fun prior v t _ _ part hpart => ?_⟩
      · cases hpart
      · cases hpart

/-- A load from an object that succeeds needs no more steps than the span. -/
theorem intoWithin_of_ok {weight k j : Nat} {type : Ty} {prior v : Value} {t : ReadState}
    (hs : Remains rest fields s) (hshape : env.schema.Shaped type prior) (hj : type.height + env.schema.span ≤ j)
    (h : env.intoWithin (env.loader weight) k type ⟨s, prior⟩ = (.ok (), ⟨t, v⟩)) :
    env.intoWithin (env.loader weight) j type ⟨s, prior⟩ = (.ok (), ⟨t, v⟩) := by
  have hends := (endsWithin_of_ok hS weight k type hs).2 prior v t hshape h
  have hsteps : env.intoWithin (env.loader weight) j type = env.intoWithin (env.loader weight) k type :=
    calc env.intoWithin (env.loader weight) j type
      _ = env.intoWithin (env.loader weight) (type.height + env.schema.span) type := (within_eq hends.span hj).2
      _ = env.intoWithin (env.loader weight) (max k (type.height + env.schema.span)) type :=
        (within_eq hends.span (Nat.le_max_right ..)).2.symm
      _ = env.intoWithin (env.loader weight) k type := (within_eq hends (Nat.le_max_left ..)).2
  rw [hsteps, h]

end Success

end Loading

end Archivist
