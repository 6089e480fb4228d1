import Archivist.Proofs.Loading.Polymorphic
import Archivist.Proofs.Reordering.Documents
import Archivist.Proofs.RoundTrip.Fits

/-!
Loads of sequences, records and references from two documents that differ in the order of fields. They
end alike if the loads they are put together from do, as long as the registry has nothing left to bind.
-/

set_option autoImplicit false

namespace Archivist

open ReadState

namespace Value.Same

variable {v w : Value}

theorem fields (h : v.Same w) : List.Forall₂ Same v.fields w.fields := by
  cases h with
  | refl => exact List.forall₂_same.2 fun v _ => .refl v
  | record h => exact h
  | _ => exact .nil

theorem items (h : v.Same w) : List.Forall₂ Same v.items w.items := by
  cases h with
  | refl => exact List.forall₂_same.2 fun v _ => .refl v
  | list h => exact h
  | _ => exact .nil

end Value.Same

/-- States of two runs whose documents differ in the order of fields, with one and the same registry. -/
def ReadState.Reordered (r : Registry) (s t : ReadState) : Prop :=
  s.reader.Reordered t.reader ∧ s.registry = r ∧ t.registry = r

/-- Steps that both succeed, with related results, or both fail. -/
abbrev Parallel {α : Type} (r : Registry) (A : α → α → Prop) (x y : Attempt ReadState α) : Prop :=
  Coupled Unspecified (Reordered r) (Reordered r) A x y

abbrev ParallelIn {α : Type} (r : Registry) (B B' : α → α → Prop) (x y : Attempt (Slot α) Unit) : Prop :=
  Coupled (Slot.Failing Unspecified) (Slot.Related (Reordered r) B) (Slot.Related (Reordered r) B') Eq x y

namespace Parallel

variable {α : Type} {r : Registry} {A : α → α → Prop}

theorem fail (e e' : Error) : Parallel r A (.fail e) (.fail e') := Coupled.fail fun _ => trivial

theorem onReader {x : Attempt Reader α} (hx : Reader.Orderless x) :
    Parallel r Eq (ReadState.onReader x) (ReadState.onReader x) := by
  rintro s t ⟨hs, hr, hr'⟩
  obtain ⟨a, b, p, q, hp, hq, hab, h⟩ | ⟨e, e', p, q, hp, hq, -⟩ := (hx hs).cases
  · rw [onReader_of_eq hp, onReader_of_eq hq]
    exact .ok hab ⟨h, hr, hr'⟩
  · rw [onReader_of_eq hp, onReader_of_eq hq]
    exact .error trivial

theorem around {enter : Attempt Reader Unit} (he : Reader.Orderless enter) {x y : Attempt ReadState α}
    (hx : Parallel r A x y) :
    Parallel r A
      (ReadState.onReader enter >>= fun _ => x >>= fun value =>
        ReadState.onReader Reader.finishNode >>= fun _ => pure value)
      (ReadState.onReader enter >>= fun _ => y >>= fun value =>
        ReadState.onReader Reader.finishNode >>= fun _ => pure value) :=
  (onReader he).bind fun _ _ _ => hx.bind fun _ _ ha =>
    (onReader Reader.orderless_finishNode).bind fun _ _ _ => .pure ha

theorem inField (name : String) {x y : Attempt ReadState α} (hx : Parallel r A x y) :
    Parallel r A (inField name x) (inField name y) := around (Reader.orderless_startField name) hx

theorem inElement {x y : Attempt ReadState α} (hx : Parallel r A x y) :
    Parallel r A (inElement x) (inElement y) := around Reader.orderless_startElement hx

theorem readAtom (type : AtomTy) : Parallel r Eq (Loading.readAtom type) (Loading.readAtom type) := by
  refine (onReader Reader.orderless_readValue).bind ?_
  rintro leaf _ rfl
  cases type.read leaf with
  | ok a => exact .pure rfl
  | error cause => exact fail _ _

theorem checkSize (length : Nat) : Parallel r Eq (Loading.checkSize length) (Loading.checkSize length) := by
  refine (onReader Reader.orderless_readSize).bind ?_
  rintro found _ rfl
  split
  · exact .pure rfl
  · exact fail _ _

theorem enterOptional (name : String) :
    Parallel r Eq (Loading.enterOptional name) (Loading.enterOptional name) := by
  rintro s t ⟨hr, hs, ht⟩
  obtain ⟨p, q, hp, hq, h⟩ | ⟨p, q, hp, hq, h⟩ | ⟨cause, cause', p, q, hp, hq⟩ := hr.startField_cases name
  · simp only [Loading.enterOptional, onReader_of_eq hp, onReader_of_eq hq]
    exact .ok rfl ⟨h, hs, ht⟩
  · simp only [Loading.enterOptional, onReader_of_eq hp, onReader_of_eq hq, Error.isFieldAbsent]
    exact .ok rfl ⟨h, hs, ht⟩
  · simp only [Loading.enterOptional, onReader_of_eq hp, onReader_of_eq hq, Error.isFieldAbsent]
    exact .error trivial

theorem readTag : Parallel r Eq Loading.readTag Loading.readTag := by
  have henter : Parallel r Eq Loading.enterTag Loading.enterTag := by
    intro s t h
    obtain ⟨a, b, s', t', hs, ht, hab, h'⟩ | ⟨e, e', s', t', hs, ht, -⟩ :=
      (onReader (Reader.orderless_startField tagField) h).cases
    · simp only [Loading.enterTag, hs, ht]
      exact .ok hab h'
    · simp only [Loading.enterTag, hs, ht]
      cases e <;> cases e' <;> exact .error trivial
  refine henter.bind fun _ _ _ => (onReader Reader.orderless_readValue).bind ?_
  rintro leaf _ rfl
  cases leaf with
  | text tag => exact (onReader Reader.orderless_finishNode).bind fun _ _ _ => .pure rfl
  | _ => exact fail _ _

variable {x : Attempt ReadState Value}

theorem readOption (hx : Parallel r Value.Same x x) :
    Parallel r Value.Same (Loading.readOption x) (Loading.readOption x) := by
  refine (onReader Reader.orderless_isNull).bind ?_
  rintro null _ rfl
  cases null with
  | true => exact (onReader Reader.orderless_readValue).bind fun _ _ _ => .pure (.refl _)
  | false => exact hx.bind fun _ _ h => .pure (.present h)

theorem appendItems (hx : Parallel r Value.Same x x) (count : Nat) :
    ParallelIn r (List.Forall₂ Value.Same) (List.Forall₂ Value.Same) (Loading.appendItems x count)
      (Loading.appendItems x count) := by
  induction count with
  | zero => exact .pure rfl
  | succ count ih =>
    refine hx.inElement.lift.bind fun v w h => ?_
    refine (Coupled.update fun vs ws hvs => ?_).bind fun _ _ _ => ih
    exact List.rel_append hvs (.cons h .nil)

theorem fillList (hx : Parallel r Value.Same x x) :
    ParallelIn r Value.Same Value.Same (Loading.fillList x) (Loading.fillList x) := by
  refine Coupled.within (C := List.Forall₂ Value.Same) (fun _ _ _ => .nil) (fun _ _ => .list)
    ((onReader Reader.orderless_readSize).lift.bind ?_)
  rintro count _ rfl
  exact appendItems hx count

theorem readArray (length : Nat) (hx : Parallel r Value.Same x x) :
    Parallel r Value.Same (Loading.readArray length x) (Loading.readArray length x) :=
  (checkSize length).bind fun _ _ _ => .fresh (.refl _) (fillList hx)

end Parallel

namespace ParallelIn

variable {r : Registry}

theorem around {enter : Attempt Reader Unit} (he : Reader.Orderless enter) {x : Attempt (Slot Value) Unit}
    (hx : ParallelIn r Value.Same Value.Same x x) :
    ParallelIn r Value.Same Value.Same
      (Slot.lift (onReader enter) >>= fun _ => x >>= fun _ => Slot.lift (onReader Reader.finishNode))
      (Slot.lift (onReader enter) >>= fun _ => x >>= fun _ => Slot.lift (onReader Reader.finishNode)) :=
  (Parallel.onReader he).lift.bind fun _ _ _ => hx.bind fun _ _ _ =>
    (Parallel.onReader Reader.orderless_finishNode).lift

theorem fillArray (length : Nat) {x : Attempt (Slot Value) Unit} (hx : ParallelIn r Value.Same Value.Same x x) :
    ParallelIn r Value.Same Value.Same (Loading.fillArray length x) (Loading.fillArray length x) := by
  refine .within (fun _ _ => Value.Same.items) (fun _ _ => .list)
    ((Parallel.checkSize length).lift.bind fun _ _ _ => .inOrder ?_)
  refine List.forall₂_same.2 fun y hy => ?_
  rw [List.eq_of_mem_replicate hy]
  exact around Reader.orderless_startElement hx

section Records

variable {deep flat : Ty → Attempt (Slot Value) Unit}

theorem fillField {load : Ty → Attempt (Slot Value) Unit} {field : Field}
    (h : field.mode ≠ .skipped → ParallelIn r Value.Same Value.Same (load field.type) (load field.type)) :
    ParallelIn r Value.Same Value.Same (Loading.fillField load field) (Loading.fillField load field) := by
  unfold Loading.fillField
  cases hm : field.mode with
  | skipped => exact .pure rfl
  | flattened => exact h (by simp [hm])
  | required => exact around (Reader.orderless_startField field.name) (h (by simp [hm]))
  | optional =>
    refine (Parallel.enterOptional field.name).lift.bind ?_
    rintro entered _ rfl
    cases entered with
    | false => exact .pure rfl
    | true =>
      exact (h (by simp [hm])).bind fun _ _ _ => (Parallel.onReader Reader.orderless_finishNode).lift

theorem fillRecord (env : Loading) (name : String)
    (h : ∀ field ∈ env.schema.fieldsOf name, field.mode ≠ .skipped →
      ParallelIn r Value.Same Value.Same (deep field.type) (deep field.type) ∧
      ParallelIn r Value.Same Value.Same (flat field.type) (flat field.type)) :
    ParallelIn r Value.Same Value.Same (env.fillRecord name deep flat) (env.fillRecord name deep flat) := by
  refine .within (fun _ _ => Value.Same.fields) (fun _ _ => .record) (.inOrder (List.forall₂_same.2 fun x hx => ?_))
  obtain ⟨field, hf, rfl⟩ := List.mem_map.1 hx
  split
  · exact fillField fun hm => (h field hf hm).2
  · exact fillField fun hm => (h field hf hm).1

end Records

end ParallelIn

namespace Parallel

variable {env : Loading} {r : Registry} {target : Target}

theorem warmUp (h : (env.schema.identity target).isTagged = true →
      r.isInputSettled (env.schema.info target) env.archive = true) :
    Parallel r Eq (env.warmUp target) (env.warmUp target) := by
  unfold Loading.warmUp
  split
  · rintro s t ⟨hr, rfl, ht⟩
    have hs := Registry.ensureInput_of_settled s.registry (env.schema.info target) env.archive (h (by assumption))
    simp only [change, ht, hs]
    exact .ok rfl ⟨hr, rfl, rfl⟩
  · exact .pure rfl

theorem resolve (h : (env.schema.identity target).isTagged = true →
      r.isInputSettled (env.schema.info target) env.archive = true) :
    Parallel r (fun found found' => found = found' ∧ env.bound? r found.1 = some found.2)
      (env.resolve target) (env.resolve target) := by
  refine (warmUp h).bind fun _ _ _ => readTag.bind ?_
  rintro tag _ rfl s t ⟨hr, hs, ht⟩
  simp only [withRegistry, hs, ht]
  cases hb : env.bound? r tag with
  | none => exact .error trivial
  | some found => exact .ok ⟨rfl, hb⟩ ⟨hr, hs, ht⟩

variable {deep flat : Ty → Attempt ReadState Value}

theorem readTagged (kind : RefKind)
    (h : (env.schema.identity target).isTagged = true →
      r.isInputSettled (env.schema.info target) env.archive = true)
    (hd : ∀ tag bound type, env.bound? r tag = some (bound, type) →
      Parallel r Value.Same (deep type) (deep type)) :
    Parallel r Value.Same (env.readTagged kind target deep) (env.readTagged kind target deep) := by
  refine (resolve h).bind ?_
  rintro ⟨tag, bound, type⟩ _ ⟨rfl, hb⟩
  refine (hd tag bound type hb).bind fun v w hv => ?_
  rintro s t ⟨hr, hs, ht⟩
  simp only [withRegistry, hs, ht]
  split
  · exact .ok (.ref hv) ⟨hr, hs, ht⟩
  · exact .error trivial

theorem readRef (kind : RefKind)
    (h : (env.schema.identity target).isTagged = true →
      r.isInputSettled (env.schema.info target) env.archive = true)
    (hd : env.schema.isPolymorphic target = true → ∀ tag bound type, env.bound? r tag = some (bound, type) →
      Parallel r Value.Same (deep type) (deep type))
    (hf : ¬ env.schema.isPolymorphic target = true → ∀ type, target.ty? = some type →
      Parallel r Value.Same (flat type) (flat type)) :
    Parallel r Value.Same (env.readRef kind target deep flat) (env.readRef kind target deep flat) := by
  unfold Loading.readRef
  split
  · exact readTagged kind h (hd (by assumption))
  · rename_i hp
    have hplain : Parallel r Value.Same (env.readPlain target flat) (env.readPlain target flat) := by
      unfold Loading.readPlain
      split
      · exact hf hp _ (by assumption)
      · exact fail _ _
    exact hplain.bind fun _ _ hv => .pure (.ref hv)

end Parallel

end Archivist
