import Archivist.Proofs.Archive.Walk
import Archivist.Proofs.Loading.Locality
import Archivist.Proofs.Loading.Success

/-!
What a load leaves of an object: some of its fields, in their order. A load never turns an object into
anything else and never adds a field.
-/

set_option autoImplicit false

namespace Archivist

open ReadState Reader

/-- Some of the fields are left of the current node, amid the same nodes. -/
def Remains (rest : List Node) (fields : Fields) (s : ReadState) : Prop :=
  ∃ n left, s.reader = ⟨n :: rest⟩ ∧ n.fields? = some left ∧ left.Sublist fields

/-- A part was entered of a node of which some of the fields are left. -/
def RemainsAround (rest : List Node) (fields : Fields) (s : ReadState) : Prop :=
  ∃ part n left, s.reader = ⟨part :: n :: rest⟩ ∧ n.fields? = some left ∧ left.Sublist fields

namespace Reader

variable {r r' : Reader} {n : Node} {rest : List Node} {fields left : Fields}

theorem items?_of_fields? (h : n.fields? = some fields) : n.items? = none := by
  unfold Node.fields? at h
  split at h <;> first | rfl | cases h

theorem isNull_of_fields? (h : n.fields? = some fields) : isNull ⟨n :: rest⟩ = (.ok false, ⟨n :: rest⟩) := by
  unfold Node.fields? at h
  split at h <;> first | rfl | cases h

theorem readValue_ne_ok {leaf : Leaf} (h : n.fields? = some fields) :
    readValue ⟨n :: rest⟩ ≠ (.ok leaf, r') := by
  unfold Node.fields? at h
  split at h
  · exact nofun
  · exact nofun
  · cases h

theorem readSize_ne_ok {size : Nat} (h : n.fields? = some fields) :
    readSize ⟨n :: rest⟩ ≠ (.ok size, r') := by
  rw [readSize_of_none (items?_of_fields? h)]
  exact nofun

end Reader

theorem Slot.assign_eq_ok {α : Type} {x : Attempt ReadState α} {s t : ReadState} {prior v : α}
    (h : Slot.assign x ⟨s, prior⟩ = (.ok (), ⟨t, v⟩)) : x s = (.ok v, t) := by
  rcases hx : x s with ⟨e | a, u⟩
  · have heq : Slot.assign x ⟨s, prior⟩ = (.error e, ⟨u, prior⟩) := Slot.assign_of_eq_error hx
    cases heq.symm.trans h
  · have heq : Slot.assign x ⟨s, prior⟩ = (.ok (), ⟨u, a⟩) := Slot.assign_of_eq_ok hx
    cases heq.symm.trans h
    rfl

theorem Slot.fresh_eq_ok {α : Type} {x : Attempt (Slot α) Unit} {s t : ReadState} {initial v : α}
    (h : Slot.fresh initial x s = (.ok v, t)) : x ⟨s, initial⟩ = (.ok (), ⟨t, v⟩) := by
  rcases hx : x ⟨s, initial⟩ with ⟨e | _, slot⟩
  · cases (Slot.fresh_of_eq_error hx).symm.trans h
  · cases (Slot.fresh_of_eq_ok hx).symm.trans h
    rfl

theorem Loading.readOption_of_fields? {x : Attempt ReadState Value} {s : ReadState} {n : Node} {rest : List Node}
    {fields : Fields} (hs : s.reader = ⟨n :: rest⟩) (hn : n.fields? = some fields) :
    readOption x s = (x >>= fun v => pure (.present v)) s := by
  have hnull : onReader Reader.isNull s = (.ok false, s) := by rw [onReader_of_eq (hs ▸ isNull_of_fields? hn)]
  rw [readOption, Attempt.bind_of_eq_ok hnull]
  rfl

theorem Loading.fillRecord_of_each {env : Loading} {s s' : ReadState} {deep flat : Ty → Attempt (Slot Value) Unit}
    {name : String} {priors vs : List Value} {res : Except Error Unit}
    (h : Slot.each s ((env.schema.fieldsOf name).map fun field =>
      fillField (if field.mode = .flattened then flat else deep) field) priors = (res, ⟨s', vs⟩)) :
    env.fillRecord name deep flat ⟨s, .record name priors⟩ = (res, ⟨s', .record name vs⟩) := by
  simp only [fillRecord, Slot.within, Slot.inOrder, Value.fields, h]

theorem Remains.of_fields? {rest : List Node} {s : ReadState} {n : Node} {fields : Fields}
    (hs : s.reader = ⟨n :: rest⟩) (hn : n.fields? = some fields) : Remains rest fields s :=
  ⟨n, fields, hs, hn, .refl _⟩

/-- A step that, if it succeeds on an object, leaves some of its fields. -/
def Sheds {σ α : Type} (V : View σ) (x : Attempt σ α) : Prop :=
  ∀ ⦃rest fields s⦄, Remains rest fields (V.get s) → x.Assures s fun _ t => Remains rest fields (V.get t)

namespace Sheds

section Generic

variable {σ α β : Type} {V : View σ}

theorem pure (a : α) : Sheds V (Pure.pure a) := fun _ _ _ hs => .pure hs

theorem fail (e : Error) : Sheds V (.fail e : Attempt σ α) := fun _ _ _ _ => .fail e

theorem bind {x : Attempt σ α} {f : α → Attempt σ β} (hx : Sheds V x) (hf : ∀ a, Sheds V (f a)) :
    Sheds V (x >>= f) :=
  fun _ _ _ hs => (hx hs).bind fun a _ ht => hf a ht

end Generic

variable {α β ρ : Type} {rest : List Node} {fields : Fields}

theorem onReader {x : Attempt Reader α}
    (hx : ∀ {n rest left a r}, n.fields? = some left → x ⟨n :: rest⟩ = (.ok a, r) →
      ∃ m, r = ⟨m :: rest⟩ ∧ m.fields? = some left) : Sheds .whole (onReader x) := by
  rintro rest fields s ⟨n, left, hs, hn, hl⟩ a t h
  have hr : x s.reader = (.ok a, t.reader) := Local.onReader_eq_ok h
  rw [show s.reader = ⟨n :: rest⟩ from hs] at hr
  obtain ⟨m, hm, hf⟩ := hx hn hr
  exact ⟨m, left, hm, hf, hl⟩

theorem isNull : Sheds .whole (ReadState.onReader Reader.isNull) := by
  refine onReader fun {n _ _ _ _} hn h => ?_
  rw [isNull_of_fields? hn] at h
  cases h
  exact ⟨n, rfl, hn⟩

theorem nextFieldName : Sheds .whole (ReadState.onReader Reader.nextFieldName) := by
  refine onReader fun hn h => ?_
  rw [nextFieldName_of_fields? hn] at h
  cases h
  exact ⟨_, rfl, rfl⟩

theorem startField (name : String) {s : ReadState} (hs : Remains rest fields s) :
    (ReadState.onReader (Reader.startField name)).Assures s fun _ t => RemainsAround rest fields t := by
  obtain ⟨n, left, hs, hn, hl⟩ := hs
  intro a t h
  have hr := Local.onReader_eq_ok h
  rw [hs] at hr
  cases ht : left.take? name with
  | none =>
    rw [startField_of_absent hn ht] at hr
    cases hr
  | some found =>
    obtain ⟨d, others⟩ := found
    rw [startField_of_take? hn ht] at hr
    have hreader := (Prod.mk.inj hr).2
    exact ⟨.value d, .object others, others, hreader.symm, rfl, (Fields.sublist_of_take? ht).trans hl⟩

theorem startElement {s : ReadState} (hs : Remains rest fields s) :
    (ReadState.onReader Reader.startElement).Assures s fun _ t => RemainsAround rest fields t := by
  obtain ⟨n, left, hs, hn, hl⟩ := hs
  intro a t h
  have hr := Local.onReader_eq_ok h
  rw [hs, startElement_of_none (items?_of_fields? hn)] at hr
  cases hr

theorem inside {σ : Type} {V : View σ} {x : Attempt σ α} (hx : Local V x) {s : σ}
    (hs : RemainsAround rest fields (V.get s)) :
    x.Assures s fun _ t => RemainsAround rest fields (V.get t) := by
  obtain ⟨part, n, left, hs, hn, hl⟩ := hs
  intro a t h
  have hw := hx h
  unfold View.reader at hw
  rw [hs] at hw
  generalize hr : (V.get t).reader = r at hw
  cases hw
  exact ⟨_, n, left, hr, hn, hl⟩

theorem finishNode {s : ReadState} (hs : RemainsAround rest fields s) :
    (ReadState.onReader Reader.finishNode).Assures s fun _ t => Remains rest fields t := by
  obtain ⟨part, n, left, hs, hn, hl⟩ := hs
  intro a t h
  have hr := Local.onReader_eq_ok h
  rw [hs, finishNode_cons] at hr
  exact ⟨n, left, (Prod.mk.inj hr).2.symm, hn, hl⟩

theorem around {enter : Attempt Reader Unit}
    (he : ∀ {rest fields s}, Remains rest fields s →
      (ReadState.onReader enter).Assures s fun _ t => RemainsAround rest fields t)
    {x : Attempt ReadState α} (hx : Local .whole x) :
    Sheds .whole (ReadState.onReader enter >>= fun _ => x >>= fun value =>
      ReadState.onReader Reader.finishNode >>= fun _ => Pure.pure value) :=
  fun _ _ _ hs => (he hs).bind fun _ _ ht => (inside hx ht).bind fun _ _ hu =>
    (finishNode hu).bind fun _ _ hv => .pure hv

theorem lifted {x : Attempt ReadState ρ} {I J : ReadState → Prop}
    (hx : ∀ {s}, I s → x.Assures s fun _ t => J t) {slot : Slot α} (hs : I slot.state) :
    (Slot.lift x).Assures slot fun _ t => J t.state :=
  (Slot.lift_assures (hx hs)).mono fun _ _ h => h.2

theorem aroundIn {enter : Attempt Reader Unit}
    (he : ∀ {rest fields s}, Remains rest fields s →
      (ReadState.onReader enter).Assures s fun _ t => RemainsAround rest fields t)
    {x : Attempt (Slot α) Unit} (hx : Local (.slot α) x) :
    Sheds (.slot α) (Slot.lift (ReadState.onReader enter) >>= fun _ => x >>= fun _ =>
      Slot.lift (ReadState.onReader Reader.finishNode)) :=
  fun _ _ _ hs => (lifted he hs).bind fun _ _ ht => (inside hx ht).bind fun _ _ hu => lifted finishNode hu

theorem enterOptional (name : String) {s : ReadState} (hs : Remains rest fields s) :
    (Loading.enterOptional name).Assures s fun entered t =>
      if entered then RemainsAround rest fields t else Remains rest fields t := by
  obtain ⟨n, left, hs, hn, hl⟩ := hs
  intro entered t h
  cases ht : left.take? name with
  | none =>
    have hf : Reader.startField name s.reader = _ := hs ▸ startField_of_absent hn ht
    simp only [Loading.enterOptional, onReader_of_eq hf, Error.isFieldAbsent, ↓reduceIte] at h
    cases h
    exact ⟨.object left, left, rfl, rfl, hl⟩
  | some found =>
    obtain ⟨d, others⟩ := found
    have hf : Reader.startField name s.reader = _ := hs ▸ startField_of_take? hn ht
    simp only [Loading.enterOptional, onReader_of_eq hf] at h
    cases h
    exact ⟨.value d, .object others, others, rfl, rfl, (Fields.sublist_of_take? ht).trans hl⟩

theorem enterTag {s : ReadState} (hs : Remains rest fields s) :
    Loading.enterTag.Assures s fun _ t => RemainsAround rest fields t := by
  intro a t h
  have hf := startField tagField hs
  rcases hr : ReadState.onReader (Reader.startField tagField) s with ⟨e | _, u⟩
  · cases e <;> simp [Loading.enterTag, hr] at h
  · simp only [Loading.enterTag, hr] at h
    cases h
    exact hf _ _ hr

theorem readTag : Sheds .whole Loading.readTag := by
  refine fun _ _ _ hs => (enterTag hs).bind fun _ _ ht =>
    (inside (Local.onReader readValue_within) ht).bind fun leaf _ hu => ?_
  split
  · exact (finishNode hu).bind fun _ _ hv => .pure hv
  · exact .fail _

theorem inOrder {xs : List (Attempt (Slot α) Unit)} (hx : ∀ x ∈ xs, Sheds (.slot α) x) :
    Sheds (.slot (List α)) (Slot.inOrder xs) := by
  rintro rest fields ⟨s, vs⟩ hs
  induction xs generalizing s vs with
  | nil => exact Slot.inOrder_nil_assures hs
  | cons x xs ih =>
    cases vs with
    | nil =>
      intro a t h
      simp only [Slot.inOrder, Slot.each_of_nil] at h
      cases h
      exact hs
    | cons v vs =>
      exact Slot.inOrder_cons_assures (fun _ t => Remains rest fields t) (fun _ t => Remains rest fields t)
        (hx x (by simp) hs) fun w t ht => ih (fun x hm => hx x (by simp [hm])) t vs ht

theorem ask {γ : Type} {answer : Registry → Option γ} {k : γ → Attempt ReadState α} (e : Error)
    (hk : ∀ c, Sheds .whole (k c)) :
    Sheds .whole (withRegistry fun r => (answer r).elim (.fail e) k) := by
  intro rest fields s hs a t h
  change (answer s.registry).elim (.fail e) k s = _ at h
  cases ha : answer s.registry with
  | none => simp [ha] at h
  | some c =>
    rw [ha, Option.elim_some] at h
    exact hk c hs a t h

theorem within {x : Attempt (Slot β) ρ} (content : α → β) (make : β → α) (hx : Sheds (.slot β) x) :
    Sheds (.slot α) (Slot.within content make x) := by
  intro rest fields slot hs a t h
  rcases hr : x ⟨slot.state, content slot.value⟩ with ⟨res, inner⟩
  rw [Slot.within_of_eq hr] at h
  cases h
  exact hx (s := ⟨slot.state, content slot.value⟩) hs _ _ hr

theorem optional {x : Attempt (Slot Value) Unit} (name : String) (hx : Local (.slot Value) x) :
    Sheds (.slot Value) (do
      if ← Slot.lift (Loading.enterOptional name) then
        x
        Slot.lift (ReadState.onReader Reader.finishNode)) := by
  intro rest fields slot hs
  refine (Slot.lift_assures (enterOptional name hs)).bind fun entered t ht => ?_
  cases entered with
  | false => exact .pure ht.2
  | true => exact (inside hx ht.2).bind fun _ _ hu => lifted finishNode hu

theorem stepwise (S : Schema) : Loading.Stepwise S (fun x => Local .whole x ∧ Sheds .whole x)
    (fun {α _} x => Local (.slot α) x ∧ Sheds (.slot α) x) where
  pure a := ⟨.pure a, pure a⟩
  fail e := ⟨.fail e, fail e⟩
  bind hx hf := ⟨hx.1.bind fun a => (hf a).1, hx.2.bind fun a => (hf a).2⟩
  readValue := ⟨(Local.stepwise S).readValue, onReader fun hn h => absurd h (readValue_ne_ok hn)⟩
  isNull := ⟨(Local.stepwise S).isNull, isNull⟩
  readSize := ⟨(Local.stepwise S).readSize, onReader fun hn h => absurd h (readSize_ne_ok hn)⟩
  nextFieldName := ⟨(Local.stepwise S).nextFieldName, nextFieldName⟩
  inField name hx := ⟨(Local.stepwise S).inField name hx.1, around (startField name) hx.1⟩
  inElement hx := ⟨(Local.stepwise S).inElement hx.1, around startElement hx.1⟩
  readTag := ⟨(Local.stepwise S).readTag, readTag⟩
  ensure t a := ⟨(Local.stepwise S).ensure t a, fun _ _ _ hs _ _ h => (Prod.mk.inj h).2 ▸ hs⟩
  ask _ e _ _ hk := ⟨.ask e fun c => (hk c).1, ask e fun c => (hk c).2⟩
  fresh initial hx := ⟨.fresh initial hx.1, fun _ _ _ hs =>
    Slot.fresh_assures (hx.2 hs)⟩
  pureIn a := ⟨.pure a, pure a⟩
  failIn e := ⟨.fail e, fail e⟩
  bindIn hx hf := ⟨hx.1.bind fun a => (hf a).1, hx.2.bind fun a => (hf a).2⟩
  lift hx := ⟨.lift hx.1, fun _ _ _ hs => lifted (fun h => hx.2 h) hs⟩
  update f := ⟨.update f, fun _ _ _ hs _ _ h => (Prod.mk.inj h).2 ▸ hs⟩
  assign hx := ⟨.assign hx.1, fun _ _ _ hs =>
    Slot.assign_assures (hx.2 hs)⟩
  within content make hx := ⟨.within content make hx.1, within content make hx.2⟩
  inOrder hx := ⟨(Local.stepwise S).inOrder fun x hm => (hx x hm).1, inOrder fun x hm => (hx x hm).2⟩
  field name hx := ⟨(Local.stepwise S).field name hx.1, aroundIn (startField name) hx.1⟩
  optional name hx := ⟨(Local.stepwise S).optional name hx.1, optional name hx.1⟩
  element hx := ⟨(Local.stepwise S).element hx.1, aroundIn startElement hx.1⟩
  count hf := ⟨(Local.stepwise S).count fun n => (hf n).1, fun _ _ slot hs =>
    (hf (slot.state.reader.fieldCount + 1)).2 hs⟩

end Sheds

end Archivist
