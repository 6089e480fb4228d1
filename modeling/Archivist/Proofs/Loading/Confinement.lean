import Archivist.Proofs.Archive.Reader
import Archivist.Proofs.Loading.Coupling
import Archivist.Proofs.Loading.Lasting
import Archivist.Proofs.Loading.Locality

/-!
What a load gives depends on the current node and the registry alone, not on the nodes around it. Main
statement: a field or an element is read as its document is read on its own, and only that field or
element is gone afterwards.
-/

set_option autoImplicit false

namespace Archivist

namespace Reader

/-- A step that sees nothing but the current node and changes nothing else. -/
def Narrow {α : Type} (x : Attempt Reader α) : Prop :=
  ∀ n, ∃ res m, ∀ rest, x ⟨n :: rest⟩ = (res, ⟨m :: rest⟩)

/-- A step that enters a part of the current node, or fails, and sees nothing else. -/
def Opens (x : Attempt Reader Unit) : Prop :=
  ∀ n, (∃ part m, ∀ rest, x ⟨n :: rest⟩ = (.ok (), ⟨part :: m :: rest⟩)) ∨
    ∃ e m, ∀ rest, x ⟨n :: rest⟩ = (.error e, ⟨m :: rest⟩)

theorem narrow_readValue : Narrow readValue := by
  intro n
  cases n with
  | value d => cases d <;> exact ⟨_, _, fun _ => rfl⟩
  | _ => exact ⟨_, _, fun _ => rfl⟩

theorem narrow_isNull : Narrow isNull := by
  intro n
  cases n with
  | value d => cases d <;> exact ⟨_, _, fun _ => rfl⟩
  | _ => exact ⟨_, _, fun _ => rfl⟩

theorem narrow_readSize : Narrow readSize := by
  intro n
  cases h : n.items? with
  | none => exact ⟨_, _, fun _ => readSize_of_none h⟩
  | some found => exact ⟨_, _, fun _ => readSize_of_items? h⟩

theorem narrow_nextFieldName : Narrow nextFieldName := by
  intro n
  cases h : n.fields? with
  | none => exact ⟨_, _, fun _ => nextFieldName_of_none h⟩
  | some fields => exact ⟨_, _, fun _ => nextFieldName_of_fields? h⟩

theorem opens_startField (name : String) : Opens (startField name) := by
  intro n
  cases h : n.fields? with
  | none => exact .inr ⟨_, _, fun _ => startField_of_none h⟩
  | some fields =>
    cases ht : fields.take? name with
    | none => exact .inr ⟨_, _, fun _ => startField_of_absent h ht⟩
    | some found => exact .inl ⟨_, _, fun _ => startField_of_take? h ht⟩

theorem opens_startElement : Opens startElement := by
  intro n
  cases h : n.items? with
  | none => exact .inr ⟨_, _, fun _ => startElement_of_none h⟩
  | some found =>
    obtain ⟨items, length⟩ := found
    cases items with
    | nil => exact .inr ⟨_, _, fun _ => startElement_of_no_more h⟩
    | cons item items => exact .inl ⟨_, _, fun _ => startElement_of_items? h⟩

end Reader

open ReadState Reader

/-- The same current node amid other nodes, with the same registry. -/
def Amid (rest rest' : List Node) (s t : ReadState) : Prop :=
  ∃ n, s.reader = ⟨n :: rest⟩ ∧ t.reader = ⟨n :: rest'⟩ ∧ s.registry = t.registry

/-- The same part was entered of the same node amid other nodes. -/
def Inside (rest rest' : List Node) (s t : ReadState) : Prop := ∃ m, Amid (m :: rest) (m :: rest') s t

/-- The same error, with the same registry. -/
def FailsAlike (e : Error) (s : ReadState) (e' : Error) (t : ReadState) : Prop :=
  e = e' ∧ s.registry = t.registry

/-- A step that does the same to the current node and the registry whatever the nodes around. -/
def Confined {α : Type} (x : Attempt ReadState α) : Prop :=
  ∀ rest rest', Coupled FailsAlike (Amid rest rest') (Amid rest rest') Eq x x

def ConfinedIn {α ρ : Type} (x : Attempt (Slot α) ρ) : Prop :=
  ∀ rest rest', Coupled (Slot.Failing FailsAlike) (Slot.Related (Amid rest rest') Eq)
    (Slot.Related (Amid rest rest') Eq) Eq x x

theorem Amid.registry_eq {rest rest' : List Node} {s t : ReadState} (h : Amid rest rest' s t) :
    s.registry = t.registry :=
  h.choose_spec.2.2

theorem Inside.registry_eq {rest rest' : List Node} {s t : ReadState} (h : Inside rest rest' s t) :
    s.registry = t.registry :=
  h.choose_spec.registry_eq

namespace Confined

variable {α β : Type} {rest rest' : List Node}

theorem pure (a : α) : Confined (Pure.pure a) := fun _ _ => .pure rfl

theorem fail (e : Error) : Confined (.fail e : Attempt ReadState α) :=
  fun _ _ => .fail fun h => ⟨rfl, h.registry_eq⟩

theorem bind {x : Attempt ReadState α} {f : α → Attempt ReadState β} (hx : Confined x)
    (hf : ∀ a, Confined (f a)) : Confined (x >>= f) :=
  fun rest rest' => (hx rest rest').bind fun a _ h => h ▸ hf a rest rest'

theorem onReader {x : Attempt Reader α} (hx : Narrow x) : Confined (ReadState.onReader x) := by
  rintro rest rest' s t ⟨n, hs, ht, hr⟩
  obtain ⟨res, m, hm⟩ := hx n
  rw [onReader_of_eq (hs ▸ hm rest), onReader_of_eq (ht ▸ hm rest')]
  cases res with
  | ok a => exact .ok rfl ⟨m, rfl, rfl, hr⟩
  | error e => exact .error ⟨rfl, hr⟩

theorem enter {x : Attempt Reader Unit} (hx : Opens x) :
    Coupled FailsAlike (Amid rest rest') (Inside rest rest') Eq (ReadState.onReader x)
      (ReadState.onReader x) := by
  rintro s t ⟨n, hs, ht, hr⟩
  obtain ⟨part, m, hm⟩ | ⟨e, m, hm⟩ := hx n
  · rw [onReader_of_eq (hs ▸ hm rest), onReader_of_eq (ht ▸ hm rest')]
    exact .ok rfl ⟨m, part, rfl, rfl, hr⟩
  · rw [onReader_of_eq (hs ▸ hm rest), onReader_of_eq (ht ▸ hm rest')]
    exact .error ⟨rfl, hr⟩

theorem leave : Coupled FailsAlike (Inside rest rest') (Amid rest rest') Eq
    (ReadState.onReader finishNode) (ReadState.onReader finishNode) := by
  rintro s t ⟨m, n, hs, ht, hr⟩
  rw [onReader_of_eq (hs ▸ finishNode_cons), onReader_of_eq (ht ▸ finishNode_cons)]
  exact .ok rfl ⟨m, rfl, rfl, hr⟩

theorem inside {x : Attempt ReadState α} (hx : Confined x) :
    Coupled FailsAlike (Inside rest rest') (Inside rest rest') Eq x x := by
  rintro s t ⟨m, h⟩
  obtain ⟨a, b, s', t', hs, ht, ha, h'⟩ | ⟨e, e', s', t', hs, ht, h'⟩ := (hx _ _ h).cases
  · rw [hs, ht]
    exact .ok ha ⟨m, h'⟩
  · rw [hs, ht]
    exact .error h'

theorem around {enter : Attempt Reader Unit} (he : Opens enter) {x : Attempt ReadState α} (hx : Confined x) :
    Confined (ReadState.onReader enter >>= fun _ => x >>= fun value =>
      ReadState.onReader finishNode >>= fun _ => Pure.pure value) :=
  fun _ _ => (Confined.enter he).bind fun _ _ _ => hx.inside.bind fun _ _ ha =>
    leave.bind fun _ _ _ => .pure ha

theorem ask {γ : Type} {answer : Registry → Option γ} {k : γ → Attempt ReadState α} (e : Error)
    (hk : ∀ c, Confined (k c)) :
    Confined (withRegistry fun r => (answer r).elim (.fail e) k) := by
  intro rest rest' s t h
  simp only [withRegistry, ← h.registry_eq]
  cases answer s.registry with
  | none => exact .error ⟨rfl, h.registry_eq⟩
  | some c => exact hk c rest rest' h

theorem change (f : Registry → Registry.Change) : Confined (ReadState.change f) := by
  rintro rest rest' s t ⟨n, hs, ht, hr⟩
  exact .ok rfl ⟨n, hs, ht, by simp only [hr]⟩

theorem enterTag :
    Coupled FailsAlike (Amid rest rest') (Inside rest rest') Eq Loading.enterTag Loading.enterTag := by
  intro s t h
  obtain ⟨a, b, s', t', hs, ht, -, h'⟩ | ⟨e, e', s', t', hs, ht, rfl, h'⟩ :=
    (enter (opens_startField tagField) h).cases
  · simp only [Loading.enterTag, hs, ht]
    exact .ok rfl h'
  · simp only [Loading.enterTag, hs, ht]
    cases e <;> exact .error ⟨rfl, h'⟩

theorem enterOptional_cases (name : String) {s t : ReadState} (h : Amid rest rest' s t) :
    (∃ s' t', Loading.enterOptional name s = (.ok true, s') ∧ Loading.enterOptional name t = (.ok true, t') ∧
      Inside rest rest' s' t') ∨
    (∃ s' t', Loading.enterOptional name s = (.ok false, s') ∧ Loading.enterOptional name t = (.ok false, t') ∧
      Amid rest rest' s' t') ∨
    ∃ e s' t', Loading.enterOptional name s = (.error e, s') ∧ Loading.enterOptional name t = (.error e, t') ∧
      s'.registry = t'.registry := by
  obtain ⟨n, hs, ht, hr⟩ := h
  obtain ⟨part, m, hm⟩ | ⟨e, m, hm⟩ := opens_startField name n
  · simp only [Loading.enterOptional, onReader_of_eq (hs ▸ hm rest), onReader_of_eq (ht ▸ hm rest')]
    exact .inl ⟨_, _, rfl, rfl, m, part, rfl, rfl, hr⟩
  · simp only [Loading.enterOptional, onReader_of_eq (hs ▸ hm rest), onReader_of_eq (ht ▸ hm rest')]
    cases e.isFieldAbsent with
    | true => exact .inr (.inl ⟨_, _, rfl, rfl, m, rfl, rfl, hr⟩)
    | false => exact .inr (.inr ⟨e, _, _, rfl, rfl, hr⟩)

theorem readTag : Confined Loading.readTag := by
  intro rest rest'
  refine enterTag.bind fun _ _ _ => (onReader narrow_readValue).inside.bind ?_
  rintro leaf _ rfl
  cases leaf with
  | text tag => exact leave.bind fun _ _ _ => .pure rfl
  | _ => exact .fail fun h => ⟨rfl, h.registry_eq⟩

end Confined

namespace ConfinedIn

variable {α β ρ τ : Type}

theorem pure (a : ρ) : ConfinedIn (Pure.pure a : Attempt (Slot α) ρ) := fun _ _ => .pure rfl

theorem fail (e : Error) : ConfinedIn (.fail e : Attempt (Slot α) ρ) :=
  fun _ _ => .fail fun h => ⟨rfl, h.1.registry_eq⟩

theorem bind {x : Attempt (Slot α) ρ} {f : ρ → Attempt (Slot α) τ} (hx : ConfinedIn x)
    (hf : ∀ a, ConfinedIn (f a)) : ConfinedIn (x >>= f) :=
  fun rest rest' => (hx rest rest').bind fun a _ h => h ▸ hf a rest rest'

theorem inside {rest rest' : List Node} {x : Attempt (Slot α) ρ} (hx : ConfinedIn x) :
    Coupled (Slot.Failing FailsAlike) (Slot.Related (Inside rest rest') Eq)
      (Slot.Related (Inside rest rest') Eq) Eq x x := by
  rintro p q ⟨⟨m, h⟩, hv⟩
  obtain ⟨a, b, p', q', hp, hq, ha, h', hv'⟩ | ⟨e, e', p', q', hp, hq, h'⟩ := (hx _ _ ⟨h, hv⟩).cases
  · rw [hp, hq]
    exact .ok ha ⟨⟨m, h'⟩, hv'⟩
  · rw [hp, hq]
    exact .error h'

theorem around {enter : Attempt Reader Unit} (he : Opens enter) {x : Attempt (Slot α) Unit}
    (hx : ConfinedIn x) : ConfinedIn (Slot.lift (ReadState.onReader enter) >>= fun _ => x >>= fun _ =>
      Slot.lift (ReadState.onReader finishNode)) :=
  fun _ _ => (Confined.enter he).lift.bind fun _ _ _ => hx.inside.bind fun _ _ _ => Confined.leave.lift

theorem optional {x : Attempt (Slot Value) Unit} (name : String) (hx : ConfinedIn x) :
    ConfinedIn (do
      if ← Slot.lift (Loading.enterOptional name) then
        x
        Slot.lift (ReadState.onReader finishNode)) := by
  intro rest rest' p q h
  obtain ⟨s', t', hs, ht, h'⟩ | ⟨s', t', hs, ht, h'⟩ | ⟨e, s', t', hs, ht, h'⟩ :=
    Confined.enterOptional_cases name h.1
  · rw [Attempt.bind_of_eq_ok (Slot.lift_of_eq hs), Attempt.bind_of_eq_ok (Slot.lift_of_eq ht)]
    exact (hx.inside.bind fun _ _ _ => Confined.leave.lift) ⟨h', h.2⟩
  · rw [Attempt.bind_of_eq_ok (Slot.lift_of_eq hs), Attempt.bind_of_eq_ok (Slot.lift_of_eq ht)]
    exact .ok rfl ⟨h', h.2⟩
  · rw [Attempt.bind_of_eq_error (Slot.lift_of_eq hs), Attempt.bind_of_eq_error (Slot.lift_of_eq ht)]
    exact .error ⟨rfl, h'⟩

theorem inOrder {xs : List (Attempt (Slot α) Unit)} (hx : ∀ x ∈ xs, ConfinedIn x) :
    ConfinedIn (Slot.inOrder xs) := by
  intro rest rest'
  have h := Coupled.inOrder (List.forall₂_same.2 fun x hm => hx x hm rest rest')
  rwa [List.forall₂_eq_eq_eq] at h

end ConfinedIn

theorem confined_stepwise (S : Schema) : Loading.Stepwise S Confined ConfinedIn where
  pure := .pure
  fail := .fail
  bind := .bind
  readValue := .onReader narrow_readValue
  isNull := .onReader narrow_isNull
  readSize := .onReader narrow_readSize
  nextFieldName := .onReader narrow_nextFieldName
  inField name hx := .around (opens_startField name) hx
  inElement hx := .around opens_startElement hx
  readTag := .readTag
  ensure t a := .change _
  ask _ e _ _ hk := .ask e hk
  fresh _ hx := fun rest rest' => .fresh rfl (hx rest rest')
  pureIn := .pure
  failIn := .fail
  bindIn := .bind
  lift hx := fun rest rest' => (hx rest rest').lift
  update f := fun _ _ => .update fun _ _ => congrArg f
  assign hx := fun rest rest' => (hx rest rest').assign
  within content make hx := fun rest rest' =>
    .within (fun _ _ => congrArg content) (fun _ _ => congrArg make) (hx rest rest')
  inOrder := .inOrder
  field name hx := .around (opens_startField name) hx
  optional := .optional
  element hx := .around opens_startElement hx
  count hf := by
    intro rest rest' p q h
    obtain ⟨n, hp, hq, -⟩ := h.1
    have hc : p.state.reader.fieldCount = q.state.reader.fieldCount := by rw [hp, hq]; rfl
    have hn := hf (p.state.reader.fieldCount + 1) rest rest' h
    nth_rewrite 2 [hc] at hn
    exact hn

theorem Confined.around_eq {α : Type} {x : Attempt ReadState α} (hx : Confined x)
    {enter : Attempt Reader Unit} {s : ReadState} {d : Json} {m : Node} {rest : List Node}
    (he : enter s.reader = (.ok (), ⟨.value d :: m :: rest⟩)) :
    let read := (ReadState.onReader enter >>= fun _ => x >>= fun value =>
      ReadState.onReader finishNode >>= fun _ => Pure.pure value) s
    let alone := x ⟨.ofJson d, s.registry, []⟩
    read.1 = alone.1 ∧ read.2.registry = alone.2.registry ∧
      ∀ a, read.1 = .ok a → read.2.reader = ⟨m :: rest⟩ := by
  have hs : Amid (m :: rest) [] { s with reader := ⟨.value d :: m :: rest⟩ } ⟨.ofJson d, s.registry, []⟩ :=
    ⟨.value d, rfl, rfl, rfl⟩
  rw [Attempt.bind_of_eq_ok (onReader_of_eq he)]
  obtain ⟨a, _, s', t', hx, hy, rfl, n, hn, -, hr⟩ | ⟨e, _, s', t', hx, hy, rfl, hr⟩ := (hx _ _ hs).cases
  · have hf : finishNode s'.reader = (.ok (), ⟨m :: rest⟩) := by rw [hn, finishNode_cons]
    rw [Attempt.bind_of_eq_ok hx, Attempt.bind_of_eq_ok (onReader_of_eq hf), hy]
    exact ⟨rfl, hr, fun _ _ => rfl⟩
  · rw [Attempt.bind_of_eq_error hx, hy]
    exact ⟨rfl, hr, nofun⟩

namespace Loading

variable (env : Loading)

theorem confined_loadNew (type : Ty) : Confined (env.loadNew type) := by
  intro rest rest' s t h
  have hw : s.reader.weight = t.reader.weight := by
    obtain ⟨n, hs, ht, -⟩ := h
    rw [hs, ht]
    rfl
  simp only [loadNew, ← hw]
  exact ((confined_stepwise env.schema).loader env (s.reader.weight + 1)).1 type rest rest' h

/-- A field or an element is read as its document is on its own, with the same effect on the registry,
and is all that the current node loses; the nodes around it are as they were after every load. -/
theorem loads_confined (type : Ty) {s : ReadState} {n : Node} {rest : List Node}
    (hs : s.reader = ⟨n :: rest⟩) :
    (∀ name d before after, n.fields? = some (before ++ (name, d) :: after) → name ∉ Fields.names before →
      let read := ReadState.inField name (env.loadNew type) s
      let alone := env.ofJson type s.registry d
      read.1 = alone.result ∧ read.2.registry = alone.registry ∧
        ∀ v, read.1 = .ok v → read.2.reader = ⟨.object (before ++ after) :: rest⟩) ∧
    (∀ d items length, n.items? = some (d :: items, length) →
      let read := ReadState.inElement (env.loadNew type) s
      let alone := env.ofJson type s.registry d
      read.1 = alone.result ∧ read.2.registry = alone.registry ∧
        ∀ v, read.1 = .ok v → read.2.reader = ⟨.array items length :: rest⟩) ∧
    (∀ v t, env.loadNew type s = (.ok v, t) → ∃ m, t.reader = ⟨m :: rest⟩) ∧
    (∀ v t, env.load type ⟨s, v⟩ = (.ok (), t) → ∃ m, t.state.reader = ⟨m :: rest⟩) := by
  have hl := (Local.stepwise env.schema).loader env (s.reader.weight + 1)
  have hx := env.confined_loadNew type
  have hstays : ∀ {r : Reader}, s.reader.Within r → ∃ m, r = ⟨m :: rest⟩ := by
    intro r hr
    rw [hs] at hr
    cases hr
    exact ⟨_, rfl⟩
  refine ⟨fun name d before after hf hn => ?_, fun d items length hi => ?_, fun v t h => ?_, fun v t h => ?_⟩
  · exact hx.around_eq (hs ▸ startField_of_take? hf (Fields.take?_append hn d after))
  · exact hx.around_eq (hs ▸ startElement_of_items? hi)
  · exact hstays (hl.1 type h)
  · exact hstays (hl.2 type h)

/-- A tagged record is read from a field between two others, within an array. -/
theorem holder_confined :
    let env : Loading := { schema := Registry.contested }
    let type : Ty := .ref .box (.record "Holder")
    let document : Json := .object [("type", .string "name")]
    let s : ReadState :=
      ⟨⟨[.object [("id", .int 1), ("item", document), ("last", .null)], .array [] 1]⟩, .empty, []⟩
    let read := ReadState.inField "item" (env.loadNew type) s
    read.1 = .ok (.ref (.record "Holder") (.record "Holder" [])) ∧
    read.1 = (env.ofJson type .empty document).result ∧
    read.2.registry = (env.ofJson type .empty document).registry ∧
    read.2.reader = ⟨[.object [("id", .int 1), ("last", .null)], .array [] 1]⟩ := by
  intro env type document s read
  have hs : s.reader = ⟨.object [("id", .int 1), ("item", document), ("last", .null)] :: [.array [] 1]⟩ := rfl
  have hread : read.1 = .ok (.ref (.record "Holder") (.record "Holder" [])) := rfl
  obtain ⟨hresult, hregistry, hreader⟩ :=
    (env.loads_confined type hs).1 "item" document [("id", .int 1)] [("last", .null)] rfl (by decide)
  exact ⟨hread, hresult, hregistry, hreader _ hread⟩

end Loading

end Archivist
