import Archivist.Proofs.Loading.Forgetting
import Archivist.Proofs.Loading.Framing
import Archivist.Proofs.Loading.Unfolding
import Archivist.Proofs.Reordering.Maps
import Archivist.Proofs.RoundTrip.Recovery
import Archivist.Proofs.Saving.Documents

/-!
What a failed load leaves of the value that it was loading. Main statement: what is replaced as a whole is as it
was; sequences and maps hold what was read before the failure; arrays and records hold what was loaded before it,
then the part that failed as its own failed load leaves it, then the other parts as they were.
-/

set_option autoImplicit false

namespace Archivist

open ReadState Reader

/-- Steps taken one after the other, each from the state that the one before has led to. -/
inductive InTurn {σ δ ε : Type} (step : σ → δ → ε → σ → Prop) : σ → List δ → List ε → σ → Prop where
  | nil (s : σ) : InTurn step s [] [] s
  | cons {s t u : σ} {d : δ} {x : ε} {ds : List δ} {xs : List ε} (first : step s d x t)
    (rest : InTurn step t ds xs u) : InTurn step s (d :: ds) (x :: xs) u

theorem Slot.within_eq_error {α β : Type} {content : α → β} {make : β → α} {x : Attempt (Slot β) Unit}
    {slot slot' : Slot α} {e : Error} (h : Slot.within content make x slot = (.error e, slot')) :
    ∃ inner, x ⟨slot.state, content slot.value⟩ = (.error e, inner) ∧ slot' = ⟨inner.state, make inner.value⟩ := by
  rcases hx : x ⟨slot.state, content slot.value⟩ with ⟨res, inner⟩
  cases (Slot.within_of_eq hx).symm.trans h
  exact ⟨inner, rfl, rfl⟩

theorem Slot.assign_eq_error {α : Type} {x : Attempt ReadState α} {slot slot' : Slot α} {e : Error}
    (h : Slot.assign x slot = (.error e, slot')) : slot'.value = slot.value := by
  rcases hx : x slot.state with ⟨e' | a, t⟩
  · cases (Slot.assign_of_eq_error hx).symm.trans h
    rfl
  · cases (Slot.assign_of_eq_ok hx).symm.trans h

namespace Loading

/-- A document on its own is read as a value, with this effect on the registry. -/
def ReadAlone {α : Type} (x : Attempt ReadState α) (r : Registry) (d : Json) (a : α) (r' : Registry) : Prop :=
  ∃ t, x ⟨.ofJson d, r, []⟩ = (.ok a, t) ∧ t.registry = r'

/-- A document on its own cannot be read. -/
def FailsAlone {α : Type} (x : Attempt ReadState α) (r : Registry) (d : Json) (e : Error) : Prop :=
  ∃ t, x ⟨.ofJson d, r, []⟩ = (.error e, t)

theorem around_cases {α : Type} {x : Attempt ReadState α} (hx : Confined x) {enter : Attempt Reader Unit}
    {s : ReadState} {d : Json} {m : Node} {rest : List Node} (he : enter s.reader = (.ok (), ⟨.value d :: m :: rest⟩)) :
    let read := (onReader enter >>= fun _ => x >>= fun value => onReader finishNode >>= fun _ => pure value) s
    (∃ a t, read = (.ok a, t) ∧ t.reader = ⟨m :: rest⟩ ∧ ReadAlone x s.registry d a t.registry) ∨
    ∃ e t, read = (.error e, t) ∧ FailsAlone x s.registry d e := by
  intro read
  obtain ⟨hresult, hregistry, hreader⟩ := hx.around_eq he
  rcases ha : x ⟨.ofJson d, s.registry, []⟩ with ⟨e | a, u⟩
  · rw [ha] at hresult
    exact .inr ⟨e, read.2, Prod.ext hresult rfl, u, ha⟩
  · rw [ha] at hresult hregistry
    exact .inl ⟨a, read.2, Prod.ext hresult rfl, hreader a hresult, u, ha, hregistry.symm⟩

section Gathering

variable {α β : Type}

def gather (x : Attempt ReadState β) (put : β → α → α) : Nat → Attempt (Slot α) Unit
  | 0 => pure ()
  | count + 1 => do
    let b ← Slot.lift (inElement x)
    Slot.update (put b)
    gather x put count

def gatherAll (x : Attempt ReadState β) (put : β → α → α) : Attempt (Slot α) Unit := do
  gather x put (← Slot.lift (onReader readSize))

theorem appendItems_eq (item : Attempt ReadState Value) :
    appendItems item = gather item (fun v vs => vs ++ [v]) := by
  funext count
  induction count with
  | zero => rfl
  | succ count ih => simp only [appendItems, gather, ih]

/-- One round of gathering takes the first element, whatever the number of rounds: what it gives is put into the value,
or it fails. -/
theorem gather_cons {x : Attempt ReadState β} (hx : Confined x) (put : β → α → α) {s : ReadState} {d : Json}
    {items : List Json} {length : Nat} {rest : List Node} (hs : s.reader = ⟨.array (d :: items) length :: rest⟩)
    (acc : α) :
    (∃ b t, ReadAlone x s.registry d b t.registry ∧ t.reader = ⟨.array items length :: rest⟩ ∧
      ∀ count, gather x put (count + 1) ⟨s, acc⟩ = gather x put count ⟨t, put b acc⟩) ∨
    ∃ e t, FailsAlone x s.registry d e ∧ ∀ count, gather x put (count + 1) ⟨s, acc⟩ = (.error e, ⟨t, acc⟩) := by
  have he : startElement s.reader = (.ok (), ⟨.value d :: .array items length :: rest⟩) := by
    rw [hs]
    exact startElement_of_items? rfl
  obtain ⟨b, t, hread, ht, halone⟩ | ⟨e, t, hread, halone⟩ := around_cases hx he
  · have hl : Slot.lift (inElement x) ⟨s, acc⟩ = (.ok b, ⟨t, acc⟩) := Slot.lift_of_eq hread
    exact .inl ⟨b, t, halone, ht, fun count => Attempt.bind_of_eq_ok hl⟩
  · have hl : Slot.lift (inElement x) ⟨s, acc⟩ = (.error e, ⟨t, acc⟩) := Slot.lift_of_eq hread
    exact .inr ⟨e, t, halone, fun count => Attempt.bind_of_eq_error hl⟩

theorem gather_eq_error {x : Attempt ReadState β} (hx : Confined x) {put : β → α → α} {count : Nat} {s : ReadState}
    {items : List Json} {length : Nat} {rest : List Node} {acc : α} {e : Error} {slot : Slot α}
    (hs : s.reader = ⟨.array items length :: rest⟩) (hc : count ≤ items.length)
    (h : gather x put count ⟨s, acc⟩ = (.error e, slot)) :
    ∃ before d after bs r, items = before ++ d :: after ∧ InTurn (ReadAlone x) s.registry before bs r ∧
      FailsAlone x r d e ∧ slot.value = bs.foldl (fun acc b => put b acc) acc := by
  induction count generalizing s items acc with
  | zero => cases h
  | succ count ih =>
    obtain ⟨d, items, rfl⟩ := List.exists_cons_of_length_pos (Nat.lt_of_lt_of_le (Nat.succ_pos _) hc)
    obtain ⟨b, t, halone, ht, hround⟩ | ⟨e', t, halone, hround⟩ := gather_cons hx put hs acc
    · obtain ⟨before, d', after, bs, r, rfl, hbefore, hfails, hvalue⟩ :=
        ih ht (Nat.le_of_succ_le_succ hc) ((hround count).symm.trans h)
      exact ⟨d :: before, d', after, b :: bs, r, rfl, .cons halone hbefore, hfails, hvalue⟩
    · cases (hround count).symm.trans h
      exact ⟨[], d, items, [], s.registry, rfl, .nil _, halone, rfl⟩

theorem length_of_items? {n : Node} (hn : ∀ items length, n ≠ .array items length) {items : List Json} {length : Nat}
    (h : n.items? = some (items, length)) : length = items.length := by
  cases n with
  | value d =>
    cases d <;> cases h
    rfl
  | object fields => cases h
  | array items length => exact absurd rfl (hn items length)

theorem gatherAll_eq_error {x : Attempt ReadState β} (hx : Confined x) {put : β → α → α} {s : ReadState} {n : Node}
    {rest : List Node} {acc : α} {e : Error} {slot : Slot α} (hs : s.reader = ⟨n :: rest⟩)
    (hn : ∀ items length, n ≠ .array items length)
    (h : gatherAll x put ⟨s, acc⟩ = (.error e, slot)) :
    n.items? = none ∧ slot.value = acc ∨
    ∃ before d after length bs r, n.items? = some (before ++ d :: after, length) ∧
      InTurn (ReadAlone x) s.registry before bs r ∧ FailsAlone x r d e ∧
      slot.value = bs.foldl (fun acc b => put b acc) acc := by
  cases hi : n.items? with
  | none =>
    have hr : readSize s.reader = (.error (.malformed (.notAnArray n.kind)), ⟨n :: rest⟩) := by
      rw [hs]
      exact readSize_of_none hi
    rw [gatherAll, Attempt.bind_of_eq_error (Slot.lift_of_eq (onReader_of_eq hr))] at h
    cases h
    exact .inl ⟨rfl, rfl⟩
  | some found =>
    obtain ⟨items, length⟩ := found
    have hr : readSize s.reader = (.ok length, ⟨.array items length :: rest⟩) := by
      rw [hs]
      exact readSize_of_items? hi
    rw [gatherAll, Attempt.bind_of_eq_ok (Slot.lift_of_eq (onReader_of_eq hr))] at h
    obtain ⟨before, d, after, bs, r, rfl, hbefore, hfails, hvalue⟩ :=
      gather_eq_error hx rfl (Nat.le_of_eq (length_of_items? hn hi)) h
    exact .inr ⟨before, d, after, length, bs, r, rfl, hbefore, hfails, hvalue⟩

end Gathering

variable (env : Loading)

section Maps

section Entries

variable {κ ν α : Type}

def readEntry (read : Attempt ReadState κ) (item : Attempt ReadState ν) : Attempt ReadState (κ × ν) := do
  let key ← inField keyField read
  let value ← inField valueField item
  return (key, value)

theorem confined_readEntry (S : Schema) {read : Attempt ReadState κ} {item : Attempt ReadState ν} (hr : Confined read)
    (hi : Confined item) : Confined (readEntry read item) := by
  have hp := confined_stepwise S
  exact hp.bind (hp.inField _ hr) fun _ => hp.bind (hp.inField _ hi) fun _ => hp.pure _

theorem addPairs_eq (read : Attempt ReadState κ) (item : Attempt ReadState ν) (insert : κ → ν → α → α) :
    addPairs read item insert = gather (readEntry read item) fun entry => insert entry.1 entry.2 := by
  funext count
  induction count with
  | zero => rfl
  | succ count ih =>
    simp only [addPairs, gather, ih]
    rfl

/-- The field of a key, with its value. -/
def NamedRead (ofField : String → Option κ) (x : Attempt ReadState ν) (r : Registry) (field : String × Json)
    (entry : κ × ν) (r' : Registry) : Prop :=
  ReadAlone x r field.2 entry.2 r' ∧ ofField field.1 = some entry.1

/-- A field whose value cannot be read, or which is no key. -/
def NamedFails (ofField : String → Option κ) (x : Attempt ReadState ν) (r : Registry) (field : String × Json)
    (e : Error) : Prop :=
  FailsAlone x r field.2 e ∨
    (∃ v r', ReadAlone x r field.2 v r') ∧ ofField field.1 = none ∧ e = .malformed .invalidKey

variable {ofField : String → Option κ} {x : Attempt ReadState ν} (hx : Confined x) {insert : κ → ν → α → α}

include hx

/-- One round of reading fields takes the first one, whatever the number of rounds: its entry is put into the map, or
it fails. -/
theorem addNamed_cons {s : ReadState} {n : Node} {rest : List Node} {name : String} {d : Json} {left : Fields}
    (hs : s.reader = ⟨n :: rest⟩) (hn : n.fields? = some ((name, d) :: left)) (acc : α) :
    (∃ entry t, NamedRead ofField x s.registry (name, d) entry t.registry ∧ t.reader = ⟨.object left :: rest⟩ ∧
      ∀ count, addNamed ofField x insert (count + 1) ⟨s, acc⟩ =
        addNamed ofField x insert count ⟨t, insert entry.1 entry.2 acc⟩) ∨
    ∃ e t, NamedFails ofField x s.registry (name, d) e ∧
      ∀ count, addNamed ofField x insert (count + 1) ⟨s, acc⟩ = (.error e, ⟨t, acc⟩) := by
  have hnext : Slot.lift (onReader nextFieldName) ⟨s, acc⟩ =
      (.ok (some name), ⟨{ s with reader := ⟨.object ((name, d) :: left) :: rest⟩ }, acc⟩) :=
    nextName_of_fields? hs hn
  have he : startField name ⟨.object ((name, d) :: left) :: rest⟩ = (.ok (), ⟨.value d :: .object left :: rest⟩) :=
    startField_of_take? rfl (by simp [Fields.take?])
  obtain ⟨v, t, hread, ht, halone⟩ | ⟨e, t, hread, halone⟩ :=
    around_cases hx (s := { s with reader := ⟨.object ((name, d) :: left) :: rest⟩ }) he
  · have hl : Slot.lift (inField name x) ⟨{ s with reader := ⟨.object ((name, d) :: left) :: rest⟩ }, acc⟩ =
        (.ok v, ⟨t, acc⟩) := Slot.lift_of_eq hread
    cases hk : ofField name with
    | none =>
      refine .inr ⟨_, t, .inr ⟨⟨v, _, halone⟩, hk, rfl⟩, fun count => ?_⟩
      rw [addNamed, Attempt.bind_of_eq_ok hnext]
      simp only
      rw [Attempt.bind_of_eq_ok hl, hk]
      rfl
    | some key =>
      refine .inl ⟨(key, v), t, ⟨halone, hk⟩, ht, fun count => ?_⟩
      rw [addNamed, Attempt.bind_of_eq_ok hnext]
      simp only
      rw [Attempt.bind_of_eq_ok hl, hk]
      rfl
  · have hl : Slot.lift (inField name x) ⟨{ s with reader := ⟨.object ((name, d) :: left) :: rest⟩ }, acc⟩ =
        (.error e, ⟨t, acc⟩) := Slot.lift_of_eq hread
    refine .inr ⟨e, t, .inl halone, fun count => ?_⟩
    rw [addNamed, Attempt.bind_of_eq_ok hnext]
    simp only
    rw [Attempt.bind_of_eq_error hl]

theorem addNamed_eq_error {count : Nat} {s : ReadState} {n : Node} {rest : List Node} {fields : Fields} {acc : α}
    {e : Error} {slot : Slot α} (hs : s.reader = ⟨n :: rest⟩) (hn : n.fields? = some fields)
    (h : addNamed ofField x insert count ⟨s, acc⟩ = (.error e, slot)) :
    ∃ before field after entries r, fields = before ++ field :: after ∧
      InTurn (NamedRead ofField x) s.registry before entries r ∧ NamedFails ofField x r field e ∧
      slot.value = entries.foldl (fun acc entry => insert entry.1 entry.2 acc) acc := by
  induction count generalizing s n fields acc with
  | zero => cases h
  | succ count ih =>
    cases fields with
    | nil => cases (addNamed_nil hs hn).symm.trans h
    | cons field fields =>
      obtain ⟨entry, t, hentry, ht, hround⟩ | ⟨e', t, hfails, hround⟩ := addNamed_cons hx hs hn acc
      · obtain ⟨before, field', after, entries, r, rfl, hbefore, hfails, hvalue⟩ :=
          ih ht rfl ((hround count).symm.trans h)
        exact ⟨field :: before, field', after, entry :: entries, r, rfl, .cons hentry hbefore, hfails, hvalue⟩
      · cases (hround count).symm.trans h
        exact ⟨[], field, fields, [], s.registry, rfl, .nil _, hfails, rfl⟩

end Entries

def putEntry (kind : MapKind) (key : KeyTy) (entry : Atom × Value) : Entries → Entries :=
  Entries.insert (env.schema.before kind key) entry.1 entry.2

end Maps

theorem around_load_cases (type : Ty) {enter : Attempt Reader Unit} {s : ReadState} {d : Json} {m : Node}
    {rest : List Node} (he : enter s.reader = (.ok (), ⟨.value d :: m :: rest⟩)) (prior : Value) :
    let loaded := (Slot.lift (onReader enter) >>= fun _ => env.load type >>= fun _ =>
      Slot.lift (onReader finishNode)) ⟨s, prior⟩
    (∃ t u v, loaded = (.ok (), ⟨t, v⟩) ∧ t.reader = ⟨m :: rest⟩ ∧ t.registry = u.registry ∧
      env.loadAt type (.value d) s.registry prior = (.ok (), ⟨u, v⟩)) ∨
    ∃ e t u v, loaded = (.error e, ⟨t, v⟩) ∧ env.loadAt type (.value d) s.registry prior = (.error e, ⟨u, v⟩) := by
  intro loaded
  have henter : Slot.lift (onReader enter) ⟨s, prior⟩ =
      (.ok (), ⟨{ s with reader := ⟨.value d :: m :: rest⟩ }, prior⟩) := Slot.lift_of_eq (onReader_of_eq he)
  obtain ⟨t, u, v, part, hload, halone, ht, -, hr⟩ | ⟨e, t, u, v, hload, halone⟩ :=
    env.load_cases type (s := { s with reader := ⟨.value d :: m :: rest⟩ }) rfl prior
  · have hleave : Slot.lift (onReader finishNode) ⟨t, v⟩ = (.ok (), ⟨{ t with reader := ⟨m :: rest⟩ }, v⟩) :=
      Slot.lift_of_eq (onReader_of_eq (ht ▸ finishNode_cons))
    refine .inl ⟨{ t with reader := ⟨m :: rest⟩ }, u, v, ?_, rfl, hr, halone⟩
    simp only [loaded]
    rw [Attempt.bind_of_eq_ok henter, Attempt.bind_of_eq_ok hload, hleave]
  · refine .inr ⟨e, t, u, v, ?_, halone⟩
    simp only [loaded]
    rw [Attempt.bind_of_eq_ok henter, Attempt.bind_of_eq_error hload]

section Arrays

def ItemLoaded (item : Ty) (r : Registry) (element : Json × Value) (v : Value) (r' : Registry) : Prop :=
  ∃ t, env.loadAt item (.value element.1) r element.2 = (.ok (), ⟨t, v⟩) ∧ t.registry = r'

theorem each_elementOf_eq_error {item : Ty} {s : ReadState} {items : List Json} {length : Nat} {rest : List Node}
    {priors : List Value} {e : Error} {slot : Slot (List Value)} (hs : s.reader = ⟨.array items length :: rest⟩)
    (hl : priors.length = items.length)
    (h : Slot.each s (List.replicate priors.length (elementOf (env.load item))) priors = (.error e, slot)) :
    ∃ (before : List (Json × Value)) (d : Json) (after : List Json) (prior : Value) (later vs : List Value)
      (r : Registry) (t : ReadState) (left : Value), items = before.map Prod.fst ++ d :: after ∧
      priors = before.map Prod.snd ++ prior :: later ∧ InTurn (env.ItemLoaded item) s.registry before vs r ∧
      env.loadAt item (.value d) r prior = (.error e, ⟨t, left⟩) ∧ slot.value = vs ++ left :: later := by
  induction priors generalizing s items slot with
  | nil => cases h
  | cons prior priors ih =>
    obtain ⟨d, items, rfl⟩ := List.exists_cons_of_length_eq_add_one hl.symm
    have he : startElement s.reader = (.ok (), ⟨.value d :: .array items length :: rest⟩) := by
      rw [hs]
      exact startElement_of_items? rfl
    rw [List.length_cons, List.replicate_succ] at h
    obtain ⟨t, u, v, hload, ht, hr, halone⟩ | ⟨e', t, u, v, hload, halone⟩ := env.around_load_cases item he prior
    · rcases hrest : Slot.each t (List.replicate priors.length (elementOf (env.load item))) priors with ⟨res, slot'⟩
      cases (Slot.each_cons_of_eq_ok hload hrest).symm.trans h
      obtain ⟨before, d', after, prior', later, vs, r, t', left, rfl, rfl, hbefore, hfails, hvalue⟩ :=
        ih ht (Nat.succ.inj hl) hrest
      exact ⟨(d, prior) :: before, d', after, prior', later, v :: vs, r, t', left, rfl, rfl,
        .cons ⟨u, halone, hr.symm⟩ hbefore, hfails, congrArg (v :: ·) hvalue⟩
    · cases (Slot.each_cons_of_eq_error hload).symm.trans h
      exact ⟨[], d, items, prior, priors, [], s.registry, u, v, rfl, rfl, .nil _, halone, rfl⟩

end Arrays

section Records

/-- A field loaded in place on its own, from what is left of the node of its record. -/
inductive FieldLoaded : Node × Registry → Field × Value → Value → Node × Registry → Prop where
  | skipped {n : Node} {r : Registry} {field : Field} {prior : Value} (hm : field.mode = .skipped) :
    FieldLoaded (n, r) (field, prior) prior (n, r)
  | absent {n : Node} {r : Registry} {field : Field} {prior : Value} {fields : Fields} (hm : field.mode = .optional)
    (hn : n.fields? = some fields) (ht : fields.take? field.name = none) :
    FieldLoaded (n, r) (field, prior) prior (.object fields, r)
  | entered {n : Node} {r : Registry} {field : Field} {prior v : Value} {fields left : Fields} {d : Json}
    {t : ReadState} (hm : field.mode = .required ∨ field.mode = .optional) (hn : n.fields? = some fields)
    (ht : fields.take? field.name = some (d, left))
    (load : env.loadAt field.type (.value d) r prior = (.ok (), ⟨t, v⟩)) :
    FieldLoaded (n, r) (field, prior) v (.object left, t.registry)
  | flattened {n m : Node} {r : Registry} {field : Field} {prior v : Value} {t : ReadState}
    (hm : field.mode = .flattened) (load : env.loadAt field.type n r prior = (.ok (), ⟨t, v⟩))
    (ht : t.reader = ⟨[m]⟩) : FieldLoaded (n, r) (field, prior) v (m, t.registry)

/-- A field that cannot be entered is as it was, and one that fails inside as its own failed load leaves it. -/
inductive FieldFails (n : Node) (r : Registry) (field : Field) (prior : Value) : Error → Value → Prop where
  | noObject (hm : field.mode = .required ∨ field.mode = .optional) (hn : n.fields? = none) :
    FieldFails n r field prior (.malformed (.notAnObject n.kind)) prior
  | absent {fields : Fields} (hm : field.mode = .required) (hn : n.fields? = some fields)
    (ht : fields.take? field.name = none) : FieldFails n r field prior (.fieldAbsent field.name) prior
  | entered {fields left : Fields} {d : Json} {e : Error} {t : ReadState} {v : Value}
    (hm : field.mode = .required ∨ field.mode = .optional) (hn : n.fields? = some fields)
    (ht : fields.take? field.name = some (d, left))
    (load : env.loadAt field.type (.value d) r prior = (.error e, ⟨t, v⟩)) : FieldFails n r field prior e v
  | flattened {e : Error} {t : ReadState} {v : Value} (hm : field.mode = .flattened)
    (load : env.loadAt field.type n r prior = (.error e, ⟨t, v⟩)) : FieldFails n r field prior e v

section Fields

variable {load : Ty → Attempt (Slot Value) Unit} {field : Field} {s : ReadState} {n : Node} {rest : List Node}
  {fields left : Fields} {d : Json}

theorem fillField_of_take? (hm : field.mode = .required ∨ field.mode = .optional) (hs : s.reader = ⟨n :: rest⟩)
    (hn : n.fields? = some fields) (ht : fields.take? field.name = some (d, left)) (prior : Value) :
    fillField load field ⟨s, prior⟩ = (Slot.lift (onReader (startField field.name)) >>= fun _ =>
      load field.type >>= fun _ => Slot.lift (onReader finishNode)) ⟨s, prior⟩ := by
  have he : onReader (startField field.name) s =
      (.ok (), { s with reader := ⟨.value d :: .object left :: rest⟩ }) :=
    onReader_of_eq (hs ▸ startField_of_take? hn ht)
  rcases hm with hm | hm
  · simp only [fillField, hm]
  · have ho : enterOptional field.name s = (.ok true, { s with reader := ⟨.value d :: .object left :: rest⟩ }) := by
      simp only [enterOptional, he]
    simp only [fillField, hm]
    rw [Attempt.bind_of_eq_ok (Slot.lift_of_eq ho), Attempt.bind_of_eq_ok (Slot.lift_of_eq he)]
    rfl

theorem fillField_of_absent (hm : field.mode = .optional) (hs : s.reader = ⟨n :: rest⟩)
    (hn : n.fields? = some fields) (ht : fields.take? field.name = none) (prior : Value) :
    fillField load field ⟨s, prior⟩ = (.ok (), ⟨{ s with
      reader := ⟨.object fields :: rest⟩, log := s.log ++ [.fieldSkipped field.name] }, prior⟩) := by
  have he : onReader (startField field.name) s =
      (.error (.fieldAbsent field.name), { s with reader := ⟨.object fields :: rest⟩ }) :=
    onReader_of_eq (hs ▸ startField_of_absent hn ht)
  have ho : enterOptional field.name s = (.ok false, { s with
      reader := ⟨.object fields :: rest⟩, log := s.log ++ [.fieldSkipped field.name] }) := by
    simp only [enterOptional, he]
    rfl
  simp only [fillField, hm]
  rw [Attempt.bind_of_eq_ok (Slot.lift_of_eq ho)]
  rfl

theorem fillField_of_missing (hm : field.mode = .required) (hs : s.reader = ⟨n :: rest⟩)
    (hn : n.fields? = some fields) (ht : fields.take? field.name = none) (prior : Value) :
    fillField load field ⟨s, prior⟩ =
      (.error (.fieldAbsent field.name), ⟨{ s with reader := ⟨.object fields :: rest⟩ }, prior⟩) := by
  have he : onReader (startField field.name) s =
      (.error (.fieldAbsent field.name), { s with reader := ⟨.object fields :: rest⟩ }) :=
    onReader_of_eq (hs ▸ startField_of_absent hn ht)
  simp only [fillField, hm]
  rw [Attempt.bind_of_eq_error (Slot.lift_of_eq he)]

theorem fillField_of_none (hm : field.mode = .required ∨ field.mode = .optional) (hs : s.reader = ⟨n :: rest⟩)
    (hn : n.fields? = none) (prior : Value) :
    fillField load field ⟨s, prior⟩ =
      (.error (.malformed (.notAnObject n.kind)), ⟨{ s with reader := ⟨n :: rest⟩ }, prior⟩) := by
  have he : onReader (startField field.name) s =
      (.error (.malformed (.notAnObject n.kind)), { s with reader := ⟨n :: rest⟩ }) :=
    onReader_of_eq (by rw [hs]; exact startField_of_none hn)
  rcases hm with hm | hm
  · simp only [fillField, hm]
    rw [Attempt.bind_of_eq_error (Slot.lift_of_eq he)]
  · have ho : enterOptional field.name s =
        (.error (.malformed (.notAnObject n.kind)), { s with reader := ⟨n :: rest⟩ }) := by
      simp only [enterOptional, he]
      rfl
    simp only [fillField, hm]
    rw [Attempt.bind_of_eq_error (Slot.lift_of_eq ho)]

end Fields

theorem named_cases {field : Field} (hm : field.mode = .required ∨ field.mode = .optional) {s : ReadState} {n : Node}
    {rest : List Node} (hs : s.reader = ⟨n :: rest⟩) (prior : Value) :
    (∃ t v m, fillField env.load field ⟨s, prior⟩ = (.ok (), ⟨t, v⟩) ∧ t.reader = ⟨m :: rest⟩ ∧
      env.FieldLoaded (n, s.registry) (field, prior) v (m, t.registry)) ∨
    ∃ e t v, fillField env.load field ⟨s, prior⟩ = (.error e, ⟨t, v⟩) ∧
      env.FieldFails n s.registry field prior e v := by
  cases hn : n.fields? with
  | none => exact .inr ⟨_, _, _, fillField_of_none hm hs hn prior, .noObject hm hn⟩
  | some fields =>
    cases ht : fields.take? field.name with
    | none =>
      rcases hm with hm | hm
      · exact .inr ⟨_, _, _, fillField_of_missing hm hs hn ht prior, .absent hm hn ht⟩
      · exact .inl ⟨_, _, _, fillField_of_absent hm hs hn ht prior, rfl, .absent hm hn ht⟩
    | some found =>
      obtain ⟨d, left⟩ := found
      rw [fillField_of_take? hm hs hn ht]
      obtain ⟨t, u, v, hload, hreader, hr, halone⟩ | ⟨e, t, u, v, hload, halone⟩ :=
        env.around_load_cases field.type (hs ▸ startField_of_take? hn ht) prior
      · exact .inl ⟨t, v, _, hload, hreader, hr ▸ .entered hm hn ht halone⟩
      · exact .inr ⟨e, t, v, hload, .entered hm hn ht halone⟩

theorem fillField_cases (field : Field) {s : ReadState} {n : Node} {rest : List Node} (hs : s.reader = ⟨n :: rest⟩)
    (prior : Value) :
    (∃ t v m, fillField env.load field ⟨s, prior⟩ = (.ok (), ⟨t, v⟩) ∧ t.reader = ⟨m :: rest⟩ ∧
      env.FieldLoaded (n, s.registry) (field, prior) v (m, t.registry)) ∨
    ∃ e t v, fillField env.load field ⟨s, prior⟩ = (.error e, ⟨t, v⟩) ∧
      env.FieldFails n s.registry field prior e v := by
  cases hm : field.mode with
  | skipped =>
    simp only [fillField, hm]
    exact .inl ⟨s, prior, n, rfl, hs, .skipped hm⟩
  | flattened =>
    simp only [fillField, hm]
    obtain ⟨t, u, v, m, hload, halone, ht, hu, hr⟩ | ⟨e, t, u, v, hload, halone⟩ :=
      env.load_cases field.type hs prior
    · exact .inl ⟨t, v, m, hload, ht, hr ▸ .flattened hm halone hu⟩
    · exact .inr ⟨e, t, v, hload, .flattened hm halone⟩
  | required => exact env.named_cases (.inl hm) hs prior
  | optional => exact env.named_cases (.inr hm) hs prior

theorem each_fillField_eq_error {fields : List Field} {s : ReadState} {n : Node} {rest : List Node}
    {priors : List Value} {e : Error} {slot : Slot (List Value)} (hs : s.reader = ⟨n :: rest⟩)
    (h : Slot.each s (fields.map (fillField env.load)) priors = (.error e, slot)) :
    ∃ (before : List (Field × Value)) (field : Field) (after : List Field) (prior : Value) (later vs : List Value)
      (m : Node) (r : Registry) (left : Value), fields = before.map Prod.fst ++ field :: after ∧
      priors = before.map Prod.snd ++ prior :: later ∧ InTurn env.FieldLoaded (n, s.registry) before vs (m, r) ∧
      env.FieldFails m r field prior e left ∧ slot.value = vs ++ left :: later := by
  induction fields generalizing s n priors slot with
  | nil =>
    simp only [List.map_nil, Slot.each_nil] at h
    cases h
  | cons field fields ih =>
    cases priors with
    | nil =>
      simp only [Slot.each_of_nil] at h
      cases h
    | cons prior priors =>
      rw [List.map_cons] at h
      obtain ⟨t, v, m, hload, ht, hfield⟩ | ⟨e', t, v, hload, hfails⟩ := env.fillField_cases field hs prior
      · rcases hrest : Slot.each t (fields.map (fillField env.load)) priors with ⟨res, slot'⟩
        cases (Slot.each_cons_of_eq_ok hload hrest).symm.trans h
        obtain ⟨before, field', after, prior', later, vs, m', r, left, rfl, rfl, hbefore, hfails, hvalue⟩ :=
          ih ht hrest
        exact ⟨(field, prior) :: before, field', after, prior', later, v :: vs, m', r, left, rfl, rfl,
          .cons hfield hbefore, hfails, congrArg (v :: ·) hvalue⟩
      · cases (Slot.each_cons_of_eq_error hload).symm.trans h
        exact ⟨[], field, fields, prior, priors, [], n, s.registry, v, rfl, rfl, .nil _, hfails, rfl⟩

end Records

/-- `env.LeftBehind n r prior e left type`: what a load of the type from the node into the prior value may leave
when it fails with the error. -/
def LeftBehind (n : Node) (r : Registry) (prior : Value) (e : Error) (left : Value) : Ty → Prop
  | .atom _ | .option _ | .ref _ _ => left = prior
  | .list _ item =>
    n.items? = none ∧ left = .list [] ∨
    ∃ before d after length vs r', n.items? = some (before ++ d :: after, length) ∧
      InTurn (ReadAlone (env.loadNew item)) r before vs r' ∧ FailsAlone (env.loadNew item) r' d e ∧ left = .list vs
  | .map kind key item =>
    ∃ entries : List (Atom × Value),
    left = .map key (entries.foldl (fun acc entry => env.putEntry kind key entry acc) []) ∧
    match key with
    | .atom type =>
      n.items? = none ∧ entries = [] ∨
      ∃ before d after length r', n.items? = some (before ++ d :: after, length) ∧
        InTurn (ReadAlone (readEntry (readAtom type) (env.loadNew item))) r before entries r' ∧
        FailsAlone (readEntry (readAtom type) (env.loadNew item)) r' d e
    | key =>
      n.fields? = none ∧ entries = [] ∨
      ∃ before field after r', n.fields? = some (before ++ field :: after) ∧
        InTurn (NamedRead (env.schema.keyOf? key) (env.loadNew item)) r before entries r' ∧
        NamedFails (env.schema.keyOf? key) (env.loadNew item) r' field e
  | .array item length =>
    (∀ items, n.items? ≠ some (items, length)) ∧ left = prior ∨
    ∃ (before : List (Json × Value)) (d : Json) (after : List Json) (failed : Value) (later vs : List Value)
      (r' : Registry) (t : ReadState) (remains : Value),
      n.items? = some (before.map Prod.fst ++ d :: after, length) ∧
      prior = .list (before.map Prod.snd ++ failed :: later) ∧ InTurn (env.ItemLoaded item) r before vs r' ∧
      env.loadAt item (.value d) r' failed = (.error e, ⟨t, remains⟩) ∧ left = .list (vs ++ remains :: later)
  | .record name =>
    ∃ (before : List (Field × Value)) (field : Field) (after : List Field) (failed : Value) (later vs : List Value)
      (m : Node) (r' : Registry) (remains : Value),
      env.schema.fieldsOf name = before.map Prod.fst ++ field :: after ∧
      prior = .record name (before.map Prod.snd ++ failed :: later) ∧
      InTurn env.FieldLoaded (n, r) before vs (m, r') ∧ env.FieldFails m r' field failed e remains ∧
      left = .record name (vs ++ remains :: later)

section Parts

variable {n : Node} {r : Registry} {prior left : Value} {e : Error} {t : ReadState}

theorem foldl_snoc {α : Type} (acc vs : List α) : vs.foldl (fun acc v => acc ++ [v]) acc = acc ++ vs := by
  induction vs generalizing acc with
  | nil => simp
  | cons v vs ih => simp [ih]

theorem addMap_leaves {κ ν α : Type} {ofField : String → Option κ} {x : Attempt ReadState ν} (hx : Confined x)
    {insert : κ → ν → α → α} {acc : α} {slot : Slot α}
    (h : addMap (.names ofField) x insert ⟨⟨⟨[n]⟩, r, []⟩, acc⟩ = (.error e, slot)) :
    ∃ entries, slot.value = entries.foldl (fun acc entry => insert entry.1 entry.2 acc) acc ∧
      (n.fields? = none ∧ entries = [] ∨
        ∃ before field after r', n.fields? = some (before ++ field :: after) ∧
          InTurn (NamedRead ofField x) r before entries r' ∧ NamedFails ofField x r' field e) := by
  change addNamed ofField x insert (n.fieldCount + 1) ⟨⟨⟨[n]⟩, r, []⟩, acc⟩ = (.error e, slot) at h
  cases hf : n.fields? with
  | none =>
    rw [addNamed_of_error (nextFieldName_of_none hf)] at h
    cases h
    exact ⟨[], rfl, .inl ⟨rfl, rfl⟩⟩
  | some fields =>
    obtain ⟨before, field, after, entries, r', rfl, hbefore, hfails, hvalue⟩ := addNamed_eq_error hx rfl hf h
    exact ⟨entries, hvalue, .inr ⟨before, field, after, r', rfl, hbefore, hfails⟩⟩

theorem fillMap_leaves {kind : MapKind} {key : KeyTy} {item : Ty} (hn : ∀ items length, n ≠ .array items length)
    (h : env.fillMap kind key (env.loadNew item) ⟨⟨⟨[n]⟩, r, []⟩, prior⟩ = (.error e, ⟨t, left⟩)) :
    env.LeftBehind n r prior e left (.map kind key item) := by
  have hx := env.confined_loadNew item
  obtain ⟨inner, hinner, hleft⟩ := Slot.within_eq_error h
  cases hleft
  cases key with
  | atom type =>
    have hall : gatherAll (readEntry (readAtom type) (env.loadNew item)) (env.putEntry kind (.atom type))
        ⟨⟨⟨[n]⟩, r, []⟩, []⟩ = (.error e, inner) := by
      have heq := addPairs_eq (readAtom type) (env.loadNew item)
        (Entries.insert (env.schema.before kind (.atom type)))
      simp only [keyReader, addMap, heq] at hinner
      exact hinner
    have hr := confined_readEntry env.schema ((confined_stepwise env.schema).readAtom type) hx
    obtain ⟨hi, hvalue⟩ | ⟨before, d, after, length, entries, r', hi, hbefore, hfails, hvalue⟩ :=
      gatherAll_eq_error hr rfl hn hall
    · exact ⟨[], by rw [hvalue]; rfl, .inl ⟨hi, rfl⟩⟩
    · exact ⟨entries, by rw [hvalue], .inr ⟨before, d, after, length, r', hi, hbefore, hfails⟩⟩
  | text | named name =>
    obtain ⟨entries, hvalue, hcases⟩ := addMap_leaves hx hinner
    exact ⟨entries, by rw [hvalue]; rfl, hcases⟩

theorem checkSize_cases (n : Node) (length : Nat) (r : Registry) :
    (∃ e t, checkSize length ⟨⟨[n]⟩, r, []⟩ = (.error e, t) ∧ ∀ items, n.items? ≠ some (items, length)) ∨
    ∃ items, n.items? = some (items, length) ∧
      checkSize length ⟨⟨[n]⟩, r, []⟩ = (.ok (), ⟨⟨[.array items length]⟩, r, []⟩) := by
  cases hi : n.items? with
  | none =>
    have hr : readSize ⟨[n]⟩ = (.error (.malformed (.notAnArray n.kind)), ⟨[n]⟩) := readSize_of_none hi
    exact .inl ⟨_, _, Attempt.bind_of_eq_error (onReader_of_eq hr), nofun⟩
  | some found =>
    obtain ⟨items, size⟩ := found
    have hr : readSize ⟨[n]⟩ = (.ok size, ⟨[.array items size]⟩) := readSize_of_items? hi
    simp only [checkSize]
    rw [Attempt.bind_of_eq_ok (onReader_of_eq hr)]
    by_cases hs : size = length
    · subst hs
      exact .inr ⟨items, rfl, by simp⟩
    · refine .inl ⟨_, _, by rw [if_neg hs]; rfl, fun items' hitems => hs ?_⟩
      cases hitems
      rfl

theorem fillArray_leaves {item : Ty} {length : Nat} {priors : List Value}
    (hn : ∀ items length, n ≠ .array items length) (hl : priors.length = length)
    (h : fillArray length (env.load item) ⟨⟨⟨[n]⟩, r, []⟩, .list priors⟩ = (.error e, ⟨t, left⟩)) :
    env.LeftBehind n r (.list priors) e left (.array item length) := by
  obtain ⟨inner, hinner, hleft⟩ := Slot.within_eq_error h
  cases hleft
  obtain ⟨e', u, hcheck, hi⟩ | ⟨items, hi, hcheck⟩ := checkSize_cases n length r
  · rw [Attempt.bind_of_eq_error (Slot.lift_of_eq hcheck)] at hinner
    cases hinner
    exact .inl ⟨hi, rfl⟩
  · rw [Attempt.bind_of_eq_ok (Slot.lift_of_eq hcheck), ← hl] at hinner
    have hlength : priors.length = items.length := hl.trans (length_of_items? hn hi)
    obtain ⟨before, d, after, failed, later, vs, r', t', remains, rfl, rfl, hbefore, hfails, hvalue⟩ :=
      env.each_elementOf_eq_error rfl hlength hinner
    exact .inr ⟨before, d, after, failed, later, vs, r', t', remains, hi, rfl, hbefore, hfails, by rw [hvalue]⟩

end Parts

/-- What a failed load leaves of the prior value, where the node is a document or what is left of an object. A load
that would never end is none that fails. -/
theorem failed_load_leaves {type : Ty} {n : Node} {r : Registry} {prior left : Value} {e : Error} {t : ReadState}
    (hn : ∀ items length, n ≠ .array items length) (hp : env.schema.Shaped type prior) (he : e ≠ .endless)
    (h : env.loadAt type n r prior = (.error e, ⟨t, left⟩)) : env.LeftBehind n r prior e left type := by
  cases type with
  | atom _ | option _ | ref _ _ => exact Slot.assign_eq_error h
  | list kind item =>
    rw [loadAt, load_list] at h
    obtain ⟨inner, hinner, hleft⟩ := Slot.within_eq_error h
    cases hleft
    rw [appendItems_eq] at hinner
    obtain ⟨hi, hvalue⟩ | ⟨before, d, after, length, vs, r', hi, hbefore, hfails, hvalue⟩ :=
      gatherAll_eq_error (env.confined_loadNew item) rfl hn hinner
    · exact .inl ⟨hi, by rw [hvalue]⟩
    · exact .inr ⟨before, d, after, length, vs, r', hi, hbefore, hfails, by rw [hvalue, foldl_snoc, List.nil_append]⟩
  | map kind key item =>
    rw [loadAt, load_map] at h
    exact env.fillMap_leaves hn h
  | array item length =>
    cases hp with
    | replaced hr => cases hr
    | @array _ _ priors hl _ =>
      rw [loadAt, load_array] at h
      exact env.fillArray_leaves hn hl h
  | record name =>
    cases hp with
    | replaced hr => cases hr
    | @record _ priors hl _ =>
      have hload : env.fillRecord name env.load env.load ⟨⟨⟨[n]⟩, r, []⟩, .record name priors⟩ =
          (.error e, ⟨t, left⟩) := by
        rcases env.persists_load_record name ⟨⟨⟨[n]⟩, r, []⟩, .record name priors⟩ with heq | ⟨u, hu⟩
        · exact heq.trans h
        · cases h.symm.trans hu
          exact absurd rfl he
      obtain ⟨inner, hinner, hleft⟩ := Slot.within_eq_error hload
      cases hleft
      simp only [ite_self] at hinner
      obtain ⟨before, field, after, failed, later, vs, m, r', remains, hfields, rfl, hbefore, hfails, hvalue⟩ :=
        env.each_fillField_eq_error rfl hinner
      exact ⟨before, field, after, failed, later, vs, m, r', remains, hfields, rfl, hbefore, hfails,
        by rw [hvalue]⟩

/-- The second gear lacks its teeth. The first one is loaded by then, and so is the label of the second. -/
theorem gears_left_behind :
    let env : Loading := { schema := workshop }
    let type : Ty := .array (.record "Gear") 2
    let d : Json := .array
      [.object [("teeth", .int 12), ("text", .string "main")], .object [("text", .string "spare")]]
    let gear (text : String) (teeth : Int) : Value :=
      .record "Gear" [.record "Label" [.atom (.text text)], .atom (.int .u8 teeth)]
    let prior : Value := .list [gear "first" 1, gear "second" 2]
    let failed := env.loadAt type (.value d) .empty prior
    failed.1 = .error (.fieldAbsent "teeth") ∧
      failed.2.value.atoms = [.text "main", .int .u8 12, .text "spare", .int .u8 2] ∧
      env.LeftBehind (.value d) .empty prior (.fieldAbsent "teeth") failed.2.value type := by
  intro env type d gear prior failed
  have hresult : failed.1 = .error (.fieldAbsent "teeth") := by decide +kernel
  have hgear : ∀ text teeth, workshop.Shaped (.record "Gear") (gear text teeth) := by
    intro text teeth
    have hlabel : workshop.Shaped (.record "Label") (.record "Label" [.atom (.text text)]) :=
      .record rfl (List.forall_mem_singleton.2 fun _ => .replaced rfl)
    exact .record rfl (List.forall_mem_cons.2 ⟨fun _ => hlabel, List.forall_mem_singleton.2 fun _ => .replaced rfl⟩)
  have hshaped : workshop.Shaped type prior :=
    .array rfl (List.forall_mem_cons.2 ⟨hgear _ _, List.forall_mem_singleton.2 (hgear _ _)⟩)
  have hleaves : ∀ run, env.loadAt type (.value d) .empty prior = run → run.1 = .error (.fieldAbsent "teeth") →
      env.LeftBehind (.value d) .empty prior (.fieldAbsent "teeth") run.2.value type := by
    rintro ⟨_, t, left⟩ h rfl
    exact env.failed_load_leaves nofun hshaped nofun h
  exact ⟨hresult, by decide +kernel, hleaves failed rfl hresult⟩

end Loading

end Archivist
