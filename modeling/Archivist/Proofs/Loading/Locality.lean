import Archivist.Proofs.Loading.Advance

/-!
Loads stay within the current node. They leave the nodes around it as they were and what is left of it
no heavier, so that the result of a load does not depend on which loader it is asked of, as long as
that one is for heavier nodes.
-/

set_option autoImplicit false

namespace Archivist

theorem Json.weight_pos (d : Json) : 0 < d.weight := by
  cases d <;> simp [Json.weight]

namespace Fields

theorem weight_take? {fields left : Fields} {name : String} {value : Json}
    (h : fields.take? name = some (value, left)) :
    value.weight + Json.weightFields left + 1 = Json.weightFields fields := by
  induction fields generalizing left value with
  | nil => cases h
  | cons field fields ih =>
    obtain ⟨key, v⟩ := field
    simp only [take?] at h
    split at h
    · cases h
      rfl
    · obtain ⟨⟨found, rest⟩, hf, he⟩ := Option.map_eq_some_iff.1 h
      cases he
      have := ih hf
      simp only [Json.weightFields]
      omega

end Fields

namespace Reader

@[simp] theorem Node.weight_value (d : Json) : (Node.value d).weight = d.weight := rfl

@[simp] theorem Node.weight_object (fields : Fields) :
    (Node.object fields).weight = Json.weightFields fields + 1 := rfl

@[simp] theorem Node.weight_array (items : List Json) (length : Nat) :
    (Node.array items length).weight = Json.weightItems items + 1 := rfl

/-- What may have become of the entered nodes when the current one was read: it has lost something at
most, and the others are as they were. -/
inductive Within : Reader → Reader → Prop where
  | nowhere : Within ⟨[]⟩ ⟨[]⟩
  | node {n n' : Node} {rest : List Node} (h : n'.weight ≤ n.weight) : Within ⟨n :: rest⟩ ⟨n' :: rest⟩

/-- A part of the current node was entered. -/
inductive Enters : Reader → Reader → Prop where
  | node {n n' part : Node} {rest : List Node} (hp : part.weight < n.weight)
    (h : n'.weight < n.weight) : Enters ⟨n :: rest⟩ ⟨part :: n' :: rest⟩

namespace Within

variable {r r' r'' : Reader}

theorem refl (r : Reader) : Within r r := by
  obtain ⟨nodes⟩ := r
  cases nodes with
  | nil => exact .nowhere
  | cons n rest => exact .node (Nat.le_refl _)

theorem trans (h : Within r r') (h' : Within r' r'') : Within r r'' := by
  cases h with
  | nowhere => exact h'
  | node h =>
    cases h' with
    | node h' => exact .node (Nat.le_trans h' h)

theorem weight_le (h : Within r r') : r'.weight ≤ r.weight := by
  cases h with
  | nowhere => exact Nat.le_refl _
  | node h => exact h

end Within

theorem Enters.weight_lt {r r' : Reader} (h : Enters r r') : r'.weight < r.weight := by
  cases h with
  | node hp _ => exact hp

theorem Enters.leave {r r' r'' u : Reader} (h : Enters r r') (hw : Within r' r'')
    (hf : finishNode r'' = (.ok (), u)) : Within r u ∧ u.weight < r.weight := by
  cases h with
  | node _ h =>
    cases hw with
    | node _ =>
      cases hf
      exact ⟨.node (Nat.le_of_lt h), h⟩

variable {r r' : Reader}

theorem object_cases {res : Except Error (Fields × List Node)} (h : object r = (res, r')) :
    (∃ n fields rest, r = ⟨n :: rest⟩ ∧ r' = ⟨.object fields :: rest⟩ ∧ res = .ok (fields, rest) ∧
      n.weight = Json.weightFields fields + 1) ∨
    ∃ cause, res = .error (.malformed cause) ∧ r' = r := by
  obtain ⟨nodes⟩ := r
  unfold object at h
  split at h
  · cases h
    exact .inr ⟨_, rfl, rfl⟩
  · rename_i hn
    cases h
    cases hn
    exact .inl ⟨_, _, _, rfl, rfl, rfl, rfl⟩
  · rename_i hn
    cases h
    cases hn
    exact .inl ⟨_, _, _, rfl, rfl, rfl, rfl⟩
  · cases h
    exact .inr ⟨_, rfl, rfl⟩

theorem array_eq_ok {items : List Json} {length : Nat} {rest : List Node}
    (h : array r = (.ok (items, length, rest), r')) :
    ∃ n, r = ⟨n :: rest⟩ ∧ r' = ⟨.array items length :: rest⟩ ∧
      n.weight = Json.weightItems items + 1 := by
  obtain ⟨nodes⟩ := r
  unfold array at h
  split at h
  · cases h
  · rename_i hn
    cases h
    cases hn
    exact ⟨_, rfl, rfl, rfl⟩
  · rename_i hn
    cases h
    cases hn
    exact ⟨_, rfl, rfl, rfl⟩
  · cases h

theorem startField_cases {name : String} {res : Except Error Unit} (h : startField name r = (res, r')) :
    res = .ok () ∧ Enters r r' ∨
    res = .error (.fieldAbsent name) ∧ Within r r' ∨
    ∃ cause, res = .error (.malformed cause) := by
  rcases ho : object r with ⟨res', u⟩
  obtain ⟨n, fields, rest, rfl, rfl, rfl, hw⟩ | ⟨cause, rfl, rfl⟩ := object_cases ho
  · rw [startField, Attempt.bind_of_eq_ok ho] at h
    cases ht : fields.take? name with
    | none =>
      simp only [ht] at h
      cases h
      exact .inr (.inl ⟨rfl, .node (Nat.le_of_eq hw.symm)⟩)
    | some found =>
      obtain ⟨value, left⟩ := found
      simp only [ht] at h
      cases h
      have := Fields.weight_take? ht
      refine .inl ⟨rfl, .node ?_ ?_⟩ <;> simp only [Node.weight_value, Node.weight_object] <;> omega
  · rw [startField, Attempt.bind_of_eq_error ho] at h
    cases h
    exact .inr (.inr ⟨cause, rfl⟩)

theorem startField_enters {name : String} (h : startField name r = (.ok (), r')) : Enters r r' := by
  obtain ⟨-, he⟩ | ⟨h', -⟩ | ⟨_, h'⟩ := startField_cases h
  · exact he
  · cases h'
  · cases h'

theorem startElement_enters (h : startElement r = (.ok (), r')) : Enters r r' := by
  obtain ⟨⟨items, length, rest⟩, u, ha, h⟩ := Attempt.bind_eq_ok h
  obtain ⟨n, rfl, rfl, hw⟩ := array_eq_ok ha
  cases items with
  | nil => cases h
  | cons item items =>
    cases h
    simp only [Json.weightItems] at hw
    refine .node ?_ ?_ <;> simp only [Node.weight_value, Node.weight_array] <;> omega

theorem readValue_within {leaf : Leaf} (h : readValue r = (.ok leaf, r')) : Within r r' := by
  obtain ⟨⟨node, rest⟩, u, ht, h⟩ := Attempt.bind_eq_ok h
  obtain ⟨nodes⟩ := r
  cases nodes with
  | nil => cases ht
  | cons n rest' =>
    cases ht
    cases node with
    | value document =>
      simp only at h
      cases hl : leaf? document with
      | none =>
        simp only [hl] at h
        cases h
      | some found =>
        simp only [hl] at h
        cases h
        exact .node document.weight_pos
    | object _ => cases h
    | array _ _ => cases h

theorem isNull_within {b : Bool} (h : isNull r = (.ok b, r')) : Within r r' := by
  obtain ⟨⟨node, rest⟩, u, ht, h⟩ := Attempt.bind_eq_ok h
  obtain ⟨nodes⟩ := r
  cases nodes with
  | nil => cases ht
  | cons n rest' =>
    cases ht
    simp only at h
    split at h <;> cases h <;> exact .refl _

theorem readSize_within {n : Nat} (h : readSize r = (.ok n, r')) : Within r r' := by
  obtain ⟨⟨items, length, rest⟩, u, ha, h⟩ := Attempt.bind_eq_ok h
  obtain ⟨n, rfl, rfl, hw⟩ := array_eq_ok ha
  cases h
  exact .node (Nat.le_of_eq hw.symm)

theorem nextFieldName_within {name : Option String} (h : nextFieldName r = (.ok name, r')) :
    Within r r' := by
  obtain ⟨⟨fields, rest⟩, u, ho, h⟩ := Attempt.bind_eq_ok h
  obtain ⟨n, _, _, rfl, rfl, h', hw⟩ | ⟨_, h', -⟩ := object_cases ho
  · cases h'
    cases h
    exact .node (Nat.le_of_eq hw.symm)
  · cases h'

end Reader

/-- A step that, if it succeeds, stays within the current node. -/
def Local {σ α : Type} (V : View σ) (x : Attempt σ α) : Prop :=
  ∀ ⦃s t : σ⦄ ⦃a : α⦄, x s = (.ok a, t) → (V.reader s).Within (V.reader t)

namespace Local

open ReadState

section Generic

variable {σ α β : Type} {V : View σ}

theorem pure (a : α) : Local V (Pure.pure a) := by
  intro s t b h
  cases h
  exact .refl _

theorem fail (e : Error) : Local V (.fail e : Attempt σ α) := by
  intro s t a h
  cases h

theorem bind {x : Attempt σ α} {f : α → Attempt σ β} (hx : Local V x) (hf : ∀ a, Local V (f a)) :
    Local V (x >>= f) := by
  intro s u b h
  obtain ⟨a, t, ha, hb⟩ := Attempt.bind_eq_ok h
  exact (hx ha).trans (hf a hb)

end Generic

variable {α β ρ : Type}

theorem onReader {x : Attempt Reader α} (hx : ∀ {r r' a}, x r = (.ok a, r') → r.Within r') :
    Local .whole (onReader x) := by
  intro s t a h
  rcases hs : x s.reader with ⟨res, r'⟩
  rw [onReader_of_eq hs] at h
  cases h
  exact hx hs

theorem onReader_eq_ok {x : Attempt Reader α} {s t : ReadState} {a : α}
    (h : ReadState.onReader x s = (.ok a, t)) : x s.reader = (.ok a, t.reader) := by
  rcases hs : x s.reader with ⟨res, r'⟩
  rw [onReader_of_eq hs] at h
  cases h
  rfl

theorem around (enter : Attempt Reader Unit) (he : ∀ {r r'}, enter r = (.ok (), r') → r.Enters r')
    {x : Attempt ReadState α} (hx : Local .whole x) :
    Local .whole (ReadState.onReader enter >>= fun _ => x >>= fun value =>
      ReadState.onReader Reader.finishNode >>= fun _ => Pure.pure value) := by
  intro s u a h
  obtain ⟨⟨⟩, t, ht, h⟩ := Attempt.bind_eq_ok h
  obtain ⟨a', t', hx', h⟩ := Attempt.bind_eq_ok h
  obtain ⟨⟨⟩, u', hu, h⟩ := Attempt.bind_eq_ok h
  cases h
  exact ((he (onReader_eq_ok ht)).leave (hx hx') (onReader_eq_ok hu)).1

theorem lift {x : Attempt ReadState ρ} (hx : Local .whole x) : Local (.slot α) (Slot.lift x) := by
  intro s t a h
  rcases hs : x s.state with ⟨res, u⟩
  rw [Slot.lift_of_eq hs] at h
  cases h
  exact hx hs

theorem lift_eq_ok {x : Attempt ReadState ρ} {s t : Slot α} {a : ρ} (h : Slot.lift x s = (.ok a, t)) :
    x s.state = (.ok a, t.state) := by
  rcases hs : x s.state with ⟨res, u⟩
  rw [Slot.lift_of_eq hs] at h
  cases h
  rfl

theorem aroundIn (enter : Attempt Reader Unit) (he : ∀ {r r'}, enter r = (.ok (), r') → r.Enters r')
    {x : Attempt (Slot α) Unit} (hx : Local (.slot α) x) :
    Local (.slot α) (Slot.lift (ReadState.onReader enter) >>= fun _ => x >>= fun _ =>
      Slot.lift (ReadState.onReader Reader.finishNode)) := by
  intro s u a h
  obtain ⟨⟨⟩, t, ht, h⟩ := Attempt.bind_eq_ok h
  obtain ⟨⟨⟩, t', hx', h⟩ := Attempt.bind_eq_ok h
  exact ((he (onReader_eq_ok (lift_eq_ok ht))).leave (hx hx') (onReader_eq_ok (lift_eq_ok h))).1

theorem ask {γ : Type} {answer : Registry → Option γ} {k : γ → Attempt ReadState α} (e : Error)
    (hk : ∀ c, Local .whole (k c)) :
    Local .whole (withRegistry fun r => (answer r).elim (.fail e) k) := by
  intro s t a h
  change (answer s.registry).elim (.fail e) k s = _ at h
  cases ha : answer s.registry with
  | none => simp [ha] at h
  | some c =>
    rw [ha, Option.elim_some] at h
    exact hk c h

theorem update (f : α → α) : Local (.slot α) (Slot.update f) := by
  intro slot t a h
  cases h
  exact .refl slot.state.reader

theorem assign {x : Attempt ReadState α} (hx : Local .whole x) : Local (.slot α) (Slot.assign x) := by
  intro s t a h
  rcases hs : x s.state with ⟨e | b, u⟩
  · rw [Slot.assign_of_eq_error hs] at h
    cases h
  · rw [Slot.assign_of_eq_ok hs] at h
    cases h
    exact hx hs

theorem fresh {x : Attempt (Slot α) Unit} (initial : α) (hx : Local (.slot α) x) :
    Local .whole (Slot.fresh initial x) := by
  intro s t a h
  rcases hs : x ⟨s, initial⟩ with ⟨e | _, u⟩
  · rw [Slot.fresh_of_eq_error hs] at h
    cases h
  · rw [Slot.fresh_of_eq_ok hs] at h
    cases h
    exact hx hs

theorem within {x : Attempt (Slot β) ρ} (content : α → β) (make : β → α) (hx : Local (.slot β) x) :
    Local (.slot α) (Slot.within content make x) := by
  intro s t a h
  rcases hs : x ⟨s.state, content s.value⟩ with ⟨res, u⟩
  rw [Slot.within_of_eq hs] at h
  cases h
  exact hx hs

theorem each {xs : List (Attempt (Slot α) Unit)} (hx : ∀ x ∈ xs, Local (.slot α) x) {s : ReadState}
    {vs : List α} {t : Slot (List α)} (h : Slot.each s xs vs = (.ok (), t)) :
    s.reader.Within t.state.reader := by
  induction xs generalizing s vs t with
  | nil =>
    simp only [Slot.each_nil] at h
    cases h
    exact .refl _
  | cons x xs ih =>
    cases vs with
    | nil =>
      simp only [Slot.each_of_nil] at h
      cases h
      exact .refl _
    | cons v vs =>
      rcases hs : x ⟨s, v⟩ with ⟨e | _, slot⟩
      · rw [Slot.each_cons_of_eq_error hs] at h
        cases h
      · rcases hr : Slot.each slot.state xs vs with ⟨res, rest⟩
        rw [Slot.each_cons_of_eq_ok hs hr] at h
        cases h
        have hrest : slot.state.reader.Within rest.state.reader :=
          ih (fun x hm => hx x (by simp [hm])) hr
        exact (hx x (by simp) hs).trans hrest

theorem enterOptional_eq_ok {name : String} {s t : ReadState} {entered : Bool}
    (h : Loading.enterOptional name s = (.ok entered, t)) :
    (if entered then s.reader.Enters t.reader else s.reader.Within t.reader) := by
  rcases hf : Reader.startField name s.reader with ⟨res, r'⟩
  obtain ⟨rfl, he⟩ | ⟨rfl, hw⟩ | ⟨cause, rfl⟩ := Reader.startField_cases hf
  · simp only [Loading.enterOptional, onReader_of_eq hf] at h
    cases h
    exact he
  · simp only [Loading.enterOptional, onReader_of_eq hf, Error.isFieldAbsent, ↓reduceIte] at h
    cases h
    exact hw
  · simp [Loading.enterOptional, onReader_of_eq hf, Error.isFieldAbsent] at h

theorem enterTag_enters {s t : ReadState} (h : Loading.enterTag s = (.ok (), t)) :
    s.reader.Enters t.reader := by
  rcases hf : Reader.startField tagField s.reader with ⟨e | _, r'⟩
  · cases e <;> simp [Loading.enterTag, onReader_of_eq hf] at h
  · simp only [Loading.enterTag, onReader_of_eq hf] at h
    cases h
    exact Reader.startField_enters hf

theorem readTag_eq_ok {s t : ReadState} {tag : String} (h : Loading.readTag s = (.ok tag, t)) :
    s.reader.Within t.reader ∧ t.reader.weight < s.reader.weight := by
  obtain ⟨⟨⟩, t₁, h₁, h⟩ := Attempt.bind_eq_ok h
  obtain ⟨leaf, t₂, h₂, h⟩ := Attempt.bind_eq_ok h
  split at h
  · obtain ⟨⟨⟩, t₃, h₃, h⟩ := Attempt.bind_eq_ok h
    cases h
    exact (enterTag_enters h₁).leave (onReader Reader.readValue_within h₂) (onReader_eq_ok h₃)
  · cases h

theorem stepwise (S : Schema) : Loading.Stepwise S (Local .whole) (fun {α} => Local (.slot α)) where
  pure := pure
  fail := fail
  bind := bind
  readValue := onReader Reader.readValue_within
  isNull := onReader Reader.isNull_within
  readSize := onReader Reader.readSize_within
  nextFieldName := onReader Reader.nextFieldName_within
  inField _ hx := around _ Reader.startField_enters hx
  inElement hx := around _ Reader.startElement_enters hx
  readTag _ _ _ h := (readTag_eq_ok h).1
  ensure t a s _ _ h := by
    cases h
    exact .refl s.reader
  ask _ e _ _ hk := ask e hk
  fresh := fresh
  pureIn := pure
  failIn := fail
  bindIn := bind
  lift := lift
  update := update
  assign := assign
  within := within
  inOrder hx _ _ _ h := each hx h
  field _ hx := aroundIn _ Reader.startField_enters hx
  optional name hx := by
    intro s u a h
    obtain ⟨entered, t, ht, h⟩ := Attempt.bind_eq_ok h
    have he := enterOptional_eq_ok (lift_eq_ok ht)
    cases entered with
    | false =>
      cases h
      exact he
    | true =>
      obtain ⟨⟨⟩, t', hx', h⟩ := Attempt.bind_eq_ok h
      exact (Reader.Enters.leave he (hx hx') (onReader_eq_ok (lift_eq_ok h))).1
  element hx := aroundIn _ Reader.startElement_enters hx
  count hf slot _ _ h := hf (slot.state.reader.fieldCount + 1) h

end Local

end Archivist
