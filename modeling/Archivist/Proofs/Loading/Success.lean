import Archivist.Proofs.Json.Parsed
import Archivist.Proofs.Reordering.Documents

/-!
What is known after a step that succeeded, told of the steps of the reading archive on valid nodes and
of the ways to put steps together.
-/

set_option autoImplicit false

namespace Archivist

/-- If the step succeeds, its result and the state it leaves are as told. -/
def Attempt.Assures {σ α : Type} (x : Attempt σ α) (s : σ) (post : α → σ → Prop) : Prop :=
  ∀ a t, x s = (.ok a, t) → post a t

namespace Attempt.Assures

variable {σ α β : Type} {x : Attempt σ α} {f : α → Attempt σ β} {s : σ} {post post' : α → σ → Prop}
  {goal : β → σ → Prop}

theorem pure {a : α} (h : post a s) : Assures (Pure.pure a) s post := by
  rintro _ _ ⟨⟩
  exact h

theorem fail (e : Error) : Assures (.fail e) s post := nofun

theorem bind (hx : x.Assures s post) (hf : ∀ a t, post a t → (f a).Assures t goal) :
    (x >>= f).Assures s goal := by
  intro b u h
  obtain ⟨a, t, ha, hb⟩ := bind_eq_ok h
  exact hf a t (hx a t ha) b u hb

theorem mono (hx : x.Assures s post) (h : ∀ a t, post a t → post' a t) : x.Assures s post' :=
  fun a t ha => h a t (hx a t ha)

end Attempt.Assures

namespace Slot

open Attempt

variable {α β ρ : Type} {s : ReadState} {v : α}

theorem lift_assures {x : Attempt ReadState ρ} {post : ρ → ReadState → Prop} (h : x.Assures s post) :
    Assures (lift x) ⟨s, v⟩ fun a slot => slot.value = v ∧ post a slot.state := by
  intro a slot ha
  rcases hx : x s with ⟨r, t⟩
  have heq : lift x ⟨s, v⟩ = (r, ⟨t, v⟩) := lift_of_eq hx
  cases heq.symm.trans ha
  exact ⟨rfl, h _ _ hx⟩

theorem assign_assures {x : Attempt ReadState α} {post : α → ReadState → Prop} (h : x.Assures s post) :
    Assures (assign x) ⟨s, v⟩ fun _ slot => post slot.value slot.state := by
  intro a slot ha
  rcases hx : x s with ⟨e | value, t⟩
  · have heq : assign x ⟨s, v⟩ = (.error e, ⟨t, v⟩) := assign_of_eq_error hx
    cases heq.symm.trans ha
  · have heq : assign x ⟨s, v⟩ = (.ok (), ⟨t, value⟩) := assign_of_eq_ok hx
    cases heq.symm.trans ha
    exact h _ _ hx

theorem fresh_assures {x : Attempt (Slot α) Unit} {post : α → ReadState → Prop}
    (h : x.Assures ⟨s, v⟩ fun _ slot => post slot.value slot.state) : Assures (fresh v x) s post := by
  intro a t ha
  rcases hx : x ⟨s, v⟩ with ⟨e | ⟨⟩, slot⟩
  · rw [fresh_of_eq_error hx] at ha
    cases ha
  · rw [fresh_of_eq_ok hx] at ha
    cases ha
    exact h _ _ hx

theorem update_bind_assures {f : α → α} {k : Unit → Attempt (Slot α) ρ} {goal : ρ → Slot α → Prop}
    (h : (k ()).Assures ⟨s, f v⟩ goal) : (update f >>= k).Assures ⟨s, v⟩ goal := h

theorem get_bind_assures {k : Slot α → Attempt (Slot α) ρ} {slot : Slot α} {goal : ρ → Slot α → Prop}
    (h : (k slot).Assures slot goal) : (Attempt.get >>= k).Assures slot goal := h

theorem within_assures {content : α → β} {make : β → α} {x : Attempt (Slot β) Unit}
    (post : α → ReadState → Prop)
    (h : x.Assures ⟨s, content v⟩ fun _ slot => post (make slot.value) slot.state) :
    Assures (within content make x) ⟨s, v⟩ fun _ slot => post slot.value slot.state := by
  intro a slot ha
  rcases hx : x ⟨s, content v⟩ with ⟨r, inner⟩
  have heq : within content make x ⟨s, v⟩ = (r, ⟨inner.state, make inner.value⟩) := within_of_eq hx
  cases heq.symm.trans ha
  exact h _ _ hx

theorem inOrder_nil_assures {vs : List α} {post : Unit → Slot (List α) → Prop} (h : post () ⟨s, vs⟩) :
    Assures (inOrder []) ⟨s, vs⟩ post := by
  intro a slot ha
  rw [inOrder, each_nil] at ha
  cases ha
  exact h

theorem inOrder_cons_assures {x : Attempt (Slot α) Unit} {xs : List (Attempt (Slot α) Unit)} {vs : List α}
    (first : α → ReadState → Prop) (post : List α → ReadState → Prop)
    (hx : x.Assures ⟨s, v⟩ fun _ slot => first slot.value slot.state)
    (hr : ∀ w t, first w t → Assures (inOrder xs) ⟨t, vs⟩ fun _ slot => post (w :: slot.value) slot.state) :
    Assures (inOrder (x :: xs)) ⟨s, v :: vs⟩ fun _ slot => post slot.value slot.state := by
  intro a slot ha
  rw [inOrder] at ha
  rcases hfirst : x ⟨s, v⟩ with ⟨e | ⟨⟩, inner⟩
  · rw [each_cons_of_eq_error hfirst] at ha
    cases ha
  · rcases hrest : each inner.state xs vs with ⟨r, rest⟩
    rw [each_cons_of_eq_ok hfirst hrest] at ha
    cases ha
    exact hr _ _ (hx _ _ hfirst) _ _ hrest

end Slot

namespace Reader

open Attempt

/-- What is left of the node is part of a valid document. -/
def Node.Valid : Node → Prop
  | .value d => d.Valid
  | .object fields => (Json.object fields).Valid
  | .array items _ => (Json.array items).Valid

def Node.names (n : Node) : List String := Fields.names (n.fields?.getD [])

variable {n m : Node} {outer : List Node} {fields : Fields} {items : List Json} {length : Nat}

theorem Node.names_of_fields? (h : n.fields? = some fields) : n.names = fields.names := by
  rw [names, h]
  rfl

theorem Node.Valid.object_of_fields? (hn : n.Valid) (h : n.fields? = some fields) :
    (Node.object fields).Valid := by
  unfold Node.fields? at h
  split at h <;> cases h <;> exact hn

theorem Node.Valid.array_of_items? (hn : n.Valid) (h : n.items? = some (items, length)) :
    (Node.array items length).Valid := by
  unfold Node.items? at h
  split at h <;> cases h <;> exact hn

/-- What there is once a field has been taken out of a node. -/
structure Taken (n : Node) (name : String) (d : Json) (left : Fields) : Prop where
  document : d.Valid
  valid : (Node.object left).Valid
  mem : name ∈ n.names
  names {other : String} : other ∈ left.names → other ∈ n.names ∧ other ≠ name

theorem taken_of_take? {name : String} {d : Json} {left : Fields} (hn : n.Valid)
    (hf : n.fields? = some fields) (h : fields.take? name = some (d, left)) : Taken n name d left := by
  obtain ⟨hnodup, hvalid⟩ := Json.valid_object.1 (hn.object_of_fields? hf)
  have hperm := Fields.perm_of_take? h
  have hnames := Fields.names_perm_of_take? h
  obtain ⟨hname, hleft⟩ := List.nodup_cons.1 (hnames.nodup_iff.1 hnodup)
  have hall := fun field hm => hvalid field (hperm.mem_iff.2 hm)
  have heq := Node.names_of_fields? hf
  refine ⟨hall _ List.mem_cons_self, ?_, ?_, fun {other} hm => ⟨?_, fun he => hname (he ▸ hm)⟩⟩
  · exact Json.valid_object.2 ⟨hleft, fun field hm => hall field (List.mem_cons_of_mem _ hm)⟩
  · exact heq ▸ hnames.mem_iff.2 List.mem_cons_self
  · exact heq ▸ hnames.mem_iff.2 (List.mem_cons_of_mem _ hm)

theorem startField_assures (hn : n.Valid) (name : String) :
    (startField name).Assures ⟨n :: outer⟩ fun _ r =>
      ∃ d left, Taken n name d left ∧ r = ⟨.value d :: .object left :: outer⟩ := by
  intro a r h
  cases hf : n.fields? with
  | none =>
    rw [startField_of_none hf] at h
    cases h
  | some fields =>
    cases ht : fields.take? name with
    | none =>
      rw [startField_of_absent hf ht] at h
      cases h
    | some found =>
      obtain ⟨d, left⟩ := found
      rw [startField_of_take? hf ht] at h
      cases h
      exact ⟨d, left, taken_of_take? hn hf ht, rfl⟩

theorem startElement_assures (hn : n.Valid) :
    startElement.Assures ⟨n :: outer⟩ fun _ r => ∃ d items length,
      d.Valid ∧ (Node.array items length).Valid ∧ r = ⟨.value d :: .array items length :: outer⟩ := by
  intro a r h
  cases hi : n.items? with
  | none =>
    rw [startElement_of_none hi] at h
    cases h
  | some found =>
    obtain ⟨items, length⟩ := found
    cases items with
    | nil =>
      rw [startElement_of_no_more hi] at h
      cases h
    | cons d items =>
      rw [startElement_of_items? hi] at h
      cases h
      obtain ⟨hd, hitems⟩ := List.forall_mem_cons.1 (Json.valid_array.1 (hn.array_of_items? hi))
      exact ⟨d, items, length, hd, Json.valid_array.2 hitems, rfl⟩

theorem readSize_assures (hn : n.Valid) :
    readSize.Assures ⟨n :: outer⟩ fun _ r => ∃ items length,
      (Node.array items length).Valid ∧ r = ⟨.array items length :: outer⟩ := by
  intro a r h
  cases hi : n.items? with
  | none =>
    rw [readSize_of_none hi] at h
    cases h
  | some found =>
    obtain ⟨items, length⟩ := found
    rw [readSize_of_items? hi] at h
    cases h
    exact ⟨items, _, hn.array_of_items? hi, rfl⟩

theorem nextFieldName_assures (hn : n.Valid) :
    nextFieldName.Assures ⟨n :: outer⟩ fun _ r => ∃ fields,
      (Node.object fields).Valid ∧ fields.names = n.names ∧ r = ⟨.object fields :: outer⟩ := by
  intro a r h
  cases hf : n.fields? with
  | none =>
    rw [nextFieldName_of_none hf] at h
    cases h
  | some fields =>
    rw [nextFieldName_of_fields? hf] at h
    cases h
    exact ⟨fields, hn.object_of_fields? hf, (Node.names_of_fields? hf).symm, rfl⟩

theorem readValue_assures :
    readValue.Assures ⟨n :: outer⟩ fun leaf r =>
      ∃ d, n = .value d ∧ leaf? d = some leaf ∧ r = ⟨.value .null :: outer⟩ := by
  intro leaf r h
  cases n with
  | value d =>
    cases hl : leaf? d with
    | none =>
      simp [readValue, top, hl] at h
      cases h
    | some found =>
      rw [readValue_of_leaf? hl] at h
      cases h
      exact ⟨d, rfl, hl, rfl⟩
  | object fields => cases h
  | array items length => cases h

theorem isNull_assures : isNull.Assures ⟨n :: outer⟩ fun _ r => r = ⟨n :: outer⟩ := by
  intro a r h
  unfold isNull at h
  obtain ⟨⟨m, rest⟩, t, ht, h⟩ := bind_eq_ok h
  cases ht
  simp only at h
  split at h <;> cases h <;> rfl

theorem finishNode_assures : finishNode.Assures ⟨n :: m :: outer⟩ fun _ r => r = ⟨m :: outer⟩ := by
  rintro a r ⟨⟩
  rfl

end Reader

namespace ReadState

open Attempt

variable {α : Type} {s : ReadState} {n m : Reader.Node} {outer : List Reader.Node}

theorem onReader_assures {x : Attempt Reader α} {r : Reader} {post : α → Reader → Prop} (hs : s.reader = r)
    (h : x.Assures r post) : (onReader x).Assures s fun a t => post a t.reader := by
  intro a t ha
  rcases hx : x s.reader with ⟨res, r'⟩
  rw [onReader_of_eq hx] at ha
  cases ha
  exact h _ _ (hs ▸ hx)

theorem inField_assures {x : Attempt ReadState α} {name : String} {post : α → Prop}
    (hs : s.reader = ⟨n :: outer⟩) (hn : n.Valid)
    (hx : ∀ ⦃t d inner⦄, t.reader = ⟨.value d :: inner⟩ → d.Valid →
      x.Assures t fun a u => post a ∧ ∃ m, u.reader = ⟨m :: inner⟩) :
    (inField name x).Assures s fun a t =>
      post a ∧ ∃ d left, Reader.Taken n name d left ∧ t.reader = ⟨.object left :: outer⟩ := by
  refine (onReader_assures hs (Reader.startField_assures hn name)).bind fun _ t ht => ?_
  obtain ⟨d, left, taken, ht⟩ := ht
  refine (hx ht taken.document).bind fun a u hu => ?_
  obtain ⟨hp, m, hu⟩ := hu
  exact (onReader_assures hu Reader.finishNode_assures).bind fun _ _ h => .pure ⟨hp, d, left, taken, h⟩

theorem inElement_assures {x : Attempt ReadState α} {post : α → Prop}
    (hs : s.reader = ⟨n :: outer⟩) (hn : n.Valid)
    (hx : ∀ ⦃t d inner⦄, t.reader = ⟨.value d :: inner⟩ → d.Valid →
      x.Assures t fun a u => post a ∧ ∃ m, u.reader = ⟨m :: inner⟩) :
    (inElement x).Assures s fun a t => post a ∧ ∃ items length,
      (Reader.Node.array items length).Valid ∧ t.reader = ⟨.array items length :: outer⟩ := by
  refine (onReader_assures hs (Reader.startElement_assures hn)).bind fun _ t ht => ?_
  obtain ⟨d, items, length, hd, hitems, ht⟩ := ht
  refine (hx ht hd).bind fun a u hu => ?_
  obtain ⟨hp, m, hu⟩ := hu
  exact (onReader_assures hu Reader.finishNode_assures).bind fun _ _ h => .pure ⟨hp, items, length, hitems, h⟩

end ReadState

end Archivist
