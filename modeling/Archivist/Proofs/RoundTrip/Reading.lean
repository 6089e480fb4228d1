import Archivist.Proofs.Loading.Polymorphic
import Archivist.Proofs.RoundTrip.Offers

/-!
Reading back what was written, one type former at a time: given that what lies below can be read back,
so can the whole, and it takes out of its node just the fields that it has written there.
-/

set_option autoImplicit false

namespace Archivist

/-- The step succeeds, with a result and a state as told. -/
def Attempt.Ends {σ α : Type} (x : Attempt σ α) (s : σ) (post : α → σ → Prop) : Prop :=
  ∃ a t, x s = (.ok a, t) ∧ post a t

namespace Attempt.Ends

variable {σ α β : Type} {x : Attempt σ α} {f : α → Attempt σ β} {s : σ} {post post' : α → σ → Prop}
  {goal : β → σ → Prop}

theorem pure {a : α} (h : post a s) : Ends (Pure.pure a) s post := ⟨a, s, rfl, h⟩

theorem bind (hx : x.Ends s post) (hf : ∀ a t, post a t → (f a).Ends t goal) : (x >>= f).Ends s goal := by
  obtain ⟨a, t, ha, hp⟩ := hx
  obtain ⟨b, u, hb, hg⟩ := hf a t hp
  exact ⟨b, u, (bind_of_eq_ok ha).trans hb, hg⟩

theorem mono (hx : x.Ends s post) (h : ∀ a t, post a t → post' a t) : x.Ends s post' := by
  obtain ⟨a, t, ha, hp⟩ := hx
  exact ⟨a, t, ha, h a t hp⟩

end Attempt.Ends

namespace Slot

open Attempt

variable {α β ρ : Type} {s : ReadState} {v : α}

theorem lift_ends {x : Attempt ReadState ρ} {post : ρ → ReadState → Prop} (h : x.Ends s post) :
    Ends (lift x) ⟨s, v⟩ fun a slot => slot.value = v ∧ post a slot.state := by
  obtain ⟨a, t, ha, hp⟩ := h
  exact ⟨a, ⟨t, v⟩, lift_of_eq ha, rfl, hp⟩

theorem assign_ends {x : Attempt ReadState α} {post : α → ReadState → Prop} (h : x.Ends s post) :
    Ends (assign x) ⟨s, v⟩ fun _ slot => post slot.value slot.state := by
  obtain ⟨a, t, ha, hp⟩ := h
  exact ⟨(), ⟨t, a⟩, assign_of_eq_ok ha, hp⟩

theorem fresh_ends {x : Attempt (Slot α) Unit} {post : α → ReadState → Prop}
    (h : x.Ends ⟨s, v⟩ fun _ slot => post slot.value slot.state) : Ends (fresh v x) s post := by
  obtain ⟨⟨⟩, slot, ha, hp⟩ := h
  exact ⟨slot.value, slot.state, fresh_of_eq_ok ha, hp⟩

theorem within_ends {content : α → β} {make : β → α} {x : Attempt (Slot β) Unit} {c : β} (hc : content v = c)
    {post : α → ReadState → Prop} (h : x.Ends ⟨s, c⟩ fun _ slot => post (make slot.value) slot.state) :
    Ends (within content make x) ⟨s, v⟩ fun _ slot => post slot.value slot.state := by
  subst hc
  obtain ⟨⟨⟩, inner, ha, hp⟩ := h
  exact ⟨(), ⟨inner.state, make inner.value⟩, within_of_eq ha, hp⟩

theorem inOrder_nil_ends {xs : List (Attempt (Slot α) Unit)} (post : List α → ReadState → Prop)
    (h : post [] s) : Ends (inOrder xs) ⟨s, []⟩ fun _ slot => post slot.value slot.state :=
  ⟨(), ⟨s, []⟩, each_of_nil, h⟩

theorem inOrder_cons_ends {x : Attempt (Slot α) Unit} {xs : List (Attempt (Slot α) Unit)} {vs : List α}
    (first : α → ReadState → Prop) (post : List α → ReadState → Prop)
    (hx : x.Ends ⟨s, v⟩ fun _ slot => first slot.value slot.state)
    (hr : ∀ w t, first w t → Ends (inOrder xs) ⟨t, vs⟩ fun _ slot => post (w :: slot.value) slot.state) :
    Ends (inOrder (x :: xs)) ⟨s, v :: vs⟩ fun _ slot => post slot.value slot.state := by
  obtain ⟨⟨⟩, slot, ha, hp⟩ := hx
  obtain ⟨⟨⟩, rest, hb, hp⟩ := hr slot.value slot.state hp
  exact ⟨(), ⟨rest.state, slot.value :: rest.value⟩, each_cons_of_eq_ok ha hb, hp⟩

end Slot

namespace Exchange

open Attempt ReadState

variable (E : Exchange)

/-- The current node and those around it, with a registry that can read what is in reach. -/
def At (s : ReadState) (n : Reader.Node) (outer : List Reader.Node) : Prop :=
  s.reader = ⟨n :: outer⟩ ∧ E.Ready s.registry

/-- `E.Got v b n outer w t`: for the value `v`, written as `b` and offered by `n`, the value `w` was
read, and the node has lost just what was written. -/
def Got (v : Value) (b : Writer.Node) (n : Reader.Node) (outer : List Reader.Node) (w : Value)
    (t : ReadState) : Prop :=
  v.Same w ∧ ∃ n', E.At t n' outer ∧ Leaves b n n'

/-- The step reads the value back from any node lighter than the weight. -/
def Reads (weight : Nat) (v : Value) (b : Writer.Node) (x : Attempt ReadState Value) : Prop :=
  ∀ ⦃s n outer⦄, E.At s n outer → n.weight < weight → Offers (v.isOpen E.schema) b n →
    x.Ends s (E.Got v b n outer)

def Fills (weight : Nat) (prior v : Value) (b : Writer.Node) (x : Attempt (Slot Value) Unit) : Prop :=
  ∀ ⦃s n outer⦄, E.At s n outer → n.weight < weight → Offers (v.isOpen E.schema) b n →
    x.Ends ⟨s, prior⟩ fun _ slot => E.Got v b n outer slot.value slot.state

variable {E} {weight : Nat} {prior v : Value} {b : Writer.Node} {s : ReadState} {n m : Reader.Node}
  {outer : List Reader.Node} {fields : Fields} {items : List Json} {d : Json} {name : String}

theorem Reads.assign {x : Attempt ReadState Value} (h : E.Reads weight v b x) :
    E.Fills weight prior v b (Slot.assign x) :=
  fun _ _ _ hs hw ho => Slot.assign_ends (h hs hw ho)

theorem Fills.fresh {x : Attempt (Slot Value) Unit} (h : E.Fills weight prior v b x) :
    E.Reads weight v b (Slot.fresh prior x) :=
  fun _ _ _ hs hw ho => Slot.fresh_ends (h hs hw ho)

theorem At.onReader {α : Type} {x : Attempt Reader α} {a : α} {inner : List Reader.Node}
    (hs : E.At s n outer) (hx : x ⟨n :: outer⟩ = (.ok a, ⟨m :: inner⟩)) :
    (onReader x).Ends s fun a' t => a' = a ∧ E.At t m inner :=
  ⟨a, { s with reader := ⟨m :: inner⟩ }, onReader_of_eq (hs.1 ▸ hx), rfl, rfl, hs.2⟩

theorem At.finish (hs : E.At s n (m :: outer)) :
    (ReadState.onReader Reader.finishNode).Ends s fun _ t => E.At t m outer :=
  (hs.onReader Reader.finishNode_cons).mono fun _ _ h => h.2

theorem At.startField (hs : E.At s n outer) (hn : n.fields? = some fields) (hd : fields.names.Nodup)
    (hm : (name, d) ∈ fields) :
    (ReadState.onReader (Reader.startField name)).Ends s fun _ t =>
      E.At t (.value d) (.object (fields.without [(name, d)]) :: outer) :=
  (hs.onReader (Reader.startField_of_take? hn (Fields.take?_of_mem hd hm d))).mono fun _ _ h => h.2

theorem At.startElement {length : Nat} (hs : E.At s n outer) (hn : n.items? = some (d :: items, length)) :
    (ReadState.onReader Reader.startElement).Ends s fun _ t =>
      E.At t (.value d) (.array items length :: outer) :=
  (hs.onReader (Reader.startElement_of_items? hn)).mono fun _ _ h => h.2

theorem At.readSize {length : Nat} (hs : E.At s n outer) (hn : n.items? = some (items, length)) :
    (ReadState.onReader Reader.readSize).Ends s fun a t => a = length ∧ E.At t (.array items length) outer :=
  hs.onReader (Reader.readSize_of_items? hn)

theorem At.inField {α : Type} {x : Attempt ReadState α} {post : α → Prop} (hs : E.At s n outer)
    (hn : n.fields? = some fields) (hd : fields.names.Nodup) (hm : (name, d) ∈ fields)
    (hx : ∀ ⦃t inner⦄, E.At t (.value d) inner → x.Ends t fun a u => post a ∧ ∃ m, E.At u m inner) :
    (inField name x).Ends s fun a t => post a ∧ E.At t (.object (fields.without [(name, d)])) outer := by
  refine (hs.startField hn hd hm).bind fun _ t ht => ?_
  refine (hx ht).bind fun a u hu => ?_
  obtain ⟨hp, m, hu⟩ := hu
  exact hu.finish.bind fun _ _ h => .pure ⟨hp, h⟩

theorem At.inElement {α : Type} {x : Attempt ReadState α} {post : α → Prop} {length : Nat}
    (hs : E.At s n outer) (hn : n.items? = some (d :: items, length))
    (hx : ∀ ⦃t inner⦄, E.At t (.value d) inner → x.Ends t fun a u => post a ∧ ∃ m, E.At u m inner) :
    (inElement x).Ends s fun a t => post a ∧ E.At t (.array items length) outer := by
  refine (hs.startElement hn).bind fun _ t ht => ?_
  refine (hx ht).bind fun a u hu => ?_
  obtain ⟨hp, m, hu⟩ := hu
  exact hu.finish.bind fun _ _ h => .pure ⟨hp, h⟩

section Closed

variable (E)

/-- The step reads the value back from a document lighter than the weight. -/
def Recovers (weight : Nat) (v : Value) (d : Json) (x : Attempt ReadState Value) : Prop :=
  d.weight < weight → ∀ ⦃s outer⦄, E.At s (.value d) outer →
    x.Ends s fun w t => v.Same w ∧ ∃ m, E.At t m outer

def Refills (weight : Nat) (prior v : Value) (d : Json) (x : Attempt (Slot Value) Unit) : Prop :=
  d.weight < weight → ∀ ⦃s outer⦄, E.At s (.value d) outer →
    x.Ends ⟨s, prior⟩ fun _ slot => v.Same slot.value ∧ ∃ m, E.At slot.state m outer

variable {E}

theorem Got.same {w : Value} {t : ReadState} (h : E.Got v b n outer w t) :
    v.Same w ∧ ∃ m, E.At t m outer := by
  obtain ⟨hv, m, hm, -⟩ := h
  exact ⟨hv, m, hm⟩

theorem Reads.recovers {x : Attempt ReadState Value} (h : E.Reads weight v b x) (hb : b.Tidy) :
    E.Recovers weight v b.close x :=
  fun hw _ _ hs => (h hs hw (.close hb _)).mono fun _ _ hg => hg.same

theorem Fills.refills {x : Attempt (Slot Value) Unit} (h : E.Fills weight prior v b x) (hb : b.Tidy) :
    E.Refills weight prior v b.close x :=
  fun hw _ _ hs => (h hs hw (.close hb _)).mono fun _ _ hg => hg.same

end Closed

theorem weight_field (hn : n.fields? = some fields) (hm : (name, d) ∈ fields)
    (hw : n.weight < weight + 1) : d.weight < weight := by
  have := Fields.weight_mem hm
  have := Reader.Node.weight_of_fields? hn
  omega

theorem weight_fields (hn : n.fields? = some fields) (taken : Fields) (hw : n.weight < weight) :
    (Reader.Node.object (fields.without taken)).weight < weight := by
  have := Fields.weight_without fields taken
  have := Reader.Node.weight_of_fields? hn
  simp only [Reader.Node.weight_object]
  omega

theorem weight_items {length : Nat} (hn : n.items? = some (d :: items, length))
    (hw : n.weight < weight + 1) :
    d.weight < weight ∧ (Reader.Node.array items length).weight < weight + 1 := by
  have := Reader.Node.weight_of_items? hn
  simp only [Json.weightItems, Reader.Node.weight_array] at this ⊢
  omega

end Exchange

end Archivist
