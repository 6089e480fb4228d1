import Archivist.Proofs.Number.Integers
import Archivist.Proofs.RoundTrip.Reading

/-!
Leaves, options, sequences and arrays are read back.
-/

set_option autoImplicit false

namespace Archivist

namespace AtomTy

theorem Has.read {type : AtomTy} {a : Atom} {d : Json} (h : type.Has a)
    (hd : Writer.leafJson a.leaf = .ok d) :
    ∃ leaf, Reader.leaf? d = some leaf ∧ type.read leaf = .ok a := by
  cases a with
  | bool b =>
    cases type <;> cases h
    cases hd
    exact ⟨_, rfl, rfl⟩
  | char c =>
    cases type <;> cases h
    cases hd
    exact ⟨_, rfl, by simp [AtomTy.read]⟩
  | text s =>
    cases type <;> cases h
    cases hd
    exact ⟨_, rfl, rfl⟩
  | int kind n =>
    cases type with
    | int kind' =>
      obtain ⟨rfl, hr⟩ := h
      rw [Writer.leafJson_of_toInt? hr.toInt?_leaf] at hd
      cases hd
      exact ⟨.ofInt n, rfl, by rw [read_of_toInt? (Leaf.toInt?_ofInt n), if_pos hr]⟩
    | _ => cases h
  | float width x =>
    cases type with
    | float width' =>
      obtain ⟨rfl, hx⟩ := h
      simp only [Atom.leaf, Writer.leafJson] at hd
      split at hd
      · cases hd
        exact ⟨_, rfl, by simp [AtomTy.read, hx.ofBinary_eq width.minExponent_le]⟩
      · cases hd
    | _ => cases h

end AtomTy

theorem Reader.isNull_of_ne {n : Node} {outer : List Node} (h : n ≠ .value .null) :
    isNull ⟨n :: outer⟩ = (.ok false, ⟨n :: outer⟩) := by
  cases n with
  | value d =>
    cases d with
    | null => exact absurd rfl h
    | _ => rfl
  | _ => rfl

theorem Offers.ne_null {all : Bool} {b : Writer.Node} {n : Reader.Node} (h : Offers all b n)
    (hb : b ≠ .leaf .null) : n ≠ .value .null := by
  rintro rfl
  cases h with
  | leaf => exact hb rfl
  | array h => cases h
  | fields _ hn => cases hn

namespace Exchange

open Attempt ReadState Loading

variable {E : Exchange} {weight : Nat} {prior v : Value} {b : Writer.Node} {s : ReadState}
  {n : Reader.Node} {outer : List Reader.Node} {items : List Json} {d : Json}

theorem At.readAtom {type : AtomTy} {a : Atom} (h : type.Has a) (hd : Writer.leafJson a.leaf = .ok d)
    (hs : E.At s (.value d) outer) :
    (Loading.readAtom type).Ends s fun a' t => a' = a ∧ ∃ m, E.At t m outer := by
  obtain ⟨leaf, hl, hr⟩ := h.read hd
  refine (hs.onReader (Reader.readValue_of_leaf? hl)).bind fun _ t ht => ?_
  obtain ⟨rfl, ht⟩ := ht
  simp only [hr]
  exact .pure ⟨rfl, _, ht⟩

theorem Reads.atom {type : AtomTy} {a : Atom} (h : type.Has a) (hd : Writer.leafJson a.leaf = .ok d) :
    E.Reads weight (.atom a) (.leaf d) do return .atom (← Loading.readAtom type) := by
  intro s n outer hs hw ho
  cases ho.leaf_inv
  refine (hs.readAtom h hd).bind fun a' t ht => ?_
  obtain ⟨rfl, m, hm⟩ := ht
  exact .pure ⟨.refl _, m, hm, .leaf _ _ _⟩

theorem Reads.absent (x : Attempt ReadState Value) :
    E.Reads weight .absent (.leaf .null) (readOption x) := by
  intro s n outer hs hw ho
  cases ho.leaf_inv
  have hn : Reader.isNull ⟨.value .null :: outer⟩ = (.ok true, ⟨.value .null :: outer⟩) := rfl
  refine (hs.onReader hn).bind fun _ t ht => ?_
  obtain ⟨rfl, ht⟩ := ht
  refine (ht.onReader (Reader.readValue_of_leaf? rfl)).bind fun _ u hu => ?_
  exact .pure ⟨.refl _, _, hu.2, .leaf _ _ _⟩

theorem Reads.present {x : Attempt ReadState Value} (h : E.Reads weight v b x) (hb : b ≠ .leaf .null) :
    E.Reads weight (.present v) b (readOption x) := by
  intro s n outer hs hw ho
  refine (hs.onReader (Reader.isNull_of_ne (ho.ne_null hb))).bind fun _ t ht => ?_
  obtain ⟨rfl, ht⟩ := ht
  rw [Value.isOpen] at ho
  refine (h ht hw ho).bind fun w u hu => ?_
  exact .pure ⟨.present hu.1, hu.2⟩

theorem appendItems_ends {x : Attempt ReadState Value} {vs : List Value} {length : Nat}
    (h : List.Forall₂ (fun v d => E.Recovers weight v d x) vs items) (hs : E.At s n outer)
    (hn : n.items? = some (items, length)) (hw : n.weight < weight + 1) (acc : List Value) :
    (appendItems x items.length).Ends ⟨s, acc⟩ fun _ slot =>
      ∃ ws, slot.value = acc ++ ws ∧ List.Forall₂ Value.Same vs ws ∧ ∃ m, E.At slot.state m outer := by
  induction h generalizing s n acc with
  | nil => exact .pure ⟨[], by simp, .nil, n, hs⟩
  | @cons v d vs items hv _ ih =>
    obtain ⟨hd, hrest⟩ := weight_items hn hw
    refine (Slot.lift_ends (hs.inElement hn (hv hd))).bind fun w slot hslot => ?_
    obtain ⟨t, acc'⟩ := slot
    obtain ⟨rfl, hsame, ht⟩ := hslot
    have hu : Ends (Slot.update (· ++ [w])) ⟨t, acc'⟩ fun _ slot => slot = ⟨t, acc' ++ [w]⟩ :=
      ⟨(), _, rfl, rfl⟩
    refine hu.bind fun _ _ hslot => ?_
    subst hslot
    refine (ih ht rfl hrest (acc' ++ [w])).mono fun _ slot hslot => ?_
    obtain ⟨ws, he, hws, hm⟩ := hslot
    exact ⟨w :: ws, by simpa using he, .cons hsame hws, hm⟩

theorem Fills.list {x : Attempt ReadState Value} {vs : List Value}
    (h : List.Forall₂ (fun v d => E.Recovers weight v d x) vs items) :
    E.Fills (weight + 1) prior (.list vs) (.array items) (fillList x) := by
  intro s n outer hs hw ho
  have hn := ho.array_inv
  refine Slot.within_ends rfl ((Slot.lift_ends (hs.readSize hn)).bind fun _ slot hslot => ?_)
  obtain ⟨t, acc⟩ := slot
  obtain ⟨rfl, rfl, ht⟩ := hslot
  rw [Reader.Node.weight_of_items? hn] at hw
  refine (appendItems_ends h ht rfl hw []).mono fun _ slot hslot => ?_
  obtain ⟨ws, he, hws, m, hm⟩ := hslot
  rw [he, List.nil_append]
  exact ⟨.list hws, m, hm, .array _ _ _⟩

theorem At.checkSize (hs : E.At s n outer) (hn : n.items? = some (items, items.length)) :
    (Loading.checkSize items.length).Ends s fun _ t => E.At t (.array items items.length) outer := by
  refine (hs.readSize hn).bind fun _ t ht => ?_
  obtain ⟨rfl, ht⟩ := ht
  simp only [↓reduceIte]
  exact .pure ht

theorem Reads.array {x : Attempt ReadState Value} {vs : List Value}
    (h : List.Forall₂ (fun v d => E.Recovers weight v d x) vs items) :
    E.Reads (weight + 1) (.list vs) (.array items) (readArray items.length x) := by
  intro s n outer hs hw ho
  have hn := ho.array_inv
  refine (hs.checkSize hn).bind fun _ t ht => ?_
  rw [Reader.Node.weight_of_items? hn] at hw
  refine (Fills.list h).fresh ht hw (.array rfl) |>.mono fun _ _ hg => ?_
  obtain ⟨hsame, m, hm⟩ := hg.same
  exact ⟨hsame, m, hm, .array _ _ _⟩

theorem fillItems_ends {x : Attempt (Slot Value) Unit} {pairs : List (Value × Value)} {length : Nat}
    (h : List.Forall₂ (fun p d => E.Refills weight p.1 p.2 d x) pairs items) (hs : E.At s n outer)
    (hn : n.items? = some (items, length)) (hw : n.weight < weight + 1) :
    (Slot.inOrder (List.replicate items.length do
      Slot.lift (ReadState.onReader Reader.startElement)
      x
      Slot.lift (ReadState.onReader Reader.finishNode))).Ends ⟨s, pairs.map Prod.fst⟩ fun _ slot =>
        List.Forall₂ Value.Same (pairs.map Prod.snd) slot.value ∧ ∃ m, E.At slot.state m outer := by
  induction h generalizing s n with
  | nil =>
    exact Slot.inOrder_nil_ends (fun ws t => List.Forall₂ Value.Same [] ws ∧ ∃ m, E.At t m outer)
      ⟨.nil, n, hs⟩
  | @cons p d pairs items hp _ ih =>
    obtain ⟨hd, hrest⟩ := weight_items hn hw
    refine Slot.inOrder_cons_ends (fun w t => p.2.Same w ∧ E.At t (.array items length) outer)
      (fun ws t => List.Forall₂ Value.Same (p.2 :: pairs.map Prod.snd) ws ∧ ∃ m, E.At t m outer) ?_ ?_
    · refine (Slot.lift_ends (hs.startElement hn)).bind fun _ slot hslot => ?_
      obtain ⟨t, prior⟩ := slot
      obtain ⟨rfl, ht⟩ := hslot
      refine (hp hd ht).bind fun _ slot hslot => ?_
      obtain ⟨hsame, m, hm⟩ := hslot
      refine (Slot.lift_ends hm.finish).mono fun _ slot' hslot => ?_
      exact ⟨hslot.1 ▸ hsame, hslot.2⟩
    · rintro w t ⟨hsame, ht⟩
      exact (ih ht rfl hrest).mono fun _ slot hslot => ⟨.cons hsame hslot.1, hslot.2⟩

theorem Fills.array {x : Attempt (Slot Value) Unit} {pairs : List (Value × Value)}
    (h : List.Forall₂ (fun p d => E.Refills weight p.1 p.2 d x) pairs items) :
    E.Fills (weight + 1) (.list (pairs.map Prod.fst)) (.list (pairs.map Prod.snd)) (.array items)
      (fillArray items.length x) := by
  intro s n outer hs hw ho
  have hn := ho.array_inv
  refine Slot.within_ends rfl ((Slot.lift_ends (hs.checkSize hn)).bind fun _ slot hslot => ?_)
  obtain ⟨t, priors⟩ := slot
  obtain ⟨rfl, ht⟩ := hslot
  rw [Reader.Node.weight_of_items? hn] at hw
  refine (fillItems_ends h ht rfl hw).mono fun _ slot hslot => ?_
  obtain ⟨hws, m, hm⟩ := hslot
  exact ⟨.list hws, m, hm, .array _ _ _⟩

end Exchange

end Archivist
