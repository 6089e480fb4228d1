import Mathlib.Data.List.Perm.Basic
import Archivist.Proofs.RoundTrip.Fits
import Archivist.Proofs.Saving.Effect
import Archivist.Schema.Declare

/-!
Values that differ in the order of the entries of maps. Main statement: the document of one is that of the other up
to the order of fields and of such entries, provided that what the bases show of them differs in no other way.
-/

set_option autoImplicit false

namespace Archivist

section Lists

variable {α β γ δ : Type}

/-- The lists match element by element once the first is put in another order. -/
def Matched (R : α → β → Prop) (xs : List α) (ys : List β) : Prop := ∃ zs, xs.Perm zs ∧ List.Forall₂ R zs ys

namespace Matched

variable {R : α → β → Prop} {xs : List α} {ys : List β}

theorem of_forall₂ (h : List.Forall₂ R xs ys) : Matched R xs ys := ⟨xs, .refl _, h⟩

theorem imp {R' : α → β → Prop} (h : Matched R xs ys) (hR : ∀ a b, R a b → R' a b) : Matched R' xs ys := by
  obtain ⟨zs, hp, hz⟩ := h
  exact ⟨zs, hp, hz.imp hR⟩

theorem map {R : γ → δ → Prop} (f : α → γ) (g : β → δ) (h : Matched (fun a b => R (f a) (g b)) xs ys) :
    Matched R (xs.map f) (ys.map g) := by
  obtain ⟨zs, hp, hz⟩ := h
  exact ⟨zs.map f, hp.map f, List.forall₂_map_left_iff.2 (List.forall₂_map_right_iff.2 hz)⟩

theorem append {xs' : List α} {ys' : List β} (h : Matched R xs ys) (h' : Matched R xs' ys') :
    Matched R (xs ++ xs') (ys ++ ys') := by
  obtain ⟨zs, hp, hz⟩ := h
  obtain ⟨zs', hp', hz'⟩ := h'
  exact ⟨zs ++ zs', hp.append hp', List.rel_append hz hz'⟩

theorem perm_map {f : α → γ} {g : β → γ} (h : Matched R xs ys) (hR : ∀ a b, R a b → f a = g b) :
    (xs.map f).Perm (ys.map g) := by
  obtain ⟨zs, hp, hz⟩ := h
  have heq : List.Forall₂ Eq (zs.map f) (ys.map g) :=
    List.forall₂_map_left_iff.2 (List.forall₂_map_right_iff.2 (hz.imp hR))
  rw [List.forall₂_eq_eq_eq] at heq
  exact heq ▸ hp.map f

end Matched

end Lists

/-- An entry of a map whose key stands beside its value. -/
def Json.IsEntry (d : Json) : Prop := ∃ k v, d = .object [(keyField, k), (valueField, v)]

/-- The same document up to the order of the fields of objects, and of the entries of maps, at any depth. -/
inductive Json.Alike : Json → Json → Prop where
  | refl (d : Json) : Alike d d
  | array {items others : List Json} (h : List.Forall₂ Alike items others) : Alike (.array items) (.array others)
  | entries {items arranged others : List Json} (entries : ∀ d ∈ items, d.IsEntry) (order : items.Perm arranged)
    (h : List.Forall₂ Alike arranged others) : Alike (.array items) (.array others)
  | object {fields arranged others : Fields} (order : fields.Perm arranged) (names : arranged.names = others.names)
    (h : List.Forall₂ Alike (arranged.map Prod.snd) (others.map Prod.snd)) : Alike (.object fields) (.object others)

/-- The same fields in any order, with documents that are alike. -/
abbrev Fields.Alike (fields others : Fields) : Prop := Matched (fun e f => e.1 = f.1 ∧ e.2.Alike f.2) fields others

namespace Fields.Alike

variable {fields others : Fields}

theorem refl (fields : Fields) : fields.Alike fields := .of_forall₂ (List.forall₂_same.2 fun _ _ => ⟨rfl, .refl _⟩)

theorem names (h : fields.Alike others) : fields.names.Perm others.names := h.perm_map fun _ _ => And.left

theorem object (h : fields.Alike others) : (Json.object fields).Alike (.object others) := by
  obtain ⟨arranged, hp, hz⟩ := h
  have hnames : List.Forall₂ Eq (arranged.map Prod.fst) (others.map Prod.fst) :=
    List.forall₂_map_left_iff.2 (List.forall₂_map_right_iff.2 (hz.imp fun _ _ => And.left))
  rw [List.forall₂_eq_eq_eq] at hnames
  exact .object hp hnames (List.forall₂_map_left_iff.2 (List.forall₂_map_right_iff.2 (hz.imp fun _ _ => And.right)))

end Fields.Alike

namespace Writer.Node

/-- Nodes that are closed as documents that are alike, and can be written into alike. -/
inductive Alike : Node → Node → Prop where
  | pending : Alike .pending .pending
  | leaf (d : Json) : Alike (.leaf d) (.leaf d)
  | array {items others : List Json} (h : (Json.array items).Alike (.array others)) :
    Alike (.array items) (.array others)
  | object {fields others : Fields} (h : fields.Alike others) : Alike (.object fields) (.object others)

namespace Alike

theorem refl (n : Node) : n.Alike n := by
  cases n with
  | pending => exact .pending
  | leaf d => exact .leaf d
  | array items => exact .array (.refl _)
  | object fields => exact .object (.refl _)

variable {a b a' b' : Node}

theorem close (h : a.Alike b) : a.close.Alike b.close := by
  cases h with
  | pending => exact .refl _
  | leaf d => exact .refl _
  | array h => exact h
  | object h => exact h.object

theorem merge {c : Node} (ha : a.Alike a') (hb : b.Alike b') (h : a.merge b = some c) :
    ∃ c', a'.merge b' = some c' ∧ c.Alike c' := by
  obtain ⟨rfl, rfl⟩ | ⟨rfl, rfl⟩ | ⟨fields, others, rfl, rfl, rfl, happart⟩ := merge_cases h
  · cases ha
    exact ⟨b', rfl, hb⟩
  · cases hb
    exact ⟨a', merge_pending a', ha⟩
  · cases ha with
    | @object _ fields' hf =>
      cases hb with
      | @object _ others' ho =>
        refine ⟨.object (fields' ++ others'), ?_, .object (hf.append ho)⟩
        rw [merge_object, if_pos]
        refine Fields.apart_iff.2 fun name hm hm' => ?_
        exact Fields.apart_iff.1 happart name (ho.names.mem_iff.2 hm) (hf.names.mem_iff.2 hm')

end Alike

/-- If something is written in one place, something alike is written in the other. -/
def Follows (b? c? : Option Node) : Prop := ∀ b, b? = some b → ∃ c, c? = some c ∧ b.Alike c

namespace Follows

variable {b? c? b'? c'? : Option Node}

theorem refl (b? : Option Node) : Follows b? b? := fun b hb => ⟨b, hb, .refl b⟩

theorem none (c? : Option Node) : Follows none c? := nofun

theorem map {f : Node → Node} (h : Follows b? c?) (hf : ∀ {b c : Node}, b.Alike c → (f b).Alike (f c)) :
    Follows (b?.map f) (c?.map f) := by
  intro _ hb
  obtain ⟨b, rfl, rfl⟩ := Option.map_eq_some_iff.1 hb
  obtain ⟨c, rfl, hc⟩ := h b rfl
  exact ⟨f c, rfl, hf hc⟩

theorem merge (h : Follows b? c?) (h' : Follows b'? c'?) :
    Follows (b?.bind fun b => b'?.bind b.merge) (c?.bind fun c => c'?.bind c.merge) := by
  intro d hd
  simp only [Option.bind_eq_some_iff] at hd
  obtain ⟨b, rfl, b', rfl, hd⟩ := hd
  obtain ⟨c, rfl, hc⟩ := h b rfl
  obtain ⟨c', rfl, hc'⟩ := h' b' rfl
  exact hc.merge hc' hd

end Follows

section Parts

variable {κ : Type}

end Parts

end Writer.Node

namespace Value.Same

variable {u v : Value}

theorem target?_eq (h : u.Same v) : u.target? = v.target? := by
  cases h <;> rfl

theorem fieldAt? (positions : List (String × Nat)) (h : u.Same v) :
    Option.Rel Same (Base.fieldAt? positions u) (Base.fieldAt? positions v) := by
  have hrefl : ∀ part? : Option Value, Option.Rel Same part? part? := by
    intro part?
    cases part? with
    | none => exact .none
    | some part => exact .some (.refl part)
  cases h with
  | @record name vs ws h =>
    simp only [Base.fieldAt?]
    cases positions.lookup name with
    | none => exact .none
    | some i =>
      simp only [Option.bind_some]
      induction h generalizing i with
      | nil => exact .none
      | cons hvw _ ih =>
        cases i with
        | zero => exact .some hvw
        | succ i => exact ih i
  | refl => exact hrefl _
  | _ => exact .none

end Value.Same

namespace Schema

variable (S : Schema)

/-- What the bases show of values that are the same is the same. -/
def ShowsSame : Prop := ∀ base ∈ S.bases, ∀ u v : Value, u.Same v → Option.Rel Value.Same (base.shown u) (base.shown v)

variable {S}

theorem ShowsSame.shown? (h : S.ShowsSame) (declared : Target) {u v : Value} (hs : u.Same v) :
    Option.Rel Value.Same (S.shown? declared u) (S.shown? declared v) := by
  unfold Schema.shown?
  rw [← hs.target?_eq]
  split
  · cases hb : S.base? _ with
    | none => exact .none
    | some base => exact h base (List.mem_of_find?_eq_some hb) u v hs
  · exact .none

end Schema

namespace Saving

open Writer

variable {env : Saving}

end Saving

end Archivist
