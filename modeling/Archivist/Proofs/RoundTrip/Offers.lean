import Archivist.Proofs.Archive.Reader
import Archivist.Proofs.Loading.Locality
import Archivist.Proofs.RoundTrip.Fits
import Archivist.Proofs.Saving.Effect

/-!
What a node of a document has to offer for a value to be read from it, and what is left of the node
afterwards. A value that is flattened into a node finds its fields among others.
-/

set_option autoImplicit false

namespace Archivist

namespace Fields

def without (left taken : Fields) : Fields := left.filter fun (name, _) => !taken.has name

variable {left taken fields : Fields} {name : String} {d : Json}

theorem mem_without {entry : String × Json} :
    entry ∈ left.without taken ↔ entry ∈ left ∧ entry.1 ∉ taken.names := by
  simp [without, ← has_iff]

@[simp] theorem without_nil : left.without [] = left := by
  simp [without, has]

theorem without_append : (left.without taken).without fields = left.without (taken ++ fields) := by
  simp [without, has, List.filter_filter, Bool.and_comm]

theorem nodup_without (h : left.names.Nodup) : (left.without taken).names.Nodup :=
  h.sublist (List.filter_sublist.map Prod.fst)

theorem subset_without (h : fields ⊆ left) (ha : taken.apart fields = true) :
    fields ⊆ left.without taken := by
  intro entry he
  exact mem_without.2 ⟨h he, apart_iff.1 ha _ (List.mem_map_of_mem he)⟩

theorem append_without (ha : taken.apart fields = true) : Fields.without (taken ++ fields) taken = fields := by
  unfold without
  rw [List.filter_append, List.filter_eq_nil_iff.2, List.filter_eq_self.2, List.nil_append]
  · intro entry he
    have := apart_iff.1 ha _ (List.mem_map_of_mem he)
    simpa [← has_iff] using this
  · intro entry he
    have : taken.has entry.1 = true := has_iff.2 (List.mem_map_of_mem he)
    simp [this]

@[simp] theorem without_self : left.without left = [] := by
  refine List.filter_eq_nil_iff.2 fun entry he => ?_
  have : left.has entry.1 = true := has_iff.2 (List.mem_map_of_mem he)
  simp [this]

theorem take?_of_mem (hd : left.names.Nodup) (h : (name, d) ∈ left) (d' : Json) :
    left.take? name = some (d, left.without [(name, d')]) := by
  induction left with
  | nil => cases h
  | cons entry left ih =>
    obtain ⟨key, value⟩ := entry
    simp only [names, List.map_cons, List.nodup_cons] at hd
    rcases List.mem_cons.1 h with he | h
    · cases he
      have hrest : Fields.without left [(name, d')] = left := by
        refine List.filter_eq_self.2 fun entry he => ?_
        have : entry.1 ≠ name := fun e => hd.1 (e ▸ List.mem_map_of_mem he)
        simpa [has] using Ne.symm this
      have : without ((name, d) :: left) [(name, d')] = left := by
        rw [without, List.filter_cons_of_neg (by simp [has])]
        exact hrest
      simp [take?, this]
    · have hne : key ≠ name := fun e => hd.1 (e ▸ List.mem_map.2 ⟨_, h, rfl⟩)
      have hw : without ((key, value) :: left) [(name, d')] = (key, value) :: without left [(name, d')] := by
        rw [without, List.filter_cons_of_pos (by simpa [has] using hne.symm)]
        rfl
      simp [take?, hne, ih hd.2 h, hw]

theorem weight_mem (h : (name, d) ∈ left) : d.weight < Json.weightFields left := by
  induction left with
  | nil => cases h
  | cons entry left ih =>
    rcases List.mem_cons.1 h with rfl | h
    · simp only [Json.weightFields]
      omega
    · have := ih h
      simp only [Json.weightFields]
      omega

theorem weight_without (left taken : Fields) : Json.weightFields (left.without taken) ≤ Json.weightFields left := by
  induction left with
  | nil => exact Nat.le_refl _
  | cons entry left ih =>
    simp only [without, List.filter_cons, Json.weightFields] at ih ⊢
    split
    · simp only [Json.weightFields]
      omega
    · omega

end Fields

namespace Writer.Node

variable {a b c : Node} {fields : Fields}

theorem fields?_merge (h : a.merge b = some c) (hc : c.fields? = some fields) :
    ∃ first second, a.fields? = some first ∧ b.fields? = some second ∧ fields = first ++ second ∧
      first.apart second = true := by
  obtain ⟨rfl, rfl⟩ | ⟨rfl, rfl⟩ | ⟨fs, gs, rfl, rfl, rfl, hd⟩ := merge_cases h
  · exact ⟨[], fields, rfl, hc, rfl, by simp [Fields.apart, Fields.has]⟩
  · exact ⟨fields, [], hc, rfl, by simp, by simp [Fields.apart]⟩
  · cases hc
    exact ⟨fs, gs, rfl, rfl, rfl, hd⟩

theorem fields?_of_merge {first second : Fields} (ha : a.fields? = some first)
    (hb : b.fields? = some second) (h : a.merge b = some c) : c.fields? = some (first ++ second) := by
  obtain ⟨rfl, rfl⟩ | ⟨rfl, rfl⟩ | ⟨fs, gs, rfl, rfl, rfl, hd⟩ := merge_cases h
  · cases ha
    exact hb
  · cases hb
    simpa using ha
  · cases ha
    cases hb
    rfl

end Writer.Node

namespace Reader.Node

theorem weight_of_fields? {n : Node} {left : Fields} (h : n.fields? = some left) :
    n.weight = Json.weightFields left + 1 := by
  unfold fields? at h
  split at h <;> cases h <;> rfl

theorem weight_of_items? {n : Node} {items : List Json} {length : Nat} (h : n.items? = some (items, length)) :
    n.weight = Json.weightItems items + 1 := by
  unfold items? at h
  split at h <;> cases h <;> rfl

end Reader.Node

/-- The node holds what a value has written. Fields may lie among others, unless all that is left of the
node is to be taken. -/
inductive Offers (all : Bool) : Writer.Node → Reader.Node → Prop where
  | leaf (d : Json) : Offers all (.leaf d) (.value d)
  | array {items : List Json} {n : Reader.Node} (h : n.items? = some (items, items.length)) :
    Offers all (.array items) n
  | fields {b : Writer.Node} {n : Reader.Node} {fields left : Fields} (hb : b.fields? = some fields)
    (hn : n.fields? = some left) (hd : left.names.Nodup) (hs : fields ⊆ left)
    (ha : all = true → left = fields) : Offers all b n

theorem Offers.close {b : Writer.Node} (hb : b.Tidy) (all : Bool) : Offers all b (.value b.close) := by
  cases b with
  | pending => exact .fields rfl rfl (hb [] rfl) (List.Subset.refl _) fun _ => rfl
  | object fields => exact .fields rfl rfl (hb fields rfl) (List.Subset.refl _) fun _ => rfl
  | array items => exact .array rfl
  | leaf d => exact .leaf d

/-- The fields that a value has written are taken out of the node. -/
def Leaves (b : Writer.Node) (n n' : Reader.Node) : Prop :=
  ∀ ⦃fields left⦄, b.fields? = some fields → n.fields? = some left →
    n'.fields? = some (left.without fields)

theorem Leaves.leaf (d : Json) (n n' : Reader.Node) : Leaves (.leaf d) n n' := fun _ _ h => nomatch h

theorem Leaves.array (items : List Json) (n n' : Reader.Node) : Leaves (.array items) n n' :=
  fun _ _ h => nomatch h

theorem Leaves.pending (n : Reader.Node) : Leaves .pending n n := by
  intro fields left hb hn
  cases hb
  simpa using hn

namespace Offers

variable {all part : Bool} {b c r : Writer.Node} {n n' : Reader.Node} {fields : Fields}

theorem leaf_inv {d : Json} (h : Offers all (.leaf d) n) : n = .value d := by
  cases h with
  | leaf => rfl
  | fields hb => cases hb

theorem array_inv {items : List Json} (h : Offers all (.array items) n) :
    n.items? = some (items, items.length) := by
  cases h with
  | array h => exact h
  | fields hb => cases hb

theorem fields_inv (h : Offers all b n) (hb : b.fields? = some fields) :
    ∃ left, n.fields? = some left ∧ left.names.Nodup ∧ fields ⊆ left ∧ (all = true → left = fields) := by
  cases h with
  | leaf => cases hb
  | array => cases hb
  | fields hb' hn hd hs ha =>
    cases hb.symm.trans hb'
    exact ⟨_, hn, hd, hs, ha⟩

theorem field_inv {name : String} (h : Offers all (.field name c) n) :
    ∃ left, n.fields? = some left ∧ left.names.Nodup ∧ (name, c.close) ∈ left := by
  obtain ⟨left, hn, hd, hs, -⟩ := h.fields_inv rfl
  exact ⟨left, hn, hd, hs List.mem_cons_self⟩

/-- What was written first is offered as well. If it takes all that is left, then nothing was written
after it. -/
theorem first (h : Offers all b n) (hm : c.merge r = some b) (hb : b.fields? = some fields)
    (ho : part = true → all = true ∧ r = .pending) : Offers part c n := by
  obtain ⟨left, hn, hd, hs, ha⟩ := h.fields_inv hb
  obtain ⟨fs, gs, hc, hr, rfl, -⟩ := Writer.Node.fields?_merge hm hb
  refine .fields hc hn hd (fun e he => hs (List.mem_append_left _ he)) fun hf => ?_
  obtain ⟨hall, rfl⟩ := ho hf
  cases hr
  simpa using ha hall

theorem second (h : Offers all b n) (hm : c.merge r = some b) (hb : b.fields? = some fields)
    (hl : Leaves c n n') (ho : part = true → all = true) : Offers part r n' := by
  obtain ⟨left, hn, hd, hs, ha⟩ := h.fields_inv hb
  obtain ⟨fs, gs, hc, hr, rfl, hapart⟩ := Writer.Node.fields?_merge hm hb
  refine .fields hr (hl hc hn) (Fields.nodup_without hd)
    (Fields.subset_without (fun e he => hs (List.mem_append_right _ he)) hapart) fun hf => ?_
  rw [ha (ho hf), Fields.append_without hapart]

end Offers

theorem Leaves.merge {b c r : Writer.Node} {n n' n'' : Reader.Node} (hm : c.merge r = some b)
    (hc : Leaves c n n') (hr : Leaves r n' n'') : Leaves b n n'' := by
  intro fields left hb hn
  obtain ⟨fs, gs, hf, hg, rfl, -⟩ := Writer.Node.fields?_merge hm hb
  rw [← Fields.without_append]
  exact hr hg (hc hf hn)

end Archivist
