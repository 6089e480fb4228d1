import Archivist.Schema.Basic

/-!
The entries of a map, whatever its keys are. Main statement: insertion keeps them in the order of the map, each key
once, and of several values of a key the last one stays.
-/

set_option autoImplicit false

namespace Archivist

section Keys

variable {κ ν : Type} {same : κ → κ → Prop} {before : κ → κ → Bool}

/-- Keys that are the same cannot be told apart by the order either. -/
structure Orders (same : κ → κ → Prop) (before : κ → κ → Bool) : Prop where
  equiv : Equivalence same
  irrefl (a : κ) : before a a = false
  trans {a b c : κ} : before a b = true → before b c = true → before a c = true
  left {a b : κ} (h : same a b) (c : κ) : before a c = before b c
  right {a b : κ} (h : same a b) (c : κ) : before c a = before c b

/-- No key comes before an earlier one or is the same. -/
def Ordered (same : κ → κ → Prop) (before : κ → κ → Bool) (entries : List (κ × ν)) : Prop :=
  entries.Pairwise fun e f => before f.1 e.1 = false ∧ ¬ same e.1 f.1

variable [DecidableRel same]

theorem fst_of_mem_insertBy {key : κ} {value : ν} {entries : List (κ × ν)} {e : κ × ν}
    (h : e ∈ insertBy same before key value entries) : e.1 = key ∨ ∃ f ∈ entries, e.1 = f.1 := by
  induction entries with
  | nil => exact .inl (congrArg Prod.fst (List.mem_singleton.1 h))
  | cons entry entries ih =>
    simp only [insertBy] at h
    split at h
    · rcases List.mem_cons.1 h with rfl | h
      · exact .inr ⟨entry, List.mem_cons_self, rfl⟩
      · exact .inr ⟨e, List.mem_cons_of_mem _ h, rfl⟩
    · split at h
      · rcases List.mem_cons.1 h with rfl | h
        · exact .inl rfl
        · exact .inr ⟨e, h, rfl⟩
      · rcases List.mem_cons.1 h with rfl | h
        · exact .inr ⟨entry, List.mem_cons_self, rfl⟩
        · exact (ih h).imp_right fun ⟨f, hf, he⟩ => ⟨f, List.mem_cons_of_mem _ hf, he⟩

theorem Ordered.insertBy (ho : Orders same before) {entries : List (κ × ν)} (h : Ordered same before entries)
    (key : κ) (value : ν) : Ordered same before (insertBy same before key value entries) := by
  induction entries with
  | nil => exact List.pairwise_singleton _ _
  | cons entry entries ih =>
    obtain ⟨k, v⟩ := entry
    obtain ⟨hk, hrest⟩ := List.pairwise_cons.1 h
    simp only [Archivist.insertBy]
    split
    · exact List.pairwise_cons.2 ⟨hk, hrest⟩
    · rename_i hne
      split
      · -- what comes after `k` cannot come before a key that itself comes before `k`
        rename_i hb
        refine List.pairwise_cons.2 ⟨fun e he => ?_, h⟩
        rcases List.mem_cons.1 he with rfl | he
        · refine ⟨Bool.eq_false_iff.2 fun h' => ?_, hne⟩
          exact Bool.false_ne_true ((ho.irrefl _).symm.trans (ho.trans hb h'))
        · have hlate := (hk e he).1
          refine ⟨Bool.eq_false_iff.2 fun h' => ?_, fun hsame => ?_⟩
          · exact Bool.false_ne_true (hlate.symm.trans (ho.trans h' hb))
          · exact Bool.false_ne_true (hlate.symm.trans ((ho.left hsame k).symm.trans hb))
      · rename_i hb
        refine List.pairwise_cons.2 ⟨fun e he => ?_, ih hrest⟩
        obtain hkey | ⟨f, hf, hkey⟩ := fst_of_mem_insertBy he
        · rw [hkey]
          exact ⟨Bool.eq_false_iff.2 hb, fun hsame => hne (ho.equiv.symm hsame)⟩
        · rw [hkey]
          exact hk f hf

end Keys

theorem Orders.ofEq {κ : Type} {before : κ → κ → Bool} (irrefl : ∀ a, before a a = false)
    (trans : ∀ {a b c}, before a b = true → before b c = true → before a c = true) : Orders Eq before where
  equiv := ⟨fun _ => rfl, Eq.symm, Eq.trans⟩
  irrefl := irrefl
  trans := trans
  left := by
    rintro a _ rfl c
    rfl
  right := by
    rintro a _ rfl c
    rfl

theorem Schema.orders_before (S : Schema) (kind : MapKind) (key : KeyTy) : Orders Eq (S.before kind key) := by
  cases kind with
  | sorted => exact .ofEq Atom.lt_irrefl Atom.lt_trans
  | hashed => exact .ofEq (S.hashOrder key).irrefl (S.hashOrder key).trans

namespace Entries

theorem insert_perm (before : Atom → Atom → Bool) (key : Atom) (value : Value) {acc : Entries}
    (h : key ∉ acc.map Prod.fst) : (insert before key value acc).Perm ((key, value) :: acc) := by
  induction acc with
  | nil => exact .refl _
  | cons entry acc ih =>
    obtain ⟨hne, hrest⟩ := not_or.1 (mt List.mem_cons.2 h)
    simp only [insert, insertBy, hne, ↓reduceIte]
    split
    · exact .refl _
    · exact ((ih hrest).cons _).trans (.swap _ _ _)

theorem mem_of_mem_insert {before : Atom → Atom → Bool} {key : Atom} {value : Value} {entries : Entries}
    {e : Atom × Value} (h : e ∈ insert before key value entries) : e = (key, value) ∨ e ∈ entries := by
  induction entries with
  | nil => exact .inl (List.mem_singleton.1 h)
  | cons entry entries ih =>
    simp only [insert, insertBy] at h
    split at h
    · rename_i hkey
      rcases List.mem_cons.1 h with h | h
      · exact .inl (hkey ▸ h)
      · exact .inr (List.mem_cons_of_mem _ h)
    · split at h
      · exact List.mem_cons.1 h
      · rcases List.mem_cons.1 h with h | h
        · exact .inr (h ▸ List.mem_cons_self)
        · exact (ih h).imp_right (List.mem_cons_of_mem _)

abbrev Ordered (before : Atom → Atom → Bool) (entries : Entries) : Prop := Archivist.Ordered Eq before entries

theorem Ordered.nodup {before : Atom → Atom → Bool} {entries : Entries} (h : Ordered before entries) :
    (entries.map Prod.fst).Nodup := List.pairwise_map.2 (h.imp And.right)

end Entries

end Archivist
