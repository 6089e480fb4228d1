/-!
Tables that only grow: a key, once set, is never set anew.
-/

set_option autoImplicit false

namespace Archivist

/-- Values by key, in the order they were added. -/
structure Table (κ α : Type) where
  entries : List (κ × α) := []
  deriving Repr

namespace Table

variable {κ α : Type} [DecidableEq κ]

def empty : Table κ α := ⟨[]⟩

def get? (t : Table κ α) (key : κ) : Option α :=
  (t.entries.find? (·.1 = key)).map Prod.snd

def contains (t : Table κ α) (key : κ) : Bool := (t.get? key).isSome

def size (t : Table κ α) : Nat := t.entries.length

/-- Adds an entry unless the key has one. Says whether it was added. -/
def tryInsert (t : Table κ α) (key : κ) (value : α) : Bool × Table κ α :=
  if t.contains key then (false, t) else (true, ⟨t.entries ++ [(key, value)]⟩)

def modify (t : Table κ α) (key : κ) (f : α → α) : Table κ α :=
  ⟨t.entries.map fun (k, v) => if k = key then (k, f v) else (k, v)⟩

@[simp] theorem get?_empty (key : κ) : (empty : Table κ α).get? key = none := rfl

theorem get?_tryInsert (t : Table κ α) (key k : κ) (value : α) :
    (t.tryInsert key value).2.get? k =
      if k = key ∧ t.contains key = false then some value else t.get? k := by
  cases h : t.contains key with
  | true => simp [tryInsert, h]
  | false =>
    have hn : t.entries.find? (fun x => decide (x.1 = key)) = none := by
      simpa [contains, get?] using h
    simp only [tryInsert, h, Bool.false_eq_true, ↓reduceIte, and_true]
    by_cases e : k = key
    · subst e
      rw [if_pos rfl, get?, List.find?_append, hn]
      simp
    · have hs : ¬ key = k := fun h => e h.symm
      simp [get?, e, hs]

end Table

end Archivist
