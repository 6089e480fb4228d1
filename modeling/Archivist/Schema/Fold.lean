import Archivist.Schema.Basic

/-!
Going through values. What is told of a value follows from what is told of its parts and, behind a reference, of
what the base shows, which need not be a part. References nest to a finite depth and a base shows none that nest
deeper, so this comes to an end. Main statements: the equations of `Schema.fold`, and the induction that goes the
same way.
-/

set_option autoImplicit false

namespace Archivist

namespace Value

/-- What is told of a value, given what is told of its parts. For a reference there is the value behind it, what is
told of that, and what is told of the part that the declared base shows, if it shows one. -/
structure Algebra (ρ : Type) where
  atom : Atom → ρ
  absent : ρ
  present : ρ → ρ
  list : List ρ → ρ
  map : KeyTy → List (Atom × ρ) → ρ
  record : String → List ρ → ρ
  ref : Target → Value → ρ → Option ρ → ρ

variable {ρ : Type} (f : Algebra ρ) (shown : Target → Value → Option ρ)

mutual

def foldWith : Value → ρ
  | .atom a => f.atom a
  | .absent => f.absent
  | .present item => f.present (foldWith item)
  | .list items => f.list (foldEach items)
  | .map key entries => f.map key (foldEntries entries)
  | .record name fields => f.record name (foldEach fields)
  | .ref declared item => f.ref declared item (foldWith item) (shown declared item)

def foldEach : List Value → List ρ
  | [] => []
  | item :: rest => foldWith item :: foldEach rest

def foldEntries : List (Atom × Value) → List (Atom × ρ)
  | [] => []
  | (key, item) :: rest => (key, foldWith item) :: foldEntries rest

end

theorem foldEach_eq (items : List Value) : foldEach f shown items = items.map (foldWith f shown) := by
  induction items with
  | nil => rfl
  | cons item rest ih => rw [foldEach, ih, List.map_cons]

theorem foldEntries_eq (entries : List (Atom × Value)) :
    foldEntries f shown entries = entries.map fun e => (e.1, foldWith f shown e.2) := by
  induction entries with
  | nil => rfl
  | cons entry rest ih => rw [foldEntries, ih, List.map_cons]

/-- Induction over values, with one case for all parts of a container. -/
theorem inductOn {P : Value → Prop} (v : Value) (atom : ∀ a, P (.atom a)) (absent : P .absent)
    (present : ∀ item, P item → P (.present item)) (list : ∀ items, (∀ item ∈ items, P item) → P (.list items))
    (map : ∀ key entries, (∀ entry ∈ entries, P entry.2) → P (.map key entries))
    (record : ∀ name fields, (∀ item ∈ fields, P item) → P (.record name fields))
    (ref : ∀ declared item, P item → P (.ref declared item)) : P v :=
  @Value.rec P (fun items => ∀ item ∈ items, P item) (fun entries => ∀ entry ∈ entries, P entry.2)
    (fun entry => P entry.2) atom absent present list map record ref
    (fun _ h => absurd h List.not_mem_nil) (fun _ _ hi hr => List.forall_mem_cons.2 ⟨hi, hr⟩)
    (fun _ h => absurd h List.not_mem_nil) (fun _ _ hi hr => List.forall_mem_cons.2 ⟨hi, hr⟩) (fun _ _ h => h) v

variable {f}

/-- Only what is shown of values at a smaller depth makes a difference. -/
theorem foldWith_congr {shown shown' : Target → Value → Option ρ} (v : Value)
    (h : ∀ declared item, item.depth < v.depth → shown declared item = shown' declared item) :
    foldWith f shown v = foldWith f shown' v := by
  induction v using inductOn with
  | atom a => rfl
  | absent => rfl
  | present item ih => rw [foldWith, foldWith, ih h]
  | list items ih =>
    rw [foldWith, foldWith, foldEach_eq, foldEach_eq]
    refine congrArg f.list (List.map_congr_left fun item hm => ih item hm fun declared part hp => ?_)
    exact h declared part (Nat.lt_of_lt_of_le hp (depth_le_depthOf hm))
  | map key entries ih =>
    rw [foldWith, foldWith, foldEntries_eq, foldEntries_eq]
    refine congrArg (f.map key) (List.map_congr_left fun entry hm => ?_)
    rw [ih entry hm fun declared part hp => h declared part (Nat.lt_of_lt_of_le hp (depth_le_depthIn hm))]
  | record name fields ih =>
    rw [foldWith, foldWith, foldEach_eq, foldEach_eq]
    refine congrArg (f.record name) (List.map_congr_left fun item hm => ih item hm fun declared part hp => ?_)
    exact h declared part (Nat.lt_of_lt_of_le hp (depth_le_depthOf hm))
  | ref declared item ih =>
    rw [foldWith, foldWith, h declared item (Nat.lt_succ_self _),
      ih fun declared part hp => h declared part (Nat.lt_succ_of_lt hp)]

end Value

namespace Schema

open Value (Algebra foldWith)

variable (S : Schema) {ρ : Type} (f : Algebra ρ)

def foldWithin : Nat → Value → ρ
  | 0 => foldWith f fun _ _ => none
  | depth + 1 => foldWith f fun declared item => (S.shown? declared item).map (foldWithin depth)

def fold (v : Value) : ρ := S.foldWithin f v.depth v

variable {S f}

theorem foldWithin_congr {n m : Nat} {v : Value} (hn : v.depth ≤ n) (hm : v.depth ≤ m) :
    S.foldWithin f n v = S.foldWithin f m v := by
  induction n generalizing m v with
  | zero =>
    have hd : ∀ item : Value, ¬ item.depth < v.depth := by omega
    cases m with
    | zero => rfl
    | succ m => exact Value.foldWith_congr v fun _ item hi => absurd hi (hd item)
  | succ n ih =>
    cases m with
    | zero =>
      have hd : ∀ item : Value, ¬ item.depth < v.depth := by omega
      exact Value.foldWith_congr v fun _ item hi => absurd hi (hd item)
    | succ m =>
      refine Value.foldWith_congr v fun declared item hi => ?_
      cases hp : S.shown? declared item with
      | none => rfl
      | some part =>
        have hpart := S.depth_shown? hp
        exact congrArg some (ih (by omega) (by omega))

theorem fold_eq (v : Value) :
    S.fold f v = foldWith f (fun declared item => (S.shown? declared item).map (S.fold f)) v := by
  have hone : S.fold f v = S.foldWithin f (v.depth + 1) v := foldWithin_congr (Nat.le_refl _) (Nat.le_succ _)
  rw [hone]
  refine Value.foldWith_congr v fun declared item hi => ?_
  cases hp : S.shown? declared item with
  | none => rfl
  | some part =>
    have hpart := S.depth_shown? hp
    exact congrArg some (foldWithin_congr (by omega) (Nat.le_refl _))

@[simp] theorem fold_atom (a : Atom) : S.fold f (.atom a) = f.atom a := rfl

@[simp] theorem fold_absent : S.fold f .absent = f.absent := rfl

@[simp] theorem fold_present (item : Value) : S.fold f (.present item) = f.present (S.fold f item) := by
  rw [fold_eq, foldWith, ← fold_eq]

@[simp] theorem fold_list (items : List Value) : S.fold f (.list items) = f.list (items.map (S.fold f)) := by
  rw [fold_eq, foldWith, Value.foldEach_eq]
  exact congrArg f.list (List.map_congr_left fun item _ => (fold_eq item).symm)

@[simp] theorem fold_map (key : KeyTy) (entries : List (Atom × Value)) :
    S.fold f (.map key entries) = f.map key (entries.map fun e => (e.1, S.fold f e.2)) := by
  rw [fold_eq, foldWith, Value.foldEntries_eq]
  exact congrArg (f.map key) (List.map_congr_left fun e _ => by rw [← fold_eq])

@[simp] theorem fold_record (name : String) (fields : List Value) :
    S.fold f (.record name fields) = f.record name (fields.map (S.fold f)) := by
  rw [fold_eq, foldWith, Value.foldEach_eq]
  exact congrArg (f.record name) (List.map_congr_left fun item _ => (fold_eq item).symm)

@[simp] theorem fold_ref (declared : Target) (item : Value) :
    S.fold f (.ref declared item) =
      f.ref declared item (S.fold f item) ((S.shown? declared item).map (S.fold f)) := by
  rw [fold_eq, foldWith, ← fold_eq]

/-- Induction over a value and all that bases show of what is in it. -/
theorem inductOn (S : Schema) {P : Value → Prop} (v : Value) (atom : ∀ a, P (.atom a)) (absent : P .absent)
    (present : ∀ item, P item → P (.present item)) (list : ∀ items, (∀ item ∈ items, P item) → P (.list items))
    (map : ∀ key entries, (∀ entry ∈ entries, P entry.2) → P (.map key entries))
    (record : ∀ name fields, (∀ item ∈ fields, P item) → P (.record name fields))
    (ref : ∀ declared item, P item → (∀ part, S.shown? declared item = some part → P part) →
      P (.ref declared item)) : P v := by
  -- what is shown lies at a smaller depth than the reference
  have within : ∀ n (v : Value), v.depth ≤ n → P v := by
    intro n
    induction n using Nat.strongRecOn with
    | ind n smaller =>
      have deeper : ∀ v : Value, v.depth < n → P v := fun v hv => smaller v.depth hv v (Nat.le_refl _)
      intro v
      induction v using Value.inductOn with
      | atom a => exact fun _ => atom a
      | absent => exact fun _ => absent
      | present item ih => exact fun h => present item (ih h)
      | list items ih =>
        exact fun h => list items fun item hm => ih item hm (Nat.le_trans (Value.depth_le_depthOf hm) h)
      | map key entries ih =>
        exact fun h => map key entries fun e hm => ih e hm (Nat.le_trans (Value.depth_le_depthIn hm) h)
      | record name fields ih =>
        exact fun h => record name fields fun item hm => ih item hm (Nat.le_trans (Value.depth_le_depthOf hm) h)
      | ref declared item _ =>
        intro h
        exact ref declared item (deeper item h) fun part hp =>
          deeper part (Nat.lt_of_le_of_lt (S.depth_shown? hp) h)
  exact within v.depth v (Nat.le_refl _)

end Schema

end Archivist
