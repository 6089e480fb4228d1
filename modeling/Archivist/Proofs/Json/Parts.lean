import Archivist.Proofs.Number.Exact
import Archivist.Json.Basic

/-!
The documents within a document, and what is asked of each of them on its own.
-/

set_option autoImplicit false

namespace Archivist

namespace Fields

theorem put_of_not_mem {name : String} {fields : Fields} (h : name ∉ fields.names) (value : Json) :
    put name value fields = fields ++ [(name, value)] := by
  induction fields with
  | nil => rfl
  | cons field fields ih =>
    simp only [names, List.map_cons, List.mem_cons, not_or] at h
    rw [put, if_neg (Ne.symm h.1), ih h.2]
    rfl

theorem foldl_put (fields entries : Fields) (h : (names (fields ++ entries)).Nodup) :
    entries.foldl (fun fields (name, value) => put name value fields) fields = fields ++ entries := by
  induction entries generalizing fields with
  | nil => simp
  | cons entry entries ih =>
    obtain ⟨name, value⟩ := entry
    have hname : name ∉ fields.names := by
      simp only [names, List.map_append, List.map_cons, List.nodup_append] at h
      intro hm
      exact h.2.2 name hm name List.mem_cons_self rfl
    simp only [List.foldl_cons, put_of_not_mem hname]
    rw [ih _ (by simpa using h), List.append_assoc]
    rfl

theorem ofEntries_of_nodup {entries : Fields} (h : entries.names.Nodup) : ofEntries entries = entries :=
  foldl_put [] entries h

end Fields

namespace Json

mutual

/-- Every document within a document, itself included. -/
def parts : Json → List Json
  | .array items => .array items :: partsOfItems items
  | .object fields => .object fields :: partsOfFields fields
  | d => [d]

def partsOfItems : List Json → List Json
  | [] => []
  | item :: rest => parts item ++ partsOfItems rest

def partsOfFields : List (String × Json) → List Json
  | [] => []
  | (_, value) :: rest => parts value ++ partsOfFields rest

end

theorem mem_parts_self (d : Json) : d ∈ d.parts := by
  unfold parts
  split <;> exact List.mem_cons_self

theorem partsOfItems_eq (items : List Json) : partsOfItems items = items.flatMap parts := by
  induction items with
  | nil => rfl
  | cons item rest ih => rw [partsOfItems, ih, List.flatMap_cons]

theorem partsOfFields_eq (fields : Fields) : partsOfFields fields = fields.flatMap (·.2.parts) := by
  induction fields with
  | nil => rfl
  | cons field rest ih => rw [partsOfFields, ih, List.flatMap_cons]

section

variable {P : Json → Prop}

theorem forall_parts_array {items : List Json} :
    (∀ part ∈ (Json.array items).parts, P part) ↔
      P (.array items) ∧ ∀ item ∈ items, ∀ part ∈ item.parts, P part := by
  rw [parts, List.forall_mem_cons, partsOfItems_eq, List.forall_mem_flatMap]

theorem forall_parts_object {fields : Fields} :
    (∀ part ∈ (Json.object fields).parts, P part) ↔
      P (.object fields) ∧ ∀ field ∈ fields, ∀ part ∈ field.2.parts, P part := by
  rw [parts, List.forall_mem_cons, partsOfFields_eq, List.forall_mem_flatMap]

end

/-- A whole number fits into 64 bits, signed or not, a float is a finite double, and no two fields of
an object have one name. -/
def Proper : Json → Prop
  | .int n => -2 ^ 63 ≤ n ∧ n < 2 ^ 64
  | .float x => x.isFinite = true ∧ Format.double.Has x
  | .object fields => Fields.names fields |>.Nodup
  | _ => True

instance : DecidablePred Proper
  | .int _ | .float _ => inferInstanceAs (Decidable (_ ∧ _))
  | .object fields => inferInstanceAs (Decidable (Fields.names fields).Nodup)
  | .null | .bool _ | .string _ | .array _ => isTrue trivial

def isFloat : Json → Bool
  | .float _ => true
  | _ => false

/-- What documents are: every part of them is proper. -/
def Valid (d : Json) : Prop := ∀ part ∈ d.parts, part.Proper

def FloatFree (d : Json) : Prop := ∀ part ∈ d.parts, part.isFloat = false

instance : DecidablePred Valid := fun d => inferInstanceAs (Decidable (∀ part ∈ d.parts, part.Proper))

instance : DecidablePred FloatFree := fun d =>
  inferInstanceAs (Decidable (∀ part ∈ d.parts, part.isFloat = false))

end Json

end Archivist
