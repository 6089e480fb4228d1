import Archivist.Proofs.Loading.Principle

/-!
The reading archive step by step, on nodes of which it is known what is left.
-/

set_option autoImplicit false

namespace Archivist

theorem Fields.take?_append {before : Fields} {name : String} (h : name ∉ before.names) (d : Json)
    (after : Fields) : take? name (before ++ (name, d) :: after) = some (d, before ++ after) := by
  induction before with
  | nil => simp [take?]
  | cons field before ih =>
    obtain ⟨key, value⟩ := field
    simp only [names, List.map_cons, List.mem_cons, not_or] at h
    simp [take?, Ne.symm h.1, ih h.2]

namespace Reader

def Node.fields? : Node → Option Fields
  | .value (.object fields) | .object fields => some fields
  | _ => none

def Node.items? : Node → Option (List Json × Nat)
  | .value (.array items) => some (items, items.length)
  | .array items length => some (items, length)
  | _ => none

variable {n m : Node} {rest : List Node} {fields left : Fields} {items : List Json} {length : Nat}
  {name : String} {d : Json}

theorem fieldCount_of_fields? (h : n.fields? = some fields) :
    fieldCount ⟨n :: rest⟩ = fields.length := by
  unfold Node.fields? at h
  split at h <;> cases h <;> rfl

theorem object_of_fields? (h : n.fields? = some fields) :
    object ⟨n :: rest⟩ = (.ok (fields, rest), ⟨.object fields :: rest⟩) := by
  unfold Node.fields? at h
  split at h <;> cases h <;> rfl

theorem object_of_none (h : n.fields? = none) :
    object ⟨n :: rest⟩ = (.error (.malformed (.notAnObject n.kind)), ⟨n :: rest⟩) := by
  cases n with
  | object fields => cases h
  | array items length => rfl
  | value d =>
    cases d with
    | object fields => cases h
    | _ => rfl

theorem array_of_items? (h : n.items? = some (items, length)) :
    array ⟨n :: rest⟩ = (.ok (items, length, rest), ⟨.array items length :: rest⟩) := by
  unfold Node.items? at h
  split at h <;> cases h <;> rfl

theorem array_of_none (h : n.items? = none) :
    array ⟨n :: rest⟩ = (.error (.malformed (.notAnArray n.kind)), ⟨n :: rest⟩) := by
  cases n with
  | array items length => cases h
  | object fields => rfl
  | value d =>
    cases d with
    | array items => cases h
    | _ => rfl

theorem startField_of_take? (h : n.fields? = some fields) (ht : fields.take? name = some (d, left)) :
    startField name ⟨n :: rest⟩ = (.ok (), ⟨.value d :: .object left :: rest⟩) := by
  rw [startField, Attempt.bind_of_eq_ok (object_of_fields? h)]
  simp only [ht]
  rfl

theorem startField_of_absent (h : n.fields? = some fields) (ht : fields.take? name = none) :
    startField name ⟨n :: rest⟩ = (.error (.fieldAbsent name), ⟨.object fields :: rest⟩) := by
  rw [startField, Attempt.bind_of_eq_ok (object_of_fields? h)]
  simp only [ht]
  rfl

theorem startField_of_none (h : n.fields? = none) :
    startField name ⟨n :: rest⟩ = (.error (.malformed (.notAnObject n.kind)), ⟨n :: rest⟩) := by
  rw [startField, Attempt.bind_of_eq_error (object_of_none h)]

theorem startElement_of_items? (h : n.items? = some (d :: items, length)) :
    startElement ⟨n :: rest⟩ = (.ok (), ⟨.value d :: .array items length :: rest⟩) := by
  rw [startElement, Attempt.bind_of_eq_ok (array_of_items? h)]
  rfl

theorem startElement_of_no_more (h : n.items? = some ([], length)) :
    startElement ⟨n :: rest⟩ = (.error (.malformed .noMoreElements), ⟨.array [] length :: rest⟩) := by
  rw [startElement, Attempt.bind_of_eq_ok (array_of_items? h)]
  rfl

theorem startElement_of_none (h : n.items? = none) :
    startElement ⟨n :: rest⟩ = (.error (.malformed (.notAnArray n.kind)), ⟨n :: rest⟩) := by
  rw [startElement, Attempt.bind_of_eq_error (array_of_none h)]

theorem readSize_of_items? (h : n.items? = some (items, length)) :
    readSize ⟨n :: rest⟩ = (.ok length, ⟨.array items length :: rest⟩) := by
  rw [readSize, Attempt.bind_of_eq_ok (array_of_items? h)]
  rfl

theorem readSize_of_none (h : n.items? = none) :
    readSize ⟨n :: rest⟩ = (.error (.malformed (.notAnArray n.kind)), ⟨n :: rest⟩) := by
  rw [readSize, Attempt.bind_of_eq_error (array_of_none h)]

theorem nextFieldName_nil : nextFieldName ⟨[]⟩ = (.error (.malformed .noCurrentNode), ⟨[]⟩) := rfl

theorem nextFieldName_of_fields? (h : n.fields? = some fields) :
    nextFieldName ⟨n :: rest⟩ = (.ok fields.names.head?, ⟨.object fields :: rest⟩) := by
  rw [nextFieldName, Attempt.bind_of_eq_ok (object_of_fields? h)]
  rfl

theorem nextFieldName_of_none (h : n.fields? = none) :
    nextFieldName ⟨n :: rest⟩ = (.error (.malformed (.notAnObject n.kind)), ⟨n :: rest⟩) := by
  rw [nextFieldName, Attempt.bind_of_eq_error (object_of_none h)]

@[simp] theorem finishNode_cons : finishNode ⟨n :: m :: rest⟩ = (.ok (), ⟨m :: rest⟩) := rfl

theorem readValue_of_leaf? {leaf : Leaf} (h : leaf? d = some leaf) :
    readValue ⟨.value d :: rest⟩ = (.ok leaf, ⟨.value .null :: rest⟩) := by
  have ht : top ⟨.value d :: rest⟩ = (.ok (.value d, rest), ⟨.value d :: rest⟩) := rfl
  rw [readValue, Attempt.bind_of_eq_ok ht]
  simp only [h]
  rfl

end Reader

end Archivist
