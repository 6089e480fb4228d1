import Archivist.Registry.Shared

/-!
What each operation does to the look-ups of a registry. Main statement: no operation takes an answer
back, so the registry after any operation extends the one before.
-/

set_option autoImplicit false

namespace Archivist

namespace Table

variable {κ α : Type} [DecidableEq κ]

theorem fst_tryInsert (t : Table κ α) (key : κ) (value : α) :
    (t.tryInsert key value).1 = (t.get? key).isNone := by
  cases h : t.get? key <;> simp [tryInsert, contains, h]

theorem get?_tryInsert_eq (t : Table κ α) (key k : κ) (value : α) :
    (t.tryInsert key value).2.get? k =
      if k = key ∧ t.get? key = none then some value else t.get? k := by
  rw [get?_tryInsert]
  simp [contains]

end Table

@[simp] theorem Schema.id_info (S : Schema) (t : Target) : (S.info t).id = t := rfl

@[simp] theorem Schema.tag_info (S : Schema) (t : Target) : (S.info t).tag = S.tag t := rfl

namespace Registry

variable (r : Registry) (t : TypeInfo) (a : Archive)

theorem isRefused_eq_false_iff :
    r.isRefused t = false ↔
      t.tag ≠ unknownTag ∧ (r.typeOf? t.tag = none ∨ r.typeOf? t.tag = some t.id) := by
  cases h : r.typeOf? t.tag <;> simp [isRefused, h]

theorem claim_cases :
    (r.isRefused t = true ∧ (r.claim t).registry = r ∧ (r.claim t).added = false) ∨
    (t.tag ≠ unknownTag ∧ r.typeOf? t.tag = some t.id ∧ (r.claim t).registry = r ∧
      (r.claim t).added = true) ∨
    (t.tag ≠ unknownTag ∧ r.typeOf? t.tag = none ∧ (r.claim t).added = true ∧
      (r.claim t).registry = { r with
        owners := (r.owners.tryInsert t.tag t.id).2, tags := (r.tags.tryInsert t.id t.tag).2 }) := by
  by_cases hu : t.tag = unknownTag
  · simp [claim, isRefused, hu]
  · cases h : r.typeOf? t.tag with
    | none => simp [claim, hu, h]
    | some owner =>
      by_cases ho : owner = t.id
      · simp [claim, hu, h, ho]
      · simp [claim, isRefused, hu, h, ho]

theorem added_claim : (r.claim t).added = !r.isRefused t := by
  obtain ⟨hr, -, ha⟩ | ⟨hu, ho, -, ha⟩ | ⟨hu, ho, ha, -⟩ := r.claim_cases t
  · simp [hr, ha]
  · simp [(r.isRefused_eq_false_iff t).2 ⟨hu, .inr ho⟩, ha]
  · simp [(r.isRefused_eq_false_iff t).2 ⟨hu, .inl ho⟩, ha]

theorem typeOf?_claim (tag : String) :
    (r.claim t).registry.typeOf? tag =
      if tag = t.tag ∧ tag ≠ unknownTag ∧ r.typeOf? tag = none then some t.id
      else r.typeOf? tag := by
  obtain ⟨hr, he, -⟩ | ⟨hu, ho, he, -⟩ | ⟨hu, ho, -, he⟩ := r.claim_cases t
  · rw [he, if_neg]
    rintro ⟨rfl, hu, hn⟩
    simp [(r.isRefused_eq_false_iff t).2 ⟨hu, .inl hn⟩] at hr
  · rw [he, if_neg]
    rintro ⟨rfl, -, hn⟩
    simp [ho] at hn
  · rw [he]
    change (r.owners.tryInsert t.tag t.id).2.get? tag = _
    rw [Table.get?_tryInsert_eq]
    change r.owners.get? t.tag = none at ho
    by_cases e : tag = t.tag
    · subst e
      simp [typeOf?, ho, hu]
    · simp [typeOf?, e]

theorem tagOf?_claim (x : Target) :
    (r.claim t).registry.tagOf? x =
      if x = t.id ∧ t.tag ≠ unknownTag ∧ r.typeOf? t.tag = none ∧ r.tagOf? x = none then some t.tag
      else r.tagOf? x := by
  obtain ⟨hr, he, -⟩ | ⟨hu, ho, he, -⟩ | ⟨hu, ho, -, he⟩ := r.claim_cases t
  · rw [he, if_neg]
    rintro ⟨rfl, hu, hn, -⟩
    simp [(r.isRefused_eq_false_iff t).2 ⟨hu, .inl hn⟩] at hr
  · rw [he, if_neg]
    rintro ⟨rfl, -, hn, -⟩
    simp [ho] at hn
  · rw [he]
    change (r.tags.tryInsert t.id t.tag).2.get? x = _
    rw [Table.get?_tryInsert_eq]
    by_cases e : x = t.id
    · subst e
      simp [tagOf?, ho, hu]
    · simp [tagOf?, e]

@[simp] theorem inputs_claim : (r.claim t).registry.inputs = r.inputs := by
  obtain ⟨-, he, -⟩ | ⟨-, -, he, -⟩ | ⟨-, -, -, he⟩ := r.claim_cases t <;> rw [he]

@[simp] theorem outputs_claim : (r.claim t).registry.outputs = r.outputs := by
  obtain ⟨-, he, -⟩ | ⟨-, -, he, -⟩ | ⟨-, -, -, he⟩ := r.claim_cases t <;> rw [he]

@[simp] theorem relations_claim : (r.claim t).registry.relations = r.relations := by
  obtain ⟨-, he, -⟩ | ⟨-, -, he, -⟩ | ⟨-, -, -, he⟩ := r.claim_cases t <;> rw [he]

theorem claim_of_refused (h : r.isRefused t = true) :
    (r.claim t).registry = r ∧ (r.claim t).added = false := by
  obtain ⟨-, he, ha⟩ | ⟨hu, ho, -, -⟩ | ⟨hu, ho, -, -⟩ := r.claim_cases t
  · exact ⟨he, ha⟩
  · simp [(r.isRefused_eq_false_iff t).2 ⟨hu, .inr ho⟩] at h
  · simp [(r.isRefused_eq_false_iff t).2 ⟨hu, .inl ho⟩] at h

theorem insertInput_eq :
    (r.insertInput t a).registry = { (r.claim t).registry with
      inputs := if r.isRefused t then r.inputs else (r.inputs.tryInsert (a, t.tag) t.id).2 } := by
  cases h : r.isRefused t with
  | true =>
    obtain ⟨he, ha⟩ := r.claim_of_refused t h
    simp [insertInput, ha, he]
  | false =>
    have ha : (r.claim t).added = true := by simp [added_claim, h]
    simp [insertInput, ha]

theorem insertOutput_eq :
    (r.insertOutput t a).registry = { (r.claim t).registry with
      outputs := if r.isRefused t then r.outputs else (r.outputs.tryInsert (a, t.id) ⟨t.id, t.tag⟩).2 } := by
  cases h : r.isRefused t with
  | true =>
    obtain ⟨he, ha⟩ := r.claim_of_refused t h
    simp [insertOutput, ha, he]
  | false =>
    have ha : (r.claim t).added = true := by simp [added_claim, h]
    simp [insertOutput, ha]

theorem added_insertInput :
    (r.insertInput t a).added = (!r.isRefused t && (r.input? a t.tag).isNone) := by
  cases h : r.isRefused t with
  | true => simp [insertInput, (r.claim_of_refused t h).2]
  | false =>
    have ha : (r.claim t).added = true := by simp [added_claim, h]
    simp [insertInput, ha, Table.fst_tryInsert, input?]

theorem added_insertOutput :
    (r.insertOutput t a).added = (!r.isRefused t && (r.output? a t.id).isNone) := by
  cases h : r.isRefused t with
  | true => simp [insertOutput, (r.claim_of_refused t h).2]
  | false =>
    have ha : (r.claim t).added = true := by simp [added_claim, h]
    simp [insertOutput, ha, Table.fst_tryInsert, output?]

theorem added_insertRelation (base : TypeInfo) (up : Upcaster) :
    (r.insertRelation base t up).added = (r.upcaster? base.id t.id).isNone := by
  simp [insertRelation, Table.fst_tryInsert, upcaster?]

theorem typeOf?_insertInput (tag : String) :
    (r.insertInput t a).registry.typeOf? tag = (r.claim t).registry.typeOf? tag := by
  rw [insertInput_eq]
  rfl

theorem typeOf?_insertOutput (tag : String) :
    (r.insertOutput t a).registry.typeOf? tag = (r.claim t).registry.typeOf? tag := by
  rw [insertOutput_eq]
  rfl

theorem tagOf?_insertInput (x : Target) :
    (r.insertInput t a).registry.tagOf? x = (r.claim t).registry.tagOf? x := by
  rw [insertInput_eq]
  rfl

theorem tagOf?_insertOutput (x : Target) :
    (r.insertOutput t a).registry.tagOf? x = (r.claim t).registry.tagOf? x := by
  rw [insertOutput_eq]
  rfl

theorem input?_insertInput (b : Archive) (tag : String) :
    (r.insertInput t a).registry.input? b tag =
      if b = a ∧ tag = t.tag ∧ r.isRefused t = false ∧ r.input? a t.tag = none then some t.id
      else r.input? b tag := by
  rw [insertInput_eq]
  change Table.get? (if r.isRefused t = true then _ else _) (b, tag) = _
  cases h : r.isRefused t with
  | true => simp [input?]
  | false => simp [Table.get?_tryInsert_eq, input?, and_assoc]

theorem output?_insertOutput (b : Archive) (x : Target) :
    (r.insertOutput t a).registry.output? b x =
      if b = a ∧ x = t.id ∧ r.isRefused t = false ∧ r.output? a t.id = none then some ⟨t.id, t.tag⟩
      else r.output? b x := by
  rw [insertOutput_eq]
  change Table.get? (if r.isRefused t = true then _ else _) (b, x) = _
  cases h : r.isRefused t with
  | true => simp [output?]
  | false => simp [Table.get?_tryInsert_eq, output?, and_assoc]

theorem upcaster?_insertRelation (base : TypeInfo) (up : Upcaster) (b x : Target) :
    (r.insertRelation base t up).registry.upcaster? b x =
      if b = base.id ∧ x = t.id ∧ r.upcaster? base.id t.id = none then some up
      else r.upcaster? b x := by
  change (r.relations.tryInsert (base.id, t.id) up).2.get? (b, x) = _
  rw [Table.get?_tryInsert_eq]
  exact ite_congr (by simp [upcaster?, and_assoc]) (fun _ => rfl) (fun _ => rfl)

@[simp] theorem outputs_insertInput : (r.insertInput t a).registry.outputs = r.outputs := by
  simp [insertInput_eq]

@[simp] theorem relations_insertInput : (r.insertInput t a).registry.relations = r.relations := by
  simp [insertInput_eq]

@[simp] theorem inputs_insertOutput : (r.insertOutput t a).registry.inputs = r.inputs := by
  simp [insertOutput_eq]

@[simp] theorem relations_insertOutput : (r.insertOutput t a).registry.relations = r.relations := by
  simp [insertOutput_eq]

/-- Every question that one registry answers, the other answers alike. -/
structure Extends (r r' : Registry) : Prop where
  typeOf {tag : String} {t : Target} : r.typeOf? tag = some t → r'.typeOf? tag = some t
  tagOf {t : Target} {tag : String} : r.tagOf? t = some tag → r'.tagOf? t = some tag
  input {a : Archive} {tag : String} {t : Target} :
    r.input? a tag = some t → r'.input? a tag = some t
  output {a : Archive} {t : Target} {binding : OutputBinding} :
    r.output? a t = some binding → r'.output? a t = some binding
  upcaster {base t : Target} {up : Upcaster} :
    r.upcaster? base t = some up → r'.upcaster? base t = some up

namespace Extends

variable {r} {r' r'' : Registry}

theorem refl (r : Registry) : r.Extends r := ⟨id, id, id, id, id⟩

theorem trans (h : r.Extends r') (h' : r'.Extends r'') : r.Extends r'' where
  typeOf e := h'.typeOf (h.typeOf e)
  tagOf e := h'.tagOf (h.tagOf e)
  input e := h'.input (h.input e)
  output e := h'.output (h.output e)
  upcaster e := h'.upcaster (h.upcaster e)

theorem isRefused (h : r.Extends r') {t : TypeInfo} (ht : r.isRefused t = true) :
    r'.isRefused t = true := by
  unfold Registry.isRefused at ht ⊢
  cases ho : r.typeOf? t.tag with
  | none => simp_all
  | some owner => simp_all [h.typeOf ho]

theorem isInputSettled (h : r.Extends r') {t : TypeInfo} {a : Archive}
    (ht : r.isInputSettled t a = true) : r'.isInputSettled t a = true := by
  simp only [Registry.isInputSettled, Bool.or_eq_true, Option.isSome_iff_exists] at ht ⊢
  obtain hr | ⟨bound, hb⟩ := ht
  · exact .inl (h.isRefused hr)
  · exact .inr ⟨bound, h.input hb⟩

end Extends

theorem extends_claim : r.Extends (r.claim t).registry where
  typeOf h := by
    rw [typeOf?_claim, if_neg, h]
    rintro ⟨-, -, hn⟩
    simp [h] at hn
  tagOf h := by
    rw [tagOf?_claim, if_neg, h]
    rintro ⟨-, -, -, hn⟩
    simp [h] at hn
  input h := by simpa [input?] using h
  output h := by simpa [output?] using h
  upcaster h := by simpa [upcaster?] using h

theorem extends_insertInput : r.Extends (r.insertInput t a).registry where
  typeOf h := by
    rw [typeOf?_insertInput]
    exact (r.extends_claim t).typeOf h
  tagOf h := by
    rw [tagOf?_insertInput]
    exact (r.extends_claim t).tagOf h
  input h := by
    rw [input?_insertInput, if_neg, h]
    rintro ⟨rfl, rfl, -, hn⟩
    simp [h] at hn
  output h := by simpa [output?] using h
  upcaster h := by simpa [upcaster?] using h

theorem extends_insertOutput : r.Extends (r.insertOutput t a).registry where
  typeOf h := by
    rw [typeOf?_insertOutput]
    exact (r.extends_claim t).typeOf h
  tagOf h := by
    rw [tagOf?_insertOutput]
    exact (r.extends_claim t).tagOf h
  input h := by simpa [input?] using h
  output h := by
    rw [output?_insertOutput, if_neg, h]
    rintro ⟨rfl, rfl, -, hn⟩
    simp [h] at hn
  upcaster h := by simpa [upcaster?] using h

theorem extends_insertRelation (base : TypeInfo) (up : Upcaster) :
    r.Extends (r.insertRelation base t up).registry where
  typeOf h := h
  tagOf h := h
  input h := h
  output h := h
  upcaster h := by
    rw [upcaster?_insertRelation, if_neg, h]
    rintro ⟨rfl, rfl, hn⟩
    simp [h] at hn

theorem extends_register : r.Extends (r.register t).registry :=
  (r.extends_insertInput t .jsonReader).trans (extends_insertOutput _ t .jsonWriter)

theorem extends_ensure : r.Extends (r.ensure t).registry := by
  unfold ensure
  split
  · exact .refl r
  · exact r.extends_register t

theorem extends_ensureInput : r.Extends (r.ensureInput t a).registry := by
  unfold ensureInput
  split
  · exact .refl r
  · exact r.extends_insertInput t a

theorem extends_ensureOutput : r.Extends (r.ensureOutput t a).registry := by
  unfold ensureOutput
  split
  · exact .refl r
  · exact r.extends_insertOutput t a

theorem isInputSettled_ensureInput : (r.ensureInput t a).registry.isInputSettled t a = true := by
  unfold ensureInput
  split
  · assumption
  · rename_i h
    simp only [isInputSettled, Bool.or_eq_true, not_or, Bool.not_eq_true, Option.isSome_eq_false_iff,
      Option.isNone_iff_eq_none] at h
    simp [isInputSettled, input?_insertInput, h.1, h.2]

theorem ensureInput_of_settled (h : r.isInputSettled t a = true) :
    r.ensureInput t a = ⟨r, false, []⟩ := by simp [ensureInput, h]

end Registry

end Archivist
