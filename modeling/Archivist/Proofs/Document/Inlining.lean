import Archivist.Proofs.Loading.Recursion
import Archivist.Proofs.Tolerance.Names

/-!
Flattened records and their fields. Main statement: a record is saved and loaded as one that has the fields of a
flattened record in the place of that record, so the keys of its document are the names of all these fields.
-/

set_option autoImplicit false

namespace Archivist

open ReadState

namespace Slot

variable {α : Type} {s : ReadState} {xs ys : List (Attempt (Slot α) Unit)} {vs ws : List α} {slot : Slot (List α)}

theorem each_append_of_eq_ok {r : Except Error Unit} {rest : Slot (List α)} (hl : xs.length = vs.length)
    (h : each s xs vs = (.ok (), slot)) (hr : each slot.state ys ws = (r, rest)) :
    each s (xs ++ ys) (vs ++ ws) = (r, ⟨rest.state, slot.value ++ rest.value⟩) := by
  induction xs generalizing s vs slot with
  | nil =>
    obtain rfl := List.length_eq_zero_iff.1 hl.symm
    rw [each_nil] at h
    cases h
    exact hr
  | cons x xs ih =>
    obtain ⟨v, vs, rfl⟩ := List.exists_cons_of_length_eq_add_one hl.symm
    rcases hx : x ⟨s, v⟩ with ⟨e | _, first⟩
    · cases (each_cons_of_eq_error hx).symm.trans h
    · rcases hxs : each first.state xs vs with ⟨res, others⟩
      cases (each_cons_of_eq_ok hx hxs).symm.trans h
      exact each_cons_of_eq_ok hx (ih (Nat.succ.inj hl) hxs hr)

theorem each_append_of_eq_error {e : Error} (hl : xs.length = vs.length) (h : each s xs vs = (.error e, slot)) :
    each s (xs ++ ys) (vs ++ ws) = (.error e, ⟨slot.state, slot.value ++ ws⟩) := by
  induction xs generalizing s vs slot with
  | nil => cases each_nil.symm.trans h
  | cons x xs ih =>
    obtain ⟨v, vs, rfl⟩ := List.exists_cons_of_length_eq_add_one hl.symm
    rcases hx : x ⟨s, v⟩ with ⟨e' | _, first⟩
    · cases (each_cons_of_eq_error hx).symm.trans h
      exact each_cons_of_eq_error hx
    · rcases hxs : each first.state xs vs with ⟨res, others⟩
      cases (each_cons_of_eq_ok hx hxs).symm.trans h
      exact each_cons_of_eq_ok hx (ih (Nat.succ.inj hl) hxs)

end Slot

namespace Schema

/-- `S.Inlining fields inlined`: how fields come to be others by putting the fields of flattened records, which may be
inlined themselves, in the place of the records. -/
inductive Inlining (S : Schema) : List Field → List Field → Type where
  | nil : Inlining S [] []
  | keep (field : Field) {fields inlined : List Field} (rest : Inlining S fields inlined) :
    Inlining S (field :: fields) (field :: inlined)
  | inline {field : Field} {name : String} {fields inlined inner : List Field} (hm : field.mode = .flattened)
    (ht : field.type = .record name) (first : Inlining S (S.fieldsOf name) inner) (rest : Inlining S fields inlined) :
    Inlining S (field :: fields) (inner ++ inlined)

abbrev ShapedAll (S : Schema) (fields : List Field) (vs : List Value) : Prop :=
  List.Forall₂ (fun field v => field.mode ≠ .skipped → S.Shaped field.type v) fields vs

theorem exists_record_of_shaped {S : Schema} {field : Field} {name : String} {v : Value}
    (h : field.mode ≠ .skipped → S.Shaped field.type v) (hm : field.mode = .flattened)
    (ht : field.type = .record name) : ∃ vs, v = .record name vs ∧ S.ShapedAll (S.fieldsOf name) vs :=
  (ht ▸ h (by rw [hm]; nofun)).exists_fields

namespace Inlining

variable {S : Schema} {fields inlined : List Field}

/-- The values of the fields where they come to stand. -/
def splice : {fields inlined : List Field} → S.Inlining fields inlined → List Value → List Value
  | _, _, .keep _ rest, v :: vs => v :: rest.splice vs
  | _, _, .inline _ _ first rest, v :: vs => first.splice v.fields ++ rest.splice vs
  | _, _, _, vs => vs

def depth : {fields inlined : List Field} → S.Inlining fields inlined → Nat
  | _, _, .nil => 0
  | _, _, .keep _ rest => rest.depth
  | _, _, .inline _ _ first rest => max (first.depth + 1) rest.depth

/-- The value of a record as one of the record with the inlined fields. -/
def record (p : S.Inlining fields inlined) (name : String) (v : Value) : Value := .record name (p.splice v.fields)

/-- What came of loading a record, as it comes of loading the record with the inlined fields. -/
def carry (p : S.Inlining fields inlined) (name : String) (run : Except Error Unit × Slot Value) :
    Except Error Unit × Slot Value :=
  (run.1, ⟨run.2.state, p.record name run.2.value⟩)

theorem length_splice (p : S.Inlining fields inlined) {vs : List Value} (hv : S.ShapedAll fields vs) :
    (p.splice vs).length = inlined.length := by
  induction p generalizing vs with
  | nil =>
    cases hv
    rfl
  | keep field rest ih =>
    cases hv with
    | cons _ hrest => simp only [splice, List.length_cons, ih hrest]
  | inline hm ht first rest ihfirst ih =>
    cases hv with
    | cons hfirst hrest =>
      obtain ⟨cs, rfl, hcs⟩ := exists_record_of_shaped hfirst hm ht
      simp only [splice, Value.fields, List.length_append, ihfirst hcs, ih hrest]

section Saving

open WriteState

variable {env : Saving}

theorem writeFields_append {fields others : List Field} {xs ys : List (Attempt WriteState Unit)}
    (hl : fields.length = xs.length) :
    writeFields (fields ++ others) (xs ++ ys) = (do writeFields fields xs; writeFields others ys) := by
  induction xs generalizing fields with
  | nil =>
    obtain rfl := List.length_eq_zero_iff.1 hl
    rfl
  | cons x xs ih =>
    obtain ⟨field, fields, rfl⟩ := List.exists_cons_of_length_eq_add_one hl
    rw [List.cons_append, List.cons_append, writeFields, writeFields, ih (Nat.succ.inj hl)]
    cases field.mode with
    | skipped => rfl
    | _ => simp only [bind_assoc]

theorem writeFields_splice (p : env.schema.Inlining fields inlined) {vs : List Value}
    (hv : env.schema.ShapedAll fields vs) :
    writeFields inlined ((p.splice vs).map env.save) = writeFields fields (vs.map env.save) := by
  induction p generalizing vs with
  | nil =>
    cases hv
    rfl
  | keep field rest ih =>
    cases hv with
    | cons _ hrest => simp only [splice, List.map_cons, writeFields, ih hrest]
  | inline hm ht first rest ihfirst ih =>
    cases hv with
    | cons hfirst hrest =>
      obtain ⟨cs, rfl, hcs⟩ := exists_record_of_shaped hfirst hm ht
      have hlength : (List.map env.save (first.splice cs)).length = _ :=
        (List.length_map _).trans (first.length_splice hcs)
      rw [splice, Value.fields, List.map_append, writeFields_append hlength.symm, ihfirst hcs, ih hrest, List.map_cons,
        writeFields, hm, Saving.save_record]

end Saving

section Loading

open Loading Attempt

variable {deep flat : Ty → Attempt (Slot Value) Unit}

/-- How the fields are loaded if the records that are inlined are loaded field by field. -/
def plan (deep flat : Ty → Attempt (Slot Value) Unit) :
    {fields inlined : List Field} → S.Inlining fields inlined → List (Attempt (Slot Value) Unit)
  | _, _, .nil => []
  | _, _, .keep field rest => fillPart deep flat field :: rest.plan deep flat
  | _, _, @inline _ _ name _ _ _ _ _ first rest =>
    Slot.within Value.fields (Value.record name) (Slot.inOrder (first.plan deep flat)) :: rest.plan deep flat

theorem each_splice (p : S.Inlining fields inlined) {vs : List Value} (hv : S.ShapedAll fields vs) {s : ReadState}
    {r : Except Error Unit} {slot : Slot (List Value)} (h : Slot.each s (p.plan deep flat) vs = (r, slot)) :
    Slot.each s (inlined.map (fillPart deep flat)) (p.splice vs) = (r, ⟨slot.state, p.splice slot.value⟩) := by
  induction p generalizing vs s r slot with
  | nil =>
    cases hv
    cases h
    rfl
  | keep field rest ih =>
    cases hv with
    | @cons _ v _ vs _ hrest =>
      rcases hx : fillPart deep flat field ⟨s, v⟩ with ⟨e | _, first⟩
      · cases (Slot.each_cons_of_eq_error hx).symm.trans h
        exact Slot.each_cons_of_eq_error hx
      · rcases hxs : Slot.each first.state (rest.plan deep flat) vs with ⟨res, others⟩
        cases (Slot.each_cons_of_eq_ok hx hxs).symm.trans h
        exact Slot.each_cons_of_eq_ok hx (ih hrest hxs)
  | inline hm ht first rest ihfirst ih =>
    cases hv with
    | @cons _ _ _ vs hfirst hrest =>
      obtain ⟨cs, rfl, hcs⟩ := exists_record_of_shaped hfirst hm ht
      have hl := (List.length_map (fillPart deep flat)).trans (first.length_splice hcs).symm
      rw [List.map_append]
      -- what the record is left with when one of its fields fails stands before the values that are still to come
      rcases hx : Slot.each s (first.plan deep flat) cs with ⟨e | _, inner⟩
      · cases (Slot.each_cons_of_eq_error (Slot.within_of_eq hx)).symm.trans h
        exact Slot.each_append_of_eq_error hl (ihfirst hcs hx)
      · rcases hxs : Slot.each inner.state (rest.plan deep flat) vs with ⟨res, others⟩
        cases (Slot.each_cons_of_eq_ok (Slot.within_of_eq hx) hxs).symm.trans h
        exact Slot.each_append_of_eq_ok hl (ihfirst hcs hx) (ih hrest hxs)

variable {env : Loading} {lighter : Loader} {k j : Nat}

theorem persists_plan (p : env.schema.Inlining fields inlined) (hk : k ≤ j) :
    List.Forall₂ Persists (fields.map (fillPart lighter.into (env.intoWithin lighter k)))
      (p.plan lighter.into (env.intoWithin lighter j)) := by
  induction p generalizing k with
  | nil => exact .nil
  | keep field rest ih =>
    exact .cons (persists_fillPart _ (fun type => (env.persists_within lighter hk type).2) field) (ih hk)
  | inline hm ht first rest ihfirst ih =>
    refine .cons ?_ (ih hk)
    rw [fillPart_of_flattened hm, ht]
    -- to enter the record takes a step, which its fields do not need where they are inlined
    cases k with
    | zero => exact .endless _
    | succ k => exact .within _ _ (.inOrder (ihfirst (Nat.le_of_succ_le hk)))

theorem plan_persists (p : env.schema.Inlining fields inlined) (hk : j + p.depth ≤ k) :
    List.Forall₂ Persists (p.plan lighter.into (env.intoWithin lighter j))
      (fields.map (fillPart lighter.into (env.intoWithin lighter k))) := by
  induction p generalizing k with
  | nil => exact .nil
  | keep field rest ih =>
    have hj := Nat.le_trans (Nat.le_add_right _ _) hk
    exact .cons (persists_fillPart _ (fun type => (env.persists_within lighter hj type).2) field) (ih hk)
  | inline hm ht first rest ihfirst ih =>
    simp only [depth] at hk
    refine .cons ?_ (ih (by omega))
    rw [fillPart_of_flattened hm, ht]
    obtain ⟨k, rfl⟩ : ∃ i, k = i + 1 := ⟨k - 1, by omega⟩
    exact .within _ _ (.inOrder (ihfirst (by omega)))

variable {name name' : String} (p : env.schema.Inlining (env.schema.fieldsOf name) (env.schema.fieldsOf name'))

theorem fillRecord_eq_carry {v : Value} (hv : env.schema.Shaped (.record name) v) (s : ReadState) :
    env.fillRecord name' deep flat ⟨s, p.record name' v⟩ =
      p.carry name' (Slot.within Value.fields (Value.record name) (Slot.inOrder (p.plan deep flat)) ⟨s, v⟩) := by
  obtain ⟨vs, rfl, hvs⟩ := hv.exists_fields
  rcases hrun : Slot.each s (p.plan deep flat) vs with ⟨r, slot⟩
  have hplan : Slot.within Value.fields (Value.record name) (Slot.inOrder (p.plan deep flat)) ⟨s, .record name vs⟩ =
      (r, ⟨slot.state, .record name slot.value⟩) := Slot.within_of_eq hrun
  have hfill := congrArg (fun run => (run.1, (⟨run.2.state, .record name' run.2.value⟩ : Slot Value)))
    (p.each_splice hvs hrun)
  rw [hplan]
  exact hfill

theorem intoWithin_eq_carry {v : Value} (hv : env.schema.Shaped (.record name) v) (s : ReadState) (hk : k ≤ j)
    (hends : (env.intoWithin lighter (k + 1) (.record name) ⟨s, v⟩).1 ≠ .error .endless) :
    env.intoWithin lighter (j + 1) (.record name') ⟨s, p.record name' v⟩ =
      p.carry name' (env.intoWithin lighter (k + 1) (.record name) ⟨s, v⟩) := by
  have hplan : Persists (env.intoWithin lighter (k + 1) (.record name)) _ :=
    .within Value.fields (Value.record name) (.inOrder (p.persists_plan hk))
  rcases hplan ⟨s, v⟩ with heq | ⟨t, ht⟩
  · rw [← heq]
    exact p.fillRecord_eq_carry hv s
  · rw [ht] at hends
    exact absurd rfl hends

theorem carry_eq_intoWithin {v : Value} (hv : env.schema.Shaped (.record name) v) (s : ReadState) (hk : j + p.depth ≤ k)
    (hends : (env.intoWithin lighter (j + 1) (.record name') ⟨s, p.record name' v⟩).1 ≠ .error .endless) :
    env.intoWithin lighter (j + 1) (.record name') ⟨s, p.record name' v⟩ =
      p.carry name' (env.intoWithin lighter (k + 1) (.record name) ⟨s, v⟩) := by
  have hplan : Persists _ (env.intoWithin lighter (k + 1) (.record name)) :=
    .within Value.fields (Value.record name) (.inOrder (p.plan_persists hk))
  have hcarry : env.intoWithin lighter (j + 1) (.record name') ⟨s, p.record name' v⟩ = _ := p.fillRecord_eq_carry hv s
  rcases hplan ⟨s, v⟩ with heq | ⟨t, ht⟩
  · rw [heq]
    exact hcarry
  · rw [ht] at hcarry
    exact absurd (congrArg Prod.fst hcarry) hends

end Loading

end Inlining

/-- `S.Keys fields names`: the names that the fields are saved under, with those of flattened records in the place of
the records. -/
inductive Keys (S : Schema) : List Field → List String → Prop where
  | nil : Keys S [] []
  | skipped {field : Field} {fields : List Field} {names : List String} (hm : field.mode = .skipped)
    (rest : Keys S fields names) : Keys S (field :: fields) names
  | named {field : Field} {fields : List Field} {names : List String}
    (hm : field.mode = .required ∨ field.mode = .optional) (rest : Keys S fields names) :
    Keys S (field :: fields) (field.name :: names)
  | flattened {field : Field} {name : String} {fields : List Field} {inner names : List String}
    (hm : field.mode = .flattened) (ht : field.type = .record name) (first : Keys S (S.fieldsOf name) inner)
    (rest : Keys S fields names) : Keys S (field :: fields) (inner ++ names)

namespace Keys

variable {S : Schema} {fields : List Field} {names names' : List String}

theorem unique (h : S.Keys fields names) (h' : S.Keys fields names') : names = names' := by
  induction h generalizing names' with
  | nil =>
    cases h'
    rfl
  | skipped hm _ ih =>
    cases h' with
    | skipped _ rest => exact ih rest
    | named hm' _ => simp [hm] at hm'
    | flattened hm' => simp [hm] at hm'
  | named hm _ ih =>
    cases h' with
    | skipped hm' _ => simp [hm'] at hm
    | named _ rest => rw [ih rest]
    | flattened hm' => simp [hm'] at hm
  | flattened hm ht _ _ ihfirst ih =>
    cases h' with
    | skipped hm' _ => simp [hm] at hm'
    | named hm' _ => simp [hm] at hm'
    | flattened _ ht' first rest =>
      cases ht.symm.trans ht'
      rw [ihfirst first, ih rest]

end Keys

/-- All that is flattened into the record, and into what is flattened into it, are records. -/
def FlattensRecords (S : Schema) (root : String) : Prop :=
  ∀ name, S.Flattens root name → ∀ field ∈ S.fieldsOf name, field.mode = .flattened →
    ∃ inner, field.type = .record inner

theorem FlattensRecords.inner {S : Schema} {root name : String} {field : Field} (h : S.FlattensRecords root)
    (hf : field ∈ S.fieldsOf root) (hm : field.mode = .flattened) (ht : field.type = .record name) :
    S.FlattensRecords name := by
  intro inner hinner
  refine h inner ?_
  induction hinner with
  | root => exact .field .root hf hm ht
  | field _ hf' hm' ht' ih => exact .field ih hf' hm' ht'

end Schema

namespace Saving

open Schema

variable {env : Saving}

theorem keys_of_writtenFields {declared : List Field} {vs : List Value} {b : Writer.Node}
    (hl : vs.length = declared.length)
    (h : ∀ x ∈ declared.zip vs, x.1.mode = .flattened → ∀ c, env.written x.2 = some c →
      ∃ name fields, x.1.type = .record name ∧ c.fields? = some fields ∧
        env.schema.Keys (env.schema.fieldsOf name) fields.names)
    (hb : env.writtenFields declared vs = some b) :
    ∃ fields, b.fields? = some fields ∧ env.schema.Keys declared fields.names := by
  induction declared generalizing vs b with
  | nil =>
    obtain rfl := List.length_eq_zero_iff.1 hl
    cases hb
    exact ⟨[], rfl, .nil⟩
  | cons field declared ih =>
    obtain ⟨v, vs, rfl⟩ := List.exists_cons_of_length_eq_add_one hl
    simp only [writtenFields_cons, Option.bind_eq_some_iff] at hb
    obtain ⟨c, hc, r, hr, hmerge⟩ := hb
    obtain ⟨rest, hrest, hkeys⟩ := ih (Nat.succ.inj hl) (fun x hx => h x (List.mem_cons_of_mem _ hx)) hr
    have hnamed : field.mode = .required ∨ field.mode = .optional → ∃ fields, b.fields? = some fields ∧
        env.schema.Keys (field :: declared) fields.names := by
      intro hm
      have hc' : (env.written v).map (Writer.Node.field field.name) = some c := by
        rcases hm with hm | hm <;> simpa only [writtenField, Writer.Node.asField, hm] using hc
      obtain ⟨content, -, rfl⟩ := Option.map_eq_some_iff.1 hc'
      have hfields : b.fields? = some ((field.name, content.close) :: rest) :=
        Writer.Node.fields?_of_merge rfl hrest hmerge
      exact ⟨_, hfields, .named hm hkeys⟩
    cases hm : field.mode with
    | skipped =>
      simp only [writtenField, Writer.Node.asField, hm] at hc
      cases hc
      cases hmerge
      exact ⟨rest, hrest, .skipped hm hkeys⟩
    | flattened =>
      simp only [writtenField, Writer.Node.asField, hm] at hc
      obtain ⟨name, first, ht, hfirst, hinner⟩ := h (field, v) List.mem_cons_self hm c hc
      refine ⟨_, Writer.Node.fields?_of_merge hfirst hrest hmerge, ?_⟩
      rw [Fields.names_append]
      exact .flattened hm ht hinner hkeys
    | required => exact hnamed (.inl hm)
    | optional => exact hnamed (.inr hm)

theorem keys_of_written {type : Ty} {v : Value} (hv : env.schema.Shaped type v) {name : String}
    (ht : type = .record name) (hr : env.schema.FlattensRecords name) {b : Writer.Node} (hb : env.written v = some b) :
    ∃ fields, b.fields? = some fields ∧ env.schema.Keys (env.schema.fieldsOf name) fields.names := by
  induction hv generalizing name b with
  | replaced h =>
    subst ht
    cases h
  | array => cases ht
  | @record root vs hl _ ih =>
    cases ht
    rw [written_record] at hb
    refine keys_of_writtenFields hl (fun x hx hm c hc => ?_) hb
    have hf := (List.of_mem_zip hx).1
    obtain ⟨inner, htype⟩ := hr root .root x.1 hf hm
    obtain ⟨found, hfound, hkeys⟩ := ih x hx (by rw [hm]; nofun) htype (hr.inner hf hm htype) hc
    exact ⟨inner, found, htype, hfound, hkeys⟩

end Saving

open Relation Schema

/-- A record with flattened records and one with their fields in their place are the same in documents. They are saved
alike, and loaded alike if the load of the first one ends, as all loads do where no record leads back to itself
through flattened fields; a load of the second one that ends is one of the first, given steps for the records in
between. A record that flattens records only has the names of all fields for keys, whatever its value. -/
theorem flattening_is_inlining {S : Schema} {name name' : String}
    (p : S.Inlining (S.fieldsOf name) (S.fieldsOf name')) :
    (∀ (saving : Saving) (v : Value), saving.schema = S → S.Shaped (.record name) v →
      saving.save (p.record name' v) = saving.save v) ∧
    (∀ (env : Loading) (s : ReadState) (v : Value), env.schema = S → S.Shaped (.record name) v →
      ((env.load (.record name) ⟨s, v⟩).1 ≠ .error .endless →
        env.load (.record name') ⟨s, p.record name' v⟩ = p.carry name' (env.load (.record name) ⟨s, v⟩)) ∧
      ((∀ record, ¬ TransGen S.Flat (.record record) (.record record)) →
        (env.load (.record name) ⟨s, v⟩).1 ≠ .error .endless) ∧
      ((env.load (.record name') ⟨s, p.record name' v⟩).1 ≠ .error .endless →
        ∀ steps, env.steps (.record name) + p.depth ≤ steps →
          env.load (.record name') ⟨s, p.record name' v⟩ =
            p.carry name' (env.intoWithin (env.loader s.reader.weight) steps (.record name) ⟨s, v⟩))) ∧
    (∀ (saving : Saving) (v : Value) (d : Json), saving.schema = S → S.FlattensRecords name →
      S.Shaped (.record name) v → (saving.toJson v).result = .ok d →
        ∃ fields : Fields, d = .object fields ∧ S.Keys (S.fieldsOf name) fields.names) ∧
    ∀ names names', S.Keys (S.fieldsOf name) names → S.Keys (S.fieldsOf name) names' → names = names' := by
  refine ⟨?_, ?_, ?_, fun _ _ => Keys.unique⟩
  · rintro saving v rfl hv
    obtain ⟨vs, rfl, hvs⟩ := hv.exists_fields
    rw [Inlining.record, Value.fields, Saving.save_record, Saving.save_record]
    exact p.writeFields_splice hvs
  · rintro env s v rfl hv
    have hsteps : ∀ name, env.steps (.record name) = 2 * env.schema.span + 1 + 1 := fun _ => rfl
    refine ⟨fun hends => ?_, fun acyclic => ?_, fun hends steps hle => ?_⟩
    · exact p.intoWithin_eq_carry hv s (Nat.le_refl _) hends
    · exact Loading.finished_answer (exists_endsWithin acyclic) (.into (.record name) ⟨s, v⟩)
    · rw [hsteps] at hle
      obtain ⟨k, rfl⟩ : ∃ k, steps = k + 1 := ⟨steps - 1, by omega⟩
      exact p.carry_eq_intoWithin (j := 2 * env.schema.span + 1) hv s (by omega) hends
  · rintro saving v d rfl hr hv hd
    obtain ⟨b, hb, rfl⟩ := saving.written_of_toJson hd
    obtain ⟨fields, hf, hkeys⟩ := Saving.keys_of_written hv rfl hr hb
    exact ⟨fields, Writer.Node.close_of_fields? hf, hkeys⟩

namespace Parcel

def number : Field := ⟨"number", .atom (.int .u16), .required, .atom (.int .u16 0)⟩

def contact : Field := ⟨"", .record "Contact", .flattened, .record "Contact" []⟩

def weight : Field := ⟨"weight", .atom (.int .u16), .required, .atom (.int .u16 0)⟩

def nameField : Field := ⟨"name", .atom .text, .required, .atom (.text "")⟩

def address : Field := ⟨"", .record "Address", .flattened, .record "Address" []⟩

def street : Field := ⟨"street", .atom .text, .required, .atom (.text "")⟩

def note : Field := ⟨"note", .atom .text, .optional, .atom (.text "")⟩

def visits : Field := ⟨"visits", .atom (.int .u8), .skipped, .atom (.int .u8 0)⟩

def schema : Schema where
  path := "parcel::"
  records := [⟨"Address", [street, note, visits], .plain⟩, ⟨"Contact", [nameField, address], .plain⟩,
    ⟨"Parcel", [number, contact, weight], .plain⟩,
    ⟨"Label", [number, nameField, street, note, visits, weight], .plain⟩]

def contactFields : schema.Inlining [nameField, address] [nameField, street, note, visits] :=
  .keep nameField (@Schema.Inlining.inline _ _ _ _ _ [street, note, visits] rfl rfl
    (.keep street (.keep note (.keep visits .nil))) .nil)

def inlining : schema.Inlining (schema.fieldsOf "Parcel") (schema.fieldsOf "Label") :=
  .keep number (@Schema.Inlining.inline _ contact _ _ _ [nameField, street, note, visits] rfl rfl contactFields
    (.keep weight .nil))

def parcel (n w : Int) (name street note : String) : Value :=
  .record "Parcel" [.atom (.int .u16 n), .record "Contact" [.atom (.text name),
    .record "Address" [.atom (.text street), .atom (.text note), .atom (.int .u8 3)]], .atom (.int .u16 w)]

def label (n w : Int) (name street note : String) : Value :=
  .record "Label" [.atom (.int .u16 n), .atom (.text name), .atom (.text street), .atom (.text note),
    .atom (.int .u8 3), .atom (.int .u16 w)]

theorem shaped_parcel (n w : Int) (name street note : String) :
    schema.Shaped (.record "Parcel") (parcel n w name street note) := by
  have haddress : schema.Shaped (.record "Address")
      (.record "Address" [.atom (.text street), .atom (.text note), .atom (.int .u8 3)]) :=
    .record rfl (List.forall_mem_cons.2 ⟨fun _ => .replaced rfl, List.forall_mem_cons.2 ⟨fun _ => .replaced rfl,
      List.forall_mem_singleton.2 fun _ => .replaced rfl⟩⟩)
  have hcontact : schema.Shaped (.record "Contact") (.record "Contact" [.atom (.text name),
      .record "Address" [.atom (.text street), .atom (.text note), .atom (.int .u8 3)]]) :=
    .record rfl (List.forall_mem_cons.2 ⟨fun _ => .replaced rfl, List.forall_mem_singleton.2 fun _ => haddress⟩)
  exact .record rfl (List.forall_mem_cons.2 ⟨fun _ => .replaced rfl, List.forall_mem_cons.2 ⟨fun _ => hcontact,
    List.forall_mem_singleton.2 fun _ => .replaced rfl⟩⟩)

theorem flattensRecords : schema.FlattensRecords "Parcel" := by
  intro name _ field hf hm
  obtain ⟨record, hr, -, hfield⟩ := Schema.exists_declared hf
  have hflat : ∀ record ∈ schema.records, ∀ field ∈ record.fields, field.mode = .flattened →
      field.type = .record "Contact" ∨ field.type = .record "Address" := by decide
  rcases hflat record hr field hfield hm with ht | ht
  · exact ⟨_, ht⟩
  · exact ⟨_, ht⟩

theorem keys_parcel : schema.Keys (schema.fieldsOf "Parcel") ["number", "name", "street", "note", "weight"] := by
  have haddress : schema.Keys (schema.fieldsOf "Address") ["street", "note"] :=
    .named (.inl rfl) (.named (.inr rfl) (.skipped rfl .nil))
  have hcontact : schema.Keys (schema.fieldsOf "Contact") ["name", "street", "note"] :=
    .named (.inl rfl) (@Schema.Keys.flattened _ address _ _ ["street", "note"] _ rfl rfl haddress .nil)
  exact .named (.inl rfl) (@Schema.Keys.flattened _ contact _ _ ["name", "street", "note"] _ rfl rfl hcontact
    (.named (.inl rfl) .nil))

theorem record_parcel (n w : Int) (name street note : String) :
    inlining.record "Label" (parcel n w name street note) = label n w name street note := rfl

/-- A parcel and its label have one document. A document without a proper weight is loaded into both up to there. -/
theorem label_of_parcel :
    let saving : Saving := ⟨schema, .empty, .jsonWriter, .sentinel⟩
    let env : Loading := { schema }
    let s : ReadState := ⟨.ofJson (.object [("weight", .null), ("number", .int 8), ("name", .string "Bob"),
      ("street", .string "Oak")]), .empty, []⟩
    let loaded := env.load (.record "Label") ⟨s, label 7 250 "Ann" "Elm" "ring"⟩
    saving.save (label 7 250 "Ann" "Elm" "ring") = saving.save (parcel 7 250 "Ann" "Elm" "ring") ∧
    loaded.1 = .error (.malformed (.wrongLeaf "u16" .null)) ∧
    loaded.2.value.atoms = [.int .u16 8, .text "Bob", .text "Oak", .text "ring", .int .u8 3, .int .u16 250] ∧
    ∀ d, (saving.toJson (parcel 7 250 "Ann" "Elm" "ring")).result = .ok d →
      ∃ fields : Fields, d = .object fields ∧ fields.names = ["number", "name", "street", "note", "weight"] := by
  intro saving env s loaded
  obtain ⟨hsave, hload, hkeys, hunique⟩ := @flattening_is_inlining schema "Parcel" "Label" inlining
  have hshaped := shaped_parcel 7 250 "Ann" "Elm" "ring"
  have hresult : (env.load (.record "Parcel") ⟨s, parcel 7 250 "Ann" "Elm" "ring"⟩).1 =
    .error (.malformed (.wrongLeaf "u16" .null)) := by decide +kernel
  have hends : (env.load (.record "Parcel") ⟨s, parcel 7 250 "Ann" "Elm" "ring"⟩).1 ≠ .error .endless := by
    rw [hresult]
    nofun
  have hcarry := (hload env s _ rfl hshaped).1 hends
  rw [record_parcel] at hcarry
  have hlabel := hsave saving _ rfl hshaped
  rw [record_parcel] at hlabel
  refine ⟨hlabel, ?_, ?_, fun d hd => ?_⟩
  · simp only [loaded, hcarry, Schema.Inlining.carry, hresult]
  · simp only [loaded, hcarry]
    decide +kernel
  · obtain ⟨fields, hfields, hnames⟩ := hkeys saving _ d rfl flattensRecords hshaped hd
    exact ⟨fields, hfields, hunique _ _ hnames keys_parcel⟩

end Parcel

end Archivist
