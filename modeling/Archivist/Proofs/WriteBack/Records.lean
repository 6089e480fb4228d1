import Archivist.Proofs.WriteBack.Nodes

/-!
Records and what loading them leaves behind for saving. The fields of a record are read from one node
one after the other; none finds there a name of an earlier one, so none writes such a name.
-/

set_option autoImplicit false

namespace Archivist.Saving

open Attempt ReadState

variable (env : Saving)

/-- `env.FieldReturns field n v m`: a field of a record, loaded from the node `n` of the record of which
`m` is left, can be written into that node again. -/
structure FieldReturns (field : Field) (n : Reader.Node) (v : Value) (m : Reader.Node) : Prop where
  valid : m.Valid
  left : ∀ name ∈ m.names, name ∈ n.names ∧ ¬ env.schema.FieldName field name
  written : (field.mode ≠ .skipped → v.SinglesFinite env.schema) →
    ∃ b fields, env.writtenField field v = some b ∧ b.fields? = some fields ∧
      ∀ name ∈ fields.names, env.schema.FieldName field name ∨ env.schema.FieldOpen field ∧ name ∈ n.names

/-- The same of several fields of a record. -/
structure FieldsReturn (declared : List Field) (n : Reader.Node) (vs : List Value) (m : Reader.Node) : Prop where
  valid : m.Valid
  left : ∀ name ∈ m.names, name ∈ n.names ∧ ∀ field ∈ declared, ¬ env.schema.FieldName field name
  written : (∀ x ∈ Value.singlesOfFields env.schema declared vs, x.isFinite = true) →
    ∃ b fields, env.writtenFields declared vs = some b ∧ b.fields? = some fields ∧
      ∀ name ∈ fields.names, ∃ field ∈ declared,
        env.schema.FieldName field name ∨ env.schema.FieldOpen field ∧ name ∈ n.names

variable {env} {field : Field} {n n' m : Reader.Node} {outer : List Reader.Node} {v prior : Value}
  {s t : ReadState} {y : Attempt (Slot Value) Unit}

theorem FieldReturns.skipped (hm : field.mode = .skipped) (hn : n.Valid) : env.FieldReturns field n v n where
  valid := hn
  left name hname := ⟨hname, by simp [Schema.FieldName, hm]⟩
  written _ :=
    ⟨.pending, [], by simp [writtenField, Writer.Node.asField, hm], rfl, fun _ h => absurd h List.not_mem_nil⟩

theorem Returns.flattened (h : env.Returns field.type n v m) (hm : field.mode = .flattened)
    (hc : field.type.canFlatten = true) : env.FieldReturns field n v m where
  valid := h.valid
  left name hname := by simpa [Schema.FieldName, hm] using h.left name hname
  written hfinite := by
    obtain ⟨b, hb, hjoins⟩ := h.written (hfinite (by simp [hm]))
    obtain ⟨fields, hfields, hnames⟩ := hjoins hc
    refine ⟨b, fields, by simpa [writtenField, Writer.Node.asField, hm] using hb, hfields, fun name hname => ?_⟩
    simpa [Schema.FieldName, Schema.FieldOpen, hm] using hnames name hname

theorem FieldReturns.named (hm : field.mode = .required ∨ field.mode = .optional) (hw : env.Writable v)
    (hvalid : m.Valid) (hleft : ∀ name ∈ m.names, name ∈ n.names ∧ name ≠ field.name) :
    env.FieldReturns field n v m where
  valid := hvalid
  left name hname := by
    refine ⟨(hleft name hname).1, fun h => (hleft name hname).2 ?_⟩
    rcases hm with hm | hm <;> simpa [Schema.FieldName, hm] using h
  written hfinite := by
    obtain ⟨b, hb⟩ := hw (hfinite (by rcases hm with hm | hm <;> simp [hm]))
    refine ⟨.field field.name b, _, ?_, rfl, fun name hname => .inl ?_⟩
    · rcases hm with hm | hm <;> simp [writtenField, Writer.Node.asField, hm, hb]
    · have hname : name = field.name := List.mem_singleton.1 hname
      rcases hm with hm | hm <;> simp [Schema.FieldName, hm, hname]

theorem FieldsReturn.nil (hn : n.Valid) (vs : List Value) : env.FieldsReturn [] n vs n where
  valid := hn
  left name hname := ⟨hname, fun _ h => absurd h List.not_mem_nil⟩
  written _ := ⟨.pending, [], by cases vs <;> rfl, rfl, fun _ h => absurd h List.not_mem_nil⟩

/-- A field goes together with those after it if it shares no name with them and, in case it takes
whatever there is, no other is written after it. -/
theorem FieldReturns.cons {declared : List Field} {vs : List Value} (hfirst : env.FieldReturns field n v n')
    (hrest : env.FieldsReturn declared n' vs m)
    (names : ∀ other ∈ declared, ∀ name, env.schema.FieldName field name → ¬ env.schema.FieldName other name)
    (last : env.schema.FieldOpen field → ∀ other ∈ declared, other.mode = .skipped) :
    env.FieldsReturn (field :: declared) n (v :: vs) m where
  valid := hrest.valid
  left name hname := by
    obtain ⟨hname', hothers⟩ := hrest.left name hname
    obtain ⟨hmem, hfield⟩ := hfirst.left name hname'
    exact ⟨hmem, List.forall_mem_cons.2 ⟨hfield, hothers⟩⟩
  written hfinite := by
    rw [Value.singlesOfFields] at hfinite
    obtain ⟨b, fields, hb, hfields, hnames⟩ := hfirst.written fun hm => by
      rw [if_neg hm] at hfinite
      exact (List.forall_mem_append.1 hfinite).1
    obtain ⟨c, others, hc, hothers, hrestNames⟩ := hrest.written (by
      split at hfinite
      · exact hfinite
      · exact (List.forall_mem_append.1 hfinite).2)
    have hapart : ∀ name ∈ others.names, name ∉ fields.names := by
      intro name hother hname
      obtain ⟨other, hmem, hother⟩ := hrestNames name hother
      rcases hnames name hname with hname | ⟨hopen, -⟩
      · rcases hother with hother | ⟨-, hleft⟩
        · exact names other hmem name hname hother
        · exact (hfirst.left name hleft).2 hname
      · have hskipped := last hopen other hmem
        rcases hother with hother | ⟨⟨hflat, -⟩, -⟩
        · simp [Schema.FieldName, hskipped] at hother
        · simp [hskipped] at hflat
    obtain ⟨r, hr, hrfields⟩ := Writer.Node.merge_of_apart hfields hothers hapart
    refine ⟨r, _, by simp [writtenFields_cons, hb, hc, hr], hrfields, fun name hname => ?_⟩
    rw [Fields.names_append] at hname
    rcases List.mem_append.1 hname with hname | hname
    · exact ⟨field, List.mem_cons_self, hnames name hname⟩
    · obtain ⟨other, hmem, hother⟩ := hrestNames name hname
      refine ⟨other, List.mem_cons_of_mem _ hmem, hother.imp_right fun h => ⟨h.1, ?_⟩⟩
      exact (hfirst.left name h.2).1

theorem AdmitsInto.entered (h : env.AdmitsInto field.type y) (hm : field.mode = .required ∨ field.mode = .optional)
    {d : Json} {left : Fields} (taken : Reader.Taken n field.name d left)
    (ht : t.reader = ⟨.value d :: .object left :: outer⟩) (hp : env.Keepable field.type prior) :
    Assures (do
      y
      Slot.lift (onReader Reader.finishNode)) ⟨t, prior⟩ fun _ slot =>
        ∃ m, slot.state.reader = ⟨m :: outer⟩ ∧ env.FieldReturns field n slot.value m := by
  refine (h ht taken.document hp).bind fun _ slot hslot => ?_
  obtain ⟨u, v⟩ := slot
  obtain ⟨m, hu, hr⟩ := hslot
  refine (Slot.lift_assures (onReader_assures hu Reader.finishNode_assures)).mono fun _ slot hslot => ?_
  obtain ⟨hv, hslot⟩ := hslot
  exact ⟨_, hslot, .named hm (hv ▸ hr.writable) taken.valid fun _ => taken.names⟩

theorem enterOptional_assures (name : String) (hs : s.reader = ⟨n :: outer⟩) (hn : n.Valid) :
    (Loading.enterOptional name).Assures s fun entered t =>
      if entered then ∃ d left, Reader.Taken n name d left ∧ t.reader = ⟨.value d :: .object left :: outer⟩
      else ∃ fields : Fields, (Reader.Node.object fields).Valid ∧ fields.names = n.names ∧ name ∉ n.names ∧
        t.reader = ⟨.object fields :: outer⟩ := by
  intro entered t h
  cases hf : n.fields? with
  | none =>
    have hstart : onReader (Reader.startField name) s = _ := onReader_of_eq (hs ▸ Reader.startField_of_none hf)
    simp [Loading.enterOptional, hstart, Error.isFieldAbsent] at h
  | some fields =>
    have hnames := Reader.Node.names_of_fields? hf
    cases ht : fields.take? name with
    | none =>
      have hstart := onReader_of_eq (s := s) (hs ▸ Reader.startField_of_absent hf ht)
      simp only [Loading.enterOptional, hstart, Error.isFieldAbsent, ↓reduceIte] at h
      cases h
      exact ⟨fields, hn.object_of_fields? hf, hnames.symm, hnames ▸ Fields.take?_eq_none.1 ht, rfl⟩
    | some found =>
      obtain ⟨d, left⟩ := found
      have hstart := onReader_of_eq (s := s) (hs ▸ Reader.startField_of_take? hf ht)
      simp only [Loading.enterOptional, hstart] at h
      cases h
      exact ⟨d, left, Reader.taken_of_take? hn hf ht, rfl⟩

section Filling

variable {deep flat : Ty → Attempt (Slot Value) Unit}

/-- What is known of a field and of its prior value before it is loaded. -/
structure Prepared (env : Saving) (load : Ty → Attempt (Slot Value) Unit) (field : Field) (prior : Value) :
    Prop where
  admits : field.mode ≠ .skipped → env.AdmitsInto field.type (load field.type)
  flat : field.mode = .flattened → field.type.canFlatten = true
  keepable : field.mode ≠ .skipped → env.Keepable field.type prior
  kept : field.mode = .optional → (env.toJson prior).result.isOk = true

theorem fillField_assures {load : Ty → Attempt (Slot Value) Unit} (h : env.Prepared load field prior)
    (hs : s.reader = ⟨n :: outer⟩) (hn : n.Valid) :
    (Loading.fillField load field).Assures ⟨s, prior⟩ fun _ slot =>
      ∃ m, slot.state.reader = ⟨m :: outer⟩ ∧ env.FieldReturns field n slot.value m := by
  unfold Loading.fillField
  split <;> rename_i hm
  · exact .pure ⟨n, hs, .skipped hm hn⟩
  · refine (h.admits (by simp [hm]) hs hn (h.keepable (by simp [hm]))).mono fun _ slot hslot => ?_
    exact hslot.imp fun m hr => ⟨hr.1, hr.2.flattened hm (h.flat hm)⟩
  · have hadmits := h.admits (by simp [hm])
    have hkeepable := h.keepable (by simp [hm])
    refine (Slot.lift_assures (onReader_assures hs (Reader.startField_assures hn field.name))).bind
      fun _ slot hslot => ?_
    obtain ⟨t, p⟩ := slot
    obtain ⟨rfl, d, left, taken, ht⟩ := hslot
    exact hadmits.entered (.inl hm) taken ht hkeepable
  · refine (Slot.lift_assures (enterOptional_assures field.name hs hn)).bind fun entered slot hslot => ?_
    obtain ⟨t, p⟩ := slot
    obtain ⟨rfl, ht⟩ := hslot
    cases entered with
    | true =>
      obtain ⟨d, left, taken, ht⟩ := ht
      exact (h.admits (by simp [hm])).entered (.inr hm) taken ht (h.keepable (by simp [hm]))
    | false =>
      -- the field is not there: its prior value is kept, which was written before
      obtain ⟨fields, hvalid, hnames, habsent, ht⟩ := ht
      obtain ⟨b, hb⟩ := isOk_toJson_iff.1 (h.kept hm)
      refine .pure ⟨_, ht, .named (.inr hm) (fun _ => ⟨b, hb⟩) hvalid fun name hname => ?_⟩
      have hname : name ∈ n.names := hnames ▸ hname
      exact ⟨hname, fun heq => habsent (heq ▸ hname)⟩

theorem fillFields_assures {declared : List Field} {priors : List Value}
    (length : priors.length = declared.length)
    (h : ∀ x ∈ declared.zip priors, env.Prepared (if x.1.mode = .flattened then flat else deep) x.1 x.2)
    (names : declared.Pairwise fun field other =>
      ∀ name, env.schema.FieldName field name → ¬ env.schema.FieldName other name)
    (last : declared.Pairwise fun field other => env.schema.FieldOpen field → other.mode = .skipped)
    (hs : s.reader = ⟨n :: outer⟩) (hn : n.Valid) :
    (Slot.inOrder (declared.map fun field =>
      Loading.fillField (if field.mode = .flattened then flat else deep) field)).Assures ⟨s, priors⟩
        fun _ slot => ∃ m, slot.state.reader = ⟨m :: outer⟩ ∧ env.FieldsReturn declared n slot.value m := by
  induction declared generalizing priors s n with
  | nil => exact Slot.inOrder_nil_assures ⟨n, hs, .nil hn _⟩
  | cons field declared ih =>
    cases priors with
    | nil => cases length
    | cons prior priors =>
      obtain ⟨hfield, hothers⟩ := List.forall_mem_cons.1 h
      obtain ⟨hnames, names⟩ := List.pairwise_cons.1 names
      obtain ⟨hlast, last⟩ := List.pairwise_cons.1 last
      refine Slot.inOrder_cons_assures
        (fun v t => ∃ m, t.reader = ⟨m :: outer⟩ ∧ env.FieldReturns field n v m)
        (fun vs t => ∃ m, t.reader = ⟨m :: outer⟩ ∧ env.FieldsReturn (field :: declared) n vs m)
        (fillField_assures hfield hs hn) fun v t ht => ?_
      obtain ⟨n', ht, hfirst⟩ := ht
      refine (ih (by simpa using length) hothers names last ht hfirst.valid).mono fun _ slot hslot => ?_
      obtain ⟨m, hm, hrest⟩ := hslot
      exact ⟨m, hm, hfirst.cons hrest hnames fun hopen other hother => hlast other hother hopen⟩

end Filling

section Composite

variable {loading : Loading} {name : String} {deep flat : Ty → Attempt (Slot Value) Unit}

theorem FieldsReturn.record {vs : List Value} (h : env.FieldsReturn (env.schema.fieldsOf name) n vs m) :
    env.Returns (.record name) n (.record name vs) m where
  valid := h.valid
  left other hother := by
    obtain ⟨hmem, hfields⟩ := h.left other hother
    refine ⟨hmem, fun hname => ?_⟩
    obtain ⟨field, hf, hname⟩ := Schema.nodeName_record.1 hname
    exact hfields field hf hname
  written hfinite := by
    rw [Value.SinglesFinite, Value.singles] at hfinite
    obtain ⟨b, fields, hb, hfields, hnames⟩ := h.written hfinite
    refine ⟨b, by rw [written_record, hb], fun _ => ⟨fields, hfields, fun other hother => ?_⟩⟩
    obtain ⟨field, hf, hfield | ⟨hopen, hmem⟩⟩ := hnames other hother
    · exact .inl (Schema.nodeName_record.2 ⟨field, hf, hfield⟩)
    · exact .inr ⟨Schema.open_record.2 ⟨field, hf, hopen⟩, hmem⟩

theorem AdmitsInto.record (hS : loading.schema = env.schema)
    (admits : ∀ field ∈ env.schema.fieldsOf name, field.mode ≠ .skipped →
      env.AdmitsInto field.type ((if field.mode = .flattened then flat else deep) field.type))
    (flattens : ∀ field ∈ env.schema.fieldsOf name, field.mode = .flattened → field.type.canFlatten = true)
    (names : (env.schema.fieldsOf name).Pairwise fun field other =>
      ∀ name, env.schema.FieldName field name → ¬ env.schema.FieldName other name)
    (last : (env.schema.fieldsOf name).Pairwise fun field other =>
      env.schema.FieldOpen field → other.mode = .skipped) :
    env.AdmitsInto (.record name) (loading.fillRecord name deep flat) := by
  intro s n outer prior hs hn hp
  cases hp with
  | replaced hr => cases hr
  | @record _ priors length fields kept =>
    refine Slot.within_assures (fun v t => ∃ m, t.reader = ⟨m :: outer⟩ ∧ env.Returns _ n v m) ?_
    rw [hS]
    refine (fillFields_assures length (fun x hx => ?_) names last hs hn).mono fun _ slot hslot => ?_
    · have hfield := (List.of_mem_zip hx).1
      exact ⟨admits x.1 hfield, flattens x.1 hfield, fields x hx, kept x hx⟩
    · exact hslot.imp fun m hr => ⟨hr.1, hr.2.record⟩

theorem Returns.ref {type : Ty} {kind : RefKind} {target : Target} (h : env.Returns type n v m)
    (ht : target.ty? = some type) (hp : env.schema.isPolymorphic target = false) :
    env.Returns (.ref kind target) n (.ref target v) m where
  valid := h.valid
  left name hname := by
    refine ⟨(h.left name hname).1, fun hnode => (h.left name hname).2 ?_⟩
    cases hnode with
    | ref ht' hnode =>
      cases ht'.symm.trans ht
      exact hnode
  written hfinite := by
    rw [Value.singlesFinite_ref _ hp] at hfinite
    obtain ⟨b, hb, hjoins⟩ := h.written hfinite
    refine ⟨b, by rw [written_ref, writtenBehind, if_neg (by simp [hp]), hb], fun hc => ?_⟩
    have hc : type.canFlatten = true := by
      cases target with
      | record name => cases ht; rfl
      | atom type => cases hc
      | base name => cases ht
    obtain ⟨fields, hfields, hnames⟩ := hjoins hc
    exact ⟨fields, hfields, fun name hname => (hnames name hname).imp (.ref ht) (And.imp_left (.ref ht))⟩

theorem Admits.ref (hS : loading.schema = env.schema) {kind : RefKind} {target : Target}
    {new lighter : Ty → Attempt ReadState Value} (hp : env.schema.isPolymorphic target = false)
    (h : ∀ type, target.ty? = some type → env.Admits type (new type)) :
    env.Admits (.ref kind target) (loading.readRef kind target lighter new) := by
  intro s n outer hs hn
  unfold Loading.readRef Loading.readPlain
  rw [hS, if_neg (by simp [hp])]
  split
  · rename_i type ht
    refine (h type ht hs hn).bind fun v t hv => ?_
    obtain ⟨m, hm, hr⟩ := hv
    exact .pure ⟨m, hm, hr.ref ht hp⟩
  · intro v t h
    cases h

end Composite

end Archivist.Saving
