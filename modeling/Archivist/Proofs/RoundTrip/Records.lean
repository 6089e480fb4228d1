import Archivist.Proofs.RoundTrip.Depth
import Archivist.Proofs.RoundTrip.Maps

/-!
Records and references are read back. Each field takes what it has written out of the node of the
record, flattened or not, and leaves what the others have written.
-/

set_option autoImplicit false

namespace Archivist

theorem Leaves.weight_le {b : Writer.Node} {n n' : Reader.Node} {fields left : Fields} (h : Leaves b n n')
    (hb : b.fields? = some fields) (hn : n.fields? = some left) : n'.weight ≤ n.weight := by
  rw [Reader.Node.weight_of_fields? hn, Reader.Node.weight_of_fields? (h hb hn)]
  exact Nat.succ_le_succ (Fields.weight_without left fields)

theorem Leaves.field {name : String} {c : Writer.Node} {n : Reader.Node} {left : Fields}
    (hn : n.fields? = some left) :
    Leaves (.field name c) n (.object (left.without [(name, c.close)])) := by
  intro fields left' hb hn'
  cases hb
  cases hn.symm.trans hn'
  rfl

namespace Saving

variable {env : Saving}

theorem writtenFields_of_skipped {declared : List Field} {vs : List Value}
    (h : ∀ x ∈ declared.zip vs, x.1.mode = .skipped) :
    env.writtenFields declared vs = some .pending := by
  induction vs generalizing declared with
  | nil => exact env.writtenFields_nil declared
  | cons v vs ih =>
    cases declared with
    | nil => rfl
    | cons field declared =>
      have hm : field.mode = .skipped := h (field, v) (by simp)
      simp [writtenField, Writer.Node.asField, hm, ih fun x hx => h x (List.mem_cons_of_mem _ hx)]

end Saving

theorem fields?_of_tagged {tag : String} {b c : Writer.Node} (h : (Saving.tagNode tag).merge c = some b) :
    ∃ fields, b.fields? = some fields := by
  obtain ⟨h', -⟩ | ⟨rfl, rfl⟩ | ⟨fs, gs, -, -, rfl, -⟩ := Writer.Node.merge_cases h
  · cases h'
  · exact ⟨_, rfl⟩
  · exact ⟨_, rfl⟩

namespace Exchange

open Attempt ReadState Loading Saving

variable {E : Exchange} {unknownTypes : UnknownTypes} {weight : Nat} {prior v : Value} {b c : Writer.Node}
  {s : ReadState} {n : Reader.Node} {outer : List Reader.Node} {fields : Fields} {name : String}

section Fields

variable {deep flat : Ty → Attempt (Slot Value) Unit} {field : Field}

/-- A field that is loaded back: as it was if it is skipped, from the node of the record if it is
flattened, and from a node of its own otherwise. -/
def Restores (E : Exchange) (unknownTypes : UnknownTypes) (weight : Nat)
    (deep flat : Ty → Attempt (Slot Value) Unit) (field : Field) (prior v : Value) : Prop :=
  match field.mode with
  | .skipped => v = prior
  | .flattened => ∀ ⦃c⦄, (E.saving unknownTypes).written v = some c →
    E.Fills (weight + 1) prior v c (flat field.type)
  | .required | .optional => ∀ ⦃c⦄, (E.saving unknownTypes).written v = some c →
    E.Refills weight prior v c.close (deep field.type)

theorem At.enterOptional {d : Json} (hs : E.At s n outer) (hn : n.fields? = some fields)
    (hd : fields.names.Nodup) (hm : (name, d) ∈ fields) :
    (Loading.enterOptional name).Ends s fun a t =>
      a = true ∧ E.At t (.value d) (.object (fields.without [(name, d)]) :: outer) := by
  obtain ⟨⟨⟩, t, ht, hat⟩ := hs.startField hn hd hm
  exact ⟨true, t, by simp [Loading.enterOptional, ht], rfl, hat⟩

theorem Refills.leave {x : Attempt (Slot Value) Unit} (h : E.Refills weight prior v c.close x)
    (hw : c.close.weight < weight) {left : Fields} (hn : n.fields? = some left)
    (hs : E.At s (.value c.close) (.object (left.without [(name, c.close)]) :: outer)) :
    Ends (x >>= fun _ => Slot.lift (ReadState.onReader Reader.finishNode)) ⟨s, prior⟩ fun _ slot =>
      E.Got v (.field name c) n outer slot.value slot.state := by
  refine (h hw hs).bind fun _ slot hslot => ?_
  obtain ⟨hsame, m, hm⟩ := hslot
  refine (Slot.lift_ends hm.finish).mono fun _ slot' hslot => ?_
  exact ⟨hslot.1 ▸ hsame, _, hslot.2, .field hn⟩

theorem fillField_ends (h : E.Restores unknownTypes weight deep flat field prior v)
    (hc : (E.saving unknownTypes).writtenField field v = some c) (hs : E.At s n outer)
    (hw : n.weight < weight + 1)
    (ho : Offers (field.mode = .flattened && v.isOpen E.schema) c n) :
    (fillField (if field.mode = .flattened then flat else deep) field).Ends ⟨s, prior⟩ fun _ slot =>
      E.Got v c n outer slot.value slot.state := by
  cases hm : field.mode with
  | skipped =>
    simp only [Restores, writtenField, Writer.Node.asField, hm] at h hc
    cases h
    cases hc
    simp only [fillField, hm]
    exact .pure ⟨.refl _, n, hs, .pending n⟩
  | flattened =>
    simp only [Restores, writtenField, Writer.Node.asField, hm] at h hc
    simp only [fillField, hm, ↓reduceIte]
    exact h hc hs hw (by simpa [hm] using ho)
  | required =>
    simp only [Restores, writtenField, Writer.Node.asField, hm] at h hc
    obtain ⟨c, hv, rfl⟩ := Option.map_eq_some_iff.1 hc
    obtain ⟨left, hn, hd, hmem⟩ := ho.field_inv
    simp only [fillField, hm, reduceCtorEq, ↓reduceIte]
    refine (Slot.lift_ends (hs.startField hn hd hmem)).bind fun _ slot hslot => ?_
    obtain ⟨t, prior⟩ := slot
    obtain ⟨rfl, ht⟩ := hslot
    exact (h hv).leave (weight_field hn hmem hw) hn ht
  | optional =>
    simp only [Restores, writtenField, Writer.Node.asField, hm] at h hc
    obtain ⟨c, hv, rfl⟩ := Option.map_eq_some_iff.1 hc
    obtain ⟨left, hn, hd, hmem⟩ := ho.field_inv
    simp only [fillField, hm, reduceCtorEq, ↓reduceIte]
    refine (Slot.lift_ends (hs.enterOptional hn hd hmem)).bind fun _ slot hslot => ?_
    obtain ⟨t, prior⟩ := slot
    obtain ⟨rfl, rfl, ht⟩ := hslot
    exact (h hv).leave (weight_field hn hmem hw) hn ht

theorem fillFields_ends {declared : List Field} {priors vs : List Value}
    (hp : priors.length = declared.length) (hv : vs.length = declared.length)
    (h : ∀ x ∈ declared.zip (priors.zip vs), E.Restores unknownTypes weight deep flat x.1 x.2.1 x.2.2)
    (last : (declared.zip vs).Pairwise fun x y =>
      x.1.mode = .flattened → x.2.isOpen E.schema = true → y.1.mode = .skipped)
    (hb : (E.saving unknownTypes).writtenFields declared vs = some b) (hf : b.fields? = some fields)
    (hs : E.At s n outer) (hw : n.weight < weight + 1)
    (ho : Offers (Value.isOpenAmong E.schema declared vs) b n) :
    (Slot.inOrder (declared.map fun field =>
      fillField (if field.mode = .flattened then flat else deep) field)).Ends ⟨s, priors⟩ fun _ slot =>
        List.Forall₂ Value.Same vs slot.value ∧ ∃ n', E.At slot.state n' outer ∧ Leaves b n n' := by
  induction declared generalizing priors vs b fields s n with
  | nil =>
    cases List.length_eq_zero_iff.1 hp
    cases List.length_eq_zero_iff.1 hv
    cases hb
    exact Slot.inOrder_nil_ends (fun ws t => List.Forall₂ Value.Same [] ws ∧
      ∃ n', E.At t n' outer ∧ Leaves .pending n n') ⟨.nil, n, hs, .pending n⟩
  | cons field declared ih =>
    obtain ⟨prior, priors, rfl⟩ := List.exists_cons_of_length_eq_add_one hp
    obtain ⟨v, vs, rfl⟩ := List.exists_cons_of_length_eq_add_one hv
    simp only [writtenFields_cons, Option.bind_eq_some_iff] at hb
    obtain ⟨c, hc, r, hr, hm⟩ := hb
    obtain ⟨fs, gs, hcf, hrf, -, -⟩ := Writer.Node.fields?_merge hm hf
    obtain ⟨left, hn, -⟩ := ho.fields_inv hf
    obtain ⟨hskip, last⟩ := List.pairwise_cons.1 last
    -- if this field takes all that is left, then the others are skipped and have written nothing
    have hfirst : Offers (field.mode = .flattened && v.isOpen E.schema) c n := by
      refine ho.first hm hf fun hopen => ⟨by simp [Value.isOpenAmong, hopen], ?_⟩
      simp only [Bool.and_eq_true, decide_eq_true_eq] at hopen
      have hpending : (E.saving unknownTypes).writtenFields declared vs = some .pending :=
        writtenFields_of_skipped fun x hx => hskip x hx hopen.1 hopen.2
      exact Option.some.inj (hr.symm.trans hpending)
    refine Slot.inOrder_cons_ends (E.Got v c n outer) (fun ws t => List.Forall₂ Value.Same (v :: vs) ws ∧
      ∃ n', E.At t n' outer ∧ Leaves b n n') ?_ ?_
    · exact fillField_ends (h _ List.mem_cons_self) hc hs hw hfirst
    · rintro w t ⟨hsame, n', ht, hl⟩
      have hsecond : Offers (Value.isOpenAmong E.schema declared vs) r n' :=
        ho.second hm hf hl fun hopen => by simp [Value.isOpenAmong, hopen]
      have hw' : n'.weight < weight + 1 := Nat.lt_of_le_of_lt (hl.weight_le hcf hn) hw
      refine (ih (Nat.succ.inj hp) (Nat.succ.inj hv) (fun x hx => h x (List.mem_cons_of_mem _ hx)) last hr
        hrf ht hw' hsecond).mono fun _ slot hslot => ?_
      obtain ⟨hrest, n'', hn'', hl'⟩ := hslot
      exact ⟨.cons hsame hrest, n'', hn'', .merge hm hl hl'⟩

theorem Fills.record {priors vs : List Value} (hp : priors.length = (E.schema.fieldsOf name).length)
    (hv : vs.length = (E.schema.fieldsOf name).length)
    (h : ∀ x ∈ (E.schema.fieldsOf name).zip (priors.zip vs),
      E.Restores unknownTypes weight deep flat x.1 x.2.1 x.2.2)
    (last : ((E.schema.fieldsOf name).zip vs).Pairwise fun x y =>
      x.1.mode = .flattened → x.2.isOpen E.schema = true → y.1.mode = .skipped)
    (hb : (E.saving unknownTypes).written (.record name vs) = some b) (hf : b.fields? = some fields) :
    E.Fills (weight + 1) (.record name priors) (.record name vs) b
      (E.loading.fillRecord name deep flat) := by
  intro s n outer hs hw ho
  rw [Value.isOpen] at ho
  rw [written_record] at hb
  refine Slot.within_ends rfl ((fillFields_ends hp hv h last hb hf hs hw ho).mono fun _ slot hslot => ?_)
  exact ⟨.record hslot.1, hslot.2⟩

end Fields

section References

variable {x : Attempt ReadState Value} {target : Target} {kind : RefKind} {tag : String}
  {load : Ty → Attempt ReadState Value}

theorem Reads.plain (h : E.Reads weight v b x) (target : Target) :
    E.Reads weight (.ref target v) b do return .ref target (← x) := by
  intro s n outer hs hw ho
  rw [Value.isOpen] at ho
  exact (h hs hw ho).bind fun _ _ hg => .pure ⟨.ref hg.1, hg.2⟩

theorem At.readTag {all : Bool} (hs : E.At s n outer) (ho : Offers all (tagNode tag) n) :
    Loading.readTag.Ends s fun a t => a = tag ∧ t.registry = s.registry ∧
      ∃ n', E.At t n' outer ∧ Leaves (tagNode tag) n n' ∧ n'.weight < n.weight := by
  obtain ⟨left, hn, hd, hmem⟩ := ho.field_inv
  have ht := Fields.take?_of_mem hd hmem (.string tag)
  refine ⟨tag, _, readTag_of_take? hs.1 hn ht, rfl, rfl, _, ⟨rfl, hs.2⟩, .field hn, ?_⟩
  have := Fields.weight_take? ht
  rw [Reader.Node.weight_of_fields? hn, Reader.Node.weight_object]
  omega

/-- Once a target is warmed up, the tag stands for the record. -/
def Warmed (E : Exchange) (target : Target) (tag name : String) : Prop :=
  ∀ ⦃s n outer⦄, E.At s n outer → (E.loading.warmUp target).Ends s fun _ t =>
    E.At t n outer ∧ t.registry.input? E.reader tag = some (.record name)

theorem At.resolve {all : Bool} (hs : E.At s n outer) (ho : Offers all (tagNode tag) n)
    (warm : E.Warmed target tag name) :
    (E.loading.resolve target).Ends s fun a t => a = (tag, .record name, .record name) ∧
      ∃ n', E.At t n' outer ∧ Leaves (tagNode tag) n n' ∧ n'.weight < n.weight := by
  refine (warm hs).bind fun _ t ht => ?_
  obtain ⟨ht, hi⟩ := ht
  refine (ht.readTag ho).bind fun _ u hu => ?_
  obtain ⟨rfl, hr, hu⟩ := hu
  rw [← hr] at hi
  have hb : E.loading.bound? u.registry _ = some (.record name, .record name) :=
    Option.bind_eq_some_iff.2 ⟨_, hi, rfl⟩
  exact ⟨_, u, by simp only [withRegistry, hb]; rfl, rfl, hu⟩

theorem Reads.tagged (h : E.Reads weight v c (load (.record name)))
    (hm : (tagNode tag).merge c = some b) (warm : E.Warmed target tag name)
    (passes : ∀ ⦃r⦄, E.Ready r → E.loading.accepts r kind target (.record name) = true) :
    E.Reads (weight + 1) (.ref target v) b (E.loading.readTagged kind target load) := by
  intro s n outer hs hw ho
  rw [Value.isOpen] at ho
  obtain ⟨fields, hf⟩ := fields?_of_tagged hm
  have hfirst : Offers false (tagNode tag) n := ho.first hm hf (by simp)
  refine (hs.resolve hfirst warm).bind fun _ t ht => ?_
  obtain ⟨rfl, n', ht, hl, hlt⟩ := ht
  -- without its tag the node is lighter, so the loader for lighter nodes reads the rest of it
  refine (h ht (by omega) (ho.second hm hf hl id)).bind fun w u hu => ?_
  obtain ⟨hsame, n'', hu, hl'⟩ := hu
  exact ⟨.ref target w, u, by simp only [withRegistry, passes hu.2]; rfl, .ref hsame, n'', hu, .merge hm hl hl'⟩

theorem warmed_record (hi : (E.schema.identity (.record name)).isTagged = true) (hr : name ∈ E.reach) :
    E.Warmed (.record name) (E.schema.tag (.record name)) name := by
  intro s n outer hs
  obtain ⟨hready, hinput⟩ := hs.2.ensureInput hr E.reader
  have hw : E.loading.warmUp (.record name) =
      change (·.ensureInput (E.schema.info (.record name)) E.reader) := if_pos hi
  exact ⟨(), _, congrFun hw s, ⟨hs.1, hready⟩, hinput⟩

theorem Serves.warmed {base : String} (h : E.Serves base name) :
    E.Warmed (.base base) (E.schema.tag (.record name)) name :=
  fun s _ _ hs => ⟨(), s, rfl, hs, hs.2.grown.input h.input⟩

theorem accepts_record (hi : (E.schema.identity (.record name)).isTagged = true) (r : Registry) :
    E.loading.accepts r kind (.record name) (.record name) = true := by
  have hk : E.loading.schema.keeps (.record name) (.record name) = true :=
    (keeps_iff (isPolymorphic_of_tagged hi) name).2 rfl
  simp [accepts, hk]

theorem Serves.accepts {base : String} (h : E.Serves base name) {r : Registry} (hr : E.Ready r) :
    E.loading.accepts r kind (.base base) (.record name) = true := by
  simp only [Loading.accepts, hr.grown.upcaster h.related]
  cases kind <;> simp [Upcaster.passes, Upcaster.of]

end References

end Exchange

end Archivist
