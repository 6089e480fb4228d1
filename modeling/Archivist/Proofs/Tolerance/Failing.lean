import Archivist.Proofs.Loading.Descent
import Archivist.Proofs.Tolerance.Loads

/-!
A load that comes to an optional field which is there and cannot be loaded. The fields before it leave it where
it is, and within the node of the record the steps suffice, since no record is flattened into itself.
-/

set_option autoImplicit false

namespace Archivist

theorem exists_zip_of_mem {α β : Type} {as : List α} {bs : List β} (h : bs.length = as.length) {a : α}
    (ha : a ∈ as) : ∃ b, (a, b) ∈ as.zip bs := by
  obtain ⟨i, hi, rfl⟩ := List.getElem_of_mem ha
  have hb : i < bs.length := h ▸ hi
  exact ⟨bs[i], List.mem_iff_getElem.2 ⟨i, by simp [hi, hb], by simp⟩⟩

namespace Schema

variable (S : Schema)

/-- `S.Inner inner outer`: the first record is flattened into the second one. -/
def Inner (inner outer : String) : Prop :=
  ∃ field ∈ S.fieldsOf outer, field.mode = .flattened ∧ field.type = .record inner

variable {S}

/-- No value holds itself, so the records that are flattened into each other come to an end. -/
theorem Shaped.acc {name : String} {v : Value} (h : S.Shaped (.record name) v) : Acc S.Inner name := by
  generalize ht : Ty.record name = type at h
  induction h generalizing name with
  | replaced hr =>
    subst ht
    cases hr
  | array => cases ht
  | record hlength _ ih =>
    cases ht
    refine .intro _ fun inner ⟨field, hf, hm, htype⟩ => ?_
    obtain ⟨w, hx⟩ := exists_zip_of_mem hlength hf
    exact ih _ hx (by simp [hm]) htype.symm

theorem Shaped.irrefl {name : String} {v : Value} (h : S.Shaped (.record name) v) :
    ¬ Relation.TransGen S.Inner name name := by
  have hacc := h.acc.transGen
  clear h
  induction hacc with
  | intro name _ ih => exact fun hself => ih name hself hself

theorem two_mul_length_le_cost (visited : List Record) : 2 * visited.length ≤ (visited.map Record.cost).sum := by
  induction visited with
  | nil => simp
  | cons record visited ih =>
    have : 2 ≤ record.cost := Nat.le_add_left ..
    simp only [List.length_cons, List.map_cons, List.sum_cons]
    omega

variable (S) in
/-- `S.Trail name visited steps`: what a load has gone through within one node when it comes to the record. All
records above are declared and different, and some steps are left. -/
structure Trail (name : String) (visited : List Record) (steps : Nat) : Prop where
  nodup : (visited.map Record.name).Nodup
  declared : visited ⊆ S.records
  above : ∀ record ∈ visited, Relation.TransGen S.Inner name record.name
  left : steps + visited.length = 2 * S.span + 1

namespace Trail

variable {name : String} {visited : List Record} {steps : Nat} {v : Value}

theorem start (name : String) : S.Trail name [] (2 * S.span + 1) :=
  ⟨List.nodup_nil, List.nil_subset _, nofun, rfl⟩

theorem nodup_cons (h : S.Trail name visited steps) (hshape : S.Shaped (.record name) v) {record : Record}
    (hname : record.name = name) : ((record :: visited).map Record.name).Nodup := by
  refine List.nodup_cons.2 ⟨fun hmem => ?_, h.nodup⟩
  obtain ⟨other, ho, heq⟩ := List.mem_map.1 hmem
  exact hshape.irrefl ((heq.trans hname) ▸ h.above other ho)

theorem height_add_span_le (h : S.Trail name visited steps) (hshape : S.Shaped (.record name) v) {field : Field}
    (hf : field ∈ S.fieldsOf name) : field.type.height + S.span ≤ steps := by
  obtain ⟨record, hr, hname, hfield⟩ := exists_declared hf
  have hcost := cost_le_span (h.nodup_cons hshape hname) (List.cons_subset.2 ⟨hr, h.declared⟩)
  have hheight := Record.height_le_cost hfield
  have hlength := two_mul_length_le_cost visited
  have hleft := h.left
  simp only [List.map_cons, List.sum_cons] at hcost
  omega

theorem inner (h : S.Trail name visited (steps + 1)) (hshape : S.Shaped (.record name) v) {inner : String}
    (hinner : S.Inner inner name) : ∃ record, S.Trail inner (record :: visited) steps := by
  obtain ⟨field, hf, -⟩ := id hinner
  obtain ⟨record, hr, hname, -⟩ := exists_declared hf
  refine ⟨record, h.nodup_cons hshape hname, List.cons_subset.2 ⟨hr, h.declared⟩, fun other ho => ?_, ?_⟩
  · rcases List.mem_cons.1 ho with rfl | ho
    · exact .single (hname ▸ hinner)
    · exact .head hinner (h.above other ho)
  · rw [List.length_cons, ← h.left]
    omega

end Trail

end Schema

namespace Loading

open ReadState Reader Registry

variable (env : Loading)

/-- `env.ComesTo name (n, r) prior field value`: loading the record from the node comes to one of its optional
fields, or of a record that is flattened into it. All fields before it are loaded. -/
inductive ComesTo : String → Node × Registry → Value → Field → Value → Prop where
  | own {name : String} {start stop : Node × Registry} {before : List (Field × Value)} {vs later : List Value}
    {field : Field} {after : List Field} {value : Value}
    (hf : env.schema.fieldsOf name = before.map Prod.fst ++ field :: after) (hm : field.mode = .optional)
    (loaded : InTurn env.FieldLoaded start before vs stop) :
    ComesTo name start (.record name (before.map Prod.snd ++ value :: later)) field value
  | inside {name inner : String} {start stop : Node × Registry} {before : List (Field × Value)}
    {vs later : List Value} {field target : Field} {after : List Field} {prior value : Value}
    (hf : env.schema.fieldsOf name = before.map Prod.fst ++ field :: after) (hm : field.mode = .flattened)
    (ht : field.type = .record inner) (loaded : InTurn env.FieldLoaded start before vs stop)
    (h : ComesTo inner stop prior target value) :
    ComesTo name start (.record name (before.map Prod.snd ++ prior :: later)) target value

variable {env}

theorem ComesTo.hasOptional {name : String} {start : Node × Registry} {prior value : Value} {field : Field}
    (h : env.ComesTo name start prior field value) : env.schema.HasOptional (.record name) field.name := by
  induction h with
  | own hf hm => exact .own (by simp [hf]) hm
  | inside hf hm ht _ _ ih => exact .inside (by simp [hf]) hm (ht ▸ ih)

variable (env) in
def fillWithin (weight steps : Nat) (field : Field) : Attempt (Slot Value) Unit :=
  fillField (if field.mode = .flattened then env.intoWithin (env.loader weight) steps else (env.loader weight).into)
    field

theorem fillWithin_flattened {field : Field} (hm : field.mode = .flattened) (weight steps : Nat) :
    env.fillWithin weight steps field = env.intoWithin (env.loader weight) steps field.type := by
  simp only [fillWithin, hm, ↓reduceIte, fillField]

theorem fillWithin_named {field : Field} (hm : field.mode ≠ .flattened) (weight steps : Nat) :
    env.fillWithin weight steps field = fillField (env.loader weight).into field := by
  simp only [fillWithin, hm, ↓reduceIte]

theorem intoWithin_record_fst {name : String} {weight steps : Nat} {s : ReadState} {priors : List Value} :
    (env.intoWithin (env.loader weight) (steps + 1) (.record name) ⟨s, .record name priors⟩).1 =
      (Slot.each s ((env.schema.fieldsOf name).map (env.fillWithin weight steps)) priors).1 := by
  rcases heach : Slot.each s ((env.schema.fieldsOf name).map (env.fillWithin weight steps)) priors with
    ⟨res, ⟨t, vs⟩⟩
  rw [intoWithin, fillRecord_of_each heach]

section Fields

variable {r r' : Registry} {n m : Node} {field : Field} {prior v : Value} {fields : Fields} {s : ReadState}

theorem FieldLoaded.fillField_eq (hS : env.schema.Initialised) (h : env.FieldLoaded (n, r) (field, prior) v (m, r'))
    {weight steps : Nat} (hs : s.reader = ⟨[n]⟩) (hr : s.registry = r) (hw : n.weight ≤ weight)
    (hn : n.fields? = some fields)
    (hflat : field.mode = .flattened →
      env.schema.Shaped field.type prior ∧ field.type.height + env.schema.span ≤ steps) :
    ∃ t, env.fillWithin weight steps field ⟨s, prior⟩ = (.ok (), ⟨t, v⟩) ∧ t.reader = ⟨[m]⟩ ∧ t.registry = r' := by
  subst hr
  have hweight : s.reader.weight = n.weight := by rw [hs]; rfl
  cases h with
  | skipped hm =>
    rw [fillWithin_named (by simp [hm])]
    simp only [fillField, hm]
    exact ⟨s, rfl, hs, rfl⟩
  | absent hm hn' ht =>
    rw [fillWithin_named (by simp [hm])]
    exact ⟨_, fillField_of_absent hm hs hn' ht prior, rfl, rfl⟩
  | @entered _ _ _ _ _ _ left d u hm hn' ht load =>
    have hflat : field.mode ≠ .flattened := by rcases hm with hm | hm <;> simp [hm]
    have henter : startField field.name s.reader = (.ok (), ⟨[.value d, .object left]⟩) := by
      rw [hs]
      exact startField_of_take? hn' ht
    have hlight : (⟨[.value d, .object left]⟩ : Reader).weight < weight := by
      have := (startField_enters henter).weight_lt
      omega
    rw [fillWithin_named hflat, fillField_of_take? hm hs hn' ht]
    obtain ⟨t, u', w, part, hload, halone, hreader, -, hreg⟩ | ⟨e, t, u', w, hload, halone⟩ :=
      env.load_cases field.type (s := { s with reader := ⟨[.value d, .object left]⟩ }) rfl prior
    · cases halone.symm.trans load
      rw [← env.loader_into_eq hlight] at hload
      exact ⟨_, around_of_ok henter hload hreader, rfl, hreg⟩
    · cases halone.symm.trans load
  | flattened hm load hu =>
    obtain ⟨hshape, hsteps⟩ := hflat hm
    rw [fillWithin_flattened hm]
    obtain ⟨t, u', w, part, hload, halone, hreader, hreader', hreg⟩ | ⟨e, t, u', w, hload, halone⟩ :=
      env.load_cases field.type hs prior
    · cases halone.symm.trans load
      cases hreader'.symm.trans hu
      have hlight : (⟨s, prior⟩ : Slot Value).state.reader.weight < weight + 1 := by
        change s.reader.weight < weight + 1
        omega
      rw [← env.loader_into_eq hlight] at hload
      exact ⟨t, intoWithin_of_ok hS (.of_fields? hs hn) hshape hsteps hload, hreader, hreg⟩
    · cases halone.symm.trans load

theorem local_fillWithin (weight steps : Nat) (field : Field) :
    Local (.slot Value) (env.fillWithin weight steps field) := by
  have hl := (Local.stepwise env.schema).loader env weight
  have hsteps := (Local.stepwise env.schema).within_steps env hl.1 hl.2 steps
  unfold fillWithin
  split
  · exact (Local.stepwise env.schema).fillField (fun type => (hsteps type).2) field
  · exact (Local.stepwise env.schema).fillField hl.2 field

theorem exists_pared (hn : n.fields? = some fields) (keys : List String) (r : Registry) :
    ∃ t, Pared keys r [] fields ⟨⟨[n]⟩, r, []⟩ t := by
  unfold Node.fields? at hn
  split at hn <;> cases hn
  · exact ⟨⟨⟨[.value (.object (fields.lacking keys))]⟩, r, []⟩,
      ⟨_, _, rfl, rfl, rfl, rfl, fun h => by rw [h]⟩, rfl, rfl⟩
  · exact ⟨⟨⟨[.object (fields.lacking keys)]⟩, r, []⟩, ⟨_, _, rfl, rfl, rfl, rfl, fun h => by rw [h]⟩, rfl, rfl⟩

variable {root : String} (hS : env.schema.Initialised) (hset : env.Settled r (.record root))
  (hdist : env.Distinct r root)

include hset

theorem registry_loadAt {type : Ty} (ht : env.Reaches r (.record root) type) {u : ReadState}
    (h : env.loadAt type n r prior = (.ok (), ⟨u, v⟩)) : u.registry = r := by
  have hstay := (hset.staying (Reader.weight ⟨[n]⟩ + 1) ht).2 ⟨⟨⟨[n]⟩, r, []⟩, prior⟩ rfl
  change (env.loadAt type n r prior).2.state.registry = r at hstay
  rwa [h] at hstay

include hS hdist

theorem FieldLoaded.keeps {name key : String} {c : Json} (hreach : env.Reaches r (.record root) (.record name))
    (hf : field ∈ env.schema.fieldsOf name) (h : env.FieldLoaded (n, r) (field, prior) v (m, r'))
    (hn : n.fields? = some fields) (hd : fields.names.Nodup) (hspares : env.FieldSpares r field key)
    (hshape : field.mode ≠ .skipped → env.schema.Shaped field.type prior) (hc : (key, c) ∈ fields) :
    r' = r ∧ ∃ left, m.fields? = some left ∧ left.Sublist fields ∧ (key, c) ∈ left := by
  have htype : field.mode ≠ .skipped → env.Reaches r (.record root) field.type :=
    fun hm => hreach.part (mem_parts_of_field hf hm)
  cases h with
  | skipped hm => exact ⟨rfl, fields, hn, .refl _, hc⟩
  | absent hm hn' ht =>
    cases hn.symm.trans hn'
    exact ⟨rfl, fields, rfl, .refl _, hc⟩
  | @entered _ _ _ _ _ _ left d u hm hn' ht load =>
    cases hn.symm.trans hn'
    have hloaded : field.mode ≠ .skipped := by rcases hm with hm | hm <;> simp [hm]
    refine ⟨registry_loadAt hset (htype hloaded) load, left, rfl, Fields.sublist_of_take? ht, ?_⟩
    refine Fields.mem_of_take? ht hc fun (heq : key = field.name) => hspares.2 ?_
    rw [heq]
    exact .own hm
  | flattened hm load hu =>
    have hloaded : field.mode ≠ .skipped := by simp [hm]
    have hfree : env.Free r [key] field.type := fun k hk ha =>
      hspares.2 (.flattened hm (List.mem_singleton.1 hk ▸ ha))
    obtain ⟨t, hpared⟩ := exists_pared hn [key] r
    obtain ⟨t', left, -, ⟨⟨n', m', hn', -, hleft, -⟩, -⟩, hleaves⟩ :=
      loadsPared_loader hS hset hdist (Reader.weight ⟨[n]⟩ + 1) (htype hloaded) (.inl hfree) hpared hd
        (fun hall => absurd ⟨hm, hall⟩ hspares.1) (hshape hloaded) load
    cases hn'.symm.trans hu
    refine ⟨registry_loadAt hset (htype hloaded) load, left, hleft, hleaves.sublist, ?_⟩
    exact hleaves.kept _ hc (List.mem_singleton.2 rfl)
      ⟨fun hall => hspares.1 ⟨hm, hall⟩, fun ha => hspares.2 (.flattened hm ha)⟩

/-- The fields before one that looks for a name are loaded in the run of the record, and leave what the node has of
that name. -/
theorem each_before {name key : String} {c : Json} (hreach : env.Reaches r (.record root) (.record name))
    {before : List (Field × Value)} {vs : List Value} {weight steps : Nat}
    (h : InTurn env.FieldLoaded (n, r) before vs (m, r')) (hs : s.reader = ⟨[n]⟩) (hr : s.registry = r)
    (hw : n.weight ≤ weight) (hn : n.fields? = some fields) (hd : fields.names.Nodup) (hc : (key, c) ∈ fields)
    (hf : ∀ x ∈ before, x.1 ∈ env.schema.fieldsOf name) (hspares : ∀ x ∈ before, env.FieldSpares r x.1 key)
    (hshape : ∀ x ∈ before, x.1.mode ≠ .skipped → env.schema.Shaped x.1.type x.2)
    (hsteps : ∀ x ∈ before, x.1.type.height + env.schema.span ≤ steps) :
    r' = r ∧ ∃ t left, t.reader = ⟨[m]⟩ ∧ t.registry = r ∧ m.weight ≤ weight ∧ m.fields? = some left ∧
      left.names.Nodup ∧ (key, c) ∈ left ∧ ∀ declared priors,
        (Slot.each s ((before.map Prod.fst ++ declared).map (env.fillWithin weight steps))
          (before.map Prod.snd ++ priors)).1 =
        (Slot.each t (declared.map (env.fillWithin weight steps)) priors).1 := by
  generalize hstart : (n, r) = start at h
  generalize hstop : (m, r') = stop at h
  induction h generalizing n s fields with
  | nil start =>
    cases hstart
    cases hstop
    exact ⟨rfl, s, fields, hs, hr, hw, hn, hd, hc, fun _ _ => rfl⟩
  | @cons _ next _ x v before vs first _ ih =>
    cases hstart
    obtain ⟨n', r₁⟩ := next
    obtain ⟨field, prior⟩ := x
    obtain ⟨hx, hf⟩ := List.forall_mem_cons.1 hf
    obtain ⟨hxs, hspares⟩ := List.forall_mem_cons.1 hspares
    obtain ⟨hxshape, hshape⟩ := List.forall_mem_cons.1 hshape
    obtain ⟨hxsteps, hsteps⟩ := List.forall_mem_cons.1 hsteps
    obtain ⟨rfl, left, hn', hsub, hc'⟩ := first.keeps hS hset hdist hreach hx hn hd hxs hxshape hc
    obtain ⟨t, hfirst, ht, htr⟩ := first.fillField_eq hS hs hr hw hn
      fun hm => ⟨hxshape (by simp [hm]), hxsteps⟩
    have hw' : n'.weight ≤ weight := by
      have hwithin : s.reader.Within t.reader := local_fillWithin weight steps field hfirst
      rw [hs, ht] at hwithin
      exact hwithin.weight_le.trans hw
    obtain ⟨rfl, t', left', ht', htr', hrest⟩ := ih ht htr hw' hn' (hd.sublist (hsub.map Prod.fst)) hc' hf hspares
      hshape hsteps rfl hstop
    refine ⟨rfl, t', left', ht', htr', hrest.1, hrest.2.1, hrest.2.2.1, hrest.2.2.2.1, fun declared priors => ?_⟩
    rw [← hrest.2.2.2.2 declared priors]
    simp only [List.map_cons, List.cons_append]
    rcases heach : Slot.each t ((before.map Prod.fst ++ declared).map (env.fillWithin weight steps))
      (before.map Prod.snd ++ priors) with ⟨res, slot⟩
    rw [Slot.each_cons_of_eq_ok hfirst heach]

end Fields

section Failures

variable {r : Registry} {root name : String} {field : Field} {value : Value} {fields : Fields} {s : ReadState}
  {c : Json} {e : Error} {weight : Nat}

theorem optional_fails {n : Node} {left : Fields} (hm : field.mode = .optional) (hs : s.reader = ⟨[n]⟩)
    (hw : n.weight ≤ weight) (hn : n.fields? = some fields) (ht : fields.take? field.name = some (c, left))
    (hchild : (env.loadAt field.type (.value c) s.registry value).1 = .error e) :
    ∃ slot, fillField (env.loader weight).into field ⟨s, value⟩ = (.error e, slot) := by
  have henter : startField field.name s.reader = (.ok (), ⟨[.value c, .object left]⟩) := by
    rw [hs]
    exact startField_of_take? hn ht
  have hlight : (⟨[.value c, .object left]⟩ : Reader).weight < weight := by
    have hlt := (startField_enters henter).weight_lt
    rw [hs] at hlt
    exact Nat.lt_of_lt_of_le hlt hw
  have hentered : Slot.lift (onReader (startField field.name)) ⟨s, value⟩ =
      (.ok (), ⟨{ s with reader := ⟨[.value c, .object left]⟩ }, value⟩) := Slot.lift_of_eq (onReader_of_eq henter)
  obtain ⟨t, u, w, m, -, halone, -⟩ | ⟨e', t, u, w, hload, halone⟩ :=
    env.load_cases field.type (s := { s with reader := ⟨[.value c, .object left]⟩ }) rfl value
  · rw [halone] at hchild
    cases hchild
  · rw [halone] at hchild
    cases hchild
    rw [← env.loader_into_eq hlight] at hload
    rw [fillField_of_take? (.inr hm) hs hn ht, Attempt.bind_of_eq_ok hentered, Attempt.bind_of_eq_error hload]
    exact ⟨_, rfl⟩

theorem forall_before {R : Field → Value → Prop} {before : List (Field × Value)} {after : List Field}
    {later : List Value}
    (h : List.Forall₂ R (before.map Prod.fst ++ field :: after) (before.map Prod.snd ++ value :: later)) :
    (∀ x ∈ before, R x.1 x.2) ∧ R field value := by
  induction before with
  | nil =>
    cases h with
    | cons hfirst _ => exact ⟨nofun, hfirst⟩
  | cons x before ih =>
    cases h with
    | cons hfirst hrest => exact ⟨List.forall_mem_cons.2 ⟨hfirst, (ih hrest).1⟩, (ih hrest).2⟩

theorem before_shaped {before : List (Field × Value)} {after : List Field} {later : List Value}
    (hf : env.schema.fieldsOf name = before.map Prod.fst ++ field :: after)
    (h : env.schema.Shaped (.record name) (.record name (before.map Prod.snd ++ value :: later))) :
    (∀ x ∈ before, x.1 ∈ env.schema.fieldsOf name) ∧
      (∀ x ∈ before, x.1.mode ≠ .skipped → env.schema.Shaped x.1.type x.2) ∧
      (field.mode ≠ .skipped → env.schema.Shaped field.type value) := by
  refine ⟨fun x hx => ?_, ?_⟩
  · rw [hf]
    exact List.mem_append_left _ (List.mem_map_of_mem hx)
  · obtain ⟨_, ⟨⟩, hall⟩ := h.exists_fields
    rw [hf] at hall
    exact forall_before hall

theorem Distinct.spares (hdist : env.Distinct r root) (hflat : env.schema.Flattens root name)
    {before : List (Field × Value)} {after : List Field} {key : String}
    (hf : env.schema.fieldsOf name = before.map Prod.fst ++ field :: after) (hm : field.mode ≠ .skipped)
    (ha : env.FieldAsks r field key) : ∀ x ∈ before, env.FieldSpares r x.1 key := by
  intro x hx
  have hnames := hdist.names hflat
  have hlast := hdist.last hflat
  rw [hf] at hnames hlast
  have hx' := List.mem_map_of_mem (f := Prod.fst) hx
  refine ⟨fun hall => ?_, fun hasks => ?_⟩
  · exact hm ((List.pairwise_append.1 hlast).2.2 x.1 hx' field List.mem_cons_self hall)
  · exact (List.pairwise_append.1 hnames).2.2 x.1 hx' field List.mem_cons_self key hasks ha

/-- When a load comes to an optional field that is there and cannot be loaded, it fails with the error of that
field. The records above are all different, so that enough steps are left for each of them. -/
theorem ComesTo.fails (hS : env.schema.Initialised) (hset : env.Settled r (.record root))
    (hdist : env.Distinct r root) {start : Node × Registry} {prior : Value}
    (h : env.ComesTo name start prior field value)
    (hflat : env.schema.Flattens root name) (hreach : env.Reaches r (.record root) (.record name))
    (hstart : start.2 = r) (hs : s.reader = ⟨[start.1]⟩) (hr : s.registry = r) (hw : start.1.weight ≤ weight)
    (hn : start.1.fields? = some fields) (hd : fields.names.Nodup) (hc : (field.name, c) ∈ fields)
    (hshape : env.schema.Shaped (.record name) prior)
    (hchild : (env.loadAt field.type (.value c) r value).1 = .error e)
    {visited : List Record} {steps : Nat} (htrail : env.schema.Trail name visited steps) :
    (env.intoWithin (env.loader weight) (steps + 1) (.record name) ⟨s, prior⟩).1 = .error e := by
  induction h generalizing s fields visited steps with
  | @own name start stop before vs later field after value hf hm loaded =>
    obtain ⟨n, r₀⟩ := start
    obtain ⟨m, r'⟩ := stop
    obtain rfl : r₀ = r := hstart
    have hasks : env.FieldAsks r₀ field field.name := .own (.inr hm)
    obtain ⟨hmem, hshapes, -⟩ := before_shaped hf hshape
    have hspares := hdist.spares hflat hf (by simp [hm]) hasks
    obtain ⟨-, t, left, ht, htr, hw', hleft, hdl, hcl, heach⟩ := each_before hS hset hdist hreach loaded hs hr hw hn
      hd hc hmem hspares hshapes fun x hx => htrail.height_add_span_le hshape (hmem x hx)
    have htake := Fields.take?_of_mem hdl hcl c
    obtain ⟨slot, hfails⟩ := optional_fails hm ht hw' hleft htake (by rw [htr]; exact hchild)
    rw [← fillWithin_named (by simp [hm]) weight steps] at hfails
    rw [intoWithin_record_fst, hf, heach, List.map_cons, Slot.each_cons_of_eq_error hfails]
  | @inside name inner start stop before vs later field target after prior value hf hm htype loaded h ih =>
    obtain ⟨n, r₀⟩ := start
    obtain ⟨m, r'⟩ := stop
    obtain rfl : r₀ = r := hstart
    have hfield : field ∈ env.schema.fieldsOf name := by simp [hf]
    have hasks : env.FieldAsks r₀ field target.name := .flattened hm (htype ▸ asks_of_hasOptional h.hasOptional)
    obtain ⟨hmem, hshapes, hinner⟩ := before_shaped hf hshape
    have hheight := htrail.height_add_span_le hshape hfield
    have hspares := hdist.spares hflat hf (by simp [hm]) hasks
    obtain ⟨rfl, t, left, ht, htr, hw', hleft, hdl, hcl, heach⟩ := each_before hS hset hdist hreach loaded hs hr hw hn
      hd hc hmem hspares hshapes fun x hx => htrail.height_add_span_le hshape (hmem x hx)
    obtain ⟨fewer, rfl⟩ : ∃ k, steps = k + 1 := ⟨steps - 1, by have := field.type.height_pos; omega⟩
    -- the record itself is one of those above from here on
    obtain ⟨record, htrail'⟩ := htrail.inner hshape ⟨field, hfield, hm, htype⟩
    have hreach' : env.Reaches r' (.record root) (.record inner) :=
      htype ▸ hreach.part (mem_parts_of_field hfield (by simp [hm]))
    have hfails := ih (hflat.field hfield hm htype) hreach' rfl ht htr hw' hleft hdl hcl
      (htype ▸ hinner (by simp [hm])) hchild htrail'
    rcases hload : env.intoWithin (env.loader weight) (fewer + 1) (.record inner) ⟨t, prior⟩ with ⟨res, slot⟩
    rw [hload] at hfails
    cases hfails
    rw [← htype, ← fillWithin_flattened hm] at hload
    rw [intoWithin_record_fst, hf, heach, List.map_cons, Slot.each_cons_of_eq_error hload]

end Failures

end Loading

end Archivist
