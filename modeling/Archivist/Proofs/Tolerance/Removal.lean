import Archivist.Proofs.Loading.Aftermath
import Archivist.Proofs.Loading.Remains
import Archivist.Proofs.Tolerance.Names

/-!
Loads side by side from an object and from what it is without some of its fields. If only optional fields
look for the names that are lacking, a load that succeeds on the whole object succeeds on the other one
too, and gives the same but for those fields.
-/

set_option autoImplicit false

namespace Archivist

namespace Loading

open ReadState Reader Registry

/-- The same object in two runs, but in the second one it lacks some names. -/
structure Pared (keys : List String) (r : Registry) (rest : List Node) (fields : Fields) (s t : ReadState) :
    Prop where
  nodes : ∃ n m, s.reader = ⟨n :: rest⟩ ∧ t.reader = ⟨m :: rest⟩ ∧ n.fields? = some fields ∧
    m.fields? = some (fields.lacking keys) ∧ (fields.lacking keys = fields → n = m)
  whole : s.registry = r
  pared : t.registry = r

/-- What a load has left of the fields of an object: none of the names in `gone` is left of those that the other
run lacks, and all that are in `kept`. -/
structure Leaves (keys : List String) (gone kept : String → Prop) (fields left : Fields) : Prop where
  sublist : left.Sublist fields
  gone : ∀ key ∈ keys, gone key → key ∉ left.names
  kept : ∀ field ∈ fields, field.1 ∈ keys → kept field.1 → field ∈ left

theorem Leaves.trans {keys : List String} {gone gone' gone'' kept kept' kept'' : String → Prop}
    {fields left left' : Fields} (h : Leaves keys gone kept fields left) (h' : Leaves keys gone' kept' left left')
    (hg : ∀ key, gone'' key → gone key ∨ gone' key) (hk : ∀ key, kept'' key → kept key ∧ kept' key) :
    Leaves keys gone'' kept'' fields left' where
  sublist := h'.sublist.trans h.sublist
  gone key hkey hgone hn := by
    obtain hfirst | hsecond := hg key hgone
    · exact h.gone key hkey hfirst ((h'.sublist.map Prod.fst).subset hn)
    · exact h'.gone key hkey hsecond hn
  kept field hf hkey hkept :=
    h'.kept field (h.kept field hf hkey (hk _ hkept).1) hkey (hk _ hkept).2

theorem Leaves.mono {keys : List String} {gone gone' kept kept' : String → Prop} {fields left : Fields}
    (h : Leaves keys gone kept fields left) (hg : ∀ key, gone' key → gone key) (hk : ∀ key, kept' key → kept key) :
    Leaves keys gone' kept' fields left :=
  ⟨h.sublist, fun key hkey hgone => h.gone key hkey (hg key hgone), fun x hx hkey hkept =>
    h.kept x hx hkey (hk _ hkept)⟩

section Named

variable {keys : List String} {r : Registry} {rest : List Node} {fields left : Fields} {s t : ReadState}
  {x : Attempt (Slot Value) Unit} {enter : Attempt Reader Unit} {d : Json} {prior v : Value}

theorem Pared.opened {s' t' : ReadState} (hs : s'.reader = ⟨.object left :: rest⟩)
    (ht : t'.reader = ⟨.object (left.lacking keys) :: rest⟩) (hsr : s'.registry = r) (htr : t'.registry = r) :
    Pared keys r rest left s' t' :=
  ⟨⟨_, _, hs, ht, rfl, rfl, fun hl => by rw [hl]⟩, hsr, htr⟩

theorem around_of_ok {n m : Node} {u : ReadState} (he : enter s.reader = (.ok (), ⟨.value d :: m :: rest⟩))
    (hload : x ⟨{ s with reader := ⟨.value d :: m :: rest⟩ }, prior⟩ = (.ok (), ⟨u, v⟩))
    (hu : u.reader = ⟨n :: m :: rest⟩) :
    (Slot.lift (onReader enter) >>= fun _ => x >>= fun _ => Slot.lift (onReader finishNode)) ⟨s, prior⟩ =
      (.ok (), ⟨{ u with reader := ⟨m :: rest⟩ }, v⟩) := by
  have henter : Slot.lift (onReader enter) ⟨s, prior⟩ =
      (.ok (), ⟨{ s with reader := ⟨.value d :: m :: rest⟩ }, prior⟩) := Slot.lift_of_eq (onReader_of_eq he)
  rw [Attempt.bind_of_eq_ok henter, Attempt.bind_of_eq_ok hload]
  exact Slot.lift_of_eq (onReader_of_eq (hu ▸ finishNode_cons))

theorem confined_ok {x : Attempt (Slot Value) Unit} (hx : ConfinedIn x) {n : Node} {rest rest' : List Node}
    {s t u : ReadState} {prior v : Value} (hs : s.reader = ⟨n :: rest⟩) (ht : t.reader = ⟨n :: rest'⟩)
    (hr : s.registry = t.registry) (h : x ⟨s, prior⟩ = (.ok (), ⟨u, v⟩)) :
    ∃ u' m, x ⟨t, prior⟩ = (.ok (), ⟨u', v⟩) ∧ u.reader = ⟨m :: rest⟩ ∧ u'.reader = ⟨m :: rest'⟩ ∧
      u.registry = u'.registry := by
  have hp : Slot.Related (Amid rest rest') Eq ⟨s, prior⟩ ⟨t, prior⟩ := ⟨⟨n, hs, ht, hr⟩, rfl⟩
  obtain ⟨_, _, p, q, hfirst, hsecond, -, ⟨m, hm, hm', hreg⟩, hv⟩ | ⟨e, _, p, q, hfirst, -⟩ :=
    (hx rest rest' hp).cases
  · cases hfirst.symm.trans h
    have hv : v = q.value := hv
    exact ⟨q.state, m, by rw [hv]; exact hsecond, hm, hm', hreg⟩
  · cases hfirst.symm.trans h

theorem around_eq_ok {m : Node} {s' : ReadState} (hx : ConfinedIn x)
    (he : enter s.reader = (.ok (), ⟨.value d :: m :: rest⟩))
    (hload : (Slot.lift (onReader enter) >>= fun _ => x >>= fun _ => Slot.lift (onReader finishNode)) ⟨s, prior⟩ =
      (.ok (), ⟨s', v⟩)) :
    ∃ u, x ⟨{ s with reader := ⟨.value d :: m :: rest⟩ }, prior⟩ = (.ok (), ⟨u, v⟩) ∧
      s' = { u with reader := ⟨m :: rest⟩ } := by
  have henter : Slot.lift (onReader enter) ⟨s, prior⟩ =
      (.ok (), ⟨{ s with reader := ⟨.value d :: m :: rest⟩ }, prior⟩) := Slot.lift_of_eq (onReader_of_eq he)
  rw [Attempt.bind_of_eq_ok henter] at hload
  obtain ⟨⟨⟩, ⟨u, w⟩, hxs, hleave⟩ := Attempt.bind_eq_ok hload
  obtain ⟨-, n, -, hu, -⟩ := confined_ok hx rfl rfl rfl hxs
  have hfinish : Slot.lift (onReader finishNode) ⟨u, w⟩ = (.ok (), ⟨{ u with reader := ⟨m :: rest⟩ }, w⟩) :=
    Slot.lift_of_eq (onReader_of_eq (hu ▸ finishNode_cons))
  cases hfinish.symm.trans hleave
  exact ⟨u, hxs, rfl⟩

theorem around_pared {name : String} {s' : ReadState} (hx : ConfinedIn x)
    (hstay : Advances (Staying r) (.slot Value) x) (hk : name ∉ keys) (h : Pared keys r rest fields s t)
    (htake : fields.take? name = some (d, left))
    (hload : (Slot.lift (onReader (startField name)) >>= fun _ => x >>= fun _ => Slot.lift (onReader finishNode))
      ⟨s, prior⟩ = (.ok (), ⟨s', v⟩)) :
    ∃ t', (Slot.lift (onReader (startField name)) >>= fun _ => x >>= fun _ => Slot.lift (onReader finishNode))
      ⟨t, prior⟩ = (.ok (), ⟨t', v⟩) ∧ Pared keys r rest left s' t' := by
  obtain ⟨⟨n, m, hs, ht, hn, hm, -⟩, hsr, htr⟩ := h
  have hes : startField name s.reader = _ := hs ▸ startField_of_take? hn htake
  have het : startField name t.reader = _ := ht ▸ startField_of_take? hm (Fields.take?_lacking hk htake)
  obtain ⟨u, hxs, rfl⟩ := around_eq_ok hx hes hload
  have hreg : s.registry = t.registry := hsr.trans htr.symm
  obtain ⟨u', part, hxt, -, hu', hreg⟩ := confined_ok hx rfl rfl
    (s := { s with reader := ⟨.value d :: .object left :: rest⟩ })
    (t := { t with reader := ⟨.value d :: .object (left.lacking keys) :: rest⟩ }) hreg hxs
  have hur := hstay ⟨{ s with reader := ⟨.value d :: .object left :: rest⟩ }, prior⟩ hsr
  rw [hxs] at hur
  have hur : u.registry = r := hur
  exact ⟨_, around_of_ok het hxt hu', .opened rfl rfl hur (hreg ▸ hur)⟩

end Named

section Tolerance

variable (env : Loading) (r : Registry) (keys : List String)

/-- A load that neither looks for the name nor takes whatever there is. -/
def Spares (type : Ty) (key : String) : Prop := ¬ env.TakesAll r type ∧ ¬ env.Asks r type key

def FieldSpares (field : Field) (key : String) : Prop := ¬ env.FieldTakesAll r field ∧ ¬ env.FieldAsks r field key

/-- A load that takes whatever there is finds none of the names but those that it has optional fields for. -/
def Room (type : Ty) (fields : Fields) : Prop :=
  env.TakesAll r type → ∀ key ∈ keys, key ∈ fields.names → env.schema.HasOptional type key

/-- New values of a type are read alike from both objects. -/
def ReadsPared (type : Ty) (x : Attempt ReadState Value) : Prop :=
  ∀ ⦃rest fields s t⦄, Pared keys r rest fields s t → fields.names.Nodup → env.Room r keys type fields →
    ∀ ⦃v s'⦄, x s = (.ok v, s') → ∃ t' left, x t = (.ok v, t') ∧ Pared keys r rest left s' t' ∧
      Leaves keys (env.schema.HasOptional type) (env.Spares r type) fields left

/-- Values are loaded in place alike from both objects, but for the optional fields of the names that the second
one lacks. -/
def LoadsPared (type : Ty) (x : Attempt (Slot Value) Unit) : Prop :=
  ∀ ⦃rest fields s t⦄, Pared keys r rest fields s t → fields.names.Nodup → env.Room r keys type fields →
    ∀ ⦃prior v s'⦄, env.schema.Shaped type prior → x ⟨s, prior⟩ = (.ok (), ⟨s', v⟩) →
      ∃ t' left, x ⟨t, prior⟩ = (.ok (), ⟨t', env.schema.resetAs keys type prior v⟩) ∧
        Pared keys r rest left s' t' ∧ Leaves keys (env.schema.HasOptional type) (env.Spares r type) fields left

variable {env r keys} {rest : List Node} {fields : Fields} {s t s' : ReadState} {prior v : Value} {field : Field}
  {load : Ty → Attempt (Slot Value) Unit}

theorem named_pared (hm : field.mode = .required ∨ field.mode = .optional) (hx : ConfinedIn (load field.type))
    (hstay : Advances (Staying r) (.slot Value) (load field.type))
    (hask : ∀ key ∈ keys, env.FieldAsks r field key → env.schema.FieldHasOptional field key)
    (h : Pared keys r rest fields s t) (hd : fields.names.Nodup)
    (hload : fillField load field ⟨s, prior⟩ = (.ok (), ⟨s', v⟩)) :
    ∃ t' left, fillField load field ⟨t, prior⟩ = (.ok (), ⟨t', env.schema.resetField keys field prior v⟩) ∧
      Pared keys r rest left s' t' ∧
      Leaves keys (env.schema.FieldHasOptional field) (env.FieldSpares r field) fields left := by
  obtain ⟨⟨n, m, hs, ht, hn, hm', -⟩, hsr, htr⟩ := id h
  have hname : ∀ {key}, env.schema.FieldHasOptional field key → key = field.name := by
    intro key hkey
    cases hkey with
    | own => rfl
    | inside hf => rcases hm with hm | hm <;> cases hm.symm.trans hf
  cases htake : fields.take? field.name with
  | none =>
    rcases hm with hreq | hopt
    · cases (fillField_of_missing hreq hs hn htake prior).symm.trans hload
    · cases (fillField_of_absent hopt hs hn htake prior).symm.trans hload
      have habsent : fillField load field ⟨t, prior⟩ = _ :=
        fillField_of_absent hopt ht hm' (Fields.take?_lacking_of_none htake) prior
      have hreset : env.schema.resetField keys field prior prior = prior := by simp [Schema.resetField, hopt]
      rw [hreset]
      refine ⟨_, fields, habsent, .opened rfl rfl hsr htr, .refl _, fun key _ hkey => ?_, fun _ hf _ _ => hf⟩
      exact hname hkey ▸ Fields.take?_eq_none.1 htake
  | some found =>
    obtain ⟨d, left⟩ := found
    have hleaves : Leaves keys (env.schema.FieldHasOptional field) (env.FieldSpares r field) fields left :=
      ⟨Fields.sublist_of_take? htake, fun key _ hkey => hname hkey ▸ Fields.not_mem_of_take? hd htake,
        fun x hf _ hspares => Fields.mem_of_take? htake hf fun heq => hspares.2 (heq ▸ .own hm)⟩
    rw [fillField_of_take? hm hs hn htake] at hload
    by_cases hk : field.name ∈ keys
    · -- the name is lacking, so the field is an optional one
      have hopt : field.mode = .optional := by
        cases hask field.name hk (.own hm) with
        | own hopt => exact hopt
        | inside hf => rcases hm with hm | hm <;> cases hm.symm.trans hf
      obtain ⟨u, hxs, rfl⟩ := around_eq_ok hx (hs ▸ startField_of_take? hn htake) hload
      have hur := hstay ⟨{ s with reader := ⟨.value d :: .object left :: rest⟩ }, prior⟩ hsr
      rw [hxs] at hur
      have habsent : fillField load field ⟨t, prior⟩ = _ :=
        fillField_of_absent hopt ht hm' (Fields.take?_lacking_of_mem hk) prior
      have hreset : env.schema.resetField keys field prior v = prior := by simp [Schema.resetField, hopt, hk]
      rw [hreset]
      exact ⟨_, left, habsent, .opened rfl (by rw [Fields.lacking_of_take? hk htake]) hur htr, hleaves⟩
    · obtain ⟨t', hloaded, hpared⟩ := around_pared hx hstay hk h htake hload
      refine ⟨t', left, ?_, hpared, hleaves⟩
      have hreset : env.schema.resetField keys field prior v = v := by
        rcases hm with hm | hm <;> simp [Schema.resetField, hm, hk]
      rw [hreset, fillField_of_take? hm ht hm' (Fields.take?_lacking hk htake)]
      exact hloaded

theorem fillField_pared
    (hnamed : field.mode = .required ∨ field.mode = .optional →
      ConfinedIn (load field.type) ∧ Advances (Staying r) (.slot Value) (load field.type))
    (hflat : field.mode = .flattened → env.LoadsPared r keys field.type (load field.type))
    (hask : ∀ key ∈ keys, env.FieldAsks r field key → env.schema.FieldHasOptional field key)
    (h : Pared keys r rest fields s t) (hd : fields.names.Nodup)
    (hroom : env.FieldTakesAll r field → ∀ key ∈ keys, key ∈ fields.names → env.schema.FieldHasOptional field key)
    (hshape : field.mode ≠ .skipped → env.schema.Shaped field.type prior)
    (hload : fillField load field ⟨s, prior⟩ = (.ok (), ⟨s', v⟩)) :
    ∃ t' left, fillField load field ⟨t, prior⟩ = (.ok (), ⟨t', env.schema.resetField keys field prior v⟩) ∧
      Pared keys r rest left s' t' ∧
      Leaves keys (env.schema.FieldHasOptional field) (env.FieldSpares r field) fields left := by
  cases hm : field.mode with
  | skipped =>
    simp only [fillField, hm, Attempt.pure_apply] at hload ⊢
    cases hload
    have hreset : env.schema.resetField keys field prior prior = prior := by simp [Schema.resetField, hm]
    refine ⟨t, fields, by rw [hreset], h, .refl _, fun key _ hkey => ?_, fun _ hf _ _ => hf⟩
    cases hkey with
    | own hm' => cases hm.symm.trans hm'
    | inside hm' => cases hm.symm.trans hm'
  | flattened =>
    simp only [fillField, hm] at hload ⊢
    have hinside : ∀ {key}, env.schema.FieldHasOptional field key → env.schema.HasOptional field.type key := by
      intro key hkey
      cases hkey with
      | own hm' => cases hm.symm.trans hm'
      | inside _ hkey => exact hkey
    obtain ⟨t', left, hloaded, hpared, hleaves⟩ := hflat hm h hd
      (fun hall key hkey hn => hinside (hroom ⟨hm, hall⟩ key hkey hn)) (hshape (by simp [hm])) hload
    have hreset : env.schema.resetField keys field prior v = env.schema.resetAs keys field.type prior v := by
      simp [Schema.resetField, hm]
    refine ⟨t', left, by rw [hreset, hloaded], hpared, hleaves.mono (fun key => hinside) fun key hkept => ?_⟩
    exact ⟨fun hall => hkept.1 ⟨hm, hall⟩, fun hasks => hkept.2 (.flattened hm hasks)⟩
  | required => exact named_pared (.inl hm) (hnamed (.inl hm)).1 (hnamed (.inl hm)).2 hask h hd hload
  | optional => exact named_pared (.inr hm) (hnamed (.inr hm)).1 (hnamed (.inr hm)).2 hask h hd hload

/-- What loading the fields of a record side by side takes: those with a node of their own are confined to it, the
flattened ones are loaded alike, and the names that are lacking are looked for by optional fields alone. -/
structure Tolerant (env : Loading) (r : Registry) (keys : List String) (deep flat : Ty → Attempt (Slot Value) Unit)
    (declared : List Field) : Prop where
  named : ∀ field ∈ declared, field.mode = .required ∨ field.mode = .optional →
    ConfinedIn (deep field.type) ∧ Advances (Staying r) (.slot Value) (deep field.type)
  flat : ∀ field ∈ declared, field.mode = .flattened → env.LoadsPared r keys field.type (flat field.type)
  asks : ∀ field ∈ declared, ∀ key ∈ keys, env.FieldAsks r field key → env.schema.FieldHasOptional field key
  last : declared.Pairwise fun f g => env.FieldTakesAll r f → ∀ key ∈ keys, ¬ env.schema.FieldHasOptional g key

theorem Tolerant.tail {deep flat : Ty → Attempt (Slot Value) Unit} {field : Field} {declared : List Field}
    (h : env.Tolerant r keys deep flat (field :: declared)) : env.Tolerant r keys deep flat declared where
  named f hf := h.named f (List.mem_cons_of_mem _ hf)
  flat f hf := h.flat f (List.mem_cons_of_mem _ hf)
  asks f hf := h.asks f (List.mem_cons_of_mem _ hf)
  last := h.last.of_cons

theorem each_pared {deep flat : Ty → Attempt (Slot Value) Unit} {declared : List Field}
    {priors vs : List Value} (htol : env.Tolerant r keys deep flat declared)
    (hshape : List.Forall₂ (fun f p => f.mode ≠ .skipped → env.schema.Shaped f.type p) declared priors)
    (h : Pared keys r rest fields s t) (hd : fields.names.Nodup)
    (hroom : (∃ f ∈ declared, env.FieldTakesAll r f) → ∀ key ∈ keys, key ∈ fields.names →
      ∃ f ∈ declared, env.schema.FieldHasOptional f key)
    (hload : Slot.each s (declared.map fun field => fillField (if field.mode = .flattened then flat else deep) field)
      priors = (.ok (), ⟨s', vs⟩)) :
    ∃ t' left, Slot.each t
        (declared.map fun field => fillField (if field.mode = .flattened then flat else deep) field) priors =
          (.ok (), ⟨t', env.schema.resetFields keys declared priors vs⟩) ∧
      Pared keys r rest left s' t' ∧
      Leaves keys (fun key => ∃ f ∈ declared, env.schema.FieldHasOptional f key)
        (fun key => ∀ f ∈ declared, env.FieldSpares r f key) fields left := by
  induction hshape generalizing s t s' fields vs with
  | nil =>
    simp only [List.map_nil, Slot.each_nil] at hload ⊢
    cases hload
    exact ⟨t, fields, by simp, h, .refl _, fun _ _ ⟨_, hf, _⟩ => absurd hf List.not_mem_nil,
      fun _ hf _ _ => hf⟩
  | @cons field prior declared priors hfield _ ih =>
    simp only [List.map_cons] at hload ⊢
    rcases hfirst : fillField (if field.mode = .flattened then flat else deep) field ⟨s, prior⟩ with ⟨e | _, ⟨u, v⟩⟩
    · cases (Slot.each_cons_of_eq_error hfirst).symm.trans hload
    rcases hrest : Slot.each u
      (declared.map fun field => fillField (if field.mode = .flattened then flat else deep) field) priors with
      ⟨res, ⟨u', vs'⟩⟩
    cases (Slot.each_cons_of_eq_ok hfirst hrest).symm.trans hload
    obtain ⟨t₁, left, hloaded, hpared, hleaves⟩ := fillField_pared
      (fun hm => by
        rw [if_neg (by rcases hm with hm | hm <;> simp [hm])]
        exact htol.named field List.mem_cons_self hm)
      (fun hm => by
        rw [if_pos hm]
        exact htol.flat field List.mem_cons_self hm)
      (htol.asks field List.mem_cons_self) h hd
      (fun hall key hkey hn => by
        obtain ⟨f, hf, hopt⟩ := hroom ⟨field, List.mem_cons_self, hall⟩ key hkey hn
        rcases List.mem_cons.1 hf with rfl | hf
        · exact hopt
        · exact absurd hopt ((List.pairwise_cons.1 htol.last).1 f hf hall key hkey))
      hfield hfirst
    obtain ⟨t₂, left', hloaded', hpared', hleaves'⟩ := ih htol.tail hpared
      (hd.sublist (hleaves.sublist.map Prod.fst))
      (fun ⟨f, hf, hall⟩ key hkey hn => by
        obtain ⟨g, hg, hopt⟩ := hroom ⟨f, List.mem_cons_of_mem _ hf, hall⟩ key hkey
          ((hleaves.sublist.map Prod.fst).subset hn)
        rcases List.mem_cons.1 hg with rfl | hg
        · exact absurd hn (hleaves.gone key hkey hopt)
        · exact ⟨g, hg, hopt⟩) hrest
    refine ⟨t₂, left', ?_, hpared', hleaves.trans hleaves' (fun key ⟨f, hf, hopt⟩ => ?_) fun key hkept => ?_⟩
    · rw [Schema.resetFields_cons, Slot.each_cons_of_eq_ok hloaded hloaded']
    · rcases List.mem_cons.1 hf with rfl | hf
      · exact .inl hopt
      · exact .inr ⟨f, hf, hopt⟩
    · exact ⟨hkept field List.mem_cons_self, fun f hf => hkept f (List.mem_cons_of_mem _ hf)⟩

theorem fillRecord_pared {deep flat : Ty → Attempt (Slot Value) Unit} {name : String}
    (htol : env.Tolerant r keys deep flat (env.schema.fieldsOf name)) :
    env.LoadsPared r keys (.record name) (env.fillRecord name deep flat) := by
  intro rest fields s t h hd hroom prior v s' hshape hload
  obtain ⟨priors, rfl, hfields⟩ := hshape.exists_fields
  rcases heach : Slot.each s ((env.schema.fieldsOf name).map fun field =>
    fillField (if field.mode = .flattened then flat else deep) field) priors with ⟨res, ⟨u, vs⟩⟩
  cases (fillRecord_of_each heach).symm.trans hload
  have hroom' : (∃ f ∈ env.schema.fieldsOf name, env.FieldTakesAll r f) → ∀ key ∈ keys, key ∈ fields.names →
      ∃ f ∈ env.schema.fieldsOf name, env.schema.FieldHasOptional f key := fun ⟨f, hf, hm, hall⟩ key hkey hn =>
    Schema.hasOptional_record.1 (hroom (.flattened hf hm hall) key hkey hn)
  obtain ⟨t', left, hloaded, hpared, hleaves⟩ := each_pared htol hfields h hd hroom' heach
  refine ⟨t', left, ?_, hpared, hleaves.mono (fun key => Schema.hasOptional_record.1) fun key hkept f hf => ?_⟩
  · simp only [Schema.resetAs, Schema.reset]
    exact fillRecord_of_each hloaded
  · exact ⟨fun hall => hkept.1 (.flattened hf hall.1 hall.2), fun hasks => hkept.2 (asks_record.2 ⟨f, hf, hasks⟩)⟩

end Tolerance

end Loading

end Archivist
