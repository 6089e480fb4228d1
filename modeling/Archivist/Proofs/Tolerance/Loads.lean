import Archivist.Proofs.Tolerance.Removal

/-!
Every load side by side from an object and from what it is without some of its fields, whatever the type: by
induction on the weight of the node and on the steps within it.
-/

set_option autoImplicit false

namespace Archivist

namespace Loading

open ReadState Reader Registry

/-- A step that cannot succeed on an object. -/
def Refuses {σ α : Type} (V : View σ) (x : Attempt σ α) : Prop :=
  ∀ ⦃s n rest fields⦄, V.reader s = ⟨n :: rest⟩ → n.fields? = some fields → x.Assures s fun _ _ => False

namespace Refuses

variable {α β ρ : Type}

theorem fail {σ : Type} {V : View σ} (e : Error) : Refuses V (.fail e : Attempt σ α) := fun _ _ _ _ _ _ => .fail e

theorem bind {σ : Type} {V : View σ} {x : Attempt σ α} (hx : Refuses V x) (f : α → Attempt σ β) :
    Refuses V (x >>= f) :=
  fun _ _ _ _ hs hn => (hx hs hn).bind fun _ _ h => h.elim

theorem onReader {x : Attempt Reader α}
    (hx : ∀ {n rest fields a r}, n.fields? = some fields → x ⟨n :: rest⟩ ≠ (.ok a, r)) :
    Refuses .whole (onReader x) := by
  intro s n rest fields hs hn a t h
  have hr := Local.onReader_eq_ok h
  rw [View.reader_whole] at hs
  rw [hs] at hr
  exact hx hn hr

theorem readValue : Refuses .whole (ReadState.onReader Reader.readValue) := onReader readValue_ne_ok

theorem readSize : Refuses .whole (ReadState.onReader Reader.readSize) := onReader readSize_ne_ok

theorem lift {x : Attempt ReadState ρ} (hx : Refuses .whole x) : Refuses (.slot α) (Slot.lift x) :=
  fun _ _ _ _ hs hn => (Slot.lift_assures (hx hs hn)).mono fun _ _ h => h.2

theorem assign {x : Attempt ReadState α} (hx : Refuses .whole x) : Refuses (.slot α) (Slot.assign x) :=
  fun _ _ _ _ hs hn => Slot.assign_assures (hx hs hn)

theorem fresh {x : Attempt (Slot α) Unit} (initial : α) (hx : Refuses (.slot α) x) :
    Refuses .whole (Slot.fresh initial x) :=
  fun _ _ _ _ hs hn => Slot.fresh_assures (hx hs hn)

theorem within {x : Attempt (Slot β) Unit} (content : α → β) (make : β → α) (hx : Refuses (.slot β) x) :
    Refuses (.slot α) (Slot.within content make x) :=
  fun _ _ _ _ hs hn => Slot.within_assures (fun _ _ => False) (hx hs hn)

end Refuses

section Types

variable {env : Loading} {r : Registry} {keys : List String} {type : Ty}

theorem ReadsPared.of_refuses {x : Attempt ReadState Value} (hx : Refuses .whole x) :
    env.ReadsPared r keys type x := by
  intro rest fields s t h _ _ v s' hload
  obtain ⟨n, m, hs, -, hn, -⟩ := h.nodes
  exact (hx hs hn _ _ hload).elim

theorem LoadsPared.of_refuses {x : Attempt (Slot Value) Unit} (hx : Refuses (.slot Value) x) :
    env.LoadsPared r keys type x := by
  intro rest fields s t h _ _ prior v s' _ hload
  obtain ⟨n, m, hs, -, hn, -⟩ := h.nodes
  exact (hx (s := ⟨s, prior⟩) hs hn _ _ hload).elim

theorem ReadsPared.assign {x : Attempt ReadState Value} (h : env.ReadsPared r keys type x)
    (htype : ∀ prior v, env.schema.resetAs keys type prior v = v) : env.LoadsPared r keys type (Slot.assign x) := by
  intro rest fields s t hp hd hroom prior v s' _ hload
  obtain ⟨t', left, hread, hpared, hleaves⟩ := h hp hd hroom (Slot.assign_eq_ok hload)
  rw [htype]
  exact ⟨t', left, Slot.assign_of_eq_ok hread, hpared, hleaves⟩

theorem LoadsPared.fresh {x : Attempt (Slot Value) Unit} {initial : Value} (h : env.LoadsPared r keys type x)
    (hshape : env.schema.Shaped type initial) (htype : ∀ v, env.schema.resetAs keys type initial v = v) :
    env.ReadsPared r keys type (Slot.fresh initial x) := by
  intro rest fields s t hp hd hroom v s' hload
  obtain ⟨t', left, hread, hpared, hleaves⟩ := h hp hd hroom hshape (Slot.fresh_eq_ok hload)
  rw [htype] at hread
  exact ⟨t', left, Slot.fresh_of_eq_ok hread, hpared, hleaves⟩

theorem LoadsPared.map {kind : MapKind} {key : KeyTy} {item : Ty} (hk : key.isTextual = true)
    {x : Attempt (Slot Value) Unit} (hx : ConfinedIn x) (hstay : Advances (Staying r) (.slot Value) x)
    (hsheds : Sheds (.slot Value) x) : env.LoadsPared r keys (.map kind key item) x := by
  rintro rest fields s t ⟨⟨n, m, hs, ht, hn, -, hsame⟩, hsr, htr⟩ hd hroom prior v s' - hload
  have hnone : ∀ key ∈ keys, key ∉ fields.names := fun key hkey hname => by cases hroom (.map hk) key hkey hname
  cases hsame (Fields.lacking_eq_self hnone)
  obtain ⟨t', part, hloaded, hs', ht', hreg⟩ := confined_ok hx hs ht (hsr.trans htr.symm) hload
  obtain ⟨n', left, hn', hfields, hsub⟩ := hsheds (s := ⟨s, prior⟩) (.of_fields? hs hn) _ _ hload
  have hpart : part = n' := by simpa using hs'.symm.trans hn'
  subst hpart
  have hlacking : left.lacking keys = left :=
    Fields.lacking_eq_self fun key hkey hname => hnone key hkey ((hsub.map Prod.fst).subset hname)
  have hur := hstay ⟨s, prior⟩ hsr
  rw [hload] at hur
  have hur : s'.registry = r := hur
  have hpared : Pared keys r rest left s' t' :=
    ⟨⟨part, part, hs', ht', hfields, by rw [hlacking]; exact hfields, fun _ => rfl⟩, hur, hreg ▸ hur⟩
  refine ⟨t', left, hloaded, hpared, hsub, nofun, fun _ _ _ hspares => ?_⟩
  exact absurd (.map hk) hspares.1

theorem Room.inner {part : Ty} {fields left : Fields} (h : env.Room r keys type fields)
    (hno : ∀ key, ¬ env.schema.HasOptional type key) (htakes : env.TakesAll r part → env.TakesAll r type)
    (hsub : left.Sublist fields) : env.Room r keys part left :=
  fun hall key hkey hname => absurd (h (htakes hall) key hkey ((hsub.map Prod.fst).subset hname)) (hno key)

theorem ReadsPared.option {item : Ty} {x : Attempt ReadState Value} (h : env.ReadsPared r keys item x) :
    env.ReadsPared r keys (.option item) (readOption x) := by
  intro rest fields s t hp hd hroom v s' hload
  obtain ⟨n, m, hs, ht, hn, hm, -⟩ := hp.nodes
  rw [readOption_of_fields? hs hn] at hload
  obtain ⟨w, u, hx, hv⟩ := Attempt.bind_eq_ok hload
  cases hv
  obtain ⟨t', left, hread, hpared, hleaves⟩ := h hp hd (hroom.inner nofun .option (.refl _)) hx
  refine ⟨t', left, ?_, hpared, hleaves.mono nofun fun key hkept => ?_⟩
  · rw [readOption_of_fields? ht hm, Attempt.bind_of_eq_ok hread]
    rfl
  · exact ⟨fun hall => hkept.1 (.option hall), fun hasks => hkept.2 (.option hasks)⟩

theorem readTag_pared {rest : List Node} {fields : Fields} {s t s' : ReadState} {tag : String}
    (hp : Pared keys r rest fields s t) (hk : tagField ∉ keys) (h : readTag s = (.ok tag, s')) :
    ∃ t' d left, readTag t = (.ok tag, t') ∧ Pared keys r rest left s' t' ∧
      fields.take? tagField = some (d, left) := by
  obtain ⟨⟨n, m, hs, ht, hn, hm, -⟩, hsr, htr⟩ := hp
  cases htake : fields.take? tagField with
  | none => cases (readTag_of_absent hs hn htake).symm.trans h
  | some found =>
    obtain ⟨d, left⟩ := found
    by_cases hd : ∃ text, d = .string text
    · obtain ⟨text, rfl⟩ := hd
      cases (readTag_of_take? hs hn htake).symm.trans h
      exact ⟨_, _, left, readTag_of_take? ht hm (Fields.take?_lacking hk htake), .opened rfl rfl hsr htr, rfl⟩
    · obtain ⟨cause, u, he⟩ := readTag_of_not_text hs hn htake fun text hd' => hd ⟨text, hd'⟩
      cases he.symm.trans h

section References

variable {kind : RefKind} {target : Target} {deep flat : Ty → Attempt ReadState Value}

theorem ReadsPared.readTagged (hp : env.schema.isPolymorphic target = true)
    (hset : (env.schema.identity target).isTagged = true →
      r.isInputSettled (env.schema.info target) env.archive = true) (hk : tagField ∉ keys)
    (hd : ∀ part ∈ env.parts r (.ref kind target), env.ReadsPared r keys part (deep part)) :
    env.ReadsPared r keys (.ref kind target) (env.readTagged kind target deep) := by
  intro rest fields s t h hnodup hroom v s' hload
  rcases hread : readTag s with ⟨e | tag, s₁⟩
  · have hr : env.resolve target s = (.error e, s₁) := resolve_of_eq (by rw [warmUp_settled hset h.whole, hread])
    cases (readTagged_of_resolve_error hr).symm.trans hload
  obtain ⟨t₁, d, left, hread', hpared, htake⟩ := readTag_pared h hk hread
  have hrs := resolve_settled hset h.whole hread
  have hrt := resolve_settled hset h.pared hread'
  rw [hpared.whole] at hrs
  rw [hpared.pared] at hrt
  cases hb : env.bound? r tag with
  | none =>
    rw [hb] at hrs
    cases (readTagged_of_resolve_error hrs).symm.trans hload
  | some found =>
    obtain ⟨bound, part⟩ := found
    rw [hb] at hrs hrt
    have hpart : part ∈ env.parts r (.ref kind target) := mem_parts_of_bound? hp hb
    rcases hl : deep part s₁ with ⟨e | item, u⟩
    · cases (readTagged_of_load_error hrs hl).symm.trans hload
    have hsub := Fields.sublist_of_take? htake
    obtain ⟨t', left', hload', hpared', hleaves⟩ := hd part hpart hpared (hnodup.sublist (hsub.map Prod.fst))
      (hroom.inner nofun (.behind hpart) hsub) hl
    rw [readTagged_of_load hrs hl, hpared'.whole] at hload
    have hok : env.accepts r kind target bound = true := by
      by_contra hno
      rw [if_neg hno] at hload
      cases hload
    rw [if_pos hok] at hload
    cases hload
    refine ⟨t', left', ?_, hpared', hleaves.sublist.trans hsub, nofun, fun x hx hkey hkept => ?_⟩
    · rw [readTagged_of_load hrt hload', hpared'.pared, if_pos hok]
    · refine hleaves.kept x (Fields.mem_of_take? htake hx fun heq => hk (heq ▸ hkey)) hkey ?_
      exact ⟨fun hall => hkept.1 (.behind hpart hall), fun hasks => hkept.2 (.behind hpart hasks)⟩

theorem ReadsPared.readRef
    (hset : (env.schema.identity target).isTagged = true →
      r.isInputSettled (env.schema.info target) env.archive = true)
    (hfree : ∀ key ∈ keys, ¬ env.Asks r (.ref kind target) key)
    (hd : ∀ part ∈ env.parts r (.ref kind target), env.ReadsPared r keys part (deep part))
    (hf : ∀ part ∈ env.parts r (.ref kind target), env.ReadsPared r keys part (flat part)) :
    env.ReadsPared r keys (.ref kind target) (env.readRef kind target deep flat) := by
  unfold Loading.readRef
  split
  · rename_i hp
    exact .readTagged hp hset (fun hk => hfree _ hk (.tag hp)) hd
  · rename_i hp
    intro rest fields s t h hnodup hroom v s' hload
    obtain ⟨item, u, hx, hv⟩ := Attempt.bind_eq_ok hload
    cases hv
    cases hty : target.ty? with
    | none =>
      simp only [readPlain, hty] at hx
      cases hx
    | some part =>
      have hpart : part ∈ env.parts r (.ref kind target) := mem_parts_of_plain hp hty
      simp only [readPlain, hty] at hx
      obtain ⟨t', left, hread, hpared, hleaves⟩ := hf part hpart h hnodup
        (hroom.inner nofun (.behind hpart) (.refl _)) hx
      refine ⟨t', left, ?_, hpared, hleaves.mono nofun fun key hkept => ?_⟩
      · simp only [readPlain, hty]
        rw [Attempt.bind_of_eq_ok hread]
        rfl
      · exact ⟨fun hall => hkept.1 (.behind hpart hall), fun hasks => hkept.2 (.behind hpart hasks)⟩

end References

end Types

section Induction

variable (env : Loading) (r : Registry) (keys : List String)

/-- No name that is lacking is looked for. -/
def Free (type : Ty) : Prop := ∀ key ∈ keys, ¬ env.Asks r type key

/-- No name that is lacking is looked for, or only as an optional one of the root record and the records that are
flattened into it. -/
def Fit (root : String) (type : Ty) : Prop :=
  env.Free r keys type ∨ ∃ name, type = .record name ∧ env.schema.Flattens root name ∧
    ∀ key ∈ keys, env.Asks r type key → env.schema.HasOptional type key

variable {env r keys} {root : String}

theorem Fit.free {type : Ty} (h : env.Fit r keys root type) (hno : ∀ name, type ≠ .record name) :
    env.Free r keys type := by
  obtain hfree | ⟨name, ht, -⟩ := h
  · exact hfree
  · exact absurd ht (hno name)

variable {name : String} {field : Field}

theorem Fit.asks (hdist : env.Distinct r root) (h : env.Fit r keys root (.record name))
    (hf : field ∈ env.schema.fieldsOf name) {key : String} (hkey : key ∈ keys) (ha : env.FieldAsks r field key) :
    env.schema.FieldHasOptional field key := by
  have hrecord : env.Asks r (.record name) key := asks_record.2 ⟨field, hf, ha⟩
  obtain hfree | ⟨_, ⟨⟩, hflat, hopt⟩ := h
  · exact absurd hrecord (hfree key hkey)
  · exact hdist.hasOptional hflat (hopt key hkey hrecord) hf ha

theorem Fit.flattened (hdist : env.Distinct r root) (h : env.Fit r keys root (.record name))
    (hf : field ∈ env.schema.fieldsOf name) (hm : field.mode = .flattened) : env.Fit r keys root field.type := by
  have hopt : ∀ key ∈ keys, env.Asks r field.type key → env.schema.HasOptional field.type key := by
    intro key hkey ha
    cases h.asks hdist hf hkey (.flattened hm ha) with
    | own hm' => cases hm.symm.trans hm'
    | inside _ hopt => exact hopt
  obtain hfree | ⟨_, ⟨⟩, hflat, -⟩ := h
  · exact .inl fun key hkey ha => hfree key hkey (.flattened hf hm ha)
  · cases ht : field.type with
    | record inner => exact .inr ⟨inner, rfl, hflat.field hf hm ht, ht ▸ hopt⟩
    | _ => exact .inl fun key hkey ha => by cases ht ▸ hopt key hkey (ht ▸ ha)

theorem Fit.last (hdist : env.Distinct r root) (h : env.Fit r keys root (.record name)) :
    (env.schema.fieldsOf name).Pairwise fun f g =>
      env.FieldTakesAll r f → ∀ key ∈ keys, ¬ env.schema.FieldHasOptional g key := by
  obtain hfree | ⟨_, ⟨⟩, hflat, -⟩ := h
  · refine List.pairwise_of_forall_mem_list fun f _ g hg _ key hkey hopt => ?_
    exact hfree key hkey (asks_record.2 ⟨g, hg, fieldAsks_of_hasOptional hopt⟩)
  · refine (hdist.last hflat).imp fun hskip hall key hkey hopt => ?_
    have hm := hskip hall
    cases hopt with
    | own hm' => cases hm.symm.trans hm'
    | inside hm' => cases hm.symm.trans hm'

variable (hS : env.schema.Initialised) (hset : env.Settled r (.record root)) (hdist : env.Distinct r root)

include hS hset hdist

/-- Within one node values are loaded side by side if the values in lighter nodes are. -/
theorem pared_within (weight : Nat)
    (hnew : ∀ type, env.Reaches r (.record root) type → env.Free r keys type →
      env.ReadsPared r keys type ((env.loader weight).new type)) (steps : Nat) :
    ∀ type, env.Reaches r (.record root) type →
      (env.Free r keys type → env.ReadsPared r keys type (env.newWithin (env.loader weight) steps type)) ∧
      (env.Fit r keys root type → env.LoadsPared r keys type (env.intoWithin (env.loader weight) steps type)) := by
  have hconfined := (confined_stepwise env.schema).loader env weight
  induction steps with
  | zero => exact fun _ _ => ⟨fun _ => .of_refuses (.fail _), fun _ => .of_refuses (.fail _)⟩
  | succ steps ih =>
    intro type ht
    cases type with
    | atom type =>
      have ha : Refuses .whole (do return Value.atom (← readAtom type)) := (Refuses.readValue.bind _).bind _
      exact ⟨fun _ => .of_refuses ha, fun _ => .of_refuses ha.assign⟩
    | option item =>
      have ho : env.Free r keys (.option item) → env.ReadsPared r keys (.option item)
          (readOption (env.newWithin (env.loader weight) steps item)) := fun hfree =>
        .option ((ih item (ht.part (by simp [parts]))).1 fun key hkey ha => hfree key hkey (.option ha))
      exact ⟨ho, fun hfit => (ho (hfit.free fun _ h => by cases h)).assign fun _ _ => rfl⟩
    | list kind item =>
      have hl : Refuses (.slot Value) (fillList ((env.loader weight).new item)) :=
        (Refuses.readSize.lift.bind _).within _ _
      exact ⟨fun _ => .of_refuses (hl.fresh _), fun _ => .of_refuses hl⟩
    | array item length =>
      have hc : Refuses .whole (checkSize length) := Refuses.readSize.bind _
      exact ⟨fun _ => .of_refuses (hc.bind _), fun _ => .of_refuses ((hc.lift.bind _).within _ _)⟩
    | map kind key item =>
      cases hkey : key.isTextual with
      | true =>
        have hm : env.LoadsPared r keys (.map kind key item)
            (env.fillMap kind key ((env.loader weight).new item)) :=
          .map hkey ((confined_stepwise env.schema).fillMap env kind key (hconfined.1 item))
            (hset.staying_within weight (steps + 1) ht).2
            ((Sheds.stepwise env.schema).fillMap env kind key
              (((Sheds.stepwise env.schema).loader env weight).1 item)).2
        exact ⟨fun _ => hm.fresh (.replaced rfl) fun _ => rfl, fun _ => hm⟩
      | false =>
        cases key with
        | atom type =>
          have hm : Refuses (.slot Value) (env.fillMap kind (.atom type) ((env.loader weight).new item)) :=
            (Refuses.readSize.lift.bind _).within _ _
          exact ⟨fun _ => .of_refuses (hm.fresh _), fun _ => .of_refuses hm⟩
        | _ => cases hkey
    | record name =>
      have hr : env.Fit r keys root (.record name) → env.LoadsPared r keys (.record name)
          (env.fillRecord name (env.loader weight).into (env.intoWithin (env.loader weight) steps)) := by
        intro hfit
        refine fillRecord_pared ⟨fun field hf hm => ⟨hconfined.2 _, ?_⟩, fun field hf hm => ?_,
          fun field hf key hkey => hfit.asks hdist hf hkey, hfit.last hdist⟩
        · exact (hset.staying weight (ht.part (mem_parts_of_field hf (by rcases hm with hm | hm <;> simp [hm])))).2
        · exact (ih _ (ht.part (mem_parts_of_field hf (by simp [hm])))).2 (hfit.flattened hdist hf hm)
      refine ⟨fun hfree => (hr (.inl hfree)).fresh (Schema.shaped_initialOf hS name) fun v => ?_, hr⟩
      exact Schema.reset_of_free (fun key hkey hopt => hfree key hkey (asks_of_hasOptional hopt)) _ v
    | ref kind target =>
      have hr : env.Free r keys (.ref kind target) → env.ReadsPared r keys (.ref kind target)
          (env.readRef kind target (env.loader weight).new (env.newWithin (env.loader weight) steps)) := by
        intro hfree
        have hbehind : ∀ part ∈ env.parts r (.ref kind target), env.Free r keys part :=
          fun part hp key hkey ha => hfree key hkey (.behind hp ha)
        exact .readRef (hset ht) hfree (fun part hp => hnew part (ht.part hp) (hbehind part hp))
          fun part hp => (ih part (ht.part hp)).1 (hbehind part hp)
      exact ⟨hr, fun hfit => (hr (hfit.free fun _ h => by cases h)).assign fun _ _ => rfl⟩

theorem readsPared_loader (weight : Nat) : ∀ type, env.Reaches r (.record root) type → env.Free r keys type →
    env.ReadsPared r keys type ((env.loader weight).new type) := by
  induction weight with
  | zero => exact fun _ _ _ => .of_refuses (.fail _)
  | succ weight ih => exact fun type ht => (pared_within hS hset hdist weight ih (env.steps type) type ht).1

/-- Whatever the type, a value that is loaded in place from an object is loaded from what the object is without
some names. -/
theorem loadsPared_loader (weight : Nat) {type : Ty} (ht : env.Reaches r (.record root) type)
    (hfit : env.Fit r keys root type) : env.LoadsPared r keys type ((env.loader weight).into type) := by
  cases weight with
  | zero => exact .of_refuses (.fail _)
  | succ weight =>
    refine (pared_within hS hset hdist weight ?_ (env.steps type) type ht).2 hfit
    exact readsPared_loader hS hset hdist weight

end Induction

end Loading

end Archivist
