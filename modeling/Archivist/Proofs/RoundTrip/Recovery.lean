import Archivist.Proofs.RoundTrip.Shape

/-!
Main statement: a value that fits its type is read back from the document it is saved to.
-/

set_option autoImplicit false

namespace Archivist

namespace Exchange

open Saving

variable {E : Exchange} {unknownTypes : UnknownTypes} {prior v : Value} {type : Ty} {b : Writer.Node}

/-- The value is read back by the loader for any weight, in as many steps as it needs within its node. -/
def Restored (E : Exchange) (unknownTypes : UnknownTypes) (prior : Value) (type : Ty) (v : Value) : Prop :=
  ∀ ⦃b⦄, (E.saving unknownTypes).written v = some b → ∀ weight steps, v.need E.schema ≤ steps + 1 →
    E.Fills (weight + 1) prior v b
      (E.loading.intoWithin (E.loading.loader weight) (steps + 1) type) ∧
    (prior = E.schema.blank type →
      E.Reads (weight + 1) v b (E.loading.newWithin (E.loading.loader weight) (steps + 1) type))

namespace Restored

theorem deep (h : E.Restored unknownTypes (E.schema.blank type) type v)
    (hf : E.Fits (E.schema.blank type) type v) (hb : (E.saving unknownTypes).written v = some b)
    (weight : Nat) : E.Reads weight v b ((E.loading.loader weight).new type) := by
  cases weight with
  | zero => exact fun _ _ _ _ hw => absurd hw (Nat.not_lt_zero _)
  | succ weight => exact (h hb weight _ hf.need_le_steps).2 rfl

theorem recovers (h : E.Restored unknownTypes (E.schema.blank type) type v)
    (hf : E.Fits (E.schema.blank type) type v) (hb : (E.saving unknownTypes).written v = some b)
    (weight : Nat) : E.Recovers weight v b.close ((E.loading.loader weight).new type) :=
  (h.deep hf hb weight).recovers (tidy_of_written hb)

theorem refills (h : E.Restored unknownTypes prior type v) (hf : E.Fits prior type v)
    (hb : (E.saving unknownTypes).written v = some b) (weight : Nat) :
    E.Refills weight prior v b.close ((E.loading.loader weight).into type) := by
  cases weight with
  | zero => exact fun hw => absurd hw (Nat.not_lt_zero _)
  | succ weight => exact (h hb weight _ hf.need_le_steps).1.refills (tidy_of_written hb)

theorem within (h : E.Restored unknownTypes prior type v) (hb : (E.saving unknownTypes).written v = some b)
    (weight : Nat) {steps : Nat} (hn : v.need E.schema ≤ steps) :
    E.Fills (weight + 1) prior v b (E.loading.intoWithin (E.loading.loader weight) steps type) ∧
    (prior = E.schema.blank type →
      E.Reads (weight + 1) v b (E.loading.newWithin (E.loading.loader weight) steps type)) := by
  cases steps with
  | zero => exact absurd hn (Nat.not_le.2 v.need_pos)
  | succ steps => exact h hb weight steps hn

theorem recoversAll {entries : Entries}
    (h : ∀ e ∈ entries, E.Restored unknownTypes (E.schema.blank type) type e.2)
    (hf : ∀ e ∈ entries, E.Fits (E.schema.blank type) type e.2) (weight : Nat) :
    E.RecoversAll unknownTypes weight entries ((E.loading.loader weight).new type) :=
  fun e he _ hb => (h e he).recovers (hf e he) hb weight

theorem items {vs : List Value} {docs : List Json}
    (h : ∀ v ∈ vs, E.Restored unknownTypes (E.schema.blank type) type v)
    (hf : ∀ v ∈ vs, E.Fits (E.schema.blank type) type v)
    (hb : (E.saving unknownTypes).writtenItems vs = some docs) (weight : Nat) :
    List.Forall₂ (fun v d => E.Recovers weight v d ((E.loading.loader weight).new type)) vs docs := by
  have hr : ∀ v ∈ vs, ∀ b, (E.saving unknownTypes).written v = some b →
      E.Recovers weight v b.close ((E.loading.loader weight).new type) :=
    fun v hv b hb => (h v hv).recovers (hf v hv) hb weight
  refine ((List.forall₂_and_left _ _).2 ⟨hr, forall₂_of_writtenItems hb⟩).imp ?_
  rintro v d ⟨hr, b, hb, rfl⟩
  exact hr b hb

theorem pairs {pairs : List (Value × Value)} {docs : List Json}
    (h : ∀ p ∈ pairs, E.Restored unknownTypes p.1 type p.2) (hf : ∀ p ∈ pairs, E.Fits p.1 type p.2)
    (hb : (E.saving unknownTypes).writtenItems (pairs.map Prod.snd) = some docs) (weight : Nat) :
    List.Forall₂ (fun p d => E.Refills weight p.1 p.2 d ((E.loading.loader weight).into type)) pairs docs := by
  have hr : ∀ p ∈ pairs, ∀ b, (E.saving unknownTypes).written p.2 = some b →
      E.Refills weight p.1 p.2 b.close ((E.loading.loader weight).into type) :=
    fun p hp b hb => (h p hp).refills (hf p hp) hb weight
  have hw := List.forall₂_map_left_iff.1 (forall₂_of_writtenItems hb)
  refine ((List.forall₂_and_left _ _).2 ⟨hr, hw⟩).imp ?_
  rintro p d ⟨hr, b, hb, rfl⟩
  exact hr b hb

theorem replaced (hi : ∀ lighter steps, E.loading.intoWithin lighter (steps + 1) type =
      Slot.assign (E.loading.newWithin lighter (steps + 1) type))
    (h : ∀ ⦃b⦄, (E.saving unknownTypes).written v = some b → ∀ weight steps, v.need E.schema ≤ steps + 1 →
      E.Reads (weight + 1) v b (E.loading.newWithin (E.loading.loader weight) (steps + 1) type)) :
    E.Restored unknownTypes prior type v := by
  intro b hb weight steps hn
  rw [hi]
  exact ⟨(h hb weight steps hn).assign, fun _ => h hb weight steps hn⟩

theorem atom {type : AtomTy} {a : Atom} (h : type.Has a) :
    E.Restored unknownTypes prior (.atom type) (.atom a) := by
  refine replaced (fun _ _ => rfl) fun b hb weight steps _ => ?_
  obtain ⟨d, hd, rfl⟩ := leafJson_of_written hb
  exact Reads.atom h hd

theorem absent {item : Ty} : E.Restored unknownTypes prior (.option item) .absent := by
  refine replaced (fun _ _ => rfl) fun b hb weight steps _ => ?_
  cases hb
  exact Reads.absent _

theorem present {item : Ty} (ho : item.isOption = false) (hf : E.Fits (E.schema.blank item) item v)
    (h : E.Restored unknownTypes (E.schema.blank item) item v) :
    E.Restored unknownTypes prior (.option item) (.present v) := by
  refine replaced (fun _ _ => rfl) fun b hb weight steps hn => ?_
  rw [written_present] at hb
  have hn : v.need E.schema ≤ steps := by simpa only [Value.need, Nat.add_le_add_iff_right] using hn
  exact ((h.within hb weight hn).2 rfl).present (hf.ne_null ho hb)

theorem list {kind : ListKind} {item : Ty} {vs : List Value}
    (hf : ∀ v ∈ vs, E.Fits (E.schema.blank item) item v)
    (h : ∀ v ∈ vs, E.Restored unknownTypes (E.schema.blank item) item v) :
    E.Restored unknownTypes prior (.list kind item) (.list vs) := by
  intro b hb weight steps hn
  rw [written_list] at hb
  obtain ⟨docs, hd, rfl⟩ := Option.map_eq_some_iff.1 hb
  have hi := items h hf hd weight
  exact ⟨Fills.list hi, fun _ => (Fills.list hi).fresh⟩

theorem array {priors vs : List Value} {item : Ty} (hl : priors.length = vs.length)
    (hf : ∀ x ∈ priors.zip vs, E.Fits x.1 item x.2)
    (h : ∀ x ∈ priors.zip vs, E.Restored unknownTypes x.1 item x.2) :
    E.Restored unknownTypes (.list priors) (.array item vs.length) (.list vs) := by
  intro b hb weight steps hn
  rw [written_list] at hb
  obtain ⟨docs, hd, rfl⟩ := Option.map_eq_some_iff.1 hb
  have hfst : (priors.zip vs).map Prod.fst = priors := List.map_fst_zip hl.le
  have hsnd : (priors.zip vs).map Prod.snd = vs := List.map_snd_zip hl.ge
  have hlen : vs.length = docs.length := (forall₂_of_writtenItems hd).length_eq
  constructor
  · have hp := Fills.array (pairs h hf (hsnd.symm ▸ hd) weight)
    rw [hfst, hsnd, ← hlen] at hp
    exact hp
  · intro hprior
    -- all elements are loaded into the same blank, as if each were read anew
    have hi : ∀ v ∈ vs, E.Restored unknownTypes (E.schema.blank item) item v ∧
        E.Fits (E.schema.blank item) item v := by
      intro v hv
      rw [← hsnd] at hv
      obtain ⟨p, hp, rfl⟩ := List.mem_map.1 hv
      cases hprior
      have hblank : p.1 = E.schema.blank item := List.eq_of_mem_replicate (List.of_mem_zip hp).1
      exact hblank ▸ ⟨h p hp, hf p hp⟩
    have hr := Reads.array (items (fun v hv => (hi v hv).1) (fun v hv => (hi v hv).2) hd weight)
    rw [← hlen] at hr
    exact hr

theorem map {kind : MapKind} {key : KeyTy} {item : Ty} {entries : Entries}
    (hk : (entries.map Prod.fst).Nodup) (ha : ∀ e ∈ entries, E.schema.HasKey key e.1)
    (hf : ∀ e ∈ entries, E.Fits (E.schema.blank item) item e.2)
    (h : ∀ e ∈ entries, E.Restored unknownTypes (E.schema.blank item) item e.2) :
    E.Restored unknownTypes prior (.map kind key item) (.map key entries) := by
  intro b hb weight steps hn
  have hall := recoversAll h hf weight
  have hp : ∀ prior, E.Fills (weight + 1) prior (.map key entries) b
      (E.loading.fillMap kind key ((E.loading.loader weight).new item)) := by
    intro prior
    cases ht : key.isTextual with
    | true =>
      rw [written_map, if_pos ht] at hb
      exact Fills.named ht hb hk ha hall
    | false =>
      rw [written_map, if_neg (by simp [ht])] at hb
      obtain ⟨docs, hd, rfl⟩ := Option.map_eq_some_iff.1 hb
      cases key with
      | atom type => exact Fills.elements hd hk ha hall
      | text => cases ht
      | named name => cases ht
  exact ⟨hp prior, fun _ => (hp (.map key [])).fresh⟩

theorem field {field : Field} (weight : Nat) {steps : Nat} (hs : field.mode = .skipped → v = prior)
    (hf : field.mode ≠ .skipped → E.Fits prior field.type v)
    (h : field.mode ≠ .skipped → E.Restored unknownTypes prior field.type v)
    (hn : field.mode = .flattened → v.need E.schema ≤ steps) :
    E.Restores unknownTypes weight (E.loading.loader weight).into
      (E.loading.intoWithin (E.loading.loader weight) steps) field prior v := by
  unfold Restores
  cases hm : field.mode with
  | skipped => exact hs hm
  | flattened => exact fun c hc => ((h (by simp [hm])).within hc weight (hn hm)).1
  | required => exact fun c hc => (h (by simp [hm])).refills (hf (by simp [hm])) hc weight
  | optional => exact fun c hc => (h (by simp [hm])).refills (hf (by simp [hm])) hc weight

theorem record {name : String} {priors vs : List Value}
    (hf : E.Fits (.record name priors) (.record name) (.record name vs))
    (h : ∀ x ∈ (E.schema.fieldsOf name).zip (priors.zip vs), x.1.mode ≠ .skipped →
      E.Restored unknownTypes x.2.1 x.1.type x.2.2) :
    E.Restored unknownTypes (.record name priors) (.record name) (.record name vs) := by
  intro b hb weight steps hn
  obtain ⟨fields, hb'⟩ := hf.fields?_of_written rfl hb
  cases hf with
  | record hp hv skipped loaded flat last =>
    have hneed : Value.needAmong E.schema (E.schema.fieldsOf name) vs ≤ steps := by
      simpa only [Value.need, Nat.add_le_add_iff_right] using hn
    have hr := Fills.record hp hv (fun x hx => field weight (skipped x hx) (loaded x hx) (h x hx) fun hm =>
      (Value.need_le_needAmong (mem_zip_zip hx).2 hm).trans hneed) last hb hb'
    refine ⟨hr, fun hprior => ?_⟩
    rw [hprior] at hr
    exact hr.fresh

theorem plain {kind : RefKind} {target : Target} (hi : E.schema.identity target = .plain)
    (ht : target.ty? = some type) (h : E.Restored unknownTypes (E.schema.blank type) type v) :
    E.Restored unknownTypes prior (.ref kind target) (.ref target v) := by
  refine replaced (fun _ _ => rfl) fun b hb weight steps hn => ?_
  have hp : E.loading.schema.isPolymorphic target = false := isPolymorphic_of_plain hi
  have hn : v.need E.schema ≤ steps := by
    simpa [Value.need, isPolymorphic_of_plain hi] using hn
  rw [written_plain hi] at hb
  simp only [Loading.newWithin, Loading.readRef, hp, Bool.false_eq_true, ↓reduceIte, Loading.readPlain, ht]
  exact ((h.within hb weight hn).2 rfl).plain target

theorem tagged {kind : RefKind} {name : String}
    (hi : (E.schema.identity (.record name)).isTagged = true) (hr : name ∈ E.reach)
    (hf : E.Fits (E.schema.initialOf name) (.record name) v)
    (h : E.Restored unknownTypes (E.schema.initialOf name) (.record name) v) :
    E.Restored unknownTypes prior (.ref kind (.record name)) (.ref (.record name) v) := by
  refine replaced (fun _ _ => rfl) fun b hb weight steps _ => ?_
  obtain ⟨c, hc, hm⟩ := written_tagged hi hf hb
  have hp : E.loading.schema.isPolymorphic (.record name) = true := isPolymorphic_of_tagged hi
  simp only [Loading.newWithin, Loading.readRef, hp, ↓reduceIte]
  exact Reads.tagged (h.deep hf hc weight) hm (warmed_record hi hr) fun r _ => accepts_record hi r

theorem base {kind : RefKind} {base name : String} (hs : E.Serves base name)
    (hf : E.Fits (E.schema.initialOf name) (.record name) v)
    (h : E.Restored unknownTypes (E.schema.initialOf name) (.record name) v) :
    E.Restored unknownTypes prior (.ref kind (.base base)) (.ref (.base base) v) := by
  refine replaced (fun _ _ => rfl) fun b hb weight steps _ => ?_
  obtain ⟨c, hc, hm⟩ := written_base hs hf hb
  exact Reads.tagged (h.deep hf hc weight) hm hs.warmed fun r hr => hs.accepts hr

end Restored

/-- Every value that fits is read back. -/
theorem Fits.restored (h : E.Fits prior type v) : E.Restored unknownTypes prior type v := by
  induction h with
  | atom h => exact .atom h
  | absent => exact .absent
  | present ho h ih => exact .present ho h ih
  | list h ih => exact .list h ih
  | array hl h ih => exact .array hl h ih
  | map hk ha h ih => exact .map hk ha h ih
  | record hp hv skipped loaded flat last ih => exact .record (.record hp hv skipped loaded flat last) ih
  | plain hi ht _ ih => exact .plain hi ht ih
  | tagged hi hr h ih => exact .tagged hi hr h ih
  | base hs h ih => exact .base hs h ih

end Exchange

namespace Loading

/-- A value that fits its type is read back from the document it is saved to, up to the order of the
entries of maps, given that every record in reach of a tagged reference owns its tag or is the only one
that can claim it. -/
theorem ofJson_toJson (E : Exchange) (claims : ∀ name ∈ E.reach, E.Claims E.registry name)
    (unknownTypes : UnknownTypes) (type : Ty) (v : Value) (fits : E.Fits (E.schema.blank type) type v)
    (d : Json) (saved : ((E.saving unknownTypes).toJson v).result = .ok d) :
    ∃ w, (E.loading.ofJson type E.registry d).result = .ok w ∧ v.Same w := by
  obtain ⟨b, hb, rfl⟩ := Saving.written_of_toJson _ saved
  have hs : E.At ⟨.ofJson b.close, E.registry, []⟩ (.value b.close) [] := ⟨rfl, .start claims⟩
  obtain ⟨w, t, hw, hsame, -⟩ :=
    fits.restored.recovers fits hb (b.close.weight + 1) (Nat.lt_succ_self _) hs
  refine ⟨w, ?_, hsame⟩
  have hl : E.loading.loadNew type ⟨.ofJson b.close, E.registry, []⟩ = (.ok w, t) := hw
  simp only [ofJson, hl]

def workshop : Schema where
  path := ""
  records :=
    [⟨"Label", [⟨"text", .atom .text, .required, .atom (.text "")⟩], .plain⟩,
     ⟨"Gear",
       [⟨"", .record "Label", .flattened, .record "Label" [.atom (.text "")]⟩,
        ⟨"teeth", .atom (.int .u8), .required, .atom (.int .u8 0)⟩], .tagged "gear"⟩,
     ⟨"Crank", [⟨"arm", .atom (.float .single), .required, .atom (.float .single .zero)⟩], .tagged "crank"⟩,
     ⟨"Crate",
       [⟨"", .atom .bool, .skipped, .atom (.bool true)⟩,
        ⟨"crank", .ref .counted (.record "Crank"), .required, .absent⟩,
        ⟨"spare", .option (.ref .box (.base "Part")), .optional, .absent⟩,
        ⟨"sizes", .array (.atom (.int .i16)) 2, .required, .list [.atom (.int .i16 0), .atom (.int .i16 0)]⟩,
        ⟨"codes", .map .hashed (.atom (.int .i8)) (.atom .char), .required, .map (.atom (.int .i8)) []⟩,
        ⟨"", .map .sorted .text (.list .deque (.atom .bool)), .flattened, .map .text []⟩], .plain⟩]
  bases := [.plain "Part"]

def workshopExchange : Exchange where
  schema := workshop
  run := [.register (.record "Gear"),
    .install (.ofCalls [.insert (.relation (.base "Part") (.record "Gear") (.of (.record "Gear")))])]
  reach := ["Crank"]

def crate : Value :=
  .record "Crate"
    [.atom (.bool true),
     .ref (.record "Crank") (.record "Crank" [.atom (.float .single (.finite false 3 (-1)))]),
     .present (.ref (.base "Part") (.record "Gear" [.record "Label" [.atom (.text "main")], .atom (.int .u8 12)])),
     .list [.atom (.int .i16 3), .atom (.int .i16 (-4))],
     .map (.atom (.int .i8)) [(.int .i8 7, .atom (.char 'x')), (.int .i8 (-1), .atom (.char 'y'))],
     .map .text [(.text "odd", .list [.atom (.bool true)]), (.text "even", .list [])]]

/-- The crate is read back, with its skipped field and its cranks and gears behind references. -/
theorem crate_restored :
    ∃ d w, ((workshopExchange.saving .reject).toJson crate).result = .ok d ∧
      (workshopExchange.loading.ofJson (.record "Crate") workshopExchange.registry d).result = .ok w ∧
      crate.Same w := by
  have claims : ∀ name ∈ workshopExchange.reach, workshopExchange.Claims workshopExchange.registry name :=
    List.forall_mem_singleton.2 ⟨by decide, .inr ⟨rfl, List.forall_mem_singleton.2 fun _ => rfl⟩⟩
  have label : workshopExchange.Fits (.record "Label" [.atom (.text "")]) (.record "Label")
      (.record "Label" [.atom (.text "main")]) :=
    .record rfl rfl (List.forall_mem_singleton.2 nofun) (List.forall_mem_singleton.2 fun _ => .atom trivial)
      (List.forall_mem_singleton.2 nofun) (List.pairwise_singleton _ _)
  have gear : workshopExchange.Fits (workshop.initialOf "Gear") (.record "Gear")
      (.record "Gear" [.record "Label" [.atom (.text "main")], .atom (.int .u8 12)]) :=
    .record rfl rfl (List.forall_mem_cons.2 ⟨nofun, List.forall_mem_singleton.2 nofun⟩)
      (List.forall_mem_cons.2 ⟨fun _ => label, List.forall_mem_singleton.2 fun _ => .atom ⟨rfl, by decide⟩⟩)
      (by decide) (List.pairwise_pair.2 nofun)
  have crank : workshopExchange.Fits (workshop.initialOf "Crank") (.record "Crank")
      (.record "Crank" [.atom (.float .single (.finite false 3 (-1)))]) :=
    .record rfl rfl (List.forall_mem_singleton.2 nofun)
      (List.forall_mem_singleton.2 fun _ => .atom ⟨rfl, by decide⟩) (by decide) (List.pairwise_singleton _ _)
  have sizes : workshopExchange.Fits (.list [.atom (.int .i16 0), .atom (.int .i16 0)])
      (.array (.atom (.int .i16)) 2) (.list [.atom (.int .i16 3), .atom (.int .i16 (-4))]) :=
    @Exchange.Fits.array _ [.atom (.int .i16 0), .atom (.int .i16 0)]
      [.atom (.int .i16 3), .atom (.int .i16 (-4))] _ rfl (List.forall_mem_cons.2 ⟨.atom ⟨rfl, by decide⟩,
      List.forall_mem_singleton.2 (.atom ⟨rfl, by decide⟩)⟩)
  have codes : workshopExchange.Fits (.map (.atom (.int .i8)) []) (.map .hashed (.atom (.int .i8)) (.atom .char))
      (.map (.atom (.int .i8)) [(.int .i8 7, .atom (.char 'x')), (.int .i8 (-1), .atom (.char 'y'))]) :=
    .map (by decide)
      (List.forall_mem_cons.2 ⟨⟨rfl, by decide⟩, List.forall_mem_singleton.2 ⟨rfl, by decide⟩⟩)
      (List.forall_mem_cons.2 ⟨.atom trivial, List.forall_mem_singleton.2 (.atom trivial)⟩)
  have switches : workshopExchange.Fits (.map .text []) (.map .sorted .text (.list .deque (.atom .bool)))
      (.map .text [(.text "odd", .list [.atom (.bool true)]), (.text "even", .list [])]) :=
    .map (by decide) (List.forall_mem_cons.2 ⟨fun _ => Eq.symm, List.forall_mem_singleton.2 fun _ => Eq.symm⟩)
      (List.forall_mem_cons.2 ⟨.list (List.forall_mem_singleton.2 (.atom trivial)),
        List.forall_mem_singleton.2 (.list nofun)⟩)
  have fits : workshopExchange.Fits (workshop.blank (.record "Crate")) (.record "Crate") crate := by
    refine .record rfl rfl ?_ ?_ (by decide) (by decide)
    · simp [workshopExchange, workshop, Schema.fieldsOf, Schema.record?]
    · refine List.forall_mem_cons.2 ⟨nofun, List.forall_mem_cons.2 ⟨fun _ => .tagged rfl (by decide) crank, ?_⟩⟩
      refine List.forall_mem_cons.2 ⟨fun _ => .present rfl (.base ⟨rfl, rfl, rfl⟩ gear), ?_⟩
      refine List.forall_mem_cons.2 ⟨fun _ => sizes, List.forall_mem_cons.2 ⟨fun _ => codes, ?_⟩⟩
      exact List.forall_mem_singleton.2 fun _ => switches
  obtain ⟨w, hw, hs⟩ := ofJson_toJson workshopExchange claims .reject (.record "Crate") crate fits _ rfl
  exact ⟨_, w, rfl, hw, hs⟩

end Loading

end Archivist
