import Archivist.Proofs.Archive.Reader
import Archivist.Proofs.Loading.Lasting
import Archivist.Proofs.Loading.Stability

/-!
What reading a polymorphic reference comes to. Main statement: for every document and every registry
that a run can reach, the outcome follows from the tag, what it is bound to, how that loads, and the
relations, and it is the same however the reference owns what it points to.
-/

set_option autoImplicit false

namespace Archivist

/-- The tag of a document, and the fields that are left without it. -/
def Json.tagged? : Json → Option (String × Fields)
  | .object fields =>
    match Fields.take? tagField fields with
    | some (.string tag, rest) => some (tag, rest)
    | _ => none
  | _ => none

theorem Schema.eq_record_of_tag {S : Schema} {t : Target} (h : S.tag t ≠ unknownTag) :
    ∃ name, t = .record name := by
  cases t with
  | atom type => exact absurd rfl h
  | record name => exact ⟨name, rfl⟩
  | base name => exact absurd rfl h

namespace Registry

/-- Relations are made with the upcaster of the type that is related. -/
def Insertion.Direct : Insertion → Prop
  | .relation _ t up => up = .of t
  | _ => True

theorem Insertion.direct_of_not_isRelation {i : Insertion} (h : ¬ i.IsRelation) : i.Direct := by
  cases i with
  | relation base t up => exact absurd trivial h
  | _ => trivial

/-- A registry that calls build, with direct relations only. -/
abbrev Genuine (S : Schema) : Registry → Prop := BuiltBy S Insertion.Direct

namespace Genuine

variable {S : Schema} {r r' : Registry}

theorem warms (h : Genuine S r) (hw : Warms S r r') : Genuine S r' :=
  BuiltBy.warms (fun _ => Insertion.direct_of_not_isRelation) h hw

theorem upcaster_eq (h : Genuine S r) {base t : Target} {up : Upcaster}
    (hu : r.upcaster? base t = some up) : up = .of t := by
  obtain ⟨is, hr, hi⟩ := h.recounts
  rw [hr.upcaster] at hu
  obtain ⟨i, hm, he⟩ := List.exists_of_findSome?_eq_some hu
  cases i with
  | input t a => cases he
  | output t a => cases he
  | relation b x up' =>
    simp only [Insertion.upcaster?, Option.ite_none_right_eq_some, Option.some.injEq] at he
    obtain ⟨⟨rfl, rfl⟩, rfl⟩ := he
    exact hi _ hm

end Genuine

theorem Warms.upcaster?_eq {S : Schema} {r r' : Registry} (h : Warms S r r') (base t : Target) :
    r'.upcaster? base t = r.upcaster? base t := by
  obtain ⟨bindings, rfl⟩ := h
  induction bindings generalizing r with
  | nil => rfl
  | cons binding bindings ih =>
    refine ih.trans ?_
    simp [call, insert, upcaster?]

end Registry

namespace Loading

open ReadState Registry

variable {env : Loading}

theorem accepts_eq {r : Registry} (h : r.Genuine env.schema) (kind : RefKind) (target bound : Target) :
    env.accepts r kind target bound =
      (env.schema.keeps target bound || (r.upcaster? target bound).isSome) := by
  unfold accepts
  cases hu : r.upcaster? target bound with
  | none => rfl
  | some up =>
    rw [h.upcaster_eq hu]
    cases kind <;> simp [Upcaster.passes, Upcaster.of]

theorem warmUp_apply (target : Target) (s : ReadState) :
    env.warmUp target s = (.ok (), (env.warmUp target s).2) := by
  unfold warmUp
  split <;> rfl

theorem reader_warmUp (target : Target) (s : ReadState) : (env.warmUp target s).2.reader = s.reader := by
  unfold warmUp
  split <;> rfl

theorem warms_warmUp (target : Target) : Advances (Warms env.schema) .whole (env.warmUp target) :=
  ((Warms.advance env.schema).stepwise (warms_ensureInput env.schema)).warmUp env target

section ReadTag

variable {s : ReadState} {n : Reader.Node} {outer : List Reader.Node} (hs : s.reader = ⟨n :: outer⟩)

include hs

theorem readTag_of_not_object (hn : n.fields? = none) :
    readTag s = (.error (.malformed (.notAnObject n.kind)), s) := by
  have hf : Reader.startField tagField s.reader = (.error (.malformed (.notAnObject n.kind)), s.reader) := by
    rw [hs, Reader.startField_of_none hn]
  refine Attempt.bind_of_eq_error ?_
  simp only [enterTag, onReader_of_eq hf]

variable {fields rest : Fields} {value : Json} (hn : n.fields? = some fields)

include hn

theorem readTag_of_absent (ht : fields.take? tagField = none) :
    readTag s = (.error (.malformed .noTag), { s with reader := ⟨.object fields :: outer⟩ }) := by
  have hf : Reader.startField tagField s.reader =
      (.error (.fieldAbsent tagField), ⟨.object fields :: outer⟩) := by
    rw [hs, Reader.startField_of_absent hn ht]
  refine Attempt.bind_of_eq_error ?_
  simp only [enterTag, onReader_of_eq hf]

theorem enterTag_of_take? (ht : fields.take? tagField = some (value, rest)) :
    enterTag s = (.ok (), { s with reader := ⟨.value value :: .object rest :: outer⟩ }) := by
  have hf : Reader.startField tagField s.reader =
      (.ok (), ⟨.value value :: .object rest :: outer⟩) := by
    rw [hs, Reader.startField_of_take? hn ht]
  simp only [enterTag, onReader_of_eq hf]

theorem readTag_of_take? {tag : String} (ht : fields.take? tagField = some (.string tag, rest)) :
    readTag s = (.ok tag, { s with reader := ⟨.object rest :: outer⟩ }) := by
  rw [readTag, Attempt.bind_of_eq_ok (enterTag_of_take? hs hn ht)]
  rfl

theorem readTag_of_not_text (ht : fields.take? tagField = some (value, rest))
    (hv : ∀ tag, value ≠ .string tag) : ∃ cause t, readTag s = (.error (.malformed cause), t) := by
  rw [readTag, Attempt.bind_of_eq_ok (enterTag_of_take? hs hn ht)]
  cases value with
  | string tag => exact absurd rfl (hv tag)
  | int n =>
    have hl : Reader.leaf? (.int n) = some (.ofInt n) := rfl
    rw [Attempt.bind_of_eq_ok (onReader_of_eq (Reader.readValue_of_leaf? hl))]
    unfold Leaf.ofInt
    split <;> exact ⟨_, _, rfl⟩
  | _ => exact ⟨_, _, rfl⟩

end ReadTag

theorem readTag_of_untagged {s : ReadState} {d : Json} {outer : List Reader.Node}
    (hs : s.reader = ⟨.value d :: outer⟩) (h : d.tagged? = none) :
    ∃ cause t, readTag s = (.error (.malformed cause), t) := by
  cases d with
  | object fields =>
    have hn : (Reader.Node.value (.object fields)).fields? = some fields := rfl
    cases ht : Fields.take? tagField fields with
    | none => exact ⟨_, _, readTag_of_absent hs hn ht⟩
    | some found =>
      obtain ⟨value, rest⟩ := found
      refine readTag_of_not_text hs hn ht fun tag hv => ?_
      subst hv
      simp [Json.tagged?, ht] at h
  | _ => exact ⟨_, _, readTag_of_not_object hs rfl⟩

theorem readTag_of_tagged {s : ReadState} {d : Json} {outer : List Reader.Node}
    (hs : s.reader = ⟨.value d :: outer⟩) {tag : String} {rest : Fields}
    (h : d.tagged? = some (tag, rest)) :
    readTag s = (.ok tag, { s with reader := ⟨.object rest :: outer⟩ }) := by
  unfold Json.tagged? at h
  split at h
  · split at h
    · rename_i ht
      cases h
      exact readTag_of_take? hs rfl ht
    · cases h
  · cases h

theorem weight_tagged? {d : Json} {tag : String} {rest : Fields} (h : d.tagged? = some (tag, rest)) :
    (Reader.Node.object rest).weight < d.weight := by
  unfold Json.tagged? at h
  split at h
  · split at h
    · rename_i ht
      cases h
      have := Fields.weight_take? ht
      simp only [Reader.Node.weight_object, Json.weight] at this ⊢
      omega
    · cases h
  · cases h

theorem target?_of_loadNew {name : String} {s t : ReadState} {v : Value}
    (h : env.loadNew (.record name) s = (.ok v, t)) : v.target? = some (.record name) := by
  simp only [loadNew, loader, steps, newWithin, fillRecord] at h
  obtain ⟨fields, rfl⟩ := Slot.fresh_within_eq_ok h
  rfl

theorem loadNew_ref {target : Target} (h : env.schema.isPolymorphic target = true) (kind : RefKind)
    (s : ReadState) :
    env.loadNew (.ref kind target) s = env.readTagged kind target (env.loader s.reader.weight).new s := by
  simp only [loadNew, loader, steps, newWithin, readRef, h, ↓reduceIte]

theorem keeps_iff {S : Schema} {base : Target} (h : S.isPolymorphic base = true) (name : String) :
    S.keeps base (.record name) = true ↔ .record name = base := by
  cases base with
  | atom type => cases h
  | record other => simp [Schema.keeps, h, eq_comm]
  | base other => simp [Schema.keeps]

section Outcome

variable {base : Target} {s : ReadState} {tag : String}

theorem resolve_of_eq {res : Except Error String} {t : ReadState}
    (h : readTag (env.warmUp base s).2 = (res, t)) :
    env.resolve base s =
      match res with
      | .error e => (.error e, t)
      | .ok tag =>
        match env.bound? t.registry tag with
        | none => (.error (.unknownType tag), t)
        | some found => (.ok (tag, found), t) := by
  rw [resolve, Attempt.bind_of_eq_ok (warmUp_apply base s)]
  cases res with
  | error e => exact Attempt.bind_of_eq_error h
  | ok tag =>
    rw [Attempt.bind_of_eq_ok h]
    simp only [withRegistry]
    cases env.bound? t.registry tag <;> rfl

variable {load : Ty → Attempt ReadState Value} {kind : RefKind} {bound : Target} {type : Ty}
  {t u : ReadState} {e : Error} {item : Value}

theorem readTagged_of_resolve_error (hr : env.resolve base s = (.error e, t)) :
    env.readTagged kind base load s = (.error e, t) := Attempt.bind_of_eq_error hr

theorem readTagged_of_load_error (hr : env.resolve base s = (.ok (tag, bound, type), t))
    (hl : load type t = (.error e, u)) : env.readTagged kind base load s = (.error e, u) :=
  (Attempt.bind_of_eq_ok hr).trans (Attempt.bind_of_eq_error hl)

theorem readTagged_of_load (hr : env.resolve base s = (.ok (tag, bound, type), t))
    (hl : load type t = (.ok item, u)) :
    env.readTagged kind base load s =
      (if env.accepts u.registry kind base bound then .ok (.ref base item)
        else .error (.incompatibleType tag (env.schema.typeName base)), u) := by
  refine (Attempt.bind_of_eq_ok hr).trans ((Attempt.bind_of_eq_ok hl).trans ?_)
  simp only [withRegistry]
  split <;> rfl

theorem readTagged_kind (hl : ∀ type, Advances (Warms env.schema) .whole (load type))
    (hs : s.registry.Genuine env.schema) (kind kind' : RefKind) :
    env.readTagged kind base load s = env.readTagged kind' base load s := by
  rcases hr : env.resolve base s with ⟨e | ⟨tag, bound, type⟩, t⟩
  · rw [readTagged_of_resolve_error hr, readTagged_of_resolve_error hr]
  · rcases hi : load type t with ⟨e | item, u⟩
    · rw [readTagged_of_load_error hr hi, readTagged_of_load_error hr hi]
    · have ht := ((Warms.advance env.schema).stepwise (warms_ensureInput env.schema)).resolve env base s
      rw [hr] at ht
      have hu := hl type t
      rw [hi] at hu
      have hg : u.registry.Genuine env.schema := (hs.warms ht).warms hu
      rw [readTagged_of_load hr hi, readTagged_of_load hr hi, accepts_eq hg, accepts_eq hg]

theorem bound?_of_input? {r : Registry} (hg : r.Genuine env.schema)
    (h : r.input? env.archive tag = some bound) :
    env.schema.tag bound = tag ∧ ∃ name, bound = .record name ∧
      env.bound? r tag = some (bound, .record name) := by
  obtain ⟨is, hr, -⟩ := hg.recounts
  obtain ⟨ht, hu⟩ := hr.tag_of_input h
  obtain ⟨name, rfl⟩ := Schema.eq_record_of_tag (ht ▸ hu)
  exact ⟨ht, name, rfl, by simp [bound?, h, Target.ty?]⟩

end Outcome

/-- The outcome of reading a polymorphic reference, from a document and any registry that uses with
direct relations lead to. It is malformed without a tag and of unknown type if the tag is not bound.
Otherwise the value of the type bound to the tag is read from what is left of the document, and it is
refused unless the reference is declared with that type or a relation makes it fit. -/
theorem loadNew_polymorphic (env : Loading) (run : List Use)
    (direct : ∀ c, Use.install c ∈ run → c.Keeps env.schema Insertion.Direct)
    (base : Target) (hb : env.schema.isPolymorphic base = true) (d : Json) (log : Log) :
    let start : ReadState := ⟨.ofJson d, empty.uses env.schema run, log⟩
    let warm := (env.warmUp base start).2
    let outcome := fun kind => (env.loadNew (.ref kind base) start).1
    (d.tagged? = none → ∃ cause, outcome .shared = .error (.malformed cause)) ∧
    (∀ tag rest, d.tagged? = some (tag, rest) →
      (warm.registry.input? env.archive tag = none → outcome .shared = .error (.unknownType tag)) ∧
      ∀ bound, warm.registry.input? env.archive tag = some bound →
        env.schema.tag bound = tag ∧ ∃ type, bound.ty? = some type ∧
          match (env.loadNew type { warm with reader := ⟨[.object rest]⟩ }).1 with
          | .error e => outcome .shared = .error e
          | .ok v => v.target? = some bound ∧
            outcome .shared =
              if bound = base ∨ (warm.registry.upcaster? base bound).isSome then .ok (.ref base v)
              else .error (.incompatibleType tag (env.schema.typeName base))) ∧
    warm.registry.input? env.archive unknownTag = none ∧
    ∀ kind, outcome kind = outcome .shared := by
  intro start warm outcome
  have hstart : start.registry.Genuine env.schema :=
    BuiltBy.uses (fun _ => Insertion.direct_of_not_isRelation) (.empty _ _) direct
  have hwarm : warm.registry.Genuine env.schema := hstart.warms (warms_warmUp base start)
  have hreader : warm.reader = ⟨[.value d]⟩ := reader_warmUp base start
  have advances : ∀ type, Advances (Warms env.schema) .whole ((env.loader d.weight).new type) :=
    (((Warms.advance env.schema).stepwise (warms_ensureInput env.schema)).loader env d.weight).1
  have houtcome : ∀ kind, outcome kind =
      (env.readTagged kind base (env.loader d.weight).new start).1 :=
    fun kind => congrArg Prod.fst (loadNew_ref hb kind start)
  refine ⟨fun hd => ?_, fun tag rest hd => ⟨fun hi => ?_, fun bound hi => ?_⟩, ?_, fun kind => ?_⟩
  · obtain ⟨cause, t, ht⟩ := readTag_of_untagged hreader hd
    refine ⟨cause, ?_⟩
    rw [houtcome, readTagged_of_resolve_error (resolve_of_eq ht)]
  · have ht := readTag_of_tagged hreader hd
    have hn : env.bound? warm.registry tag = none := by simp [bound?, hi]
    have hr := resolve_of_eq ht
    simp only [hn] at hr
    rw [houtcome, readTagged_of_resolve_error hr]
  · obtain ⟨htag, name, rfl, hbound⟩ := bound?_of_input? hwarm hi
    refine ⟨htag, .record name, rfl, ?_⟩
    have hr := resolve_of_eq (readTag_of_tagged hreader hd)
    simp only [hbound] at hr
    have hw : (Reader.mk [.object rest]).weight < d.weight := weight_tagged? hd
    have hload := env.loader_new_eq (s := { warm with reader := ⟨[.object rest]⟩ }) hw (.record name)
    rcases hl : env.loadNew (.record name) { warm with reader := ⟨[.object rest]⟩ } with ⟨e | v, u⟩
    · simp only
      rw [houtcome, readTagged_of_load_error hr (hload.trans hl)]
    · refine ⟨target?_of_loadNew hl, ?_⟩
      have hu : Warms env.schema warm.registry u.registry := by
        have := warms_loadNew env (.record name) { warm with reader := ⟨[.object rest]⟩ }
        rwa [hl] at this
      rw [houtcome, readTagged_of_load hr (hload.trans hl), accepts_eq (hwarm.warms hu),
        hu.upcaster?_eq]
      simp only [Bool.or_eq_true, keeps_iff hb]
  · obtain ⟨is, hr, -⟩ := hwarm.recounts
    exact hr.unknown.2.1 env.archive
  · rw [houtcome, houtcome, readTagged_kind advances hstart kind .shared]

def holderRun : List Use := [.register (.record "Holder"), .install named]

/-- Behind the base the holder is read, and the rival's own reference refuses the tag as incompatible. -/
theorem contested_polymorphic :
    let registry := empty.uses contested holderRun
    let document := Json.object [("type", .string "name")]
    (loadNew ⟨contested, .jsonReader⟩ (.ref .shared (.base "Named")) ⟨.ofJson document, registry, []⟩).1 =
      .ok (.ref (.base "Named") (.record "Holder" [])) ∧
    (loadNew ⟨contested, .jsonReader⟩ (.ref .shared (.record "Rival")) ⟨.ofJson document, registry, []⟩).1 =
      .error (.incompatibleType "name" "Rival") := by
  intro registry document
  have direct : ∀ c, Use.install c ∈ holderRun → c.Keeps contested Insertion.Direct := by
    intro c hc
    simp only [holderRun, List.mem_cons, reduceCtorEq, Use.install.injEq, List.not_mem_nil, or_false, false_or] at hc
    subst hc
    exact Registration.keeps_ofCalls (by simp [insertions, Call.insertions, Insertion.Direct])
  have named := loadNew_polymorphic ⟨contested, .jsonReader⟩ holderRun direct (.base "Named") rfl document []
  have rival := loadNew_polymorphic ⟨contested, .jsonReader⟩ holderRun direct (.record "Rival") rfl document []
  obtain ⟨-, _, ht, hn⟩ := (named.2.1 "name" [] rfl).2 (.record "Holder") rfl
  cases ht
  obtain ⟨-, _, ht, hr⟩ := (rival.2.1 "name" [] rfl).2 (.record "Holder") rfl
  cases ht
  exact ⟨hn.2, hr.2⟩

end Loading

end Archivist
