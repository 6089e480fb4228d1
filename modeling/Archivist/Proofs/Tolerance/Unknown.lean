import Archivist.Proofs.Loading.Descent
import Archivist.Proofs.Loading.Framing
import Archivist.Proofs.Tolerance.Names

/-!
Fields that no record asks for. Main statement: a field whose name neither a record has nor one that is flattened
into it, put anywhere into a document, changes nothing about what is loaded, about the error if that fails, and
about what is loaded until then.
-/

set_option autoImplicit false

namespace Archivist

open Relation ReadState Reader

namespace Fields

theorem lacking_insert (name : String) (before after : Fields) (c : Json) :
    (before ++ (name, c) :: after).lacking [name] = (before ++ after).lacking [name] := by
  simp [lacking]

end Fields

namespace Schema

variable (S : Schema)

/-- A record, or a reference to one that carries no tag. -/
inductive Plain : Ty → Prop where
  | record (name : String) : Plain (.record name)
  | ref (kind : RefKind) {name : String} (hp : S.isPolymorphic (.record name) = false) :
    Plain (.ref kind (.record name))

/-- Whatever is loaded from the node of the type is a record, or a reference to one without a tag. -/
def RecordsOnly (type : Ty) : Prop := ∀ part, ReflTransGen S.Flat type part → S.Plain part

/-- `S.HasName type key`: a record that is loaded from the node of the type has a field of the name. -/
def HasName (type : Ty) (key : String) : Prop :=
  ∃ name, ReflTransGen S.Flat type (.record name) ∧
    ∃ field ∈ S.fieldsOf name, (field.mode = .required ∨ field.mode = .optional) ∧ field.name = key

variable {S} {type part : Ty} {key : String}

theorem RecordsOnly.flat (h : S.RecordsOnly type) (hp : S.Flat type part) : S.RecordsOnly part :=
  fun other ho => h other (ho.head hp)

theorem HasName.whole (hp : S.Flat type part) (h : S.HasName part key) : S.HasName type key := by
  obtain ⟨name, hn, hf⟩ := h
  exact ⟨name, hn.head hp, hf⟩

end Schema

namespace Loading

/-- Objects that are the same but for fields of some names, amid the same nodes and with the same registry. -/
def Beside (keys : List String) (rest : List Node) (s t : ReadState) : Prop :=
  ∃ n m fields fields', s.reader = ⟨n :: rest⟩ ∧ t.reader = ⟨m :: rest⟩ ∧ n.fields? = some fields ∧
    m.fields? = some fields' ∧ fields.lacking keys = fields'.lacking keys ∧ s.registry = t.registry

def Beneath (keys : List String) (rest : List Node) (s t : ReadState) : Prop :=
  ∃ left left' : Fields, left.lacking keys = left'.lacking keys ∧
    Amid (.object left :: rest) (.object left' :: rest) s t

/-- A step that does the same to both objects, and leaves the same value if it fails. -/
abbrev Overlooks {α : Type} (keys : List String) (rest : List Node) (x : Attempt (Slot α) Unit) : Prop :=
  Coupled (Slot.Stopping FailsAlike) (Slot.Related (Beside keys rest) Eq) (Slot.Related (Beside keys rest) Eq) Eq x x

variable {env : Loading} {keys : List String} {rest : List Node}

theorem Beside.registry_eq {s t : ReadState} (h : Beside keys rest s t) : s.registry = t.registry := by
  obtain ⟨_, _, _, _, -, -, -, -, -, hr⟩ := h
  exact hr

section Steps

variable {name : String} {x : Attempt (Slot Value) Unit}

theorem beside_startField (hn : name ∉ keys) :
    Coupled FailsAlike (Beside keys rest) (Beneath keys rest) Eq (onReader (startField name))
      (onReader (startField name)) := by
  rintro s t ⟨n, m, fields, fields', hs, ht, hf, hf', heq, hr⟩
  rcases Fields.take?_of_lacking_eq heq hn with ⟨htake, htake'⟩ | ⟨d, left, left', htake, htake', hleft⟩
  · rw [onReader_of_eq (hs ▸ startField_of_absent hf htake), onReader_of_eq (ht ▸ startField_of_absent hf' htake')]
    exact .error ⟨rfl, hr⟩
  · rw [onReader_of_eq (hs ▸ startField_of_take? hf htake), onReader_of_eq (ht ▸ startField_of_take? hf' htake')]
    exact .ok rfl ⟨left, left', hleft, .value d, rfl, rfl, hr⟩

theorem beside_enterOptional (hn : name ∉ keys) {s t : ReadState} (h : Beside keys rest s t) :
    (∃ s' t', enterOptional name s = (.ok true, s') ∧ enterOptional name t = (.ok true, t') ∧
      Beneath keys rest s' t') ∨
    ∃ s' t', enterOptional name s = (.ok false, s') ∧ enterOptional name t = (.ok false, t') ∧
      Beside keys rest s' t' := by
  obtain ⟨n, m, fields, fields', hs, ht, hf, hf', heq, hr⟩ := h
  rcases Fields.take?_of_lacking_eq heq hn with ⟨htake, htake'⟩ | ⟨d, left, left', htake, htake', hleft⟩
  · simp only [enterOptional, onReader_of_eq (hs ▸ startField_of_absent hf htake),
      onReader_of_eq (ht ▸ startField_of_absent hf' htake')]
    exact .inr ⟨_, _, rfl, rfl, _, _, fields, fields', rfl, rfl, rfl, rfl, heq, hr⟩
  · simp only [enterOptional, onReader_of_eq (hs ▸ startField_of_take? hf htake),
      onReader_of_eq (ht ▸ startField_of_take? hf' htake')]
    exact .inl ⟨_, _, rfl, rfl, left, left', hleft, .value d, rfl, rfl, hr⟩

theorem beneath_finishNode :
    Coupled FailsAlike (Beneath keys rest) (Beside keys rest) Eq (onReader finishNode) (onReader finishNode) := by
  rintro s t ⟨left, left', hleft, n, hs, ht, hr⟩
  rw [onReader_of_eq (hs ▸ finishNode_cons), onReader_of_eq (ht ▸ finishNode_cons)]
  exact .ok rfl ⟨_, _, left, left', rfl, rfl, rfl, rfl, hleft, hr⟩

theorem framed_beneath (hx : Framed x) :
    Coupled (Slot.Stopping FailsAlike) (Slot.Related (Beneath keys rest) Eq)
      (Slot.Related (Beneath keys rest) Eq) Eq x x := by
  rintro p q ⟨⟨left, left', hleft, h⟩, hv⟩
  obtain ⟨a, b, p', q', hp, hq, ha, h', hv'⟩ | ⟨e, e', p', q', hp, hq, h'⟩ := (hx _ _ ⟨h, hv⟩).cases
  · rw [hp, hq]
    exact .ok ha ⟨⟨left, left', hleft, h'⟩, hv'⟩
  · rw [hp, hq]
    exact .error h'

theorem overlooks_fillField {deep : Ty → Attempt (Slot Value) Unit} (hd : ∀ type, Framed (deep type))
    {field : Field} (hm : field.mode ≠ .flattened)
    (hn : field.mode = .required ∨ field.mode = .optional → field.name ∉ keys) :
    Overlooks keys rest (fillField deep field) := by
  have hinside : Coupled (Slot.Stopping FailsAlike) (Slot.Related (Beneath keys rest) Eq)
      (Slot.Related (Beside keys rest) Eq) Eq (deep field.type >>= fun _ => Slot.lift (onReader finishNode))
      (deep field.type >>= fun _ => Slot.lift (onReader finishNode)) :=
    (framed_beneath (hd field.type)).bind fun _ _ _ => beneath_finishNode.liftStopping
  cases hmode : field.mode with
  | skipped =>
    simp only [fillField, hmode]
    exact .pure rfl
  | flattened => exact absurd hmode hm
  | required =>
    simp only [fillField, hmode]
    exact (beside_startField (hn (.inl hmode))).liftStopping.bind fun _ _ _ => hinside
  | optional =>
    simp only [fillField, hmode]
    intro p q h
    obtain ⟨s', t', hs, ht, h'⟩ | ⟨s', t', hs, ht, h'⟩ := beside_enterOptional (hn (.inr hmode)) h.1
    · rw [Attempt.bind_of_eq_ok (Slot.lift_of_eq hs), Attempt.bind_of_eq_ok (Slot.lift_of_eq ht)]
      exact hinside ⟨h', h.2⟩
    · rw [Attempt.bind_of_eq_ok (Slot.lift_of_eq hs), Attempt.bind_of_eq_ok (Slot.lift_of_eq ht)]
      exact .ok rfl ⟨h', h.2⟩

theorem overlooks_fillRecord {deep flat : Ty → Attempt (Slot Value) Unit} (hd : ∀ type, Framed (deep type))
    (hf : ∀ field ∈ env.schema.fieldsOf name, field.mode = .flattened → Overlooks keys rest (flat field.type))
    (hn : ∀ key ∈ keys, ¬ env.schema.HasName (.record name) key) :
    Overlooks keys rest (env.fillRecord name deep flat) := by
  refine .withinStopping _ _ (.inOrderStopping (List.forall₂_same.2 fun x hx => ?_))
  obtain ⟨field, hfield, rfl⟩ := List.mem_map.1 hx
  by_cases hm : field.mode = .flattened
  · simp only [hm, ↓reduceIte, fillField]
    exact hf field hfield hm
  · simp only [hm, ↓reduceIte]
    exact overlooks_fillField hd hm fun hmode hkey => hn _ hkey ⟨name, .refl, field, hfield, hmode, rfl⟩

end Steps

/-- In any number of steps, the loads of types that consist of records do not see fields of other names. -/
theorem overlooks_within (weight steps : Nat) {type : Ty} (htype : env.schema.RecordsOnly type)
    (hn : ∀ key ∈ keys, ¬ env.schema.HasName type key) :
    Coupled FailsAlike (Beside keys rest) (Beside keys rest) Eq (env.newWithin (env.loader weight) steps type)
      (env.newWithin (env.loader weight) steps type) ∧
    Overlooks keys rest (env.intoWithin (env.loader weight) steps type) := by
  induction steps generalizing type with
  | zero =>
    simp only [newWithin, intoWithin]
    exact ⟨.fail fun h => ⟨rfl, h.registry_eq⟩, .fail fun h => ⟨⟨rfl, h.1.registry_eq⟩, h.2⟩⟩
  | succ steps ih =>
    have hpart : ∀ part, env.schema.Flat type part → _ := fun part hp =>
      ih (htype.flat hp) fun key hk h => hn key hk (h.whole hp)
    cases htype type .refl with
    | record name =>
      have hdeep := ((Framed.stepwise env.schema).loader env weight).2
      have hr := overlooks_fillRecord hdeep (fun field hf hm => (hpart _ (.field hf hm)).2) hn
      simp only [newWithin, intoWithin]
      exact ⟨.fresh rfl hr.failing, hr⟩
    | @ref kind name hp =>
      have hitem := (hpart _ (.plain hp rfl)).1
      have hr := hitem.bind fun v w (h : v = w) => .pure (congrArg (Value.ref (.record name)) h)
      simp only [newWithin, intoWithin, readRef, hp, Bool.false_eq_true, ↓reduceIte, readPlain, Target.ty?]
      exact ⟨hr, hr.assignStopping⟩

section Loads

variable {type : Ty} (htype : env.schema.RecordsOnly type) (hn : ∀ key ∈ keys, ¬ env.schema.HasName type key)

include htype hn

theorem overlooks_loader (weight : Nat) :
    Coupled FailsAlike (Beside keys rest) (Beside keys rest) Eq ((env.loader (weight + 1)).new type)
      ((env.loader (weight + 1)).new type) ∧
    Overlooks keys rest ((env.loader (weight + 1)).into type) :=
  overlooks_within weight (env.steps type) htype hn

variable {fields fields' : Fields} {s : ReadState} (heq : fields.lacking keys = fields'.lacking keys)

include heq

-- a loader that is heavy enough for both documents reads each of them as its own would
theorem load_of_lacking_eq (prior : Value) :
    let load := fun fields => env.load type ⟨{ s with reader := ⟨.value (.object fields) :: rest⟩ }, prior⟩
    (load fields').1 = (load fields).1 ∧ (load fields').2.value = (load fields).2.value ∧
      (load fields').2.state.registry = (load fields).2.state.registry := by
  have hbeside : Slot.Related (Beside keys rest) Eq
      (⟨{ s with reader := ⟨.value (.object fields) :: rest⟩ }, prior⟩ : Slot Value)
      ⟨{ s with reader := ⟨.value (.object fields') :: rest⟩ }, prior⟩ :=
    ⟨⟨_, _, fields, fields', rfl, rfl, rfl, rfl, heq, rfl⟩, rfl⟩
  have hload := (overlooks_loader htype hn (max (Json.object fields).weight (Json.object fields').weight)).2 hbeside
  rw [env.loader_into_eq, env.loader_into_eq] at hload
  · rcases hload.cases with ⟨_, _, p, q, hx, hy, -, hstate, hv⟩ | ⟨e, _, p, q, hx, hy, ⟨rfl, hr⟩, hv⟩
    · simp only [hx, hy]
      exact ⟨trivial, hv.symm, hstate.registry_eq.symm⟩
    · simp only [hx, hy]
      exact ⟨trivial, hv.symm, hr.symm⟩
  · exact Nat.lt_succ_of_le (Nat.le_max_right ..)
  · exact Nat.lt_succ_of_le (Nat.le_max_left ..)

theorem loadNew_of_lacking_eq :
    let loadNew := fun fields => env.loadNew type { s with reader := ⟨.value (.object fields) :: rest⟩ }
    (loadNew fields').1 = (loadNew fields).1 ∧ (loadNew fields').2.registry = (loadNew fields).2.registry := by
  have hbeside : Beside keys rest { s with reader := ⟨.value (.object fields) :: rest⟩ }
      { s with reader := ⟨.value (.object fields') :: rest⟩ } := ⟨_, _, fields, fields', rfl, rfl, rfl, rfl, heq, rfl⟩
  have hload := (overlooks_loader htype hn (max (Json.object fields).weight (Json.object fields').weight)).1 hbeside
  rw [env.loader_new_eq, env.loader_new_eq] at hload
  · rcases hload.cases with ⟨v, _, p, q, hx, hy, rfl, hstate⟩ | ⟨e, _, p, q, hx, hy, rfl, hr⟩
    · simp only [hx, hy]
      exact ⟨trivial, hstate.registry_eq.symm⟩
    · simp only [hx, hy]
      exact ⟨trivial, hr.symm⟩
  · exact Nat.lt_succ_of_le (Nat.le_max_right ..)
  · exact Nat.lt_succ_of_le (Nat.le_max_left ..)

end Loads

/-- A field of a name that a record does not have, nor any record that is flattened into it, is ignored: wherever it
stands in the document, the record is loaded as it would be without the field. A load in place comes to the same
result or error and leaves the same value, a new value is the same, and so is what is bound meanwhile. -/
theorem unknown_field_ignored (env : Loading) (name key : String) (hname : env.schema.RecordsOnly (.record name))
    (hkey : ¬ env.schema.HasName (.record name) key) (before after : Fields) (c : Json) (s : ReadState)
    (rest : List Node) :
    let amid := fun fields : Fields => { s with reader := ⟨.value (.object fields) :: rest⟩ }
    (∀ prior,
      let plain := env.load (.record name) ⟨amid (before ++ after), prior⟩
      let extended := env.load (.record name) ⟨amid (before ++ (key, c) :: after), prior⟩
      extended.1 = plain.1 ∧ extended.2.value = plain.2.value ∧
        extended.2.state.registry = plain.2.state.registry) ∧
    let plain := env.loadNew (.record name) (amid (before ++ after))
    let extended := env.loadNew (.record name) (amid (before ++ (key, c) :: after))
    extended.1 = plain.1 ∧ extended.2.registry = plain.2.registry := by
  have hn : ∀ key' ∈ [key], ¬ env.schema.HasName (.record name) key' := List.forall_mem_singleton.2 hkey
  have heq := (Fields.lacking_insert key before after c).symm
  exact ⟨load_of_lacking_eq hname hn heq, loadNew_of_lacking_eq hname hn heq⟩

end Loading

namespace Badge

open Loading

def number : Field := ⟨"number", .atom (.int .u16), .required, .atom (.int .u16 0)⟩

def holder : Field :=
  ⟨"", .ref .box (.record "Holder"), .flattened, .ref (.record "Holder") (.record "Holder" [.atom (.text "")])⟩

def expired : Field := ⟨"expired", .atom .bool, .optional, .atom (.bool false)⟩

def nameField : Field := ⟨"name", .atom .text, .required, .atom (.text "")⟩

def schema : Schema where
  path := "badge::"
  records := [⟨"Holder", [nameField], .plain⟩, ⟨"Badge", [number, holder, expired], .plain⟩]

def env : Loading := { schema }

theorem flat_badge {part : Ty} (h : ReflTransGen schema.Flat (.record "Badge") part) :
    part = .record "Badge" ∨ part = .ref .box (.record "Holder") ∨ part = .record "Holder" := by
  induction h with
  | refl => exact .inl rfl
  | tail _ hstep ih =>
    rcases ih with rfl | rfl | rfl
    · cases hstep with
      | @field _ field hf hm =>
        have hf : field ∈ [number, holder, expired] := hf
        simp only [List.mem_cons, List.not_mem_nil, or_false] at hf
        rcases hf with rfl | rfl | rfl
        · cases hm
        · exact .inr (.inl rfl)
        · cases hm
    · cases hstep with
      | plain _ ht =>
        cases ht
        exact .inr (.inr rfl)
    · cases hstep with
      | @field _ field hf hm =>
        have hf : field ∈ [nameField] := hf
        simp only [List.mem_singleton] at hf
        subst hf
        cases hm

theorem recordsOnly : env.schema.RecordsOnly (.record "Badge") := by
  intro part h
  rcases flat_badge h with rfl | rfl | rfl
  · exact .record _
  · exact .ref _ rfl
  · exact .record _

theorem hasName_badge {key : String} (h : env.schema.HasName (.record "Badge") key) :
    key ∈ ["number", "expired", "name"] := by
  obtain ⟨name, hflat, field, hf, hm, rfl⟩ := h
  rcases flat_badge hflat with heq | heq | heq
  · cases heq
    have hnames : ∀ field ∈ [number, holder, expired], field.mode = .required ∨ field.mode = .optional →
      field.name ∈ ["number", "expired", "name"] := by decide
    exact hnames field hf hm
  · cases heq
  · cases heq
    have hnames : ∀ field ∈ [nameField], field.mode = .required ∨ field.mode = .optional →
      field.name ∈ ["number", "expired", "name"] := by decide
    exact hnames field hf hm

/-- A color that badges do not have is ignored, also where the flag at the end cannot be read: the number and the
holder are loaded by then. -/
theorem color_ignored :
    let amid := fun fields : Fields => (⟨⟨[.value (.object fields)]⟩, .empty, []⟩ : ReadState)
    let prior : Value := .record "Badge" [.atom (.int .u16 1), .absent, .atom (.bool true)]
    let loaded := env.load (.record "Badge") ⟨amid [("number", .int 7), ("color", .object []), ("name", .string "Ann"),
      ("expired", .int 2)], prior⟩
    loaded.1 = .error (.malformed (.wrongLeaf "bool" (.int 2))) ∧
    loaded.2.value = .record "Badge" [.atom (.int .u16 7),
      .ref (.record "Holder") (.record "Holder" [.atom (.text "Ann")]), .atom (.bool true)] := by
  intro amid prior loaded
  have hkey : ¬ env.schema.HasName (.record "Badge") "color" := fun h => absurd (hasName_badge h) (by decide)
  have hplain := (unknown_field_ignored env "Badge" "color" recordsOnly hkey [("number", .int 7)]
    [("name", .string "Ann"), ("expired", .int 2)] (.object []) ⟨⟨[]⟩, .empty, []⟩ []).1 prior
  simp only [List.cons_append, List.nil_append] at hplain
  obtain ⟨hresult, hvalue, -⟩ := hplain
  refine ⟨hresult.trans ?_, hvalue.trans ?_⟩
  · decide +kernel
  · rfl

end Badge

end Archivist
