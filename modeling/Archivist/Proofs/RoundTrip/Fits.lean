import Mathlib.Data.List.Forall2
import Archivist.Proofs.Loading.Lasting
import Archivist.Proofs.Number.Exact

/-!
Values that can be read back from the document they are written to, and what it means to get them back.
-/

set_option autoImplicit false

namespace Archivist

/-- Equal up to the order of the entries of maps. -/
inductive Value.Same : Value → Value → Prop where
  | refl (v : Value) : Same v v
  | present {v w : Value} (h : Same v w) : Same (.present v) (.present w)
  | list {vs ws : List Value} (h : List.Forall₂ Same vs ws) : Same (.list vs) (.list ws)
  | map {key : KeyTy} {es fs : Entries} (hk : (es.map Prod.fst).Perm (fs.map Prod.fst))
    (h : ∀ e ∈ es, ∀ f ∈ fs, e.1 = f.1 → Same e.2 f.2) : Same (.map key es) (.map key fs)
  | record {name : String} {vs ws : List Value} (h : List.Forall₂ Same vs ws) :
    Same (.record name vs) (.record name ws)
  | ref {declared : Target} {v w : Value} (h : Same v w) : Same (.ref declared v) (.ref declared w)

/-- The values of an atomic type. -/
def AtomTy.Has : AtomTy → Atom → Prop
  | .bool, .bool _ | .char, .char _ | .text, .text _ => True
  | .int kind, .int kind' n => kind' = kind ∧ kind.InRange n
  | .float width, .float width' x => width' = width ∧ width.format.Has x
  | _, _ => False

def Ty.isOption : Ty → Bool
  | .option _ => true
  | _ => false

/-- Types whose values can be written into the node of a record around them: records, references to
records, and maps with textual keys. -/
def Ty.canFlatten : Ty → Bool
  | .record _ | .ref _ (.record _) | .ref _ (.base _) => true
  | .map _ key _ => key.isTextual
  | _ => false

namespace Schema

variable (S : Schema)

/-- The keys of a map that can be told from their field names. -/
def HasKey : KeyTy → Atom → Prop
  | .atom type, a => type.Has a
  | key, .text text => ∀ name, S.toField? key text = some name → S.ofField? key name = some text
  | _, _ => False

/-- What a new value of a type is loaded into. Only records and arrays keep anything of it. -/
def blank : Ty → Value
  | .record name => S.initialOf name
  | .array item length => .list (List.replicate length (blank item))
  | _ => .absent

end Schema

namespace Value

mutual

/-- Whether loading the value takes all fields that are left of a node: it is a map with textual keys,
or flattens one. -/
def isOpen (S : Schema) : Value → Bool
  | .present item => item.isOpen S
  | .map key _ => key.isTextual
  | .record name fields => isOpenAmong S (S.fieldsOf name) fields
  | .ref _ item => item.isOpen S
  | _ => false

def isOpenAmong (S : Schema) (declared : List Field) : List Value → Bool
  | [] => false
  | item :: rest =>
    match declared with
    | [] => false
    | field :: declared => field.mode = .flattened && item.isOpen S || isOpenAmong S declared rest

end

end Value

/-- What values are written and read back with: the registry that a run of uses has led to, an archive
for either way, and the tagged records that references are declared with. -/
structure Exchange where
  schema : Schema
  run : List Registry.Use
  writer : Archive := .jsonWriter
  reader : Archive := .jsonReader
  reach : List String

namespace Exchange

variable (E : Exchange)

def registry : Registry := Registry.empty.uses E.schema E.run

def saving (unknownTypes : UnknownTypes) : Saving := ⟨E.schema, E.registry, E.writer, unknownTypes⟩

def loading : Loading := ⟨E.schema, E.reader⟩

/-- A record owns its tag, or the tag is free and no other record in reach has it. -/
def Claims (r : Registry) (name : String) : Prop :=
  let tag := E.schema.tag (.record name)
  tag ≠ unknownTag ∧
    (r.typeOf? tag = some (.record name) ∨
      r.typeOf? tag = none ∧ ∀ other ∈ E.reach, E.schema.tag (.record other) = tag → other = name)

/-- A record that can stand behind a base: it is bound under its own tag both ways, and related. -/
structure Serves (base name : String) : Prop where
  output : E.registry.output? E.writer (.record name) = some ⟨.record name, E.schema.tag (.record name)⟩
  input : E.registry.input? E.reader (E.schema.tag (.record name)) = some (.record name)
  related : E.registry.upcaster? (.base base) (.record name) = some (.of (.record name))

/-- `E.Fits prior type v`: the value is of the type and can be read back, in place, into `prior`. -/
inductive Fits : Value → Ty → Value → Prop where
  | atom {prior : Value} {type : AtomTy} {a : Atom} (h : type.Has a) : Fits prior (.atom type) (.atom a)
  | absent {prior : Value} {item : Ty} : Fits prior (.option item) .absent
  /-- What may be absent is never written as null itself. -/
  | present {prior v : Value} {item : Ty} (hn : item.isOption = false)
    (h : Fits (E.schema.blank item) item v) : Fits prior (.option item) (.present v)
  | list {prior : Value} {kind : ListKind} {item : Ty} {vs : List Value}
    (h : ∀ v ∈ vs, Fits (E.schema.blank item) item v) : Fits prior (.list kind item) (.list vs)
  | array {priors vs : List Value} {item : Ty} (hl : priors.length = vs.length)
    (h : ∀ x ∈ priors.zip vs, Fits x.1 item x.2) :
    Fits (.list priors) (.array item vs.length) (.list vs)
  /-- Each key is there once and can be told from its field name. -/
  | map {prior : Value} {kind : MapKind} {key : KeyTy} {item : Ty} {entries : Entries}
    (hk : (entries.map Prod.fst).Nodup) (ha : ∀ e ∈ entries, E.schema.HasKey key e.1)
    (h : ∀ e ∈ entries, Fits (E.schema.blank item) item e.2) :
    Fits prior (.map kind key item) (.map key entries)
  /-- Skipped fields are as they were before. A field that takes all that is left of the node is the
  last one to be loaded. -/
  | record {name : String} {priors vs : List Value}
    (hp : priors.length = (E.schema.fieldsOf name).length)
    (hv : vs.length = (E.schema.fieldsOf name).length)
    (skipped : ∀ x ∈ (E.schema.fieldsOf name).zip (priors.zip vs), x.1.mode = .skipped → x.2.2 = x.2.1)
    (loaded : ∀ x ∈ (E.schema.fieldsOf name).zip (priors.zip vs), x.1.mode ≠ .skipped →
      Fits x.2.1 x.1.type x.2.2)
    (flat : ∀ field ∈ E.schema.fieldsOf name, field.mode = .flattened → field.type.canFlatten = true)
    (last : ((E.schema.fieldsOf name).zip vs).Pairwise fun x y =>
      x.1.mode = .flattened → x.2.isOpen E.schema = true → y.1.mode = .skipped) :
    Fits (.record name priors) (.record name) (.record name vs)
  | plain {prior v : Value} {kind : RefKind} {target : Target} {type : Ty}
    (hi : E.schema.identity target = .plain) (ht : target.ty? = some type)
    (h : Fits (E.schema.blank type) type v) : Fits prior (.ref kind target) (.ref target v)
  | tagged {prior v : Value} {kind : RefKind} {name : String}
    (hi : (E.schema.identity (.record name)).isTagged = true) (hr : name ∈ E.reach)
    (h : Fits (E.schema.initialOf name) (.record name) v) :
    Fits prior (.ref kind (.record name)) (.ref (.record name) v)
  | base {prior v : Value} {kind : RefKind} {base name : String} (hs : E.Serves base name)
    (h : Fits (E.schema.initialOf name) (.record name) v) :
    Fits prior (.ref kind (.base base)) (.ref (.base base) v)

/-- A registry in the course of reading: what was there at the start is there, and every record in
reach can still be read by its own tag. -/
structure Ready (r : Registry) : Prop where
  grown : E.registry.Extends r
  recounts : ∃ is, Registry.Recounts E.schema is r
  claims : ∀ name ∈ E.reach, E.Claims r name

namespace Ready

variable {E} {r : Registry} {name : String}

theorem start (h : ∀ name ∈ E.reach, E.Claims E.registry name) : E.Ready E.registry := by
  obtain ⟨is, hr, -⟩ := (Registry.built_uses (.empty E.schema _) E.run).recounts
  exact ⟨.refl _, ⟨is, hr⟩, h⟩

theorem isRefused (h : E.Ready r) (hn : name ∈ E.reach) :
    r.isRefused (E.schema.info (.record name)) = false := by
  obtain ⟨hu, ho⟩ := h.claims name hn
  exact (r.isRefused_eq_false_iff _).2 ⟨hu, ho.symm.imp And.left id⟩

theorem claims_insertInput (h : E.Ready r) (hn : name ∈ E.reach) (a : Archive) {other : String}
    (ho : other ∈ E.reach) :
    E.Claims (r.insertInput (E.schema.info (.record name)) a).registry other := by
  obtain ⟨hu, howner⟩ := h.claims other ho
  refine ⟨hu, ?_⟩
  rw [Registry.typeOf?_insertInput, Registry.typeOf?_claim]
  simp only [Schema.tag_info, Schema.id_info]
  by_cases ht : E.schema.tag (.record other) = E.schema.tag (.record name)
  · rcases howner with hown | ⟨hfree, hunique⟩
    · simp [hown]
    · have := hunique name hn ht.symm
      subst this
      simp [hfree, hu]
  · simpa [ht] using howner

theorem ensureInput (h : E.Ready r) (hn : name ∈ E.reach) (a : Archive) :
    E.Ready (r.ensureInput (E.schema.info (.record name)) a).registry ∧
    (r.ensureInput (E.schema.info (.record name)) a).registry.input? a (E.schema.tag (.record name)) =
      some (.record name) := by
  obtain ⟨is, hrec⟩ := h.recounts
  have hf := h.isRefused hn
  have bound : r.input? a (E.schema.tag (.record name)) = none ∨
      r.input? a (E.schema.tag (.record name)) = some (.record name) := by
    cases hi : r.input? a (E.schema.tag (.record name)) with
    | none => exact .inl rfl
    | some t =>
      have ht := hrec.typeOf_of_input hi
      rcases (h.claims name hn).2 with hown | ⟨hfree, -⟩
      · rw [hown] at ht
        cases ht
        exact .inr rfl
      · rw [hfree] at ht
        cases ht
  unfold Registry.ensureInput
  rcases bound with hi | hi
  · rw [if_neg (by simp [Registry.isInputSettled, hf, hi])]
    refine ⟨⟨h.grown.trans (r.extends_insertInput _ a), ⟨_, hrec.insertInput (.record name) a⟩,
      fun other ho => h.claims_insertInput hn a ho⟩, ?_⟩
    rw [Registry.input?_insertInput]
    simp [hf, hi]
  · rw [if_pos (by simp [Registry.isInputSettled, hi])]
    exact ⟨h, hi⟩

end Ready

end Exchange

end Archivist
