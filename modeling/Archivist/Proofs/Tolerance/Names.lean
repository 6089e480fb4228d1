import Archivist.Proofs.Loading.Forgetting
import Archivist.Proofs.Loading.Settled

/-!
The names that a load asks of the fields of one node, documents that lack some names, and values whose
optional fields are set back.
-/

set_option autoImplicit false

namespace Archivist

namespace Fields

/-- The fields without those of some names. -/
def lacking (keys : List String) (fields : Fields) : Fields := fields.filter fun field => field.1 ∉ keys

variable {keys : List String} {fields left : Fields} {name : String} {d : Json}

theorem mem_names_lacking : name ∈ (fields.lacking keys).names ↔ name ∈ fields.names ∧ name ∉ keys := by
  simp only [lacking, names, List.mem_map, List.mem_filter, decide_eq_true_eq]
  constructor
  · rintro ⟨field, ⟨hf, hk⟩, rfl⟩
    exact ⟨⟨field, hf, rfl⟩, hk⟩
  · rintro ⟨⟨field, hf, rfl⟩, hk⟩
    exact ⟨field, ⟨hf, hk⟩, rfl⟩

theorem lacking_eq_self (h : ∀ key ∈ keys, key ∉ fields.names) : fields.lacking keys = fields :=
  List.filter_eq_self.2 fun field hf => decide_eq_true fun hk => h field.1 hk (List.mem_map_of_mem hf)

theorem take?_lacking_of_mem (h : name ∈ keys) : (fields.lacking keys).take? name = none :=
  take?_eq_none.2 fun hn => (mem_names_lacking.1 hn).2 h

theorem take?_lacking_of_none (h : fields.take? name = none) : (fields.lacking keys).take? name = none :=
  take?_eq_none.2 fun hn => take?_eq_none.1 h (mem_names_lacking.1 hn).1

theorem take?_lacking (hk : name ∉ keys) (h : fields.take? name = some (d, left)) :
    (fields.lacking keys).take? name = some (d, left.lacking keys) := by
  induction fields generalizing left with
  | nil => cases h
  | cons field fields ih =>
    obtain ⟨key, value⟩ := field
    by_cases hkey : key = name
    · simp only [take?, hkey, ↓reduceIte] at h
      cases h
      simp [lacking, hkey, hk, take?]
    · simp only [take?, hkey, ↓reduceIte] at h
      obtain ⟨⟨found, rest⟩, hf, he⟩ := Option.map_eq_some_iff.1 h
      cases he
      have hrest := ih hf
      by_cases hin : key ∈ keys
      · simpa [lacking, hin] using hrest
      · simpa [lacking, hin, take?, hkey] using hrest

theorem lacking_of_take? (hk : name ∈ keys) (h : fields.take? name = some (d, left)) :
    left.lacking keys = fields.lacking keys := by
  induction fields generalizing left with
  | nil => cases h
  | cons field fields ih =>
    obtain ⟨key, value⟩ := field
    by_cases hkey : key = name
    · simp only [take?, hkey, ↓reduceIte] at h
      cases h
      simp [lacking, hkey, hk]
    · simp only [take?, hkey, ↓reduceIte] at h
      obtain ⟨⟨found, rest⟩, hf, he⟩ := Option.map_eq_some_iff.1 h
      cases he
      have hrest := ih hf
      simp only [lacking] at hrest ⊢
      rw [List.filter_cons, List.filter_cons, hrest]

theorem take?_of_lacking_eq {fields' : Fields} (h : fields.lacking keys = fields'.lacking keys) (hn : name ∉ keys) :
    (fields.take? name = none ∧ fields'.take? name = none) ∨
    ∃ d left left', fields.take? name = some (d, left) ∧ fields'.take? name = some (d, left') ∧
      left.lacking keys = left'.lacking keys := by
  rcases hf : fields.take? name with _ | ⟨d, left⟩ <;> rcases hf' : fields'.take? name with _ | ⟨d', left'⟩
  · exact .inl ⟨rfl, rfl⟩
  · have hnone : (fields.lacking keys).take? name = none := take?_lacking_of_none hf
    rw [h, take?_lacking hn hf'] at hnone
    cases hnone
  · have hnone : (fields'.lacking keys).take? name = none := take?_lacking_of_none hf'
    rw [← h, take?_lacking hn hf] at hnone
    cases hnone
  · have hboth := take?_lacking hn hf
    rw [h, take?_lacking hn hf'] at hboth
    obtain ⟨rfl, hleft⟩ := Prod.mk.inj (Option.some.inj hboth)
    exact .inr ⟨d', left, left', rfl, rfl, hleft.symm⟩

theorem mem_of_take? (h : fields.take? name = some (d, left)) {field : String × Json} (hf : field ∈ fields)
    (hn : field.1 ≠ name) : field ∈ left := by
  rcases List.mem_cons.1 ((perm_of_take? h).mem_iff.1 hf) with rfl | hl
  · exact absurd rfl hn
  · exact hl

theorem not_mem_of_take? (hd : fields.names.Nodup) (h : fields.take? name = some (d, left)) :
    name ∉ left.names :=
  (List.nodup_cons.1 ((names_perm_of_take? h).nodup_iff.1 hd)).1

end Fields

namespace Schema

variable (S : Schema)

/-- A record of the root, or one that its fields are flattened into, at any depth: all of them are read from
one node. -/
inductive Flattens (root : String) : String → Prop where
  | root : Flattens root root
  | field {name inner : String} {field : Field} (h : Flattens root name) (hf : field ∈ S.fieldsOf name)
    (hm : field.mode = .flattened) (ht : field.type = .record inner) : Flattens root inner

/-- `S.HasOptional type key`: the record has an optional field of the name, or a record that is flattened
into it has. -/
inductive HasOptional : Ty → String → Prop where
  | own {name : String} {field : Field} (hf : field ∈ S.fieldsOf name) (hm : field.mode = .optional) :
    HasOptional (.record name) field.name
  | inside {name key : String} {field : Field} (hf : field ∈ S.fieldsOf name) (hm : field.mode = .flattened)
    (h : HasOptional field.type key) : HasOptional (.record name) key

inductive FieldHasOptional (field : Field) : String → Prop where
  | own (hm : field.mode = .optional) : FieldHasOptional field field.name
  | inside {key : String} (hm : field.mode = .flattened) (h : S.HasOptional field.type key) :
    FieldHasOptional field key

mutual

/-- A record with its optional fields of some names set back to what they were in another, in records that
are flattened into it as well. -/
def reset (keys : List String) (name : String) (prior : Value) : Value → Value
  | .record name' fields => .record name' (resetFields keys (S.fieldsOf name) prior.fields fields)
  | v => v

def resetFields (keys : List String) (declared : List Field) (priors : List Value) : List Value → List Value
  | [] => []
  | v :: vs =>
    match declared, priors with
    | field :: declared, prior :: priors =>
      (match field.mode, field.type with
        | .optional, _ => if field.name ∈ keys then prior else v
        | .flattened, .record name => reset keys name prior v
        | _, _ => v) :: resetFields keys declared priors vs
    | _, _ => v :: vs

end

def resetAs (keys : List String) : Ty → Value → Value → Value
  | .record name, prior, v => S.reset keys name prior v
  | _, _, v => v

def resetField (keys : List String) (field : Field) (prior v : Value) : Value :=
  match field.mode with
  | .optional => if field.name ∈ keys then prior else v
  | .flattened => S.resetAs keys field.type prior v
  | _ => v

variable {S}

theorem hasOptional_record {name key : String} :
    S.HasOptional (.record name) key ↔ ∃ field ∈ S.fieldsOf name, S.FieldHasOptional field key := by
  constructor
  · intro h
    cases h with
    | own hf hm => exact ⟨_, hf, .own hm⟩
    | inside hf hm h => exact ⟨_, hf, .inside hm h⟩
  · rintro ⟨field, hf, h⟩
    cases h with
    | own hm => exact .own hf hm
    | inside hm h => exact .inside hf hm h

@[simp] theorem resetFields_nil (keys : List String) (declared : List Field) (priors : List Value) :
    S.resetFields keys declared priors [] = [] := by
  simp only [resetFields]

theorem resetFields_cons (keys : List String) (field : Field) (declared : List Field) (prior : Value)
    (priors : List Value) (v : Value) (vs : List Value) :
    S.resetFields keys (field :: declared) (prior :: priors) (v :: vs) =
      S.resetField keys field prior v :: S.resetFields keys declared priors vs := by
  rw [resetFields, resetField]
  cases field.mode <;> cases field.type <;> rfl

section Free

variable {keys : List String}

mutual

theorem reset_of_free {name : String} (h : ∀ key ∈ keys, ¬ S.HasOptional (.record name) key) (prior : Value) :
    ∀ v, S.reset keys name prior v = v
  | .record name' fields => by
    rw [reset, resetFields_of_free (fun f hf key hk hopt => h key hk (hasOptional_record.2 ⟨f, hf, hopt⟩))]
  | .atom _ | .absent | .present _ | .list _ | .map _ _ | .ref _ _ => by simp only [reset]

theorem resetFields_of_free {declared : List Field} (h : ∀ f ∈ declared, ∀ key ∈ keys, ¬ S.FieldHasOptional f key)
    (priors : List Value) : ∀ vs, S.resetFields keys declared priors vs = vs
  | [] => resetFields_nil ..
  | v :: vs => by
    match declared, priors, h with
    | [], _, _ => simp only [resetFields]
    | _ :: _, [], _ => simp only [resetFields]
    | field :: declared, prior :: priors, h =>
      have hfield := h field List.mem_cons_self
      have hrest := resetFields_of_free (fun f hf => h f (List.mem_cons_of_mem _ hf)) priors vs
      rw [resetFields_cons, hrest, resetField]
      congr 1
      split
      · rename_i hm
        exact if_neg fun hk => hfield field.name hk (.own hm)
      · rename_i hm
        cases ht : field.type with
        | record name => exact reset_of_free (fun key hk hopt => hfield key hk (.inside hm (ht ▸ hopt))) prior v
        | _ => rfl
      · rfl

end

end Free

end Schema

namespace Loading

variable (env : Loading) (r : Registry)

/-- `env.Asks r type key`: loading a value of the type may look for a field of the name in its node. -/
inductive Asks : Ty → String → Prop where
  | own {name : String} {field : Field} (hf : field ∈ env.schema.fieldsOf name)
    (hm : field.mode = .required ∨ field.mode = .optional) : Asks (.record name) field.name
  | flattened {name key : String} {field : Field} (hf : field ∈ env.schema.fieldsOf name)
    (hm : field.mode = .flattened) (h : Asks field.type key) : Asks (.record name) key
  | option {item : Ty} {key : String} (h : Asks item key) : Asks (.option item) key
  | tag {kind : RefKind} {target : Target} (hp : env.schema.isPolymorphic target = true) :
    Asks (.ref kind target) tagField
  | behind {kind : RefKind} {target : Target} {part : Ty} {key : String}
    (hp : part ∈ env.parts r (.ref kind target)) (h : Asks part key) : Asks (.ref kind target) key

/-- Loading a value of the type may take whatever fields its node has. -/
inductive TakesAll : Ty → Prop where
  | map {kind : MapKind} {key : KeyTy} {item : Ty} (h : key.isTextual = true) : TakesAll (.map kind key item)
  | flattened {name : String} {field : Field} (hf : field ∈ env.schema.fieldsOf name)
    (hm : field.mode = .flattened) (h : TakesAll field.type) : TakesAll (.record name)
  | option {item : Ty} (h : TakesAll item) : TakesAll (.option item)
  | behind {kind : RefKind} {target : Target} {part : Ty} (hp : part ∈ env.parts r (.ref kind target))
    (h : TakesAll part) : TakesAll (.ref kind target)

/-- The names that loading one field of a record may look for in the node of the record. -/
inductive FieldAsks (field : Field) : String → Prop where
  | own (hm : field.mode = .required ∨ field.mode = .optional) : FieldAsks field field.name
  | flattened {key : String} (hm : field.mode = .flattened) (h : env.Asks r field.type key) : FieldAsks field key

def FieldTakesAll (field : Field) : Prop := field.mode = .flattened ∧ env.TakesAll r field.type

/-- No two fields of a record look for the same name, and after one that takes whatever there is no other
field is loaded. The same goes for the records that are flattened into it. -/
structure Distinct (root : String) : Prop where
  names {name : String} : env.schema.Flattens root name →
    (env.schema.fieldsOf name).Pairwise fun f g => ∀ key, env.FieldAsks r f key → ¬ env.FieldAsks r g key
  last {name : String} : env.schema.Flattens root name →
    (env.schema.fieldsOf name).Pairwise fun f g => env.FieldTakesAll r f → g.mode = .skipped

variable {env r}

theorem asks_record {name key : String} :
    env.Asks r (.record name) key ↔ ∃ field ∈ env.schema.fieldsOf name, env.FieldAsks r field key := by
  constructor
  · intro h
    cases h with
    | own hf hm => exact ⟨_, hf, .own hm⟩
    | flattened hf hm h => exact ⟨_, hf, .flattened hm h⟩
  · rintro ⟨field, hf, h⟩
    cases h with
    | own hm => exact .own hf hm
    | flattened hm h => exact .flattened hf hm h

theorem asks_of_hasOptional {type : Ty} {key : String} (h : env.schema.HasOptional type key) :
    env.Asks r type key := by
  induction h with
  | own hf hm => exact .own hf (.inr hm)
  | inside hf hm _ ih => exact .flattened hf hm ih

theorem fieldAsks_of_hasOptional {field : Field} {key : String} (h : env.schema.FieldHasOptional field key) :
    env.FieldAsks r field key := by
  cases h with
  | own hm => exact .own (.inr hm)
  | inside hm h => exact .flattened hm (asks_of_hasOptional h)

theorem Distinct.hasOptional {root name key : String} (h : env.Distinct r root) (hn : env.schema.Flattens root name)
    (hk : env.schema.HasOptional (.record name) key) {field : Field} (hf : field ∈ env.schema.fieldsOf name)
    (ha : env.FieldAsks r field key) : env.schema.FieldHasOptional field key := by
  obtain ⟨other, ho, hkey⟩ := Schema.hasOptional_record.1 hk
  by_cases heq : field = other
  · exact heq ▸ hkey
  · have hsymm : Std.Symm fun f g => ∀ key, env.FieldAsks r f key → ¬ env.FieldAsks r g key :=
      ⟨fun _ _ hfg key hg hf => hfg key hf hg⟩
    exact absurd (fieldAsks_of_hasOptional hkey) ((h.names hn).forall hf ho heq key ha)

end Loading

end Archivist
