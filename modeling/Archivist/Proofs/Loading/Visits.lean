import Archivist.Proofs.Loading.Advance

/-!
The references that a load comes to, and what they do to the registry. Main statement: whether it succeeds
or fails, a load binds the types with a tag that these references are declared with, in this order, for the
archive it reads, and changes nothing else. What a tag leads to is not bound by that.
-/

set_option autoImplicit false

namespace Archivist

open ReadState

theorem Registry.unchanged : Advance (@Eq Registry) := ⟨fun _ => rfl, Eq.trans⟩

theorem ReadState.unchanged_withRegistry {α : Type} {x : Registry → Attempt ReadState α}
    (hx : ∀ r, Advances Eq .whole (x r)) : Advances Eq .whole (withRegistry x) :=
  fun s => hx s.registry s

namespace Advance

variable {γ : Type}

theorem keeps (f : Registry → γ) : Advance fun r r' => f r' = f r := ⟨fun _ => rfl, fun h h' => h'.trans h⟩

theorem adds (f : Registry → Option γ) (P : γ → Prop) :
    Advance fun r r' => ∀ c, f r' = some c → f r = some c ∨ P c where
  refl _ _ hc := .inl hc
  trans h h' c hc := (h' c hc).elim (h c) .inr

end Advance

namespace Registry

variable (r : Registry) (t : TypeInfo) (a : Archive)

theorem ensureInput_cases : (r.ensureInput t a).registry = r ∨
    (r.ensureInput t a).registry = (r.insertInput t a).registry := by
  unfold ensureInput
  split
  · exact .inl rfl
  · exact .inr rfl

theorem outputs_ensureInput : (r.ensureInput t a).registry.outputs = r.outputs := by
  obtain h | h := r.ensureInput_cases t a <;> simp [h]

theorem relations_ensureInput : (r.ensureInput t a).registry.relations = r.relations := by
  obtain h | h := r.ensureInput_cases t a <;> simp [h]

theorem input?_ensureInput_of_ne {b : Archive} (hb : b ≠ a) (tag : String) :
    (r.ensureInput t a).registry.input? b tag = r.input? b tag := by
  obtain h | h := r.ensureInput_cases t a <;> simp [h, input?_insertInput, hb]

theorem eq_of_input?_ensureInput {b : Archive} {tag : String} {x : Target}
    (hx : (r.ensureInput t a).registry.input? b tag = some x) :
    r.input? b tag = some x ∨ x = t.id ∧ tag = t.tag ∧ b = a := by
  obtain h | h := r.ensureInput_cases t a
  · rw [h] at hx
    exact .inl hx
  · rw [h, input?_insertInput] at hx
    split at hx
    · rename_i hnew
      exact .inr ⟨(Option.some.inj hx).symm, hnew.2.1, hnew.1⟩
    · exact .inl hx

theorem eq_of_typeOf?_ensureInput {tag : String} {x : Target}
    (hx : (r.ensureInput t a).registry.typeOf? tag = some x) :
    r.typeOf? tag = some x ∨ x = t.id ∧ tag = t.tag := by
  obtain h | h := r.ensureInput_cases t a
  · rw [h] at hx
    exact .inl hx
  · rw [h, typeOf?_insertInput, typeOf?_claim] at hx
    split at hx
    · rename_i hnew
      exact .inr ⟨(Option.some.inj hx).symm, hnew.1⟩
    · exact .inl hx

end Registry

namespace Loading

open Registry (unchanged)

theorem unchanged_readAtom (type : AtomTy) : Advances Eq .whole (readAtom type) := by
  refine unchanged.bind (unchanged.onReader _) fun leaf => ?_
  split
  · exact unchanged.pure _
  · exact unchanged.fail _

theorem unchanged_checkSize (length : Nat) : Advances Eq .whole (checkSize length) := by
  refine unchanged.bind (unchanged.onReader _) fun found => ?_
  split
  · exact unchanged.pure _
  · exact unchanged.fail _

/-- Whether a target has a tag of its own. -/
def hasTag (env : Loading) (t : Target) : Bool := (env.schema.identity t).isTagged

/-- A registry after types were bound for reading: those among the targets that have a tag, one after the
other. -/
def warmed (env : Loading) (r : Registry) (targets : List Target) : Registry :=
  (targets.filter env.hasTag).foldl (fun r t => (r.ensureInput (env.schema.info t) env.archive).registry) r

theorem warmed_append (env : Loading) (r : Registry) (targets others : List Target) :
    env.warmed r (targets ++ others) = env.warmed (env.warmed r targets) others := by
  simp [warmed]

theorem warmed_cons (env : Loading) (r : Registry) (t : Target) (targets : List Target) :
    env.warmed r (t :: targets) = env.warmed (env.warmed r [t]) targets :=
  env.warmed_append r [t] targets

/-- The references that a step comes to, by what they are declared with, from each state it may start in.
They account for what the step does to the registry. -/
structure Trail (env : Loading) {σ α : Type} (V : View σ) (x : Attempt σ α) where
  visits : σ → List Target
  accounts (s : σ) : V.registry (x s).2 = env.warmed (V.registry s) (visits s)

namespace Trail

variable {env : Loading}

section Generic

variable {σ α β : Type} {V : View σ} {x y : Attempt σ α} {f : α → Attempt σ β}

def quiet (h : Advances Eq V x) : Trail env V x := ⟨fun _ => [], fun s => (h s).symm⟩

def copy (t : Trail env V x) (h : x = y) : Trail env V y := ⟨t.visits, h ▸ t.accounts⟩

/-- A second step comes to its references only if the first one succeeds. -/
def bind (tx : Trail env V x) (tf : ∀ a, Trail env V (f a)) : Trail env V (x >>= f) where
  visits s := tx.visits s ++ match x s with
    | (.ok a, t) => (tf a).visits t
    | (.error _, _) => []
  accounts s := by
    have hs := tx.accounts s
    rcases hx : x s with ⟨e | a, t⟩
    · rw [hx] at hs
      rw [Attempt.bind_of_eq_error hx, hs, List.append_nil]
    · rw [hx] at hs
      rw [Attempt.bind_of_eq_ok hx, (tf a).accounts, hs, warmed_append]

def meet (target : Target) (h : env.hasTag target = false) (t : Trail env V x) : Trail env V x where
  visits s := target :: t.visits s
  accounts s := by
    have hs : env.warmed (V.registry s) [target] = V.registry s := by simp [warmed, h]
    rw [warmed_cons, hs, t.accounts]

end Generic

section Slots

variable {α β ρ : Type}

def lift {x : Attempt ReadState ρ} (t : Trail env .whole x) : Trail env (.slot α) (Slot.lift x) :=
  ⟨fun slot => t.visits slot.state, fun slot => t.accounts slot.state⟩

def within {x : Attempt (Slot β) ρ} (content : α → β) (make : β → α) (t : Trail env (.slot β) x) :
    Trail env (.slot α) (Slot.within content make x) :=
  ⟨fun slot => t.visits ⟨slot.state, content slot.value⟩,
    fun slot => t.accounts ⟨slot.state, content slot.value⟩⟩

def assign {x : Attempt ReadState α} (t : Trail env .whole x) : Trail env (.slot α) (Slot.assign x) where
  visits slot := t.visits slot.state
  accounts slot := by
    rw [View.registry_slot, View.registry_slot, Slot.state_assign]
    exact t.accounts slot.state

def fresh {x : Attempt (Slot α) Unit} (initial : α) (t : Trail env (.slot α) x) :
    Trail env .whole (Slot.fresh initial x) where
  visits s := t.visits ⟨s, initial⟩
  accounts s := by
    rw [View.registry_whole, View.registry_whole, Slot.state_fresh]
    exact t.accounts ⟨s, initial⟩

variable {ι : Type} {f : ι → Attempt (Slot α) Unit}

/-- What loading values one after the other comes to. -/
def visitsEach (t : ∀ i, Trail env (.slot α) (f i)) (s : ReadState) : List ι → List α → List Target
  | i :: is, v :: vs => (t i).visits ⟨s, v⟩ ++ match f i ⟨s, v⟩ with
    | (.ok (), slot) => visitsEach t slot.state is vs
    | (.error _, _) => []
  | _, _ => []

theorem accounts_each (t : ∀ i, Trail env (.slot α) (f i)) (s : ReadState) (is : List ι) (vs : List α) :
    (Slot.each s (is.map f) vs).2.state.registry = env.warmed s.registry (visitsEach t s is vs) := by
  induction is generalizing s vs with
  | nil => simp [visitsEach, warmed]
  | cons i is ih =>
    cases vs with
    | nil => simp [visitsEach, warmed]
    | cons v vs =>
      have hs := (t i).accounts ⟨s, v⟩
      rcases hx : f i ⟨s, v⟩ with ⟨e | _, slot⟩
      · rw [hx] at hs
        rw [List.map_cons, Slot.each_cons_of_eq_error hx, visitsEach, hx, List.append_nil]
        exact hs
      · rw [hx] at hs
        rcases hr : Slot.each slot.state (is.map f) vs with ⟨res, rest⟩
        have hrest := ih slot.state vs
        rw [hr] at hrest
        rw [List.map_cons, Slot.each_cons_of_eq_ok hx hr, visitsEach, hx, warmed_append, hrest]
        exact congrArg (env.warmed · _) hs

def inOrder (is : List ι) (t : ∀ i, Trail env (.slot α) (f i)) :
    Trail env (.slot (List α)) (Slot.inOrder (is.map f)) :=
  ⟨fun slot => visitsEach t slot.state is slot.value, fun slot => accounts_each t slot.state is slot.value⟩

end Slots

section Around

variable {α : Type} {x : Attempt ReadState α} (t : Trail env .whole x)

def inField (name : String) : Trail env .whole (ReadState.inField name x) :=
  .bind (.quiet (unchanged.onReader _)) fun _ => .bind t fun _ =>
    .quiet (unchanged.bind (unchanged.onReader _) fun _ => unchanged.pure _)

def inElement : Trail env .whole (ReadState.inElement x) :=
  .bind (.quiet (unchanged.onReader _)) fun _ => .bind t fun _ =>
    .quiet (unchanged.bind (unchanged.onReader _) fun _ => unchanged.pure _)

end Around

section Containers

variable {item : Attempt ReadState Value} (t : Trail env .whole item)

def readOption : Trail env .whole (Loading.readOption item) :=
  .bind (.quiet (unchanged.onReader _)) fun
    | true => .quiet (unchanged.bind (unchanged.onReader _) fun _ => unchanged.pure _)
    | false => .bind t fun _ => .quiet (unchanged.pure _)

def appendItems : (count : Nat) → Trail env (.slot (List Value)) (Loading.appendItems item count)
  | 0 => .quiet (unchanged.pure _)
  | count + 1 => .bind t.inElement.lift fun _ => .bind (.quiet fun _ => rfl) fun _ => appendItems count

def fillList : Trail env (.slot Value) (Loading.fillList item) :=
  .within _ _ (.bind (.quiet (.lift (unchanged.onReader _))) fun count => t.appendItems count)

def readArray (length : Nat) : Trail env .whole (Loading.readArray length item) :=
  .bind (.quiet (unchanged_checkSize length)) fun _ => .fresh _ t.fillList

end Containers

section Maps

variable {κ ν α : Type} {item : Attempt ReadState ν} (t : Trail env .whole item) (insert : κ → ν → α → α)

def addNamed (ofField : String → Option κ) :
    (count : Nat) → Trail env (.slot α) (Loading.addNamed ofField item insert count)
  | 0 => .quiet (unchanged.pure _)
  | count + 1 => .bind (.quiet (.lift (unchanged.onReader _))) fun
    | none => .quiet (unchanged.pure _)
    | some name => .bind (t.inField name).lift fun _ =>
      match ofField name with
      | none => .quiet (unchanged.fail _)
      | some _ => .bind (.quiet fun _ => rfl) fun _ => addNamed ofField count

def addPairs {read : Attempt ReadState κ} (k : Trail env .whole read) :
    (count : Nat) → Trail env (.slot α) (Loading.addPairs read item insert count)
  | 0 => .quiet (unchanged.pure _)
  | count + 1 =>
    let entry := inElement <| .bind (k.inField keyField) fun _ =>
      .bind (t.inField valueField) fun _ => .quiet (unchanged.pure _)
    .bind entry.lift fun _ => .bind (.quiet fun _ => rfl) fun _ => addPairs k count

end Maps

def fillMap {item : Attempt ReadState Value} (t : Trail env .whole item) (kind : MapKind) (key : KeyTy) :
    Trail env (.slot Value) (env.fillMap kind key item) :=
  .within _ _ <|
    match key with
    | .atom type => .bind (.quiet (.lift (unchanged.onReader _))) fun count =>
        t.addPairs _ (.quiet (unchanged_readAtom type)) count
    | .text | .named _ => .bind (.quiet fun _ => rfl) fun _ => t.addNamed _ _ _

section InPlace

def fillArray (length : Nat) {item : Attempt (Slot Value) Unit} (t : Trail env (.slot Value) item) :
    Trail env (.slot Value) (Loading.fillArray length item) :=
  .within _ _ <| .bind (.quiet (.lift (unchanged_checkSize length))) fun _ =>
    let element := .bind (.quiet (.lift (unchanged.onReader _))) fun _ => .bind t fun _ =>
      .quiet (.lift (unchanged.onReader _))
    (inOrder (List.replicate length ()) fun _ => element).copy (by rw [List.map_replicate])

def fillField {load : Ty → Attempt (Slot Value) Unit} (t : ∀ type, Trail env (.slot Value) (load type))
    (field : Field) : Trail env (.slot Value) (Loading.fillField load field) :=
  match field with
  | ⟨_, _, .skipped, _⟩ => .quiet (unchanged.pure _)
  | ⟨_, type, .flattened, _⟩ => t type
  | ⟨_, type, .required, _⟩ => .bind (.quiet (.lift (unchanged.onReader _))) fun _ => .bind (t type) fun _ =>
    .quiet (.lift (unchanged.onReader _))
  | ⟨name, type, .optional, _⟩ => .bind (.quiet (.lift (unchanged.enterOptional name))) fun
    | true => .bind (t type) fun _ => .quiet (.lift (unchanged.onReader _))
    | false => .quiet (unchanged.pure _)

def fillRecord (name : String) {deep flat : Ty → Attempt (Slot Value) Unit}
    (td : ∀ type, Trail env (.slot Value) (deep type)) (tf : ∀ type, Trail env (.slot Value) (flat type)) :
    Trail env (.slot Value) (env.fillRecord name deep flat) :=
  .within _ _ <| .inOrder (env.schema.fieldsOf name) fun field =>
    if h : field.mode = .flattened then (fillField tf field).copy (by rw [if_pos h])
    else (fillField td field).copy (by rw [if_neg h])

end InPlace

section References

variable (env) {deep flat : Ty → Attempt ReadState Value} (target : Target)

def warmUp : Trail env .whole (env.warmUp target) where
  visits _ := [target]
  accounts s := by
    by_cases h : (env.schema.identity target).isTagged = true
    · simp [Loading.warmUp, warmed, hasTag, h, change]
    · simp [Loading.warmUp, warmed, hasTag, h]

/-- A polymorphic reference is come to before its tag is read. Looking up the tag binds nothing. -/
def resolve : Trail env .whole (env.resolve target) :=
  .bind (warmUp env target) fun _ => .bind (.quiet unchanged.readTag) fun tag => .quiet <|
    unchanged_withRegistry fun registry =>
      match env.bound? registry tag with
      | none => unchanged.fail _
      | some _ => unchanged.pure _

def readTagged (kind : RefKind) (td : ∀ type, Trail env .whole (deep type)) :
    Trail env .whole (env.readTagged kind target deep) :=
  .bind (resolve env target) fun (_, _, type) => .bind (td type) fun _ => .quiet <|
    unchanged_withRegistry fun registry => by
      split
      · exact unchanged.pure _
      · exact unchanged.fail _

def readPlain (tf : ∀ type, Trail env .whole (flat type)) : Trail env .whole (env.readPlain target flat) :=
  match h : target.ty? with
  | some type => (tf type).copy (by simp [Loading.readPlain, h])
  | none => (quiet (unchanged.fail _)).copy (by simp [Loading.readPlain, h]; rfl)

theorem hasTag_of_plain (h : env.schema.isPolymorphic target = false) : env.hasTag target = false := by
  cases hi : env.schema.identity target with
  | plain => simp [hasTag, hi, Identity.isTagged]
  | untagged => simp [hasTag, hi, Identity.isTagged]
  | tagged tag => simp [Schema.isPolymorphic, hi, Identity.isPolymorphic] at h

def readRef (kind : RefKind) (td : ∀ type, Trail env .whole (deep type))
    (tf : ∀ type, Trail env .whole (flat type)) : Trail env .whole (env.readRef kind target deep flat) :=
  if h : env.schema.isPolymorphic target = true then
    (readTagged env target kind td).copy (by simp [Loading.readRef, h])
  else
    (meet target (hasTag_of_plain env target (by simpa using h)) <|
      .bind (readPlain env target tf) fun item => .quiet (unchanged.pure (.ref target item))).copy
      (by simp [Loading.readRef, h])

end References

end Trail

structure Trails (env : Loading) (loader : Loader) where
  new (type : Ty) : Trail env .whole (loader.new type)
  into (type : Ty) : Trail env (.slot Value) (loader.into type)

namespace Trails

variable {env : Loading} {lighter : Loader} (deep : Trails env lighter)

def within : (steps : Nat) → Trails env ⟨env.newWithin lighter steps, env.intoWithin lighter steps⟩
  | 0 => ⟨fun _ => .quiet (unchanged.fail _), fun _ => .quiet (unchanged.fail _)⟩
  | steps + 1 =>
    let flat := within steps
    let atom (type : AtomTy) :=
      Trail.quiet (unchanged.bind (unchanged_readAtom type) fun a => unchanged.pure (Value.atom a))
    { new
        | .atom type => atom type
        | .option item => (flat.new item).readOption
        | .list _ item => .fresh _ (deep.new item).fillList
        | .array item length => (deep.new item).readArray length
        | .map kind key item => .fresh _ ((deep.new item).fillMap kind key)
        | .record name => .fresh _ (.fillRecord name deep.into flat.into)
        | .ref kind target => .readRef env target kind deep.new flat.new
      into
        | .atom type => (atom type).assign
        | .option item => (flat.new item).readOption.assign
        | .list _ item => (deep.new item).fillList
        | .array item length => (deep.into item).fillArray length
        | .map kind key item => (deep.new item).fillMap kind key
        | .record name => .fillRecord name deep.into flat.into
        | .ref kind target => (Trail.readRef env target kind deep.new flat.new).assign }

end Trails

def trails (env : Loading) : (weight : Nat) → Trails env (env.loader weight)
  | 0 => ⟨fun _ => .quiet (unchanged.fail _), fun _ => .quiet (unchanged.fail _)⟩
  | weight + 1 =>
    let lighter := env.trails weight
    ⟨fun type => (lighter.within (env.steps type)).new type,
     fun type => (lighter.within (env.steps type)).into type⟩

variable (env : Loading)

/-- The references that reading a new value comes to, in order. -/
def visitsNew (type : Ty) (s : ReadState) : List Target :=
  ((env.trails (s.reader.weight + 1)).new type).visits s

/-- The references that loading a value in place comes to, in order. -/
def visitsInto (type : Ty) (slot : Slot Value) : List Target :=
  ((env.trails (slot.state.reader.weight + 1)).into type).visits slot

/-- The first registry and the last are related if every binding on the way relates what it finds to what it
leaves. -/
theorem warmed_advances {R : Registry → Registry → Prop} (h : Advance R) {targets : List Target}
    (step : ∀ t ∈ targets, env.hasTag t = true →
      ∀ r : Registry, R r (r.ensureInput (env.schema.info t) env.archive).registry)
    (r : Registry) : R r (env.warmed r targets) := by
  induction targets generalizing r with
  | nil => exact h.refl r
  | cons t targets ih =>
    have hrest := ih (fun t ht => step t (by simp [ht])) (env.warmed r [t])
    have hfirst : R r (env.warmed r [t]) := by
      by_cases ht : env.hasTag t = true
      · simpa [warmed, ht] using step t (by simp) ht r
      · simpa [warmed, ht] using h.refl r
    rw [warmed_cons]
    exact h.trans hfirst hrest

theorem extends_warmed (r : Registry) (targets : List Target) : r.Extends (env.warmed r targets) :=
  env.warmed_advances Registry.Extends.advance
    (fun t _ _ r => r.extends_ensureInput (env.schema.info t) env.archive) r

/-- A type is bound when its turn comes, unless it cannot be, and that lasts. -/
theorem isInputSettled_warmed (r : Registry) {targets : List Target} {t : Target} (ht : t ∈ targets)
    (htag : env.hasTag t = true) :
    (env.warmed r targets).isInputSettled (env.schema.info t) env.archive = true := by
  obtain ⟨before, after, rfl⟩ := List.append_of_mem ht
  have hone : env.warmed (env.warmed r before) [t] =
      ((env.warmed r before).ensureInput (env.schema.info t) env.archive).registry := by
    simp [warmed, htag]
  rw [warmed_append, warmed_cons, hone]
  exact (env.extends_warmed _ after).isInputSettled (Registry.isInputSettled_ensureInput _ _ _)

/-- The references that were come to account for all that happened to a registry. -/
structure Accounted (visited : List Target) (r r' : Registry) : Prop where
  bound : r' = env.warmed r visited
  settled : ∀ t ∈ visited, env.hasTag t = true → r'.isInputSettled (env.schema.info t) env.archive = true
  kept : r.Extends r'
  outputs : r'.outputs = r.outputs
  relations : r'.relations = r.relations
  others (a : Archive) (tag : String) : a ≠ env.archive → r'.input? a tag = r.input? a tag
  inputs (a : Archive) (tag : String) (t : Target) : r'.input? a tag = some t →
    r.input? a tag = some t ∨ t ∈ visited ∧ env.hasTag t = true ∧ tag = env.schema.tag t ∧ a = env.archive
  owners (tag : String) (t : Target) : r'.typeOf? tag = some t →
    r.typeOf? tag = some t ∨ t ∈ visited ∧ env.hasTag t = true ∧ tag = env.schema.tag t

theorem accounted_warmed (r : Registry) (visited : List Target) :
    env.Accounted visited r (env.warmed r visited) where
  bound := rfl
  settled _ ht htag := env.isInputSettled_warmed r ht htag
  kept := env.extends_warmed r visited
  outputs := env.warmed_advances (.keeps (·.outputs))
    (fun t _ _ r => r.outputs_ensureInput (env.schema.info t) env.archive) r
  relations := env.warmed_advances (.keeps (·.relations))
    (fun t _ _ r => r.relations_ensureInput (env.schema.info t) env.archive) r
  others a tag ha := env.warmed_advances (.keeps (·.input? a tag))
    (fun t _ _ r => r.input?_ensureInput_of_ne (env.schema.info t) env.archive ha tag) r
  inputs a tag := env.warmed_advances (.adds (·.input? a tag) fun t => t ∈ visited ∧ env.hasTag t = true ∧
      tag = env.schema.tag t ∧ a = env.archive)
    (fun t ht htag r x hx => (r.eq_of_input?_ensureInput (env.schema.info t) env.archive hx).imp_right
      fun ⟨hid, htags, ha⟩ => by
        subst hid
        exact ⟨ht, htag, htags, ha⟩) r
  owners tag := env.warmed_advances (.adds (·.typeOf? tag) fun t => t ∈ visited ∧ env.hasTag t = true ∧
      tag = env.schema.tag t)
    (fun t ht htag r x hx => (r.eq_of_typeOf?_ensureInput (env.schema.info t) env.archive hx).imp_right
      fun ⟨hid, htags⟩ => by
        subst hid
        exact ⟨ht, htag, htags⟩) r

/-- Whether it succeeds or fails, a load binds the types with a tag among those that the references it comes
to are declared with, for the archive it reads, and does nothing else to the registry. -/
theorem visits_account (type : Ty) :
    (∀ s, env.Accounted (env.visitsNew type s) s.registry (env.loadNew type s).2.registry) ∧
    ∀ slot, env.Accounted (env.visitsInto type slot) slot.state.registry (env.load type slot).2.state.registry := by
  constructor
  · intro s
    have h : (env.loadNew type s).2.registry = env.warmed s.registry (env.visitsNew type s) :=
      ((env.trails (s.reader.weight + 1)).new type).accounts s
    rw [h]
    exact env.accounted_warmed _ _
  · intro slot
    have h : (env.load type slot).2.state.registry =
        env.warmed slot.state.registry (env.visitsInto type slot) :=
      ((env.trails (slot.state.reader.weight + 1)).into type).accounts slot
    rw [h]
    exact env.accounted_warmed _ _

def household : Schema where
  path := ""
  records :=
    [⟨"Owner", [⟨"pet", .ref .box (.record "Cat"), .required, .ref (.record "Cat") (.record "Cat" [])⟩],
      .tagged "owner"⟩,
     ⟨"Cat", [], .tagged "cat"⟩,
     ⟨"Dog", [], .tagged "dog"⟩]
  bases := [.plain "Being"]

/-- Reading an owner whose pet turns out to be a dog fails, and binds cats all the same. The owner, found by
its tag, is not come to by a reference of its own. -/
theorem household_accounted :
    let env : Loading := { schema := household }
    let type : Ty := .ref .box (.base "Being")
    let registry := (Registry.empty.insertInput (household.info (.record "Owner")) .jsonReader).registry
    let document : Json := .object [("type", .string "owner"), ("pet", .object [("type", .string "dog")])]
    let s : ReadState := ⟨.ofJson document, registry, []⟩
    env.visitsNew type s = [.base "Being", .record "Cat"] ∧
    (env.loadNew type s).1 = .error (.unknownType "dog") ∧
    (env.loadNew type s).2.registry =
      (registry.ensureInput (household.info (.record "Cat")) .jsonReader).registry ∧
    (env.loadNew type s).2.registry.outputs = registry.outputs ∧
    registry.input? .jsonReader "cat" = none ∧
    (env.loadNew type s).2.registry.input? .jsonReader "cat" = some (.record "Cat") := by
  intro env type registry document s
  have accounted := (env.visits_account type).1 s
  have visits : env.visitsNew type s = [.base "Being", .record "Cat"] := by decide +kernel
  have bound : (env.loadNew type s).2.registry =
      (registry.ensureInput (household.info (.record "Cat")) .jsonReader).registry := by
    rw [accounted.bound, visits]
    rfl
  have fails : (env.loadNew type s).1 = .error (.unknownType "dog") := rfl
  exact ⟨visits, fails, bound, accounted.outputs, by decide, by rw [bound]; decide⟩

end Loading

end Archivist
