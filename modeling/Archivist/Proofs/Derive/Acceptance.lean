import Mathlib.Data.List.Basic
import Archivist.Derive.Draft
import Archivist.Derive.Printer
import Archivist.Proofs.Derive.Allowed
import Archivist.Proofs.Derive.Members

/-!
Which declarations are refused, and why. Main statement: the derivation succeeds for exactly the declarations that
keep to the rules, and otherwise fails with the first thing that is wrong: with the attributes of the type, with
its kind, with its fields one by one, and at last with their names. A group that goes on after what it should hold
counts where its attribute ends, after the other items of the attribute.
-/

set_option autoImplicit false

namespace Archivist.Derive

open Source (FieldDeclaration Shape TextLiteral TypeDeclaration TypeForm)

/-- A type as a path, without the parentheses around it, by its last segment. -/
inductive Bare : TypeForm → String → Prop
  | path (last : String) : Bare (.path last) last
  | enclosed {inner : TypeForm} {last : String} (h : Bare inner last) : Bare (.enclosed inner) last

def HasFields (form : TypeForm) : Prop := ∃ last, Bare form last ∧ last ∉ fieldlessTypes

def Polymorphic (d : TypeDeclaration) : Prop :=
  texts "tag" (itemsOf d.attributes) ≠ [] ∨ isGiven "polymorphic" (itemsOf d.attributes) = true ∨
    paths "base" (itemsOf d.attributes) ≠ []

/-- The field is written where the tag has its place. -/
structure TakesTagPlace (f : FieldDeclaration) : Prop where
  skip : isGiven "skip" (itemsOf f.attributes) = false
  flatten : isGiven "flatten" (itemsOf f.attributes) = false
  name : ∃ document, Named f document ∧ document.value = tagField

structure DocumentedField (f : FieldDeclaration) : Prop where
  listed : Listed f.attributes
  items : ∀ i ∈ itemsOf f.attributes, AllowedOnField i
  skip : isGiven "skip" (itemsOf f.attributes) = true →
    texts "rename" (itemsOf f.attributes) = [] ∧ isGiven "optional" (itemsOf f.attributes) = false ∧
      isGiven "flatten" (itemsOf f.attributes) = false
  flatten : isGiven "flatten" (itemsOf f.attributes) = true →
    texts "rename" (itemsOf f.attributes) = [] ∧ isGiven "optional" (itemsOf f.attributes) = false
  type : isGiven "flatten" (itemsOf f.attributes) = true → HasFields f.type.form

/-- The rules for declarations. -/
structure Documented (d : TypeDeclaration) : Prop where
  listed : Listed d.attributes
  items : ∀ i ∈ itemsOf d.attributes, AllowedOnType i
  tags : (texts "tag" (itemsOf d.attributes)).length ≤ 1
  kind : d.shape = .unit ∨ ∃ fields, d.shape = .named fields
  fields : ∀ f ∈ declaredFields d, DocumentedField f
  names : Polymorphic d → ∀ f ∈ declaredFields d, ¬ TakesTagPlace f

inductive Check where
  | typePlace (place : Place)
  | kind
  | fieldPlace (place : Place)
  | combination (f : FieldDeclaration)
  | flattening (f : FieldDeclaration)
  | names

def fieldChecks (f : FieldDeclaration) : List Check :=
  (places f.attributes).map .fieldPlace ++ [.combination f, .flattening f]

/-- The order in which the places of a declaration count. -/
def checks (d : TypeDeclaration) : List Check :=
  (places d.attributes).map .typePlace ++ (.kind :: (declaredFields d).flatMap fieldChecks ++ [.names])

def typePlaces (l : List Check) : List Place :=
  l.filterMap fun
    | .typePlace place => some place
    | _ => none

/-- What is wrong at a place of a declaration. -/
inductive Wrong (d : TypeDeclaration) (before : List Check) : Check → Refusal → Prop
  | typePlace {place : Place} {r : Refusal}
      (h : PlaceFault (fun items => TypeOptions.ItemFault (texts "tag" items ≠ [])) (typePlaces before) place r) :
      Wrong d before (.typePlace place) r
  | tuple (h : d.shape = .tuple) : Wrong d before .kind .tuple
  | enumeration (h : d.shape = .enumeration) : Wrong d before .kind .enumeration
  | union (h : d.shape = .union) : Wrong d before .kind .union
  | fieldPlace {place : Place} {r : Refusal} (h : PlaceFault (fun _ => FieldOptions.ItemFault) [] place r) :
      Wrong d before (.fieldPlace place) r
  | skipCombined {f : FieldDeclaration} (hs : isGiven "skip" (itemsOf f.attributes) = true)
      (h : texts "rename" (itemsOf f.attributes) ≠ [] ∨ isGiven "optional" (itemsOf f.attributes) = true ∨
        isGiven "flatten" (itemsOf f.attributes) = true) : Wrong d before (.combination f) .skipCombined
  | flattenCombined {f : FieldDeclaration} (hs : isGiven "skip" (itemsOf f.attributes) = false)
      (hf : isGiven "flatten" (itemsOf f.attributes) = true)
      (h : texts "rename" (itemsOf f.attributes) ≠ [] ∨ isGiven "optional" (itemsOf f.attributes) = true) :
      Wrong d before (.combination f) .flattenCombined
  | notFlattenable {f : FieldDeclaration} (hf : isGiven "flatten" (itemsOf f.attributes) = true)
      (h : ¬ HasFields f.type.form) : Wrong d before (.flattening f) .notFlattenable
  | reservedField {f : FieldDeclaration} (hp : Polymorphic d) (hf : f ∈ declaredFields d) (h : TakesTagPlace f) :
      Wrong d before .names .reservedField

variable {d : TypeDeclaration} {f : FieldDeclaration} {before : List Check} {r : Refusal}

theorem isFlattenable_iff {form : TypeForm} : isFlattenable form = true ↔ HasFields form := by
  induction form with
  | path last =>
    constructor
    · intro h
      exact ⟨last, .path last, by simpa [isFlattenable] using h⟩
    · rintro ⟨_, ⟨⟩, h⟩
      simpa [isFlattenable] using h
  | enclosed inner ih =>
    have hinner : HasFields (.enclosed inner) ↔ HasFields inner := by
      constructor
      · rintro ⟨last, h, hn⟩
        cases h with
        | enclosed h => exact ⟨last, h, hn⟩
      · rintro ⟨last, h, hn⟩
        exact ⟨last, .enclosed h, hn⟩
    rw [hinner, ← ih]
    rfl
  | other => exact ⟨nofun, fun ⟨_, h, _⟩ => by cases h⟩

theorem isPolymorphic_iff :
    (TypeOptions.ofItems (itemsOf d.attributes)).isPolymorphic = true ↔ Polymorphic d := by
  simp [TypeOptions.isPolymorphic, TypeOptions.ofItems, Polymorphic, or_assoc]

theorem isReserved_iff : (Member.ofField f).isReserved = true ↔ TakesTagPlace f := by
  have hname : (∃ document, Named f document ∧ document.value = tagField) ↔
      (Member.ofField f).documentName = tagField := by
    simp only [← Member.document_ofField_iff, exists_eq_left']
    rfl
  have hreserved : (Member.ofField f).isReserved = (!isGiven "skip" (itemsOf f.attributes) &&
      !isGiven "flatten" (itemsOf f.attributes) && decide ((Member.ofField f).documentName = tagField)) := rfl
  rw [hreserved]
  constructor
  · intro h
    simp only [Bool.and_eq_true, Bool.not_eq_eq_eq_not, Bool.not_true, decide_eq_true_eq] at h
    exact ⟨h.1.1, h.1.2, hname.2 h.2⟩
  · intro h
    simp [h.skip, h.flatten, hname.1 h.name]

theorem wrong_typePlace_iff {between : List Place} {place : Place} :
    Wrong d ([] ++ between.map .typePlace) (.typePlace place) r ↔
      PlaceFault (fun items => TypeOptions.ItemFault (texts "tag" items ≠ [])) between place r := by
  have hplaces : typePlaces ([] ++ between.map .typePlace) = between := by
    simp [typePlaces, List.filterMap_map]
  constructor
  · intro h
    cases h with
    | typePlace h => rwa [hplaces] at h
  · intro h
    exact .typePlace (by rwa [hplaces])

theorem wrong_fieldPlace_iff {between : List Place} {place : Place} :
    Wrong d (before ++ between.map .fieldPlace) (.fieldPlace place) r ↔
      PlaceFault (fun _ => FieldOptions.ItemFault) between place r := by
  rw [placeFault_anywhere]
  refine ⟨fun h => ?_, .fieldPlace⟩
  cases h with
  | fieldPlace h => exact h

theorem conflict?_eq_some_iff :
    (FieldOptions.ofItems (itemsOf f.attributes)).conflict? = some r ↔ Wrong d before (.combination f) r := by
  have hsome : (texts "rename" (itemsOf f.attributes)).getLast?.isSome = true ↔
      texts "rename" (itemsOf f.attributes) ≠ [] := by simp
  unfold FieldOptions.conflict?
  simp only [FieldOptions.ofItems, Bool.and_eq_true, Bool.or_eq_true, hsome, or_assoc]
  constructor
  · intro h
    split at h
    · rename_i hskip
      cases h
      exact .skipCombined hskip.1 hskip.2
    · rename_i hskip
      split at h
      · rename_i hflatten
        cases h
        have hs : isGiven "skip" (itemsOf f.attributes) = false :=
          Bool.eq_false_iff.2 fun hs => hskip ⟨hs, .inr (.inr hflatten.1)⟩
        exact .flattenCombined hs hflatten.1 hflatten.2
      · cases h
  · intro h
    cases h with
    | skipCombined hs h => rw [if_pos ⟨hs, h⟩]
    | flattenCombined hs hf h => rw [if_neg (by simp [hs]), if_pos ⟨hf, h⟩]

theorem FieldOptions.read_failsFirst :
    FailsFirst (Wrong d) before ((places f.attributes).map .fieldPlace ++ [.combination f])
      (FieldOptions.read f.attributes) := by
  have hread := FieldOptions.readAll_firstFault f.attributes
  refine (hread.1.map wrong_fieldPlace_iff).bind fun o ho => failsFirst_singleton fun e => ?_
  rw [hread.2 o ho, ← conflict?_eq_some_iff]
  cases (FieldOptions.ofItems (itemsOf f.attributes)).conflict? <;> simp

theorem Member.read_failsFirst (before : List Check) (f : FieldDeclaration) :
    FailsFirst (Wrong d) before (fieldChecks f) (Member.read f) := by
  have hchecks : fieldChecks f = (places f.attributes).map .fieldPlace ++ [.combination f] ++ [.flattening f] := by
    simp [fieldChecks]
  rw [hchecks, Member.read_eq]
  refine FieldOptions.read_failsFirst.bind fun o ho => failsFirst_singleton fun e => ?_
  rw [FieldOptions.read_eq_ok ho, ite_eq_error_iff, Bool.and_eq_true, Bool.not_eq_true', Bool.eq_false_iff, Ne,
    isFlattenable_iff]
  constructor
  · rintro ⟨⟨hf, hn⟩, rfl⟩
    exact .notFlattenable hf hn
  · intro h
    cases h with
    | notFlattenable hf hn => exact ⟨⟨hf, hn⟩, rfl⟩

theorem members_failsFirst :
    FailsFirst (Wrong d) before (.kind :: (declaredFields d).flatMap fieldChecks) (members d) := by
  have hkind : ∀ e, Wrong d before .kind e ↔ d.shape = .tuple ∧ e = .tuple ∨
      d.shape = .enumeration ∧ e = .enumeration ∨ d.shape = .union ∧ e = .union := by
    intro e
    constructor
    · intro h
      cases h with
      | tuple h => exact .inl ⟨h, rfl⟩
      | enumeration h => exact .inr (.inl ⟨h, rfl⟩)
      | union h => exact .inr (.inr ⟨h, rfl⟩)
    · rintro (⟨h, rfl⟩ | ⟨h, rfl⟩ | ⟨h, rfl⟩)
      · exact .tuple h
      · exact .enumeration h
      · exact .union h
  unfold members declaredFields
  cases hs : d.shape with
  | named fields => exact .cons (by simp [hkind, hs]) (.mapM Member.read_failsFirst _ fields)
  | unit => exact .cons (by simp [hkind, hs]) failsFirst_nil
  | tuple | enumeration | union => exact failsFirst_singleton fun e => by simp [hkind, hs, eq_comm]

theorem derive_failsFirst (manifest : Option Toml.Table) (d : TypeDeclaration) :
    FailsFirst (Wrong d) [] (checks d) (derive manifest d) := by
  have hread := TypeOptions.read_firstFault d.attributes
  rw [derive_eq]
  refine (hread.1.map wrong_typePlace_iff).bind fun o ho => ?_
  refine members_failsFirst.bind fun ms hm => failsFirst_singleton fun e => ?_
  rw [hread.2 o ho, members_eq_ok hm, ite_eq_error_iff, Bool.and_eq_true, isPolymorphic_iff, List.any_map,
    List.any_eq_true]
  simp only [Function.comp_apply, isReserved_iff]
  constructor
  · rintro ⟨⟨hp, f, hf, h⟩, rfl⟩
    exact .reservedField hp hf h
  · intro h
    cases h with
    | reservedField hp hf h => exact ⟨⟨hp, _, hf, h⟩, rfl⟩

theorem combination_faultless_iff : (∀ e, ¬ Wrong d before (.combination f) e) ↔
    (isGiven "skip" (itemsOf f.attributes) = true → texts "rename" (itemsOf f.attributes) = [] ∧
        isGiven "optional" (itemsOf f.attributes) = false ∧ isGiven "flatten" (itemsOf f.attributes) = false) ∧
      (isGiven "flatten" (itemsOf f.attributes) = true →
        texts "rename" (itemsOf f.attributes) = [] ∧ isGiven "optional" (itemsOf f.attributes) = false) := by
  constructor
  · intro h
    have hskip : isGiven "skip" (itemsOf f.attributes) = true → texts "rename" (itemsOf f.attributes) = [] ∧
        isGiven "optional" (itemsOf f.attributes) = false ∧ isGiven "flatten" (itemsOf f.attributes) = false := by
      intro hs
      simpa using fun hc => h _ (.skipCombined hs hc)
    refine ⟨hskip, fun hf => ?_⟩
    -- a field that is skipped as well is refused for that
    have hs : isGiven "skip" (itemsOf f.attributes) = false :=
      Bool.eq_false_iff.2 fun hs => by simp [(hskip hs).2.2] at hf
    simpa using fun hc => h _ (.flattenCombined hs hf hc)
  · rintro ⟨hskip, hflatten⟩ e h
    cases h with
    | skipCombined hs h => simp [hskip hs] at h
    | flattenCombined _ hf h => simp [hflatten hf] at h

theorem flattening_faultless_iff : (∀ e, ¬ Wrong d before (.flattening f) e) ↔
    (isGiven "flatten" (itemsOf f.attributes) = true → HasFields f.type.form) := by
  constructor
  · intro h hf
    exact Classical.not_not.1 fun hn => h _ (.notFlattenable hf hn)
  · intro h e hw
    cases hw with
    | notFlattenable hf hn => exact hn (h hf)

theorem documentedField_iff : Faultless (Wrong d) before (fieldChecks f) ↔ DocumentedField f := by
  unfold fieldChecks
  rw [faultless_append, faultless_map wrong_fieldPlace_iff, FieldOptions.faultless_iff, faultless_cons, faultless_cons,
    combination_faultless_iff, flattening_faultless_iff]
  constructor
  · rintro ⟨⟨hl, hi⟩, ⟨hs, hf⟩, ht, -⟩
    exact ⟨hl, hi, hs, hf, ht⟩
  · intro h
    exact ⟨⟨h.listed, h.items⟩, ⟨h.skip, h.flatten⟩, h.type, faultless_nil⟩

theorem kind_faultless_iff : (∀ e, ¬ Wrong d before .kind e) ↔ d.shape = .unit ∨ ∃ fields, d.shape = .named fields := by
  constructor
  · intro h
    cases hs : d.shape with
    | named fields => exact .inr ⟨fields, rfl⟩
    | unit => exact .inl rfl
    | tuple => exact absurd (.tuple hs) (h _)
    | enumeration => exact absurd (.enumeration hs) (h _)
    | union => exact absurd (.union hs) (h _)
  · rintro (hs | ⟨fields, hs⟩) e h <;> cases h <;> simp_all

theorem names_faultless_iff :
    (∀ e, ¬ Wrong d before .names e) ↔ (Polymorphic d → ∀ f ∈ declaredFields d, ¬ TakesTagPlace f) := by
  constructor
  · intro h hp f hf ht
    exact h _ (.reservedField hp hf ht)
  · intro h e hw
    cases hw with
    | reservedField hp hf ht => exact h hp _ hf ht

theorem documented_iff : Faultless (Wrong d) [] (checks d) ↔ Documented d := by
  unfold checks
  rw [faultless_append, faultless_map wrong_typePlace_iff, TypeOptions.faultless_iff, faultless_append, faultless_cons,
    faultless_flatMap documentedField_iff, faultless_cons, kind_faultless_iff, names_faultless_iff]
  constructor
  · rintro ⟨⟨hl, hi, ht⟩, ⟨hk, hf⟩, hn, -⟩
    exact ⟨hl, hi, ht, hk, hf, hn⟩
  · intro h
    exact ⟨⟨h.listed, h.items, h.tags⟩, ⟨h.kind, h.fields⟩, h.names, faultless_nil⟩

/-- Saving and loading are derived for exactly the declarations that keep to the rules. Others are refused for the
first thing that is wrong. -/
theorem derive_accepts_documented (manifest : Option Toml.Table) (d : TypeDeclaration) :
    ((∃ e, derive manifest d = .ok e) ↔ Documented d) ∧
      ∀ r, derive manifest d = .error r ↔ FirstFault (Wrong d) [] (checks d) r :=
  ⟨(derive_failsFirst manifest d).isOk_iff.trans documented_iff, derive_failsFirst manifest d⟩

/-- A type without fields, with a base that holds more than a path and some other items. -/
def overlongBase (items : List ItemDraft) : Draft where
  name := "A"
  shape := .unit
  attributes := [⟨attributeName, ⟨"base", .dynamic "Shape + Send"⟩ :: items⟩]
  fields := []
  parameters := []
  conditions := ""

/-- An item that is not known counts before what is wrong with the base in front of it. -/
theorem unknown_item_before_overlong_base :
    deriveText none (overlongBase []).source = .error (.malformed (.unclosed .parentheses)) ∧
      deriveText none (overlongBase [⟨"colour", .none⟩]).source = .error .unknownTypeItem := by
  decide +kernel

end Archivist.Derive
