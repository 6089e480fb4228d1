import Mathlib.Data.List.Basic
import Archivist.Proofs.Registry.Growth

/-!
Registries told from the calls that made them. Main statement: all look-ups after a run of calls on the
empty registry follow from the first claimant of each tag, the set of the calls and the first upcaster
for each relation.
-/

set_option autoImplicit false

namespace Archivist.Registry

/-- An entry that a registry is asked to add. -/
inductive Insertion where
  | input (t : Target) (a : Archive)
  | output (t : Target) (a : Archive)
  | relation (base t : Target) (up : Upcaster)
  deriving DecidableEq, Repr

def Insertion.claims? : Insertion → Option Target
  | .input t _ | .output t _ => some t
  | .relation _ _ _ => none

/-- Each type is known to the registry by the name and the tag that the schema gives it. -/
def insert (S : Schema) (r : Registry) : Insertion → Change
  | .input t a => r.insertInput (S.info t) a
  | .output t a => r.insertOutput (S.info t) a
  | .relation base t up => r.insertRelation (S.info base) (S.info t) up

inductive Call where
  | insert (i : Insertion)
  | register (t : Target)
  deriving DecidableEq, Repr

def Call.insertions : Call → List Insertion
  | .insert i => [i]
  | .register t => [.input t .jsonReader, .output t .jsonWriter]

def call (S : Schema) (r : Registry) : Call → Registry
  | .insert i => (r.insert S i).registry
  | .register t => (r.register (S.info t)).registry

def run (S : Schema) (r : Registry) (calls : List Call) : Registry := calls.foldl (call S) r

theorem run_append (S : Schema) (r : Registry) (calls calls' : List Call) :
    r.run S (calls ++ calls') = (r.run S calls).run S calls' := List.foldl_append

def insertions (calls : List Call) : List Insertion := calls.flatMap Call.insertions

/-- The first type that claims a tag. Nobody can claim the unknown tag. -/
def owner (S : Schema) (is : List Insertion) (tag : String) : Option Target :=
  if tag = unknownTag then none
  else (is.filterMap Insertion.claims?).find? fun t => S.tag t = tag

/-- The upcaster that an insertion gives for a relation. -/
def Insertion.upcaster? (base t : Target) : Insertion → Option Upcaster
  | .relation b x up => if b = base ∧ x = t then some up else none
  | _ => none

/-- A registry that answers as the list of insertions says. -/
structure Recounts (S : Schema) (is : List Insertion) (r : Registry) : Prop where
  typeOf (tag : String) : r.typeOf? tag = owner S is tag
  tagOf (t : Target) (tag : String) :
    r.tagOf? t = some tag ↔ tag = S.tag t ∧ owner S is tag = some t
  input (a : Archive) (tag : String) (t : Target) :
    r.input? a tag = some t ↔ owner S is tag = some t ∧ .input t a ∈ is
  output (a : Archive) (t : Target) (binding : OutputBinding) :
    r.output? a t = some binding ↔
      binding = ⟨t, S.tag t⟩ ∧ owner S is (S.tag t) = some t ∧ .output t a ∈ is
  upcaster (base t : Target) :
    r.upcaster? base t = is.findSome? (Insertion.upcaster? base t)

section Owner

variable {S : Schema} {is : List Insertion} {i : Insertion} {t : Target} {tag : String}

theorem owner_eq_some_tag (h : owner S is tag = some t) : S.tag t = tag ∧ tag ≠ unknownTag := by
  unfold owner at h
  split at h
  · cases h
  · rename_i hu
    exact ⟨by simpa using List.find?_some h, hu⟩

theorem owner_append_singleton :
    owner S (is ++ [i]) tag =
      (owner S is tag).or
        (if tag = unknownTag then none else i.claims?.filter fun t => S.tag t = tag) := by
  unfold owner
  split
  · rfl
  · cases h : i.claims? with
    | none => simp [List.filterMap_append, h]
    | some x =>
      simp only [List.filterMap_append, List.find?_append]
      by_cases hx : S.tag x = tag <;> simp [h, hx, Option.filter]

theorem owner_append_of_some (h : owner S is tag = some t) : owner S (is ++ [i]) tag = some t := by
  rw [owner_append_singleton, h]
  rfl

theorem owner_of_mem {j : Insertion} {x : Target} (hj : j ∈ is) (hx : j.claims? = some x)
    (h : owner S (is ++ [i]) (S.tag x) = some x) : owner S is (S.tag x) = some x := by
  cases ho : owner S is (S.tag x) with
  | some y =>
    rw [owner_append_of_some ho] at h
    exact h
  | none =>
    have hu := (owner_eq_some_tag h).2
    unfold owner at ho
    rw [if_neg hu, List.find?_eq_none] at ho
    exact absurd (by simp) (ho x (List.mem_filterMap.2 ⟨j, hj, hx⟩))

theorem owner_append_relation (base x : Target) (up : Upcaster) :
    owner S (is ++ [.relation base x up]) tag = owner S is tag := by
  rw [owner_append_singleton]
  simp [Insertion.claims?]

end Owner

namespace Recounts

variable {S : Schema} {is : List Insertion} {r : Registry}

theorem empty (S : Schema) : Recounts S [] .empty := by
  have h : ∀ tag, owner S [] tag = none := by simp [owner]
  constructor <;> simp [h, typeOf?, tagOf?, input?, output?, upcaster?, Registry.empty, Table.get?]

theorem isRefused_eq_false_iff (h : Recounts S is r) {i : Insertion} {t : Target}
    (hi : i.claims? = some t) :
    r.isRefused (S.info t) = false ↔ owner S (is ++ [i]) (S.tag t) = some t := by
  rw [Registry.isRefused_eq_false_iff, owner_append_singleton, hi, h.typeOf, Schema.tag_info,
    Schema.id_info]
  by_cases hu : S.tag t = unknownTag
  · simp [owner, hu]
  · cases ho : owner S is (S.tag t) <;> simp [hu, Option.filter]

theorem typeOf_claim (h : Recounts S is r) {i : Insertion} {t : Target} (hi : i.claims? = some t)
    (tag : String) : (r.claim (S.info t)).registry.typeOf? tag = owner S (is ++ [i]) tag := by
  rw [typeOf?_claim, owner_append_singleton, hi, h.typeOf, Schema.tag_info, Schema.id_info]
  by_cases hu : tag = unknownTag
  · simp [owner, hu]
  · cases ho : owner S is tag with
    | some x => simp
    | none =>
      by_cases ht : tag = S.tag t
      · subst ht
        simp [hu, Option.filter]
      · have ht' : ¬ S.tag t = tag := fun e => ht e.symm
        simp [ht, ht', Option.filter]

theorem tagOf_claim (h : Recounts S is r) {i : Insertion} {t : Target} (hi : i.claims? = some t)
    (x : Target) (tag : String) :
    (r.claim (S.info t)).registry.tagOf? x = some tag ↔
      tag = S.tag x ∧ owner S (is ++ [i]) tag = some x := by
  rw [tagOf?_claim, h.typeOf]
  by_cases hc : x = (S.info t).id ∧ (S.info t).tag ≠ unknownTag ∧
      owner S is (S.info t).tag = none ∧ r.tagOf? x = none
  · rw [if_pos hc]
    simp only [Schema.id_info, Schema.tag_info] at hc ⊢
    obtain ⟨rfl, hu, ho, -⟩ := hc
    have hown : owner S (is ++ [i]) (S.tag x) = some x := by
      simp [owner_append_singleton, hi, ho, hu, Option.filter]
    constructor
    · intro e
      cases e
      exact ⟨rfl, hown⟩
    · rintro ⟨rfl, -⟩
      rfl
  · rw [if_neg hc, h.tagOf]
    simp only [Schema.id_info, Schema.tag_info] at hc
    refine and_congr_right fun htag => ⟨owner_append_of_some, fun ho => ?_⟩
    -- the tag was free before only if the claim made its owner
    cases hb : owner S is tag with
    | some y => rw [owner_append_of_some hb] at ho; exact ho
    | none =>
      exfalso
      have hu := (owner_eq_some_tag ho).2
      rw [owner_append_singleton, hb, hi] at ho
      simp only [hu, ↓reduceIte, Option.none_or, Option.filter_eq_some_iff, Option.some.injEq] at ho
      obtain ⟨rfl, -⟩ := ho
      subst htag
      refine hc ⟨rfl, hu, hb, ?_⟩
      cases hx : r.tagOf? t with
      | none => rfl
      | some g =>
        obtain ⟨rfl, hg⟩ := (h.tagOf t g).1 hx
        rw [hb] at hg
        cases hg

theorem insertInput (h : Recounts S is r) (t : Target) (a : Archive) :
    Recounts S (is ++ [.input t a]) (r.insertInput (S.info t) a).registry where
  typeOf tag := by
    rw [typeOf?_insertInput]
    exact h.typeOf_claim rfl tag
  tagOf x tag := by
    rw [tagOf?_insertInput]
    exact h.tagOf_claim rfl x tag
  input b tag x := by
    rw [input?_insertInput]
    by_cases hc : b = a ∧ tag = (S.info t).tag ∧ r.isRefused (S.info t) = false ∧
        r.input? a (S.info t).tag = none
    · rw [if_pos hc]
      obtain ⟨rfl, rfl, hr, -⟩ := hc
      have ho := (h.isRefused_eq_false_iff (i := .input t b) rfl).1 hr
      simp only [Schema.tag_info, Schema.id_info, ho, Option.some.injEq]
      exact ⟨fun e => ⟨e, by simp [e]⟩, And.left⟩
    · rw [if_neg hc, h.input]
      refine ⟨And.imp owner_append_of_some fun hm => by simp [hm], ?_⟩
      rintro ⟨ho, hm⟩
      obtain ⟨rfl, -⟩ := owner_eq_some_tag ho
      have before : ∀ {b}, Insertion.input x b ∈ is →
          owner S is (S.tag x) = some x ∧ Insertion.input x b ∈ is :=
        fun hm => ⟨owner_of_mem hm rfl ho, hm⟩
      simp only [List.mem_append, List.mem_singleton, Insertion.input.injEq] at hm
      obtain hm | ⟨rfl, rfl⟩ := hm
      · exact before hm
      · -- the type owns its tag and found it bound already, by its own binding
        have hr := (h.isRefused_eq_false_iff (i := .input x b) rfl).2 ho
        obtain ⟨y, hy⟩ : ∃ y, r.input? b (S.tag x) = some y :=
          Option.ne_none_iff_exists'.1 fun hn => hc ⟨rfl, rfl, hr, hn⟩
        obtain ⟨hoy, hmy⟩ := (h.input _ _ _).1 hy
        rw [owner_append_of_some hoy] at ho
        cases ho
        exact ⟨hoy, hmy⟩
  output b x binding := by
    have e : (r.insertInput (S.info t) a).registry.output? b x = r.output? b x := by simp [output?]
    rw [e, h.output]
    refine and_congr_right fun _ => ⟨And.imp owner_append_of_some fun hm => by simp [hm], ?_⟩
    rintro ⟨ho, hm⟩
    have hm : Insertion.output x b ∈ is := by simpa using hm
    exact ⟨owner_of_mem hm rfl ho, hm⟩
  upcaster base x := by
    have e : (r.insertInput (S.info t) a).registry.upcaster? base x = r.upcaster? base x := by
      simp [Registry.upcaster?]
    simp [e, h.upcaster, List.findSome?_append, Insertion.upcaster?]

theorem insertOutput (h : Recounts S is r) (t : Target) (a : Archive) :
    Recounts S (is ++ [.output t a]) (r.insertOutput (S.info t) a).registry where
  typeOf tag := by
    rw [typeOf?_insertOutput]
    exact h.typeOf_claim rfl tag
  tagOf x tag := by
    rw [tagOf?_insertOutput]
    exact h.tagOf_claim rfl x tag
  input b tag x := by
    have e : (r.insertOutput (S.info t) a).registry.input? b tag = r.input? b tag := by simp [input?]
    rw [e, h.input]
    refine ⟨And.imp owner_append_of_some fun hm => by simp [hm], ?_⟩
    rintro ⟨ho, hm⟩
    obtain ⟨rfl, -⟩ := owner_eq_some_tag ho
    have hm : Insertion.input x b ∈ is := by simpa using hm
    exact ⟨owner_of_mem hm rfl ho, hm⟩
  output b x binding := by
    rw [output?_insertOutput]
    by_cases hc : b = a ∧ x = (S.info t).id ∧ r.isRefused (S.info t) = false ∧
        r.output? a (S.info t).id = none
    · rw [if_pos hc]
      obtain ⟨rfl, rfl, hr, -⟩ := hc
      have ho := (h.isRefused_eq_false_iff (i := .output x b) rfl).1 hr
      simp only [Schema.tag_info, Option.some.injEq]
      exact ⟨fun e => ⟨e.symm, ho, by simp⟩, fun e => e.1.symm⟩
    · rw [if_neg hc, h.output]
      refine and_congr_right fun _ => ⟨And.imp owner_append_of_some fun hm => by simp [hm], ?_⟩
      rintro ⟨ho, hm⟩
      simp only [List.mem_append, List.mem_singleton, Insertion.output.injEq] at hm
      obtain hm | ⟨rfl, rfl⟩ := hm
      · exact ⟨owner_of_mem hm rfl ho, hm⟩
      · have hr := (h.isRefused_eq_false_iff (i := .output x b) rfl).2 ho
        obtain ⟨g, hg⟩ : ∃ g, r.output? b x = some g :=
          Option.ne_none_iff_exists'.1 fun hn => hc ⟨rfl, rfl, hr, hn⟩
        exact ((h.output _ _ _).1 hg).2
  upcaster base x := by
    have e : (r.insertOutput (S.info t) a).registry.upcaster? base x = r.upcaster? base x := by
      simp [Registry.upcaster?]
    simp [e, h.upcaster, List.findSome?_append, Insertion.upcaster?]

theorem upcaster_append (h : Recounts S is r) (base t : Target) (up : Upcaster) (b x : Target) :
    (if b = base ∧ x = t ∧ r.upcaster? base t = none then some up else r.upcaster? b x) =
      (is ++ [Insertion.relation base t up]).findSome? (Insertion.upcaster? b x) := by
  rw [List.findSome?_append, ← h.upcaster]
  by_cases hx : b = base ∧ x = t
  · obtain ⟨rfl, rfl⟩ := hx
    cases hf : r.upcaster? b x <;> simp [Insertion.upcaster?]
  · have hx' : ¬ (base = b ∧ t = x) := fun ⟨e, e'⟩ => hx ⟨e.symm, e'.symm⟩
    simp [Insertion.upcaster?, ← and_assoc, hx, hx']

theorem insertRelation (h : Recounts S is r) (base t : Target) (up : Upcaster) :
    Recounts S (is ++ [.relation base t up])
      (r.insertRelation (S.info base) (S.info t) up).registry where
  typeOf tag := by
    rw [owner_append_relation]
    exact h.typeOf tag
  tagOf x tag := by
    rw [owner_append_relation]
    exact h.tagOf x tag
  input b tag x := by
    have e : (r.insertRelation (S.info base) (S.info t) up).registry.input? b tag =
      r.input? b tag := rfl
    simp [e, owner_append_relation, h.input]
  output b x binding := by
    have e : (r.insertRelation (S.info base) (S.info t) up).registry.output? b x =
      r.output? b x := rfl
    simp [e, owner_append_relation, h.output]
  upcaster b x :=
    (upcaster?_insertRelation r (S.info t) (S.info base) up b x).trans
      (h.upcaster_append base t up b x)

theorem insert (h : Recounts S is r) (i : Insertion) :
    Recounts S (is ++ [i]) (r.insert S i).registry := by
  cases i with
  | input t a => exact h.insertInput t a
  | output t a => exact h.insertOutput t a
  | relation base t up => exact h.insertRelation base t up

theorem call (h : Recounts S is r) (c : Call) : Recounts S (is ++ c.insertions) (r.call S c) := by
  cases c with
  | insert i => exact h.insert i
  | register t =>
    have h' := (h.insertInput t .jsonReader).insertOutput t .jsonWriter
    rwa [List.append_assoc] at h'

theorem run (h : Recounts S is r) (calls : List Call) :
    Recounts S (is ++ insertions calls) (r.run S calls) := by
  induction calls generalizing is r with
  | nil => simpa [insertions, Registry.run] using h
  | cons c calls ih =>
    have h' := ih (h.call c)
    rwa [List.append_assoc] at h'

theorem unknown (h : Recounts S is r) :
    r.typeOf? unknownTag = none ∧ (∀ a, r.input? a unknownTag = none) ∧
      (∀ t, r.tagOf? t ≠ some unknownTag) ∧
      ∀ a t binding, r.output? a t = some binding → binding.tag ≠ unknownTag := by
  have ho : owner S is unknownTag = none := by simp [owner]
  refine ⟨by rw [h.typeOf, ho], fun a => ?_, fun t ht => ?_, fun a t binding hb => ?_⟩
  · cases hi : r.input? a unknownTag with
    | none => rfl
    | some t => simp [(h.input _ _ _).1 hi] at ho
  · simp [((h.tagOf _ _).1 ht).2] at ho
  · obtain ⟨rfl, howner, -⟩ := (h.output _ _ _).1 hb
    exact (owner_eq_some_tag howner).2

theorem typeOf_of_input (h : Recounts S is r) {a : Archive} {tag : String} {t : Target}
    (hi : r.input? a tag = some t) : r.typeOf? tag = some t := by
  rw [h.typeOf]
  exact ((h.input _ _ _).1 hi).1

theorem tag_of_input (h : Recounts S is r) {a : Archive} {tag : String} {t : Target}
    (hi : r.input? a tag = some t) : S.tag t = tag ∧ tag ≠ unknownTag :=
  owner_eq_some_tag ((h.input _ _ _).1 hi).1

end Recounts

/-- Whether a registry has the very entry of an insertion. -/
def Holds (S : Schema) (r : Registry) : Insertion → Prop
  | .input t a => r.input? a (S.tag t) = some t
  | .output t a => r.output? a t = some ⟨t, S.tag t⟩
  | .relation base t up => r.upcaster? base t = some up

section Added

variable {S : Schema} {is : List Insertion} {r : Registry}

theorem insert_eq_self (h : Recounts S is r) {i : Insertion} (hi : (r.insert S i).added = false) :
    (r.insert S i).registry = r := by
  have owned : ∀ {t}, r.isRefused (S.info t) = false → owner S is (S.tag t) = some t →
      (r.claim (S.info t)).registry = r := by
    intro t hr ho
    obtain ⟨hr', -⟩ | ⟨-, -, he, -⟩ | ⟨-, hn, -⟩ := r.claim_cases (S.info t)
    · simp [hr] at hr'
    · exact he
    · simp [h.typeOf, ho] at hn
  cases i with
  | input t a =>
    simp only [insert, added_insertInput] at hi ⊢
    cases hr : r.isRefused (S.info t) with
    | true => simp [insertInput_eq, hr, (r.claim_of_refused _ hr).1]
    | false =>
      obtain ⟨x, hx⟩ : ∃ x, r.input? a (S.tag t) = some x := by
        simpa [hr, Option.isSome_iff_exists] using hi
      have ho := ((h.input _ _ _).1 hx).1
      have hown := (h.isRefused_eq_false_iff (i := .input t a) rfl).1 hr
      rw [owner_append_of_some ho] at hown
      cases hown
      have hc : r.inputs.contains (a, S.tag t) = true := by
        simpa [Table.contains, input?, Option.isSome_iff_exists] using ⟨_, hx⟩
      simp [insertInput_eq, hr, owned hr ho, Table.tryInsert, hc]
  | output t a =>
    simp only [insert, added_insertOutput] at hi ⊢
    cases hr : r.isRefused (S.info t) with
    | true => simp [insertOutput_eq, hr, (r.claim_of_refused _ hr).1]
    | false =>
      obtain ⟨g, hg⟩ : ∃ g, r.output? a t = some g := by
        simpa [hr, Option.isSome_iff_exists] using hi
      have ho := ((h.output _ _ _).1 hg).2.1
      have hc : r.outputs.contains (a, t) = true := by
        simpa [Table.contains, output?, Option.isSome_iff_exists] using ⟨_, hg⟩
      simp [insertOutput_eq, hr, owned hr ho, Table.tryInsert, hc]
  | relation base t up =>
    have hc : r.relations.contains (base, t) = true := by
      simpa [insert, added_insertRelation, upcaster?, Table.contains] using hi
    simp [insert, insertRelation, Table.tryInsert, hc]

theorem added_insert_iff (h : Recounts S is r) (i : Insertion) :
    (r.insert S i).added = true ↔ ¬ Holds S r i ∧ Holds S (r.insert S i).registry i := by
  constructor
  · intro ha
    cases i with
    | input t a =>
      simp only [insert, added_insertInput, Bool.and_eq_true, Bool.not_eq_true', Schema.tag_info,
        Option.isNone_iff_eq_none] at ha
      simp [Holds, insert, input?_insertInput, ha]
    | output t a =>
      simp only [insert, added_insertOutput, Bool.and_eq_true, Bool.not_eq_true', Schema.id_info,
        Option.isNone_iff_eq_none] at ha
      simp [Holds, insert, output?_insertOutput, ha]
    | relation base t up =>
      simp only [insert, added_insertRelation, Schema.id_info, Option.isNone_iff_eq_none] at ha
      simp [Holds, insert, upcaster?_insertRelation, ha]
  · rintro ⟨hn, ha⟩
    cases hi : (r.insert S i).added with
    | true => rfl
    | false =>
      rw [insert_eq_self h hi] at ha
      exact absurd ha hn

end Added

/-- The answers of two registries, the upcasters themselves apart. -/
structure Agrees (r r' : Registry) : Prop where
  typeOf (tag : String) : r.typeOf? tag = r'.typeOf? tag
  tagOf (t : Target) : r.tagOf? t = r'.tagOf? t
  input (a : Archive) (tag : String) : r.input? a tag = r'.input? a tag
  output (a : Archive) (t : Target) : r.output? a t = r'.output? a t
  related (base t : Target) : (r.upcaster? base t).isSome = (r'.upcaster? base t).isSome

/-- Look-ups depend on the owners of the tags and on the set of insertions. -/
theorem Recounts.agrees {S : Schema} {is is' : List Insertion} {r r' : Registry}
    (h : Recounts S is r) (h' : Recounts S is' r') (ho : ∀ tag, owner S is tag = owner S is' tag)
    (hm : ∀ i, i ∈ is ↔ i ∈ is') : r.Agrees r' where
  typeOf tag := by rw [h.typeOf, h'.typeOf, ho]
  tagOf t := Option.ext fun tag => by rw [h.tagOf, h'.tagOf, ho]
  input a tag := Option.ext fun t => by rw [h.input, h'.input, ho, hm]
  output a t := Option.ext fun binding => by rw [h.output, h'.output, ho, hm]
  related base t := by
    rw [h.upcaster, h'.upcaster, Bool.eq_iff_iff]
    simp only [List.isSome_findSome?, List.any_eq_true, hm]

/-- After any run of calls on the empty registry the first claimant of a tag owns it, bindings are those
that were asked for owners, and relations those asked for first. Nothing stands under the unknown tag.
A further insertion says whether it added its entry, and changes nothing otherwise. Runs with the same
claimants and the same insertions agree. -/
theorem lookups_of_run (S : Schema) (calls : List Call) :
    Recounts S (insertions calls) (empty.run S calls) ∧
    ((empty.run S calls).typeOf? unknownTag = none ∧
      (∀ a, (empty.run S calls).input? a unknownTag = none) ∧
      (∀ t, (empty.run S calls).tagOf? t ≠ some unknownTag) ∧
      ∀ a t binding, (empty.run S calls).output? a t = some binding → binding.tag ≠ unknownTag) ∧
    (∀ i, let change := (empty.run S calls).insert S i
      (change.added = true ↔ ¬ Holds S (empty.run S calls) i ∧ Holds S change.registry i) ∧
      (change.added = false → change.registry = empty.run S calls)) ∧
    ∀ calls', (∀ tag, owner S (insertions calls) tag = owner S (insertions calls') tag) →
      (∀ i, i ∈ insertions calls ↔ i ∈ insertions calls') →
      (empty.run S calls).Agrees (empty.run S calls') := by
  have h : ∀ calls, Recounts S (insertions calls) (empty.run S calls) := fun calls => by
    simpa using (Recounts.empty S).run calls
  refine ⟨h calls, (h calls).unknown, fun i => ?_, fun calls' ho hm => ?_⟩
  · exact ⟨added_insert_iff (h calls) i, insert_eq_self (h calls)⟩
  · exact (h calls).agrees (h calls') ho hm

/-- Calls build the registry from the empty one, with insertions of one kind only. -/
def BuiltBy (S : Schema) (P : Insertion → Prop) (r : Registry) : Prop :=
  ∃ calls, r = empty.run S calls ∧ ∀ i ∈ insertions calls, P i

abbrev Built (S : Schema) : Registry → Prop := BuiltBy S fun _ => True

namespace BuiltBy

variable {S : Schema} {P : Insertion → Prop} {r : Registry}

theorem empty (S : Schema) (P : Insertion → Prop) : BuiltBy S P .empty := ⟨[], rfl, by simp [insertions]⟩

theorem run (h : BuiltBy S P r) {calls : List Call} (hc : ∀ i ∈ insertions calls, P i) :
    BuiltBy S P (r.run S calls) := by
  obtain ⟨before, rfl, hb⟩ := h
  refine ⟨before ++ calls, (run_append S _ before calls).symm, ?_⟩
  rw [insertions, List.flatMap_append]
  exact List.forall_mem_append.2 ⟨hb, hc⟩

theorem recounts (h : BuiltBy S P r) : ∃ is, Recounts S is r ∧ ∀ i ∈ is, P i := by
  obtain ⟨calls, rfl, hc⟩ := h
  exact ⟨insertions calls, by simpa using (Recounts.empty S).run calls, hc⟩

end BuiltBy

theorem built_run {S : Schema} {r : Registry} (h : r.Built S) (calls : List Call) : (r.run S calls).Built S :=
  h.run fun _ _ => trivial

/-- Something that is done to a registry as a whole: calls, or a replacement by another registry. It may
look at the registry first. All that is known of it is that it keeps to registries that calls can build. -/
structure Registration where
  change : Schema → Registry → Registry
  built (S : Schema) (r : Registry) : r.Built S → (change S r).Built S

namespace Registration

def ofCalls (calls : List Call) : Registration where
  change S r := r.run S calls
  built _ _ h := built_run h calls

/-- Puts the empty registry in the place of the one it finds. -/
def reset : Registration where
  change _ _ := empty
  built S _ _ := .empty S _

/-- Registries with insertions of one kind only are changed into such. -/
def Keeps (S : Schema) (P : Insertion → Prop) (c : Registration) : Prop :=
  ∀ r, BuiltBy S P r → BuiltBy S P (c.change S r)

theorem keeps_ofCalls {S : Schema} {P : Insertion → Prop} {calls : List Call} (h : ∀ i ∈ insertions calls, P i) :
    (ofCalls calls).Keeps S P := fun _ hr => hr.run h

/-- Nothing is taken back. -/
def Additive (S : Schema) (c : Registration) : Prop :=
  ∀ r : Registry, r.Built S → r.Extends (c.change S r)

end Registration

end Archivist.Registry
