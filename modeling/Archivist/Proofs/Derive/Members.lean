import Archivist.Proofs.Derive.Attributes

/-!
The fields of a declaration and their names in documents. Main statement: a derivation that succeeds comes from
the declared fields, each with what all its attributes ask for together.
-/

set_option autoImplicit false

namespace Archivist.Derive

open Source (FieldDeclaration TextLiteral TypeDeclaration)

def declaredFields (d : TypeDeclaration) : List FieldDeclaration :=
  match d.shape with
  | .named fields => fields
  | _ => []

/-- An identifier without the mark that lets it be a reserved word. -/
def Unmarked (name plain : String) : Prop :=
  name = "r#" ++ plain ∨ plain = name ∧ ∀ rest, name ≠ "r#" ++ rest

/-- The name of a field in documents, as a literal: the one that is asked for last, or its own. -/
inductive Named (f : FieldDeclaration) : TextLiteral → Prop
  | renamed {document : TextLiteral} (h : (texts "rename" (itemsOf f.attributes)).getLast? = some document) :
      Named f document
  | own {name : String} (h : texts "rename" (itemsOf f.attributes) = []) (hn : Unmarked f.name name) :
      Named f ⟨Text.quoted name, name⟩

namespace Member

variable {f : FieldDeclaration} {m : Member}

theorem plainName_mark (rest : String) : plainName ("r#" ++ rest) = rest := by
  simp [plainName]

theorem plainName_of_ne {name : String} (h : ∀ rest, name ≠ "r#" ++ rest) : plainName name = name := by
  unfold plainName
  split
  · rename_i rest hn
    refine absurd ?_ (h (String.ofList rest))
    rw [← String.toList_inj, hn]
    simp
  · rfl

theorem plainName_eq_iff {name plain : String} : plainName name = plain ↔ Unmarked name plain := by
  by_cases h : ∃ rest, name = "r#" ++ rest
  · obtain ⟨rest, rfl⟩ := h
    rw [plainName_mark]
    simp [Unmarked]
  · have hne : ∀ rest, name ≠ "r#" ++ rest := fun rest hr => h ⟨rest, hr⟩
    rw [plainName_of_ne hne]
    simp [Unmarked, hne, eq_comm]

def ofField (f : FieldDeclaration) : Member := ⟨f.name, f.type, .ofItems (itemsOf f.attributes)⟩

theorem document_ofField_iff {document : TextLiteral} : (ofField f).document = document ↔ Named f document := by
  have hd : (ofField f).document = (texts "rename" (itemsOf f.attributes)).getLast?.getD
      ⟨Text.quoted (plainName f.name), plainName f.name⟩ := rfl
  rw [hd]
  cases hr : (texts "rename" (itemsOf f.attributes)).getLast? with
  | some literal =>
    have hne : texts "rename" (itemsOf f.attributes) ≠ [] := by
      rintro h
      simp [h] at hr
    constructor
    · rintro rfl
      exact .renamed hr
    · intro h
      cases h with
      | renamed h => simpa [hr] using h
      | own h => exact absurd h hne
  | none =>
    have hnil := List.getLast?_eq_none_iff.1 hr
    constructor
    · rintro rfl
      exact .own hnil (plainName_eq_iff.1 rfl)
    · intro h
      cases h with
      | renamed h => simp [hr] at h
      | own _ hn =>
        rw [plainName_eq_iff.2 hn]
        rfl

end Member

theorem FieldOptions.read_eq_ok {attributes : List Source.Attribute} {o : FieldOptions} (h : read attributes = .ok o) :
    o = ofItems (itemsOf attributes) := by
  obtain ⟨o', ho, h⟩ := bind_eq_ok_iff.1 h
  split at h
  · cases h
  · cases h
    exact (readAll_firstFault attributes).2 o ho

theorem Member.read_eq (f : FieldDeclaration) : read f = (do
    let o ← FieldOptions.read f.attributes
    if o.flatten && !isFlattenable f.type.form then .error .notFlattenable
    else .ok ⟨f.name, f.type, o⟩) := rfl

theorem Member.read_eq_ok {f : FieldDeclaration} {m : Member} (h : read f = .ok m) : m = ofField f := by
  rw [read_eq] at h
  obtain ⟨o, ho, h⟩ := bind_eq_ok_iff.1 h
  split at h
  · cases h
  · cases h
    rw [FieldOptions.read_eq_ok ho]
    rfl

theorem members_eq_ok {d : TypeDeclaration} {ms : List Member} (h : members d = .ok ms) :
    ms = (declaredFields d).map .ofField := by
  unfold members at h
  unfold declaredFields
  cases hs : d.shape with
  | named fields =>
    simp only [hs] at h
    exact mapM_eq_ok Member.read_eq_ok h
  | unit =>
    simp only [hs] at h
    cases h
    rfl
  | tuple | enumeration | union =>
    simp only [hs] at h
    cases h

/-- What is derived when nothing is wrong. -/
def expand (manifest : Option Toml.Table) (d : TypeDeclaration) (o : TypeOptions) (ms : List Member) : Expansion where
  root := o.root.getD (packagePath manifest supportPackage)
  name := d.name
  parameters := d.parameters
  declarations :=
    .scribe (requirements d ms) (ms.filterMap (·.statement? .save)) (ms.filterMap (·.statement? .load)) ::
      .loadNew (requirements d ms ++ [.initial]) :: if isGeneric d then [] else o.registrations

theorem derive_eq (manifest : Option Toml.Table) (d : TypeDeclaration) : derive manifest d = (do
    let o ← TypeOptions.read d.attributes
    let ms ← members d
    if o.isPolymorphic && ms.any Member.isReserved then .error .reservedField
    else .ok (expand manifest d o ms)) := rfl

theorem derive_eq_ok {manifest : Option Toml.Table} {d : TypeDeclaration} {e : Expansion}
    (h : derive manifest d = .ok e) :
    e = expand manifest d (.ofItems (itemsOf d.attributes)) ((declaredFields d).map .ofField) := by
  rw [derive_eq] at h
  obtain ⟨o, ho, h⟩ := bind_eq_ok_iff.1 h
  obtain ⟨ms, hm, h⟩ := bind_eq_ok_iff.1 h
  rw [(TypeOptions.read_firstFault d.attributes).2 o ho, members_eq_ok hm] at h
  split at h <;> cases h
  rfl

end Archivist.Derive
