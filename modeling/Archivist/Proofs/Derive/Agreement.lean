import Mathlib.Data.List.Forall2
import Archivist.Derive.Printer
import Archivist.Proofs.Derive.Allowed
import Archivist.Proofs.Derive.Members

/-!
What is derived for the fields of a type. Main statement: the statements that save a value and those that load
one go through the same fields in the order of their declaration, each under the same name and in the same
form, and the declarations that follow are the ones that the attributes of the type ask for.
-/

set_option autoImplicit false

namespace Archivist.Derive

open Source (Attribute FieldDeclaration TextLiteral Token TypeDeclaration)

def keptFields (d : TypeDeclaration) : List FieldDeclaration :=
  (declaredFields d).filter fun f => !isGiven "skip" (itemsOf f.attributes)

/-- The call by which a field is saved or loaded. -/
inductive Call (root method borrow : String) (f : FieldDeclaration) : String → Prop
  | flattened (hf : isGiven "flatten" (itemsOf f.attributes) = true) :
      Call root method borrow f s!"{root} :: Scribe :: {method} ({borrow} self . {f.name} , ar) ? ; "
  | optional {document : TextLiteral} (hf : isGiven "flatten" (itemsOf f.attributes) = false)
      (ho : isGiven "optional" (itemsOf f.attributes) = true) (hn : Named f document) :
      Call root method borrow f
        s!"{root} :: wrap_optional ({document.source} , {borrow} self . {f.name}) . {method} (ar) ? ; "
  | plain {document : TextLiteral} (hf : isGiven "flatten" (itemsOf f.attributes) = false)
      (ho : isGiven "optional" (itemsOf f.attributes) = false) (hn : Named f document) :
      Call root method borrow f s!"{root} :: wrap ({document.source} , {borrow} self . {f.name}) . {method} (ar) ? ; "

/-- What the type asks for, and for a generic type that its fields can be saved and loaded. -/
def conditionsOn (d : TypeDeclaration) : List Condition :=
  d.conditions.map .given ++ if d.parameters.isEmpty then [] else (keptFields d).map (.scribe ·.type.text)

/-- The texts that say what references to a type need. Generic types have none. -/
inductive Registers (d : TypeDeclaration) (root : String) : List String → Prop
  | generic (h : d.parameters ≠ []) : Registers d root []
  | tagged {tag : TextLiteral} (h : d.parameters = []) (ht : texts "tag" (itemsOf d.attributes) = [tag]) :
      Registers d root
        (s!"{root} :: impl_pointee ! ({d.name} , tag = {tag.source}) ;" ::
          s!"{root} :: register_type ! ({d.name}) ;" ::
            (paths "base" (itemsOf d.attributes)).map fun base =>
              s!"{root} :: register_relation ! (dyn {base.spaced} => {d.name}) ;")
  | polymorphic (h : d.parameters = []) (ht : texts "tag" (itemsOf d.attributes) = [])
      (hp : isGiven "polymorphic" (itemsOf d.attributes) = true ∨ paths "base" (itemsOf d.attributes) ≠ []) :
      Registers d root [s!"{root} :: impl_pointee ! ({d.name} , polymorphic) ;"]
  | plain (h : d.parameters = []) (ht : texts "tag" (itemsOf d.attributes) = [])
      (hp : isGiven "polymorphic" (itemsOf d.attributes) = false) (hb : paths "base" (itemsOf d.attributes) = []) :
      Registers d root [s!"{root} :: impl_pointee ! ({d.name}) ;"]

/-- The statements of an expansion are those of the kept fields, and its other declarations are those that the
type asks for. -/
structure Agreement (d : TypeDeclaration) (e : Expansion) (saves loads : List Statement)
    (registrations : List Declaration) : Prop where
  declarations : e.declarations =
    .scribe (conditionsOn d) saves loads :: .loadNew (conditionsOn d ++ [.initial]) :: registrations
  saved : List.Forall₂ (fun f s => Call e.root.spaced "save" "&" f (s.text e.root.spaced)) (keptFields d) saves
  loaded : List.Forall₂ (fun f s => Call e.root.spaced "load" "& mut" f (s.text e.root.spaced)) (keptFields d) loads
  paired : List.Forall₂ (fun s l => s.field = l.field ∧ s.access = l.access) saves loads
  /-- The statements stand in two places of a text that is the same without them. -/
  bodies : ∃ before between after,
    e.declarationText (.scribe (conditionsOn d) [] []) = before ++ between ++ after ∧
      e.declarationText (.scribe (conditionsOn d) saves loads) =
        before ++ String.join (saves.map (·.text e.root.spaced)) ++ between ++
          String.join (loads.map (·.text e.root.spaced)) ++ after
  registered : Registers d e.root.spaced (registrations.map e.declarationText)

def statementOf (direction : Direction) (f : FieldDeclaration) : Statement :=
  ⟨direction, f.name, (Member.ofField f).access⟩

theorem filterMap_statement? (direction : Direction) (d : TypeDeclaration) :
    ((declaredFields d).map Member.ofField).filterMap (·.statement? direction) =
      (keptFields d).map (statementOf direction) := by
  unfold keptFields
  induction declaredFields d with
  | nil => rfl
  | cons f rest ih =>
    rw [List.map_cons, List.filter_cons]
    cases hs : isGiven "skip" (itemsOf f.attributes) with
    | false =>
      have hstatement : (Member.ofField f).statement? direction = some (statementOf direction f) :=
        if_neg (Bool.eq_false_iff.1 hs)
      rw [List.filterMap_cons_some hstatement, ih]
      rfl
    | true =>
      have hstatement : (Member.ofField f).statement? direction = none := if_pos hs
      rw [List.filterMap_cons_none hstatement, ih]
      rfl

theorem requirements_eq (d : TypeDeclaration) :
    requirements d ((declaredFields d).map Member.ofField) = conditionsOn d := by
  simp [requirements, conditionsOn, isGeneric, keptFields, List.filter_map, Member.ofField, FieldOptions.ofItems,
    Function.comp_def]

theorem call_statementOf (root : String) (direction : Direction) (f : FieldDeclaration) :
    Call root direction.method direction.borrow f ((statementOf direction f).text root) := by
  have hn : Named f (Member.ofField f).document := Member.document_ofField_iff.1 rfl
  have haccess : (Member.ofField f).access =
      if isGiven "flatten" (itemsOf f.attributes) then .flattened
      else if isGiven "optional" (itemsOf f.attributes) then .optional (Member.ofField f).document
      else .named (Member.ofField f).document := rfl
  unfold Statement.text statementOf
  rw [haccess]
  cases hf : isGiven "flatten" (itemsOf f.attributes) with
  | true => simpa [toString, String.append_assoc] using Call.flattened hf
  | false =>
    cases ho : isGiven "optional" (itemsOf f.attributes) with
    | true => simpa [toString, String.append_assoc] using Call.optional hf ho hn
    | false => simpa [toString, String.append_assoc] using Call.plain hf ho hn

theorem length_tags_of_derive {manifest : Option Toml.Table} {d : TypeDeclaration} {e : Expansion}
    (h : derive manifest d = .ok e) : (texts "tag" (itemsOf d.attributes)).length ≤ 1 := by
  obtain ⟨o, ho, -⟩ := bind_eq_ok_iff.1 h
  have hfree := (TypeOptions.read_firstFault d.attributes).1.isOk_iff.1 ⟨o, ho⟩
  exact ((TypeOptions.faultless_iff d.attributes).1 hfree).2.2

theorem registers_of_derive {manifest : Option Toml.Table} {d : TypeDeclaration} {e : Expansion}
    (h : derive manifest d = .ok e) :
    Registers d e.root.spaced
      ((if isGeneric d then []
        else (TypeOptions.ofItems (itemsOf d.attributes)).registrations).map e.declarationText) := by
  have htags := length_tags_of_derive h
  have hname : e.name = d.name := by rw [derive_eq_ok h]; rfl
  cases hp : d.parameters with
  | cons parameter rest =>
    rw [if_pos (by simp [isGeneric, hp])]
    exact .generic (by simp [hp])
  | nil =>
    rw [if_neg (by simp [isGeneric, hp])]
    cases ht : texts "tag" (itemsOf d.attributes) with
    | cons tag rest =>
      obtain rfl : rest = [] := by simpa [ht] using htags
      have hr : (TypeOptions.ofItems (itemsOf d.attributes)).registrations =
          .pointee (.tagged tag) :: .register :: (paths "base" (itemsOf d.attributes)).map .relate := by
        simp [TypeOptions.registrations, TypeOptions.pointeeKind, TypeOptions.ofItems, ht]
      rw [hr]
      simpa [Expansion.declarationText, PointeeKind.text, hname, toString, String.append_assoc, Function.comp_def]
        using Registers.tagged hp ht
    | nil =>
      -- without a tag the bases only say that there are others in the place of the type
      by_cases hpoly : isGiven "polymorphic" (itemsOf d.attributes) = true ∨ paths "base" (itemsOf d.attributes) ≠ []
      · have hr : (TypeOptions.ofItems (itemsOf d.attributes)).registrations = [.pointee .polymorphic] := by
          simpa [TypeOptions.registrations, TypeOptions.pointeeKind, TypeOptions.isPolymorphic, TypeOptions.ofItems, ht]
            using or_iff_not_imp_left.1 hpoly
        rw [hr]
        simpa [Expansion.declarationText, PointeeKind.text, hname, toString, String.append_assoc]
          using Registers.polymorphic hp ht hpoly
      · have hr : (TypeOptions.ofItems (itemsOf d.attributes)).registrations = [.pointee .plain] := by
          simpa [TypeOptions.registrations, TypeOptions.pointeeKind, TypeOptions.isPolymorphic, TypeOptions.ofItems, ht]
            using hpoly
        obtain ⟨hpoly, hbases⟩ := not_or.1 hpoly
        rw [hr]
        simpa [Expansion.declarationText, PointeeKind.text, hname, toString, String.append_assoc]
          using Registers.plain hp ht (by simpa using hpoly) (by simpa using hbases)

theorem bodyText_around (root : String) (direction : Direction) :
    ∃ start rest, ∀ body, bodyText root direction body = start ++ String.join (body.map (·.text root)) ++ rest := by
  refine ⟨s!"# [allow (unused_variables)] fn {direction.method} " ++
    s!"< __A : {root} :: archive :: {direction.archive} > " ++
    s!"({direction.borrow} self , ar : & mut __A ,) -> " ++ resultType root "()" ++ " " ++ "\x7b ",
    success "()" ++ " \x7d", fun body => ?_⟩
  unfold bodyText braced
  simp only [String.append_assoc]

theorem declarationText_around (e : Expansion) (conditions : List Condition) :
    ∃ before between after, ∀ saves loads, e.declarationText (.scribe conditions saves loads) =
      before ++ String.join (saves.map (·.text e.root.spaced)) ++ between ++
        String.join (loads.map (·.text e.root.spaced)) ++ after := by
  obtain ⟨start, rest, hsave⟩ := bodyText_around e.root.spaced .save
  obtain ⟨start', rest', hload⟩ := bodyText_around e.root.spaced .load
  refine ⟨e.headText "Scribe" conditions ++ "\x7b " ++ start, rest ++ " " ++ start', rest' ++ " \x7d", ?_⟩
  intro saves loads
  have htext : e.declarationText (.scribe conditions saves loads) = e.headText "Scribe" conditions ++
      braced (bodyText e.root.spaced .save saves ++ " " ++ bodyText e.root.spaced .load loads) := rfl
  rw [htext, hsave, hload]
  simp only [braced, String.append_assoc]

/-- Saving and loading never drift apart. -/
theorem derived_bodies_agree {manifest : Option Toml.Table} {d : TypeDeclaration} {e : Expansion}
    (h : derive manifest d = .ok e) : ∃ saves loads registrations, Agreement d e saves loads registrations := by
  refine ⟨(keptFields d).map (statementOf .save), (keptFields d).map (statementOf .load),
    if isGeneric d then [] else (TypeOptions.ofItems (itemsOf d.attributes)).registrations, ?_⟩
  exact
    { declarations := by
        rw [derive_eq_ok h]
        simp only [expand, requirements_eq, filterMap_statement?]
      saved := List.forall₂_map_right_iff.2 (List.forall₂_same.2 fun f _ => call_statementOf _ .save f)
      loaded := List.forall₂_map_right_iff.2 (List.forall₂_same.2 fun f _ => call_statementOf _ .load f)
      paired := by
        rw [List.forall₂_map_left_iff, List.forall₂_map_right_iff]
        exact List.forall₂_same.2 fun f _ => ⟨rfl, rfl⟩
      bodies := by
        obtain ⟨before, between, after, htext⟩ := declarationText_around e (conditionsOn d)
        refine ⟨before, between, after, ?_, htext _ _⟩
        simpa using htext [] []
      registered := registers_of_derive h }

namespace Shapes

def scribed (tokens : List Token) : Attribute where
  absolute := false
  path := [attributeName]
  arguments := .list tokens
  text := (Token.group .brackets [.word attributeName, .group .parentheses tokens]).text

def circle : TypeDeclaration where
  attributes := [
    scribed [.word "tag", .mark '=' false, .literal "\"circle\"", .mark ',' false, .word "base",
      .group .parentheses [.word "dyn", .word "Shape"]],
    scribed [.word "base", .group .parentheses [.word "dyn", .word "Named"]]]
  name := "Circle"
  parameters := []
  conditions := []
  shape := .named [
    ⟨[scribed [.word "rename", .mark '=' false, .literal "\"r\""]], "radius", ⟨["f32"], .path "f32", none, none⟩⟩,
    ⟨[scribed [.word "optional"]], "r#in", ⟨["u8"], .path "u8", none, none⟩⟩,
    ⟨[scribed [.word "skip"]], "cache", ⟨["Cache"], .path "Cache", none, none⟩⟩,
    ⟨[scribed [.word "flatten"]], "style", ⟨["Style"], .path "Style", none, none⟩⟩]

theorem circle_bodies_agree : ∃ e saves loads registrations, derive none circle = .ok e ∧
    (keptFields circle).map (·.name) = ["radius", "r#in", "style"] ∧ Agreement circle e saves loads registrations := by
  have hok : (derive none circle).toOption.isSome = true := by decide +kernel
  cases hd : derive none circle with
  | error r =>
    rw [hd] at hok
    cases hok
  | ok e =>
    obtain ⟨saves, loads, registrations, h⟩ := derived_bodies_agree hd
    exact ⟨e, saves, loads, registrations, rfl, by decide +kernel, h⟩

end Shapes

end Archivist.Derive
