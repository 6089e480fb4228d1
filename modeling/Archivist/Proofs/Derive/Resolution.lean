import Archivist.Derive.Manifest
import Archivist.Proofs.Toml.Listing

/-!
By which path a package is reached. Main statement: the path follows from the dependencies that the lines of
the manifest list. Tables between braces list none: a package that is named in one counts as missing.
-/

set_option autoImplicit false

namespace Archivist.Derive

open Toml (ListsOpenly ListsInBraces)

/-- The names on the path of a package: tables of dependencies are gone through in order, and in each of them
the package itself comes before the facade. -/
inductive Resolves (lists : String → String → Prop) (package : String) : List String → List String → Prop
  | own {table : String} {rest : List String} (h : lists table package) :
      Resolves lists package (table :: rest) [package]
  | within {table module : String} {rest : List String} (h : ¬ lists table package)
      (hm : package = "ps_" ++ module) (hf : lists table facade) :
      Resolves lists package (table :: rest) [facade, module]
  | next {table : String} {rest names : List String} (h : ¬ lists table package)
      (hf : ∀ module, package = "ps_" ++ module → ¬ lists table facade) (hr : Resolves lists package rest names) :
      Resolves lists package (table :: rest) names
  | missing : Resolves lists package [] [package]

theorem moduleName?_eq_some_iff {package module : String} :
    moduleName? package = some module ↔ package = "ps_" ++ module := by
  unfold moduleName?
  constructor
  · intro h
    split at h
    · rename_i rest hp
      cases h
      rw [← String.toList_inj, hp]
      simp
    · cases h
  · rintro rfl
    simp

theorem any_dependencies?_iff {manifest : Toml.Table} {table key : String} :
    (dependencies? manifest table).any (·.contains key) = true ↔
      ∃ origin entries, manifest.get? table = some (.table origin entries) ∧
        (⟨origin, entries⟩ : Toml.Table).contains key = true := by
  unfold dependencies?
  split
  · rename_i origin entries h
    refine ⟨fun hk => ⟨origin, entries, h, hk⟩, ?_⟩
    rintro ⟨_, _, hget, hk⟩
    cases h.symm.trans hget
    exact hk
  · rename_i h
    simp only [Option.any_none, Bool.false_eq_true, false_iff]
    rintro ⟨origin, entries, hget, -⟩
    exact h origin entries hget

theorem bind_pathAmong? (t? : Option Toml.Table) (package : String) :
    t?.bind (pathAmong? · package) =
      if t?.any (·.contains package) then absolutePath? [package]
      else if t?.any (·.contains facade) then (moduleName? package).bind fun module => absolutePath? [facade, module]
      else none := by
  cases t? with
  | none => rfl
  | some t =>
    simp only [Option.bind_some, Option.any_some, pathAmong?]
    split
    · rfl
    · cases moduleName? package <;> simp

section

variable {manifest : Toml.Table} {lists : String → String → Prop} {package : String}

theorem exists_resolves
    (listed : ∀ table key, (dependencies? manifest table).any (·.contains key) = true ↔ lists table key)
    (own : (absolutePath? [package]).isSome)
    (within : ∀ module, package = "ps_" ++ module → (absolutePath? [facade, module]).isSome) (tables : List String) :
    ∃ names, Resolves lists package tables names ∧
      absolutePath? names =
        (tables.findSome? fun table => (dependencies? manifest table).bind (pathAmong? · package)).or
          (absolutePath? [package]) := by
  induction tables with
  | nil => exact ⟨_, .missing, rfl⟩
  | cons table rest ih =>
    obtain ⟨names, hnames, hpath⟩ := ih
    rw [List.findSome?_cons, bind_pathAmong?]
    by_cases hp : lists table package
    · rw [if_pos ((listed table package).2 hp)]
      obtain ⟨path, hown⟩ := Option.isSome_iff_exists.1 own
      exact ⟨_, .own hp, by simp [hown]⟩
    · rw [if_neg (mt (listed table package).1 hp)]
      by_cases hf : lists table facade
      · rw [if_pos ((listed table facade).2 hf)]
        cases hm : moduleName? package with
        | none =>
          refine ⟨names, .next hp (fun module he => ?_) hnames, hpath⟩
          rw [moduleName?_eq_some_iff.2 he] at hm
          cases hm
        | some module =>
          have he := moduleName?_eq_some_iff.1 hm
          obtain ⟨path, hwithin⟩ := Option.isSome_iff_exists.1 (within module he)
          exact ⟨_, .within hp he hf, by simp [hwithin]⟩
      · rw [if_neg (mt (listed table facade).1 hf)]
        exact ⟨names, .next hp (fun _ _ => hf) hnames, hpath⟩

end

/-- A package that can be named by a path, and so can its module of the facade if it is of the family. Its
path is that of the names to which the dependencies in the lines of the manifest resolve. -/
theorem packagePath_resolved (text : String) (manifest : Toml.Table) (valid : Toml.parse? text = some manifest)
    (package : String) (own : (absolutePath? [package]).isSome)
    (within : ∀ module, package = "ps_" ++ module → (absolutePath? [facade, module]).isSome) :
    ∃ lines names, Toml.lines? text = some lines ∧
      Resolves (ListsOpenly lines) package ["dependencies", "dev-dependencies"] names ∧
      absolutePath? names = some (packagePath (some manifest) package) := by
  obtain ⟨lines, hlines, houtline⟩ := Option.bind_eq_some_iff.1 valid
  obtain ⟨outline, ho, hroot⟩ := Option.bind_eq_some_iff.1 houtline
  cases hroot
  have listed (table key : String) : (dependencies? outline.root table).any (·.contains key) = true ↔
      ListsOpenly lines table key :=
    any_dependencies?_iff.trans (Toml.contains_iff_listsOpenly ho table key)
  obtain ⟨names, hnames, hpath⟩ := exists_resolves listed own within ["dependencies", "dev-dependencies"]
  refine ⟨lines, names, hlines, hnames, hpath.trans ?_⟩
  -- the package's own path is there in any case
  obtain ⟨path, hown⟩ := Option.isSome_iff_exists.1 own
  simp only [packagePath, Option.bind_some, hown]
  cases List.findSome? (fun name => (dependencies? outline.root name).bind (pathAmong? · package))
    ["dependencies", "dev-dependencies"] <;> rfl

namespace Manifests

def facadeForTests : String :=
  "[dependencies.serde]\nversion = \"1\"\n[dev-dependencies]\npoly_scribe = \"1\"\n"

theorem facadeForTests_resolved : ∃ manifest, Toml.parse? facadeForTests = some manifest ∧
    (∃ lines names, Toml.lines? facadeForTests = some lines ∧
      Resolves (ListsOpenly lines) "ps_scribe" ["dependencies", "dev-dependencies"] names ∧
      absolutePath? names = some (packagePath (some manifest) "ps_scribe")) ∧
    packagePath (some manifest) "ps_scribe" = ⟨true, [⟨"poly_scribe", []⟩, ⟨"scribe", []⟩]⟩ := by
  have hpath : (Toml.parse? facadeForTests).map (fun manifest => packagePath (some manifest) "ps_scribe") =
      some ⟨true, [⟨"poly_scribe", []⟩, ⟨"scribe", []⟩]⟩ := by decide +kernel
  obtain ⟨manifest, valid, hpath⟩ := Option.map_eq_some_iff.1 hpath
  refine ⟨manifest, valid, ?_, hpath⟩
  refine packagePath_resolved facadeForTests manifest valid "ps_scribe" (by decide +kernel) fun module hm => ?_
  have hscribe : moduleName? "ps_scribe" = some "scribe" := by decide
  cases hscribe.symm.trans (moduleName?_eq_some_iff.2 hm)
  decide +kernel

def facadeInBraces : String := "dependencies = \x7b poly_scribe = \"1\" \x7d\n"

/-- The table lists the facade, so the package would be reached through it; it is looked for by its own name. -/
theorem facadeInBraces_overlooked : ∃ manifest lines, Toml.parse? facadeInBraces = some manifest ∧
    Toml.lines? facadeInBraces = some lines ∧
    Resolves (fun table key => ListsOpenly lines table key ∨ ListsInBraces lines table key) "ps_scribe"
      ["dependencies", "dev-dependencies"] ["poly_scribe", "scribe"] ∧
    absolutePath? ["poly_scribe", "scribe"] = some ⟨true, [⟨"poly_scribe", []⟩, ⟨"scribe", []⟩]⟩ ∧
    packagePath (some manifest) "ps_scribe" = ⟨true, [⟨"ps_scribe", []⟩]⟩ := by
  have hpath : (Toml.parse? facadeInBraces).map (fun manifest => packagePath (some manifest) "ps_scribe") =
      some ⟨true, [⟨"ps_scribe", []⟩]⟩ := by decide +kernel
  have hlists : (Toml.lines? facadeInBraces).map (fun lines =>
      (decide (ListsInBraces lines "dependencies" facade),
        decide (ListsOpenly lines "dependencies" "ps_scribe" ∨ ListsInBraces lines "dependencies" "ps_scribe"))) =
      some (true, false) := by decide +kernel
  obtain ⟨manifest, valid, hpath⟩ := Option.map_eq_some_iff.1 hpath
  obtain ⟨lines, hlines, hlists⟩ := Option.map_eq_some_iff.1 hlists
  obtain ⟨hfacade, hpackage⟩ := Prod.mk.inj hlists
  refine ⟨manifest, lines, valid, hlines, ?_, by decide +kernel, hpath⟩
  exact .within (of_decide_eq_false hpackage) (by decide) (.inr (of_decide_eq_true hfacade))

end Manifests

end Archivist.Derive
