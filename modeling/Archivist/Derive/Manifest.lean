import Archivist.Source.Type
import Archivist.Toml.Reader

/-!
The manifest of a package, as far as it tells by which path a dependency is reached.
-/

set_option autoImplicit false

namespace Archivist.Derive

open Source (PathExpr)

def absolutePath? (names : List String) : Option PathExpr :=
  (PathExpr.parse ("::" ++ "::".intercalate names)).toOption

/-- The package that gives access to the others of its family. -/
def facade : String := "poly_scribe"

def moduleName? (package : String) : Option String :=
  match package.toList with
  | 'p' :: 's' :: '_' :: rest => some (String.ofList rest)
  | _ => none

def pathAmong? (dependencies : Toml.Table) (package : String) : Option PathExpr :=
  if dependencies.contains package then absolutePath? [package]
  else do
    let module ← moduleName? package
    if dependencies.contains facade then absolutePath? [facade, module] else none

/-- The table under a name. Tables between braces and arrays of tables are not looked into. -/
def dependencies? (manifest : Toml.Table) (name : String) : Option Toml.Table :=
  match manifest.get? name with
  | some (.table origin entries) => some ⟨origin, entries⟩
  | _ => none

def supportPackage : String := "ps_scribe"

def supportPath : PathExpr := ⟨true, [⟨supportPackage, []⟩]⟩

/--
The path of a package as it is seen from the package of the manifest: by its own name or through the
facade if either is listed, and by its own name otherwise.
-/
def packagePath (manifest : Option Toml.Table) (package : String) : PathExpr :=
  let listed := manifest.bind fun m =>
    ["dependencies", "dev-dependencies"].findSome? fun name =>
      (dependencies? m name).bind (pathAmong? · package)
  (listed.or (absolutePath? [package])).getD supportPath

end Archivist.Derive
