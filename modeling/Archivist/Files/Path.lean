/-!
Where files are: paths below one directory, the texts that lead to them, and the extension of the file
that a text names.
-/

set_option autoImplicit false

namespace Archivist

/-- The names on the way to a file, outermost first. The empty path is the directory itself. -/
abbrev Path := List String

def extensionOf? (name : String) : Option String :=
  if name = ".." then none
  else
    let (after, before) := name.toList.reverse.span (· ≠ '.')
    match before with
    | [] => none
    | [_] => none
    | _ => some (String.ofList after.reverse)

/-- Where a file is looked for, and how messages show that. After a slash at the end only a directory can be meant. -/
structure Location where
  steps : List String
  endsInSlash : Bool
  shown : String
  deriving DecidableEq, Repr

namespace Location

def ofText (text shown : String) : Location where
  steps := (text.splitOn "/").filter (· ≠ "")
  endsInSlash := text.toList.getLast? = some '/'
  shown := shown

def extension? (l : Location) : Option String :=
  (l.steps.filter (· ≠ ".")).getLast?.bind extensionOf?

def isSupported (l : Location) : Bool :=
  match l.extension? with
  | some extension => extension.toList.map Char.toLower = "json".toList
  | none => false

end Location

end Archivist
