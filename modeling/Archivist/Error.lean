import Archivist.Archive.Leaf
import Archivist.Text.Quoted

/-!
Why saving or loading fails. Causes are data; their wording is in the `message` functions only.
-/

set_option autoImplicit false

namespace Archivist

/-- What is wrong with a document that is read. Shapes of nodes are given by their names. -/
inductive Malformed where
  | wrongLeaf (expected : String) (found : Leaf)
  | outOfRange (found : Leaf) (type : String)
  | notOneCharacter (text : String)
  | notAnObject (found : String)
  | notAnArray (found : String)
  | notALeaf (found : String)
  | noCurrentNode
  | noOpenNode
  | noMoreElements
  | noTag
  | tagNotText (found : Leaf)
  | onlyByTag (type : String)
  | invalidKey
  deriving DecidableEq, Repr

def Malformed.message : Malformed → String
  | .wrongLeaf expected found => s!"expected {expected}, found {found.kind}"
  | .outOfRange found type => s!"{found.describe} is out of range for {type}"
  | .notOneCharacter text => "expected a single character, found " ++ Text.quoted text
  | .notAnObject found => s!"expected an object, found {found}"
  | .notAnArray found => s!"expected an array, found {found}"
  | .notALeaf found => s!"expected a value, found {found}"
  | .noCurrentNode => "archive has no current node"
  | .noOpenNode => "no open node to finish"
  | .noMoreElements => "sequence has no more elements"
  | .noTag => "polymorphic value has no `type` field"
  | .tagNotText found => s!"`type` field must be a string, found {found.kind}"
  | .onlyByTag type => s!"`{type}` can only be read through its type tag"
  | .invalidKey => "field name is not a valid map key"

inductive Unrepresentable where
  | nonFinite (x : Binary)
  | noRootNode
  | noCurrentNode
  | noOpenNode
  | leftOpen (count : Nat)
  | fieldOutsideObject (name : String)
  | elementOutsideSequence
  | repeatedField (name : String)
  | unbalanced
  | sequenceOverContent
  | valueOverContent
  | keyWithoutName
  deriving DecidableEq, Repr

def Binary.word : Binary → String
  | .nan => "NaN"
  | .infinite false => "inf"
  | .infinite true => "-inf"
  | .finite .. => "finite"

def Unrepresentable.message : Unrepresentable → String
  | .nonFinite x => s!"non-finite float {x.word}"
  | .noRootNode => "archive has no root node"
  | .noCurrentNode => "archive has no open node"
  | .noOpenNode => "no open node to finish"
  | .leftOpen count => s!"{count} node(s) left open"
  | .fieldOutsideObject name => s!"field `{name}` written into a node that is not an object"
  | .elementOutsideSequence => "element written into a node that is not a sequence"
  | .repeatedField name => s!"field `{name}` written twice into one object"
  | .unbalanced => "unbalanced node nesting"
  | .sequenceOverContent => "sequence written into a node that already has content"
  | .valueOverContent => "value written into a node that already has content"
  | .keyWithoutName => "map key has no field name"

inductive FileFault where
  | missing
  | notADirectory
  | isADirectory
  | longName
  | zeroByte
  | notText
  deriving DecidableEq, Repr

def FileFault.message : FileFault → String
  | .missing => "No such file or directory (os error 2)"
  | .notADirectory => "Not a directory (os error 20)"
  | .isADirectory => "Is a directory (os error 21)"
  | .longName => "File name too long (os error 36)"
  | .zeroByte => "file name contained an unexpected NUL byte"
  | .notText => "stream did not contain valid UTF-8"

inductive Error where
  | unknownType (tag : String)
  | unknownRuntimeType (type : String)
  | sizeMismatch (expected found : Nat)
  | malformed (cause : Malformed)
  | fieldAbsent (name : String)
  | incompatibleType (tag declared : String)
  | unrepresentable (cause : Unrepresentable)
  | notJson
  | file (fault : FileFault)
  | fileNotFound (path : String)
  | isDirectory (path : String)
  | unsupportedExtension (path : String)
  /-- A record that contains itself through flattened fields alone is never done reading. -/
  | endless
  deriving DecidableEq, Repr

namespace Error

def message : Error → String
  | .unknownType tag => s!"no binding is registered for type tag `{tag}`"
  | .unknownRuntimeType type => s!"runtime type `{type}` has no output binding for this archive"
  | .sizeMismatch expected found => s!"size mismatch: expected {expected} elements, found {found}"
  | .malformed cause => "malformed input: " ++ cause.message
  | .fieldAbsent name => s!"field `{name}` is absent"
  | .incompatibleType tag declared => s!"type tagged `{tag}` cannot be stored as `{declared}`"
  | .unrepresentable cause => "value cannot be encoded: " ++ cause.message
  | .notJson => "text is not a JSON document"
  | .file fault => fault.message
  | .fileNotFound path => s!"input file does not exist: {path}"
  | .isDirectory path => s!"path is a directory: {path}"
  | .unsupportedExtension path => s!"file extension is not supported: {path}"
  | .endless => "type contains itself without end"

def isFieldAbsent : Error → Bool
  | .fieldAbsent _ => true
  | _ => false

def isUnknownType : Error → Bool
  | .unknownType _ | .unknownRuntimeType _ => true
  | _ => false

end Error

end Archivist
