import Archivist.Derive.Item
import Archivist.Schema.Basic

/-!
What the attributes of a declared type and of its fields ask for, and why a declaration is refused.
Attributes that go by another name than `scribe` are for others and are passed over.
-/

set_option autoImplicit false

namespace Archivist.Derive

open Source (Attribute Delimiter Fault PathExpr TextLiteral)

inductive Refusal where
  /-- The text, or an attribute, is not in the notation that it should be in. -/
  | malformed (fault : Fault)
  | duplicateTag
  | reservedTag (tag : String)
  | unknownTypeItem
  | unknownFieldItem
  | tuple
  | enumeration
  | union
  | skipCombined
  | flattenCombined
  | notFlattenable
  | reservedField
  deriving DecidableEq, Repr

def Refusal.message : Refusal → String
  | .malformed fault => fault.message
  | .duplicateTag => "duplicate `tag`"
  | .reservedTag tag => s!"`{tag}` cannot be used as a type tag"
  | .unknownTypeItem =>
    "unknown scribe attribute, expected `tag`, `base`, `polymorphic` or `crate`"
  | .unknownFieldItem =>
    "unknown scribe field attribute, expected `rename`, `optional`, `skip` or `flatten`"
  | .tuple => "`Scribe` cannot be derived for tuple structs, fields need names"
  | .enumeration => "`Scribe` cannot be derived for enums"
  | .union => "`Scribe` cannot be derived for unions"
  | .skipCombined => "`skip` cannot be combined with other attributes"
  | .flattenCombined =>
    "a flattened field has no name of its own, `rename` and `optional` do not apply"
  | .notFlattenable =>
    "only struct fields can be flattened, this type is not written as named fields"
  | .reservedField => "the `type` field holds the type tag, rename this field"

namespace Item

def expected {α : Type} (alternative : String) (atEnd : Bool) : Except Refusal α :=
  .error (.malformed (.expected [alternative] atEnd))

def close (i : Item) : Except Refusal Unit :=
  if i.isFollowed then expected "`,`" false else .ok ()

def text (i : Item) : Except Refusal TextLiteral :=
  match i.argument with
  | .text literal => .ok literal
  | .value missing => expected "string literal" (missing && i.isLast)
  | _ => expected "`=`" false

def dynamic (i : Item) : Except Refusal PathExpr :=
  match i.argument with
  | .dynamic path _ => .ok path
  | .group fault => .error (.malformed fault)
  | .none => expected "parentheses" i.isLast
  | _ => expected "parentheses" false

def closeWord (i : Item) : Except Refusal Unit :=
  match i.argument with
  | .none => .ok ()
  | _ => expected "`,`" false

/-- Reads an item by its word, if it is one of those that are known. -/
def byWord {α : Type} (unknown : Refusal) (known : String → Option (Except Refusal α)) (i : Item) :
    Except Refusal α :=
  match i.key with
  | .fault fault => .error (.malformed fault)
  | .word word => (known word).getD (.error unknown)
  | _ => .error unknown

/-- The group of an item that goes on after what it should hold. -/
def left? (i : Item) : Option Delimiter :=
  match i.argument with
  | .dynamic _ left? => left?
  | _ => none

end Item

def attributeName : String := "scribe"

/--
Reads the items of one attribute in order. Parentheses that hold too much are refused when nothing else
is wrong with the attribute.
-/
def readItems {σ : Type} (step : σ → Item → Except Refusal σ) (s : σ) (a : Attribute) :
    Except Refusal σ :=
  match Item.ofAttribute a with
  | .error fault => .error (.malformed fault)
  | .ok items => do
    let s ← items.foldlM step s
    if let some delimiter := items.findSome? Item.left? then throw (.malformed (.unclosed delimiter))
    return s

def readAttributes {σ : Type} (step : σ → Item → Except Refusal σ) (s : σ)
    (attributes : List Attribute) : Except Refusal σ :=
  (attributes.filter (·.name? = some attributeName)).foldlM (readItems step) s

structure TypeOptions where
  tag : Option TextLiteral := none
  bases : List PathExpr := []
  polymorphic : Bool := false
  root : Option PathExpr := none
  deriving DecidableEq, Repr

namespace TypeOptions

def readWord (o : TypeOptions) (item : Item) : String → Option (Except Refusal TypeOptions)
  | "tag" => some do
    if o.tag.isSome then throw .duplicateTag
    let tag ← item.text
    if tag.value = "" ∨ tag.value = unknownTag then throw (.reservedTag tag.value)
    item.close
    return { o with tag := some tag }
  | "base" => some do
    let base ← item.dynamic
    item.close
    return { o with bases := o.bases ++ [base] }
  | "polymorphic" => some do
    item.closeWord
    return { o with polymorphic := true }
  | "crate" => some do
    let text ← item.text
    match PathExpr.parse text.value with
    | .ok path => do
      item.close
      return { o with root := some path }
    | .error fault => throw (.malformed fault)
  | _ => none

def readItem (o : TypeOptions) (item : Item) : Except Refusal TypeOptions :=
  item.byWord .unknownTypeItem (o.readWord item)

def read (attributes : List Attribute) : Except Refusal TypeOptions :=
  readAttributes readItem {} attributes

def isPolymorphic (o : TypeOptions) : Bool :=
  o.tag.isSome || o.polymorphic || !o.bases.isEmpty

end TypeOptions

structure FieldOptions where
  rename : Option TextLiteral := none
  optional : Bool := false
  skip : Bool := false
  flatten : Bool := false
  deriving DecidableEq, Repr

namespace FieldOptions

def readWord (o : FieldOptions) (item : Item) : String → Option (Except Refusal FieldOptions)
  | "rename" => some do
    let rename ← item.text
    item.close
    return { o with rename := some rename }
  | "optional" => some do
    item.closeWord
    return { o with optional := true }
  | "skip" => some do
    item.closeWord
    return { o with skip := true }
  | "flatten" => some do
    item.closeWord
    return { o with flatten := true }
  | _ => none

def readItem (o : FieldOptions) (item : Item) : Except Refusal FieldOptions :=
  item.byWord .unknownFieldItem (o.readWord item)

def conflict? (o : FieldOptions) : Option Refusal :=
  if o.skip && (o.rename.isSome || o.optional || o.flatten) then some .skipCombined
  else if o.flatten && (o.rename.isSome || o.optional) then some .flattenCombined
  else none

def read (attributes : List Attribute) : Except Refusal FieldOptions := do
  let o ← readAttributes readItem {} attributes
  match o.conflict? with
  | some refusal => .error refusal
  | none => .ok o

end FieldOptions

end Archivist.Derive
