import Archivist.Json.Printer
import Archivist.Schema.Declare

/-!
A schema to try things on: records with every kind of field, two bases, records that implement them,
and textual keys with rules of their own.
-/

set_option autoImplicit false

namespace Archivist.Sample

open FieldDecl

def text : Ty := .atom .text

def flag : Ty := .atom .bool

def int (kind : IntKind) : Ty := .atom (.int kind)

def single : Ty := .atom (.float .single)

def double : Ty := .atom (.float .double)

def list (item : Ty) : Ty := .list .vector item

def common : Ty := .record "Common"

def shape : Target := .base "Shape"

def part : Target := .base "Part"

/-- Keys that are lower-cased when they are written. Exclamation marks cannot be written in front, and
question marks cannot be read. -/
def nameKey : TextKey where
  name := "Name"
  toField text :=
    if text.startsWith "!" then none else some (String.ofList (text.toList.map Char.toLower))
  ofField name := if name.startsWith "?" then none else some name

/-- Keys that have no field names at all. -/
def muteKey : TextKey := ⟨"Mute", fun _ => none, fun _ => none⟩

def textKeys : List TextKey := [nameKey, muteKey]

def keyText (key : KeyTy) : Atom → List Char
  | .bool b => Json.print (.bool b)
  | .char c => Json.printString (String.singleton c)
  | .text text => (({ path := "", records := [], textKeys } : Schema).toField? key text |>.getD text).toList
  | .int _ n => Json.printInt n
  | .float _ x => Json.printFloat x

/-- Hashed maps are listed by the texts of their keys. -/
def byText (key : KeyTy) : KeyOrder where
  before a b := keyText key a < keyText key b
  irrefl a := by simp
  trans h h' := by
    simp only [decide_eq_true_eq] at h h' ⊢
    exact List.lt_trans h h'

def withPlainRecords (S : Schema) : Schema :=
  S.declare "Common" [required "label" text]
  |>.declare "Empty" []
  |>.declare "Kind" [required "type" text]
  |>.declare "Limits"
    [(required "lo" (int .i16)).initially (.atom (.int .i16 (-5))),
     (required "hi" (int .i16)).initially (.atom (.int .i16 5)),
     (optional "tags" (list text)).initially (.list [.atom (.text "std")])]
  |>.declare "Settings"
    [(required "w" (int .u32)).initially (.atom (.int .u32 640)),
     (optional "title" (.option text)).initially (.present (.atom (.text "untitled"))),
     (optional "max-depth" (int .u8)).initially (.atom (.int .u8 9)),
     (skipped flag).initially (.atom (.bool true)),
     flattened common,
     optional "inner" (.record "Limits")]
  |>.declare "Tree" [required "v" (int .i32), optional "kids" (list (.record "Tree"))]
  |>.declare "Chain" [required "v" (int .u8), required "next" (.option (.ref .box (.record "Chain")))]
  |>.declare "Clash" [flattened common, required "label" text]
  |>.declare "Bag" [required "id" (int .u32), flattened (.map .sorted .text (int .u32))]
  |>.declare "BagFirst" [flattened (.map .sorted .text (int .u32)), optional "id" (int .u32)]
  |>.declare "BadFlatten" [required "id" (int .u32), flattened (list (int .u8))]
  |>.declare "Shared"
    [flattened (.ref .shared (.record "Common")), required "" flag,
     required "naïve key ✓" (.atom .char)]

def withTaggedRecords (S : Schema) : Schema :=
  S.declare "Circle" [flattened common, required "r" double] (.tagged "Circle")
  |>.declare "Square" [flattened common, required "side" single] (.tagged "Square")
  |>.declare "Group"
    [required "children" (list (.ref .shared shape)),
     optional "named" (.map .sorted .text (.ref .shared shape)), flattened common]
    (.tagged "Group")
  |>.declare "Wheel"
    [flattened common, optional "hub" (.option (.ref .box part)),
     required "spokes" (.array (int .u16) 2)]
    (.tagged "Wheel")
  |>.declare "Gear" [required "n" (int .u32)] (.tagged "Gear")
  |>.declare "Pin" [] (.tagged "Pin")
  |>.declare "Axle" [optional "len" single, required "ends" (.option (.ref .box part))]
    (.tagged "Axle ∅")
  |>.declare "Unrelated" [required "id" (int .u32)] (.tagged "Unrelated")
  |>.declare "Stamped" [flattened (.record "Kind")] (.tagged "Stamped")
  |>.declare "Lone" [required "n" (int .i32)] (.tagged "Lone")
  |>.declare "Ghost" [required "common" common] (.tagged "Ghost")
  |>.declare "Holder" [required "a" (int .u8)] (.tagged "Contested")
  |>.declare "Rival" [required "b" (int .u8)] (.tagged "Contested")
  |>.declare "Faker" [required "c" (int .u8)] (.tagged "Circle")
  |>.declare "Blank" [required "d" (int .u8)] (.tagged "")
  |>.declare "Sentinel" [required "e" (int .u8)] (.tagged unknownTag)

/-- Records that ask for a tag and have none, and records that hold polymorphic references. -/
def withOpenRecords (S : Schema) : Schema :=
  S.declare "Hexagon" [flattened common, required "side" double] .untagged
  |>.declare "Cog" [required "n" (int .u32)] .untagged
  |>.declare "Carrier"
    [required "id" (int .u32),
     (flattened (.ref .box part)).initially (.ref part (.record "Gear" [.atom (.int .u32 1)]))]
  |>.declare "Mixed"
    [required "flags" (.array flag 2), required "queue" (.list .deque (int .i8)),
     required "list" (.list .linked (.atom .char)),
     optional "grid" (.array (.array (int .u8) 2) 2),
     required "by_id" (.map .sorted (.atom (.int .i32)) (.option single)),
     optional "shapes" (list (.ref .shared shape))]

def schema (path : String) : Schema :=
  let bare : Schema :=
    { path
      records := []
      bases :=
        [.ofFields "Shape"
          [("Circle", 0), ("Square", 0), ("Group", 2), ("Wheel", 0), ("Hexagon", 0), ("Ghost", 0)],
         .plain "Part"]
      textKeys
      hashOrder := byText }
  withOpenRecords (withTaggedRecords (withPlainRecords bare))

end Archivist.Sample
