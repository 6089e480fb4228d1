import Archivist.Json.Parser
import Archivist.Json.Printer
import Archivist.Loading
import Archivist.Saving

/-!
Whole documents: values to trees and text, and back.
-/

set_option autoImplicit false

namespace Archivist

structure Saved (α : Type) where
  result : Except Error α
  log : Log := []

structure Loaded where
  result : Except Error Value
  registry : Registry
  log : Log := []

namespace Saving

variable (env : Saving)

def toJson (value : Value) : Saved Json :=
  match env.save value .new with
  | (.ok (), s) => ⟨s.writer.document, s.log⟩
  | (.error e, s) => ⟨.error e, s.log⟩

def toText (indented : Bool) (value : Value) : Saved String :=
  let saved := env.toJson value
  ⟨saved.result.map (Json.render indented), saved.log⟩

end Saving

namespace Loading

variable (env : Loading)

def ofJson (type : Ty) (registry : Registry) (document : Json) : Loaded :=
  match env.loadNew type ⟨.ofJson document, registry, []⟩ with
  | (result, s) => ⟨result, s.registry, s.log⟩

def ofText (type : Ty) (registry : Registry) (text : String) : Loaded :=
  match Json.parse? text with
  | some document => env.ofJson type registry document
  | none => ⟨.error .notJson, registry, []⟩

/-- Loads a document into a value. Gives the value as the load leaves it, also after a failure. -/
def intoJson (type : Ty) (registry : Registry) (document : Json) (value : Value) :
    Value × Saved Unit × Registry :=
  match env.load type ⟨⟨.ofJson document, registry, []⟩, value⟩ with
  | (result, slot) => (slot.value, ⟨result, slot.state.log⟩, slot.state.registry)

/-- Loads text into a value. Text that is no document leaves the value as it is. -/
def intoText (type : Ty) (registry : Registry) (text : String) (value : Value) :
    Value × Saved Unit × Registry :=
  match Json.parse? text with
  | some document => env.intoJson type registry document value
  | none => (value, ⟨.error .notJson, []⟩, registry)

end Loading

end Archivist
