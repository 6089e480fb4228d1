/-!
What is worth a line in the log. Events are data; their wording is in `message` only.
-/

set_option autoImplicit false

namespace Archivist

inductive Level where
  | warning
  | debug
  | trace
  deriving DecidableEq, Repr

inductive Event where
  | untaggedType (type : String)
  | takenTag (tag type : String)
  | boundInput (type tag archive : String)
  | boundOutput (type tag archive : String)
  | related (type base : String)
  | writtenAsUnknown (type declared : String)
  | fieldSkipped (name : String)
  | savedFile (path : String)
  deriving DecidableEq, Repr

namespace Event

def level : Event → Level
  | .untaggedType _ | .takenTag _ _ | .writtenAsUnknown _ _ => .warning
  | .boundInput _ _ _ | .boundOutput _ _ _ | .related _ _ | .savedFile _ => .debug
  | .fieldSkipped _ => .trace

def message : Event → String
  | .untaggedType type => s!"`{type}` has no type tag and cannot be bound"
  | .takenTag tag type => s!"type tag `{tag}` is already taken, `{type}` is not bound"
  | .boundInput type tag archive => s!"bound `{type}` as `{tag}` for input archive `{archive}`"
  | .boundOutput type tag archive => s!"bound `{type}` as `{tag}` for output archive `{archive}`"
  | .related type base => s!"`{type}` can be read as `{base}`"
  | .writtenAsUnknown type declared =>
    s!"`{type}` has no output binding, written as `unknown` with the fields of `{declared}`"
  | .fieldSkipped name => s!"optional field `{name}` is absent, skipped"
  | .savedFile path => s!"saved `{path}`"

end Event

abbrev Log := List Event

end Archivist
