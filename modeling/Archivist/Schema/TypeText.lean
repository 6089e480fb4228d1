import Archivist.Schema.Declare
import Archivist.Source.Scan

/-!
Types as text, in the notation of the records' own language: `Vec<Option<u8>>`, `[bool; 2]`,
`Box<dyn Part>`. Naming an instance of a generic record declares that instance.
-/

set_option autoImplicit false

namespace Archivist

open Source (Token)

structure Family where
  name : String
  fields : List Ty → Option (List FieldDecl)

/-- What a text in the notation of types can name. -/
inductive Denoted where
  | type (type : Ty)
  | base (name : String)
  | key (name : String)
  deriving DecidableEq, Repr

namespace Denoted

def type? : Denoted → Option Ty
  | .type t => some t
  | _ => none

def target? : Denoted → Option Target
  | .type (.atom t) => some (.atom t)
  | .type (.record name) => some (.record name)
  | .base name => some (.base name)
  | _ => none

def key? : Denoted → Option KeyTy
  | .type (.atom .text) => some .text
  | .type (.atom (.float _)) => none
  | .type (.atom t) => some (.atom t)
  | .key name => some (.named name)
  | _ => none

end Denoted

namespace TypeText

def atoms : List (String × AtomTy) :=
  [("bool", .bool), ("char", .char), ("String", .text),
   ("i8", .int .i8), ("i16", .int .i16), ("i32", .int .i32), ("i64", .int .i64),
   ("isize", .int .isize), ("u8", .int .u8), ("u16", .int .u16), ("u32", .int .u32),
   ("u64", .int .u64), ("usize", .int .usize), ("f32", .float .single), ("f64", .float .double)]

def resolveName (S : Schema) (name : String) : Option Denoted :=
  match atoms.lookup name with
  | some type => some (.type (.atom type))
  | none =>
    if (S.record? name).isSome then some (.type (.record name))
    else if S.textKeys.any (·.name = name) then some (.key name)
    else none

def resolveApplied (name : String) (args : List Denoted) : Option Denoted :=
  match name, args with
  | "Option", [item] => item.type?.map fun t => .type (.option t)
  | "Vec", [item] => item.type?.map fun t => .type (.list .vector t)
  | "VecDeque", [item] => item.type?.map fun t => .type (.list .deque t)
  | "LinkedList", [item] => item.type?.map fun t => .type (.list .linked t)
  | "BTreeMap", [key, item] => do some (.type (.map .sorted (← key.key?) (← item.type?)))
  | "HashMap", [key, item] => do some (.type (.map .hashed (← key.key?) (← item.type?)))
  | "Arc", [target] => target.target?.map fun t => .type (.ref .shared t)
  | "Rc", [target] => target.target?.map fun t => .type (.ref .counted t)
  | "Box", [target] => target.target?.map fun t => .type (.ref .box t)
  | _, _ => none

def instantiate (S : Schema) (family : Family) (label : String) (args : List Denoted) :
    Option (Denoted × Schema) := do
  let types ← args.mapM Denoted.type?
  let fields ← family.fields types
  some (.type (.record label), S.adopt [S.declared label fields])

def label (tokens : List Token) : String :=
  String.join (tokens.map fun
    | .mark ',' _ => ", "
    | token => token.text)

mutual

/-- Reads one type. Gives the schema with the instances met on the way, and the tokens that follow. -/
def readType (families : List Family) :
    Nat → Schema → List Token → Option (Denoted × Schema × List Token)
  | 0, _, _ => none
  | _ + 1, S, .word "dyn" :: .word name :: rest =>
    if (S.base? name).isSome then some (.base name, S, rest) else none
  | fuel + 1, S, .group .brackets inner :: rest => do
    let (.type item, S, [.mark ';' _, .literal length]) ← readType families fuel S inner | none
    let length ← length.toNat?
    some (.type (.array item length), S, rest)
  | fuel + 1, S, .word name :: .mark '<' joined :: rest => do
    let (args, S, after) ← readArguments families fuel S rest
    match families.find? (·.name = name) with
    | some family => do
      let used := rest.take (rest.length - after.length)
      let (denoted, S) ← instantiate S family (label (.word name :: .mark '<' joined :: used)) args
      some (denoted, S, after)
    | none => do some (← resolveApplied name args, S, after)
  | _ + 1, S, .word name :: rest => do some (← resolveName S name, S, rest)
  | _ + 1, _, _ => none

def readArguments (families : List Family) :
    Nat → Schema → List Token → Option (List Denoted × Schema × List Token)
  | 0, _, _ => none
  | fuel + 1, S, tokens => do
    let (arg, S, rest) ← readType families fuel S tokens
    match rest with
    | .mark ',' _ :: rest => do
      let (args, S, rest) ← readArguments families fuel S rest
      some (arg :: args, S, rest)
    | .mark '>' _ :: rest => some ([arg], S, rest)
    | _ => none

end

end TypeText

def Schema.denoted? (S : Schema) (families : List Family) (text : String) :
    Option (Denoted × Schema) := do
  let tokens ← Source.tokens? text
  let (denoted, S, rest) ← TypeText.readType families (2 * Token.listWeight tokens + 1) S tokens
  if rest.isEmpty then some (denoted, S) else none

end Archivist
