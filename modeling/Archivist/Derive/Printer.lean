import Archivist.Derive.Expansion

/-!
The text of an expansion: one line, with blanks between tokens.
-/

set_option autoImplicit false

namespace Archivist.Derive

open Source (Parameter Predicate)

def spaced (words : List String) : String :=
  if words.isEmpty then "" else " " ++ " ".intercalate words

def Condition.text (root : String) : Condition → String
  | .given predicate => " ".intercalate predicate.words
  | .scribe type => s!"{type} : {root} :: Scribe"
  | .initial => "Self : :: core :: default :: Default"

def Condition.hasComma : Condition → Bool
  | .given predicate => predicate.comma
  | _ => false

/-- Conditions with commas between them. One of the type itself keeps the comma after it. -/
def conditionsText (root : String) : List Condition → String
  | [] => ""
  | [c] => c.text root ++ (if c.hasComma then " ," else "")
  | c :: rest => c.text root ++ " , " ++ conditionsText root rest

def whereClause (root : String) : List Condition → String
  | [] => ""
  | conditions => " where " ++ conditionsText root conditions

def braced (body : String) : String := "\x7b " ++ body ++ " \x7d"

namespace Direction

def method : Direction → String
  | .save => "save"
  | .load => "load"

def borrow : Direction → String
  | .save => "&"
  | .load => "& mut"

def archive : Direction → String
  | .save => "OutputArchive"
  | .load => "InputArchive"

end Direction

def Statement.text (root : String) (s : Statement) : String :=
  let method := s.direction.method
  let field := s!"{s.direction.borrow} self . {s.field}"
  match s.access with
  | .named document => s!"{root} :: wrap ({document.source} , {field}) . {method} (ar) ? ; "
  | .optional document =>
    s!"{root} :: wrap_optional ({document.source} , {field}) . {method} (ar) ? ; "
  | .flattened => s!"{root} :: Scribe :: {method} ({field} , ar) ? ; "

def resultType (root : String) (type : String) : String :=
  s!":: core :: result :: Result < {type} , {root} :: ScribeError >"

def success (value : String) : String := s!":: core :: result :: Result :: Ok ({value})"

def bodyText (root : String) (direction : Direction) (body : List Statement) : String :=
  s!"# [allow (unused_variables)] fn {direction.method} " ++
    s!"< __A : {root} :: archive :: {direction.archive} > " ++
    s!"({direction.borrow} self , ar : & mut __A ,) -> " ++ resultType root "()" ++ " " ++
    braced (String.join (body.map (·.text root)) ++ success "()")

def PointeeKind.text : PointeeKind → String
  | .plain => ""
  | .polymorphic => " , polymorphic"
  | .tagged tag => s!" , tag = {tag.source}"

namespace Expansion

def headText (e : Expansion) (interface : String) (conditions : List Condition) : String :=
  let declared := spaced (Parameter.declaredWords e.parameters)
  let used := spaced (Parameter.usedWords e.parameters)
  s!"impl{declared} {e.root.spaced} :: {interface} for " ++
    s!"{e.name}{used}{whereClause e.root.spaced conditions} "

def loadNewText (root : String) : String :=
  s!"fn load_new < __A : {root} :: archive :: InputArchive > (ar : & mut __A ,) -> " ++
    resultType root "Self" ++ " " ++
    braced ("let mut value = < Self as :: core :: default :: Default > :: default () ; " ++
      s!"{root} :: Scribe :: load (& mut value , ar) ? ; " ++ success "value")

def declarationText (e : Expansion) : Declaration → String
  | .scribe conditions saves loads =>
    e.headText "Scribe" conditions ++
      braced (bodyText e.root.spaced .save saves ++ " " ++ bodyText e.root.spaced .load loads)
  | .loadNew conditions =>
    e.headText "LoadNew" conditions ++ braced (loadNewText e.root.spaced)
  | .pointee kind => s!"{e.root.spaced} :: impl_pointee ! ({e.name}{kind.text}) ;"
  | .register => s!"{e.root.spaced} :: register_type ! ({e.name}) ;"
  | .relate base => s!"{e.root.spaced} :: register_relation ! (dyn {base.spaced} => {e.name}) ;"

def text (e : Expansion) : String := " ".intercalate (e.declarations.map e.declarationText)

end Expansion

def deriveText (manifest : Option Toml.Table) (source : String) : Except Refusal String :=
  match Source.TypeDeclaration.parse source with
  | .ok declaration => do return (← derive manifest declaration).text
  | .error fault => .error (.malformed fault)

end Archivist.Derive
