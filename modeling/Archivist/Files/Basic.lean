import Archivist.Document
import Archivist.Files.Path

/-!
Saving values to files and loading them. The extension of a file names its format; there is one, JSON,
which is written indented.
-/

set_option autoImplicit false

namespace Archivist

/-- What a file holds: text, or bytes that are not text. -/
inductive Content where
  | text (text : String)
  | bytes (bytes : List UInt8)
  deriving DecidableEq, Repr

def Content.ofBytes (bytes : List UInt8) : Content :=
  match String.fromUTF8? ⟨bytes.toArray⟩ with
  | some decoded => .text decoded
  | none => .bytes bytes

inductive FileNode where
  | file (content : Content)
  | directory
  deriving DecidableEq, Repr

structure FileSystem where
  nodes : List (Path × FileNode) := []
  deriving Repr

namespace FileSystem

def find? (fs : FileSystem) (path : Path) : Option FileNode :=
  if path = [] then some .directory
  else (fs.nodes.find? (·.1 = path)).map Prod.snd

def isDirectory (fs : FileSystem) (path : Path) : Bool := fs.find? path = some .directory

def contains (fs : FileSystem) (path : Path) : Bool := (fs.find? path).isSome

def put (fs : FileSystem) (path : Path) (node : FileNode) : FileSystem :=
  ⟨(path, node) :: fs.nodes.filter (·.1 ≠ path)⟩

theorem find?_put (fs : FileSystem) {path : Path} (h : path ≠ []) (node : FileNode) (p : Path) :
    (fs.put path node).find? p = if p = path then some node else fs.find? p := by
  by_cases e : p = path
  · subst e
    simp [find?, put, h]
  · have hs : ¬ path = p := fun h => e h.symm
    rw [if_neg e]
    unfold find? put
    split
    · rfl
    · simp only [List.find?_cons, hs, decide_false, List.find?_filter]
      congr 2
      funext x
      by_cases hx : x.1 = p
      · simp [hx, e]
      · simp [hx]

/-- Makes the directories on a path. Where something is already, it stays. -/
def makeDirectories (fs : FileSystem) (path : Path) : FileSystem :=
  (List.range path.length).foldl
    (fun fs n =>
      let path := path.take (n + 1)
      if fs.contains path then fs else fs.put path .directory)
    fs

/-- Replaces the whole content of a file. The directory around it must exist. -/
def write (fs : FileSystem) (path : Path) (content : Content) : Except FileFault FileSystem :=
  match fs.find? path.dropLast with
  | some .directory =>
    if fs.isDirectory path then .error .isADirectory else .ok (fs.put path (.file content))
  | some (.file _) => .error .notADirectory
  | none => .error .missing

def nameLimit : Nat := 255

/-- Follows steps from a path. Each of them starts in a directory. -/
def follow (fs : FileSystem) : Path → List String → Except FileFault Path
  | path, [] => .ok path
  | path, step :: rest =>
    match fs.find? path with
    | none => .error .missing
    | some (.file _) => .error .notADirectory
    | some .directory =>
      if step = "." then fs.follow path rest
      else if step = ".." then fs.follow path.dropLast rest
      else if nameLimit < step.utf8ByteSize then .error .longName
      else fs.follow (path ++ [step]) rest

def locate (fs : FileSystem) (l : Location) : Except FileFault Path := do
  if l.steps.any (·.toList.contains '\x00') then throw .zeroByte
  let path ← fs.follow [] l.steps
  if l.endsInSlash && !fs.isDirectory path then throw .isADirectory
  return path

def writeAt (fs : FileSystem) (l : Location) (content : Content) :
    Except FileFault FileSystem := do
  fs.write (← fs.locate l) content

def node? (fs : FileSystem) (l : Location) : Option FileNode := do
  fs.find? (← (fs.locate l).toOption)

def text? (fs : FileSystem) (l : Location) : Option String :=
  match fs.node? l with
  | some (.file (.text text)) => some text
  | _ => none

end FileSystem

/-- Reads a new value from a file. A directory, a missing file and an extension without format are
noticed in this order. -/
def Loading.ofFile (env : Loading) (type : Ty) (registry : Registry) (fs : FileSystem)
    (l : Location) : Loaded :=
  match fs.node? l with
  | some .directory => ⟨.error (.isDirectory l.shown), registry, []⟩
  | none => ⟨.error (.fileNotFound l.shown), registry, []⟩
  | some (.file content) =>
    if l.isSupported = false then ⟨.error (.unsupportedExtension l.shown), registry, []⟩
    else match content with
      | .bytes _ => ⟨.error (.file .notText), registry, []⟩
      | .text text => env.ofText type registry text

/-- Writes a value to a file. The text is complete before the file is touched. -/
def Saving.toFile (env : Saving) (fs : FileSystem) (l : Location) (value : Value) :
    Saved Unit × FileSystem :=
  if fs.node? l = some .directory then (⟨.error (.isDirectory l.shown), []⟩, fs)
  else if l.isSupported = false then (⟨.error (.unsupportedExtension l.shown), []⟩, fs)
  else
    let saved := env.toText true value
    match saved.result with
    | .error e => (⟨.error e, saved.log⟩, fs)
    | .ok text =>
      match fs.writeAt l (.text text) with
      | .error fault => (⟨.error (.file fault), saved.log⟩, fs)
      | .ok written => (⟨.ok (), saved.log ++ [.savedFile l.shown]⟩, written)

end Archivist
