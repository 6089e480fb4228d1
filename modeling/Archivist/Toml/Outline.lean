/-!
The outline of a TOML document: its tables and their keys, without the values. A document is a list of
lines, each of which adds to the outline. Keys are given once, and how a table came to be decides how it
can be written to again.
-/

set_option autoImplicit false

namespace Archivist.Toml

/-- How a table came to be: by a heading of its own or of a table in it, or by a key with dots. -/
inductive Origin where
  | heading
  | implied
  | dotted
  deriving DecidableEq, Repr

inductive Item where
  /-- A value. Of a table between braces the entries are kept, of all others nothing. -/
  | value (entries? : Option (List (String × Item)))
  | table (origin : Origin) (entries : List (String × Item))
  | tables (elements : List (List (String × Item)))
  deriving Repr

abbrev Kept := Option (List (String × Item))

structure Table where
  origin : Origin
  entries : List (String × Item)
  deriving Repr

namespace Table

def get? (t : Table) (key : String) : Option Item := t.entries.lookup key

def contains (t : Table) (key : String) : Bool := (t.get? key).isSome

def put (t : Table) (key : String) (item : Item) : Table :=
  if t.contains key then
    { t with entries := t.entries.map fun entry => if entry.1 = key then (key, item) else entry }
  else { t with entries := t.entries ++ [(key, item)] }

theorem lookup_replace (entries : List (String × Item)) (key k : String) (item : Item) :
    (entries.map fun entry => if entry.1 = key then (key, item) else entry).lookup k =
      if k = key then (entries.lookup key).map fun _ => item else entries.lookup k := by
  induction entries with
  | nil => simp
  | cons entry rest ih =>
    obtain ⟨a, old⟩ := entry
    by_cases hk : k = a
    · subst hk
      by_cases ha : k = key <;> simp_all
    · have hb : (k == a) = false := beq_eq_false_iff_ne.mpr hk
      by_cases ha : a = key
      · subst ha
        simp [List.lookup_cons, hk, hb, ih]
      · have hs : (key == a) = false := beq_eq_false_iff_ne.mpr fun h => ha h.symm
        simp [List.lookup_cons, ha, hb, hs, ih]

theorem get?_put (t : Table) (key k : String) (item : Item) :
    (t.put key item).get? k = if k = key then some item else t.get? k := by
  unfold put
  split
  · next h =>
    obtain ⟨old, ho⟩ := Option.isSome_iff_exists.mp h
    simp only [get?] at ho ⊢
    rw [lookup_replace, ho, Option.map_some]
  · next h =>
    have hn : t.entries.lookup key = none := Option.not_isSome_iff_eq_none.mp h
    by_cases hk : k = key
    · subst hk
      simp [get?, List.lookup_append, hn]
    · have hb : (k == key) = false := beq_eq_false_iff_ne.mpr hk
      simp [get?, List.lookup_append, List.lookup_cons, hk, hb]

/--
Changes the table at the end of a path. Tables on the way that are not there come to be as `origin` says.
Of an array of tables it is the last one that the path goes through. Dots do not lead into a table
that has a heading.
-/
def change (origin : Origin) (step : Table → Option Table) : List String → Table → Option Table
  | [], t => step t
  | key :: path, t =>
    match t.get? key with
    | none => do
      let inner ← change origin step path ⟨origin, []⟩
      some (t.put key (.table inner.origin inner.entries))
    | some (.value _) => none
    | some (.table first entries) =>
      if origin = .dotted ∧ first = .heading then none
      else do
        let inner ← change origin step path ⟨first, entries⟩
        some (t.put key (.table inner.origin inner.entries))
    | some (.tables elements) => do
      let last ← elements.getLast?
      let inner ← change origin step path ⟨.heading, last⟩
      some (t.put key (.tables (elements.dropLast ++ [inner.entries])))

/-- Opens the table under a key by its heading. It can be there only because of a table in it. -/
def openTable (key : String) (t : Table) : Option Table :=
  match t.get? key with
  | none => some (t.put key (.table .heading []))
  | some (.table .implied entries) => some (t.put key (.table .heading entries))
  | some _ => none

def openElement (key : String) (t : Table) : Option Table :=
  match t.get? key with
  | none => some (t.put key (.tables [[]]))
  | some (.tables elements) => some (t.put key (.tables (elements ++ [[]])))
  | some _ => none

def assign (key : String) (value : Kept) (t : Table) : Option Table :=
  if t.contains key then none else some (t.put key (.value value))

/-- Gives a key with dots before it a value. The dots lead to a table that came to be by dots. -/
def assignPath (path : List String) (key : String) (value : Kept) (t : Table) : Option Table :=
  match path with
  | [] => t.assign key value
  | _ => t.change .dotted (fun t => if t.origin = .dotted then t.assign key value else none) path

end Table

/-- A line of a document: `[path.key]`, `[[path.key]]` or `path.key = …`. -/
inductive Line where
  | heading (path : List String) (key : String)
  | element (path : List String) (key : String)
  | entry (path : List String) (key : String) (value : Kept)
  deriving Repr

structure Outline where
  root : Table := ⟨.heading, []⟩
  heading : List String := []
  deriving Repr

namespace Outline

def add (o : Outline) : Line → Option Outline
  | .heading path key => do
    let root ← o.root.change .implied (·.openTable key) path
    some ⟨root, path ++ [key]⟩
  | .element path key => do
    let root ← o.root.change .implied (·.openElement key) path
    some ⟨root, path ++ [key]⟩
  | .entry path key value => do
    let root ← o.root.change .implied (·.assignPath path key value) o.heading
    some { o with root }

def ofLines? (lines : List Line) : Option Outline := lines.foldlM add {}

end Outline

end Archivist.Toml
