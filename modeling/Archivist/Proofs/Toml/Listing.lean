import Archivist.Toml.Outline

/-!
Which keys a document lists in a table of the root, told by its lines. Main statement: a key is found in a
table of the outline exactly if the path of some line goes through both, and the table is not an array.
-/

set_option autoImplicit false

namespace Archivist.Toml

namespace Line

def path (heading : List String) : Line → List String
  | .heading path key | .element path key => path ++ [key]
  | .entry path key _ => heading ++ (path ++ [key])

def nextHeading (heading : List String) : Line → List String
  | .heading path key | .element path key => path ++ [key]
  | .entry .. => heading

def isElement : Line → Bool
  | .element .. => true
  | _ => false

def bracedKeys : Line → List String
  | .entry _ _ (some entries) => entries.map Prod.fst
  | _ => []

end Line

def located (heading : List String) : List Line → List (List String × Line)
  | [] => []
  | line :: rest => (line.path heading, line) :: located (line.nextHeading heading) rest

/-- A key of a table: some line has a path through both. The table is there by a heading, by the heading of
a table in it or by a key with dots; an array of tables is none. -/
def ListsOpenly (lines : List Line) (table key : String) : Prop :=
  (∃ l ∈ located [] lines, [table, key] <+: l.1) ∧
    ∀ l ∈ located [] lines, l.1 = [table] → l.2.isElement = false

/-- A key of a table that is written between braces. -/
def ListsInBraces (lines : List Line) (table key : String) : Prop :=
  ∃ l ∈ located [] lines, l.1 = [table] ∧ key ∈ l.2.bracedKeys

instance (lines : List Line) (table key : String) : Decidable (ListsOpenly lines table key) :=
  inferInstanceAs (Decidable (_ ∧ _))

instance (lines : List Line) (table key : String) : Decidable (ListsInBraces lines table key) :=
  inferInstanceAs (Decidable (∃ l ∈ located [] lines, l.1 = [table] ∧ key ∈ l.2.bracedKeys))

namespace Table

/-- The second table is the first with a new item under a key. -/
def Puts (key : String) (t t' : Table) : Prop := ∃ item, t' = t.put key item

/-- A second key is put into the table under a first one, or into the last table of an array there. -/
inductive Grows (first second : String) (t t' : Table) : Prop
  | new (origin : Origin) (inner : Table) (h : t.get? first = none) (hi : Puts second ⟨origin, []⟩ inner)
      (ht : t' = t.put first (.table inner.origin inner.entries))
  | table (origin : Origin) (entries : List (String × Item)) (inner : Table)
      (h : t.get? first = some (.table origin entries)) (hi : Puts second ⟨origin, entries⟩ inner)
      (ht : t' = t.put first (.table inner.origin inner.entries))
  | tables (elements elements' : List (List (String × Item))) (h : t.get? first = some (.tables elements))
      (ht : t' = t.put first (.tables elements'))

/-- What a step that adds something at the end of a path does to the first two keys of the path. -/
structure Adds (path : List String) (step : Table → Option Table) : Prop where
  puts {t t' : Table} (h : step t = some t') {key : String} {rest : List String} (hp : path = key :: rest) :
    Puts key t t'
  grows {t t' : Table} (h : step t = some t') {first second : String} {rest : List String}
    (hp : path = first :: second :: rest) : Grows first second t t'

theorem Adds.of_puts {key : String} {step : Table → Option Table}
    (h : ∀ {t t' : Table}, step t = some t' → Puts key t t') : Adds [key] step where
  puts ht _ _ hp := by
    cases hp
    exact h ht
  grows _ _ _ _ hp := by cases hp

theorem adds_openTable (key : String) : Adds [key] (openTable key) := by
  refine .of_puts fun {t t'} h => ?_
  unfold openTable at h
  split at h <;> cases h <;> exact ⟨_, rfl⟩

theorem adds_openElement (key : String) : Adds [key] (openElement key) := by
  refine .of_puts fun {t t'} h => ?_
  unfold openElement at h
  split at h <;> cases h <;> exact ⟨_, rfl⟩

theorem adds_assign (key : String) (value : Kept) : Adds [key] (assign key value) := by
  refine .of_puts fun {t t'} h => ?_
  unfold assign at h
  split at h <;> cases h
  exact ⟨_, rfl⟩

variable {step : Table → Option Table}

theorem change_cons {origin : Origin} {key : String} {path : List String} {t t' : Table}
    (h : change origin step (key :: path) t = some t') :
    (∃ inner, t.get? key = none ∧ change origin step path ⟨origin, []⟩ = some inner ∧
      t' = t.put key (.table inner.origin inner.entries)) ∨
    (∃ first entries inner, t.get? key = some (.table first entries) ∧
      change origin step path ⟨first, entries⟩ = some inner ∧ t' = t.put key (.table inner.origin inner.entries)) ∨
    ∃ elements elements', t.get? key = some (.tables elements) ∧ t' = t.put key (.tables elements') := by
  rw [change] at h
  split at h
  · rename_i hkey
    obtain ⟨inner, hi, ht⟩ := Option.bind_eq_some_iff.1 h
    cases ht
    exact .inl ⟨inner, hkey, hi, rfl⟩
  · cases h
  · rename_i first entries hkey
    split at h
    · cases h
    · obtain ⟨inner, hi, ht⟩ := Option.bind_eq_some_iff.1 h
      cases ht
      exact .inr (.inl ⟨first, entries, inner, hkey, hi, rfl⟩)
  · rename_i elements hkey
    obtain ⟨last, -, h⟩ := Option.bind_eq_some_iff.1 h
    obtain ⟨inner, -, ht⟩ := Option.bind_eq_some_iff.1 h
    cases ht
    exact .inr (.inr ⟨elements, _, hkey, rfl⟩)

theorem Adds.change {suffix : List String} (h : Adds suffix step) (hs : suffix ≠ []) (origin : Origin)
    (path : List String) : Adds (path ++ suffix) (Table.change origin step path) := by
  induction path with
  | nil => exact h
  | cons key path ih =>
    obtain ⟨second, rest, hrest⟩ := List.exists_cons_of_ne_nil (List.append_ne_nil_of_right_ne_nil path hs)
    have hgrows : ∀ {t t' : Table}, Table.change origin step (key :: path) t = some t' → Grows key second t t' := by
      intro t t' ht
      obtain ⟨inner, hkey, hi, rfl⟩ | ⟨first, entries, inner, hkey, hi, rfl⟩ | ⟨elements, elements', hkey, rfl⟩ :=
        change_cons ht
      · exact .new origin inner hkey (ih.puts hi hrest) rfl
      · exact .table first entries inner hkey (ih.puts hi hrest) rfl
      · exact .tables elements elements' hkey rfl
    constructor
    · intro t t' ht a others hp
      cases hp
      cases hgrows ht with
      | new _ _ _ _ ht => exact ⟨_, ht⟩
      | table _ _ _ _ _ ht => exact ⟨_, ht⟩
      | tables _ _ _ ht => exact ⟨_, ht⟩
    · intro t t' ht a b others hp
      rw [List.cons_append, hrest] at hp
      cases hp
      exact hgrows ht

theorem adds_assignPath (path : List String) (key : String) (value : Kept) :
    Adds (path ++ [key]) (assignPath path key value) := by
  have hassign : Adds [key] fun t => if t.origin = .dotted then t.assign key value else none := by
    refine .of_puts fun {t t'} h => ?_
    split at h
    · exact (adds_assign key value).puts h rfl
    · cases h
  cases path with
  | nil => exact adds_assign key value
  | cons first path => exact hassign.change (List.cons_ne_nil _ _) .dotted (first :: path)

theorem isSome_get?_of_puts {key : String} {t t' : Table} (h : Puts key t t') (k : String) :
    (t'.get? k).isSome ↔ k = key ∨ (t.get? k).isSome := by
  obtain ⟨item, rfl⟩ := h
  rw [get?_put]
  split <;> simp_all

/-- What a line with a single key on its path makes of a table. -/
inductive Settles (line : Line) (key : String) (t t' : Table) : Prop
  | heading (entries : List (String × Item)) (hl : line.isElement = false)
      (h : t.get? key = none ∧ entries = [] ∨ t.get? key = some (.table .implied entries))
      (ht : t' = t.put key (.table .heading entries))
  | element (elements : List (List (String × Item))) (hl : line.isElement = true)
      (ht : t' = t.put key (.tables elements))
  | value (value : Kept) (h : t.get? key = none) (ht : t' = t.put key (.value value))

theorem settles_openTable {key : String} {line : Line} (hl : line.isElement = false) {t t' : Table}
    (h : t.openTable key = some t') : Settles line key t t' := by
  unfold openTable at h
  split at h
  · rename_i hkey
    cases h
    exact .heading [] hl (.inl ⟨hkey, rfl⟩) rfl
  · rename_i entries hkey
    cases h
    exact .heading entries hl (.inr hkey) rfl
  · cases h

theorem settles_openElement {key : String} {line : Line} (hl : line.isElement = true) {t t' : Table}
    (h : t.openElement key = some t') : Settles line key t t' := by
  unfold openElement at h
  split at h <;> cases h <;> exact .element _ hl rfl

theorem settles_assign {key : String} {line : Line} {value : Kept} {t t' : Table}
    (h : t.assign key value = some t') : Settles line key t t' := by
  unfold assign at h
  split at h <;> cases h
  rename_i hkey
  exact .value value (Option.not_isSome_iff_eq_none.1 hkey) rfl

end Table

open Toml.Table (Puts Grows Adds Settles)

/-- All that a line does: it adds something at the end of its path. -/
theorem Outline.add_cases {o o' : Outline} {line : Line} (h : o.add line = some o') :
    o'.heading = line.nextHeading o.heading ∧
    (∀ {key rest}, line.path o.heading = key :: rest → Puts key o.root o'.root) ∧
    (∀ {first second rest}, line.path o.heading = first :: second :: rest → Grows first second o.root o'.root) ∧
    ∀ {key}, line.path o.heading = [key] → Settles line key o.root o'.root := by
  have singleton {path : List String} {key k : String} (hp : path ++ [key] = [k]) : path = [] ∧ key = k := by
    obtain ⟨hpath, hkey⟩ := (List.append_eq_singleton_iff.1 hp).resolve_right nofun
    exact ⟨hpath, (List.cons.inj hkey).1⟩
  cases line with
  | heading path key =>
    obtain ⟨root, hr, ho⟩ := Option.bind_eq_some_iff.1 h
    cases ho
    have hadds := (Table.adds_openTable key).change (List.cons_ne_nil _ _) .implied path
    refine ⟨rfl, hadds.puts hr, hadds.grows hr, fun {k} hp => ?_⟩
    obtain ⟨rfl, rfl⟩ := singleton hp
    exact Table.settles_openTable rfl hr
  | element path key =>
    obtain ⟨root, hr, ho⟩ := Option.bind_eq_some_iff.1 h
    cases ho
    have hadds := (Table.adds_openElement key).change (List.cons_ne_nil _ _) .implied path
    refine ⟨rfl, hadds.puts hr, hadds.grows hr, fun {k} hp => ?_⟩
    obtain ⟨rfl, rfl⟩ := singleton hp
    exact Table.settles_openElement rfl hr
  | entry path key value =>
    obtain ⟨root, hr, ho⟩ := Option.bind_eq_some_iff.1 h
    cases ho
    have hne : path ++ [key] ≠ [] := List.append_ne_nil_of_right_ne_nil path (List.cons_ne_nil _ _)
    have hadds := (Table.adds_assignPath path key value).change hne .implied o.heading
    refine ⟨rfl, hadds.puts hr, hadds.grows hr, fun {k} hp => ?_⟩
    rw [Line.path, ← List.append_assoc] at hp
    obtain ⟨hpath, rfl⟩ := singleton hp
    obtain ⟨hheading, rfl⟩ := List.append_eq_nil_iff.1 hpath
    rw [hheading] at hr
    exact Table.settles_assign hr

/-- What is found under a name of the root, told by the lines that were read. -/
def Shows (seen : List (List String × Line)) (name : String) : Option Item → Prop
  | none => ∀ l ∈ seen, ∀ rest, l.1 ≠ name :: rest
  | some (.value _) => ∀ l ∈ seen, ∀ key rest, l.1 ≠ name :: key :: rest
  | some (.table _ entries) =>
    (∀ key, (entries.lookup key).isSome ↔ ∃ l ∈ seen, [name, key] <+: l.1) ∧
      ∀ l ∈ seen, l.1 = [name] → l.2.isElement = false
  | some (.tables _) => ∃ l ∈ seen, l.1 = [name] ∧ l.2.isElement = true

namespace Shows

variable {seen : List (List String × Line)} {l : List String × Line} {name : String} {t t' : Table}

theorem other {item? : Option Item} (hl : ∀ rest, l.1 ≠ name :: rest) (h : Shows seen name item?) :
    Shows (seen ++ [l]) name item? := by
  match item? with
  | none => exact List.forall_mem_append.2 ⟨h, List.forall_mem_singleton.2 hl⟩
  | some (.value _) =>
    exact List.forall_mem_append.2 ⟨h, List.forall_mem_singleton.2 fun key rest => hl (key :: rest)⟩
  | some (.table _ entries) =>
    refine ⟨fun key => ?_, List.forall_mem_append.2 ⟨h.2, List.forall_mem_singleton.2 fun hp => absurd hp (hl [])⟩⟩
    have hprefix : ¬ [name, key] <+: l.1 := fun ⟨rest, hr⟩ => hl (key :: rest) hr.symm
    simp [h.1 key, or_and_right, exists_or, hprefix]
  | some (.tables _) =>
    obtain ⟨l', hm, hl'⟩ := h
    exact ⟨l', List.mem_append_left _ hm, hl'⟩

theorem table_nil (h : Shows seen name none) (origin : Origin) : Shows seen name (some (.table origin [])) := by
  refine ⟨fun key => ?_, fun l' hm hp => absurd hp (h l' hm [])⟩
  have hnone : ¬ ∃ l' ∈ seen, [name, key] <+: l'.1 := fun ⟨l', hm, rest, hr⟩ => h l' hm (key :: rest) hr.symm
  simp [hnone]

theorem table_puts {second : String} {rest : List String} {origin : Origin} {entries : List (String × Item)}
    {inner : Table} (hl : l.1 = name :: second :: rest) (h : Shows seen name (some (.table origin entries)))
    (hi : Puts second ⟨origin, entries⟩ inner) :
    Shows (seen ++ [l]) name (some (.table inner.origin inner.entries)) := by
  constructor
  · intro key
    have hprefix : [name, key] <+: l.1 ↔ key = second := by simp [hl, List.cons_prefix_cons]
    have hkey := Table.isSome_get?_of_puts hi key
    simp only [Table.get?] at hkey
    rw [hkey, h.1 key]
    simp only [List.mem_append, List.mem_singleton, or_and_right, exists_or, exists_eq_left, hprefix]
    exact or_comm
  · exact List.forall_mem_append.2 ⟨h.2, List.forall_mem_singleton.2 fun hp => by cases hl.symm.trans hp⟩

theorem grow {second : String} {rest : List String} (hl : l.1 = name :: second :: rest)
    (h : Shows seen name (t.get? name)) (hg : Grows name second t t') :
    Shows (seen ++ [l]) name (t'.get? name) := by
  cases hg with
  | new origin inner hn hi ht =>
    rw [hn] at h
    rw [ht, Table.get?_put, if_pos rfl]
    exact (h.table_nil origin).table_puts hl hi
  | table origin entries inner hn hi ht =>
    rw [hn] at h
    rw [ht, Table.get?_put, if_pos rfl]
    exact h.table_puts hl hi
  | tables elements elements' hn ht =>
    rw [hn] at h
    obtain ⟨l', hm, hl'⟩ := h
    rw [ht, Table.get?_put, if_pos rfl]
    exact ⟨l', List.mem_append_left _ hm, hl'⟩

theorem settle (hl : l.1 = [name]) (h : Shows seen name (t.get? name)) (hs : Settles l.2 name t t') :
    Shows (seen ++ [l]) name (t'.get? name) := by
  cases hs with
  | heading entries hline hn ht =>
    have hold : Shows seen name (some (.table .implied entries)) := by
      rcases hn with ⟨hn, rfl⟩ | hn
      · rw [hn] at h
        exact h.table_nil .implied
      · rwa [hn] at h
    rw [ht, Table.get?_put, if_pos rfl]
    refine ⟨fun key => ?_, List.forall_mem_append.2 ⟨hold.2, List.forall_mem_singleton.2 fun _ => hline⟩⟩
    have hprefix : ¬ [name, key] <+: l.1 := by simp [hl, List.cons_prefix_cons]
    simp [hold.1 key, or_and_right, exists_or, hprefix]
  | element elements hline ht =>
    rw [ht, Table.get?_put, if_pos rfl]
    exact ⟨l, List.mem_append_right _ (List.mem_singleton_self l), hl, hline⟩
  | value value hn ht =>
    rw [hn] at h
    rw [ht, Table.get?_put, if_pos rfl]
    refine List.forall_mem_append.2 ⟨fun l' hm key rest => h l' hm (key :: rest), List.forall_mem_singleton.2 ?_⟩
    intro key rest hp
    cases hl.symm.trans hp

theorem add {o o' : Outline} {line : Line} (h : Shows seen name (o.root.get? name)) (ho : o.add line = some o') :
    Shows (seen ++ [(line.path o.heading, line)]) name (o'.root.get? name) := by
  obtain ⟨-, hputs, hgrows, hsettles⟩ := Outline.add_cases ho
  cases hp : line.path o.heading with
  | nil => cases line <;> simp [Line.path] at hp
  | cons first rest =>
    by_cases hn : name = first
    · subst hn
      cases rest with
      | nil => exact h.settle rfl (hsettles hp)
      | cons second rest => exact h.grow rfl (hgrows hp)
    · obtain ⟨item, ht⟩ := hputs hp
      rw [ht, Table.get?_put, if_neg hn]
      exact h.other fun rest hr => hn (List.cons.inj hr).1.symm

theorem run {lines : List Line} {o o' : Outline} (h : Shows seen name (o.root.get? name))
    (ho : lines.foldlM Outline.add o = some o') :
    Shows (seen ++ located o.heading lines) name (o'.root.get? name) := by
  induction lines generalizing seen o with
  | nil =>
    cases ho
    rwa [located, List.append_nil]
  | cons line lines ih =>
    rw [List.foldlM_cons] at ho
    obtain ⟨next, hadd, ho⟩ := Option.bind_eq_some_iff.1 ho
    have hnext := ih (h.add hadd) ho
    rwa [(Outline.add_cases hadd).1, List.append_assoc] at hnext

end Shows

theorem contains_iff_listsOpenly {lines : List Line} {o : Outline} (h : Outline.ofLines? lines = some o)
    (table key : String) :
    (∃ origin entries, o.root.get? table = some (.table origin entries) ∧ (⟨origin, entries⟩ : Table).contains key) ↔
      ListsOpenly lines table key := by
  have start : Shows [] table (({} : Outline).root.get? table) := fun l hm => absurd hm List.not_mem_nil
  have hshows := start.run h
  rw [List.nil_append] at hshows
  constructor
  · rintro ⟨origin, entries, hget, hkey⟩
    rw [hget] at hshows
    exact ⟨(hshows.1 key).1 hkey, hshows.2⟩
  · rintro ⟨⟨l, hm, rest, hr⟩, hsingle⟩
    match hget : o.root.get? table with
    | none =>
      rw [hget] at hshows
      exact absurd hr.symm (hshows l hm (key :: rest))
    | some (.value _) =>
      rw [hget] at hshows
      exact absurd hr.symm (hshows l hm key rest)
    | some (.table origin entries) =>
      rw [hget] at hshows
      exact ⟨origin, entries, rfl, (hshows.1 key).2 ⟨l, hm, rest, hr⟩⟩
    | some (.tables elements) =>
      rw [hget] at hshows
      obtain ⟨l', hm', hp, he⟩ := hshows
      exact absurd (hsingle l' hm' hp) (by simp [he])

end Archivist.Toml
