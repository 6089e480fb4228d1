import Archivist.Proofs.Json.Parts
import Archivist.Proofs.Number.Integers
import Archivist.Proofs.RoundTrip.Shape

/-!
What documents are like that values are saved to. Main statements: the document of a value whose atoms
are values of their types is valid, and without floats among the atoms there are none in the document.
-/

set_option autoImplicit false

namespace Archivist

namespace Value

mutual

def atoms : Value → List Atom
  | .atom a => [a]
  | .absent => []
  | .present item | .ref _ item => atoms item
  | .list items | .record _ items => atomsOfItems items
  | .map _ entries => atomsOfEntries entries

def atomsOfItems : List Value → List Atom
  | [] => []
  | item :: rest => atoms item ++ atomsOfItems rest

def atomsOfEntries : List (Atom × Value) → List Atom
  | [] => []
  | (key, item) :: rest => key :: atoms item ++ atomsOfEntries rest

end

end Value

namespace Schema

def tally : Value.Algebra (List Atom) where
  atom a := [a]
  absent := []
  present item := item
  list items := items.flatten
  map _ entries := entries.flatMap fun e => e.1 :: e.2
  record _ fields := fields.flatten
  ref _ _ whole shown? := whole ++ shown?.getD []

def atoms (S : Schema) (v : Value) : List Atom := S.fold tally v

/-- Every atom is a value of its type. -/
def Typed (S : Schema) (v : Value) : Prop := ∀ a ∈ S.atoms v, a.ty.Has a

def FloatFree (S : Schema) (v : Value) : Prop := ∀ a ∈ S.atoms v, ∀ width x, a ≠ .float width x

end Schema

theorem Format.Has.double_of_single {x : Binary} (h : Format.single.Has x) : Format.double.Has x := by
  cases x with
  | nan => trivial
  | infinite negative => trivial
  | finite negative m e =>
    rcases h with h | ⟨hodd, hbits, hmin, hmax⟩
    · exact .inl h
    · simp only [single] at hbits hmin hmax
      refine .inr ⟨hodd, ?_, ?_, ?_⟩ <;> simp only [double] <;> omega

/-- What can be asked of every part of a document that is saved: strings, null and containers have it
anyway, as long as an object repeats no name. -/
structure Json.Allows (P : Json → Prop) : Prop where
  null : P .null
  string (s : String) : P (.string s)
  array (items : List Json) : P (.array items)
  object {fields : Fields} (h : fields.names.Nodup) : P (.object fields)

namespace Writer

theorem parts_leafJson {leaf : Leaf} {d : Json} (h : leafJson leaf = .ok d) : d.parts = [d] := by
  cases leaf with
  | float x =>
    rw [leafJson] at h
    split at h <;> cases h
    rfl
  | _ => cases h; rfl

theorem proper_leafJson {a : Atom} (ha : a.ty.Has a) {d : Json} (h : leafJson a.leaf = .ok d) : d.Proper := by
  cases a with
  | bool b => cases h; trivial
  | char c => cases h; trivial
  | text s => cases h; trivial
  | int kind n =>
    rw [leafJson_of_toInt? ha.2.toInt?_leaf] at h
    cases h
    exact ha.2.bounds
  | float width x =>
    simp only [Atom.leaf, leafJson] at h
    split at h
    · rename_i hfinite
      cases h
      refine ⟨hfinite, ?_⟩
      cases width with
      | single => exact Format.Has.double_of_single ha.2
      | double => exact ha.2
    · cases h

theorem isFloat_leafJson {a : Atom} (ha : ∀ width x, a ≠ .float width x) {d : Json}
    (h : leafJson a.leaf = .ok d) : d.isFloat = false := by
  cases a with
  | bool b => cases h; rfl
  | char c => cases h; rfl
  | text s => cases h; rfl
  | int kind n =>
    simp only [Atom.leaf] at h
    split at h <;> cases h <;> rfl
  | float width x => exact absurd rfl (ha width x)

namespace Node

variable {P : Json → Prop}

/-- Every part of what stands in a node has a property. -/
def Filled (P : Json → Prop) : Node → Prop
  | .pending => True
  | .object fields => ∀ field ∈ fields, ∀ part ∈ field.2.parts, P part
  | .array items => ∀ item ∈ items, ∀ part ∈ item.parts, P part
  | .leaf value => ∀ part ∈ value.parts, P part

theorem Filled.close {n : Node} (h : n.Filled P) (hP : Json.Allows P) (ht : n.Tidy) :
    ∀ part ∈ n.close.parts, P part := by
  cases n with
  | pending => exact Json.forall_parts_object.2 ⟨hP.object List.nodup_nil, nofun⟩
  | object fields => exact Json.forall_parts_object.2 ⟨hP.object (ht fields rfl), h⟩
  | array items => exact Json.forall_parts_array.2 ⟨hP.array items, h⟩
  | leaf value => exact h

theorem Filled.field {n : Node} (h : n.Filled P) (hP : Json.Allows P) (ht : n.Tidy) (name : String) :
    (Node.field name n).Filled P :=
  List.forall_mem_singleton.2 (h.close hP ht)

theorem Filled.merge {a b c : Node} (ha : a.Filled P) (hb : b.Filled P) (h : a.merge b = some c) :
    c.Filled P := by
  obtain ⟨rfl, rfl⟩ | ⟨rfl, rfl⟩ | ⟨fs, gs, rfl, rfl, rfl, -⟩ := merge_cases h
  · exact hb
  · exact ha
  · exact List.forall_mem_append.2 ⟨ha, hb⟩

end Node

end Writer

namespace Saving

open Writer

variable {env : Saving} {P : Json → Prop}

/-- The property of leaves that atoms must have for their documents to have it throughout. -/
def Yields (P : Json → Prop) (atoms : List Atom) : Prop :=
  ∀ a ∈ atoms, ∀ d, leafJson a.leaf = .ok d → P d

theorem Yields.append {atoms more : List Atom} : Yields P (atoms ++ more) ↔ Yields P atoms ∧ Yields P more :=
  List.forall_mem_append

theorem Yields.items {S : Schema} {items : List Value} (h : Yields P ((items.map S.atoms).flatten)) {item : Value}
    (hm : item ∈ items) : Yields P (S.atoms item) :=
  fun a ha => h a (List.mem_flatten.2 ⟨_, List.mem_map_of_mem hm, ha⟩)

theorem parts_of_leafJson {a : Atom} {d : Json} (h : ∀ d, leafJson a.leaf = .ok d → P d)
    (hd : leafJson a.leaf = .ok d) : ∀ part ∈ d.parts, P part := by
  rw [parts_leafJson hd]
  exact List.forall_mem_singleton.2 (h d hd)

theorem filled_tagNode (hP : Json.Allows P) (tag : String) : (tagNode tag).Filled P :=
  List.forall_mem_singleton.2 (List.forall_mem_singleton.2 (hP.string tag))

section Parts

variable {κ ι : Type} {node : ι → Option Node} {docs : List Json} {b : Node}

theorem parts_of_joinItems (hP : Json.Allows P) {items : List ι}
    (hi : ∀ i ∈ items, ∀ ⦃b⦄, node i = some b → b.Filled P ∧ b.Tidy) (h : Node.joinItems (items.map node) = some docs) :
    ∀ d ∈ docs, ∀ part ∈ d.parts, P part := by
  induction items generalizing docs with
  | nil =>
    cases h
    exact nofun
  | cons i items ih =>
    obtain ⟨hfirst, hrest⟩ := List.forall_mem_cons.1 hi
    obtain ⟨b, hb, h⟩ := Option.bind_eq_some_iff.1 h
    obtain ⟨docs, hd, rfl⟩ := Option.map_eq_some_iff.1 h
    obtain ⟨hfilled, htidy⟩ := hfirst hb
    exact List.forall_mem_cons.2 ⟨hfilled.close hP htidy, ih hrest hd⟩

theorem filled_of_joinNamed (hP : Json.Allows P) {toField : κ → Option String} {entries : List (κ × ι)}
    (he : ∀ e ∈ entries, ∀ ⦃b⦄, node e.2 = some b → b.Filled P ∧ b.Tidy)
    (h : Node.joinNamed toField (entries.map fun e => (e.1, node e.2)) = some b) : b.Filled P := by
  induction entries generalizing b with
  | nil =>
    cases h
    trivial
  | cons e entries ih =>
    obtain ⟨hfirst, hrest⟩ := List.forall_mem_cons.1 he
    simp only [List.map_cons, Node.joinNamed, Option.bind_eq_some_iff] at h
    obtain ⟨name, -, c, hc, m, hm, h⟩ := h
    obtain ⟨hfilled, htidy⟩ := hfirst hc
    exact (hfilled.field hP htidy name).merge (ih hrest hm) h

theorem parts_of_joinPairs (hP : Json.Allows P) {keys : κ → Option Node} {entries : List (κ × ι)}
    (hk : ∀ e ∈ entries, ∀ ⦃b⦄, keys e.1 = some b → b.Filled P ∧ b.Tidy)
    (he : ∀ e ∈ entries, ∀ ⦃b⦄, node e.2 = some b → b.Filled P ∧ b.Tidy)
    (h : Node.joinPairs keys (entries.map fun e => (e.1, node e.2)) = some docs) :
    ∀ d ∈ docs, ∀ part ∈ d.parts, P part := by
  induction entries generalizing docs with
  | nil =>
    cases h
    exact nofun
  | cons e entries ih =>
    obtain ⟨hkey, hkeys⟩ := List.forall_mem_cons.1 hk
    obtain ⟨hfirst, hrest⟩ := List.forall_mem_cons.1 he
    simp only [List.map_cons, Node.joinPairs, Option.bind_eq_some_iff, Option.map_eq_some_iff] at h
    obtain ⟨k, hk, b, hb, docs, hd, rfl⟩ := h
    obtain ⟨hkfilled, hktidy⟩ := hkey hk
    obtain ⟨hfilled, htidy⟩ := hfirst hb
    have hentry : ∀ part ∈ (Json.object [(keyField, k.close), (valueField, b.close)]).parts, P part :=
      Json.forall_parts_object.2 ⟨hP.object (by simp [Fields.names, keyField, valueField]),
        List.forall_mem_cons.2 ⟨hkfilled.close hP hktidy, List.forall_mem_singleton.2 (hfilled.close hP htidy)⟩⟩
    exact List.forall_mem_cons.2 ⟨hentry, ih hkeys hrest hd⟩

theorem filled_of_joinFields (hP : Json.Allows P) {declared : List Field} {items : List ι}
    (hi : ∀ i ∈ items, ∀ ⦃b⦄, node i = some b → b.Filled P ∧ b.Tidy)
    (h : Node.joinFields declared (items.map node) = some b) : b.Filled P := by
  induction items generalizing declared b with
  | nil =>
    cases declared <;> cases h <;> trivial
  | cons i items ih =>
    cases declared with
    | nil =>
      cases h
      trivial
    | cons field declared =>
      obtain ⟨hfirst, hrest⟩ := List.forall_mem_cons.1 hi
      simp only [List.map_cons, Node.joinFields, Option.bind_eq_some_iff] at h
      obtain ⟨c, hc, r, hr, hm⟩ := h
      refine Node.Filled.merge ?_ (ih hrest hr) hm
      cases hmode : field.mode <;> simp only [Node.asField, hmode] at hc
      case skipped =>
        cases hc
        trivial
      case flattened => exact (hfirst hc).1
      all_goals
        obtain ⟨n, hn, rfl⟩ := Option.map_eq_some_iff.1 hc
        exact (hfirst hn).1.field hP (hfirst hn).2 field.name

end Parts

theorem filled_of_writtenBehind (hP : Json.Allows P) {declared : Target} {item : Value} {whole shown : Option Node}
    {b : Node} (hw : ∀ ⦃c⦄, whole = some c → c.Filled P) (hs : ∀ ⦃c⦄, shown = some c → c.Filled P)
    (h : env.writtenBehind declared item whole shown = some b) : b.Filled P := by
  have tagged {n? : Option Node} (hn : ∀ ⦃c⦄, n? = some c → c.Filled P) {tag : String}
      (h : n?.bind (tagNode tag).merge = some b) : b.Filled P := by
    obtain ⟨c, hc, hm⟩ := Option.bind_eq_some_iff.1 h
    exact (filled_tagNode hP tag).merge (hn hc) hm
  unfold writtenBehind at h
  split at h
  · split at h
    · exact tagged hw h
    · split at h
      · split at h
        · exact tagged hw h
        · cases h
      · split at h
        · exact tagged hs h
        · cases h
  · exact hw h

theorem filled_of_written (hP : Json.Allows P) {v : Value} {b : Node} (hv : Yields P (env.schema.atoms v))
    (h : env.written v = some b) : b.Filled P := by
  induction v using env.schema.inductOn generalizing b with
  | atom a =>
    obtain ⟨d, hd, rfl⟩ := leafJson_of_written h
    exact parts_of_leafJson (hv a List.mem_cons_self) hd
  | absent =>
    cases h
    exact List.forall_mem_singleton.2 hP.null
  | present item ih =>
    rw [written_present] at h
    rw [Schema.atoms, Schema.fold_present] at hv
    exact ih hv h
  | list items ih =>
    rw [written_list] at h
    rw [Schema.atoms, Schema.fold_list] at hv
    obtain ⟨docs, hd, rfl⟩ := Option.map_eq_some_iff.1 h
    exact parts_of_joinItems hP (fun i hi b hb => ⟨ih i hi (Yields.items hv hi) hb, tidy_of_written hb⟩) hd
  | map key entries ih =>
    rw [written_map] at h
    rw [Schema.atoms, Schema.fold_map] at hv
    have hentry : ∀ e ∈ entries, Yields P (e.1 :: env.schema.atoms e.2) := fun e he a ha =>
      hv a (List.mem_flatMap.2 ⟨_, List.mem_map_of_mem he, ha⟩)
    have hvalue : ∀ e ∈ entries, ∀ ⦃b⦄, env.written e.2 = some b → b.Filled P ∧ b.Tidy := fun e he b hb =>
      ⟨ih e he (fun a ha => hentry e he a (List.mem_cons_of_mem _ ha)) hb, tidy_of_written hb⟩
    split at h
    · exact filled_of_joinNamed hP hvalue h
    · obtain ⟨docs, hd, rfl⟩ := Option.map_eq_some_iff.1 h
      have hkey : ∀ e ∈ entries, ∀ ⦃b⦄, env.written (.atom e.1) = some b → b.Filled P ∧ b.Tidy := by
        intro e he b hb
        refine ⟨?_, tidy_of_written hb⟩
        obtain ⟨d, hd, rfl⟩ := leafJson_of_written hb
        exact parts_of_leafJson (hentry e he e.1 List.mem_cons_self) hd
      exact parts_of_joinPairs hP hkey hvalue hd
  | record name fields ih =>
    rw [written_record] at h
    rw [Schema.atoms, Schema.fold_record] at hv
    exact filled_of_joinFields hP (fun i hi b hb => ⟨ih i hi (Yields.items hv hi) hb, tidy_of_written hb⟩) h
  | ref declared item ih hshown =>
    rw [written_ref] at h
    rw [Schema.atoms, Schema.fold_ref] at hv
    obtain ⟨hwhole, hpart⟩ := Yields.append.1 hv
    refine filled_of_writtenBehind hP (fun c hc => ih hwhole hc) (fun c hc => ?_) h
    unfold writtenShown at hc
    cases hp : env.schema.shown? declared item with
    | none =>
      rw [hp] at hc
      cases hc
      trivial
    | some part =>
      rw [hp] at hc hpart
      exact hshown part hp hpart hc

theorem parts_of_toJson (hP : Json.Allows P) {v : Value} {d : Json} (hv : Yields P (env.schema.atoms v))
    (h : (env.toJson v).result = .ok d) : ∀ part ∈ d.parts, P part := by
  obtain ⟨b, hb, rfl⟩ := env.written_of_toJson h
  exact (filled_of_written hP hv hb).close hP (tidy_of_written hb)

theorem valid_of_toJson {v : Value} {d : Json} (hv : env.schema.Typed v) (h : (env.toJson v).result = .ok d) :
    d.Valid :=
  parts_of_toJson ⟨trivial, fun _ => trivial, fun _ => trivial, id⟩ (fun a ha _ => proper_leafJson (hv a ha)) h

theorem floatFree_of_toJson {v : Value} {d : Json} (hv : env.schema.FloatFree v) (h : (env.toJson v).result = .ok d) :
    d.FloatFree :=
  parts_of_toJson (P := fun part => part.isFloat = false) ⟨rfl, fun _ => rfl, fun _ => rfl, fun _ => rfl⟩
    (fun a ha _ => isFloat_leafJson (hv a ha)) h

end Saving

end Archivist
