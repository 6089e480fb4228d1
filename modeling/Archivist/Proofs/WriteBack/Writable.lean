import Archivist.Proofs.RoundTrip.Records
import Archivist.Proofs.RoundTrip.Shape

/-!
Which values can be written. Main statements: the single-precision numbers that a written value writes
are finite, and a value is written if its parts are and no two of them write one name into one node.
-/

set_option autoImplicit false

namespace Archivist

def Atom.singles : Atom → List Binary
  | .float .single x => [x]
  | _ => []

namespace Value

variable (S : Schema)

mutual

/-- The single-precision numbers that a value writes. What stands behind tags is left out. -/
def singles : Value → List Binary
  | .atom a => a.singles
  | .absent => []
  | .present item => singles item
  | .list items => singlesOfItems items
  | .map _ entries => singlesOfEntries entries
  | .record name fields => singlesOfFields (S.fieldsOf name) fields
  | .ref declared item => if S.isPolymorphic declared then [] else singles item

def singlesOfItems : List Value → List Binary
  | [] => []
  | item :: rest => singles item ++ singlesOfItems rest

def singlesOfEntries : List (Atom × Value) → List Binary
  | [] => []
  | (key, item) :: rest => key.singles ++ singles item ++ singlesOfEntries rest

def singlesOfFields (declared : List Field) : List Value → List Binary
  | [] => []
  | item :: rest =>
    match declared with
    | [] => []
    | field :: declared =>
      if field.mode = .skipped then singlesOfFields declared rest
      else singles item ++ singlesOfFields declared rest

end

/-- No single-precision number that the value writes is infinite or not a number. -/
def SinglesFinite (v : Value) : Prop := ∀ x ∈ v.singles S, x.isFinite = true

instance (v : Value) : Decidable (v.SinglesFinite S) :=
  inferInstanceAs (Decidable (∀ x ∈ v.singles S, x.isFinite = true))

theorem singlesOfItems_eq (items : List Value) : singlesOfItems S items = items.flatMap (singles S) := by
  induction items with
  | nil => rfl
  | cons item rest ih => rw [singlesOfItems, ih, List.flatMap_cons]

theorem singlesOfEntries_eq (entries : List (Atom × Value)) :
    singlesOfEntries S entries = entries.flatMap fun e => e.1.singles ++ e.2.singles S := by
  induction entries with
  | nil => rfl
  | cons entry rest ih => rw [singlesOfEntries, ih, List.flatMap_cons]

theorem singlesFinite_list {items : List Value} :
    (list items).SinglesFinite S ↔ ∀ item ∈ items, item.SinglesFinite S := by
  rw [SinglesFinite, singles, singlesOfItems_eq, List.forall_mem_flatMap]
  rfl

theorem singlesFinite_map {key : KeyTy} {entries : List (Atom × Value)} :
    (map key entries).SinglesFinite S ↔
      ∀ e ∈ entries, (atom e.1).SinglesFinite S ∧ e.2.SinglesFinite S := by
  simp only [SinglesFinite, singles, singlesOfEntries_eq, List.forall_mem_flatMap, List.forall_mem_append]

theorem singlesFinite_ref {declared : Target} {item : Value} (h : S.isPolymorphic declared = false) :
    (ref declared item).SinglesFinite S ↔ item.SinglesFinite S := by
  simp only [SinglesFinite, singles, h, Bool.false_eq_true, ↓reduceIte]

end Value

theorem Writer.Node.merge_of_apart {a b : Node} {fields others : Fields} (ha : a.fields? = some fields)
    (hb : b.fields? = some others) (h : ∀ name ∈ others.names, name ∉ fields.names) :
    ∃ c, a.merge b = some c ∧ c.fields? = some (fields ++ others) := by
  have hm : ∃ c, a.merge b = some c := by
    cases a with
    | pending => exact ⟨b, rfl⟩
    | object fs =>
      cases ha
      cases b with
      | pending => exact ⟨_, rfl⟩
      | object gs =>
        cases hb
        exact ⟨_, by rw [merge_object, if_pos (Fields.apart_iff.2 h)]⟩
      | array items => cases hb
      | leaf value => cases hb
    | array items => cases ha
    | leaf value => cases ha
  exact hm.imp fun c hc => ⟨hc, fields?_of_merge ha hb hc⟩

namespace Saving

open Writer

variable {env : Saving}

theorem singlesFinite_of_leafJson {a : Atom} {d : Json} (h : leafJson a.leaf = .ok d) :
    ∀ x ∈ a.singles, x.isFinite = true := by
  cases a with
  | float width x =>
    simp only [Atom.leaf, leafJson] at h
    split at h
    · cases width <;> simp [Atom.singles, *]
    · cases h
  | _ => simp [Atom.singles]

theorem exists_written_of_writtenField {field : Field} {v : Value} {c : Node} (hm : ¬ field.mode = .skipped)
    (h : env.writtenField field v = some c) : ∃ b, env.written v = some b := by
  unfold writtenField Node.asField at h
  split at h
  · exact absurd ‹_› hm
  · exact ⟨c, h⟩
  · exact (Option.map_eq_some_iff.1 h).imp fun _ => And.left
  · exact (Option.map_eq_some_iff.1 h).imp fun _ => And.left

mutual

theorem singlesFinite_of_written {v : Value} {b : Node} (h : env.written v = some b) :
    ∀ x ∈ v.singles env.schema, x.isFinite = true := by
  match v with
  | .atom a =>
    obtain ⟨d, hd, -⟩ := leafJson_of_written h
    exact singlesFinite_of_leafJson hd
  | .absent => simp [Value.singles]
  | .present item =>
    rw [Value.singles]
    rw [written_present] at h
    exact singlesFinite_of_written h
  | .list items =>
    rw [Value.singles]
    rw [written_list] at h
    obtain ⟨docs, hd, -⟩ := Option.map_eq_some_iff.1 h
    exact singlesFinite_of_writtenItems hd
  | .map key entries =>
    rw [Value.singles]
    rw [written_map] at h
    split at h
    · exact singlesFinite_of_writtenNamed h
    · obtain ⟨docs, hd, -⟩ := Option.map_eq_some_iff.1 h
      exact singlesFinite_of_writtenEntries hd
  | .record name fields =>
    rw [Value.singles]
    rw [written_record] at h
    exact singlesFinite_of_writtenFields h
  | .ref declared item =>
    rw [Value.singles]
    split
    · simp
    · rw [written_ref, writtenBehind, if_neg ‹_›] at h
      exact singlesFinite_of_written h

theorem singlesFinite_of_writtenItems {items : List Value} {docs : List Json}
    (h : env.writtenItems items = some docs) :
    ∀ x ∈ Value.singlesOfItems env.schema items, x.isFinite = true := by
  match items with
  | [] => simp [Value.singlesOfItems]
  | item :: rest =>
    rw [Value.singlesOfItems]
    obtain ⟨b, hb, h⟩ := Option.bind_eq_some_iff.1 h
    obtain ⟨docs, hd, -⟩ := Option.map_eq_some_iff.1 h
    exact List.forall_mem_append.2 ⟨singlesFinite_of_written hb, singlesFinite_of_writtenItems hd⟩

theorem singlesFinite_of_writtenNamed {key : KeyTy} {entries : List (Atom × Value)} {b : Node}
    (h : env.writtenNamed key entries = some b) :
    ∀ x ∈ Value.singlesOfEntries env.schema entries, x.isFinite = true := by
  match entries with
  | [] => simp [Value.singlesOfEntries]
  | (.text text, item) :: rest =>
    rw [Value.singlesOfEntries]
    simp only [writtenNamed_cons, Option.bind_eq_some_iff] at h
    obtain ⟨name, -, c, hc, m, hm, -⟩ := h
    exact List.forall_mem_append.2 ⟨singlesFinite_of_written hc, singlesFinite_of_writtenNamed hm⟩
  | (.bool _, _) :: _ | (.char _, _) :: _ | (.int _ _, _) :: _ | (.float _ _, _) :: _ => cases h

theorem singlesFinite_of_writtenEntries {entries : List (Atom × Value)} {docs : List Json}
    (h : env.writtenEntries entries = some docs) :
    ∀ x ∈ Value.singlesOfEntries env.schema entries, x.isFinite = true := by
  match entries with
  | [] => simp [Value.singlesOfEntries]
  | (key, item) :: rest =>
    rw [Value.singlesOfEntries]
    simp only [writtenEntries_cons, Option.bind_eq_some_iff, Option.map_eq_some_iff] at h
    obtain ⟨k, hk, b, hb, docs, hd, -⟩ := h
    exact List.forall_mem_append.2 ⟨List.forall_mem_append.2
      ⟨singlesFinite_of_leafJson (leafJson_eq_ok hk), singlesFinite_of_written hb⟩,
      singlesFinite_of_writtenEntries hd⟩

theorem singlesFinite_of_writtenFields {declared : List Field} {items : List Value} {b : Node}
    (h : env.writtenFields declared items = some b) :
    ∀ x ∈ Value.singlesOfFields env.schema declared items, x.isFinite = true := by
  match items, declared with
  | [], _ => simp [Value.singlesOfFields]
  | item :: rest, [] => simp [Value.singlesOfFields]
  | item :: rest, field :: declared =>
    rw [Value.singlesOfFields]
    simp only [writtenFields_cons, Option.bind_eq_some_iff] at h
    obtain ⟨c, hc, r, hrest, -⟩ := h
    have ih := singlesFinite_of_writtenFields hrest
    split
    · exact ih
    · obtain ⟨n, hn⟩ := exists_written_of_writtenField ‹_› hc
      exact List.forall_mem_append.2 ⟨singlesFinite_of_written hn, ih⟩

end

theorem isOk_toJson_iff {v : Value} : (env.toJson v).result.isOk = true ↔ ∃ b, env.written v = some b := by
  constructor
  · intro h
    cases hd : (env.toJson v).result with
    | error e =>
      rw [hd] at h
      cases h
    | ok d => exact (env.written_of_toJson hd).imp fun _ => And.left
  · rintro ⟨b, hb⟩
    rw [env.toJson_of_written hb]
    rfl

theorem isOk_toText (indented : Bool) (v : Value) :
    (env.toText indented v).result.isOk = (env.toJson v).result.isOk := by
  rw [toText]
  cases (env.toJson v).result <;> rfl

/-- The value can be written unless there is a single-precision number in it that is not finite. -/
def Writable (env : Saving) (v : Value) : Prop :=
  v.SinglesFinite env.schema → ∃ b, env.written v = some b

theorem writable_list {items : List Value} (h : ∀ item ∈ items, env.Writable item) :
    env.Writable (.list items) := by
  intro hfinite
  rw [Value.singlesFinite_list] at hfinite
  have hitems : ∃ docs, env.writtenItems items = some docs := by
    induction items with
    | nil => exact ⟨[], rfl⟩
    | cons item rest ih =>
      obtain ⟨hitem, hrest⟩ := List.forall_mem_cons.1 h
      obtain ⟨b, hb⟩ := hitem (hfinite item List.mem_cons_self)
      obtain ⟨docs, hd⟩ := ih hrest fun other hm => hfinite other (List.mem_cons_of_mem _ hm)
      exact ⟨b.close :: docs, by simp [hb, hd]⟩
  obtain ⟨docs, hd⟩ := hitems
  exact ⟨.array docs, by simp [hd]⟩

theorem writable_elements {type : AtomTy} {entries : Entries}
    (h : ∀ e ∈ entries, env.Writable (.atom e.1) ∧ env.Writable e.2) :
    env.Writable (.map (.atom type) entries) := by
  intro hfinite
  rw [Value.singlesFinite_map] at hfinite
  have hentries : ∃ docs, env.writtenEntries entries = some docs := by
    induction entries with
    | nil => exact ⟨[], rfl⟩
    | cons entry rest ih =>
      obtain ⟨key, item⟩ := entry
      obtain ⟨⟨hkey, hitem⟩, hrest⟩ := List.forall_mem_cons.1 h
      obtain ⟨⟨hfkey, hfitem⟩, hfrest⟩ := List.forall_mem_cons.1 hfinite
      obtain ⟨k, hk⟩ := hkey hfkey
      obtain ⟨d, hd, -⟩ := leafJson_of_written hk
      obtain ⟨b, hb⟩ := hitem hfitem
      obtain ⟨docs, hdocs⟩ := ih hrest hfrest
      exact ⟨.object [(keyField, d), (valueField, b.close)] :: docs, by simp [hd, Except.toOption, hb, hdocs]⟩
  obtain ⟨docs, hd⟩ := hentries
  exact ⟨.array docs, by simp [KeyTy.isTextual, hd]⟩

theorem written_named {entries : Entries} (h : ∀ e ∈ entries, (∃ name, e.1 = .text name) ∧ env.Writable e.2)
    (nodup : (entries.map Prod.fst).Nodup) (hfinite : (Value.map .text entries).SinglesFinite env.schema) :
    ∃ b fields, env.written (.map .text entries) = some b ∧ b.fields? = some fields ∧
      fields.names.map Atom.text = entries.map Prod.fst := by
  have hnamed : ∃ b fields, env.writtenNamed .text entries = some b ∧ b.fields? = some fields ∧
      fields.names.map Atom.text = entries.map Prod.fst := by
    rw [Value.singlesFinite_map] at hfinite
    induction entries with
    | nil => exact ⟨.pending, [], rfl, rfl, rfl⟩
    | cons entry rest ih =>
      obtain ⟨key, item⟩ := entry
      obtain ⟨⟨⟨name, rfl⟩, hitem⟩, hrest⟩ := List.forall_mem_cons.1 h
      obtain ⟨⟨-, hfitem⟩, hfrest⟩ := List.forall_mem_cons.1 hfinite
      obtain ⟨hname, hnodup⟩ := List.nodup_cons.1 nodup
      obtain ⟨b, hb⟩ := hitem hfitem
      obtain ⟨r, fields, hr, hfields, hnames⟩ := ih hrest hnodup hfrest
      have hnew : ∀ other ∈ fields.names, other ∉ Fields.names [(name, b.close)] := by
        intro other hm hother
        cases List.mem_singleton.1 hother
        exact hname (hnames ▸ List.mem_map_of_mem hm)
      obtain ⟨c, hc, hcfields⟩ := Node.merge_of_apart (a := .field name b) rfl hfields hnew
      refine ⟨c, _, ?_, hcfields, ?_⟩
      · simp [Schema.fieldName?, Schema.toField?, hb, hr, hc]
      · simp [Fields.names, ← hnames]
  obtain ⟨b, fields, hb, hrest⟩ := hnamed
  exact ⟨b, fields, by simp [KeyTy.isTextual, hb], hrest⟩

end Saving

end Archivist
