import Mathlib.Data.List.Forall2
import Archivist.Document
import Archivist.Proofs.Loading.Principle

/-!
What a value writes, told apart from the archive it is written to: the node that comes of writing it into
an untouched one. Nodes are put together by `merge`, which is associative.
-/

set_option autoImplicit false

namespace Archivist

namespace Fields

/-- No name of the second fields occurs among the first. -/
def apart (fields others : Fields) : Bool := others.all fun (name, _) => !fields.has name

theorem has_iff {fields : Fields} {name : String} : fields.has name = true ↔ name ∈ fields.names := by
  simp [has, names]

theorem apart_iff {fields others : Fields} :
    fields.apart others = true ↔ ∀ name ∈ others.names, name ∉ fields.names := by
  constructor
  · intro h name hm hn
    obtain ⟨entry, he, rfl⟩ := List.mem_map.1 hm
    have := List.all_eq_true.1 h entry he
    simp [has_iff.2 hn] at this
  · intro h
    refine List.all_eq_true.2 fun entry he => ?_
    have := h entry.1 (List.mem_map_of_mem he)
    simpa [← has_iff] using this

theorem names_append (fields others : Fields) : names (fields ++ others) = fields.names ++ others.names :=
  List.map_append

theorem apart_append_left (fields more others : Fields) :
    apart (fields ++ more) others = (fields.apart others && more.apart others) := by
  rw [Bool.eq_iff_iff, Bool.and_eq_true, apart_iff, apart_iff, apart_iff]
  simp only [names_append, List.mem_append, not_or]
  exact ⟨fun h => ⟨fun name hm => (h name hm).1, fun name hm => (h name hm).2⟩,
    fun h name hm => ⟨h.1 name hm, h.2 name hm⟩⟩

theorem apart_append_right (fields others more : Fields) :
    fields.apart (others ++ more) = (fields.apart others && fields.apart more) := List.all_append

end Fields

namespace Writer.Node

/-- What a node holds if a second thing is written into it after a first. -/
def merge : Node → Node → Option Node
  | .pending, b => some b
  | a, .pending => some a
  | .object fields, .object others =>
    if fields.apart others then some (.object (fields ++ others)) else none
  | _, _ => none

def field (name : String) (content : Node) : Node := .object [(name, content.close)]

/-- The fields of a node that is an object or will be closed as one. -/
def fields? : Node → Option Fields
  | .pending => some []
  | .object fields => some fields
  | _ => none

def Tidy (n : Node) : Prop := ∀ fields, n.fields? = some fields → fields.names.Nodup

@[simp] theorem merge_pending (n : Node) : n.merge .pending = some n := by cases n <;> rfl

@[simp] theorem pending_merge (n : Node) : Node.pending.merge n = some n := rfl

@[simp] theorem bind_pending_merge (n? : Option Node) : n?.bind Node.pending.merge = n? := by
  cases n? <;> rfl

theorem merge_object {fields others : Fields} :
    (Node.object fields).merge (.object others) =
      if fields.apart others then some (.object (fields ++ others)) else none := rfl

theorem merge_cases {a b c : Node} (h : a.merge b = some c) :
    a = .pending ∧ c = b ∨ b = .pending ∧ c = a ∨
    ∃ fields others, a = .object fields ∧ b = .object others ∧ c = .object (fields ++ others) ∧
      fields.apart others = true := by
  cases a with
  | pending => exact .inl ⟨rfl, by simpa using h.symm⟩
  | object fields =>
    cases b with
    | pending => exact .inr (.inl ⟨rfl, by simpa using h.symm⟩)
    | object others =>
      rw [merge_object] at h
      split at h
      · cases h
        exact .inr (.inr ⟨fields, others, rfl, rfl, rfl, by assumption⟩)
      · cases h
    | array items => cases h
    | leaf value => cases h
  | array items =>
    cases b with
    | pending => exact .inr (.inl ⟨rfl, by simpa using h.symm⟩)
    | _ => cases h
  | leaf value =>
    cases b with
    | pending => exact .inr (.inl ⟨rfl, by simpa using h.symm⟩)
    | _ => cases h

/-- It makes no difference in which two parts three things are written. -/
theorem merge_assoc (n b c : Node) : (n.merge b).bind (·.merge c) = (b.merge c).bind n.merge := by
  cases n with
  | pending => simp
  | object fs =>
    cases b with
    | pending => simp
    | object gs =>
      cases c with
      | pending => simp
      | object hs =>
        cases hfg : fs.apart gs <;> cases hgh : gs.apart hs <;>
          simp [merge_object, hfg, hgh, Fields.apart_append_left, Fields.apart_append_right]
      | _ => cases hfg : fs.apart gs <;> simp [merge, hfg]
    | _ => cases c <;> simp [merge]
  | _ =>
    -- nothing can follow a leaf or an array, also not two objects merged
    cases b with
    | object gs =>
      cases c with
      | object hs => cases hgh : gs.apart hs <;> simp [merge, hgh]
      | _ => simp [merge]
    | _ => cases c <;> simp [merge]

theorem tidy_field (name : String) (content : Node) : (field name content).Tidy := by
  intro fields h
  cases h
  simp [Fields.names]

theorem Tidy.merge {a b c : Node} (ha : a.Tidy) (hb : b.Tidy) (h : a.merge b = some c) : c.Tidy := by
  obtain ⟨rfl, rfl⟩ | ⟨rfl, rfl⟩ | ⟨fs, gs, rfl, rfl, rfl, hd⟩ := merge_cases h
  · exact hb
  · exact ha
  · intro fields hf
    cases hf
    rw [Fields.names_append, List.nodup_append]
    refine ⟨ha fs rfl, hb gs rfl, fun x hx y hy hxy => ?_⟩
    subst hxy
    exact Fields.apart_iff.1 hd x hy hx

end Writer.Node

namespace Writer.Node

variable {κ : Type}

def joinItems : List (Option Node) → Option (List Json)
  | [] => some []
  | b? :: rest => b?.bind fun b => (joinItems rest).map (b.close :: ·)

def joinNamed (toField : κ → Option String) : List (κ × Option Node) → Option Node
  | [] => some .pending
  | (k, b?) :: rest =>
    (toField k).bind fun name => b?.bind fun b => (joinNamed toField rest).bind (field name b).merge

def joinPairs (keys : κ → Option Node) : List (κ × Option Node) → Option (List Json)
  | [] => some []
  | (k, b?) :: rest =>
    (keys k).bind fun key => b?.bind fun b =>
      (joinPairs keys rest).map (.object [(keyField, key.close), (valueField, b.close)] :: ·)

def asField (f : Field) (b? : Option Node) : Option Node :=
  match f.mode with
  | .skipped => some .pending
  | .flattened => b?
  | .required | .optional => b?.map (field f.name)

def joinFields : List Field → List (Option Node) → Option Node
  | f :: declared, b? :: rest => (asField f b?).bind fun c => (joinFields declared rest).bind c.merge
  | _, _ => some .pending

theorem merge_entry (key b : Node) :
    (field keyField key).merge (field valueField b) =
      some (.object [(keyField, key.close), (valueField, b.close)]) := rfl

def ofFields : Fields → Node
  | [] => .pending
  | field :: fields => .object (field :: fields)

@[simp] theorem fields?_ofFields (fields : Fields) : (ofFields fields).fields? = some fields := by
  cases fields <;> rfl

theorem field_merge_ofFields {name : String} {b c : Node} {rest : Fields} :
    (field name b).merge (ofFields rest) = some c ↔ name ∉ rest.names ∧ c = ofFields ((name, b.close) :: rest) := by
  cases rest with
  | nil => simp [ofFields, field, Fields.names, eq_comm]
  | cons entry rest =>
    have happart : Fields.apart [(name, b.close)] (entry :: rest) = true ↔ name ∉ Fields.names (entry :: rest) := by
      rw [Fields.apart_iff]
      refine ⟨fun h hm => h name hm List.mem_cons_self, fun h other hm hname => ?_⟩
      cases List.mem_singleton.1 hname
      exact h hm
    rw [field, ofFields, merge_object, ← happart]
    by_cases ha : Fields.apart [(name, b.close)] (entry :: rest) = true
    · rw [if_pos ha, Option.some_inj]
      exact ⟨fun h => ⟨ha, h.symm⟩, fun h => h.2.symm⟩
    · rw [if_neg ha]
      refine ⟨fun h => ?_, fun h => absurd h.1 ha⟩
      cases h

theorem joinNamed_eq_some {toField : κ → Option String} {entries : List (κ × Option Node)} {b : Node} :
    joinNamed toField entries = some b ↔ ∃ fields : Fields, fields.names.Nodup ∧ b = ofFields fields ∧
      List.Forall₂ (fun e f => toField e.1 = some f.1 ∧ ∃ c, e.2 = some c ∧ f.2 = c.close) entries fields := by
  induction entries generalizing b with
  | nil =>
    constructor
    · intro h
      cases h
      exact ⟨[], List.nodup_nil, rfl, .nil⟩
    · rintro ⟨fields, -, rfl, hz⟩
      cases hz
      rfl
  | cons entry entries ih =>
    simp only [joinNamed, Option.bind_eq_some_iff]
    constructor
    · rintro ⟨name, hname, c, hc, r, hr, hm⟩
      obtain ⟨rest, hnodup, rfl, hrest⟩ := ih.1 hr
      obtain ⟨hnew, rfl⟩ := field_merge_ofFields.1 hm
      exact ⟨(name, c.close) :: rest, List.nodup_cons.2 ⟨hnew, hnodup⟩, rfl, .cons ⟨hname, c, hc, rfl⟩ hrest⟩
    · rintro ⟨fields, hnodup, rfl, hz⟩
      cases hz with
      | @cons _ field _ rest hfield hrest =>
        obtain ⟨name, d⟩ := field
        obtain ⟨hname, c, hc, hd⟩ := hfield
        cases hd
        obtain ⟨hnew, hnodup⟩ := List.nodup_cons.1 hnodup
        exact ⟨name, hname, c, hc, _, ih.2 ⟨rest, hnodup, rfl, hrest⟩, field_merge_ofFields.2 ⟨hnew, rfl⟩⟩

end Writer.Node

namespace Saving

open Writer

variable (env : Saving)

def tagNode (tag : String) : Node := .field tagField (.leaf (.string tag))

def leafNode (leaf : Leaf) : Option Node := (leafJson leaf).toOption.map .leaf

def writtenBehind (declared : Target) (item : Value) (whole shown : Option Node) : Option Node :=
  if env.schema.isPolymorphic declared then
    if item.target? = some declared then whole.bind (tagNode (env.schema.tag declared)).merge
    else
      match item.target?.bind (env.registry.output? env.archive) with
      | some binding =>
        if item.target? = some binding.bound then whole.bind (tagNode binding.tag).merge else none
      | none =>
        match env.unknownTypes with
        | .sentinel => shown.bind (tagNode unknownTag).merge
        | .reject => none
  else whole

def nodes : Value.Algebra (Option Node) where
  atom a := leafNode a.leaf
  absent := some (.leaf .null)
  present item := item
  list items := (Node.joinItems items).map .array
  map key entries :=
    if key.isTextual then Node.joinNamed (env.schema.fieldName? key) entries
    else (Node.joinPairs (fun k => leafNode k.leaf) entries).map .array
  record name fields := Node.joinFields (env.schema.fieldsOf name) fields
  ref declared item whole shown? := env.writtenBehind declared item whole (shown?.getD (some .pending))

/-- What a value writes into an untouched node, unless it cannot be written. -/
def written (v : Value) : Option Node := env.schema.fold env.nodes v

def writtenItems (items : List Value) : Option (List Json) := Node.joinItems (items.map env.written)

def writtenNamed (key : KeyTy) (entries : List (Atom × Value)) : Option Node :=
  Node.joinNamed (env.schema.fieldName? key) (entries.map fun e => (e.1, env.written e.2))

def writtenEntries (entries : List (Atom × Value)) : Option (List Json) :=
  Node.joinPairs (fun k => leafNode k.leaf) (entries.map fun e => (e.1, env.written e.2))

def writtenFields (declared : List Field) (items : List Value) : Option Node :=
  Node.joinFields declared (items.map env.written)

def writtenField (field : Field) (item : Value) : Option Node := Node.asField field (env.written item)

def writtenShown (declared : Target) (item : Value) : Option Node :=
  ((env.schema.shown? declared item).map env.written).getD (some .pending)

@[simp] theorem written_atom (a : Atom) : env.written (.atom a) = leafNode a.leaf := rfl

@[simp] theorem written_absent : env.written .absent = some (.leaf .null) := rfl

@[simp] theorem written_present (item : Value) : env.written (.present item) = env.written item :=
  Schema.fold_present item

@[simp] theorem written_list (items : List Value) : env.written (.list items) = (env.writtenItems items).map .array :=
  Schema.fold_list items

@[simp] theorem written_map (key : KeyTy) (entries : List (Atom × Value)) :
    env.written (.map key entries) =
      if key.isTextual then env.writtenNamed key entries else (env.writtenEntries entries).map .array :=
  Schema.fold_map key entries

@[simp] theorem written_record (name : String) (fields : List Value) :
    env.written (.record name fields) = env.writtenFields (env.schema.fieldsOf name) fields :=
  Schema.fold_record name fields

@[simp] theorem written_ref (declared : Target) (item : Value) :
    env.written (.ref declared item) =
      env.writtenBehind declared item (env.written item) (env.writtenShown declared item) :=
  Schema.fold_ref declared item

@[simp] theorem writtenItems_cons (item : Value) (rest : List Value) :
    env.writtenItems (item :: rest) = (env.written item).bind fun b => (env.writtenItems rest).map (b.close :: ·) := rfl

@[simp] theorem writtenNamed_cons (key : KeyTy) (k : Atom) (item : Value) (rest : List (Atom × Value)) :
    env.writtenNamed key ((k, item) :: rest) =
      (env.schema.fieldName? key k).bind fun name => (env.written item).bind fun b =>
        (env.writtenNamed key rest).bind (Node.field name b).merge := rfl

@[simp] theorem writtenEntries_cons (k : Atom) (item : Value) (rest : List (Atom × Value)) :
    env.writtenEntries ((k, item) :: rest) =
      (leafJson k.leaf).toOption.bind fun doc => (env.written item).bind fun b =>
        (env.writtenEntries rest).map (.object [(keyField, doc), (valueField, b.close)] :: ·) :=
  Option.bind_map

@[simp] theorem writtenFields_nil (declared : List Field) : env.writtenFields declared [] = some .pending := by
  cases declared <;> rfl

@[simp] theorem writtenFields_cons (field : Field) (declared : List Field) (item : Value) (rest : List Value) :
    env.writtenFields (field :: declared) (item :: rest) =
      (env.writtenField field item).bind fun c => (env.writtenFields declared rest).bind c.merge := rfl

end Saving

end Archivist
