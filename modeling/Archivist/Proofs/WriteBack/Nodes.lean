import Archivist.Proofs.Loading.Success
import Archivist.Proofs.WriteBack.Writable

/-!
What loads leave behind for saving, one type former at a time: given that what is read below can be
written, so can the whole, and it writes no names into its node but those of its type or, where a map
takes what is left of the node, names that were found there.
-/

set_option autoImplicit false

namespace Archivist

namespace Schema

variable (S : Schema)

/-- `S.NodeName type name`: values of the type have a field of the name in their own node. -/
inductive NodeName : Ty → String → Prop where
  | own {record : String} {field : Field} (hf : field ∈ S.fieldsOf record)
    (hm : field.mode = .required ∨ field.mode = .optional) : NodeName (.record record) field.name
  | flattened {record name : String} {field : Field} (hf : field ∈ S.fieldsOf record)
    (hm : field.mode = .flattened) (h : NodeName field.type name) : NodeName (.record record) name
  | ref {kind : RefKind} {target : Target} {type : Ty} {name : String} (ht : target.ty? = some type)
    (h : NodeName type name) : NodeName (.ref kind target) name

/-- Values of the type take whatever fields are left of their node. -/
inductive Open : Ty → Prop where
  | map {kind : MapKind} {key : KeyTy} {item : Ty} (h : key.isTextual = true) : Open (.map kind key item)
  | flattened {record : String} {field : Field} (hf : field ∈ S.fieldsOf record)
    (hm : field.mode = .flattened) (h : Open field.type) : Open (.record record)
  | ref {kind : RefKind} {target : Target} {type : Ty} (ht : target.ty? = some type) (h : Open type) :
    Open (.ref kind target)

/-- The names that a field of a record has in the node of the record. -/
def FieldName (field : Field) (name : String) : Prop :=
  match field.mode with
  | .skipped => False
  | .flattened => S.NodeName field.type name
  | .required | .optional => name = field.name

def FieldOpen (field : Field) : Prop := field.mode = .flattened ∧ S.Open field.type

variable {S} {record name : String}

theorem nodeName_record : S.NodeName (.record record) name ↔ ∃ field ∈ S.fieldsOf record, S.FieldName field name := by
  constructor
  · intro h
    cases h with
    | own hf hm => exact ⟨_, hf, by rcases hm with hm | hm <;> simp [FieldName, hm]⟩
    | flattened hf hm h => exact ⟨_, hf, by simpa [FieldName, hm] using h⟩
  · rintro ⟨field, hf, h⟩
    unfold FieldName at h
    split at h
    · cases h
    · exact .flattened hf ‹_› h
    · exact h ▸ .own hf (.inl ‹_›)
    · exact h ▸ .own hf (.inr ‹_›)

theorem open_record : S.Open (.record record) ↔ ∃ field ∈ S.fieldsOf record, S.FieldOpen field := by
  constructor
  · rintro ⟨⟩
    exact ⟨_, ‹_›, ‹_›, ‹_›⟩
  · rintro ⟨field, hf, hm, h⟩
    exact .flattened hf hm h

end Schema

/-- Types whose values are replaced or emptied when they are loaded in place. -/
def Ty.isReplaced : Ty → Bool
  | .record _ | .array _ _ => false
  | _ => true

namespace Saving

open Attempt ReadState

variable (env : Saving)

/-- `env.Keepable type prior`: what loading in place may keep of the prior value can be written. -/
inductive Keepable : Ty → Value → Prop where
  | replaced {type : Ty} {prior : Value} (h : type.isReplaced = true) : Keepable type prior
  | array {item : Ty} {length : Nat} {priors : List Value} (hl : priors.length = length)
    (h : ∀ prior ∈ priors, Keepable item prior) : Keepable (.array item length) (.list priors)
  | record {name : String} {priors : List Value} (length : priors.length = (env.schema.fieldsOf name).length)
    (fields : ∀ x ∈ (env.schema.fieldsOf name).zip priors, x.1.mode ≠ .skipped → Keepable x.1.type x.2)
    (kept : ∀ x ∈ (env.schema.fieldsOf name).zip priors, x.1.mode = .optional →
      (env.toJson x.2).result.isOk = true) : Keepable (.record name) (.record name priors)

/-- What was written into the node of a value has the names of its type, or names that were there when
it was read. -/
def Joins (type : Ty) (n : Reader.Node) (b : Writer.Node) : Prop :=
  ∃ fields, b.fields? = some fields ∧ ∀ name ∈ fields.names,
    env.schema.NodeName type name ∨ env.schema.Open type ∧ name ∈ n.names

/-- `env.Returns type n v m`: a value of the type, read from the node `n` of which `m` is left, can be
written again. -/
structure Returns (type : Ty) (n : Reader.Node) (v : Value) (m : Reader.Node) : Prop where
  valid : m.Valid
  left : ∀ name ∈ m.names, name ∈ n.names ∧ ¬ env.schema.NodeName type name
  written : v.SinglesFinite env.schema →
    ∃ b, env.written v = some b ∧ (type.canFlatten = true → env.Joins type n b)

/-- What the step reads from valid nodes can be written again. -/
def Admits (type : Ty) (x : Attempt ReadState Value) : Prop :=
  ∀ ⦃s n outer⦄, s.reader = ⟨n :: outer⟩ → n.Valid →
    x.Assures s fun v t => ∃ m, t.reader = ⟨m :: outer⟩ ∧ env.Returns type n v m

def AdmitsInto (type : Ty) (x : Attempt (Slot Value) Unit) : Prop :=
  ∀ ⦃s n outer prior⦄, s.reader = ⟨n :: outer⟩ → n.Valid → env.Keepable type prior →
    x.Assures ⟨s, prior⟩ fun _ slot => ∃ m, slot.state.reader = ⟨m :: outer⟩ ∧ env.Returns type n slot.value m

variable {env} {type item : Ty} {n m : Reader.Node} {outer : List Reader.Node} {v prior : Value}
  {s : ReadState} {x : Attempt ReadState Value} {y : Attempt (Slot Value) Unit}

theorem Returns.writable (h : env.Returns type n v m) : env.Writable v :=
  fun hfinite => (h.written hfinite).imp fun _ => And.left

theorem Returns.apart (hm : m.Valid) (hnames : m.names = []) (hc : type.canFlatten = false)
    (h : env.Writable v) : env.Returns type n v m where
  valid := hm
  left name hname := absurd (hnames ▸ hname) List.not_mem_nil
  written hfinite := (h hfinite).imp fun _ hb => ⟨hb, fun ht => absurd ht (by simp [hc])⟩

theorem Admits.fail (e : Error) : env.Admits type (.fail e) := fun _ _ _ _ _ => .fail e

theorem AdmitsInto.fail (e : Error) : env.AdmitsInto type (.fail e) := fun _ _ _ _ _ _ _ => .fail e

theorem Admits.assign (h : env.Admits type x) : env.AdmitsInto type (Slot.assign x) :=
  fun _ _ _ _ hs hn _ => Slot.assign_assures (h hs hn)

theorem AdmitsInto.fresh (h : env.AdmitsInto type y) (hp : env.Keepable type prior) :
    env.Admits type (Slot.fresh prior y) :=
  fun _ _ _ hs hn => Slot.fresh_assures (h hs hn hp)

theorem Admits.below (h : env.Admits type x) ⦃t : ReadState⦄ ⦃d : Json⦄ ⦃inner : List Reader.Node⦄
    (ht : t.reader = ⟨.value d :: inner⟩) (hd : d.Valid) :
    x.Assures t fun v u => env.Writable v ∧ ∃ m, u.reader = ⟨m :: inner⟩ :=
  (h ht hd).mono fun _ _ ⟨m, hm, hr⟩ => ⟨hr.writable, m, hm⟩

section Leaves

theorem ty_of_readInt {kind : IntKind} {leaf : Leaf} {n : Int} {a : Atom}
    (h : AtomTy.readInt kind leaf n = .ok a) : a.ty = .int kind := by
  unfold AtomTy.readInt at h
  split at h <;> cases h
  rfl

theorem ty_of_read {type : AtomTy} {leaf : Leaf} {a : Atom} (h : type.read leaf = .ok a) : a.ty = type := by
  cases type with
  | int kind =>
    cases leaf with
    | int n => exact ty_of_readInt h
    | uint n => exact ty_of_readInt h
    | _ => cases h
  | char =>
    cases leaf with
    | text s =>
      rw [AtomTy.read] at h
      split at h <;> cases h
      rfl
    | _ => cases h
  | _ => cases leaf <;> cases h <;> rfl

theorem isFinite_of_read {d : Json} {leaf : Leaf} {x : Binary} (hd : d.Valid)
    (hl : Reader.leaf? d = some leaf) (hx : AtomTy.read (.float .double) leaf = .ok (.float .double x)) :
    x.isFinite = true := by
  have hproper := hd d d.mem_parts_self
  cases d with
  | int n =>
    cases hl
    have hn := Format.isFinite_double_ofInt hproper
    unfold Leaf.ofInt at hx
    split at hx
    · cases hx
      exact hn
    · cases hx
      have hnat : ((n.toNat : Nat) : Int) = n := by omega
      rw [hnat]
      exact hn
  | float y =>
    cases hl
    cases hx
    have heq := hproper.2.ofBinary_eq FloatWidth.double.minExponent_le
    exact heq.symm ▸ hproper.1
  | null => cases hl; cases hx
  | bool b => cases hl; cases hx
  | string s => cases hl; cases hx
  | array items => cases hl
  | object fields => cases hl

/-- A leaf of a valid document is read as an atom that can be written. Only a single-precision number
can have become infinite. -/
theorem writable_of_read {type : AtomTy} {d : Json} {leaf : Leaf} {a : Atom} (hd : d.Valid)
    (hl : Reader.leaf? d = some leaf) (ha : type.read leaf = .ok a) : env.Writable (.atom a) := by
  intro hfinite
  have hleaf : ∃ j, Writer.leafJson a.leaf = .ok j := by
    cases a with
    | float width x =>
      have hx : x.isFinite = true := by
        cases width with
        | single => exact hfinite x List.mem_cons_self
        | double =>
          obtain rfl := ty_of_read ha
          exact isFinite_of_read hd hl ha
      exact ⟨.float x, by rw [Atom.leaf, Writer.leafJson, if_pos hx]⟩
    | int kind n =>
      rw [Atom.leaf]
      split <;> exact ⟨_, rfl⟩
    | _ => exact ⟨_, rfl⟩
  obtain ⟨j, hj⟩ := hleaf
  exact ⟨.leaf j, by simp [leafNode, hj, Except.toOption]⟩

theorem readAtom_assures (env : Saving) (type : AtomTy) (hs : s.reader = ⟨n :: outer⟩) (hn : n.Valid) :
    (Loading.readAtom type).Assures s fun a t =>
      env.Writable (.atom a) ∧ t.reader = ⟨.value .null :: outer⟩ := by
  refine (onReader_assures hs Reader.readValue_assures).bind fun leaf t ht => ?_
  obtain ⟨d, rfl, hl, ht⟩ := ht
  split
  · exact .pure ⟨writable_of_read hn hl ‹_›, ht⟩
  · exact .fail _

theorem readAtom_below (env : Saving) (type : AtomTy) ⦃t : ReadState⦄ ⦃d : Json⦄ ⦃inner : List Reader.Node⦄
    (ht : t.reader = ⟨.value d :: inner⟩) (hd : d.Valid) :
    (Loading.readAtom type).Assures t fun a u => env.Writable (.atom a) ∧ ∃ m, u.reader = ⟨m :: inner⟩ :=
  (readAtom_assures env type ht hd).mono fun _ _ h => ⟨h.1, _, h.2⟩

theorem valid_null : (Reader.Node.value .null).Valid := Json.Proper.valid trivial rfl

theorem admits_atom (type : AtomTy) :
    env.Admits (.atom type) (do return .atom (← Loading.readAtom type)) := by
  intro s n outer hs hn
  refine (readAtom_assures env type hs hn).bind fun a t ht => .pure ⟨_, ht.2, ?_⟩
  exact .apart valid_null rfl rfl ht.1

theorem Admits.option (h : env.Admits item x) : env.Admits (.option item) (Loading.readOption x) := by
  intro s n outer hs hn
  refine (onReader_assures hs Reader.isNull_assures).bind fun null t ht => ?_
  split
  · refine (onReader_assures ht Reader.readValue_assures).bind fun leaf u hu => ?_
    obtain ⟨d, -, -, hu⟩ := hu
    exact .pure ⟨_, hu, .apart valid_null rfl rfl fun _ => ⟨_, rfl⟩⟩
  · refine (h ht hn).bind fun v u hu => ?_
    obtain ⟨m, hu, hr⟩ := hu
    refine .pure ⟨m, hu, hr.valid, fun name hm => ⟨(hr.left name hm).1, nofun⟩, fun hfinite => ?_⟩
    obtain ⟨b, hb, -⟩ := hr.written hfinite
    exact ⟨b, (env.written_present v).trans hb, nofun⟩

end Leaves

section Sequences

/-- The current node is an array, or what is left of one. -/
def InArray (outer : List Reader.Node) (s : ReadState) : Prop :=
  ∃ items length, (Reader.Node.array items length).Valid ∧ s.reader = ⟨.array items length :: outer⟩

theorem appendItems_assures (h : env.Admits item x) (count : Nat) {acc : List Value} (hs : InArray outer s)
    (hacc : ∀ v ∈ acc, env.Writable v) :
    (Loading.appendItems x count).Assures ⟨s, acc⟩ fun _ slot =>
      InArray outer slot.state ∧ ∀ v ∈ slot.value, env.Writable v := by
  induction count generalizing s acc with
  | zero => exact .pure ⟨hs, hacc⟩
  | succ count ih =>
    obtain ⟨items, length, hvalid, hs⟩ := hs
    refine (Slot.lift_assures (inElement_assures hs hvalid h.below)).bind fun v slot hslot => ?_
    obtain ⟨t, acc'⟩ := slot
    obtain ⟨rfl, hv, ht⟩ := hslot
    refine Slot.update_bind_assures (ih ht ?_)
    exact List.forall_mem_append.2 ⟨hacc, List.forall_mem_singleton.2 hv⟩

theorem fillList_assures (h : env.Admits item x) (hs : s.reader = ⟨n :: outer⟩) (hn : n.Valid) :
    (Loading.fillList x).Assures ⟨s, prior⟩ fun _ slot =>
      InArray outer slot.state ∧ env.Writable slot.value := by
  refine Slot.within_assures (fun v t => InArray outer t ∧ env.Writable v) ?_
  refine (Slot.lift_assures (onReader_assures hs (Reader.readSize_assures hn))).bind fun size slot hslot => ?_
  obtain ⟨t, acc⟩ := slot
  obtain ⟨rfl, ht⟩ := hslot
  refine (appendItems_assures h size ht (fun _ hm => absurd hm List.not_mem_nil)).mono fun _ slot hslot => ?_
  exact ⟨hslot.1, writable_list hslot.2⟩

theorem InArray.returns {t : ReadState} (ht : InArray outer t) (hc : type.canFlatten = false)
    (h : env.Writable v) : ∃ m, t.reader = ⟨m :: outer⟩ ∧ env.Returns type n v m := by
  obtain ⟨items, length, hvalid, ht⟩ := ht
  exact ⟨_, ht, .apart hvalid rfl hc h⟩

theorem Admits.list (h : env.Admits item x) (kind : ListKind) :
    env.AdmitsInto (.list kind item) (Loading.fillList x) :=
  fun _ _ _ _ hs hn _ => (fillList_assures h hs hn).mono fun _ _ hslot => hslot.1.returns rfl hslot.2

theorem checkSize_assures (length : Nat) (hs : s.reader = ⟨n :: outer⟩) (hn : n.Valid) :
    (Loading.checkSize length).Assures s fun _ t => InArray outer t := by
  refine (onReader_assures hs (Reader.readSize_assures hn)).bind fun found t ht => ?_
  split
  · exact .pure ht
  · exact .fail _

theorem Admits.array (h : env.Admits item x) (length : Nat) :
    env.Admits (.array item length) (Loading.readArray length x) := by
  intro s n outer hs hn
  refine (checkSize_assures length hs hn).bind fun _ t ht => ?_
  obtain ⟨items, size, hvalid, ht⟩ := ht
  refine Slot.fresh_assures ((fillList_assures h ht hvalid).mono fun _ slot hslot => ?_)
  exact hslot.1.returns rfl hslot.2

theorem AdmitsInto.element (h : env.AdmitsInto item y) (hs : InArray outer s) (hp : env.Keepable item prior) :
    Assures (do
      Slot.lift (onReader Reader.startElement)
      y
      Slot.lift (onReader Reader.finishNode)) ⟨s, prior⟩ fun _ slot =>
        InArray outer slot.state ∧ env.Writable slot.value := by
  obtain ⟨items, length, hvalid, hs⟩ := hs
  refine (Slot.lift_assures (onReader_assures hs (Reader.startElement_assures hvalid))).bind fun _ slot hslot => ?_
  obtain ⟨t, p⟩ := slot
  obtain ⟨rfl, d, items, length, hd, hitems, ht⟩ := hslot
  refine (h ht hd hp).bind fun _ slot hslot => ?_
  obtain ⟨u, v⟩ := slot
  obtain ⟨m, hu, hr⟩ := hslot
  refine (Slot.lift_assures (onReader_assures hu Reader.finishNode_assures)).mono fun _ slot hslot => ?_
  obtain ⟨hv, hslot⟩ := hslot
  exact ⟨⟨items, length, hitems, hslot⟩, hv ▸ hr.writable⟩

theorem fillItems_assures (h : env.AdmitsInto item y) {priors : List Value}
    (hp : ∀ prior ∈ priors, env.Keepable item prior) (hs : InArray outer s) :
    (Slot.inOrder (List.replicate priors.length do
      Slot.lift (onReader Reader.startElement)
      y
      Slot.lift (onReader Reader.finishNode))).Assures ⟨s, priors⟩ fun _ slot =>
        InArray outer slot.state ∧ ∀ v ∈ slot.value, env.Writable v := by
  induction priors generalizing s with
  | nil => exact Slot.inOrder_nil_assures ⟨hs, fun _ hm => absurd hm List.not_mem_nil⟩
  | cons prior priors ih =>
    obtain ⟨hfirst, hrest⟩ := List.forall_mem_cons.1 hp
    refine Slot.inOrder_cons_assures (fun v t => InArray outer t ∧ env.Writable v)
      (fun vs t => InArray outer t ∧ ∀ v ∈ vs, env.Writable v) (h.element hs hfirst) fun v t ht => ?_
    exact (ih hrest ht.1).mono fun _ slot hslot => ⟨hslot.1, List.forall_mem_cons.2 ⟨ht.2, hslot.2⟩⟩

theorem AdmitsInto.array (h : env.AdmitsInto item y) (length : Nat) :
    env.AdmitsInto (.array item length) (Loading.fillArray length y) := by
  intro s n outer prior hs hn hp
  cases hp with
  | replaced hr => cases hr
  | @array _ _ priors hl hp =>
    subst hl
    refine Slot.within_assures (fun v t => ∃ m, t.reader = ⟨m :: outer⟩ ∧ env.Returns _ n v m) ?_
    refine (Slot.lift_assures (checkSize_assures _ hs hn)).bind fun _ slot hslot => ?_
    obtain ⟨t, vs⟩ := slot
    obtain ⟨rfl, ht⟩ := hslot
    exact (fillItems_assures h hp ht).mono fun _ slot hslot => hslot.1.returns rfl (writable_list hslot.2)

end Sequences

section Maps

variable {kind : MapKind} {found : List String} {before : Atom → Atom → Bool}

/-- Entries under names that were found in a node, of which only other names are left. -/
structure Gathered (env : Saving) (found : List String) (entries : Entries) (n : Reader.Node) : Prop where
  valid : n.Valid
  left : ∀ name ∈ n.names, name ∈ found
  nodup : (entries.map Prod.fst).Nodup
  taken : ∀ e ∈ entries, ∃ name, e.1 = .text name ∧ name ∈ found ∧ name ∉ n.names ∧ env.Writable e.2

theorem Gathered.same {acc : Entries} (h : env.Gathered found acc n) (hm : m.Valid) (hnames : m.names = n.names) :
    env.Gathered found acc m :=
  ⟨hm, hnames ▸ h.left, h.nodup, hnames ▸ h.taken⟩

theorem Gathered.insert {acc : Entries} {name : String} {d : Json} {left : Fields}
    (h : env.Gathered found acc n) (ht : Reader.Taken n name d left) (hv : env.Writable v) :
    env.Gathered found (acc.insert before (.text name) v) (.object left) := by
  have hnew : Atom.text name ∉ acc.map Prod.fst := by
    intro hm
    obtain ⟨e, he, hkey⟩ := List.mem_map.1 hm
    obtain ⟨other, hother, -, habsent, -⟩ := h.taken e he
    cases hother.symm.trans hkey
    exact habsent ht.mem
  have hperm := Entries.insert_perm before (.text name) v hnew
  refine ⟨ht.valid, fun other hm => h.left other (ht.names hm).1, ?_, fun e he => ?_⟩
  · exact (hperm.map Prod.fst).nodup_iff.2 (List.nodup_cons.2 ⟨hnew, h.nodup⟩)
  · rcases List.mem_cons.1 (hperm.mem_iff.1 he) with rfl | he
    · exact ⟨name, rfl, h.left name ht.mem, fun hm => (ht.names hm).2 rfl, hv⟩
    · obtain ⟨other, hkey, hfound, habsent, hw⟩ := h.taken e he
      exact ⟨other, hkey, hfound, fun hm => habsent (ht.names hm).1, hw⟩

theorem addTexts_assures (h : env.Admits item x) (count : Nat) {acc : Entries}
    (hs : s.reader = ⟨n :: outer⟩) (hacc : env.Gathered found acc n) :
    (Loading.addNamed (fun name => some (.text name)) x (Entries.insert before) count).Assures ⟨s, acc⟩ fun _ slot =>
      ∃ m, slot.state.reader = ⟨m :: outer⟩ ∧ env.Gathered found slot.value m := by
  induction count generalizing s n acc with
  | zero => exact .pure ⟨n, hs, hacc⟩
  | succ count ih =>
    refine (Slot.lift_assures (onReader_assures hs (Reader.nextFieldName_assures hacc.valid))).bind
      fun next slot hslot => ?_
    obtain ⟨t, acc⟩ := slot
    obtain ⟨rfl, fields, hvalid, hnames, ht⟩ := hslot
    have hacc : env.Gathered found acc (.object fields) := hacc.same hvalid hnames
    cases next with
    | none => exact .pure ⟨_, ht, hacc⟩
    | some name =>
      refine (Slot.lift_assures (inField_assures ht hvalid h.below)).bind fun v slot hslot => ?_
      obtain ⟨u, acc⟩ := slot
      obtain ⟨rfl, hv, d, left, taken, hu⟩ := hslot
      exact Slot.update_bind_assures (ih hu (hacc.insert taken hv))

theorem Admits.named (loading : Loading) (h : env.Admits item x) :
    env.AdmitsInto (.map kind .text item) (loading.fillMap kind .text x) := by
  intro s n outer prior hs hn _
  refine Slot.within_assures (fun v t => ∃ m, t.reader = ⟨m :: outer⟩ ∧ env.Returns _ n v m) ?_
  have hnone : env.Gathered n.names [] n := ⟨hn, fun _ => id, List.nodup_nil, fun _ hm => absurd hm List.not_mem_nil⟩
  refine Slot.get_bind_assures ((addTexts_assures h _ hs hnone).mono fun _ slot hslot => ?_)
  obtain ⟨m, hm, hall⟩ := hslot
  refine ⟨m, hm, hall.valid, fun name hname => ⟨hall.left name hname, nofun⟩, fun hfinite => ?_⟩
  have hentries : ∀ e ∈ slot.value, (∃ name, e.1 = .text name) ∧ env.Writable e.2 := by
    intro e he
    obtain ⟨name, hkey, -, -, hw⟩ := hall.taken e he
    exact ⟨⟨name, hkey⟩, hw⟩
  obtain ⟨b, fields, hb, hfields, hnames⟩ := written_named hentries hall.nodup hfinite
  refine ⟨b, hb, fun _ => ⟨fields, hfields, fun name hname => .inr ⟨.map rfl, ?_⟩⟩⟩
  have hkey : Atom.text name ∈ slot.value.map Prod.fst := hnames ▸ List.mem_map_of_mem hname
  obtain ⟨e, he, hkey⟩ := List.mem_map.1 hkey
  obtain ⟨other, hother, hfound, -⟩ := hall.taken e he
  cases hother.symm.trans hkey
  exact hfound

theorem addPairs_assures {key : AtomTy} (h : env.Admits item x) (count : Nat) {acc : Entries}
    (hs : InArray outer s) (hacc : ∀ e ∈ acc, env.Writable (.atom e.1) ∧ env.Writable e.2) :
    (Loading.addPairs (Loading.readAtom key) x (Entries.insert before) count).Assures ⟨s, acc⟩ fun _ slot =>
      InArray outer slot.state ∧ ∀ e ∈ slot.value, env.Writable (.atom e.1) ∧ env.Writable e.2 := by
  induction count generalizing s acc with
  | zero => exact .pure ⟨hs, hacc⟩
  | succ count ih =>
    obtain ⟨items, length, hvalid, hs⟩ := hs
    have hentry : ∀ ⦃t d inner⦄, t.reader = ⟨.value d :: inner⟩ → d.Valid → Assures (do
        let k ← inField keyField (Loading.readAtom key)
        let value ← inField valueField x
        return (k, value)) t fun e u =>
          (env.Writable (.atom e.1) ∧ env.Writable e.2) ∧ ∃ m, u.reader = ⟨m :: inner⟩ := by
      intro t d inner ht hd
      refine (inField_assures ht hd (readAtom_below env key)).bind fun k t hk => ?_
      obtain ⟨hk, d, left, taken, ht⟩ := hk
      refine (inField_assures ht taken.valid h.below).bind fun v u hv => ?_
      obtain ⟨hv, d, left, -, hu⟩ := hv
      exact .pure ⟨⟨hk, hv⟩, _, hu⟩
    refine (Slot.lift_assures (inElement_assures hs hvalid hentry)).bind fun e slot hslot => ?_
    obtain ⟨t, acc⟩ := slot
    obtain ⟨rfl, he, ht⟩ := hslot
    refine Slot.update_bind_assures (ih ht fun e' hm => ?_)
    rcases Entries.mem_of_mem_insert hm with rfl | hm
    · exact he
    · exact hacc e' hm

theorem Admits.elements (loading : Loading) (h : env.Admits item x) (key : AtomTy) :
    env.AdmitsInto (.map kind (.atom key) item) (loading.fillMap kind (.atom key) x) := by
  intro s n outer prior hs hn _
  refine Slot.within_assures (fun v t => ∃ m, t.reader = ⟨m :: outer⟩ ∧ env.Returns _ n v m) ?_
  refine (Slot.lift_assures (onReader_assures hs (Reader.readSize_assures hn))).bind fun size slot hslot => ?_
  obtain ⟨t, acc⟩ := slot
  obtain ⟨rfl, ht⟩ := hslot
  refine (addPairs_assures h size ht (fun _ hm => absurd hm List.not_mem_nil)).mono fun _ slot hslot => ?_
  exact hslot.1.returns rfl (writable_elements hslot.2)

end Maps

end Saving

end Archivist
