import Archivist.Proofs.RoundTrip.Sequences
import Archivist.Proofs.Schema.Entries

/-!
Maps are read back, from the fields of an object or from the elements of an array. The entries come in
the order of the document and go where the order of the map puts them.
-/

set_option autoImplicit false

namespace Archivist

namespace Entries

/-- `Gathers entries acc result`: the entries, or what was read for them, were added to others. -/
def Gathers (entries acc result : Entries) : Prop :=
  (result.map Prod.fst).Perm (entries.map Prod.fst ++ acc.map Prod.fst) ∧
    ∀ f ∈ result, f ∈ acc ∨ ∃ e ∈ entries, e.1 = f.1 ∧ e.2.Same f.2

namespace Gathers

variable {entries acc result : Entries} {key : Atom} {v w : Value} {before : Atom → Atom → Bool}

theorem nil (acc : Entries) : Gathers [] acc acc := ⟨.refl _, fun _ hf => .inl hf⟩

theorem cons (hk : key ∉ acc.map Prod.fst) (hv : v.Same w)
    (h : Gathers entries (insert before key w acc) result) : Gathers ((key, v) :: entries) acc result := by
  have hp := insert_perm before key w hk
  refine ⟨h.1.trans ?_, fun f hf => ?_⟩
  · exact ((hp.map Prod.fst).append_left _).trans List.perm_middle
  · rcases h.2 f hf with hf | ⟨e, he, hs⟩
    · rcases List.mem_cons.1 (hp.mem_iff.1 hf) with rfl | hf
      · exact .inr ⟨(key, v), by simp, rfl, hv⟩
      · exact .inl hf
    · exact .inr ⟨e, by simp [he], hs⟩

theorem same (h : Gathers entries [] result) (hk : (entries.map Prod.fst).Nodup) (type : KeyTy) :
    Value.Same (.map type entries) (.map type result) := by
  refine .map (by simpa using h.1.symm) fun e he f hf hef => ?_
  rcases h.2 f hf with hf | ⟨e', he', hk', hs⟩
  · cases hf
  · have : e' = e := List.inj_on_of_nodup_map hk he' he (hk'.trans hef.symm)
    exact this ▸ hs

end Gathers

end Entries

theorem Writer.leafJson_eq_ok {leaf : Leaf} {d : Json} (h : (leafJson leaf).toOption = some d) :
    leafJson leaf = .ok d := by
  cases hl : leafJson leaf with
  | error e => simp [hl, Except.toOption] at h
  | ok d' => simpa [hl, Except.toOption] using h

theorem Schema.keyOf?_of_hasKey (S : Schema) {key : KeyTy} (ht : key.isTextual = true) {a : Atom} {name : String}
    (h : S.HasKey key a) (hn : S.fieldName? key a = some name) : S.keyOf? key name = some a := by
  cases a with
  | text text =>
    have hof : S.ofField? key name = some text := by
      cases key with
      | atom type => cases ht
      | text => exact h name hn
      | named type => exact h name hn
    simp [keyOf?, hof]
  | _ => cases hn

namespace Exchange

open Attempt ReadState Loading Saving

variable {E : Exchange} {unknownTypes : UnknownTypes} {weight : Nat} {prior : Value} {b : Writer.Node}
  {s : ReadState} {n : Reader.Node} {outer : List Reader.Node} {items : List Json} {fields : Fields}
  {kind : MapKind} {entries acc : Entries} {x : Attempt ReadState Value}

/-- The step reads back each value of a map from what was written for it. -/
def RecoversAll (E : Exchange) (unknownTypes : UnknownTypes) (weight : Nat) (entries : Entries)
    (x : Attempt ReadState Value) : Prop :=
  ∀ e ∈ entries, ∀ ⦃b⦄, (E.saving unknownTypes).written e.2 = some b →
    E.Recovers weight e.2 b.close x

theorem At.nextFieldName (hs : E.At s n outer) (hn : n.fields? = some fields) :
    (ReadState.onReader Reader.nextFieldName).Ends s fun a t =>
      a = fields.names.head? ∧ E.At t (.object fields) outer :=
  hs.onReader (Reader.nextFieldName_of_fields? hn)

theorem update_ends {α : Type} (f : α → α) (t : ReadState) (a : α) :
    Ends (Slot.update f) ⟨t, a⟩ fun _ slot => slot = ⟨t, f a⟩ := ⟨(), _, rfl, rfl⟩

theorem fresh_keys {key : Atom} {v : Value} (before : Atom → Atom → Bool) (w : Value)
    (hk : (((key, v) :: entries).map Prod.fst).Nodup)
    (hacc : ∀ e ∈ (key, v) :: entries, e.1 ∉ acc.map Prod.fst) :
    key ∉ acc.map Prod.fst ∧
      ∀ e ∈ entries, e.1 ∉ (Entries.insert before key w acc).map Prod.fst := by
  have hnew : key ∉ acc.map Prod.fst := hacc _ List.mem_cons_self
  refine ⟨hnew, fun e he => ?_⟩
  rw [((Entries.insert_perm before key w hnew).map Prod.fst).mem_iff]
  refine List.not_mem_cons_of_ne_of_not_mem (fun heq => ?_) (hacc e (List.mem_cons_of_mem _ he))
  exact (List.nodup_cons.1 hk).1 (heq ▸ List.mem_map_of_mem he)

theorem addNamed_ends {key : KeyTy} (htext : key.isTextual = true)
    (hb : (E.saving unknownTypes).writtenNamed key entries = some b) (hf : b.fields? = some fields)
    (hk : (entries.map Prod.fst).Nodup) (ha : ∀ e ∈ entries, E.schema.HasKey key e.1)
    (hx : E.RecoversAll unknownTypes weight entries x) (hs : E.At s n outer)
    (hn : n.fields? = some fields) (hw : n.weight < weight + 1) {count : Nat} (hc : fields.length < count)
    (hacc : ∀ e ∈ entries, e.1 ∉ acc.map Prod.fst) :
    (addNamed (E.schema.keyOf? key) x (Entries.insert (E.schema.before kind key)) count).Ends ⟨s, acc⟩ fun _ slot =>
      entries.Gathers acc slot.value ∧ E.At slot.state (.object []) outer := by
  induction entries generalizing b fields s n acc count with
  | nil =>
    cases hb
    cases hf
    obtain ⟨count, rfl⟩ := Nat.exists_eq_add_one_of_ne_zero (Nat.ne_zero_of_lt hc)
    refine (Slot.lift_ends (hs.nextFieldName hn)).bind fun _ slot hslot => ?_
    obtain ⟨t, acc⟩ := slot
    obtain ⟨rfl, rfl, ht⟩ := hslot
    exact .pure ⟨.nil _, ht⟩
  | cons entry entries ih =>
    obtain ⟨k, v⟩ := entry
    simp only [writtenNamed_cons, Option.bind_eq_some_iff] at hb
    obtain ⟨name, hname, c, hv, r, hr, hm⟩ := hb
    obtain ⟨_, rest, hfirst, hrest, rfl, hapart⟩ := Writer.Node.fields?_merge hm hf
    cases hfirst
    obtain ⟨count, rfl⟩ := Nat.exists_eq_add_one_of_ne_zero (Nat.ne_zero_of_lt hc)
    have hd : (Fields.names ([(name, c.close)] ++ rest)).Nodup :=
      ((Writer.Node.tidy_field _ _).merge (tidy_of_writtenNamed hr) hm) _ hf
    have hleft : Fields.without ([(name, c.close)] ++ rest) [(name, c.close)] = rest :=
      Fields.append_without hapart
    have hmem : (name, c.close) ∈ [(name, c.close)] ++ rest := by simp
    -- the first field left is the one that was written for this entry
    refine (Slot.lift_ends (hs.nextFieldName hn)).bind fun _ slot hslot => ?_
    obtain ⟨t, acc⟩ := slot
    obtain ⟨rfl, rfl, ht⟩ := hslot
    have hrec := hx _ List.mem_cons_self hv (weight_field hn hmem hw)
    refine (Slot.lift_ends (ht.inField rfl hd hmem hrec)).bind fun w slot hslot => ?_
    obtain ⟨t, acc⟩ := slot
    obtain ⟨rfl, hsame, ht⟩ := hslot
    have hkey : E.schema.keyOf? key name = some k := E.schema.keyOf?_of_hasKey htext (ha _ List.mem_cons_self) hname
    simp only [hkey]
    refine (update_ends _ t acc).bind fun _ slot hslot => ?_
    subst hslot
    rw [hleft] at ht
    obtain ⟨hnew, hacc'⟩ := fresh_keys (E.schema.before kind key) w hk hacc
    refine (ih hr hrest (List.nodup_cons.1 hk).2 (fun e he => ha e (List.mem_cons_of_mem _ he))
      (fun e he => hx e (List.mem_cons_of_mem _ he)) ht rfl (hleft ▸ weight_fields hn _ hw)
      (by simpa using hc) hacc').mono fun _ slot hslot => ?_
    exact ⟨.cons hnew hsame hslot.1, hslot.2⟩

theorem addPairs_ends {key : AtomTy}
    (hb : (E.saving unknownTypes).writtenEntries entries = some items)
    (hk : (entries.map Prod.fst).Nodup) (ha : ∀ e ∈ entries, key.Has e.1)
    (hx : E.RecoversAll unknownTypes weight entries x) (hs : E.At s n outer) {length : Nat}
    (hn : n.items? = some (items, length)) (hw : n.weight < weight + 1)
    (hacc : ∀ e ∈ entries, e.1 ∉ acc.map Prod.fst) :
    (addPairs (readAtom key) x (Entries.insert (E.schema.before kind (.atom key))) items.length).Ends ⟨s, acc⟩
      fun _ slot => entries.Gathers acc slot.value ∧ ∃ m, E.At slot.state m outer := by
  induction entries generalizing items s n acc with
  | nil =>
    cases hb
    exact .pure ⟨.nil _, n, hs⟩
  | cons entry entries ih =>
    obtain ⟨k, v⟩ := entry
    simp only [writtenEntries_cons, Option.bind_eq_some_iff, Option.map_eq_some_iff] at hb
    obtain ⟨doc, hdoc, c, hv, rest, hr, rfl⟩ := hb
    obtain ⟨hd, hrest⟩ := weight_items hn hw
    have hnodup : (Fields.names [(keyField, doc), (valueField, c.close)]).Nodup := by
      simp [Fields.names, keyField, valueField]
    have hread : ∀ ⦃t inner⦄, E.At t (.value (.object [(keyField, doc), (valueField, c.close)])) inner →
        Ends (do
          let k ← inField keyField (readAtom key)
          let value ← inField valueField x
          return (k, value)) t fun a u => (a.1 = k ∧ v.Same a.2) ∧ ∃ m, E.At u m inner := by
      intro t inner ht
      have hvalue : c.close.weight < weight := by
        simp only [Json.weight, Json.weightFields] at hd
        omega
      refine (ht.inField rfl hnodup List.mem_cons_self fun u inner hu =>
        hu.readAtom (ha _ List.mem_cons_self) (Writer.leafJson_eq_ok hdoc)).bind fun k' u hu => ?_
      obtain ⟨rfl, hu⟩ := hu
      have hmem : (valueField, c.close) ∈
          Fields.without [(keyField, doc), (valueField, c.close)] [(keyField, doc)] := by
        simp [Fields.without, Fields.has, keyField, valueField]
      refine (hu.inField rfl (Fields.nodup_without hnodup) hmem
        (hx _ List.mem_cons_self hv hvalue)).bind fun w u hu => ?_
      exact .pure ⟨⟨rfl, hu.1⟩, _, hu.2⟩
    refine (Slot.lift_ends (hs.inElement hn hread)).bind fun a slot hslot => ?_
    obtain ⟨t, acc⟩ := slot
    obtain ⟨k', w⟩ := a
    obtain ⟨rfl, ⟨rfl, hsame⟩, ht⟩ := hslot
    refine (update_ends _ t acc).bind fun _ slot hslot => ?_
    subst hslot
    obtain ⟨hnew, hacc'⟩ := fresh_keys (E.schema.before kind (.atom key)) w hk hacc
    refine (ih hr (List.nodup_cons.1 hk).2 (fun e he => ha e (List.mem_cons_of_mem _ he))
      (fun e he => hx e (List.mem_cons_of_mem _ he)) ht rfl hrest hacc').mono fun _ slot hslot => ?_
    exact ⟨.cons hnew hsame hslot.1, hslot.2⟩

theorem fieldCount_of_fields? (hs : E.At s n outer) (hn : n.fields? = some fields) :
    s.reader.fieldCount = fields.length := by
  rw [hs.1, Reader.fieldCount_of_fields? hn]

theorem Fills.named {key : KeyTy} (htext : key.isTextual = true)
    (hb : (E.saving unknownTypes).writtenNamed key entries = some b)
    (hk : (entries.map Prod.fst).Nodup) (ha : ∀ e ∈ entries, E.schema.HasKey key e.1)
    (hx : E.RecoversAll unknownTypes weight entries x) :
    E.Fills (weight + 1) prior (.map key entries) b (E.loading.fillMap kind key x) := by
  intro s n outer hs hw ho
  obtain ⟨fields, -, hfields, -⟩ := Writer.Node.joinNamed_eq_some.1 hb
  have hf : b.fields? = some fields := hfields ▸ Writer.Node.fields?_ofFields fields
  obtain ⟨left, hn, -, -, hall⟩ := ho.fields_inv hf
  cases hall (by simpa only [Value.isOpen] using htext)
  have hadd : Ends (do
      let slot ← Attempt.get
      addNamed (E.schema.keyOf? key) x (Entries.insert (E.schema.before kind key))
        (slot.state.reader.fieldCount + 1)) ⟨s, []⟩ fun _ slot =>
        entries.Gathers [] slot.value ∧ E.At slot.state (.object []) outer := by
    refine addNamed_ends htext hb hf hk ha hx hs hn hw ?_ (by simp)
    simp [fieldCount_of_fields? hs hn]
  have hleaves : Leaves b n (.object []) := by
    intro fs ls hfs hls
    cases hfs.symm.trans hf
    cases hls.symm.trans hn
    rw [Fields.without_self, Reader.Node.fields?]
  cases key with
  | atom type => cases htext
  | _ =>
    exact Slot.within_ends rfl (hadd.mono fun _ _ hslot => ⟨hslot.1.same hk _, _, hslot.2, hleaves⟩)

theorem Fills.elements {key : AtomTy} (hb : (E.saving unknownTypes).writtenEntries entries = some items)
    (hk : (entries.map Prod.fst).Nodup) (ha : ∀ e ∈ entries, key.Has e.1)
    (hx : E.RecoversAll unknownTypes weight entries x) :
    E.Fills (weight + 1) prior (.map (.atom key) entries) (.array items)
      (E.loading.fillMap kind (.atom key) x) := by
  intro s n outer hs hw ho
  have hn := ho.array_inv
  refine Slot.within_ends rfl ((Slot.lift_ends (hs.readSize hn)).bind fun _ slot hslot => ?_)
  obtain ⟨t, acc⟩ := slot
  obtain ⟨rfl, rfl, ht⟩ := hslot
  rw [Reader.Node.weight_of_items? hn] at hw
  refine (addPairs_ends hb hk ha hx ht rfl hw (by simp)).mono fun _ slot hslot => ?_
  obtain ⟨hg, m, hm⟩ := hslot
  exact ⟨hg.same hk _, m, hm, .array _ _ _⟩

end Exchange

end Archivist
