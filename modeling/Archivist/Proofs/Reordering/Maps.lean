import Archivist.Proofs.Loading.Confinement
import Archivist.Proofs.Reordering.Steps
import Archivist.Proofs.Schema.Entries

/-!
Loads of maps from two documents that differ in the order of fields. A map from the elements of an
array gets the same keys in the same order. A map from the fields of an object gets its keys in the
order of the document, but what each field gives depends on its own document alone.
-/

set_option autoImplicit false

namespace Archivist

open ReadState

namespace Entries

/-- The same keys in the same places, with values that are the same. -/
abbrev Matches (es fs : Entries) : Prop := List.Forall₂ (fun e f => e.1 = f.1 ∧ e.2.Same f.2) es fs

namespace Matches

variable {es fs : Entries}

theorem insert (h : Matches es fs) (before : Atom → Atom → Bool) (key : Atom) {v w : Value} (hv : v.Same w) :
    Matches (es.insert before key v) (fs.insert before key w) := by
  induction h with
  | nil => exact .cons ⟨rfl, hv⟩ .nil
  | @cons e f es fs he hrest ih =>
    obtain ⟨k, a⟩ := e
    obtain ⟨_, b⟩ := f
    obtain ⟨rfl, hab⟩ := he
    simp only [Entries.insert, insertBy]
    split
    · exact .cons ⟨rfl, hv⟩ hrest
    · split
      · exact .cons ⟨rfl, hv⟩ (.cons ⟨rfl, hab⟩ hrest)
      · exact .cons ⟨rfl, hab⟩ ih

theorem keys_eq (h : Matches es fs) : es.map Prod.fst = fs.map Prod.fst := by
  induction h with
  | nil => rfl
  | cons he _ ih => rw [List.map_cons, List.map_cons, he.1, ih]

theorem exists_of_mem (h : Matches es fs) {e : Atom × Value} (he : e ∈ es) :
    ∃ f ∈ fs, e.1 = f.1 ∧ e.2.Same f.2 := by
  induction h with
  | nil => cases he
  | cons hef _ ih =>
    rcases List.mem_cons.1 he with rfl | he
    · exact ⟨_, List.mem_cons_self, hef⟩
    · obtain ⟨f, hf, h⟩ := ih he
      exact ⟨f, List.mem_cons_of_mem _ hf, h⟩

end Matches

def Aligned (before : Atom → Atom → Bool) (es fs : Entries) : Prop := Ordered before es ∧ Matches es fs

theorem Aligned.same {before : Atom → Atom → Bool} {es fs : Entries} (h : Aligned before es fs)
    (type : KeyTy) : Value.Same (.map type es) (.map type fs) := by
  obtain ⟨hordered, hmatches⟩ := h
  have hkeys := hmatches.keys_eq
  refine .map (hkeys ▸ .refl _) fun e he f hf hef => ?_
  obtain ⟨f', hf', hk, hs⟩ := hmatches.exists_of_mem he
  have hnodup : (fs.map Prod.fst).Nodup := hkeys ▸ hordered.nodup
  cases List.inj_on_of_nodup_map hnodup hf' hf (hk.symm.trans hef)
  exact hs

end Entries

namespace Parallel

variable {r : Registry} {x : Attempt ReadState Value} {before : Atom → Atom → Bool}

theorem addPairs (ho : Orders Eq before) (key : AtomTy) (hx : Parallel r Value.Same x x) (count : Nat) :
    ParallelIn r (Entries.Aligned before) (Entries.Aligned before)
      (Loading.addPairs (Loading.readAtom key) x (Entries.insert before) count)
      (Loading.addPairs (Loading.readAtom key) x (Entries.insert before) count) := by
  induction count with
  | zero => exact .pure rfl
  | succ count ih =>
    have hentry : Parallel r (fun p q : Atom × Value => p.1 = q.1 ∧ p.2.Same q.2)
        (ReadState.inElement do
          let k ← ReadState.inField keyField (Loading.readAtom key)
          let value ← ReadState.inField valueField x
          return (k, value))
        (ReadState.inElement do
          let k ← ReadState.inField keyField (Loading.readAtom key)
          let value ← ReadState.inField valueField x
          return (k, value)) :=
      inElement (((readAtom key).inField keyField).bind fun _ _ hk => (hx.inField valueField).bind fun _ _ hv =>
        .pure ⟨hk, hv⟩)
    refine hentry.lift.bind ?_
    rintro ⟨k, v⟩ ⟨_, w⟩ ⟨rfl, hv⟩
    refine (Coupled.update fun es fs h => ?_).bind fun _ _ _ => ih
    exact ⟨Ordered.insertBy ho h.1 k v, h.2.insert _ k hv⟩

end Parallel

namespace Attempt

variable {x : Attempt ReadState Value} {r : Registry} {d d' : Json} {v w : Value}

/-- The step reads the value from the document alone, and leaves the registry as it is. -/
def Gives (x : Attempt ReadState Value) (r : Registry) (d : Json) (v : Value) : Prop :=
  ∃ t, x ⟨.ofJson d, r, []⟩ = (.ok v, t) ∧ t.registry = r

/-- The step fails on the document alone. -/
def Refuses (x : Attempt ReadState Value) (r : Registry) (d : Json) : Prop :=
  ∃ e t, x ⟨.ofJson d, r, []⟩ = (.error e, t)

theorem Gives.unique (h : x.Gives r d v) (h' : x.Gives r d w) : v = w := by
  obtain ⟨t, ht, -⟩ := h
  obtain ⟨t', ht', -⟩ := h'
  cases ht.symm.trans ht'
  rfl

theorem Gives.not_refuses (h : x.Gives r d v) : ¬ x.Refuses r d := by
  rintro ⟨e, t', ht'⟩
  obtain ⟨t, ht, -⟩ := h
  cases ht.symm.trans ht'

/-- Documents that differ in the order of fields both give values, which are the same, or neither. -/
theorem gives_or_refuses (hx : Parallel r Value.Same x x) (hd : d.Reordered d') :
    (∃ v w, x.Gives r d v ∧ x.Gives r d' w ∧ v.Same w) ∨ x.Refuses r d ∧ x.Refuses r d' := by
  have hs : ReadState.Reordered r ⟨.ofJson d, r, []⟩ ⟨.ofJson d', r, []⟩ :=
    ⟨.cons (.value hd) .nil, rfl, rfl⟩
  obtain ⟨v, w, s, t, hs, ht, hv, -, hr, hr'⟩ | ⟨e, e', s, t, hs, ht, -⟩ := (hx hs).cases
  · exact .inl ⟨v, w, ⟨s, hs, hr⟩, ⟨t, ht, hr'⟩, hv⟩
  · exact .inr ⟨⟨e, s, hs⟩, ⟨e', t, ht⟩⟩

end Attempt

/-- `Collects x r fields acc result`: what the step reads from the fields was added to other entries. -/
structure Entries.Collects (x : Attempt ReadState Value) (r : Registry) (fields : Fields) (acc result : Entries) :
    Prop where
  keys : (result.map Prod.fst).Perm (fields.names.map .text ++ acc.map Prod.fst)
  values : ∀ e ∈ result, e ∈ acc ∨ ∃ name d, (name, d) ∈ fields ∧ e.1 = .text name ∧ x.Gives r d e.2

namespace Entries.Collects

variable {x : Attempt ReadState Value} {r : Registry} {fields others : Fields} {acc result : Entries}

theorem nil (acc : Entries) : Collects x r [] acc acc := ⟨.refl _, fun _ => .inl⟩

theorem cons {before : Atom → Atom → Bool} {name : String} {d : Json} {v : Value}
    (hk : .text name ∉ acc.map Prod.fst) (hv : x.Gives r d v)
    (h : Collects x r fields (acc.insert before (.text name) v) result) :
    Collects x r ((name, d) :: fields) acc result := by
  have hp := insert_perm before (.text name) v hk
  refine ⟨h.keys.trans ?_, fun e he => ?_⟩
  · exact ((hp.map Prod.fst).append_left _).trans List.perm_middle
  · rcases h.values e he with he | ⟨name', d', hm, hvalue⟩
    · rcases List.mem_cons.1 (hp.mem_iff.1 he) with rfl | he
      · exact .inr ⟨name, d, List.mem_cons_self, rfl, hv⟩
      · exact .inl he
    · exact .inr ⟨name', d', List.mem_cons_of_mem _ hm, hvalue⟩

theorem same (hx : Parallel r Value.Same x x) (hf : fields.Reordered others) {result' : Entries}
    (h : Collects x r fields [] result) (h' : Collects x r others [] result') (type : KeyTy) :
    Value.Same (.map type result) (.map type result') := by
  refine .map ?_ fun e he e' he' hkey => ?_
  · have hkeys : (result.map Prod.fst).Perm (fields.names.map .text) := by simpa using h.keys
    have hkeys' : (result'.map Prod.fst).Perm (others.names.map .text) := by simpa using h'.keys
    exact (hkeys.trans (hf.names.map _)).trans hkeys'.symm
  · obtain he | ⟨name, d, hm, hname, hv⟩ := h.values e he
    · cases he
    obtain he' | ⟨name', d', hm', hname', hv'⟩ := h'.values e' he'
    · cases he'
    cases hname.symm.trans (hkey.trans hname')
    obtain ⟨v, w, hgives, hgives', hsame⟩ | ⟨hrefuses, -⟩ :=
      Attempt.gives_or_refuses hx (hf.documents hm hm')
    · rw [hv.unique hgives, hv'.unique hgives']
      exact hsame
    · exact absurd hrefuses hv.not_refuses

end Entries.Collects

namespace Loading

section Rounds

variable {κ ν α : Type} {ofField : String → Option κ} {x : Attempt ReadState ν} {insert : κ → ν → α → α}
  {s : ReadState} {n : Reader.Node} {rest : List Reader.Node} {fields : Fields} {acc : α} {count : Nat}

theorem nextName_of_fields? (hs : s.reader = ⟨n :: rest⟩) (hn : n.fields? = some fields) :
    Slot.lift (onReader Reader.nextFieldName) ⟨s, acc⟩ =
      (.ok fields.names.head?, ⟨{ s with reader := ⟨.object fields :: rest⟩ }, acc⟩) :=
  Slot.lift_of_eq (onReader_of_eq (hs ▸ Reader.nextFieldName_of_fields? hn))

theorem addNamed_of_error {e : Error} {reader : Reader} (h : Reader.nextFieldName s.reader = (.error e, reader)) :
    addNamed ofField x insert (count + 1) ⟨s, acc⟩ = (.error e, ⟨{ s with reader }, acc⟩) :=
  Attempt.bind_of_eq_error (Slot.lift_of_eq (onReader_of_eq h))

theorem addNamed_nil (hs : s.reader = ⟨n :: rest⟩) (hn : n.fields? = some []) :
    addNamed ofField x insert (count + 1) ⟨s, acc⟩ =
      (.ok (), ⟨{ s with reader := ⟨.object [] :: rest⟩ }, acc⟩) :=
  Attempt.bind_of_eq_ok (nextName_of_fields? hs hn)

end Rounds

variable {before : Atom → Atom → Bool} {x : Attempt ReadState Value} {r : Registry} {s : ReadState}
  {n : Reader.Node} {rest : List Reader.Node} {name : String} {d : Json} {left fields : Fields} {acc : Entries}
  {count : Nat}

/-- Reads a map whose keys are the names of the fields as they are. -/
abbrev addTexts (before : Atom → Atom → Bool) (x : Attempt ReadState Value) : Nat → Attempt (Slot Entries) Unit :=
  addNamed (fun name => some (.text name)) x (Entries.insert before)

theorem inField_first (hc : Confined x) (hs : s.reader = ⟨.object ((name, d) :: left) :: rest⟩)
    (hr : s.registry = r) :
    (∀ v, x.Gives r d v →
      ∃ t, inField name x s = (.ok v, t) ∧ t.reader = ⟨.object left :: rest⟩ ∧ t.registry = r) ∧
    (x.Refuses r d → ∃ e t, inField name x s = (.error e, t)) := by
  have he : Reader.startField name s.reader = (.ok (), ⟨.value d :: .object left :: rest⟩) := by
    rw [hs]
    exact Reader.startField_of_take? rfl (by simp [Fields.take?])
  obtain ⟨hresult, hregistry, hreader⟩ := hc.around_eq he
  change (inField name x s).1 = _ at hresult
  change (inField name x s).2.registry = _ at hregistry
  change ∀ v, (inField name x s).1 = .ok v → (inField name x s).2.reader = _ at hreader
  rw [hr] at hresult hregistry
  constructor
  · rintro v ⟨t, ht, hrt⟩
    rw [ht] at hresult hregistry
    have hok : inField name x s = (.ok v, (inField name x s).2) := Prod.ext hresult rfl
    exact ⟨_, hok, hreader v hresult, hregistry.trans hrt⟩
  · rintro ⟨e, t, ht⟩
    rw [ht] at hresult
    have herror : inField name x s = (.error e, (inField name x s).2) := Prod.ext hresult rfl
    exact ⟨e, _, herror⟩

theorem addNamed_of_gives (hc : Confined x) (hs : s.reader = ⟨n :: rest⟩) (hr : s.registry = r)
    (hn : n.fields? = some ((name, d) :: left)) {v : Value} (hv : x.Gives r d v) (acc : Entries) (count : Nat) :
    ∃ t : ReadState, t.reader = ⟨.object left :: rest⟩ ∧ t.registry = r ∧
      addTexts before x (count + 1) ⟨s, acc⟩ =
        addTexts before x count ⟨t, acc.insert before (.text name) v⟩ := by
  obtain ⟨t, ht, hreader, hregistry⟩ := (inField_first (s := { s with reader := _ }) hc rfl hr).1 v hv
  exact ⟨t, hreader, hregistry,
    (Attempt.bind_of_eq_ok (nextName_of_fields? hs hn)).trans (Attempt.bind_of_eq_ok (Slot.lift_of_eq ht))⟩

theorem addNamed_of_refuses (hc : Confined x) (hs : s.reader = ⟨n :: rest⟩) (hr : s.registry = r)
    (hn : n.fields? = some ((name, d) :: left)) (hd : x.Refuses r d) :
    ∃ e slot, addTexts before x (count + 1) ⟨s, acc⟩ = (.error e, slot) := by
  obtain ⟨e, t, ht⟩ := (inField_first (s := { s with reader := _ }) hc rfl hr).2 hd
  exact ⟨e, _,
    (Attempt.bind_of_eq_ok (nextName_of_fields? hs hn)).trans (Attempt.bind_of_eq_error (Slot.lift_of_eq ht))⟩

theorem addNamed_collects (hc : Confined x) (hall : ∀ f ∈ fields, ∃ v, x.Gives r f.2 v)
    (hnodup : fields.names.Nodup) (hcount : fields.length < count) (hs : s.reader = ⟨n :: rest⟩)
    (hr : s.registry = r) (hn : n.fields? = some fields)
    (acc : Entries) (hacc : ∀ name ∈ fields.names, Atom.text name ∉ acc.map Prod.fst) :
    ∃ slot, addTexts before x count ⟨s, acc⟩ = (.ok (), slot) ∧
      slot.state.reader = ⟨.object [] :: rest⟩ ∧ slot.state.registry = r ∧
      Entries.Collects x r fields acc slot.value := by
  induction fields generalizing s n acc count with
  | nil =>
    obtain ⟨count, rfl⟩ := Nat.exists_eq_add_one_of_ne_zero (Nat.ne_zero_of_lt hcount)
    exact ⟨_, addNamed_nil hs hn, rfl, hr, .nil acc⟩
  | cons field fields ih =>
    obtain ⟨name, d⟩ := field
    obtain ⟨count, rfl⟩ := Nat.exists_eq_add_one_of_ne_zero (Nat.ne_zero_of_lt hcount)
    obtain ⟨hname, hnodup⟩ := List.nodup_cons.1 hnodup
    obtain ⟨v, hv⟩ := hall _ List.mem_cons_self
    obtain ⟨t, hreader, hregistry, hstep⟩ := addNamed_of_gives hc hs hr hn hv acc count
    have hnew : Atom.text name ∉ acc.map Prod.fst := hacc name List.mem_cons_self
    have hacc' : ∀ other ∈ Fields.names fields,
        Atom.text other ∉ (acc.insert before (.text name) v).map Prod.fst := by
      intro other ho
      rw [((Entries.insert_perm _ _ v hnew).map Prod.fst).mem_iff]
      refine List.not_mem_cons_of_ne_of_not_mem (fun heq => ?_) (hacc other (List.mem_cons_of_mem _ ho))
      cases heq
      exact hname ho
    obtain ⟨slot, hslot, hend, hlast, hcollects⟩ :=
      ih (fun f hf => hall f (List.mem_cons_of_mem _ hf)) hnodup (Nat.lt_of_succ_lt_succ hcount) hreader
        hregistry rfl _ hacc'
    exact ⟨slot, hstep.trans hslot, hend, hlast, hcollects.cons hnew hv⟩

theorem addNamed_refuses (hc : Confined x)
    (hall : ∀ f ∈ fields, (∃ v, x.Gives r f.2 v) ∨ x.Refuses r f.2)
    (hsome : ∃ f ∈ fields, x.Refuses r f.2) (hcount : fields.length < count)
    (hs : s.reader = ⟨n :: rest⟩) (hr : s.registry = r) (hn : n.fields? = some fields) (acc : Entries) :
    ∃ e slot, addTexts before x count ⟨s, acc⟩ = (.error e, slot) := by
  induction fields generalizing s n acc count with
  | nil =>
    obtain ⟨f, hf, -⟩ := hsome
    cases hf
  | cons field fields ih =>
    obtain ⟨name, d⟩ := field
    obtain ⟨count, rfl⟩ := Nat.exists_eq_add_one_of_ne_zero (Nat.ne_zero_of_lt hcount)
    rcases hall _ List.mem_cons_self with ⟨v, hv⟩ | hd
    · obtain ⟨t, hreader, hregistry, hstep⟩ := addNamed_of_gives hc hs hr hn hv acc count
      have hlater : ∃ f ∈ fields, x.Refuses r f.2 := by
        obtain ⟨f, hf, hrefuses⟩ := hsome
        rcases List.mem_cons.1 hf with rfl | hf
        · exact absurd hrefuses hv.not_refuses
        · exact ⟨f, hf, hrefuses⟩
      obtain ⟨e, slot, hslot⟩ :=
        ih (fun f hf => hall f (List.mem_cons_of_mem _ hf)) hlater (Nat.lt_of_succ_lt_succ hcount) hreader
          hregistry rfl _
      exact ⟨e, slot, hstep.trans hslot⟩
    · exact addNamed_of_refuses hc hs hr hn hd

end Loading

namespace Parallel

open Loading (addTexts addNamed_of_error addNamed_refuses addNamed_collects)

variable {r : Registry} {x : Attempt ReadState Value} {fields others : Fields}

/-- Every field gives a value or is refused, and some field is refused in one document just if one is in
the other. -/
theorem fields_cases (hx : Parallel r Value.Same x x) (hf : fields.Reordered others) :
    (∀ f ∈ fields, (∃ v, x.Gives r f.2 v) ∨ x.Refuses r f.2) ∧
    (∀ f ∈ others, (∃ v, x.Gives r f.2 v) ∨ x.Refuses r f.2) ∧
    ((∃ f ∈ fields, x.Refuses r f.2) ↔ ∃ f ∈ others, x.Refuses r f.2) := by
  refine ⟨fun ⟨name, d⟩ hm => ?_, fun ⟨name, d⟩ hm => ?_, fun ⟨⟨name, d⟩, hm, hd⟩ => ?_,
    fun ⟨⟨name, d⟩, hm, hd⟩ => ?_⟩
  · obtain ⟨d', -, hr⟩ := hf.exists_right hm
    obtain ⟨v, w, hv, -, -⟩ | ⟨hd, -⟩ := Attempt.gives_or_refuses hx hr
    · exact .inl ⟨v, hv⟩
    · exact .inr hd
  · obtain ⟨d', -, hr⟩ := hf.exists_left hm
    obtain ⟨v, w, -, hw, -⟩ | ⟨-, hd⟩ := Attempt.gives_or_refuses hx hr
    · exact .inl ⟨w, hw⟩
    · exact .inr hd
  · obtain ⟨d', hm', hr⟩ := hf.exists_right hm
    obtain ⟨v, w, hv, -, -⟩ | ⟨-, hd'⟩ := Attempt.gives_or_refuses hx hr
    · exact absurd hd hv.not_refuses
    · exact ⟨_, hm', hd'⟩
  · obtain ⟨d', hm', hr⟩ := hf.exists_left hm
    obtain ⟨v, w, -, hw, -⟩ | ⟨hd', -⟩ := Attempt.gives_or_refuses hx hr
    · exact absurd hd hw.not_refuses
    · exact ⟨_, hm', hd'⟩

theorem addNamed (before : Atom → Atom → Bool) (hc : Confined x) (hx : Parallel r Value.Same x x) :
    let load : Attempt (Slot Entries) Unit := do
      let slot ← Attempt.get
      addTexts before x (slot.state.reader.fieldCount + 1)
    ParallelIn r (fun es fs => es = [] ∧ fs = [])
      (fun es fs => Value.Same (.map .text es) (.map .text fs)) load load := by
  rintro load ⟨s, _⟩ ⟨t, _⟩ ⟨⟨hnodes, hs, ht⟩, rfl, rfl⟩
  change Ending _ _ _ (addTexts before x (s.reader.fieldCount + 1) ⟨s, []⟩)
    (addTexts before x (t.reader.fieldCount + 1) ⟨t, []⟩)
  rcases hsn : s.reader with ⟨nodes⟩
  rcases htn : t.reader with ⟨nodes'⟩
  rw [hsn, htn] at hnodes
  cases hnodes with
  | nil =>
    rw [addTexts, addNamed_of_error (hsn ▸ Reader.nextFieldName_nil),
      addNamed_of_error (htn ▸ Reader.nextFieldName_nil)]
    exact .error trivial
  | cons hn hrest =>
    obtain ⟨h, h'⟩ | ⟨fields, others, h, h', hf⟩ := hn.fields?
    · rw [addTexts, addNamed_of_error (hsn ▸ Reader.nextFieldName_of_none h),
        addNamed_of_error (htn ▸ Reader.nextFieldName_of_none h')]
      exact .error trivial
    · rw [Reader.fieldCount_of_fields? h, Reader.fieldCount_of_fields? h']
      obtain ⟨hleft, hright, hiff⟩ := hx.fields_cases hf
      by_cases hsome : ∃ f ∈ fields, x.Refuses r f.2
      · obtain ⟨e, slot, hslot⟩ :=
          addNamed_refuses hc hleft hsome (Nat.lt_succ_self _) hsn hs h []
        obtain ⟨e', slot', hslot'⟩ :=
          addNamed_refuses hc hright (hiff.1 hsome) (Nat.lt_succ_self _) htn ht h' []
        rw [hslot, hslot']
        exact .error trivial
      · have hgives : ∀ f ∈ fields, ∃ v, x.Gives r f.2 v :=
          fun f hm => (hleft f hm).resolve_right fun hd => hsome ⟨f, hm, hd⟩
        have hgives' : ∀ f ∈ others, ∃ v, x.Gives r f.2 v :=
          fun f hm => (hright f hm).resolve_right fun hd => hsome (hiff.2 ⟨f, hm, hd⟩)
        obtain ⟨slot, hslot, hreader, hregistry, hcollects⟩ :=
          addNamed_collects hc hgives hf.nodup (Nat.lt_succ_self _) hsn hs h [] (by simp)
        obtain ⟨slot', hslot', hreader', hregistry', hcollects'⟩ :=
          addNamed_collects hc hgives' hf.nodup_right (Nat.lt_succ_self _) htn ht h' [] (by simp)
        rw [hslot, hslot']
        refine .ok rfl ⟨⟨?_, hregistry, hregistry'⟩, hcollects.same hx hf hcollects' .text⟩
        rw [hreader, hreader']
        exact .cons (.object .nil) hrest

theorem fillMap (env : Loading) (kind : MapKind) {key : KeyTy} (hk : ∀ name, key ≠ .named name)
    (hc : Confined x) (hx : Parallel r Value.Same x x) :
    ParallelIn r Value.Same Value.Same (env.fillMap kind key x) (env.fillMap kind key x) := by
  cases key with
  | atom type =>
    have hadd : ParallelIn r (Entries.Aligned (env.schema.before kind (.atom type)))
        (Entries.Aligned (env.schema.before kind (.atom type)))
        (Loading.addMap (env.keyReader (.atom type)) x (Entries.insert (env.schema.before kind (.atom type))))
        (Loading.addMap (env.keyReader (.atom type)) x (Entries.insert (env.schema.before kind (.atom type)))) :=
      (onReader Reader.orderless_readSize).lift.bind fun count _ h =>
        h ▸ addPairs (env.schema.orders_before kind (.atom type)) type hx count
    exact .within (fun _ _ _ => ⟨.nil, .nil⟩) (fun _ _ h => h.same _) hadd
  | text => exact .within (fun _ _ _ => ⟨rfl, rfl⟩) (fun _ _ h => h) (addNamed _ hc hx)
  | named name => exact absurd rfl (hk name)

end Parallel

end Archivist
