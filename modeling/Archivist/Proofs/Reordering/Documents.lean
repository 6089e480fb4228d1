import Mathlib.Data.List.Nodup
import Archivist.Proofs.Archive.Reader
import Archivist.Proofs.Loading.Coupling

/-!
Documents that differ in the order of fields, and how the reading archive walks two of them. What it
finds is the same in both, and what is left of them differs in the order of fields again.
-/

set_option autoImplicit false

namespace Archivist

/-- The same document up to the order of the fields of objects, at any depth. -/
inductive Json.Reordered : Json → Json → Prop where
  | leaf {d : Json} {leaf : Leaf} (h : Reader.leaf? d = some leaf) : Reordered d d
  | array {items others : List Json} (h : List.Forall₂ Reordered items others) :
    Reordered (.array items) (.array others)
  | object {fields others : Fields} (nodup : fields.names.Nodup) (names : fields.names.Perm others.names)
    (documents : ∀ name d d', (name, d) ∈ fields → (name, d') ∈ others → Reordered d d') :
    Reordered (.object fields) (.object others)

theorem Json.Reordered.of_perm {fields others : Fields} (nodup : fields.names.Nodup) (hp : fields.Perm others)
    (h : ∀ field ∈ fields, field.2.Reordered field.2) : (Json.object fields).Reordered (.object others) := by
  refine .object nodup (hp.map _) fun name d d' hm hm' => ?_
  cases List.inj_on_of_nodup_map nodup hm (hp.mem_iff.2 hm') rfl
  exact h _ hm

namespace Fields

/-- Fields of the same names, in any order, with documents that are the same up to the order of fields. -/
structure Reordered (fields others : Fields) : Prop where
  nodup : fields.names.Nodup
  names : fields.names.Perm others.names
  documents {name : String} {d d' : Json} : (name, d) ∈ fields → (name, d') ∈ others → d.Reordered d'

theorem take?_eq_none {fields : Fields} {name : String} :
    fields.take? name = none ↔ name ∉ fields.names := by
  induction fields with
  | nil => simp [take?, names]
  | cons field fields ih =>
    obtain ⟨key, value⟩ := field
    simp only [names, List.map_cons, List.mem_cons, not_or] at ih ⊢
    by_cases h : key = name
    · simp [take?, h]
    · simp [take?, h, ih, Ne.symm h]

theorem perm_of_take? {fields left : Fields} {name : String} {d : Json}
    (h : fields.take? name = some (d, left)) : fields.Perm ((name, d) :: left) := by
  induction fields generalizing left with
  | nil => cases h
  | cons field fields ih =>
    obtain ⟨key, value⟩ := field
    simp only [take?] at h
    split at h
    · rename_i hk
      cases h
      rw [hk]
    · obtain ⟨⟨found, rest⟩, hf, he⟩ := Option.map_eq_some_iff.1 h
      cases he
      exact ((ih hf).cons _).trans (.swap _ _ _)

theorem names_perm_of_take? {fields left : Fields} {name : String} {d : Json}
    (h : fields.take? name = some (d, left)) : fields.names.Perm (name :: left.names) :=
  (perm_of_take? h).map Prod.fst

namespace Reordered

variable {fields others : Fields} {name : String} {d : Json}

theorem nil : Reordered [] [] := ⟨List.nodup_nil, .refl _, nofun⟩

theorem nodup_right (h : fields.Reordered others) : others.names.Nodup := h.names.nodup_iff.1 h.nodup

theorem exists_right (h : fields.Reordered others) (hm : (name, d) ∈ fields) :
    ∃ d', (name, d') ∈ others ∧ d.Reordered d' := by
  obtain ⟨⟨_, d'⟩, hm', rfl⟩ := List.mem_map.1 (h.names.mem_iff.1 (List.mem_map_of_mem hm))
  exact ⟨d', hm', h.documents hm hm'⟩

theorem exists_left (h : fields.Reordered others) (hm : (name, d) ∈ others) :
    ∃ d', (name, d') ∈ fields ∧ d'.Reordered d := by
  obtain ⟨⟨_, d'⟩, hm', rfl⟩ := List.mem_map.1 (h.names.mem_iff.2 (List.mem_map_of_mem hm))
  exact ⟨d', hm', h.documents hm' hm⟩

theorem take? (h : fields.Reordered others) (name : String) :
    fields.take? name = none ∧ others.take? name = none ∨
    ∃ d left d' left', fields.take? name = some (d, left) ∧ others.take? name = some (d', left') ∧
      d.Reordered d' ∧ left.Reordered left' := by
  by_cases hn : name ∈ fields.names
  · have hs : fields.take? name ≠ none := fun hf => take?_eq_none.1 hf hn
    have ho : others.take? name ≠ none := fun hf => take?_eq_none.1 hf (h.names.mem_iff.1 hn)
    obtain ⟨⟨d, left⟩, hd⟩ := Option.ne_none_iff_exists'.1 hs
    obtain ⟨⟨d', left'⟩, hd'⟩ := Option.ne_none_iff_exists'.1 ho
    have hp := perm_of_take? hd
    have hp' := perm_of_take? hd'
    have hnames := ((names_perm_of_take? hd).symm.trans h.names).trans (names_perm_of_take? hd')
    refine .inr ⟨d, left, d', left', hd, hd', ?_, ?_⟩
    · exact h.documents (hp.mem_iff.2 List.mem_cons_self) (hp'.mem_iff.2 List.mem_cons_self)
    · refine ⟨?_, hnames.cons_inv, fun hm hm' => ?_⟩
      · exact (List.nodup_cons.1 ((names_perm_of_take? hd).nodup_iff.1 h.nodup)).2
      · exact h.documents (hp.mem_iff.2 (List.mem_cons_of_mem _ hm))
          (hp'.mem_iff.2 (List.mem_cons_of_mem _ hm'))
  · exact .inl ⟨take?_eq_none.2 hn, take?_eq_none.2 (mt h.names.mem_iff.2 hn)⟩

end Reordered

end Fields

namespace Reader

/-- What is left of two nodes differs only in the order of fields. -/
inductive Node.Reordered : Node → Node → Prop where
  | value {d d' : Json} (h : d.Reordered d') : Reordered (.value d) (.value d')
  | object {fields others : Fields} (h : fields.Reordered others) : Reordered (.object fields) (.object others)
  | array {items others : List Json} {length : Nat} (h : List.Forall₂ Json.Reordered items others) :
    Reordered (.array items length) (.array others length)

namespace Node.Reordered

variable {n n' : Node}

theorem fields? (h : n.Reordered n') :
    n.fields? = none ∧ n'.fields? = none ∨
    ∃ fields others : Fields, n.fields? = some fields ∧ n'.fields? = some others ∧ fields.Reordered others := by
  cases h with
  | value h =>
    cases h with
    | leaf hl =>
      rename_i d l
      cases d with
      | object fields => cases hl
      | _ => exact .inl ⟨rfl, rfl⟩
    | array h => exact .inl ⟨rfl, rfl⟩
    | object nodup names documents => exact .inr ⟨_, _, rfl, rfl, nodup, names, documents _ _ _⟩
  | object h => exact .inr ⟨_, _, rfl, rfl, h⟩
  | array h => exact .inl ⟨rfl, rfl⟩

theorem items? (h : n.Reordered n') :
    n.items? = none ∧ n'.items? = none ∨
    ∃ items others length, n.items? = some (items, length) ∧ n'.items? = some (others, length) ∧
      List.Forall₂ Json.Reordered items others := by
  cases h with
  | value h =>
    cases h with
    | leaf hl =>
      rename_i d l
      cases d with
      | array items => cases hl
      | _ => exact .inl ⟨rfl, rfl⟩
    | array h => exact .inr ⟨_, _, _, rfl, by rw [h.length_eq]; rfl, h⟩
    | object => exact .inl ⟨rfl, rfl⟩
  | object h => exact .inl ⟨rfl, rfl⟩
  | array h => exact .inr ⟨_, _, _, rfl, rfl, h⟩

end Node.Reordered

def Reordered (r r' : Reader) : Prop := List.Forall₂ Node.Reordered r.nodes r'.nodes

/-- Steps that end alike on documents that differ in the order of fields. -/
def Orderless {α : Type} (x : Attempt Reader α) : Prop := Coupled Unspecified Reordered Reordered Eq x x

theorem Reordered.startField_cases {p q : Reader} (h : p.Reordered q) (name : String) :
    (∃ p' q', startField name p = (.ok (), p') ∧ startField name q = (.ok (), q') ∧ p'.Reordered q') ∨
    (∃ p' q', startField name p = (.error (.fieldAbsent name), p') ∧
      startField name q = (.error (.fieldAbsent name), q') ∧ p'.Reordered q') ∨
    ∃ cause cause' p' q', startField name p = (.error (.malformed cause), p') ∧
      startField name q = (.error (.malformed cause'), q') := by
  obtain ⟨nodes⟩ := p
  obtain ⟨nodes'⟩ := q
  cases h with
  | nil => exact .inr (.inr ⟨_, _, _, _, rfl, rfl⟩)
  | cons hn hrest =>
    obtain ⟨h, h'⟩ | ⟨fields, others, h, h', hf⟩ := hn.fields?
    · exact .inr (.inr ⟨_, _, _, _, startField_of_none h, startField_of_none h'⟩)
    · obtain ⟨ht, ht'⟩ | ⟨d, left, d', left', ht, ht', hd, hl⟩ := hf.take? name
      · exact .inr (.inl ⟨_, _, startField_of_absent h ht, startField_of_absent h' ht', .cons (.object hf) hrest⟩)
      · exact .inl ⟨_, _, startField_of_take? h ht, startField_of_take? h' ht',
          .cons (.value hd) (.cons (.object hl) hrest)⟩

theorem orderless_startField (name : String) : Orderless (startField name) := by
  intro p q h
  obtain ⟨p', q', hp, hq, h'⟩ | ⟨p', q', hp, hq, -⟩ | ⟨cause, cause', p', q', hp, hq⟩ := h.startField_cases name
  · rw [hp, hq]
    exact .ok rfl h'
  · rw [hp, hq]
    exact .error trivial
  · rw [hp, hq]
    exact .error trivial

theorem orderless_startElement : Orderless startElement := by
  rintro ⟨nodes⟩ ⟨nodes'⟩ h
  cases h with
  | nil => exact .error trivial
  | cons hn hrest =>
    obtain ⟨h, h'⟩ | ⟨items, others, length, h, h', hi⟩ := hn.items?
    · rw [startElement_of_none h, startElement_of_none h']
      exact .error trivial
    · cases hi with
      | nil =>
        rw [startElement_of_no_more h, startElement_of_no_more h']
        exact .error trivial
      | cons hd hi =>
        rw [startElement_of_items? h, startElement_of_items? h']
        exact .ok rfl (.cons (.value hd) (.cons (.array hi) hrest))

theorem orderless_readSize : Orderless readSize := by
  rintro ⟨nodes⟩ ⟨nodes'⟩ h
  cases h with
  | nil => exact .error trivial
  | cons hn hrest =>
    obtain ⟨h, h'⟩ | ⟨items, others, length, h, h', hi⟩ := hn.items?
    · rw [readSize_of_none h, readSize_of_none h']
      exact .error trivial
    · rw [readSize_of_items? h, readSize_of_items? h']
      exact .ok rfl (.cons (.array hi) hrest)

theorem orderless_readValue : Orderless readValue := by
  rintro ⟨nodes⟩ ⟨nodes'⟩ h
  cases h with
  | nil => exact .error trivial
  | cons hn hrest =>
    cases hn with
    | object _ => exact .error trivial
    | array _ => exact .error trivial
    | value hd =>
      cases hd with
      | leaf hl =>
        rw [readValue_of_leaf? hl, readValue_of_leaf? hl]
        exact .ok rfl (.cons (.value (.leaf rfl)) hrest)
      | array _ => exact .error trivial
      | object _ _ _ => exact .error trivial

theorem orderless_isNull : Orderless isNull := by
  rintro ⟨nodes⟩ ⟨nodes'⟩ h
  cases h with
  | nil => exact .error trivial
  | cons hn hrest =>
    cases hn with
    | object h => exact .ok rfl (.cons (.object h) hrest)
    | array h => exact .ok rfl (.cons (.array h) hrest)
    | value hd =>
      cases hd with
      | array h => exact .ok rfl (.cons (.value (.array h)) hrest)
      | object nodup names documents => exact .ok rfl (.cons (.value (.object nodup names documents)) hrest)
      | leaf hl =>
        rename_i d leaf
        cases d <;> exact .ok rfl (.cons (.value (.leaf hl)) hrest)

theorem orderless_finishNode : Orderless finishNode := by
  rintro ⟨nodes⟩ ⟨nodes'⟩ h
  cases h with
  | nil => exact .error trivial
  | cons hn hrest =>
    cases hrest with
    | nil => exact .error trivial
    | cons hm hrest => exact .ok rfl (.cons hm hrest)

end Reader

end Archivist
