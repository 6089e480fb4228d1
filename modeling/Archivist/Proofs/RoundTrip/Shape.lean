import Archivist.Proofs.RoundTrip.Depth
import Archivist.Proofs.RoundTrip.Records

/-!
What values that fit write: which of them write fields, which write null, and where tags stand.
-/

set_option autoImplicit false

namespace Archivist

namespace Saving

variable {env : Saving}

theorem forall₂_of_writtenItems {vs : List Value} {items : List Json} (h : env.writtenItems vs = some items) :
    List.Forall₂ (fun v d => ∃ b, env.written v = some b ∧ d = b.close) vs items := by
  induction vs generalizing items with
  | nil =>
    cases h
    exact .nil
  | cons v vs ih =>
    simp only [writtenItems_cons, Option.bind_eq_some_iff, Option.map_eq_some_iff] at h
    obtain ⟨b, hb, rest, hr, rfl⟩ := h
    exact .cons ⟨b, hb, rfl⟩ (ih hr)

theorem leafJson_of_written {a : Atom} {b : Writer.Node} (h : env.written (.atom a) = some b) :
    ∃ d, Writer.leafJson a.leaf = .ok d ∧ b = .leaf d := by
  obtain ⟨d, hd, rfl⟩ := Option.map_eq_some_iff.1 h
  exact ⟨d, Writer.leafJson_eq_ok hd, rfl⟩

theorem written_atom_ne_null {a : Atom} : env.written (.atom a) ≠ some (.leaf .null) := by
  intro h
  obtain ⟨d, hd, he⟩ := leafJson_of_written h
  cases he
  cases a with
  | int kind n =>
    simp only [Atom.leaf] at hd
    split at hd <;> cases hd
  | float width x =>
    simp only [Atom.leaf, Writer.leafJson] at hd
    split at hd <;> cases hd
  | _ => cases hd

end Saving

namespace Exchange

open Saving

variable {E : Exchange} {unknownTypes : UnknownTypes} {prior v : Value} {type : Ty} {b : Writer.Node}

theorem Fits.target? {name : String} (h : E.Fits prior (.record name) v) :
    v.target? = some (.record name) := by
  cases h
  rfl

theorem written_tagged {name : String} (hi : (E.schema.identity (.record name)).isTagged = true)
    (h : E.Fits prior (.record name) v)
    (hb : (E.saving unknownTypes).written (.ref (.record name) v) = some b) :
    ∃ c, (E.saving unknownTypes).written v = some c ∧
      (tagNode (E.schema.tag (.record name))).merge c = some b := by
  have hp : (E.saving unknownTypes).schema.isPolymorphic (.record name) = true := isPolymorphic_of_tagged hi
  rw [written_ref, writtenBehind, if_pos hp, if_pos h.target?] at hb
  exact Option.bind_eq_some_iff.1 hb

theorem written_base {base name : String} (hs : E.Serves base name) (h : E.Fits prior (.record name) v)
    (hb : (E.saving unknownTypes).written (.ref (.base base) v) = some b) :
    ∃ c, (E.saving unknownTypes).written v = some c ∧
      (tagNode (E.schema.tag (.record name))).merge c = some b := by
  have hp : (E.saving unknownTypes).schema.isPolymorphic (.base base) = true := rfl
  have hout : v.target?.bind ((E.saving unknownTypes).registry.output? (E.saving unknownTypes).archive) =
      some ⟨.record name, E.schema.tag (.record name)⟩ := by
    rw [h.target?]
    exact hs.output
  rw [written_ref, writtenBehind, if_pos hp, if_neg (by simp [h.target?])] at hb
  simp only [hout] at hb
  rw [if_pos h.target?] at hb
  exact Option.bind_eq_some_iff.1 hb

theorem written_plain {target : Target} (hi : E.schema.identity target = .plain) :
    (E.saving unknownTypes).written (.ref target v) = (E.saving unknownTypes).written v := by
  have hp : (E.saving unknownTypes).schema.isPolymorphic target = false := isPolymorphic_of_plain hi
  rw [written_ref, writtenBehind, if_neg (by simp [hp])]

namespace Fits

theorem fields?_of_writtenFields {declared : List Field} {vs : List Value}
    (h : ∀ x ∈ declared.zip vs, x.1.mode = .flattened → ∀ ⦃c⦄,
      (E.saving unknownTypes).written x.2 = some c → ∃ fields, c.fields? = some fields)
    (hb : (E.saving unknownTypes).writtenFields declared vs = some b) :
    ∃ fields, b.fields? = some fields := by
  induction declared generalizing vs b with
  | nil =>
    cases vs <;> cases hb <;> exact ⟨[], rfl⟩
  | cons field declared ih =>
    cases vs with
    | nil =>
      cases hb
      exact ⟨[], rfl⟩
    | cons v vs =>
      simp only [writtenFields_cons, Option.bind_eq_some_iff] at hb
      obtain ⟨c, hc, r, hr, hm⟩ := hb
      obtain ⟨rest, hrest⟩ := ih (fun x hx => h x (List.mem_cons_of_mem _ hx)) hr
      have hfirst : ∃ first, c.fields? = some first := by
        cases hmode : field.mode with
        | skipped =>
          simp only [writtenField, Writer.Node.asField, hmode] at hc
          cases hc
          exact ⟨[], rfl⟩
        | flattened =>
          simp only [writtenField, Writer.Node.asField, hmode] at hc
          exact h _ List.mem_cons_self hmode hc
        | _ =>
          simp only [writtenField, Writer.Node.asField, hmode] at hc
          obtain ⟨c', -, rfl⟩ := Option.map_eq_some_iff.1 hc
          exact ⟨_, rfl⟩
      obtain ⟨first, hfirst⟩ := hfirst
      exact ⟨_, Writer.Node.fields?_of_merge hfirst hrest hm⟩

theorem fields?_of_written (h : E.Fits prior type v) (hc : type.canFlatten = true)
    (hb : (E.saving unknownTypes).written v = some b) : ∃ fields, b.fields? = some fields := by
  induction h generalizing b with
  | @map _ _ key _ entries _ _ _ _ =>
    have ht : key.isTextual = true := hc
    rw [written_map, if_pos ht] at hb
    obtain ⟨fields, -, rfl, -⟩ := Writer.Node.joinNamed_eq_some.1 hb
    exact ⟨fields, Writer.Node.fields?_ofFields fields⟩
  | @record name priors vs hp hv _ _ flat _ ih =>
    rw [written_record] at hb
    refine fields?_of_writtenFields (fun x hx hm c hc => ?_) hb
    obtain ⟨p, hz⟩ := exists_mem_zip (hp.trans hv.symm) hx
    exact ih _ hz (by simp [hm]) (flat x.1 (List.of_mem_zip hx).1 hm) hc
  | @plain _ _ _ target _ hi ht _ ih =>
    rw [written_plain hi] at hb
    cases target with
    | record name =>
      cases ht
      exact ih rfl hb
    | atom type => cases hc
    | base name => cases ht
  | tagged hi _ h _ =>
    obtain ⟨c, -, hm⟩ := written_tagged hi h hb
    exact fields?_of_tagged hm
  | base hs h _ =>
    obtain ⟨c, -, hm⟩ := written_base hs h hb
    exact fields?_of_tagged hm
  | _ => cases hc

theorem ne_null (h : E.Fits prior type v) (ho : type.isOption = false)
    (hb : (E.saving unknownTypes).written v = some b) : b ≠ .leaf .null := by
  rintro rfl
  cases hc : type.canFlatten with
  | true =>
    obtain ⟨fields, hf⟩ := h.fields?_of_written hc hb
    cases hf
  | false =>
    cases h with
    | atom _ => exact written_atom_ne_null hb
    | absent => cases ho
    | present _ _ => cases ho
    | list _ => simp at hb
    | array _ _ => simp at hb
    | @map _ _ key _ _ _ _ _ =>
      have ht : key.isTextual = false := hc
      simp [ht] at hb
    | record _ _ _ _ _ _ => cases hc
    | @plain _ _ _ target _ hi ht h =>
      rw [written_plain hi] at hb
      cases target with
      | atom type =>
        cases ht
        cases h
        exact written_atom_ne_null hb
      | record name => cases hc
      | base name => cases ht
    | tagged _ _ _ => cases hc
    | base _ _ => cases hc

end Fits

end Exchange

end Archivist
