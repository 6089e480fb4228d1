import Archivist.Json.Parser
import Archivist.Proofs.Json.Parts
import Archivist.Proofs.Number.Rounded

/-!
What texts are read as. Main statement: the document of a text is valid, whatever the text. Its numbers
are finite, its whole numbers fit into 64 bits, and a repeated name leaves one field.
-/

set_option autoImplicit false

namespace Archivist

namespace Fields

theorem mem_names_put {key name : String} {value : Json} {fields : Fields} :
    key ∈ (put name value fields).names ↔ key = name ∨ key ∈ fields.names := by
  induction fields with
  | nil => simp [put, names]
  | cons field rest ih =>
    obtain ⟨other, old⟩ := field
    rw [put]
    split
    · subst other
      simp [names]
    · simp only [names, List.map_cons, List.mem_cons] at ih ⊢
      rw [ih]
      exact or_left_comm

theorem nodup_put {fields : Fields} (h : fields.names.Nodup) (name : String) (value : Json) :
    (put name value fields).names.Nodup := by
  induction fields with
  | nil => simp [put, names]
  | cons field rest ih =>
    obtain ⟨other, old⟩ := field
    obtain ⟨hother, hrest⟩ := List.nodup_cons.1 h
    rw [put]
    split
    · subst other
      exact List.nodup_cons.2 ⟨hother, hrest⟩
    · refine List.nodup_cons.2 ⟨fun hm => ?_, ih hrest⟩
      rcases mem_names_put.1 hm with heq | hm
      · exact ‹¬ other = name› heq
      · exact hother hm

theorem mem_of_mem_put {name : String} {value : Json} {fields : Fields} {field : String × Json}
    (h : field ∈ put name value fields) : field = (name, value) ∨ field ∈ fields := by
  induction fields with
  | nil => exact .inl (List.mem_singleton.1 h)
  | cons first rest ih =>
    obtain ⟨key, old⟩ := first
    rw [put] at h
    split at h
    · exact (List.mem_cons.1 h).imp_right (List.mem_cons_of_mem _)
    · rcases List.mem_cons.1 h with rfl | hm
      · exact .inr List.mem_cons_self
      · exact (ih hm).imp_right (List.mem_cons_of_mem _)

theorem nodup_ofEntries (entries : List (String × Json)) : (ofEntries entries).names.Nodup :=
  List.foldlRecOn (motive := fun fields => (names fields).Nodup) entries _ List.nodup_nil
    fun _ h entry _ => nodup_put h entry.1 entry.2

theorem mem_of_mem_ofEntries {entries : List (String × Json)} :
    ∀ field ∈ ofEntries entries, field ∈ entries :=
  List.foldlRecOn (motive := fun fields => ∀ field ∈ fields, field ∈ entries) entries _
    (fun _ h => absurd h List.not_mem_nil)
    fun _ ih _ he field h => (mem_of_mem_put h).elim (fun heq => heq ▸ he) (ih field)

end Fields

namespace Json

theorem valid_array {items : List Json} : (array items).Valid ↔ ∀ item ∈ items, item.Valid :=
  forall_parts_array.trans (and_iff_right trivial)

theorem valid_object {fields : Fields} :
    (object fields).Valid ↔ fields.names.Nodup ∧ ∀ field ∈ fields, field.2.Valid :=
  forall_parts_object

theorem Proper.valid {d : Json} (h : d.Proper) (hd : d.parts = [d]) : d.Valid := by
  intro part hm
  rw [hd, List.mem_singleton] at hm
  exact hm ▸ h

theorem valid_ofNumeral {n : Numeral} {whole : Bool} {d : Json} (h : ofNumeral n whole = some d) :
    d.Valid := by
  simp only [ofNumeral, Nat.pow_eq] at h
  split_ifs at h
  · cases h
    refine Proper.valid ?_ rfl
    simp only [Proper]
    omega
  · cases h
    refine Proper.valid ?_ rfl
    simp only [Proper]
    omega
  · obtain ⟨x, hx, rfl⟩ := Option.map_eq_some_iff.1 h
    exact Proper.valid (Numeral.twiceRounded?_proper hx) rfl

theorem valid_of_readNumber {negative : Bool} {cs rest : List Char} {d : Json}
    (h : readNumber negative cs = some (d, rest)) : d.Valid := by
  simp only [readNumber, bind, Option.bind_eq_some_iff, Prod.exists, Option.some.injEq,
    Prod.mk.injEq] at h
  obtain ⟨_, _, _, _, _, _, _, _, _, d', hd, rfl, _⟩ := h
  exact valid_ofNumeral hd

section

variable {fuel room : Nat} {cs rest : List Char}

theorem valid_of_readValue {d : Json}
    (ihItems : ∀ room cs items rest, readItems fuel room cs = some (items, rest) → ∀ item ∈ items, item.Valid)
    (ihFields : ∀ room cs fields rest, readFields fuel room cs = some (fields, rest) →
      ∀ field ∈ fields, field.2.Valid)
    (h : readValue (fuel + 1) room cs = some (d, rest)) : d.Valid := by
  rw [readValue] at h
  split at h
  · cases h
    exact Proper.valid trivial rfl
  · cases h
    exact Proper.valid trivial rfl
  · cases h
    exact Proper.valid trivial rfl
  · obtain ⟨⟨text, _⟩, _, heq⟩ := Option.map_eq_some_iff.1 h
    cases heq
    exact Proper.valid trivial rfl
  · exact valid_of_readNumber h
  · split at h
    · cases h
    · split at h
      · cases h
        exact valid_array.2 fun _ hm => absurd hm List.not_mem_nil
      · obtain ⟨⟨items, _⟩, hitems, heq⟩ := Option.map_eq_some_iff.1 h
        cases heq
        exact valid_array.2 (ihItems _ _ _ _ hitems)
  · split at h
    · cases h
    · split at h
      · cases h
        exact valid_object.2 ⟨List.nodup_nil, fun _ hm => absurd hm List.not_mem_nil⟩
      · obtain ⟨⟨fields, _⟩, hfields, heq⟩ := Option.map_eq_some_iff.1 h
        cases heq
        exact valid_object.2 ⟨Fields.nodup_ofEntries _, fun field hm =>
          ihFields _ _ _ _ hfields field (Fields.mem_of_mem_ofEntries field hm)⟩
  · exact valid_of_readNumber h

theorem valid_of_readItems {items : List Json}
    (ihValue : ∀ room cs d rest, readValue fuel room cs = some (d, rest) → d.Valid)
    (ihItems : ∀ room cs items rest, readItems fuel room cs = some (items, rest) → ∀ item ∈ items, item.Valid)
    (h : readItems (fuel + 1) room cs = some (items, rest)) : ∀ item ∈ items, item.Valid := by
  rw [readItems] at h
  obtain ⟨⟨item, after⟩, hitem, h⟩ := Option.bind_eq_some_iff.1 h
  have hvalid := ihValue _ _ _ _ hitem
  simp only at h
  split at h
  · obtain ⟨⟨others, after⟩, hothers, heq⟩ := Option.bind_eq_some_iff.1 h
    cases heq
    exact List.forall_mem_cons.2 ⟨hvalid, ihItems _ _ _ _ hothers⟩
  · cases h
    simpa using hvalid
  · cases h

theorem valid_of_readFields {fields : Fields}
    (ihValue : ∀ room cs d rest, readValue fuel room cs = some (d, rest) → d.Valid)
    (ihFields : ∀ room cs fields rest, readFields fuel room cs = some (fields, rest) →
      ∀ field ∈ fields, field.2.Valid)
    (h : readFields (fuel + 1) room cs = some (fields, rest)) : ∀ field ∈ fields, field.2.Valid := by
  rw [readFields] at h
  split at h
  · obtain ⟨⟨name, after⟩, _, h⟩ := Option.bind_eq_some_iff.1 h
    simp only at h
    split at h
    · obtain ⟨⟨value, after⟩, hvalue, h⟩ := Option.bind_eq_some_iff.1 h
      have hvalid := ihValue _ _ _ _ hvalue
      simp only at h
      split at h
      · obtain ⟨⟨others, after⟩, hothers, heq⟩ := Option.bind_eq_some_iff.1 h
        cases heq
        exact List.forall_mem_cons.2 ⟨hvalid, ihFields _ _ _ _ hothers⟩
      · cases h
        simpa using hvalid
      · cases h
    · cases h
  · cases h

end

theorem valid_of_read (fuel : Nat) :
    (∀ room cs d rest, readValue fuel room cs = some (d, rest) → d.Valid) ∧
    (∀ room cs items rest, readItems fuel room cs = some (items, rest) → ∀ item ∈ items, item.Valid) ∧
    ∀ room cs fields rest, readFields fuel room cs = some (fields, rest) →
      ∀ field ∈ fields, field.2.Valid := by
  induction fuel with
  | zero => exact ⟨nofun, nofun, nofun⟩
  | succ fuel ih =>
    obtain ⟨ihValue, ihItems, ihFields⟩ := ih
    exact ⟨fun _ _ _ _ => valid_of_readValue ihItems ihFields,
      fun _ _ _ _ => valid_of_readItems ihValue ihItems,
      fun _ _ _ _ => valid_of_readFields ihValue ihFields⟩

theorem valid_of_parse? {text : String} {d : Json} (h : parse? text = some d) : d.Valid := by
  rw [parse?] at h
  obtain ⟨⟨document, rest⟩, hread, h⟩ := Option.bind_eq_some_iff.1 h
  simp only at h
  split at h
  · cases h
    exact (valid_of_read _).1 _ _ _ _ hread
  · cases h

end Json

end Archivist
