import Archivist.Proofs.Loading.Lasting
import Archivist.Proofs.Saving.Effect

/-!
Saving is the same in every context. Main statement: into an untouched node a value is written as the
document it has on its own, into an object its fields are added to those that are there, and a field or
an element gets exactly its document.
-/

set_option autoImplicit false

namespace Archivist.Saving

open Writer WriteState

section Context

variable {env : Saving} {v : Value} {s : WriteState} {k : Option String} {n : Node} {rest : List Frame}
  {f : Effect} {d : Json}

theorem exists_node_of_toJson (hx : Works (env.save v) f) (hd : (env.toJson v).result = .ok d) :
    ∃ b, f .pending = .ok b ∧ b.close = d := by
  rw [env.toJson_of_works hx] at hd
  cases hp : f .pending with
  | error e =>
    rw [hp] at hd
    cases hd
  | ok b =>
    rw [hp] at hd
    cases hd
    exact ⟨b, rfl, rfl⟩

theorem save_pending (env : Saving) (v : Value) (hs : s.writer.frames = ⟨k, .pending⟩ :: rest) :
    match (env.toJson v).result with
    | .ok d => ∃ s' m, env.save v s = (.ok (), s') ∧ s'.writer.frames = ⟨k, m⟩ :: rest ∧ m.close = d
    | .error e => ∃ s', env.save v s = (.error e, s') := by
  obtain ⟨f, hx, -⟩ := env.save_writes v
  have hrun := hx.run hs
  rw [env.toJson_of_works hx]
  cases hp : f .pending with
  | error e =>
    simp only [hp] at hrun
    exact hrun
  | ok m =>
    simp only [hp] at hrun
    obtain ⟨s', h, hframes⟩ := hrun
    exact ⟨s', m, h, hframes, rfl⟩

theorem save_object {fields more : Fields} (hs : s.writer.frames = ⟨k, .object fields⟩ :: rest)
    (hd : (env.toJson v).result = .ok (.object more)) (ha : ∀ name ∈ more.names, name ∉ fields.names) :
    ∃ s', env.save v s = (.ok (), s') ∧ s'.writer.frames = ⟨k, .object (fields ++ more)⟩ :: rest := by
  obtain ⟨f, hx, hf⟩ := env.save_writes v
  obtain ⟨b, hp, hclose⟩ := exists_node_of_toJson hx hd
  obtain ⟨_, hb, h⟩ := (hf .pending b).1 hp
  cases h
  have hm : (Node.object fields).merge b = some (.object (fields ++ more)) := by
    have hfields := (hx.sound Node.sound_pending hp more hclose).1
    cases b with
    | pending =>
      cases hfields
      simp
    | object others =>
      cases hfields
      rw [Node.merge_object, if_pos (Fields.apart_iff.2 ha)]
    | array items => cases hfields
    | leaf value => cases hfields
  have hrun := hx.run hs
  simp only [(hf (.object fields) _).2 ⟨b, hb, hm⟩] at hrun
  exact hrun

theorem inField_save {fields : Fields} (name : String) (hs : s.writer.frames = ⟨k, n⟩ :: rest)
    (hn : n.fields? = some fields) (hd : (env.toJson v).result = .ok d) :
    if name ∈ fields.names then
      ∃ s', inField name (env.save v) s = (.error (.unrepresentable (.repeatedField name)), s')
    else
      ∃ s', inField name (env.save v) s = (.ok (), s') ∧
        s'.writer.frames = ⟨k, .object (fields ++ [(name, d)])⟩ :: rest := by
  obtain ⟨f, hx, -⟩ := env.save_writes v
  obtain ⟨b, hp, rfl⟩ := exists_node_of_toJson hx hd
  have hrun := (hx.inField name).run hs
  simp only [Effect.field, hn, hp, Except.bind] at hrun
  by_cases hm : name ∈ fields.names
  · rw [if_pos hm]
    rwa [if_pos (Fields.has_iff.2 hm)] at hrun
  · rw [if_neg hm]
    rwa [if_neg (mt Fields.has_iff.1 hm)] at hrun

theorem inElement_save {items : List Json} (hs : s.writer.frames = ⟨k, .array items⟩ :: rest)
    (hd : (env.toJson v).result = .ok d) :
    ∃ s', inElement (env.save v) s = (.ok (), s') ∧
      s'.writer.frames = ⟨k, .array (items ++ [d])⟩ :: rest := by
  obtain ⟨f, hx, -⟩ := env.save_writes v
  obtain ⟨b, hp, rfl⟩ := exists_node_of_toJson hx hd
  have hrun := hx.inElement.run hs
  simpa only [Effect.element, hp, Except.bind] using hrun

end Context

/-- What saving does to the current node depends on the value's document and on that node alone, and
the nodes around it stay as they are. -/
theorem save_composes (env : Saving) (v : Value) {s : WriteState} {k : Option String} {n : Node}
    {rest : List Frame} (hs : s.writer.frames = ⟨k, n⟩ :: rest) :
    (n = .pending →
      match (env.toJson v).result with
      | .ok d => ∃ s' m, env.save v s = (.ok (), s') ∧ s'.writer.frames = ⟨k, m⟩ :: rest ∧ m.close = d
      | .error e => ∃ s', env.save v s = (.error e, s')) ∧
    (∀ fields more : Fields, n = .object fields → (env.toJson v).result = .ok (.object more) →
      (∀ name ∈ more.names, name ∉ fields.names) →
      ∃ s', env.save v s = (.ok (), s') ∧ s'.writer.frames = ⟨k, .object (fields ++ more)⟩ :: rest) ∧
    (∀ d, (env.toJson v).result = .ok d →
      (∀ name fields, n.fields? = some fields →
        if name ∈ fields.names then
          ∃ s', inField name (env.save v) s = (.error (.unrepresentable (.repeatedField name)), s')
        else
          ∃ s', inField name (env.save v) s = (.ok (), s') ∧
            s'.writer.frames = ⟨k, .object (fields ++ [(name, d)])⟩ :: rest) ∧
      ∀ items, n = .array items →
        ∃ s', inElement (env.save v) s = (.ok (), s') ∧
          s'.writer.frames = ⟨k, .array (items ++ [d])⟩ :: rest) := by
  refine ⟨?_, ?_, fun d hd => ⟨fun name fields hn => inField_save name hs hn hd, ?_⟩⟩
  · rintro rfl
    exact save_pending env v hs
  · rintro fields more rfl hd ha
    exact save_object hs hd ha
  · rintro items rfl
    exact inElement_save hs hd

/-- A tagged record is saved into an object that has an identifier, within an array. -/
theorem holder_composes :
    let env : Saving := { schema := Registry.contested, registry := .empty }
    let v : Value := .ref (.record "Holder") (.record "Holder" [])
    let s : WriteState := { writer := ⟨[⟨none, .object [("id", .int 1)]⟩, ⟨none, .array []⟩]⟩ }
    (env.toJson v).result = .ok (.object [("type", .string "name")]) ∧
    (∃ s', env.save v s = (.ok (), s') ∧
      s'.writer.frames = [⟨none, .object [("id", .int 1), ("type", .string "name")]⟩, ⟨none, .array []⟩]) ∧
    ∃ s', inField "id" (env.save v) s = (.error (.unrepresentable (.repeatedField "id")), s') := by
  intro env v s
  have hs : s.writer.frames = ⟨none, .object [("id", .int 1)]⟩ :: [⟨none, .array []⟩] := rfl
  have hd : (env.toJson v).result = .ok (.object [("type", .string "name")]) := rfl
  obtain ⟨-, hobject, hparts⟩ := save_composes env v hs
  refine ⟨hd, hobject _ _ rfl hd (by decide), ?_⟩
  have hfield := (hparts _ hd).1 "id" _ rfl
  rwa [if_pos (by decide)] at hfield

end Archivist.Saving
