import Archivist.Proofs.Json.Reading
import Archivist.Proofs.Saving.Documents

/-!
Text and documents. Main statement: saving to text and loading from it agrees with saving to a document
and loading from that, as long as the text layer can open all containers of the document.
-/

set_option autoImplicit false

namespace Archivist

theorem Saving.toText_of_toJson {env : Saving} {v : Value} {d : Json} (h : (env.toJson v).result = .ok d)
    (indented : Bool) : (env.toText indented v).result = .ok (d.render indented) := by
  rw [toText, h]
  rfl

theorem Loading.ofText_of_parse? (env : Loading) (type : Ty) (registry : Registry) {text : String} {d : Json}
    (h : Json.parse? text = some d) : env.ofText type registry text = env.ofJson type registry d := by
  rw [ofText, h]

/-- A value whose document has no floats. The text of the document, compact or indented, is a document
again exactly if no more than 127 arrays and objects nest in it; it is then that very document, whatever
is loaded from it. -/
theorem Saving.toText_agrees (env : Saving) (v : Value) (typed : env.schema.Typed v) (d : Json)
    (saved : (env.toJson v).result = .ok d) (whole : d.FloatFree) (indented : Bool) :
    (env.toText indented v).result = .ok (d.render indented) ∧
    ((Json.parse? (d.render indented)).isSome ↔ d.depth ≤ 127) ∧
    (d.depth ≤ 127 → Json.parse? (d.render indented) = some d ∧
      ∀ (loading : Loading) (type : Ty) (registry : Registry),
        loading.ofText type registry (d.render indented) = loading.ofJson type registry d) := by
  have hread := Json.parse?_render indented (valid_of_toJson typed saved) whole
  rw [Json.maxDepth] at hread
  refine ⟨toText_of_toJson saved indented, ?_, fun hd => ?_⟩
  · rw [hread]
    split <;> simp_all
  · rw [if_pos hd] at hread
    exact ⟨hread, fun loading type registry => loading.ofText_of_parse? type registry hread⟩

def bare : Saving := ⟨{ path := "", records := [] }, .empty, .jsonWriter, .reject⟩

/-- Field names and strings with characters that are escaped, both ends of the range of whole numbers,
and empty containers. -/
def parcel : Value :=
  .map .text
    [(.text "\"\\\n\x01é", .list [.atom (.int .i64 (-9223372036854775808)), .atom (.int .u64 18446744073709551615)]),
     (.text "", .map (.atom .char) [(.char '\t', .present (.list [])), (.char '/', .absent)])]

theorem parcel_agrees : ∃ d,
    (bare.toJson parcel).result = .ok d ∧ d.depth = 4 ∧
    Json.parse? (d.render false) = some d ∧ Json.parse? (d.render true) = some d := by
  have typed : bare.schema.Typed parcel := by
    refine List.forall_mem_cons.2 ⟨trivial, ?_⟩
    refine List.forall_mem_cons.2 ⟨⟨rfl, by decide⟩, List.forall_mem_cons.2 ⟨⟨rfl, by decide⟩, ?_⟩⟩
    exact List.forall_mem_cons.2 ⟨trivial, List.forall_mem_cons.2 ⟨trivial, List.forall_mem_singleton.2 trivial⟩⟩
  have agrees := Saving.toText_agrees bare parcel typed _ rfl (by decide)
  exact ⟨_, rfl, rfl, ((agrees false).2.2 (by decide)).1, ((agrees true).2.2 (by decide)).1⟩

end Archivist
