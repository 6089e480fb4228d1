import Archivist.Proofs.Document.TextPath

/-!
Whole numbers from one kind to another. Main statement: what was saved as a number of one kind is loaded as
a number of another exactly if that kind has the number, and is then the same number; the form of the leaf
that carries it makes no difference.
-/

set_option autoImplicit false

namespace Archivist

variable {n : Int} {kind : IntKind}

theorem Saving.toJson_int (env : Saving) (h : kind.InRange n) :
    (env.toJson (.atom (.int kind n))).result = .ok (.int n) := by
  have hw : env.written (.atom (.int kind n)) = some (.leaf (.int n)) := by
    rw [written_atom, leafNode, Writer.leafJson_of_toInt? h.toInt?_leaf]
    rfl
  exact env.toJson_of_written hw

namespace Loading

open ReadState

variable (env : Loading)

theorem loadNew_atom (type : AtomTy) : env.loadNew (.atom type) = do return .atom (← readAtom type) := by
  funext s
  simp only [loadNew, loader, steps, newWithin_succ, stepNew]

theorem load_atom (type : AtomTy) : env.load (.atom type) = Slot.assign do return .atom (← readAtom type) := by
  funext slot
  simp only [load, loader, steps, intoWithin_succ, stepInto]

/-- The number that is read, or what is wrong with it. The archive has turned it into a signed leaf if it
could. -/
theorem readAtom_int (kind : IntKind) {s : ReadState} {outer : List Reader.Node}
    (hs : s.reader = ⟨.value (.int n) :: outer⟩) :
    (do return Value.atom (← readAtom (.int kind)) : Attempt ReadState Value) s =
      (if kind.InRange n then .ok (.atom (.int kind n))
        else .error (.malformed (.outOfRange (.ofInt n) kind.readName)),
        { s with reader := ⟨.value .null :: outer⟩ }) := by
  have hread : onReader Reader.readValue s = (.ok (.ofInt n), { s with reader := ⟨.value .null :: outer⟩ }) :=
    onReader_of_eq (hs ▸ Reader.readValue_of_leaf? rfl)
  have hkind := AtomTy.read_of_toInt? (Leaf.toInt?_ofInt n) kind
  rw [readAtom, bind_assoc, Attempt.bind_of_eq_ok hread]
  by_cases h : kind.InRange n
  · rw [hkind, if_pos h, if_pos h]
    rfl
  · rw [hkind, if_neg h, if_neg h]
    rfl

variable (registry : Registry)

theorem ofJson_int (kind : IntKind) (n : Int) :
    env.ofJson (.atom (.int kind)) registry (.int n) =
      ⟨if kind.InRange n then .ok (.atom (.int kind n))
        else .error (.malformed (.outOfRange (.ofInt n) kind.readName)), registry, []⟩ := by
  rw [ofJson, loadNew_atom, readAtom_int kind rfl]

theorem intoJson_int (kind : IntKind) (n : Int) (prior : Value) :
    env.intoJson (.atom (.int kind)) registry (.int n) prior =
      if kind.InRange n then (.atom (.int kind n), ⟨.ok (), []⟩, registry)
      else (prior, ⟨.error (.malformed (.outOfRange (.ofInt n) kind.readName)), []⟩, registry) := by
  have hread := readAtom_int kind (s := ⟨.ofJson (.int n), registry, []⟩) rfl
  rw [intoJson, load_atom]
  by_cases h : kind.InRange n
  · rw [if_pos h] at hread ⊢
    rw [Slot.assign_of_eq_ok hread]
  · rw [if_neg h] at hread ⊢
    rw [Slot.assign_of_eq_error hread]

theorem ofText_int (type : Ty) (hmin : -2 ^ 63 ≤ n) (hmax : n < 2 ^ 64) (indented : Bool) :
    env.ofText type registry ((Json.int n).render indented) = env.ofJson type registry (.int n) := by
  have hvalid : (Json.int n).Valid := by
    simpa [Json.Valid, Json.parts] using ⟨hmin, hmax⟩
  have hwhole : (Json.int n).FloatFree := by
    simp [Json.FloatFree, Json.parts, Json.isFloat]
  have hread := Json.parse?_render indented hvalid hwhole
  have hdepth : (Json.int n).depth ≤ Json.maxDepth := Nat.zero_le _
  rw [if_pos hdepth] at hread
  exact env.ofText_of_parse? type registry hread

/-- Loading a document as a number of the kind is exact: it succeeds just if the kind has the number, and
then gives that number; else the document is malformed, and the error shows the number. In place, nothing
but the number itself is ever put into the value. -/
structure Exact (kind : IntKind) (d : Json) (n : Int) : Prop where
  succeeds_iff : (∃ v, (env.ofJson (.atom (.int kind)) registry d).result = .ok v) ↔ kind.InRange n
  same : ∀ v, (env.ofJson (.atom (.int kind)) registry d).result = .ok v → v = .atom (.int kind n)
  refused : ¬ kind.InRange n → (env.ofJson (.atom (.int kind)) registry d).result =
    .error (.malformed (.outOfRange (.ofInt n) kind.readName))
  in_place : ∀ prior, env.intoJson (.atom (.int kind)) registry d prior =
    if kind.InRange n then (.atom (.int kind n), ⟨.ok (), []⟩, registry)
    else (prior, ⟨.error (.malformed (.outOfRange (.ofInt n) kind.readName)), []⟩, registry)

theorem exact_int (kind : IntKind) (n : Int) : env.Exact registry kind (.int n) n := by
  have hload := congrArg Loaded.result (env.ofJson_int registry kind n)
  by_cases h : kind.InRange n
  · rw [if_pos h] at hload
    exact ⟨⟨fun _ => h, fun _ => ⟨_, hload⟩⟩, fun v hv => Except.ok.inj (hv.symm.trans hload),
      fun hn => absurd h hn, env.intoJson_int registry kind n⟩
  · rw [if_neg h] at hload
    refine ⟨⟨?_, fun hn => absurd hn h⟩, ?_, fun _ => hload, env.intoJson_int registry kind n⟩
    · rintro ⟨v, hv⟩
      cases hload.symm.trans hv
    · intro v hv
      cases hload.symm.trans hv

/-- Whole numbers cross from kind to kind as they are. What is saved as a number of one kind is loaded
exactly as one of another. So is every number from `-2^63` to `2^64 - 1` in a document or its text, and either
form of leaf that carries such a number is written and read by the number alone. The numbers that a kind has
are those that its machine words do not wrap. -/
theorem integers_cross_exactly (saving : Saving) (loading : Loading) (registry : Registry) (source target : IntKind) :
    (∀ n, source.InRange n → ∃ d, (saving.toJson (.atom (.int source n))).result = .ok d ∧
      loading.Exact registry target d n) ∧
    (∀ n : Int, -2 ^ 63 ≤ n → n < 2 ^ 64 →
      loading.Exact registry target (.int n) n ∧
      (∀ indented, loading.ofText (.atom (.int target)) registry ((Json.int n).render indented) =
        loading.ofJson (.atom (.int target)) registry (.int n)) ∧
      ∀ leaf : Leaf, leaf.toInt? = some n → Writer.leafJson leaf = .ok (.int n) ∧
        AtomTy.read (.int target) leaf =
          if target.InRange n then .ok (.int target n) else .error (.outOfRange leaf target.readName)) ∧
    ∀ n, target.InRange n ↔ target.wrap n = n := by
  refine ⟨fun n hn => ⟨_, saving.toJson_int hn, loading.exact_int registry target n⟩, fun n hmin hmax => ?_,
    fun _ => IntKind.inRange_iff_wrap_eq⟩
  refine ⟨loading.exact_int registry target n, loading.ofText_int registry _ hmin hmax, fun leaf hl => ?_⟩
  exact ⟨Writer.leafJson_of_toInt? hl, AtomTy.read_of_toInt? hl target⟩

/-- The greatest word is refused as a signed number of the same width and taken as an unsigned one. A byte
that would wrap to a negative number is refused too, from text. -/
theorem greatest_crosses :
    let saving : Saving := ⟨{ path := "", records := [] }, .empty, .jsonWriter, .sentinel⟩
    let loading : Loading := ⟨{ path := "", records := [] }, .jsonReader⟩
    (∃ d, (saving.toJson (.atom (.int .u64 18446744073709551615))).result = .ok d ∧
      (loading.ofJson (.atom (.int .i64)) .empty d).result =
        .error (.malformed (.outOfRange (.uint 18446744073709551615) "i64")) ∧
      (loading.ofJson (.atom (.int .usize)) .empty d).result = .ok (.atom (.int .usize 18446744073709551615))) ∧
    IntKind.i8.wrap 255 = -1 ∧
    (loading.ofText (.atom (.int .i8)) .empty ((Json.int 255).render true)).result =
      .error (.malformed (.outOfRange (.int 255) "i8")) := by
  intro saving loading
  obtain ⟨d, hd, hsigned⟩ :=
    (integers_cross_exactly saving loading .empty .u64 .i64).1 18446744073709551615 (by decide)
  obtain ⟨d', hd', hunsigned⟩ :=
    (integers_cross_exactly saving loading .empty .u64 .usize).1 18446744073709551615 (by decide)
  cases hd.symm.trans hd'
  obtain ⟨v, hv⟩ := hunsigned.succeeds_iff.2 (by decide)
  obtain ⟨hbyte, htext, -⟩ :=
    (integers_cross_exactly saving loading .empty .u8 .i8).2.1 255 (by decide) (by decide)
  refine ⟨⟨d, hd, hsigned.refused (by decide), ?_⟩, by decide, ?_⟩
  · rw [hv, hunsigned.same v hv]
  · rw [htext, hbyte.refused (by decide)]
    rfl

end Loading

end Archivist
