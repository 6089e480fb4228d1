import Mathlib.Tactic.Positivity
import Archivist.Archive.Writer
import Archivist.Schema.Value

/-!
The whole numbers of a kind and the leaves that carry them. Main statements: a kind has the numbers that its
machine words do not wrap, and a leaf is written and read by its number, whichever form it has.
-/

set_option autoImplicit false

namespace Archivist

namespace IntKind

variable (kind : IntKind)

/-- What a machine word of the kind keeps of a number: its lowest bits, a signed kind reading them by two's
complement. -/
def wrap (n : Int) : Int :=
  if kind.signed then (BitVec.ofInt kind.bits n).toInt else (BitVec.ofInt kind.bits n).toNat

theorem bits_pos : 0 < kind.bits := by cases kind <;> decide

variable {kind} {n : Int}

theorem inRange_of_signed (h : kind.signed = true) :
    kind.InRange n ↔ -2 ^ (kind.bits - 1) ≤ n ∧ n < 2 ^ (kind.bits - 1) := by
  simp only [InRange, least, greatest, h, if_true, Nat.pow_eq, Nat.cast_pow, Nat.cast_ofNat]
  omega

theorem inRange_of_unsigned (h : kind.signed = false) : kind.InRange n ↔ 0 ≤ n ∧ n < 2 ^ kind.bits := by
  simp only [InRange, least, greatest, h, Bool.false_eq_true, if_false, Nat.pow_eq, Nat.cast_pow, Nat.cast_ofNat]
  omega

variable (kind n) in
theorem inRange_wrap : kind.InRange (kind.wrap n) := by
  cases h : kind.signed with
  | true =>
    rw [inRange_of_signed h, wrap, if_pos h]
    exact ⟨BitVec.le_toInt _, BitVec.toInt_lt⟩
  | false =>
    rw [inRange_of_unsigned h, wrap, if_neg (by simp [h])]
    exact ⟨Int.natCast_nonneg _, by exact_mod_cast BitVec.isLt _⟩

theorem InRange.wrap_eq (hn : kind.InRange n) : kind.wrap n = n := by
  cases h : kind.signed with
  | true =>
    obtain ⟨hleast, hgreatest⟩ := (inRange_of_signed h).1 hn
    rw [wrap, if_pos h, BitVec.toInt_ofInt_eq_self kind.bits_pos hleast hgreatest]
  | false =>
    obtain ⟨hleast, hgreatest⟩ := (inRange_of_unsigned h).1 hn
    rw [wrap, if_neg (by simp [h]), BitVec.toNat_ofInt, Nat.cast_pow, Nat.cast_ofNat,
      Int.emod_eq_of_lt hleast hgreatest, Int.toNat_of_nonneg hleast]

theorem inRange_iff_wrap_eq : kind.InRange n ↔ kind.wrap n = n :=
  ⟨InRange.wrap_eq, fun h => h ▸ inRange_wrap kind n⟩

end IntKind

variable {leaf : Leaf} {n : Int} {kind : IntKind}

theorem IntKind.InRange.bounds (h : kind.InRange n) : -2 ^ 63 ≤ n ∧ n < 2 ^ 64 := by
  obtain ⟨hleast, hgreatest⟩ := h
  cases kind <;> simp [least, greatest, signed, bits] at hleast hgreatest <;> omega

theorem IntKind.InRange.toInt?_leaf (h : kind.InRange n) : (Atom.int kind n).leaf.toInt? = some n := by
  cases hs : kind.signed with
  | true => simp [Atom.leaf, hs, Leaf.toInt?]
  | false =>
    have hn : 0 ≤ n := ((IntKind.inRange_of_unsigned hs).1 h).1
    simp [Atom.leaf, hs, Leaf.toInt?, hn]

theorem Writer.leafJson_of_toInt? (h : leaf.toInt? = some n) : leafJson leaf = .ok (.int n) := by
  cases leaf <;> cases h <;> rfl

theorem AtomTy.read_of_toInt? (h : leaf.toInt? = some n) (kind : IntKind) :
    read (.int kind) leaf = if kind.InRange n then .ok (.int kind n) else .error (.outOfRange leaf kind.readName) := by
  cases leaf <;> cases h <;> rfl

end Archivist
