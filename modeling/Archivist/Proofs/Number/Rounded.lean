import Mathlib.Algebra.Order.Field.Power
import Mathlib.Data.Nat.Factorization.Basic
import Mathlib.Data.Rat.Cast.Order
import Mathlib.Tactic.FieldSimp
import Mathlib.Tactic.Linarith
import Archivist.Number.Numeral
import Archivist.Proofs.Number.Exact

/-!
What rounding gives. Main statements: the result of rounding is a number of the format, so a numeral
read in two roundings is a finite double; and a number well below the largest one does not become
infinite.
-/

set_option autoImplicit false

namespace Archivist

namespace Binary

theorem scaleDown_eq_div (num : Nat) {den : Nat} (hden : 0 < den) (e : Int) :
    ∃ n d, scaleDown num den e = (n, d) ∧ 0 < d ∧ (n : ℚ) / d = num / den / 2 ^ e := by
  have hq : (den : ℚ) ≠ 0 := by positivity
  simp only [scaleDown, Nat.pow_eq]
  split
  · refine ⟨_, _, rfl, by positivity, ?_⟩
    obtain ⟨k, rfl⟩ := Int.eq_ofNat_of_zero_le ‹0 ≤ e›
    simp only [Int.toNat_natCast, zpow_natCast]
    push_cast
    field_simp
  · refine ⟨_, _, rfl, hden, ?_⟩
    obtain ⟨k, hk⟩ := Int.eq_ofNat_of_zero_le (show 0 ≤ -e by omega)
    obtain rfl : e = -(k : Int) := by omega
    simp only [neg_neg, Int.toNat_natCast, zpow_neg, zpow_natCast]
    push_cast
    field_simp

theorem lt_zpow_leadingExponent {num den : Nat} (hden : 0 < den) :
    (num : ℚ) / den < 2 ^ (leadingExponent num den + 1) := by
  have hq : (0 : ℚ) < den := by positivity
  obtain ⟨n, d, hs, hd, hn⟩ := scaleDown_eq_div num hden ((num.log2 : Int) - den.log2)
  simp only [leadingExponent, hs]
  split
  · have hlt : (n : ℚ) / d < 1 := by
      rw [div_lt_one (by positivity)]
      exact_mod_cast ‹n < d›
    rw [hn, div_lt_one (by positivity)] at hlt
    simpa using hlt
  · have hnum : (num : ℚ) < 2 ^ (num.log2 + 1) := by exact_mod_cast Nat.lt_log2_self
    have hle : (2 : ℚ) ^ den.log2 ≤ den := by exact_mod_cast Nat.log2_self_le hden.ne'
    have hexp : (num.log2 : Int) - den.log2 + 1 = ((num.log2 + 1 : Nat) : Int) - (den.log2 : Int) := by
      omega
    rw [hexp, zpow_sub₀ (by norm_num), zpow_natCast, zpow_natCast]
    exact div_lt_div₀ hnum hle (by positivity) (by positivity)

theorem leadingExponent_le (num den : Nat) : leadingExponent num den ≤ num.log2 - den.log2 := by
  simp only [leadingExponent]
  split <;> omega

theorem roundDiv_le {n d q : Nat} (h : n / d < q) : roundDiv n d ≤ q := by
  simp only [roundDiv]
  split_ifs <;> omega

theorem isFinite_ofDyadic (negative : Bool) (m : Nat) (e : Int) : (ofDyadic negative m e).isFinite := by
  simp only [ofDyadic]
  split <;> rfl

theorem isFinite_negate (x : Binary) : x.negate.isFinite = x.isFinite := by
  cases x <;> rfl

end Binary

namespace Format

open Binary

variable {f : Format}

/-- The bits that the format keeps of a number are at most `precision` many, or one more and all of
them zero but the first. -/
theorem roundDiv_scaleDown_le {num den n d : Nat} {e : Int} (hden : 0 < den)
    (he : leadingExponent num den + 1 - f.precision ≤ e) (hs : scaleDown num den e = (n, d)) :
    roundDiv n d ≤ 2 ^ f.precision := by
  obtain ⟨n', d', hs', hd, hn⟩ := scaleDown_eq_div num hden e
  obtain ⟨rfl, rfl⟩ : n' = n ∧ d' = d := by simpa [hs] using hs'.symm
  refine roundDiv_le ((Nat.div_lt_iff_lt_mul hd).2 ?_)
  have hlt : (n' : ℚ) / d' < 2 ^ f.precision := by
    rw [hn, div_lt_iff₀ (by positivity), ← zpow_natCast, ← zpow_add₀ (by norm_num)]
    exact (lt_zpow_leadingExponent hden).trans_le (zpow_le_zpow_right₀ (by norm_num) (by omega))
  rw [div_lt_iff₀ (by positivity)] at hlt
  exact_mod_cast hlt

theorem has_ofDyadic (hp : 0 < f.precision) (negative : Bool) {m : Nat} {e : Int}
    (hm : m ≤ 2 ^ f.precision) (hmin : f.minExponent ≤ e)
    (hmax : m ≠ 0 → e + m.log2 < f.maxExponent + f.precision) : f.Has (ofDyadic negative m e) := by
  by_cases h0 : m = 0
  · subst h0
    exact .inl ⟨rfl, rfl⟩
  obtain ⟨j, o, ho, rfl⟩ := Nat.exists_eq_two_pow_mul_odd h0
  have hodd : o % 2 = 1 := Nat.odd_iff.1 ho
  rw [mul_comm] at hm hmax h0 ⊢
  have hlog := log2_mul_pow (m := o) (by omega) j
  have hmax := hmax h0
  rw [ofDyadic_mul_pow hodd]
  refine .inr ⟨hodd, ?_, by omega, by omega⟩
  have hle : o ≤ 2 ^ f.precision := (Nat.le_mul_of_pos_right o (by positivity)).trans hm
  have heven : 2 ^ f.precision % 2 = 0 := by
    rw [← Nat.succ_pred_eq_of_pos hp, Nat.pow_succ, Nat.mul_mod_left]
  omega

theorem has_round (hp : 0 < f.precision) (negative : Bool) (num : Nat) {den : Nat} (hden : 0 < den) :
    f.Has (f.round negative num den) := by
  simp only [round, Nat.pow_eq]
  split
  · exact .inl ⟨rfl, rfl⟩
  obtain ⟨⟨n, d⟩, hs⟩ : ∃ p, scaleDown num den (f.lastExponent num den) = p := ⟨_, rfl⟩
  have hlast : leadingExponent num den + 1 - f.precision ≤ f.lastExponent num den := by
    unfold lastExponent
    omega
  have hle := roundDiv_scaleDown_le hden hlast hs
  rw [hs]
  dsimp only
  split
  · trivial
  · refine has_ofDyadic hp negative hle (le_max_left _ _) fun hm => ?_
    have hlog : (roundDiv n d).log2 < f.precision + 1 :=
      (Nat.log2_lt hm).2 (hle.trans_lt (Nat.pow_lt_pow_succ (by decide)))
    have hlt : roundDiv n d < 2 ^ f.precision → (roundDiv n d).log2 < f.precision := (Nat.log2_lt hm).2
    omega

theorem isFinite_round {negative : Bool} {num den : Nat} (hp : 0 < f.precision)
    (hf : f.minExponent < f.maxExponent) (h : (num.log2 : Int) - den.log2 < f.maxExponent) :
    (f.round negative num den).isFinite = true := by
  have hlead := leadingExponent_le num den
  have hlast : f.lastExponent num den < f.maxExponent := by
    unfold lastExponent
    omega
  simp only [round]
  split
  · rfl
  · rw [if_neg (by omega)]
    exact isFinite_ofDyadic _ _ _

theorem has_mul (hp : 0 < f.precision) (x y : Binary) : f.Has (f.mul x y) := by
  unfold mul
  split
  · exact has_round hp _ _ (Nat.pow_pos (by decide))
  · trivial

theorem has_div (hp : 0 < f.precision) (x y : Binary) : f.Has (f.div x y) := by
  unfold div
  split
  · split
    · trivial
    · exact has_round hp _ _ (Nat.mul_pos (by omega) (Nat.pow_pos (by decide)))
  · trivial

theorem Has.negate {x : Binary} (h : f.Has x) : f.Has x.negate := by
  cases x <;> exact h

theorem isFinite_double_ofInt {n : Int} (h : -2 ^ 63 ≤ n ∧ n < 2 ^ 64) :
    (double.ofInt n).isFinite = true := by
  refine isFinite_round (by decide) (by decide) ?_
  by_cases h0 : n.natAbs = 0
  · rw [h0]
    decide
  · have hlog : n.natAbs.log2 < 64 := (Nat.log2_lt h0).2 (by omega)
    have hmax : double.maxExponent = 971 := rfl
    have hone : Nat.log2 1 = 0 := by decide
    omega

end Format

namespace Numeral

open Format

theorem has_scaleDown {x : Binary} (hx : double.Has x) (steps k : Nat) : double.Has (scaleDown x steps k) := by
  induction steps generalizing x k with
  | zero => exact has_div (by decide) _ _
  | succ steps ih =>
    rw [scaleDown]
    split_ifs
    · exact has_div (by decide) _ _
    · exact hx
    · exact ih (has_div (by decide) _ _) _

theorem twiceRounded?_proper {n : Numeral} {x : Binary} (h : n.twiceRounded? = some x) :
    x.isFinite = true ∧ double.Has x := by
  have hfirst : double.Has (double.round false n.significand.digits 1) := has_round (by decide) _ _ (by decide)
  simp only [twiceRounded?] at h
  generalize hy : ite (n.significand.exponent < 0) _ _ = y at h
  have hhas : double.Has y := by
    rw [← hy]
    split_ifs
    · exact has_scaleDown hfirst _ _
    · exact hfirst
    · trivial
    · exact has_mul (by decide) _ _
  split at h
  · cases h
    split
    · exact ⟨y.isFinite_negate.trans ‹_›, hhas.negate⟩
    · exact ⟨‹_›, hhas⟩
  · cases h

end Numeral

end Archivist
