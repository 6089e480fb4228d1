import Mathlib.Data.Nat.Log
import Mathlib.Tactic.Positivity
import Archivist.Schema.Ty

/-!
Numbers that a format holds exactly. Main statement: a number with few enough bits, within the
exponents of the format, is rounded to itself.
-/

set_option autoImplicit false

namespace Archivist

namespace Binary

theorem scaleDown_dyadic (m : Nat) (e k : Int) :
    ∃ n d, scaleDown (m * 2 ^ e.toNat) (2 ^ (-e).toNat) k = (n, d) ∧ 0 < d ∧
      n * 2 ^ (k - e).toNat = m * 2 ^ (e - k).toNat * d := by
  simp only [scaleDown, Nat.pow_eq]
  split
  · refine ⟨_, _, rfl, by positivity, ?_⟩
    have hx : e.toNat + (k - e).toNat = (e - k).toNat + ((-e).toNat + k.toNat) := by omega
    calc m * 2 ^ e.toNat * 2 ^ (k - e).toNat = m * 2 ^ (e.toNat + (k - e).toNat) := by
          rw [pow_add, mul_assoc]
      _ = m * 2 ^ (e - k).toNat * (2 ^ (-e).toNat * 2 ^ k.toNat) := by
          rw [hx, pow_add, pow_add, mul_assoc]
  · refine ⟨_, _, rfl, by positivity, ?_⟩
    have hx : e.toNat + (-k).toNat + (k - e).toNat = (e - k).toNat + (-e).toNat := by omega
    calc m * 2 ^ e.toNat * 2 ^ (-k).toNat * 2 ^ (k - e).toNat
        = m * 2 ^ (e.toNat + (-k).toNat + (k - e).toNat) := by
          rw [pow_add, pow_add, mul_assoc, mul_assoc, mul_assoc]
      _ = m * 2 ^ (e - k).toNat * 2 ^ (-e).toNat := by rw [hx, pow_add, mul_assoc]

theorem log2_mul_pow {m : Nat} (hm : m ≠ 0) (j : Nat) : (m * 2 ^ j).log2 = m.log2 + j := by
  induction j with
  | zero => simp
  | succ j ih =>
    rw [Nat.log2_eq_log_two] at ih ⊢
    rw [pow_succ, ← mul_assoc, Nat.log_mul_base (by decide) (by positivity), ih, Nat.add_assoc]

theorem leadingExponent_dyadic {m : Nat} (hm : m ≠ 0) (e : Int) :
    leadingExponent (m * 2 ^ e.toNat) (2 ^ (-e).toNat) = m.log2 + e := by
  have hk : ((m * 2 ^ e.toNat).log2 : Int) - ((2 ^ (-e).toNat).log2 : Nat) = m.log2 + e := by
    rw [log2_mul_pow hm, Nat.log2_two_pow]
    omega
  obtain ⟨n, d, hs, hd, hn⟩ := scaleDown_dyadic m e (m.log2 + e)
  have hle : d ≤ n := by
    have h₁ : ((m.log2 : Int) + e - e).toNat = m.log2 := by omega
    have h₂ : (e - ((m.log2 : Int) + e)).toNat = 0 := by omega
    rw [h₁, h₂, pow_zero, mul_one] at hn
    have hp : 2 ^ m.log2 * d ≤ n * 2 ^ m.log2 := by
      rw [hn]
      exact Nat.mul_le_mul_right d (Nat.log2_self_le hm)
    rw [mul_comm n] at hp
    exact Nat.le_of_mul_le_mul_left hp (by positivity)
  simp only [leadingExponent, hk, hs]
  rw [if_neg (by omega)]

theorem roundDiv_mul (q : Nat) {d : Nat} (hd : 0 < d) : roundDiv (q * d) d = q := by
  simp [roundDiv, Nat.mul_div_cancel q hd, hd]

theorem reduce_of_odd {m : Nat} (hm : m % 2 = 1) (bits : Nat) (e : Int) : reduce bits m e = (m, e) := by
  cases bits with
  | zero => rfl
  | succ bits => simp [reduce, hm]

theorem reduce_mul_pow {m : Nat} (hm : m % 2 = 1) {bits j : Nat} (h : j ≤ bits) (e : Int) :
    reduce bits (m * 2 ^ j) e = (m, e + j) := by
  induction j generalizing bits e with
  | zero => simpa using reduce_of_odd hm bits e
  | succ j ih =>
    cases bits with
    | zero => omega
    | succ bits =>
      have heven : m * 2 ^ (j + 1) % 2 = 0 := by
        rw [pow_succ, ← mul_assoc, Nat.mul_mod_left]
      have hhalf : m * 2 ^ (j + 1) / 2 = m * 2 ^ j := by
        rw [pow_succ, ← mul_assoc, Nat.mul_div_cancel _ (by decide)]
      rw [reduce, if_pos heven, hhalf, ih (by omega)]
      simp only [Prod.mk.injEq, true_and]
      omega

theorem ofDyadic_mul_pow {m : Nat} (hm : m % 2 = 1) (negative : Bool) (j : Nat) (e : Int) :
    ofDyadic negative (m * 2 ^ j) e = .finite negative m (e + j) := by
  have hm0 : m ≠ 0 := by omega
  have hlog : j ≤ (m * 2 ^ j).log2 := by
    rw [log2_mul_pow hm0]
    omega
  have hne : m * 2 ^ j ≠ 0 := by positivity
  rw [ofDyadic, if_neg hne, reduce_mul_pow hm hlog]

end Binary

namespace Format

open Binary

/-- The numbers of the format. A finite one has an odd part of at most `precision` bits, and neither its
last bit nor its first one is out of the range of exponents. -/
def Has (f : Format) : Binary → Prop
  | .nan | .infinite _ => True
  | .finite _ m e =>
    m = 0 ∧ e = 0 ∨
    m % 2 = 1 ∧ m < 2 ^ f.precision ∧ f.minExponent ≤ e ∧ e + m.log2 < f.maxExponent + f.precision

instance (f : Format) : DecidablePred f.Has
  | .nan | .infinite _ => isTrue trivial
  | .finite _ _ _ => inferInstanceAs (Decidable (_ ∨ _))

theorem round_dyadic (f : Format) (hf : f.minExponent ≤ f.maxExponent) (negative : Bool) {m : Nat}
    {e : Int} (hm : m % 2 = 1) (hp : m < 2 ^ f.precision) (hmin : f.minExponent ≤ e)
    (hmax : e + m.log2 < f.maxExponent + f.precision) :
    f.round negative (m * 2 ^ e.toNat) (2 ^ (-e).toNat) = .finite negative m e := by
  have hm0 : m ≠ 0 := by omega
  have hlog : m.log2 < f.precision := (Nat.log2_lt hm0).2 hp
  -- the last bit that the format keeps is not above the last bit of the number
  have hlast : f.lastExponent (m * 2 ^ e.toNat) (2 ^ (-e).toNat) =
      max f.minExponent (m.log2 + e - (f.precision - 1)) := by
    rw [lastExponent, leadingExponent_dyadic hm0]
  generalize hk : max f.minExponent ((m.log2 : Int) + e - (f.precision - 1)) = k at hlast
  have hke : k ≤ e := by omega
  obtain ⟨n, d, hs, hd, hn⟩ := scaleDown_dyadic m e k
  have hzero : (k - e).toNat = 0 := by omega
  rw [hzero, pow_zero, mul_one] at hn
  subst hn
  have hbits : m * 2 ^ (e - k).toNat < 2 ^ f.precision ∨ k < f.maxExponent := by
    by_cases hkm : k < f.maxExponent
    · exact .inr hkm
    · refine .inl ((Nat.log2_lt (by positivity)).1 ?_)
      rw [log2_mul_pow hm0]
      omega
  have hnum : m * 2 ^ e.toNat ≠ 0 := by positivity
  have hover : ¬ (f.maxExponent < k ∨ k = f.maxExponent ∧ 2 ^ f.precision ≤ m * 2 ^ (e - k).toNat) := by
    omega
  simp only [round, Nat.pow_eq, if_neg hnum, hlast, hs, roundDiv_mul _ hd, if_neg hover,
    ofDyadic_mul_pow hm]
  congr 1
  omega

theorem Has.ofBinary_eq {f : Format} (hf : f.minExponent ≤ f.maxExponent) {x : Binary} (h : f.Has x) :
    f.ofBinary x = x := by
  cases x with
  | nan => rfl
  | infinite negative => rfl
  | finite negative m e =>
    rcases h with ⟨rfl, rfl⟩ | ⟨hm, hp, hmin, hmax⟩
    · simp [ofBinary, round]
    · exact f.round_dyadic hf negative hm hp hmin hmax

end Format

theorem FloatWidth.minExponent_le (width : FloatWidth) :
    width.format.minExponent ≤ width.format.maxExponent := by
  cases width <;> decide

end Archivist
