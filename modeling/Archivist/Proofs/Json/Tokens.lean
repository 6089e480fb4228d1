import Mathlib.Algebra.Group.Int.Defs
import Mathlib.Data.List.Basic
import Mathlib.Data.List.TakeDrop
import Mathlib.Tactic.SplitIfs
import Archivist.Json.Parser
import Archivist.Json.Printer

/-!
Strings and whole numbers of JSON text. Main statements: what is printed of a string or of a 64-bit
number is read as that string or number, and reading stops where the printed text ends.
-/

set_option autoImplicit false

namespace Archivist.Json

def Blank (cs : List Char) : Prop := ∀ c ∈ cs, isBlank c = true

theorem skipBlanks_append {blanks : List Char} (h : Blank blanks) (cs : List Char) :
    skipBlanks (blanks ++ cs) = skipBlanks cs :=
  List.dropWhile_append_of_pos h

theorem skipBlanks_cons {c : Char} (h : isBlank c = false) (cs : List Char) :
    skipBlanks (c :: cs) = c :: cs := by
  simp [skipBlanks, h]

/-! Strings. -/

theorem hexValue?_digitChar {n : Nat} (h : n < 16) : hexValue? (Nat.digitChar n) = some n := by
  revert n
  decide

theorem readEscape_control {n : Nat} (h : n < 32) (rest : List Char) :
    readEscape ('u' :: '0' :: '0' :: Nat.digitChar (n / 16) :: Nat.digitChar (n % 16) :: rest) =
      some (Char.ofNat n, rest) := by
  have hzero : hexValue? '0' = some 0 := by decide
  have hunit : ((0 * 16 + 0) * 16 + n / 16) * 16 + n % 16 = n := by omega
  have hlow : n < 0xD800 ∨ 0xDFFF < n := by omega
  have hhex : readHex4 ('0' :: '0' :: Nat.digitChar (n / 16) :: Nat.digitChar (n % 16) :: rest) =
      some (n, rest) := by
    simp only [readHex4, hzero, hexValue?_digitChar (show n / 16 < 16 by omega),
      hexValue?_digitChar (show n % 16 < 16 by omega), Option.bind_eq_bind, Option.bind_some, hunit]
  simp only [readEscape, readUnicode, hhex, Option.bind_eq_bind, Option.bind_some, if_pos hlow]

theorem readChars_escape (fuel : Nat) (c : Char) (rest : List Char) :
    readChars (fuel + 1) (escape c ++ rest) =
      (readChars fuel rest).map fun (text, left) => (c :: text, left) := by
  have map_eq (x : Option (List Char × List Char)) :
      (x.bind fun (text, left) => some (c :: text, left)) = x.map fun (text, left) => (c :: text, left) := by
    cases x <;> rfl
  rw [← map_eq]
  unfold escape
  -- the seven characters that have an escape of their own
  iterate 7
    split
    · subst_vars
      rfl
  split
  · rename_i hlow
    have h := readEscape_control hlow rest
    rw [Char.ofNat_toNat] at h
    simp only [List.cons_append, List.nil_append, readChars, h]
    rfl
  · rename_i hquote hslash _ _ _ _ _ hlow
    simp only [List.cons_append, List.nil_append, readChars, if_neg hquote, if_neg hslash, if_neg hlow]
    rfl

theorem readChars_flatMap_escape (text rest : List Char) {fuel : Nat} (h : text.length < fuel) :
    readChars fuel (text.flatMap escape ++ '"' :: rest) = some (text, rest) := by
  induction text generalizing fuel with
  | nil =>
    obtain ⟨fuel, rfl⟩ := Nat.exists_eq_succ_of_ne_zero (Nat.ne_of_gt h)
    rfl
  | cons c text ih =>
    obtain ⟨fuel, rfl⟩ := Nat.exists_eq_succ_of_ne_zero (Nat.ne_of_gt (Nat.lt_of_le_of_lt (Nat.zero_le _) h))
    rw [List.flatMap_cons, List.append_assoc, readChars_escape, ih (by simpa using h)]
    rfl

theorem length_le_flatMap_escape (text : List Char) : text.length ≤ (text.flatMap escape).length := by
  induction text with
  | nil => exact Nat.le_refl 0
  | cons c text ih =>
    have hc : 0 < (escape c).length := by unfold escape; split_ifs <;> simp
    simp only [List.flatMap_cons, List.length_append, List.length_cons]
    omega

theorem readString_print (s : String) (rest : List Char) :
    readString (s.toList.flatMap escape ++ '"' :: rest) = some (s, rest) := by
  have hfuel : s.toList.length < (s.toList.flatMap escape ++ '"' :: rest).length := by
    have := length_le_flatMap_escape s.toList
    simp only [List.length_append, List.length_cons]
    omega
  rw [readString, readChars_flatMap_escape _ _ hfuel]
  simp

/-! Whole numbers. -/

/-- Text that does not continue a number: it starts with no digit, point or power. -/
def EndsNumber (rest : List Char) : Prop :=
  ∀ c ∈ rest.head?, c.isDigit = false ∧ c ≠ '.' ∧ c ≠ 'e' ∧ c ≠ 'E'

theorem endsNumber_nil : EndsNumber [] := nofun

theorem endsNumber_cons {c : Char} (h : c.isDigit = false ∧ c ≠ '.' ∧ c ≠ 'e' ∧ c ≠ 'E')
    (cs : List Char) : EndsNumber (c :: cs) := by
  intro b hb
  cases hb
  exact h

theorem readDigits_append {digits rest : List Char} (hne : digits ≠ [])
    (hd : ∀ c ∈ digits, c.isDigit = true) (hr : EndsNumber rest) :
    readDigits (digits ++ rest) = some (digits, rest) := by
  have hspan : (digits ++ rest).span Char.isDigit = (digits, rest) := by
    rw [List.span_eq_takeWhile_dropWhile, List.takeWhile_append_of_pos hd,
      List.dropWhile_append_of_pos hd]
    cases rest with
    | nil => simp
    | cons c rest => simp [(hr c rfl).1]
  unfold readDigits
  rw [hspan]
  cases digits with
  | nil => exact absurd rfl hne
  | cons c digits => rfl

theorem head?_toDigits_ne {n : Nat} (h : 0 < n) : (Nat.toDigits 10 n).head? ≠ some '0' := by
  induction n using Nat.strongRecOn with
  | ind n ih =>
    rw [Nat.toDigits_eq_if (by decide)]
    split
    · simpa [Nat.digitChar_eq_zero] using Nat.ne_of_gt h
    · rw [List.head?_append_of_ne_nil _ Nat.toDigits_ne_nil]
      exact ih (n / 10) (by omega) (by omega)

theorem readWhole_toDigits (n : Nat) {rest : List Char} (hr : EndsNumber rest) :
    readWhole (Nat.toDigits 10 n ++ rest) = some (Nat.toDigits 10 n, rest) := by
  have hdigits : readDigits (Nat.toDigits 10 n ++ rest) = some (Nat.toDigits 10 n, rest) :=
    readDigits_append Nat.toDigits_ne_nil
      (fun c hc => Nat.isDigit_of_mem_toDigits (by decide) (by decide) hc) hr
  have hlead : ¬ ((Nat.toDigits 10 n).head? = some '0' ∧ 1 < (Nat.toDigits 10 n).length) := by
    rintro ⟨hhead, hlen⟩
    rcases Nat.eq_zero_or_pos n with rfl | hn
    · simp [Nat.toDigits_zero] at hlen
    · exact head?_toDigits_ne hn hhead
  simp only [readWhole, hdigits, Option.bind_eq_bind, Option.bind_some, if_neg hlead]

theorem readDecimals_of_ends {rest : List Char} (h : EndsNumber rest) : readDecimals rest = some ([], rest) := by
  unfold readDecimals
  split
  · exact absurd rfl (h _ rfl).2.1
  · rfl

theorem readPower_of_ends {rest : List Char} (h : EndsNumber rest) : readPower rest = some (none, rest) := by
  cases rest with
  | nil => rfl
  | cons c rest =>
    obtain ⟨-, -, hlower, hupper⟩ := h c rfl
    simp [readPower, hlower, hupper]

theorem readNumber_toDigits (negative : Bool) (n : Nat) {rest : List Char} (hr : EndsNumber rest) :
    readNumber negative (Nat.toDigits 10 n ++ rest) =
      (ofNumeral ⟨negative, Nat.toDigits 10 n, [], 0⟩ true).map (·, rest) := by
  simp only [readNumber, readWhole_toDigits n hr, readDecimals_of_ends hr, readPower_of_ends hr,
    Option.bind_eq_bind, Option.bind_some, Option.getD_none, and_self, decide_true]
  cases ofNumeral ⟨negative, Nat.toDigits 10 n, [], 0⟩ true <;> rfl

theorem readNumber_of_nonneg {n : Int} (hn : 0 ≤ n) (hmax : n < 2 ^ 64) {rest : List Char}
    (hr : EndsNumber rest) : readNumber false (Nat.toDigits 10 n.natAbs ++ rest) = some (.int n, rest) := by
  have hfit : n.natAbs < Nat.pow 2 64 := by
    simp only [Nat.pow_eq]
    omega
  rw [readNumber_toDigits false _ hr, ofNumeral, Nat.ofDigitChars_ten_toDigits, if_pos ⟨rfl, rfl, hfit⟩,
    Int.natAbs_of_nonneg hn]
  rfl

theorem readNumber_of_neg {n : Int} (hn : n < 0) (hmin : -2 ^ 63 ≤ n) {rest : List Char}
    (hr : EndsNumber rest) : readNumber true (Nat.toDigits 10 n.natAbs ++ rest) = some (.int n, rest) := by
  have hfit : 0 < n.natAbs ∧ n.natAbs ≤ Nat.pow 2 63 := by
    simp only [Nat.pow_eq]
    omega
  rw [readNumber_toDigits true _ hr, ofNumeral, Nat.ofDigitChars_ten_toDigits, if_neg (by simp),
    if_pos ⟨rfl, rfl, hfit.1, hfit.2⟩, Int.ofNat_natAbs_of_nonpos (Int.le_of_lt hn), Int.neg_neg]
  rfl

end Archivist.Json
