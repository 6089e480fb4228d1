import Mathlib.Data.Nat.Digits.Defs
import Archivist.WordHash

/-!
Numbers of any width hash alike. Main statement: bytes whose little-endian value fits into a word leave a
fresh hash at that value, however many bytes there are, just as writing the word itself does.
-/

set_option autoImplicit false

namespace Archivist.WordHash

def ofLittleEndian (bytes : List UInt8) : Nat := Nat.ofDigits 256 (bytes.map UInt8.toNat)

@[simp] theorem ofLittleEndian_nil : ofLittleEndian [] = 0 := rfl

@[simp] theorem ofLittleEndian_cons (byte : UInt8) (rest : List UInt8) :
    ofLittleEndian (byte :: rest) = byte.toNat + 256 * ofLittleEndian rest := rfl

theorem ofLittleEndian_littleEndian (count n : Nat) :
    ofLittleEndian (littleEndian count n) = n % 256 ^ count := by
  induction count generalizing n with
  | zero => simp [littleEndian, Nat.mod_one]
  | succ count ih =>
    have hbyte : (UInt8.ofNat n).toNat = n % 256 := rfl
    rw [littleEndian, ofLittleEndian_cons, ih, hbyte, pow_succ', Nat.mod_mul]

theorem toNat_rotate8 {w : UInt64} (h : w.toNat < 2 ^ 56) : (rotate8 w).toNat = 256 * w.toNat := by
  have hlow : w >>> 56 = 0 := by
    apply UInt64.toNat_inj.1
    rw [UInt64.toNat_shiftRight]
    change w.toNat >>> 56 = 0
    rw [Nat.shiftRight_eq_div_pow, Nat.div_eq_of_lt h]
  have hhigh : w.toNat <<< 8 < 2 ^ 64 := by
    rw [Nat.shiftLeft_eq]
    omega
  rw [rotate8, hlow, UInt64.or_zero, UInt64.toNat_shiftLeft]
  change w.toNat <<< 8 % 2 ^ 64 = _
  rw [Nat.mod_eq_of_lt hhigh, Nat.shiftLeft_eq, Nat.mul_comm]

theorem toNat_absorb {h : WordHash} (hw : h.word.toNat < 2 ^ 56) (byte : UInt8) :
    (h.absorb byte).word.toNat = byte.toNat + 256 * h.word.toNat := by
  have hbyte := byte.toNat_lt
  rw [absorb, UInt64.toNat_add, toNat_rotate8 hw, UInt8.toNat_toUInt64, Nat.mod_eq_of_lt (by omega), Nat.add_comm]

theorem write_nil (h : WordHash) : h.write [] = h := rfl

theorem write_cons (h : WordHash) (byte : UInt8) (rest : List UInt8) :
    h.write (byte :: rest) = (h.write rest).absorb byte := by
  rw [write, List.reverse_cons, List.foldl_append]
  rfl

/-- Bytes are added below what the hash has, as long as all of it fits into the word. -/
theorem toNat_write (h : WordHash) (bytes : List UInt8)
    (hfit : ofLittleEndian bytes + 256 ^ bytes.length * h.word.toNat < 2 ^ 64) :
    (h.write bytes).word.toNat = ofLittleEndian bytes + 256 ^ bytes.length * h.word.toNat := by
  -- the bytes after the first are in already, and leave the top byte free for the word to move up
  induction bytes with
  | nil => simp [write_nil]
  | cons byte rest ih =>
    have hstep : ofLittleEndian (byte :: rest) + 256 ^ (byte :: rest).length * h.word.toNat =
        byte.toNat + 256 * (ofLittleEndian rest + 256 ^ rest.length * h.word.toNat) := by
      rw [ofLittleEndian_cons, List.length_cons, pow_succ']
      ring
    rw [hstep] at hfit ⊢
    have hrest := ih (by omega)
    rw [write_cons, toNat_absorb (by omega), hrest]

theorem toNat_write_fresh {bytes : List UInt8} (hfit : ofLittleEndian bytes < 2 ^ 64) :
    (write {} bytes).word.toNat = ofLittleEndian bytes := by
  simpa using toNat_write {} bytes (by simpa using hfit)

theorem write_fresh_eq_writeWord {bytes : List UInt8} (hfit : ofLittleEndian bytes < 2 ^ 64) :
    write {} bytes = writeWord {} (UInt64.ofNat (ofLittleEndian bytes)) := by
  have hword : (write {} bytes).word = UInt64.ofNat (ofLittleEndian bytes) := by
    rw [← toNat_write_fresh hfit, UInt64.ofNat_toNat]
  rw [writeWord, ← hword]

theorem writeNumber_eq_write (h : WordHash) {count n : Nat} (hn : n < 256 ^ count) :
    h.writeNumber count n = h.write (littleEndian count n) := by
  have hmod : ((n : Int) % Nat.pow 256 count).toNat = n := by
    rw [← Int.natCast_emod, Int.toNat_natCast]
    exact Nat.mod_eq_of_lt hn
  rw [writeNumber, hmod]

/-- A fresh hash does not tell widths apart. Any bytes that stand for less than `2^64`, with zeros above
or without, come to the number they stand for, and so do the bytes of every such number in any width that
holds it. A whole word of that number comes to the same. -/
theorem fresh_ignores_width :
    (∀ bytes : List UInt8, ofLittleEndian bytes < 2 ^ 64 →
      (write {} bytes).word.toNat = ofLittleEndian bytes ∧
      write {} bytes = writeWord {} (UInt64.ofNat (ofLittleEndian bytes))) ∧
    ∀ count n : Nat, n < 256 ^ count → n < 2 ^ 64 →
      (writeNumber {} count n).word.toNat = n ∧ writeNumber {} count n = writeWord {} (UInt64.ofNat n) := by
  refine ⟨fun bytes hfit => ⟨toNat_write_fresh hfit, write_fresh_eq_writeWord hfit⟩, fun count n hcount hn => ?_⟩
  have hvalue : ofLittleEndian (littleEndian count n) = n := by
    rw [ofLittleEndian_littleEndian, Nat.mod_eq_of_lt hcount]
  have hfit : ofLittleEndian (littleEndian count n) < 2 ^ 64 := by rwa [hvalue]
  rw [writeNumber_eq_write {} hcount]
  refine ⟨(toNat_write_fresh hfit).trans hvalue, ?_⟩
  rw [write_fresh_eq_writeWord hfit, hvalue]

/-- The greatest word in sixteen bytes, half of them zeros, and a number of two bytes in each of its widths. -/
theorem wide_and_narrow_ignored :
    (write {} (List.replicate 8 0xff ++ List.replicate 8 0)).word.toNat = 18446744073709551615 ∧
    ∀ count ∈ [2, 4, 8, 16], (writeNumber {} count 1234).word.toNat = 1234 := by
  obtain ⟨hbytes, hnumbers⟩ := fresh_ignores_width
  have hvalue : ofLittleEndian (List.replicate 8 0xff ++ List.replicate 8 0) = 18446744073709551615 := by decide
  refine ⟨?_, fun count hc => ?_⟩
  · rw [(hbytes _ (by rw [hvalue]; decide)).1, hvalue]
  · exact (hnumbers count 1234 (by revert count; decide) (by decide)).1

end Archivist.WordHash
