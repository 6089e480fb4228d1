/-!
A hash that passes words through: a 64-bit word is its own hash, and shorter numbers hash like the
word of the same value.
-/

set_option autoImplicit false

namespace Archivist

structure WordHash where
  word : UInt64 := 0
  deriving DecidableEq, Repr

namespace WordHash

def rotate8 (w : UInt64) : UInt64 := (w <<< 8) ||| (w >>> 56)

def absorb (h : WordHash) (byte : UInt8) : WordHash := ⟨rotate8 h.word + byte.toUInt64⟩

/-- Takes bytes in, the last one first, so that little-endian numbers keep their value. -/
def write (h : WordHash) (bytes : List UInt8) : WordHash := bytes.reverse.foldl absorb h

/-- Takes a whole word in, which replaces all that was there. -/
def writeWord (_ : WordHash) (w : UInt64) : WordHash := ⟨w⟩

def littleEndian : Nat → Nat → List UInt8
  | 0, _ => []
  | count + 1, n => UInt8.ofNat n :: littleEndian count (n / 256)

/-- Takes a number of the given count of bytes in, a negative one as its two's complement. -/
def writeNumber (h : WordHash) (bytes : Nat) (n : Int) : WordHash :=
  h.write (littleEndian bytes (n % Nat.pow 256 bytes).toNat)

/-- Takes text in: its UTF-8 bytes and a closing `0xff`. -/
def writeText (h : WordHash) (text : String) : WordHash :=
  (h.write text.toUTF8.toList).write [0xff]

end WordHash

end Archivist
