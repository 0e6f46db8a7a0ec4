import Mathlib.Tactic.IntervalCases

/-!
# Fixed-width little-endian bytes

The bytes of a 32-bit and of a 64-bit word by shifts and masks, the words read back by shifts
and ors, and the two round trips.
-/

namespace LittleEndian

/-- The four bytes of a word, least significant first. -/
def bytes32 (x : UInt32) : List UInt8 :=
  [(x &&& 0xff).toUInt8, ((x >>> 8) &&& 0xff).toUInt8, ((x >>> 16) &&& 0xff).toUInt8,
    ((x >>> 24) &&& 0xff).toUInt8]

/-- A 64-bit word is its low half followed by its high half. -/
def bytes64 (x : UInt64) : List UInt8 :=
  bytes32 x.toUInt32 ++ bytes32 (x >>> 32).toUInt32

def word32 (b0 b1 b2 b3 : UInt8) : UInt32 :=
  (b3.toUInt32 <<< 24) ||| (b2.toUInt32 <<< 16) ||| (b1.toUInt32 <<< 8) ||| b0.toUInt32

def word64 (lo hi : UInt32) : UInt64 := lo.toUInt64 ||| (hi.toUInt64 <<< 32)

@[simp] theorem bytes32_length (x : UInt32) : (bytes32 x).length = 4 := rfl

@[simp] theorem bytes64_length (x : UInt64) : (bytes64 x).length = 8 := rfl

theorem word32_bytes (x : UInt32) :
    word32 (x &&& 0xff).toUInt8 ((x >>> 8) &&& 0xff).toUInt8 ((x >>> 16) &&& 0xff).toUInt8
      ((x >>> 24) &&& 0xff).toUInt8 = x := by
  apply UInt32.toBitVec_inj.mp
  simp only [word32, UInt32.toBitVec_or, UInt32.toBitVec_shiftLeft, UInt8.toBitVec_toUInt32,
    UInt32.toBitVec_toUInt8, UInt32.toBitVec_and, UInt32.toBitVec_shiftRight]
  apply BitVec.eq_of_getLsbD_eq
  intro i hi
  interval_cases i <;> simp

/-- Any four bytes are those of the word that they make up. -/
theorem bytes32_word32 (b0 b1 b2 b3 : UInt8) : bytes32 (word32 b0 b1 b2 b3) = [b0, b1, b2, b3] := by
  simp only [bytes32, List.cons.injEq, and_true]
  refine ⟨?_, ?_, ?_, ?_⟩ <;>
  · apply UInt8.toBitVec_inj.mp
    apply BitVec.eq_of_getLsbD_eq
    intro i hi
    simp only [word32, UInt32.toBitVec_or, UInt32.toBitVec_shiftLeft, UInt8.toBitVec_toUInt32,
      UInt32.toBitVec_toUInt8, UInt32.toBitVec_and, UInt32.toBitVec_shiftRight]
    interval_cases i <;> simp

theorem word64_halves (x : UInt64) : word64 x.toUInt32 (x >>> 32).toUInt32 = x := by
  apply UInt64.toBitVec_inj.mp
  simp only [word64, UInt64.toBitVec_or, UInt64.toBitVec_shiftLeft, UInt32.toBitVec_toUInt64,
    UInt64.toBitVec_toUInt32, UInt64.toBitVec_shiftRight]
  apply BitVec.eq_of_getLsbD_eq
  intro i hi
  simp only [BitVec.getLsbD_or, BitVec.getLsbD_setWidth]
  by_cases h : i < 32
  · simp [h, hi]
  · have hlt : i - 32 < 32 := by omega
    have he : 32 + (i - 32) = i := by omega
    simp [h, hi, hlt, he]

/-- Any two halves are those of the word that they make up. -/
theorem bytes64_word64 (lo hi : UInt32) : bytes64 (word64 lo hi) = bytes32 lo ++ bytes32 hi := by
  have hlow : (word64 lo hi).toUInt32 = lo := by
    apply UInt32.toBitVec_inj.mp
    simp only [word64, UInt64.toBitVec_toUInt32, UInt64.toBitVec_or, UInt64.toBitVec_shiftLeft,
      UInt32.toBitVec_toUInt64]
    apply BitVec.eq_of_getLsbD_eq
    intro i hi
    simp [hi]
  have hhigh : (word64 lo hi >>> 32).toUInt32 = hi := by
    apply UInt32.toBitVec_inj.mp
    simp only [word64, UInt64.toBitVec_toUInt32, UInt64.toBitVec_or, UInt64.toBitVec_shiftLeft,
      UInt32.toBitVec_toUInt64, UInt64.toBitVec_shiftRight]
    apply BitVec.eq_of_getLsbD_eq
    intro i hi
    have hlt : 32 + i < 64 := by omega
    have hge : ¬32 + i < 32 := by omega
    simp [hi, hlt, hge]
  unfold bytes64
  rw [hlow, hhigh]

end LittleEndian
