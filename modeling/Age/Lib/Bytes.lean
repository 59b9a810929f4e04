import Mathlib

/-!
# Little-endian words and aligned offsets

Fixed-width little-endian encodings of natural numbers over byte lists, and the
rounding of an offset up to a four-byte boundary.
-/

namespace Lib

/-- A region of memory, or the content of a buffer. -/
abbrev Bytes := List UInt8

/-- The `width` low bytes of a number, least significant byte first. -/
def encodeLE : (width : Nat) → Nat → Bytes
  | 0, _ => []
  | width + 1, number => UInt8.ofNat number :: encodeLE width (number / 256)

/-- The number a byte list spells, least significant byte first. -/
def decodeLE : Bytes → Nat
  | [] => 0
  | byte :: rest => byte.toNat + 256 * decodeLE rest

/-- Read a `width`-byte word at an offset. -/
def readLE (width : Nat) (memory : Bytes) (offset : Nat) : Nat :=
  decodeLE ((memory.drop offset).take width)

@[simp]
theorem length_encodeLE (width number : Nat) :
    (encodeLE width number).length = width := by
  induction width generalizing number with
  | zero => rfl
  | succ width inductionHypothesis =>
      simp [encodeLE, inductionHypothesis]

theorem decodeLE_encodeLE {width number : Nat} (fits : number < 256 ^ width) :
    decodeLE (encodeLE width number) = number := by
  induction width generalizing number with
  | zero =>
      simp only [pow_zero, Nat.lt_one_iff] at fits
      simp [encodeLE, decodeLE, fits]
  | succ width inductionHypothesis =>
      have quotientFits : number / 256 < 256 ^ width := by
        apply Nat.div_lt_of_lt_mul
        rw [pow_succ] at fits
        omega
      simp only [encodeLE, decodeLE, inductionHypothesis quotientFits,
        UInt8.toNat_ofNat']
      omega

/-- A word written between any two regions reads back. -/
theorem readLE_append {w n : Nat} (before after : Bytes)
    (fits : n < 256 ^ w) :
    readLE w (before ++ encodeLE w n ++ after) before.length =
      n := by
  have slice :
      ((before ++ encodeLE w n ++ after).drop before.length).take w =
        encodeLE w n := by
    simp
  rw [readLE, slice, decodeLE_encodeLE fits]

/-- Round an offset up to the next multiple of four. -/
def intAlign (offset : Nat) : Nat := (offset + 3) / 4 * 4

theorem le_intAlign (offset : Nat) : offset ≤ intAlign offset := by
  unfold intAlign
  omega

theorem intAlign_lt (offset : Nat) : intAlign offset < offset + 4 := by
  unfold intAlign
  omega

@[simp]
theorem intAlign_mod (offset : Nat) : intAlign offset % 4 = 0 := by
  unfold intAlign
  omega

theorem intAlign_of_mod {offset : Nat} (aligned : offset % 4 = 0) :
    intAlign offset = offset := by
  unfold intAlign
  omega

/-- Only the residue of an offset decides how much padding it takes. -/
theorem intAlign_sub_congr {first second : Nat}
    (congruent : first % 4 = second % 4) :
    intAlign first - first = intAlign second - second := by
  unfold intAlign
  omega

end Lib
