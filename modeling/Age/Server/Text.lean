import Age.Agtype.Text.Print
import Age.Server.Order

/-!
# Server functions behind the text of a value

Concrete versions of the text conversions: integers in full, and of the other
numbers the ones that are printed below.
-/

namespace Age.Server

open Lib Age.Agtype

/-- The number a list of decimal digits stands for. -/
def parseDecimal (digits : Bytes) : Nat :=
  Nat.ofDigits 10 (digits.reverse.map fun digit => digit.toNat - 48)

theorem parseDecimal_decimal (number : Nat) : parseDecimal (decimal number) = number := by
  unfold decimal
  split_ifs with zero
  · rw [zero]
    rfl
  · rw [parseDecimal, ← List.map_reverse, List.reverse_reverse, List.map_map]
    have same : (Nat.digits 10 number).map
        ((fun digit : UInt8 => digit.toNat - 48) ∘ fun digit => UInt8.ofNat (48 + digit)) =
          Nat.digits 10 number := by
      refine (List.map_congr_left fun digit membership => ?_).trans (List.map_id _)
      have small := Nat.digits_lt_base (by decide : 1 < 10) membership
      have exact : (UInt8.ofNat (48 + digit)).toNat = 48 + digit := by
        simp only [UInt8.toNat_ofNat']
        omega
      simp only [Function.comp_apply, exact, id_eq]
      omega
    rw [same, Nat.ofDigits_digits]

/-- `pg_strtoint64` on a text of decimal digits with an optional minus sign. -/
def strtoint64 (str : Bytes) : Option Int64 :=
  let number : Int :=
    if str.head? = some (byte '-') then -parseDecimal str.tail else parseDecimal str
  if Int64.minValue.toInt ≤ number ∧ number ≤ Int64.maxValue.toInt then some (Int64.ofInt number)
  else none

theorem head?_decimal (number : Nat) : (decimal number).head? ≠ some (byte '-') := by
  unfold decimal
  split_ifs with zero
  · decide
  · intro head
    obtain ⟨digit, membership, equal⟩ := List.mem_map.mp (List.mem_of_mem_head? head)
    have small := Nat.digits_lt_base (by decide : 1 < 10) (List.mem_reverse.mp membership)
    have values := congrArg UInt8.toNat equal
    rw [UInt8.toNat_ofNat', show (byte '-').toNat = 45 from rfl] at values
    omega

theorem strtoint64_pgLltoa (val : Int64) : strtoint64 (pgLltoa val) = some val := by
  have range : Int64.minValue.toInt ≤ val.toInt ∧ val.toInt ≤ Int64.maxValue.toInt :=
    ⟨Int64.minValue_le_toInt val, Int64.toInt_le val⟩
  unfold strtoint64 pgLltoa
  by_cases negative : val.toInt < 0
  · have number : -((val.toInt.natAbs : Nat) : Int) = val.toInt := by omega
    simp only [if_pos negative, List.head?_cons, if_true, List.tail_cons, parseDecimal_decimal,
      number, if_pos range, Int64.ofInt_toInt]
  · have number : ((val.toInt.natAbs : Nat) : Int) = val.toInt := by omega
    simp only [if_neg negative, if_neg (head?_decimal _), parseDecimal_decimal, number,
      if_pos range, Int64.ofInt_toInt]

/-- The double 1.5 -/
def oneAndHalf : Float8 := ⟨0x3FF8000000000000⟩

def textOps : TextOps where
  float8Out f := if f = oneAndHalf then ascii ['1', '.', '5'] else ascii ['N', 'a', 'N']
  float8In str := if str = ascii ['1', '.', '5'] then some oneAndHalf else none
  numericOut n := if n = int8Numeric 1 then ascii ['1'] else ascii ['N', 'a', 'N']
  numericIn str := if str = ascii ['1'] then some (int8Numeric 1) else none
  strtoint64 := strtoint64

end Age.Server
