import Mathlib.Data.Nat.Digits.Lemmas
import Mathlib.Tactic.Ring

/-!
# Long division

A number written in the digits of a base, the first digit the highest, is divided digit by digit
by a number that is smaller than the base.
-/

namespace Age.LongDivision

variable {base divisor : Nat}

section Numerals

/-- The number that some digits stand for, the first digit the highest -/
def numeral (base : Nat) (digits : List Nat) : Nat := Nat.ofDigits base digits.reverse

@[simp]
theorem numeral_nil (base : Nat) : numeral base [] = 0 := rfl

theorem numeral_append (high low : List Nat) :
    numeral base (high ++ low) = numeral base high * base ^ low.length + numeral base low := by
  rw [numeral, List.reverse_append, Nat.ofDigits_append, List.length_reverse, Nat.mul_comm,
    Nat.add_comm]
  rfl

@[simp]
theorem numeral_singleton (base digit : Nat) : numeral base [digit] = digit :=
  Nat.ofDigits_singleton

theorem numeral_cons (digit : Nat) (digits : List Nat) :
    numeral base (digit :: digits) = digit * base ^ digits.length + numeral base digits := by
  rw [← List.singleton_append, numeral_append, numeral_singleton]

theorem numeral_lt (several : 1 < base) {digits : List Nat}
    (small : ∀ digit ∈ digits, digit < base) : numeral base digits < base ^ digits.length := by
  rw [← List.length_reverse]
  exact Nat.ofDigits_lt_base_pow_length several fun digit inside =>
    small digit (List.mem_reverse.1 inside)

end Numerals

section Division

/-- The quotient's digits and the remainder; `remainder` is what the digits before have left. -/
def divide (base divisor : Nat) : (remainder : Nat) → List Nat → List Nat × Nat
  | remainder, [] => ([], remainder)
  | remainder, digit :: digits =>
      let dividend := remainder * base + digit
      let (quotient, last) := divide base divisor (dividend % divisor) digits
      (dividend / divisor :: quotient, last)

@[simp]
theorem length_divide (remainder : Nat) (digits : List Nat) :
    (divide base divisor remainder digits).1.length = digits.length := by
  induction digits generalizing remainder with
  | nil => rfl
  | cons digit rest inductionHypothesis =>
      simp only [divide, List.length_cons, inductionHypothesis]

/-- Division with remainder -/
theorem divide_exact (remainder : Nat) (digits : List Nat) :
    remainder * base ^ digits.length + numeral base digits =
      numeral base (divide base divisor remainder digits).1 * divisor +
        (divide base divisor remainder digits).2 := by
  induction digits generalizing remainder with
  | nil => simp [divide]
  | cons digit rest inductionHypothesis =>
      have later := inductionHypothesis ((remainder * base + digit) % divisor)
      have here := Nat.div_add_mod (remainder * base + digit) divisor
      simp only [divide, numeral_cons, length_divide, List.length_cons]
      rw [Nat.add_mul, Nat.add_assoc, ← later]
      calc remainder * base ^ (rest.length + 1) + (digit * base ^ rest.length + numeral base rest)
          = (remainder * base + digit) * base ^ rest.length + numeral base rest := by ring
        _ = (divisor * ((remainder * base + digit) / divisor) +
              (remainder * base + digit) % divisor) * base ^ rest.length + numeral base rest := by
            rw [here]
        _ = _ := by ring

theorem divide_remainder_lt {remainder : Nat} (small : remainder < divisor) (digits : List Nat) :
    (divide base divisor remainder digits).2 < divisor := by
  induction digits generalizing remainder with
  | nil => exact small
  | cons digit rest inductionHypothesis =>
      exact inductionHypothesis (Nat.mod_lt _ (Nat.zero_lt_of_lt small))

/-- The digits of the quotient are digits of the base. -/
theorem divide_small {remainder : Nat} (below : remainder < divisor) {digits : List Nat}
    (small : ∀ digit ∈ digits, digit < base) :
    ∀ digit ∈ (divide base divisor remainder digits).1, digit < base := by
  induction digits generalizing remainder with
  | nil => exact nofun
  | cons digit rest inductionHypothesis =>
      have isDigit := small digit List.mem_cons_self
      intro quotient inside
      rcases List.mem_cons.1 inside with rfl | later
      · refine Nat.div_lt_of_lt_mul ?_
        have room := Nat.mul_le_mul_right base (Nat.succ_le_of_lt below)
        rw [Nat.succ_mul] at room
        exact Nat.lt_of_lt_of_le (Nat.add_lt_add_left isDigit _) room
      · exact inductionHypothesis (Nat.mod_lt _ (Nat.zero_lt_of_lt below))
          (fun other isOther => small other (List.mem_cons_of_mem _ isOther)) _ later

end Division

end Age.LongDivision
