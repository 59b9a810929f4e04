import Age.Agtype.Text.Print

/-!
# Arithmetic on scalars

The operators of `agtype_ops.c` read both scalars and choose a branch by their types.  The
branches for integers compute with the machine's own operators, which wrap, and which C leaves
undefined for some divisions.
-/

namespace Age.Agtype

open Lib

section Outcomes

inductive ArithmeticOperator where
  | add | sub | mul | div | mod
  deriving DecidableEq, Repr

inductive ArithmeticError where
  /-- `Invalid input parameter types for agtype_add`, and so on -/
  | invalidParameterTypes (operator : ArithmeticOperator)
  /-- `Invalid input parameter type for agtype_neg` -/
  | invalidParameterTypeNeg
  /-- `division by zero` -/
  | divisionByZero
  | stringTooLong
  /-- An error of the numeric functions of the server -/
  | numeric
  deriving DecidableEq, Repr

/-- What a call comes to; `undefined` is a machine division that has no result. -/
inductive Outcome where
  | value (value : AgtypeValue)
  | null
  | error (error : ArithmeticError)
  | undefined

/-- The operators on doubles and on the server's numerics; `fmod` is the one of `%`. -/
structure NumberOps where
  float : ArithmeticOperator → Float8 → Float8 → Float8
  floatNeg : Float8 → Float8
  int8Numeric : Int64 → Numeric
  float8Numeric : Float8 → Option Numeric
  numeric : ArithmeticOperator → Numeric → Numeric → Option Numeric
  numericUminus : Numeric → Option Numeric

end Outcomes

section Integers

/-- The C operator `/` on `int64` -/
def machineDiv (lhs rhs : Int64) : Option Int64 :=
  if rhs = 0 ∨ lhs = Int64.minValue ∧ rhs = -1 then none else some (lhs / rhs)

/-- The C operator `%` on `int64`: the machine divides for it. -/
def machineMod (lhs rhs : Int64) : Option Int64 :=
  if rhs = 0 ∨ lhs = Int64.minValue ∧ rhs = -1 then none else some (lhs % rhs)

/-- The integer branch of an operator; the server is built so that a sum wraps. -/
def ArithmeticOperator.integer (lhs rhs : Int64) : ArithmeticOperator → Option Int64
  | .add => some (lhs + rhs)
  | .sub => some (lhs - rhs)
  | .mul => some (lhs * rhs)
  | .div => machineDiv lhs rhs
  | .mod => machineMod lhs rhs

end Integers

section Operators

variable (ops : NumberOps)

/-- `get_numeric_datum_from_agtype_value` -/
def getNumericDatum : AgtypeValue → Option Numeric
  | .integer val => some (ops.int8Numeric val)
  | .float val => ops.float8Numeric val
  | .numeric val => some val
  | _ => none

/-- `is_numeric_result` -/
def isNumericResult (lhs rhs : AgtypeValue) : Bool :=
  let isNumber := fun (type : AgtypeValueType) => type = .integer || type = .float
  (lhs.type = .numeric || rhs.type = .numeric) && (isNumber lhs.type || isNumber rhs.type) ||
    lhs.type = .numeric && rhs.type = .numeric

/-- The branches that the five operators share -/
def numberArithmetic (operator : ArithmeticOperator) : AgtypeValue → AgtypeValue → Outcome
  | .integer lhs, .integer rhs =>
      match operator.integer lhs rhs with
      | some result => .value (.integer result)
      | none => .undefined
  | .float lhs, .float rhs => .value (.float (ops.float operator lhs rhs))
  | .float lhs, .integer rhs => .value (.float (ops.float operator lhs (Float8.ofInt64 rhs)))
  | .integer lhs, .float rhs => .value (.float (ops.float operator (Float8.ofInt64 lhs) rhs))
  | lhs, rhs =>
      if isNumericResult lhs rhs then
        match getNumericDatum ops lhs, getNumericDatum ops rhs with
        | some lhs, some rhs =>
            match ops.numeric operator lhs rhs with
            | some result => .value (.numeric result)
            | none => .error .numeric
        | _, _ => .error .numeric
      else .error (.invalidParameterTypes operator)

def isNull (value : AgtypeValue) : Bool := value.type = .null

/-- Arithmetic over null yields null. -/
def unlessNull (lhs rhs : AgtypeValue) (outcome : Outcome) : Outcome :=
  if isNull lhs || isNull rhs then .null else outcome

/-- `get_string_from_agtype_value` -/
def getStringFromAgtypeValue (text : TextOps) : AgtypeValue → Bytes
  | .integer val => pgLltoa val
  | .float val => float8Text text val
  | .string val => val
  | .numeric val => text.numericOut val
  | _ => []

/-- `agtype_add` on two scalars; a string is concatenated with any of them, and two others
that are no numbers become an array. -/
def agtypeAdd (text : TextOps) (lhs rhs : AgtypeValue) : Outcome :=
  unlessNull lhs rhs (
    if lhs.type = .string ∨ rhs.type = .string then
      let string := getStringFromAgtypeValue text lhs ++ getStringFromAgtypeValue text rhs
      if agtentryOfflenmask < string.length then .error .stringTooLong
      else .value (.string string)
    else
      match numberArithmetic ops .add lhs rhs with
      | .error (.invalidParameterTypes .add) => .value (.array false [lhs, rhs])
      | outcome => outcome)

/-- `agtype_sub` on two scalars -/
def agtypeSub (lhs rhs : AgtypeValue) : Outcome :=
  unlessNull lhs rhs (numberArithmetic ops .sub lhs rhs)

/-- `agtype_mul` -/
def agtypeMul (lhs rhs : AgtypeValue) : Outcome :=
  unlessNull lhs rhs (numberArithmetic ops .mul lhs rhs)

/-- The comparison of a divisor with 0 -/
def isZero : AgtypeValue → Bool
  | .integer val => val = 0
  | .float val => val.ieeeEq (Float8.ofInt64 0)
  | _ => false

/-- `agtype_div`, which tests the divisor unless it divides as numerics -/
def agtypeDiv (lhs rhs : AgtypeValue) : Outcome :=
  unlessNull lhs rhs (
    if (lhs.type = .integer ∨ lhs.type = .float) ∧ isZero rhs then .error .divisionByZero
    else numberArithmetic ops .div lhs rhs)

/-- `agtype_mod`, which does not -/
def agtypeMod (lhs rhs : AgtypeValue) : Outcome :=
  unlessNull lhs rhs (numberArithmetic ops .mod lhs rhs)

/-- `agtype_neg` -/
def agtypeNeg : AgtypeValue → Outcome
  | .null => .null
  | .integer val => .value (.integer (-val))
  | .float val => .value (.float (ops.floatNeg val))
  | .numeric val =>
      match ops.numericUminus val with
      | some result => .value (.numeric result)
      | none => .error .numeric
  | _ => .error .invalidParameterTypeNeg

end Operators

section Exactness

inductive IntegerOperator where
  | binary (operator : ArithmeticOperator)
  | neg
  deriving DecidableEq, Repr

/-- The operator on integers; the negation takes the first. -/
def IntegerOperator.run (ops : NumberOps) (text : TextOps) (operator : IntegerOperator)
    (lhs rhs : Int64) : Outcome :=
  match operator with
  | .binary .add => agtypeAdd ops text (.integer lhs) (.integer rhs)
  | .binary .sub => agtypeSub ops (.integer lhs) (.integer rhs)
  | .binary .mul => agtypeMul ops (.integer lhs) (.integer rhs)
  | .binary .div => agtypeDiv ops (.integer lhs) (.integer rhs)
  | .binary .mod => agtypeMod ops (.integer lhs) (.integer rhs)
  | .neg => agtypeNeg ops (.integer lhs)

/-- The result in mathematics, with the truncated quotient and its remainder -/
def IntegerOperator.exact (operator : IntegerOperator) (lhs rhs : Int) : Option Int :=
  match operator with
  | .binary .add => some (lhs + rhs)
  | .binary .sub => some (lhs - rhs)
  | .binary .mul => some (lhs * rhs)
  | .binary .div => if rhs = 0 then none else some (lhs.tdiv rhs)
  | .binary .mod => if rhs = 0 then none else some (lhs.tmod rhs)
  | .neg => some (-lhs)

def Representable (number : Int) : Prop := -2 ^ 63 ≤ number ∧ number < 2 ^ 63

instance (number : Int) : Decidable (Representable number) :=
  inferInstanceAs (Decidable (_ ∧ _))

/-- The exact result where an `int64` holds it, and an error where none does -/
def ExactOrError (operator : IntegerOperator) (lhs rhs : Int64) (outcome : Outcome) : Prop :=
  match (operator.exact lhs.toInt rhs.toInt).filter fun result => Representable result with
  | some result => outcome = .value (.integer (Int64.ofInt result))
  | none => ∃ error, outcome = .error error

/-- The operands that the machine computes with exactly, or that are tested -/
def IntegerOperator.Safe (operator : IntegerOperator) (lhs rhs : Int64) : Prop :=
  match operator with
  | .binary .add => Representable (lhs.toInt + rhs.toInt)
  | .binary .sub => Representable (lhs.toInt - rhs.toInt)
  | .binary .mul => Representable (lhs.toInt * rhs.toInt)
  | .binary .div => ¬(lhs = Int64.minValue ∧ rhs = -1)
  | .binary .mod => rhs ≠ 0 ∧ ¬(lhs = Int64.minValue ∧ rhs = -1)
  | .neg => lhs ≠ Int64.minValue

variable {operator : IntegerOperator} {lhs rhs : Int64} {outcome : Outcome}

theorem representable_toInt (value : Int64) : Representable value.toInt :=
  ⟨Int64.le_toInt value, Int64.toInt_lt value⟩

theorem exactOrError_some {result : Int}
    (isExact : operator.exact lhs.toInt rhs.toInt = some result) :
    ExactOrError operator lhs rhs outcome ↔
      (Representable result ∧ outcome = .value (.integer (Int64.ofInt result)) ∨
        ¬Representable result ∧ ∃ error, outcome = .error error) := by
  unfold ExactOrError
  rw [isExact]
  by_cases fits : Representable result
  · simp [Option.filter_some, fits]
  · simp [Option.filter_some, fits]

theorem exactOrError_none (noExact : operator.exact lhs.toInt rhs.toInt = none) :
    ExactOrError operator lhs rhs outcome ↔ ∃ error, outcome = .error error := by
  unfold ExactOrError
  rw [noExact]
  rfl

/-- A result that is given out whatever it should be is right where it fits. -/
theorem exactOrError_wrapped {result : Int} {value : Int64}
    (isExact : operator.exact lhs.toInt rhs.toInt = some result)
    (wraps : Int64.ofInt result = value) :
    ExactOrError operator lhs rhs (.value (.integer value)) ↔ Representable result := by
  rw [exactOrError_some isExact, wraps]
  simp

theorem not_exactOrError_undefined : ¬ExactOrError operator lhs rhs .undefined := by
  cases isExact : operator.exact lhs.toInt rhs.toInt with
  | none =>
      rw [exactOrError_none isExact]
      simp
  | some result =>
      rw [exactOrError_some isExact]
      simp

theorem toInt_eq_zero : rhs.toInt = 0 ↔ rhs = 0 :=
  ⟨fun isZero => Int64.toInt_inj.1 isZero, fun isZero => by rw [isZero]; rfl⟩

theorem toInt_div_of_defined (defined : ¬(lhs = Int64.minValue ∧ rhs = -1)) :
    (lhs / rhs).toInt = lhs.toInt.tdiv rhs.toInt := by
  by_cases isMin : lhs = Int64.minValue
  · exact Int64.toInt_div_of_ne_right _ _ fun isMinusOne => defined ⟨isMin, isMinusOne⟩
  · exact Int64.toInt_div_of_ne_left _ _ isMin

theorem machineMod_exactOrError :
    ExactOrError (.binary .mod) lhs rhs (match machineMod lhs rhs with
      | some result => .value (.integer result)
      | none => .undefined) ↔ rhs ≠ 0 ∧ ¬(lhs = Int64.minValue ∧ rhs = -1) := by
  unfold machineMod
  split_ifs with isUndefined
  · refine iff_of_false not_exactOrError_undefined fun safe => ?_
    exact isUndefined.elim safe.1 safe.2
  · rw [not_or] at isUndefined
    have isExact : IntegerOperator.exact (.binary .mod) lhs.toInt rhs.toInt =
        some (lhs.toInt.tmod rhs.toInt) := if_neg (mt toInt_eq_zero.1 isUndefined.1)
    rw [← Int64.toInt_mod] at isExact
    rw [exactOrError_wrapped isExact (Int64.ofInt_toInt _)]
    exact iff_of_true (representable_toInt _) isUndefined

theorem agtypeDiv_exactOrError (ops : NumberOps) :
    ExactOrError (.binary .div) lhs rhs (agtypeDiv ops (.integer lhs) (.integer rhs)) ↔
      ¬(lhs = Int64.minValue ∧ rhs = -1) := by
  unfold agtypeDiv unlessNull
  by_cases zero : rhs = 0
  · have noExact : IntegerOperator.exact (.binary .div) lhs.toInt rhs.toInt = none :=
      if_pos (toInt_eq_zero.2 zero)
    rw [exactOrError_none noExact]
    refine iff_of_true ⟨.divisionByZero, ?_⟩ fun both => ?_
    · simp [isNull, AgtypeValue.type, isZero, zero]
    · rw [zero] at both
      exact absurd both.2 (by decide)
  · have isExact : IntegerOperator.exact (.binary .div) lhs.toInt rhs.toInt =
        some (lhs.toInt.tdiv rhs.toInt) := if_neg (mt toInt_eq_zero.1 zero)
    have tested : ¬(((AgtypeValue.integer lhs).type = .integer ∨
        (AgtypeValue.integer lhs).type = .float) ∧ isZero (.integer rhs) = true) := by
      simp [isZero, zero]
    rw [if_neg tested]
    simp only [isNull, AgtypeValue.type, reduceCtorEq, decide_false, Bool.or_false,
      Bool.false_eq_true, if_false, numberArithmetic, ArithmeticOperator.integer, machineDiv]
    by_cases defined : lhs = Int64.minValue ∧ rhs = -1
    · rw [if_pos (.inr defined)]
      exact iff_of_false not_exactOrError_undefined fun safe => safe defined
    · rw [if_neg (not_or.2 ⟨zero, defined⟩)]
      rw [← toInt_div_of_defined defined] at isExact
      rw [exactOrError_wrapped isExact (Int64.ofInt_toInt _)]
      exact iff_of_true (representable_toInt _) defined

theorem representable_neg_iff : Representable (-lhs.toInt) ↔ lhs ≠ Int64.minValue := by
  have isMin : lhs = Int64.minValue ↔ lhs.toInt = -2 ^ 63 :=
    ⟨fun same => by rw [same]; rfl, fun same => Int64.toInt_inj.1 (same.trans rfl)⟩
  obtain ⟨low, high⟩ := representable_toInt lhs
  rw [ne_eq, isMin]
  unfold Representable
  omega

/-- The operators on integers are exact, or fail, exactly where the machine does not wrap and
does not meet a division without a result. -/
theorem integerOperator_exactOrError_iff (ops : NumberOps) (text : TextOps)
    (operator : IntegerOperator) (lhs rhs : Int64) :
    ExactOrError operator lhs rhs (operator.run ops text lhs rhs) ↔ operator.Safe lhs rhs := by
  match operator with
  | .binary .add =>
      exact exactOrError_wrapped rfl (by rw [Int64.ofInt_add, Int64.ofInt_toInt, Int64.ofInt_toInt])
  | .binary .sub =>
      exact exactOrError_wrapped rfl (by rw [Int64.ofInt_sub, Int64.ofInt_toInt, Int64.ofInt_toInt])
  | .binary .mul =>
      exact exactOrError_wrapped rfl (by rw [Int64.ofInt_mul, Int64.ofInt_toInt, Int64.ofInt_toInt])
  | .binary .div => exact agtypeDiv_exactOrError ops
  | .binary .mod => exact machineMod_exactOrError
  | .neg =>
      refine (exactOrError_wrapped rfl ?_).trans representable_neg_iff
      rw [Int64.ofInt_neg, Int64.ofInt_toInt]

/-- `9223372036854775807 + 1` wraps, and `1 % 0` and `-9223372036854775808 / -1` have no
result, whatever the other operations are. -/
theorem integerOperators_wrap_and_divide :
    (¬∃ ops text, ExactOrError (.binary .add) Int64.maxValue 1
      (IntegerOperator.run ops text (.binary .add) Int64.maxValue 1)) ∧
    (¬∃ ops text, ExactOrError (.binary .mod) 1 0
      (IntegerOperator.run ops text (.binary .mod) 1 0)) ∧
    ¬∃ ops text, ExactOrError (.binary .div) Int64.minValue (-1)
      (IntegerOperator.run ops text (.binary .div) Int64.minValue (-1)) := by
  refine ⟨?_, ?_, ?_⟩
  · rintro ⟨ops, text, exact⟩
    have wrapped : Int64.ofInt (Int64.maxValue.toInt + (1 : Int64).toInt) = Int64.maxValue + 1 := by
      decide
    have fits := (@exactOrError_wrapped (.binary .add) Int64.maxValue 1 _ _ rfl wrapped).1 exact
    exact absurd fits (by decide)
  · rintro ⟨ops, text, exact⟩
    exact (machineMod_exactOrError.1 exact).1 rfl
  · rintro ⟨ops, text, exact⟩
    exact (agtypeDiv_exactOrError ops).1 exact ⟨rfl, rfl⟩

end Exactness

end Age.Agtype
