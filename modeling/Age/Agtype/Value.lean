import Age.Lib.Bytes

/-!
# In-memory agtype values

`AgtypeValue` is the tree an `agtype_value` holds: the scalar types, the graph
entities, and the two container types.  Nested containers in on-disk form
(`AGTV_BINARY`) belong to the byte-level reader and do not occur in a tree.
-/

namespace Age.Agtype

open Lib

/-- An eight-byte IEEE 754 double, kept as its bit pattern. -/
structure Float8 where
  bits : UInt64
  deriving DecidableEq, Repr

namespace Float8

/-- The exponent and fraction bits, read as one number. -/
def magnitude (f : Float8) : Nat := f.bits.toNat % 2 ^ 63

def isNegative (f : Float8) : Bool := 2 ^ 63 ≤ f.bits.toNat

/-- `isnan`: the exponent is all ones and the fraction is not zero. -/
def isNaN (f : Float8) : Bool := 0x7FF0000000000000 < f.magnitude

/-- The place of a double among the doubles that are not NaN; both zeros share
the place 0. -/
def place (f : Float8) : Int :=
  if f.isNegative then -(f.magnitude : Int) else f.magnitude

/-- The C operator `==` on doubles. -/
def ieeeEq (lhs rhs : Float8) : Bool :=
  !lhs.isNaN && !rhs.isNaN && lhs.place == rhs.place

/-- The magnitude bits of the double nearest to a natural number, ties to even.
A carry out of the fraction moves into the exponent. -/
def roundNat (n : Nat) : Nat :=
  if n = 0 then 0
  else
    let exponent := n.log2
    if exponent ≤ 52 then
      (exponent + 1023) * 2 ^ 52 + (n * 2 ^ (52 - exponent) - 2 ^ 52)
    else
      let unit := 2 ^ (exponent - 52)
      let quotient := n / unit
      let roundUp :=
        unit < 2 * (n % unit) ∨ (unit = 2 * (n % unit) ∧ quotient % 2 = 1)
      (exponent + 1023) * 2 ^ 52 + (quotient - 2 ^ 52) + if roundUp then 1 else 0

/-- The C conversion `(float8)` of an `int64`. -/
def ofInt64 (i : Int64) : Float8 :=
  if i.toInt < 0 then
    ⟨UInt64.ofNat (2 ^ 63 + roundNat i.toInt.natAbs)⟩
  else
    ⟨UInt64.ofNat (roundNat i.toInt.natAbs)⟩

end Float8

/-- `VARSIZE_4B`: the total size a four-byte varlena header announces. -/
def varsize4b (image : Bytes) : Nat := readLE 4 image 0 / 4

/-- A `Numeric` datum: an untoasted varlena whose header gives its own length. -/
structure Numeric where
  image : Bytes
  hasHeader : 4 ≤ image.length
  varsize : varsize4b image = image.length
  deriving DecidableEq

/-- The members of `enum agtype_value_type` that a tree can hold. -/
inductive AgtypeValueType where
  | null | string | numeric | integer | float | bool
  | vertex | edge | path
  | array | object
  deriving DecidableEq, Repr

inductive AgtypeValue where
  | null
  | string (val : Bytes)
  | numeric (val : Numeric)
  | integer (val : Int64)
  | float (val : Float8)
  | bool (val : Bool)
  | vertex (pairs : List (Bytes × AgtypeValue))
  | edge (pairs : List (Bytes × AgtypeValue))
  | path (elems : List AgtypeValue)
  | array (rawScalar : Bool) (elems : List AgtypeValue)
  | object (pairs : List (Bytes × AgtypeValue))

/-- A key/value pair of an object.  The key is always an `AGTV_STRING`. -/
abbrev AgtypePair := Bytes × AgtypeValue

namespace AgtypeValue

/-- The `type` field of an `agtype_value`. -/
def type : AgtypeValue → AgtypeValueType
  | null => .null
  | string _ => .string
  | numeric _ => .numeric
  | integer _ => .integer
  | float _ => .float
  | bool _ => .bool
  | vertex _ => .vertex
  | edge _ => .edge
  | path _ => .path
  | array _ _ => .array
  | object _ => .object

/-- `IS_A_AGTYPE_SCALAR`: graph entities count as scalars, containers do not. -/
def isScalar : AgtypeValue → Bool
  | array _ _ => false
  | object _ => false
  | _ => true

/-- Induction over a tree: a container or an entity may use the statement for
each of its children. -/
theorem inductionOn {motive : AgtypeValue → Prop} (v : AgtypeValue)
    (null : motive null) (string : ∀ val, motive (string val))
    (numeric : ∀ val, motive (numeric val))
    (integer : ∀ val, motive (integer val)) (float : ∀ val, motive (float val))
    (bool : ∀ val, motive (bool val))
    (vertex : ∀ pairs : List AgtypePair,
      (∀ pair ∈ pairs, motive pair.2) → motive (vertex pairs))
    (edge : ∀ pairs : List AgtypePair,
      (∀ pair ∈ pairs, motive pair.2) → motive (edge pairs))
    (path : ∀ elems, (∀ elem ∈ elems, motive elem) → motive (path elems))
    (array : ∀ rawScalar elems, (∀ elem ∈ elems, motive elem) →
      motive (array rawScalar elems))
    (object : ∀ pairs : List AgtypePair,
      (∀ pair ∈ pairs, motive pair.2) → motive (object pairs)) :
    motive v := by
  refine @AgtypeValue.rec motive (fun pairs => ∀ pair ∈ pairs, motive pair.2)
    (fun elems => ∀ elem ∈ elems, motive elem) (fun pair => motive pair.2)
    null string numeric integer float bool vertex edge path array object
    ?_ ?_ ?_ ?_ ?_ v
  · simp
  · intro pair rest first others
    simpa using ⟨first, fun key value membership => others (key, value) membership⟩
  · simp
  · intro elem rest first others
    simpa using ⟨first, others⟩
  · intro key value first
    exact first

end AgtypeValue

end Age.Agtype
