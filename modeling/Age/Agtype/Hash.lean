import Age.Agtype.Compare

/-!
# Hashing scalars

`agtype_hash_scalar_value` for the path operator class, and its variant with a
seed for hash indexes.
-/

namespace Age.Agtype

open Lib

/-- The server's hash functions for scalars. -/
structure HashOps where
  hashAny : Bytes → UInt32
  hashNumeric : Numeric → UInt32
  hashInt8 : Int64 → UInt32
  hashFloat8 : Float8 → UInt32
  hashAnyExtended : Bytes → (seed : UInt64) → UInt64
  hashNumericExtended : Numeric → (seed : UInt64) → UInt64
  hashUint32Extended : UInt32 → (seed : UInt64) → UInt64

inductive HashError where
  /-- `invalid agtype scalar type %d to compute hash` -/
  | invalidScalarType (type : AgtypeValueType)
  /-- `AGTYPE_VERTEX_GET_ID` and `AGTYPE_EDGE_GET_ID` -/
  | compare (error : CompareError)
  /-- a union member is read that nothing has set -/
  | unsetRead
  deriving DecidableEq, Repr

/-- The halves of an `int8`, folded into one word. -/
def foldInt8 (val : Int64) : UInt32 :=
  let lohalf := val.toUInt64.toUInt32
  let hihalf := (val.toUInt64 >>> 32).toUInt32
  lohalf ^^^ (if 0 ≤ val.toInt then hihalf else ~~~hihalf)

namespace HashOps

variable (ops : HashOps)

/-- `tmp` of `agtype_hash_scalar_value` -/
def scalarHash : AgtypeValue → Except HashError UInt32
  | .null => .ok 0x01
  | .string val => .ok (ops.hashAny val)
  | .numeric val => .ok (ops.hashNumeric val)
  | .bool val => .ok (if val then 0x02 else 0x04)
  | .integer val => .ok (ops.hashInt8 val)
  | .float val => .ok (ops.hashFloat8 val)
  | v => .error (.invalidScalarType v.type)

/-- Rotate the previous value left and mix in the next. -/
def mixHash (hash tmp : UInt32) : UInt32 := (hash <<< 1 ||| hash >>> 31) ^^^ tmp

def agtypeHashScalarValue (v : AgtypeValue) (hash : UInt32) : Except HashError UInt32 :=
  (ops.scalarHash v).map (mixHash hash)

end HashOps

end Age.Agtype
