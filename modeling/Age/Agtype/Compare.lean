import Age.Agtype.Token

/-!
# The btree comparator

`compare_agtype_containers_orderability` walks two token streams in lockstep.
This module is the translation of the comparator and of the scalar comparison
it calls; `Age.Agtype.Order` studies what order it gives.
-/

namespace Age.Agtype

open Lib

/-- The server functions a comparison calls. -/
structure OrderOps where
  /-- `varstr_cmp` under the default collation -/
  varstrCmp : Bytes → Bytes → Int
  numericCmp : Numeric → Numeric → Int
  int8Numeric : Int64 → Numeric
  float8Numeric : Float8 → Numeric

inductive CompareError where
  | invalidVertexStructure (found : Nat)
  | invalidEdgeStructure (found : Nat)
  | invalidScalarType (type : AgtypeValueType)
  | scalarTypeMismatch
  /-- a union member or an `agtype_value` is read that nothing has set -/
  | unsetRead
  deriving DecidableEq, Repr

def vertexNumFields : Nat := 3

def edgeNumFields : Nat := 5

/-- `val.int_value` of the first pair. -/
def firstInt : List AgtypePair → Except CompareError Int64
  | (_, .integer val) :: _ => .ok val
  | _ => .error .unsetRead

/-- `AGTYPE_VERTEX_GET_ID` -/
def vertexGetId (pairs : List AgtypePair) : Except CompareError Int64 :=
  if pairs.length ≠ vertexNumFields then
    .error (.invalidVertexStructure pairs.length)
  else firstInt pairs

/-- `AGTYPE_EDGE_GET_ID` -/
def edgeGetId (pairs : List AgtypePair) : Except CompareError Int64 :=
  if pairs.length ≠ edgeNumFields then
    .error (.invalidEdgeStructure pairs.length)
  else firstInt pairs

def compareTwoFloatsOrderability (lhs rhs : Float8) : Int :=
  if lhs.isNaN then
    if rhs.isNaN then 0 else 1
  else if rhs.isNaN then -1
  else if rhs.place < lhs.place then 1
  else if lhs.place < rhs.place then -1
  else 0

def compareInt64 (a b : Int64) : Int :=
  if a = b then 0 else if b < a then 1 else -1

def compareBool (a b : Bool) : Int :=
  if a = b then 0 else if b < a then 1 else -1

namespace OrderOps

variable (ops : OrderOps)

def compareStrings (a b : Bytes) : Int :=
  let result := ops.varstrCmp a b
  if 0 < result then 1 else if result < 0 then -1 else 0

mutual

def compareAgtypeScalarValues :
    AgtypeValue → AgtypeValue → Except CompareError Int
  | .null, .null => .ok 0
  | .string a, .string b => .ok (ops.compareStrings a b)
  | .numeric a, .numeric b => .ok (ops.numericCmp a b)
  | .bool a, .bool b => .ok (compareBool a b)
  | .integer a, .integer b => .ok (compareInt64 a b)
  | .float a, .float b => .ok (compareTwoFloatsOrderability a b)
  | .vertex a, .vertex b => do
      let aGraphid ← vertexGetId a
      let bGraphid ← vertexGetId b
      return compareInt64 aGraphid bGraphid
  | .edge a, .edge b => do
      let aGraphid ← edgeGetId a
      let bGraphid ← edgeGetId b
      return compareInt64 aGraphid bGraphid
  | .path a, .path b =>
      if a.length ≠ b.length then
        .ok (if b.length < a.length then 1 else -1)
      else comparePathElems a b
  | .array _ _, .array _ _ => .error (.invalidScalarType .array)
  | .object _, .object _ => .error (.invalidScalarType .object)
  | .integer a, .float b =>
      .ok (compareTwoFloatsOrderability (.ofInt64 a) b)
  | .float a, .integer b =>
      .ok (compareTwoFloatsOrderability a (.ofInt64 b))
  | .integer a, .numeric b => .ok (ops.numericCmp (ops.int8Numeric a) b)
  | .numeric a, .integer b => .ok (ops.numericCmp a (ops.int8Numeric b))
  | .float a, .numeric b => .ok (ops.numericCmp (ops.float8Numeric a) b)
  | .numeric a, .float b => .ok (ops.numericCmp a (ops.float8Numeric b))
  | _, _ => .error .scalarTypeMismatch

/-- The loop over the elements of two paths of one length. -/
def comparePathElems :
    List AgtypeValue → List AgtypeValue → Except CompareError Int
  | a :: as, b :: bs => do
      let res ← compareAgtypeScalarValues a b
      if res ≠ 0 then return res else comparePathElems as bs
  | _, _ => .ok 0

end

end OrderOps

/-- Larger numbers have higher priority. -/
def getTypeSortPriority : AgtypeValueType → Int
  | .path => 0
  | .edge => 1
  | .vertex => 2
  | .object => 3
  | .array => 4
  | .string => 5
  | .bool => 6
  | .numeric => 7
  | .integer => 7
  | .float => 7
  | .null => 8

/-- Type-defined order. -/
def typeDefinedOrder (va vb : AgtypeValueType) : Int :=
  if getTypeSortPriority va < getTypeSortPriority vb then -1 else 1

theorem typeDefinedOrder_ne_zero (va vb : AgtypeValueType) :
    typeDefinedOrder va vb ≠ 0 := by
  unfold typeDefinedOrder
  split_ifs <;> decide

def isNumberType : AgtypeValueType → Bool
  | .integer => true
  | .float => true
  | .numeric => true
  | _ => false

/-- `va.type` after one more call of the iterator on a value that was an
`AGTV_ARRAY`: an end token does not touch it. -/
def advancedType (rest : List Token) : AgtypeValueType :=
  match rest with
  | [] => .array
  | token :: _ => token.valType?.getD .array

namespace OrderOps

variable (ops : OrderOps)

/-- Two scalars under the same token. -/
def compareLeaves (va vb : AgtypeValue) : Except CompareError Int :=
  if va.type = vb.type ∨ (isNumberType va.type ∧ isNumberType vb.type) then
    ops.compareAgtypeScalarValues va vb
  else .ok (typeDefinedOrder va.type vb.type)

/-- Types of the values when the tokens differ and neither is an end token.
The type of an array is read off its first element. -/
def correctedTypes (ra rb : Token) (restA restB : List Token) :
    Except CompareError (AgtypeValueType × AgtypeValueType) :=
  match ra.valType?, rb.valType? with
  | some .array, some .object => .ok (advancedType restA, .object)
  | some .object, some .array => .ok (.object, advancedType restB)
  | some va, some vb => .ok (va, vb)
  | _, _ => .error .unsetRead

/-- `res` after one turn of the loop. -/
def compareTokens (ra rb : Token) (restA restB : List Token) :
    Except CompareError Int :=
  match ra, rb with
  | .endArray, .endArray => .ok 0
  | .endObject, .endObject => .ok 0
  | .key a, .key b => .ok (ops.compareStrings a b)
  | .value va, .value vb => ops.compareLeaves va vb
  | .elem va, .elem vb => ops.compareLeaves va vb
  | .beginArray rawA _, .beginArray rawB _ =>
      if rawA = rawB then .ok 0
      else if rawA then .ok (typeDefinedOrder (advancedType restA) .array)
      else .ok (typeDefinedOrder .array (advancedType restB))
  | .beginObject _, .beginObject _ => .ok 0
  | ra, rb =>
      if ra.isEnd then .ok (-1)
      else if rb.isEnd then .ok 1
      else do
        let (va, vb) ← correctedTypes ra rb restA restB
        return typeDefinedOrder va vb

/-- The `do ... while (res == 0)` loop. -/
def compareLoop : List Token → List Token → Except CompareError Int
  | [], [] => .ok 0
  | ra :: restA, rb :: restB => do
      let res ← ops.compareTokens ra rb restA restB
      if res ≠ 0 then return res else compareLoop restA restB
  -- one iterator is done and the other is not: only an end token is decided
  -- without reading a value that was never set
  | ra :: _, [] => if ra.isEnd then .ok (-1) else .error .unsetRead
  | [], rb :: _ => if rb.isEnd then .ok 1 else .error .unsetRead

/-- `compare_agtype_scalar_containers` -/
def compareAgtypeScalarContainers :
    List AgtypeValue → List AgtypeValue → Except CompareError Int
  | va :: _, vb :: _ => ops.compareLeaves va vb
  | _, _ => .error .unsetRead

def compareAgtypeContainersOrderability (a b : AgtypeValue) :
    Except CompareError Int :=
  match a, b with
  | .array true elemsA, .array true elemsB =>
      ops.compareAgtypeScalarContainers elemsA elemsB
  | a, b => ops.compareLoop a.tokens b.tokens

end OrderOps

end Age.Agtype
