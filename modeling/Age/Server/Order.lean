import Age.Agtype.Compare
import Age.Lib.ThreeWay

/-!
# Server functions behind a comparison

Concrete versions of the server functions the comparator calls, as they behave
in a database with the C collation.
-/

namespace Age.Server

open Lib Age.Agtype

/-- The digits of a number in base 10000, least significant first. -/
def digits10000 : (fuel : Nat) → Nat → List Nat
  | 0, _ => []
  | fuel + 1, n => if n = 0 then [] else n % 10000 :: digits10000 fuel (n / 10000)

/-- A varlena image around its content. -/
def varlena (content : Bytes) : Bytes :=
  encodeLE 4 ((content.length + 4) * 4) ++ content

/-- Content of the numeric in short format that holds an integer: sign and
weight in one word, then the digits without trailing zeros. -/
def numericContent (i : Int64) : Bytes :=
  let low := digits10000 5 i.toInt.natAbs
  let digits := (low.dropWhile (· = 0)).reverse
  let sign := if i.toInt < 0 then 0x2000 else 0
  encodeLE 2 (0x8000 + sign + (low.length - 1)) ++ digits.flatMap (encodeLE 2)

theorem length_digits10000_le (fuel n : Nat) : (digits10000 fuel n).length ≤ fuel := by
  induction fuel generalizing n with
  | zero => simp [digits10000]
  | succ fuel inductionHypothesis =>
      rw [digits10000]
      split_ifs
      · simp
      · have bound := inductionHypothesis (n / 10000)
        rw [List.length_cons]
        omega

theorem length_numericContent_le (i : Int64) : (numericContent i).length ≤ 12 := by
  have all := length_digits10000_le 5 i.toInt.natAbs
  have stripped := List.length_dropWhile_le (· = 0) (digits10000 5 i.toInt.natAbs)
  simp only [numericContent, List.length_append, length_encodeLE,
    List.length_flatMap, List.map_const', List.sum_replicate, List.length_reverse,
    smul_eq_mul]
  omega

/-- The header of a varlena announces the length of the image. -/
theorem varsize4b_varlena {content : Bytes} (short : content.length < 2 ^ 28) :
    varsize4b (varlena content) = (varlena content).length := by
  have header : readLE 4 (varlena content) 0 = (content.length + 4) * 4 := by
    have read := readLE_append (w := 4) [] content
      (n := (content.length + 4) * 4) (by norm_num; omega)
    simpa [varlena] using read
  rw [varsize4b, header]
  simp [varlena]
  omega

/-- `int8_numeric` -/
def int8Numeric (i : Int64) : Numeric where
  image := varlena (numericContent i)
  hasHeader := by simp [varlena]
  varsize := varsize4b_varlena (by have := length_numericContent_le i; omega)

/-- A numeric's sort class (negative infinity, finite, infinity, NaN), its
digits as one number with its sign, and the power of 10000 that scales it. -/
def numericParts (n : Numeric) : Int × Int × Int :=
  let header := readLE 2 n.image 4
  let digitsFrom (start : Nat) : List Nat :=
    (List.range ((n.image.length - start) / 2)).map fun i => readLE 2 n.image (start + 2 * i)
  let parts (negative : Bool) (weight : Int) (digits : List Nat) : Int × Int × Int :=
    let mantissa : Int := digits.foldl (fun acc digit => acc * 10000 + digit) 0
    (0, if negative then -mantissa else mantissa, weight - digits.length + 1)
  if header &&& 0xC000 = 0xC000 then
    (if header &&& 0xF000 = 0xC000 then 2 else if header &&& 0xF000 = 0xD000 then 1 else -1,
      0, 0)
  else if header &&& 0xC000 = 0x8000 then
    parts (header &&& 0x2000 ≠ 0)
      (if header &&& 0x40 = 0 then (header &&& 0x3F : Nat) else (header &&& 0x3F : Nat) - 64)
      (digitsFrom 6)
  else
    let weight := readLE 2 n.image 6
    parts (header &&& 0xC000 = 0x4000)
      (if weight < 2 ^ 15 then weight else weight - 2 ^ 16) (digitsFrom 8)

/-- `numeric_cmp` -/
def numericCmp (a b : Numeric) : Int :=
  let (aClass, aMantissa, aExponent) := numericParts a
  let (bClass, bMantissa, bExponent) := numericParts b
  let scale := min aExponent bExponent
  thenBy (compareBy aClass bClass)
    (compareBy (aMantissa * 10000 ^ (aExponent - scale).toNat)
      (bMantissa * 10000 ^ (bExponent - scale).toNat))

/-- `float8_numeric` for the doubles that hold an integer in the range of
`int8`, which are the ones it is called on below. -/
def float8Numeric (f : Float8) : Numeric :=
  let exponent : Nat := f.magnitude / 2 ^ 52
  let mantissa : Nat := 2 ^ 52 + f.magnitude % 2 ^ 52
  let whole : Nat := mantissa * 2 ^ exponent / 2 ^ 1075
  int8Numeric (if f.isNegative then .ofInt (-whole) else .ofInt whole)

/-- The server functions of a database with the C collation, where `varstr_cmp`
is `memcmp` of the common part and then the shorter string first. -/
def orderOps : OrderOps where
  varstrCmp := memcmp
  numericCmp := numericCmp
  int8Numeric := int8Numeric
  float8Numeric := float8Numeric

end Age.Server
