import Age.Agtype.Value

/-!
# The on-disk layout

Entries, container headers, and what it means that a region of memory holds a
given tree.  A pointer is the list of the bytes from its target on.
-/

namespace Age.Agtype

open Lib

section Entries

def agtentryOfflenmask : Nat := 0x0FFFFFFF

def agtentryTypemask : Nat := 0x70000000

def agtentryHasOff : Nat := 0x80000000

def agtentryIsString : Nat := 0x00000000

def agtentryIsNumeric : Nat := 0x10000000

def agtentryIsBoolFalse : Nat := 0x20000000

def agtentryIsBoolTrue : Nat := 0x30000000

def agtentryIsNull : Nat := 0x40000000

def agtentryIsContainer : Nat := 0x50000000

def agtentryIsAgtype : Nat := 0x70000000

/-- `AGTE_OFFLENFLD` -/
def agteOfflenfld (entry : Nat) : Nat := entry &&& agtentryOfflenmask

/-- `AGTE_HAS_OFF` -/
def agteHasOff (entry : Nat) : Bool := entry &&& agtentryHasOff ≠ 0

/-- The type bits of an entry. -/
def agteType (entry : Nat) : Nat := entry &&& agtentryTypemask

/-- `AGTE_ADVANCE_OFFSET` -/
def agteAdvanceOffset (offset entry : Nat) : Nat :=
  if agteHasOff entry then agteOfflenfld entry else offset + agteOfflenfld entry

theorem agteOfflenfld_eq (entry : Nat) : agteOfflenfld entry = entry % 2 ^ 28 :=
  Nat.and_two_pow_sub_one_eq_mod entry 28

/-- Masking a block of bits that starts at bit `low`. -/
theorem and_block (entry low width : Nat) :
    entry &&& ((2 ^ width - 1) <<< low) = entry / 2 ^ low % 2 ^ width * 2 ^ low := by
  apply Nat.eq_of_testBit_eq
  intro i
  rw [← Nat.shiftLeft_eq, ← Nat.shiftRight_eq_div_pow, Nat.testBit_and,
    Nat.testBit_shiftLeft, Nat.testBit_shiftLeft, Nat.testBit_mod_two_pow,
    Nat.testBit_shiftRight, Nat.testBit_two_pow_sub_one]
  by_cases above : low ≤ i
  · have sum : low + (i - low) = i := by omega
    simp [above, sum, Bool.and_comm]
  · simp [above]

theorem agteType_eq (entry : Nat) : agteType entry = entry / 2 ^ 28 % 8 * 2 ^ 28 :=
  and_block entry 28 3

theorem agteHasOff_eq (entry : Nat) : agteHasOff entry = decide (entry / 2 ^ 31 % 2 = 1) := by
  have masked : entry &&& agtentryHasOff = entry / 2 ^ 31 % 2 * 2 ^ 31 := and_block entry 31 1
  rw [agteHasOff, masked]
  rcases Nat.mod_two_eq_zero_or_one (entry / 2 ^ 31) with zero | one
  · rw [zero]
    rfl
  · rw [one]
    rfl

/-- Type bits and a length that fits do not overlap. -/
theorem type_or_length {k length : Nat} (fits : length < 2 ^ 28) :
    k * 2 ^ 28 ||| length = k * 2 ^ 28 + length := by
  rw [Nat.mul_comm]
  exact (Nat.two_pow_add_eq_or_of_lt fits k).symm

end Entries

section Containers

def agtCmask : Nat := 0x0FFFFFFF

def agtFscalar : Nat := 0x10000000

def agtFobject : Nat := 0x20000000

def agtFarray : Nat := 0x40000000

/-- The `header` field of an `agtype_container`. -/
def containerHeader (container : Bytes) : Nat := readLE 4 container 0

/-- `container->children[i]` -/
def containerChild (container : Bytes) (i : Nat) : Nat := readLE 4 container (4 + 4 * i)

/-- `AGTYPE_CONTAINER_SIZE` -/
def agtypeContainerSize (container : Bytes) : Nat := containerHeader container &&& agtCmask

/-- `AGTYPE_CONTAINER_IS_SCALAR` -/
def agtypeContainerIsScalar (container : Bytes) : Bool :=
  containerHeader container &&& agtFscalar ≠ 0

/-- `AGTYPE_CONTAINER_IS_OBJECT` -/
def agtypeContainerIsObject (container : Bytes) : Bool :=
  containerHeader container &&& agtFobject ≠ 0

/-- `AGTYPE_CONTAINER_IS_ARRAY` -/
def agtypeContainerIsArray (container : Bytes) : Bool :=
  containerHeader container &&& agtFarray ≠ 0

/-- The data of the children, after a header and `count` entries. -/
def dataProper (container : Bytes) (count : Nat) : Bytes := container.drop (4 + 4 * count)

/-- The loop of `get_agtype_offset`, from the entry before the index down to the
last one that stores an end offset. -/
def getAgtypeOffset (container : Bytes) : (index : Nat) → Nat
  | 0 => 0
  | i + 1 =>
      let entry := containerChild container i
      if agteHasOff entry then agteOfflenfld entry
      else agteOfflenfld entry + getAgtypeOffset container i

def getAgtypeLength (container : Bytes) (index : Nat) : Nat :=
  let entry := containerChild container index
  if agteHasOff entry then agteOfflenfld entry - getAgtypeOffset container index
  else agteOfflenfld entry

/-- The header word of an array. -/
def arrayHeader (rawScalar : Bool) (numElems : Nat) : Nat :=
  if rawScalar then numElems ||| agtFarray ||| agtFscalar else numElems ||| agtFarray

/-- The header word of an object. -/
def objectHeader (numPairs : Nat) : Nat := numPairs ||| agtFobject

theorem arrayHeader_eq {numElems : Nat} (fits : numElems < 2 ^ 28) (rawScalar : Bool) :
    arrayHeader rawScalar numElems =
      (if rawScalar then 5 else 4) * 2 ^ 28 + numElems := by
  cases rawScalar with
  | false =>
      have array := type_or_length (k := 4) fits
      rw [arrayHeader, if_neg (by decide), Nat.or_comm]
      simpa [agtFarray] using array
  | true =>
      have scalar := type_or_length (k := 5) fits
      have flags : agtFarray ||| agtFscalar = 5 * 2 ^ 28 := by decide
      simp only [arrayHeader, if_true, Nat.or_assoc, flags]
      rw [Nat.or_comm]
      simpa using scalar

theorem objectHeader_eq {numPairs : Nat} (fits : numPairs < 2 ^ 28) :
    objectHeader numPairs = 2 * 2 ^ 28 + numPairs := by
  have object := type_or_length (k := 2) fits
  rw [objectHeader, Nat.or_comm]
  simpa [agtFobject] using object

/-- How a header word is taken apart again. -/
structure HeaderIs (container : Bytes) (flags count : Nat) : Prop where
  word : containerHeader container = flags * 2 ^ 28 + count
  fits : count < 2 ^ 28
  small : flags < 16

namespace HeaderIs

variable {container : Bytes} {flags count : Nat} (header : HeaderIs container flags count)
include header

theorem size : agtypeContainerSize container = count := by
  have fits := header.fits
  have masked : agtypeContainerSize container = containerHeader container % 2 ^ 28 :=
    Nat.and_two_pow_sub_one_eq_mod _ 28
  rw [masked, header.word]
  omega

theorem flag (bit : Nat) :
    containerHeader container &&& ((2 ^ 1 - 1) <<< (28 + bit)) =
      flags / 2 ^ bit % 2 * 2 ^ (28 + bit) := by
  have fits := header.fits
  have quotient : (flags * 2 ^ 28 + count) / 2 ^ 28 = flags := by omega
  rw [and_block, header.word, pow_add, ← Nat.div_div_eq_div_mul, quotient, pow_one]

theorem isScalar : agtypeContainerIsScalar container = decide (flags % 2 = 1) := by
  have masked : containerHeader container &&& agtFscalar = flags / 2 ^ 0 % 2 * 2 ^ 28 :=
    header.flag 0
  rw [agtypeContainerIsScalar, masked, pow_zero, Nat.div_one]
  rcases Nat.mod_two_eq_zero_or_one flags with zero | one
  · rw [zero]
    rfl
  · rw [one]
    rfl

theorem isObject : agtypeContainerIsObject container = decide (flags / 2 % 2 = 1) := by
  have masked : containerHeader container &&& agtFobject = flags / 2 ^ 1 % 2 * 2 ^ 29 :=
    header.flag 1
  rw [agtypeContainerIsObject, masked, pow_one]
  rcases Nat.mod_two_eq_zero_or_one (flags / 2) with zero | one
  · rw [zero]
    rfl
  · rw [one]
    rfl

theorem isArray : agtypeContainerIsArray container = decide (flags / 4 % 2 = 1) := by
  have masked : containerHeader container &&& agtFarray = flags / 2 ^ 2 % 2 * 2 ^ 30 :=
    header.flag 2
  rw [agtypeContainerIsArray, masked, show 2 ^ 2 = 4 from rfl]
  rcases Nat.mod_two_eq_zero_or_one (flags / 4) with zero | one
  · rw [zero]
    rfl
  · rw [one]
    rfl

end HeaderIs

end Containers

section Contents

/-- An entry gives the length of its data, or the offset where they end. -/
def EntryIs (entry offset length : Nat) : Prop :=
  if agteHasOff entry then agteOfflenfld entry = offset + length
  else agteOfflenfld entry = length

theorem EntryIs.advance {entry offset length : Nat} (is : EntryIs entry offset length) :
    agteAdvanceOffset offset entry = offset + length := by
  unfold EntryIs at is
  unfold agteAdvanceOffset
  split_ifs at is ⊢ <;> omega

theorem EntryIs.offset_succ {container : Bytes} {index offset length : Nat}
    (is : EntryIs (containerChild container index) offset length)
    (start : getAgtypeOffset container index = offset) :
    getAgtypeOffset container (index + 1) = offset + length := by
  unfold EntryIs at is
  rw [getAgtypeOffset, start]
  split_ifs at is ⊢ <;> omega

theorem EntryIs.length {container : Bytes} {i o length : Nat}
    (is : EntryIs (containerChild container i) o length)
    (start : getAgtypeOffset container i = o) :
    getAgtypeLength container i = length := by
  unfold EntryIs at is
  rw [getAgtypeLength, start]
  split_ifs at is ⊢ <;> omega

def agtHeaderInteger : Nat := 0

def agtHeaderFloat : Nat := 1

def agtHeaderVertex : Nat := 2

def agtHeaderEdge : Nat := 3

def agtHeaderPath : Nat := 4

/-- Keys laid out one after the other; `stop` is where their data end. -/
def KeysAt (container base : Bytes) : (index offset : Nat) → List Bytes → (stop : Nat) → Prop
  | _, offset, [], stop => offset = stop
  | index, offset, key :: rest, stop =>
      EntryIs (containerChild container index) offset key.length ∧
      agteType (containerChild container index) = agtentryIsString ∧
      (base.drop offset).take key.length = key ∧
      KeysAt container base (index + 1) (offset + key.length) rest stop

/-- The keys of an object, which come before its values. -/
def ObjectKeysAt (container : Bytes) (pairs : List AgtypePair) (stop : Nat) : Prop :=
  KeysAt container (dataProper container (2 * pairs.length)) 0 0 (pairs.map Prod.fst) stop

mutual

/-- The `length` bytes at `offset` of a data region hold a value of the type
`kind`.  Padding before aligned data belongs to them. -/
def NodeAt (kind : Nat) (base : Bytes) (offset length : Nat) : AgtypeValue → Prop
  | .null => kind = agtentryIsNull
  | .string val =>
      kind = agtentryIsString ∧ val.length = length ∧ (base.drop offset).take length = val
  | .numeric val =>
      kind = agtentryIsNumeric ∧
        (base.drop (intAlign offset)).take val.image.length = val.image
  | .bool val => kind = if val then agtentryIsBoolTrue else agtentryIsBoolFalse
  | .integer val =>
      kind = agtentryIsAgtype ∧ readLE 4 base (intAlign offset) = agtHeaderInteger ∧
        readLE 8 base (intAlign offset + 4) = val.toUInt64.toNat
  | .float val =>
      kind = agtentryIsAgtype ∧ readLE 4 base (intAlign offset) = agtHeaderFloat ∧
        readLE 8 base (intAlign offset + 4) = val.bits.toNat
  | .vertex pairs =>
      kind = agtentryIsAgtype ∧ readLE 4 base (intAlign offset) = agtHeaderVertex ∧
        HeaderIs (base.drop (intAlign offset + 4)) 2 pairs.length ∧
        ∃ stop, ObjectKeysAt (base.drop (intAlign offset + 4)) pairs stop ∧
          ValuesAt (base.drop (intAlign offset + 4))
            (dataProper (base.drop (intAlign offset + 4)) (2 * pairs.length))
            pairs.length stop pairs
  | .edge pairs =>
      kind = agtentryIsAgtype ∧ readLE 4 base (intAlign offset) = agtHeaderEdge ∧
        HeaderIs (base.drop (intAlign offset + 4)) 2 pairs.length ∧
        ∃ stop, ObjectKeysAt (base.drop (intAlign offset + 4)) pairs stop ∧
          ValuesAt (base.drop (intAlign offset + 4))
            (dataProper (base.drop (intAlign offset + 4)) (2 * pairs.length))
            pairs.length stop pairs
  | .path elems =>
      kind = agtentryIsAgtype ∧ readLE 4 base (intAlign offset) = agtHeaderPath ∧
        HeaderIs (base.drop (intAlign offset + 4)) 4 elems.length ∧
        ElemsAt (base.drop (intAlign offset + 4))
          (dataProper (base.drop (intAlign offset + 4)) elems.length) 0 0 elems
  | .array rawScalar elems =>
      kind = agtentryIsContainer ∧
        HeaderIs (base.drop (intAlign offset)) (if rawScalar then 5 else 4) elems.length ∧
        ElemsAt (base.drop (intAlign offset))
          (dataProper (base.drop (intAlign offset)) elems.length) 0 0 elems
  | .object pairs =>
      kind = agtentryIsContainer ∧
        HeaderIs (base.drop (intAlign offset)) 2 pairs.length ∧
        ∃ stop, ObjectKeysAt (base.drop (intAlign offset)) pairs stop ∧
          ValuesAt (base.drop (intAlign offset))
            (dataProper (base.drop (intAlign offset)) (2 * pairs.length))
            pairs.length stop pairs

/-- Nodes laid out one after the other, from the entry `index` on. -/
def ElemsAt (container base : Bytes) (index offset : Nat) : List AgtypeValue → Prop
  | [] => True
  | elem :: rest =>
      ∃ length, EntryIs (containerChild container index) offset length ∧
        NodeAt (agteType (containerChild container index)) base offset length elem ∧
        ElemsAt container base (index + 1) (offset + length) rest

/-- The values of pairs laid out one after the other. -/
def ValuesAt (container base : Bytes) (index offset : Nat) :
    List (Bytes × AgtypeValue) → Prop
  | [] => True
  | (_, value) :: rest =>
      ∃ length, EntryIs (containerChild container index) offset length ∧
        NodeAt (agteType (containerChild container index)) base offset length value ∧
        ValuesAt container base (index + 1) (offset + length) rest

end

/-- The memory at `container` is an array with these elements. -/
def ArrayAt (container : Bytes) (rawScalar : Bool) (elems : List AgtypeValue) : Prop :=
  HeaderIs container (if rawScalar then 5 else 4) elems.length ∧
    ElemsAt container (dataProper container elems.length) 0 0 elems

/-- The memory at `container` is an object with these pairs. -/
def ObjectAt (container : Bytes) (pairs : List AgtypePair) : Prop :=
  HeaderIs container 2 pairs.length ∧
    ∃ stop, ObjectKeysAt container pairs stop ∧
      ValuesAt container (dataProper container (2 * pairs.length)) pairs.length stop pairs

/-- The memory at `container` holds the tree of a container. -/
def ContainerAt (container : Bytes) : AgtypeValue → Prop
  | .array rawScalar elems => ArrayAt container rawScalar elems
  | .object pairs => ObjectAt container pairs
  | _ => False

theorem nodeAt_container {kind offset length : Nat} {base : Bytes} {v : AgtypeValue}
    (container : v.isScalar = false) :
    NodeAt kind base offset length v ↔
      kind = agtentryIsContainer ∧ ContainerAt (base.drop (intAlign offset)) v := by
  cases v <;> cases container <;> rfl

end Contents

end Age.Agtype
