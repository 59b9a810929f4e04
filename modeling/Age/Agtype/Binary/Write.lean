import Age.Agtype.Binary.Table

/-!
# Serializing values

`convert_agtype_value` appends the data of a node to a buffer and returns the
entry for it; containers reserve room for the entries of their children and
fill it in as they go.  Root scalars have encoders of their own.
-/

namespace Age.Agtype

open Lib

inductive ConvertError where
  /-- `total size of agtype array elements exceeds the maximum of %u bytes` -/
  | arrayTooLarge
  /-- `total size of agtype object elements exceeds the maximum of %u bytes` -/
  | objectTooLarge
  /-- `numeric length exceeds the maximum of %u bytes` -/
  | numericTooLong
  /-- `string length exceeds the maximum of %u bytes` -/
  | stringTooLong
  deriving DecidableEq, Repr

def agtOffsetStride : Nat := 32

/-- `reserve_from_buffer`: the reserved bytes are written later. -/
def reserveFromBuffer (buffer : Bytes) (len : Nat) : Bytes :=
  buffer ++ List.replicate len 0

/-- `copy_to_buffer` -/
def copyToBuffer (buffer : Bytes) (offset : Nat) (data : Bytes) : Bytes :=
  buffer.take offset ++ data ++ buffer.drop (offset + data.length)

/-- The number of bytes `pad_buffer_to_int` appends. -/
def padlen (buffer : Bytes) : Nat := intAlign buffer.length - buffer.length

def padBufferToInt (buffer : Bytes) : Bytes := reserveFromBuffer buffer (padlen buffer)

/-- `ag_serialize_header` -/
def agSerializeHeader (buffer : Bytes) (type : Nat) : Bytes :=
  padBufferToInt buffer ++ encodeLE 4 type

/-- The entry loops: the buffer, where the next entry goes, how many entries
have been stored, and the length of the data so far. -/
structure EntryLoop where
  buffer : Bytes
  agtentryOffset : Nat
  i : Nat
  totallen : Nat

/-- The buffer of a container with its header and room for its entries. -/
def beginContainer (buffer : Bytes) (header count : Nat) : EntryLoop :=
  let headed := padBufferToInt buffer ++ encodeLE 4 header
  { buffer := reserveFromBuffer headed (4 * count)
    agtentryOffset := headed.length
    i := 0
    totallen := 0 }

/-- End of an iteration: check the length, turn every `AGT_OFFSET_STRIDE`'th
length into an offset, and store the entry. -/
def storeAgtentry (error : ConvertError) (loop : EntryLoop) (buffer : Bytes) (entry : Nat) :
    Except ConvertError EntryLoop :=
  let totallen := loop.totallen + agteOfflenfld entry
  if agtentryOfflenmask < totallen then .error error
  else
    let entry :=
      if loop.i % agtOffsetStride = 0 then
        entry &&& agtentryTypemask ||| totallen ||| agtentryHasOff
      else entry
    .ok {
      buffer := copyToBuffer buffer loop.agtentryOffset (encodeLE 4 entry)
      agtentryOffset := loop.agtentryOffset + 4
      i := loop.i + 1
      totallen }

/-- The entry of a container, after the second check of its length. -/
def endContainer (error : ConvertError) (baseOffset : Nat) (loop : EntryLoop) :
    Except ConvertError (Bytes × Nat) :=
  let totallen := loop.buffer.length - baseOffset
  if agtentryOfflenmask < totallen then .error error
  else .ok (loop.buffer, agtentryIsContainer ||| totallen)

/-- The loop over the keys of an object. -/
def convertKeys (loop : EntryLoop) : List Bytes → Except ConvertError EntryLoop
  | [] => .ok loop
  | key :: rest => do
      let next ← storeAgtentry .objectTooLarge loop (loop.buffer ++ key)
        (agtentryIsString ||| key.length)
      convertKeys next rest

/-- Padding after an entity, and the entry of the entity. -/
def endEntity (padlenBefore : Nat) (object : Bytes × Nat) : Bytes × Nat :=
  let (buffer, objectAe) := object
  (padBufferToInt buffer,
    agtentryIsAgtype |||
      (padlenBefore + (agtentryOfflenmask &&& (objectAe + padlen buffer)) + 4))

mutual

/-- `convert_agtype_value` with `convert_agtype_scalar` and
`ag_serialize_extended_type`. -/
def convertAgtypeValue (buffer : Bytes) : AgtypeValue → Except ConvertError (Bytes × Nat)
  | .null => .ok (buffer, agtentryIsNull)
  | .string val => .ok (buffer ++ val, agtentryIsString ||| val.length)
  | .numeric val =>
      .ok (padBufferToInt buffer ++ val.image,
        agtentryIsNumeric ||| (padlen buffer + val.image.length))
  | .bool val => .ok (buffer, if val then agtentryIsBoolTrue else agtentryIsBoolFalse)
  | .integer val =>
      .ok (agSerializeHeader buffer agtHeaderInteger ++ encodeLE 8 val.toUInt64.toNat,
        agtentryIsAgtype ||| (padlen buffer + 8 + 4))
  | .float val =>
      .ok (agSerializeHeader buffer agtHeaderFloat ++ encodeLE 8 val.bits.toNat,
        agtentryIsAgtype ||| (padlen buffer + 8 + 4))
  | .vertex pairs => do
      let start := agSerializeHeader buffer agtHeaderVertex
      let keys ← convertKeys
        (beginContainer start (objectHeader pairs.length) (2 * pairs.length))
        (pairs.map Prod.fst)
      let loop ← convertValues keys pairs
      return endEntity (padlen buffer) (← endContainer .objectTooLarge start.length loop)
  | .edge pairs => do
      let start := agSerializeHeader buffer agtHeaderEdge
      let keys ← convertKeys
        (beginContainer start (objectHeader pairs.length) (2 * pairs.length))
        (pairs.map Prod.fst)
      let loop ← convertValues keys pairs
      return endEntity (padlen buffer) (← endContainer .objectTooLarge start.length loop)
  | .path elems => do
      let start := agSerializeHeader buffer agtHeaderPath
      let loop ← convertElems
        (beginContainer start (arrayHeader false elems.length) elems.length) elems
      return endEntity (padlen buffer) (← endContainer .arrayTooLarge start.length loop)
  | .array rawScalar elems => do
      let loop ← convertElems
        (beginContainer buffer (arrayHeader rawScalar elems.length) elems.length) elems
      endContainer .arrayTooLarge buffer.length loop
  | .object pairs => do
      let keys ← convertKeys
        (beginContainer buffer (objectHeader pairs.length) (2 * pairs.length))
        (pairs.map Prod.fst)
      let loop ← convertValues keys pairs
      endContainer .objectTooLarge buffer.length loop

/-- The loop over the elements of an array. -/
def convertElems (loop : EntryLoop) : List AgtypeValue → Except ConvertError EntryLoop
  | [] => .ok loop
  | elem :: rest => do
      let (buffer, entry) ← convertAgtypeValue loop.buffer elem
      let next ← storeAgtentry .arrayTooLarge loop buffer entry
      convertElems next rest

/-- The loop over the values of an object. -/
def convertValues (loop : EntryLoop) :
    List (Bytes × AgtypeValue) → Except ConvertError EntryLoop
  | [] => .ok loop
  | (_, value) :: rest => do
      let (buffer, entry) ← convertAgtypeValue loop.buffer value
      let next ← storeAgtentry .objectTooLarge loop buffer entry
      convertValues next rest

end

/-- `SET_VARSIZE` on a buffer whose first four bytes were reserved for it. -/
def setVarsize (buffer : Bytes) : Bytes :=
  copyToBuffer buffer 0 (encodeLE 4 (buffer.length * 4))

def convertToAgtype (val : AgtypeValue) : Except ConvertError Bytes := do
  let (buffer, _) ← convertAgtypeValue (reserveFromBuffer [] 4) val
  return setVarsize buffer

/-- A root scalar: varlena header, container header, one entry, and its data. -/
def scalarAgtype (entry : Nat) (data : Bytes) : Bytes :=
  setVarsize (reserveFromBuffer [] 4 ++
    containerBytes (agtFarray ||| agtFscalar ||| 1) [entry] data)

def agtypeIntegerToAgtype (intValue : Int64) : Bytes :=
  scalarAgtype (agtentryIsAgtype ||| agtentryHasOff ||| (4 + 8))
    (encodeLE 4 agtHeaderInteger ++ encodeLE 8 intValue.toUInt64.toNat)

def agtypeFloatToAgtype (floatValue : Float8) : Bytes :=
  scalarAgtype (agtentryIsAgtype ||| agtentryHasOff ||| (4 + 8))
    (encodeLE 4 agtHeaderFloat ++ encodeLE 8 floatValue.bits.toNat)

def agtypeBoolToAgtype (boolean : Bool) : Bytes :=
  scalarAgtype (if boolean then agtentryIsBoolTrue else agtentryIsBoolFalse) []

def agtypeNumericToAgtype (numeric : Numeric) : Except ConvertError Bytes :=
  if agtentryOfflenmask < numeric.image.length then .error .numericTooLong
  else
    .ok (scalarAgtype (agtentryIsNumeric ||| agtentryHasOff ||| numeric.image.length)
      numeric.image)

def agtypeStringToAgtype (string : Bytes) : Except ConvertError Bytes :=
  if agtentryOfflenmask < string.length then .error .stringTooLong
  else .ok (scalarAgtype (agtentryIsString ||| agtentryHasOff ||| string.length) string)

/-- `agtype_value_to_agtype`: scalars other than the ones with an encoder become
the element of a raw scalar array. -/
def agtypeValueToAgtype : AgtypeValue → Except ConvertError Bytes
  | .integer val => .ok (agtypeIntegerToAgtype val)
  | .float val => .ok (agtypeFloatToAgtype val)
  | .numeric val => agtypeNumericToAgtype val
  | .bool val => .ok (agtypeBoolToAgtype val)
  | .string val => agtypeStringToAgtype val
  | .null => convertToAgtype (.array true [.null])
  | .vertex pairs => convertToAgtype (.array true [.vertex pairs])
  | .edge pairs => convertToAgtype (.array true [.edge pairs])
  | .path elems => convertToAgtype (.array true [.path elems])
  | .array rawScalar elems => convertToAgtype (.array rawScalar elems)
  | .object pairs => convertToAgtype (.object pairs)

end Age.Agtype
