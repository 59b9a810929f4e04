import Age.Agtype.Binary.RoundTrip

/-!
# The raw builder

`agtype_raw.c` builds a container without an `agtype_value`: the number of slots
is announced first, and each write appends its data and stores the next entry.
A scalar payload is copied as it stands in another agtype, and only extended
types are aligned on the way.
-/

namespace Age.Agtype

open Lib

/-- An agtype in memory, with the four bytes that follow it there. -/
structure AgtypeDatum where
  image : Bytes
  hasHeader : 4 ≤ image.length
  varsize : varsize4b image = image.length
  beyond : Bytes
  hasBeyond : beyond.length = 4

namespace AgtypeDatum

/-- `&agtype->root` -/
def root (datum : AgtypeDatum) : Bytes := datum.image.drop 4

/-- `VARSIZE` many bytes from `&agtype->root` on, which is four too many. -/
def copied (datum : AgtypeDatum) : Bytes :=
  (datum.root ++ datum.beyond).take (varsize4b datum.image)

theorem copied_eq (datum : AgtypeDatum) : datum.copied = datum.root ++ datum.beyond := by
  have length := datum.hasHeader
  rw [copied, datum.varsize, List.take_of_length_le]
  simp only [root, List.length_append, List.length_drop, datum.hasBeyond]
  omega

end AgtypeDatum

inductive BuildError where
  | invalidContainerType
  /-- `total size of agtype array elements exceeds the maximum of %u bytes` -/
  | tooLarge
  | expectedScalarPayload
  deriving DecidableEq, Repr

structure AgtypeBuildState where
  aOffset : Nat
  i : Nat
  dStart : Nat
  buffer : Bytes

/-- `init_agtype_build_state` -/
def initAgtypeBuildState (size headerFlag : Nat) : Except BuildError AgtypeBuildState :=
  let start := reserveFromBuffer [] 4 ++ encodeLE 4 (headerFlag ||| size)
  let build (agtentryCount : Nat) : AgtypeBuildState :=
    { aOffset := 8
      i := 0
      dStart := 8 + 4 * agtentryCount
      buffer := reserveFromBuffer start (4 * agtentryCount) }
  if headerFlag &&& agtFobject ≠ 0 then .ok (build (size * 2))
  else if headerFlag &&& agtFarray ≠ 0 then .ok (build size)
  else .error .invalidContainerType

/-- `write_agtentry`, followed by the increment of `i` in its callers. -/
def writeAgtentry (bstate : AgtypeBuildState) (buffer : Bytes) (agte : Nat) :
    Except BuildError AgtypeBuildState :=
  let totallen := buffer.length - bstate.dStart
  if agtentryOfflenmask < totallen then .error .tooLarge
  else
    let agte :=
      if bstate.i % agtOffsetStride = 0 then
        agte &&& agtentryTypemask ||| totallen ||| agtentryHasOff
      else agte
    .ok {
      aOffset := bstate.aOffset + 4
      i := bstate.i + 1
      dStart := bstate.dStart
      buffer := copyToBuffer buffer bstate.aOffset (encodeLE 4 agte) }

def writeString (bstate : AgtypeBuildState) (str : Bytes) :
    Except BuildError AgtypeBuildState :=
  writeAgtentry bstate (bstate.buffer ++ str) (agtentryIsString ||| str.length)

def writeGraphid (bstate : AgtypeBuildState) (graphid : Int64) :
    Except BuildError AgtypeBuildState :=
  let length := padlen bstate.buffer + 4 + 8
  writeAgtentry bstate
    (padBufferToInt bstate.buffer ++ encodeLE 4 agtHeaderInteger ++
      encodeLE 8 graphid.toUInt64.toNat)
    (agtentryIsAgtype ||| length)

def writeContainer (bstate : AgtypeBuildState) (agtype : AgtypeDatum) :
    Except BuildError AgtypeBuildState :=
  let length := padlen bstate.buffer + agtype.copied.length
  writeAgtentry bstate (padBufferToInt bstate.buffer ++ agtype.copied)
    (agtentryIsContainer ||| length)

def writeExtended (bstate : AgtypeBuildState) (val : AgtypeDatum) (header : Nat) :
    Except BuildError AgtypeBuildState :=
  let length := padlen bstate.buffer + 4 + val.copied.length
  writeAgtentry bstate (padBufferToInt bstate.buffer ++ encodeLE 4 header ++ val.copied)
    (agtentryIsAgtype ||| length)

/-- The bytes of the only child of a scalar agtype. -/
def scalarPayload (val : AgtypeDatum) : Bytes :=
  ((dataProper val.root 1).drop (getAgtypeOffset val.root 0)).take
    (getAgtypeLength val.root 0)

/-- The type bits of the only child of a scalar agtype. -/
def payloadKind (val : AgtypeDatum) : Nat := agteType (containerChild val.root 0)

def writeAgtypeScalarPayload (bstate : AgtypeBuildState) (val : AgtypeDatum) :
    Except BuildError AgtypeBuildState :=
  if !agtypeContainerIsScalar val.root || agtypeContainerSize val.root ≠ 1 then
    .error .expectedScalarPayload
  else if payloadKind val = agtentryIsAgtype then
    let length := padlen bstate.buffer + (scalarPayload val).length
    writeAgtentry bstate (padBufferToInt bstate.buffer ++ scalarPayload val)
      (payloadKind val ||| length)
  else
    writeAgtentry bstate (bstate.buffer ++ scalarPayload val)
      (payloadKind val ||| (scalarPayload val).length)

/-- `build_agtype` -/
def buildAgtype (bstate : AgtypeBuildState) : Bytes := setVarsize bstate.buffer

/-- A call of one of the writers. -/
inductive Write where
  | string (str : Bytes)
  | graphid (id : Int64)
  | container (agtype : AgtypeDatum)
  | extended (val : AgtypeDatum) (header : Nat)
  | scalarPayload (val : AgtypeDatum)

def Write.run (bstate : AgtypeBuildState) : Write → Except BuildError AgtypeBuildState
  | .string str => writeString bstate str
  | .graphid id => writeGraphid bstate id
  | .container agtype => writeContainer bstate agtype
  | .extended val header => writeExtended bstate val header
  | .scalarPayload val => writeAgtypeScalarPayload bstate val

/-- A whole build: announce the slots, write, and finish. -/
def buildFrom (size headerFlag : Nat) (writes : List Write) : Except BuildError Bytes := do
  let bstate ← initAgtypeBuildState size headerFlag
  return buildAgtype (← writes.foldlM Write.run bstate)

section Inputs

/-- Whatever follows it in memory, the root of the datum is this container. -/
def AgtypeDatum.Holds (datum : AgtypeDatum) (v : AgtypeValue) : Prop :=
  ∀ rest, ContainerAt (datum.root ++ rest) v

/-- The datum is a raw scalar and its data are the data of its only child. -/
def AgtypeDatum.HoldsScalar (datum : AgtypeDatum) (v : AgtypeValue) : Prop :=
  ∃ entry payload, datum.root = containerBytes (arrayHeader true 1) [entry] payload ∧
    SlotTable 0 [v] [entry] payload

/-- The value that a call writes. -/
inductive Writes : Write → AgtypeValue → Prop where
  | string (str : Bytes) : Writes (.string str) (.string str)
  | graphid (id : Int64) : Writes (.graphid id) (.integer id)
  | container {agtype : AgtypeDatum} {v : AgtypeValue} : Built v → agtype.Holds v.root →
      Writes (.container agtype) v.root
  | vertex {val : AgtypeDatum} {pairs : List AgtypePair} : Built (.vertex pairs) →
      val.Holds (.object pairs) → Writes (.extended val agtHeaderVertex) (.vertex pairs)
  | edge {val : AgtypeDatum} {pairs : List AgtypePair} : Built (.edge pairs) →
      val.Holds (.object pairs) → Writes (.extended val agtHeaderEdge) (.edge pairs)
  | path {val : AgtypeDatum} {elems : List AgtypeValue} : Built (.path elems) →
      val.Holds (.array false elems) → Writes (.extended val agtHeaderPath) (.path elems)
  | scalarPayload {val : AgtypeDatum} {v : AgtypeValue} : Built v → v.isScalar = true →
      val.HoldsScalar v → Writes (.scalarPayload val) v

/-- The values that fill the slots announced by a size and a flag, and the
container they make up. -/
inductive Fills : (size headerFlag : Nat) → List AgtypeValue → AgtypeValue → Prop where
  | array (vs : List AgtypeValue) : Fills vs.length agtFarray vs (.array false vs)
  | rawScalar (vs : List AgtypeValue) :
      Fills vs.length (agtFarray ||| agtFscalar) vs (.array true vs)
  | object (pairs : List AgtypePair) :
      Fills pairs.length agtFobject ((pairs.map Prod.fst).map .string ++ pairs.map Prod.snd)
        (.object pairs)

/-- The zero bytes that align data at an offset. -/
def padding (offset : Nat) : Bytes := List.replicate (intAlign offset - offset) 0

/-- What a call appends, given where the data before it end. -/
def Write.bytes (offset : Nat) : Write → Bytes
  | .string str => str
  | .graphid id =>
      padding offset ++ encodeLE 4 agtHeaderInteger ++ encodeLE 8 id.toUInt64.toNat
  | .container agtype => padding offset ++ agtype.copied
  | .extended val header => padding offset ++ encodeLE 4 header ++ val.copied
  | .scalarPayload val =>
      if payloadKind val = agtentryIsAgtype then padding offset ++ Agtype.scalarPayload val
      else Agtype.scalarPayload val

/-- What a run of calls appends. -/
def writtenBytes : (offset : Nat) → List Write → Bytes
  | _, [] => []
  | offset, write :: rest =>
      write.bytes offset ++ writtenBytes (offset + (write.bytes offset).length) rest

/-- The numeric at the start of a payload. -/
def numericImage (payload : Bytes) : Bytes := payload.take (varsize4b payload)

/-- A payload of at least 64 bytes whose numeric starts again after a few bytes. -/
def Repeats (shift : Nat) (payload after : Bytes) : Prop :=
  64 ≤ (numericImage payload).length ∧ numericImage payload <+: (payload ++ after).drop shift

/-- A numeric that is copied between boundaries is found again at the next one. -/
def NumericLands (offset : Nat) (after : Bytes) : Write → Prop
  | .scalarPayload val => payloadKind val = agtentryIsNumeric →
      offset % 4 = 0 ∨ Repeats (intAlign offset - offset) (Agtype.scalarPayload val) after
  | _ => True

/-- Every numeric is copied to a four-byte boundary, or repeats itself there. -/
def NumericsLand : (offset : Nat) → List Write → Prop
  | _, [] => True
  | offset, write :: rest =>
      NumericLands offset (writtenBytes (offset + (write.bytes offset).length) rest) write ∧
        NumericsLand (offset + (write.bytes offset).length) rest

end Inputs

section Steps

/-- The type bits of the entry that a call stores. -/
def Write.kind : Write → Nat
  | .string _ => agtentryIsString
  | .graphid _ => agtentryIsAgtype
  | .container _ => agtentryIsContainer
  | .extended _ _ => agtentryIsAgtype
  | .scalarPayload val => payloadKind val

/-- A state with `room` entries reserved between `front` and `data`. -/
structure BuildAt (bstate : AgtypeBuildState) (front : Bytes) (room : Nat) (data : Bytes) :
    Prop where
  buffer : bstate.buffer = front ++ List.replicate (4 * room) 0 ++ data
  place : bstate.aOffset = front.length
  start : bstate.dStart = front.length + 4 * room
  aligned : front.length % 4 = 0

theorem BuildAt.padlen {bstate : AgtypeBuildState} {front data : Bytes} {room : Nat}
    (shape : BuildAt bstate front room data) :
    padlen bstate.buffer = intAlign data.length - data.length := by
  have aligned := shape.aligned
  refine intAlign_sub_congr ?_
  rw [shape.buffer]
  simp only [List.length_append, List.length_replicate]
  omega

theorem BuildAt.padBufferToInt {bstate : AgtypeBuildState} {front data : Bytes} {room : Nat}
    (shape : BuildAt bstate front room data) :
    padBufferToInt bstate.buffer = bstate.buffer ++ padding data.length := by
  rw [Agtype.padBufferToInt, reserveFromBuffer, shape.padlen, padding]

/-- Storing the entry of what was appended. -/
theorem writeAgtentry_ok {bstate next : AgtypeBuildState} {front data out : Bytes}
    {room entry : Nat} (shape : BuildAt bstate front (room + 1) data)
    (stored : writeAgtentry bstate (bstate.buffer ++ out) entry = .ok next) :
    data.length + out.length < 2 ^ 28 ∧
    ∃ word, BuildAt next (front ++ encodeLE 4 word) room (data ++ out) ∧
      (entry < 2 ^ 32 → agteHasOff entry = false → agteOfflenfld entry = out.length →
        word < 2 ^ 32 ∧ agteType word = agteType entry ∧
          EntryIs word data.length out.length) := by
  have totallen : (bstate.buffer ++ out).length - bstate.dStart =
      data.length + out.length := by
    rw [shape.buffer, shape.start]
    simp only [List.length_append, List.length_replicate]
    omega
  unfold writeAgtentry at stored
  simp only [totallen] at stored
  by_cases tooLong : agtentryOfflenmask < data.length + out.length
  · rw [if_pos tooLong] at stored
    cases stored
  rw [if_neg tooLong] at stored
  injection stored with equal
  have fits : data.length + out.length < 2 ^ 28 := by
    rw [agtentryOfflenmask] at tooLong
    omega
  have shapeNext (word : Nat) : BuildAt
      { aOffset := bstate.aOffset + 4, i := bstate.i + 1, dStart := bstate.dStart
        buffer := copyToBuffer (bstate.buffer ++ out) bstate.aOffset (encodeLE 4 word) }
      (front ++ encodeLE 4 word) room (data ++ out) := by
    refine ⟨?_, ?_, ?_, ?_⟩
    · rw [shape.buffer, shape.place, List.append_assoc _ data out, copyToBuffer_room]
    · simp [shape.place]
    · simp only [shape.start, List.length_append, length_encodeLE]
      omega
    · simpa using shape.aligned
  subst equal
  refine ⟨fits, _, shapeNext _, fun small noOff length => ?_⟩
  split_ifs with stride
  · have kind : agteType entry = entry / 2 ^ 28 % 8 * 2 ^ 28 := agteType_eq entry
    have parts := offset_entry_parts (k := entry / 2 ^ 28 % 8) (by omega) fits
    change agteType entry ||| _ ||| _ < _ ∧ _ = _ ∧ EntryIs (agteType entry ||| _ ||| _) _ _
    rw [← kind] at parts
    refine ⟨parts.2.2.2, parts.2.2.1, ?_⟩
    rw [EntryIs, if_pos parts.2.1]
    exact parts.1
  · refine ⟨small, rfl, ?_⟩
    rw [EntryIs, noOff, if_neg (by decide)]
    exact length

end Steps

end Age.Agtype
