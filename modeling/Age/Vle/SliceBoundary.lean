import Mathlib.Algebra.Order.Ring.Int
import Age.Vle.Root

/-!
# Boundaries of fused list slices

The first or the last entity of a slice of the edges or nodes of a path is selected without building
the list.  A mode says which list is sliced and what is returned of the entity.
-/

namespace Age.Vle

section Modes

/-- `VLESliceBoundaryMode` -/
structure VLESliceBoundaryMode where
  reverseList : Bool
  tailReverseList : Bool
  doubleTailList : Bool
  sliceTailList : Bool
  sliceReverseList : Bool
  returnId : Bool
  returnLabel : Bool
  returnLabels : Bool
  returnProperties : Bool
  returnEndpoint : Bool
  returnEndpointId : Bool
  returnEndpointLabel : Bool
  returnEndpointLabels : Bool
  returnEndpointProperties : Bool
  startEndpoint : Bool
  deriving DecidableEq

def VLESliceBoundaryMode.zero : VLESliceBoundaryMode :=
  ⟨false, false, false, false, false, false, false, false, false, false, false, false, false, false,
    false⟩

/-- What is done with the list or with its slice -/
inductive SliceWrapper where
  | plain
  | reverse
  | tailReverse
  | doubleTail
  | sliceTail
  | sliceReverse
  deriving DecidableEq

/-- `VLE_SLICE_BOUNDARY_REVERSE_OFFSET` and so on -/
def SliceWrapper.offset : SliceWrapper → Int
  | .plain => 0
  | .reverse => 120
  | .tailReverse => 240
  | .doubleTail => 360
  | .sliceTail => 720
  | .sliceReverse => 840

/-- What is returned of the entity -/
inductive ReturnField where
  | entity
  | id
  | label
  | labels
  | properties
  | startNode
  | endNode
  | startId
  | endId
  | startLabel
  | endLabel
  | startLabels
  | endLabels
  | startProperties
  | endProperties
  deriving DecidableEq

/-- `VLE_SLICE_BOUNDARY_ID_OFFSET` and so on -/
def ReturnField.offset : ReturnField → Int
  | .entity => 0
  | .id => 8
  | .label => 16
  | .labels => 24
  | .properties => 32
  | .startNode => 40
  | .endNode => 48
  | .startId => 56
  | .endId => 64
  | .startLabel => 72
  | .endLabel => 80
  | .startLabels => 88
  | .endLabels => 96
  | .startProperties => 104
  | .endProperties => 112

/-- The ladder of wrappers in `decode_vle_slice_boundary_mode` -/
def decodeWrapper (mode : Int) : Int × VLESliceBoundaryMode :=
  if SliceWrapper.sliceReverse.offset ≤ mode then
    (mode - SliceWrapper.sliceReverse.offset, { VLESliceBoundaryMode.zero with sliceReverseList := true })
  else if SliceWrapper.sliceTail.offset ≤ mode then
    (mode - SliceWrapper.sliceTail.offset, { VLESliceBoundaryMode.zero with sliceTailList := true })
  else if SliceWrapper.doubleTail.offset ≤ mode then
    (mode - SliceWrapper.doubleTail.offset, { VLESliceBoundaryMode.zero with doubleTailList := true })
  else if SliceWrapper.tailReverse.offset ≤ mode then
    (mode - SliceWrapper.tailReverse.offset, { VLESliceBoundaryMode.zero with tailReverseList := true })
  else if SliceWrapper.reverse.offset ≤ mode then
    (mode - SliceWrapper.reverse.offset, { VLESliceBoundaryMode.zero with reverseList := true })
  else (mode, .zero)

/-- The mode is in the range of a return field, which ends where the next one starts. -/
def inField (field next : Int) (mode : Int) : Bool := field ≤ mode && mode < next

/-- The ladder of return fields in `decode_vle_slice_boundary_mode` -/
def decodeReturn (mode : Int) (decoded : VLESliceBoundaryMode) : Int × VLESliceBoundaryMode :=
  if inField ReturnField.id.offset ReturnField.label.offset mode then
    (mode - ReturnField.id.offset, { decoded with returnId := true })
  else if inField ReturnField.label.offset ReturnField.labels.offset mode then
    (mode - ReturnField.label.offset, { decoded with returnLabel := true })
  else if inField ReturnField.labels.offset ReturnField.properties.offset mode then
    (mode - ReturnField.labels.offset, { decoded with returnLabels := true })
  else if inField ReturnField.properties.offset ReturnField.startNode.offset mode then
    (mode - ReturnField.properties.offset, { decoded with returnProperties := true })
  else if inField ReturnField.startNode.offset ReturnField.endNode.offset mode then
    (mode - ReturnField.startNode.offset,
      { decoded with returnEndpoint := true, startEndpoint := true })
  else if inField ReturnField.endNode.offset ReturnField.startId.offset mode then
    (mode - ReturnField.endNode.offset,
      { decoded with returnEndpoint := true, startEndpoint := false })
  else if inField ReturnField.startId.offset ReturnField.endId.offset mode then
    (mode - ReturnField.startId.offset,
      { decoded with returnEndpointId := true, startEndpoint := true })
  else if inField ReturnField.endId.offset ReturnField.startLabel.offset mode then
    (mode - ReturnField.endId.offset,
      { decoded with returnEndpointId := true, startEndpoint := false })
  else if inField ReturnField.startLabel.offset ReturnField.endLabel.offset mode then
    (mode - ReturnField.startLabel.offset,
      { decoded with returnEndpointLabel := true, startEndpoint := true })
  else if inField ReturnField.endLabel.offset ReturnField.startLabels.offset mode then
    (mode - ReturnField.endLabel.offset,
      { decoded with returnEndpointLabel := true, startEndpoint := false })
  else if inField ReturnField.startLabels.offset ReturnField.endLabels.offset mode then
    (mode - ReturnField.startLabels.offset,
      { decoded with returnEndpointLabels := true, startEndpoint := true })
  else if inField ReturnField.endLabels.offset ReturnField.startProperties.offset mode then
    (mode - ReturnField.endLabels.offset,
      { decoded with returnEndpointLabels := true, startEndpoint := false })
  else if inField ReturnField.startProperties.offset ReturnField.endProperties.offset mode then
    (mode - ReturnField.startProperties.offset,
      { decoded with returnEndpointProperties := true, startEndpoint := true })
  else if inField ReturnField.endProperties.offset SliceWrapper.reverse.offset mode then
    (mode - ReturnField.endProperties.offset,
      { decoded with returnEndpointProperties := true, startEndpoint := false })
  else (mode, decoded)

/-- `decode_vle_slice_boundary_mode` -/
def decodeVleSliceBoundaryMode (mode : Int) : Int × VLESliceBoundaryMode :=
  let wrapper := decodeWrapper mode
  decodeReturn wrapper.1 wrapper.2

end Modes

section Rewrite

/-- `get_slice_boundary_wrapper_offset`: the offset, and the mode without it -/
def getSliceBoundaryWrapperOffset (mode : Int) : Int × Int :=
  if SliceWrapper.sliceReverse.offset ≤ mode then
    (SliceWrapper.sliceReverse.offset, mode - SliceWrapper.sliceReverse.offset)
  else if SliceWrapper.sliceTail.offset ≤ mode then
    (SliceWrapper.sliceTail.offset, mode - SliceWrapper.sliceTail.offset)
  else if SliceWrapper.doubleTail.offset ≤ mode then
    (SliceWrapper.doubleTail.offset, mode - SliceWrapper.doubleTail.offset)
  else if SliceWrapper.tailReverse.offset ≤ mode then
    (SliceWrapper.tailReverse.offset, mode - SliceWrapper.tailReverse.offset)
  else if SliceWrapper.reverse.offset ≤ mode then
    (SliceWrapper.reverse.offset, mode - SliceWrapper.reverse.offset)
  else (0, mode)

/-- The ladder of `get_slice_boundary_count_id_mode`: the offset of the id that stands for the field,
and the base mode -/
def countIdOffset (mode : Int) : Option (Int × Int) :=
  if ReturnField.endProperties.offset ≤ mode then
    some (ReturnField.endId.offset, mode - ReturnField.endProperties.offset)
  else if ReturnField.startProperties.offset ≤ mode then
    some (ReturnField.startId.offset, mode - ReturnField.startProperties.offset)
  else if ReturnField.endLabels.offset ≤ mode then
    some (ReturnField.endId.offset, mode - ReturnField.endLabels.offset)
  else if ReturnField.startLabels.offset ≤ mode then
    some (ReturnField.startId.offset, mode - ReturnField.startLabels.offset)
  else if ReturnField.endLabel.offset ≤ mode then
    some (ReturnField.endId.offset, mode - ReturnField.endLabel.offset)
  else if ReturnField.startLabel.offset ≤ mode then
    some (ReturnField.startId.offset, mode - ReturnField.startLabel.offset)
  else if ReturnField.endId.offset ≤ mode then none
  else if ReturnField.startId.offset ≤ mode then none
  else if ReturnField.endNode.offset ≤ mode then
    some (ReturnField.endId.offset, mode - ReturnField.endNode.offset)
  else if ReturnField.startNode.offset ≤ mode then
    some (ReturnField.startId.offset, mode - ReturnField.startNode.offset)
  else if ReturnField.properties.offset ≤ mode then
    some (ReturnField.id.offset, mode - ReturnField.properties.offset)
  else if ReturnField.labels.offset ≤ mode then
    some (ReturnField.id.offset, mode - ReturnField.labels.offset)
  else if ReturnField.label.offset ≤ mode then
    some (ReturnField.id.offset, mode - ReturnField.label.offset)
  else if ReturnField.id.offset ≤ mode then none
  else some (ReturnField.id.offset, mode)

/-- `get_slice_boundary_count_id_mode` -/
def getSliceBoundaryCountIdMode (mode : Int) : Option Int :=
  let (wrapperOffset, mode) := getSliceBoundaryWrapperOffset mode
  if mode < 0 ∨ SliceWrapper.reverse.offset ≤ mode then none
  else
    match countIdOffset mode with
    | none => none
    | some (returnOffset, baseMode) =>
        if baseMode < 0 ∨ 7 < baseMode then none else some (wrapperOffset + returnOffset + baseMode)

end Rewrite

section Boundary

/-- A bound of a slice: SQL NULL where it is omitted, or the null of agtype, or an integer -/
inductive SliceBound where
  | omitted
  | null
  | index (value : Int64)
  deriving DecidableEq

inductive SliceError where
  | boundRequired
  | invalidMode
  | endpointOfNode
  | labelsOfRelationship
  deriving DecidableEq

def SliceError.message : SliceError → String
  | .boundRequired => "slice start and/or end is required"
  | .invalidMode => "age_materialize_vle_slice_boundary: invalid mode"
  | .endpointOfNode =>
      "age_materialize_vle_slice_boundary: endpoint mode is invalid for nodes"
  | .labelsOfRelationship =>
      "age_materialize_vle_slice_boundary: labels mode is invalid for relationships"

inductive PathEntity where
  | node (id : GraphId)
  | edge (id : GraphId)
  deriving DecidableEq

/-- `none` is an agtype null. -/
def SliceBound.value (default : Int) : SliceBound → Option Int
  | .omitted => some default
  | .null => none
  | .index value => some value.toInt

/-- Negative indexes count from the end, and what is out of the list is cut off. -/
def clampIndex (count index : Int) : Int :=
  let index := if index < 0 then count + index else index
  let index := if index < 0 then 0 else index
  if count < index then count else index

/-- The list that is sliced: its length, where it starts in the path, and what is selected -/
structure SliceSource where
  listCount : Int
  baseIndex : Int
  returnNode : Bool
  returnLast : Bool
  deriving DecidableEq

/-- The switch over the base mode -/
def sliceSource (edgeCount mode : Int) (decoded : VLESliceBoundaryMode) : Option SliceSource :=
  if mode = 0 ∨ mode = 1 then some ⟨edgeCount, 0, false, mode = 1⟩
  else if mode = 2 ∨ mode = 3 then some ⟨edgeCount + 1, 0, true, mode = 3⟩
  else if mode = 4 ∨ mode = 5 then
    if decoded.doubleTailList then some ⟨max (edgeCount - 2) 0, 2, false, mode = 5⟩
    else if decoded.tailReverseList then some ⟨max (edgeCount - 1) 0, 0, false, mode = 5⟩
    else some ⟨max (edgeCount - 1) 0, 1, false, mode = 5⟩
  else if mode = 6 ∨ mode = 7 then
    if decoded.doubleTailList then some ⟨max (edgeCount - 1) 0, 2, true, mode = 7⟩
    else if decoded.tailReverseList then some ⟨edgeCount, 0, true, mode = 7⟩
    else some ⟨edgeCount, 1, true, mode = 7⟩
  else none

/-- The place in the list of what is selected; `none` where the slice is too short -/
def boundaryIndex (decoded : VLESliceBoundaryMode) (returnLast : Bool) (lower upper : Int) :
    Option Int :=
  if upper ≤ lower then none
  else if decoded.sliceTailList then
    if upper ≤ lower + 1 then none else some (if returnLast then upper - 1 else lower + 1)
  else if decoded.sliceReverseList then some (if returnLast then lower else upper - 1)
  else some (if returnLast then upper - 1 else lower)

/-- The place in the path -/
def originalIndex (decoded : VLESliceBoundaryMode) (source : SliceSource) (index : Int) : Int :=
  (if decoded.reverseList || decoded.tailReverseList then source.listCount - index - 1 else index) +
    source.baseIndex

/-- What is returned of the entity that is selected -/
def returnedField (decoded : VLESliceBoundaryMode) : PathEntity → Except SliceError ReturnField
  | .node _ =>
      if decoded.returnEndpoint || decoded.returnEndpointId || decoded.returnEndpointLabel ||
          decoded.returnEndpointLabels || decoded.returnEndpointProperties then
        .error .endpointOfNode
      else if decoded.returnId then .ok .id
      else if decoded.returnLabel || decoded.returnLabels || decoded.returnProperties then
        if decoded.returnProperties then .ok .properties
        else if decoded.returnLabel then .ok .label
        else .ok .labels
      else .ok .entity
  | .edge _ =>
      if decoded.returnId then .ok .id
      else if decoded.returnLabel || decoded.returnProperties then
        if decoded.returnProperties then .ok .properties else .ok .label
      else if decoded.returnLabels then .error .labelsOfRelationship
      else if decoded.returnEndpointId then
        .ok (if decoded.startEndpoint then .startId else .endId)
      else if decoded.returnEndpoint then
        .ok (if decoded.startEndpoint then .startNode else .endNode)
      else if decoded.returnEndpointProperties then
        .ok (if decoded.startEndpoint then .startProperties else .endProperties)
      else if decoded.returnEndpointLabel then
        .ok (if decoded.startEndpoint then .startLabel else .endLabel)
      else if decoded.returnEndpointLabels then
        .ok (if decoded.startEndpoint then .startLabels else .endLabels)
      else .ok .entity

/-- The entity at a place of the nodes or the edges -/
def entityAt (graphids : List GraphId) (returnNode : Bool) (index : Int) : PathEntity :=
  if returnNode then .node (graphids.getD (index * 2).toNat 0)
  else .edge (graphids.getD (index * 2 + 1).toNat 0)

/-- `age_materialize_vle_slice_boundary` on a path container: the entity and what is returned of it,
or `none` for NULL -/
def materializeVleSliceBoundary (startId : GraphId) (walk : List WalkStep)
    (lidx uidx : SliceBound) (mode : Int) :
    Except SliceError (Option (PathEntity × ReturnField)) :=
  if lidx = .omitted ∧ uidx = .omitted then .error .boundRequired
  else
    let decoded := decodeVleSliceBoundaryMode mode
    match sliceSource walk.length decoded.1 decoded.2 with
    | none => .error .invalidMode
    | some source =>
        match lidx.value 0, uidx.value source.listCount with
        | some lower, some upper =>
            match boundaryIndex decoded.2 source.returnLast (clampIndex source.listCount lower)
                (clampIndex source.listCount upper) with
            | none => .ok none
            | some index =>
                let entity := entityAt (graphidArray startId walk) source.returnNode
                  (originalIndex decoded.2 source index)
                (returnedField decoded.2 entity).map fun field => some (entity, field)
        | _, _ => .ok none

end Boundary

section Unfused

/-- The entities of a path that are listed, what is listed of them, and which end is selected:
`4` for a tail, `2` for nodes and `1` for the last one -/
structure SliceBase where
  tail : Bool
  nodes : Bool
  last : Bool
  deriving DecidableEq

def SliceBase.offset (base : SliceBase) : Int :=
  (if base.tail then 4 else 0) + (if base.nodes then 2 else 0) + if base.last then 1 else 0

/-- `agtype_access_slice`; `none` is an agtype null. -/
def agtypeAccessSlice {α : Type} (list : List α) (lidx uidx : SliceBound) :
    Except SliceError (Option (List α)) :=
  if lidx = .omitted ∧ uidx = .omitted then .error .boundRequired
  else
    match lidx.value 0, uidx.value list.length with
    | some lower, some upper =>
        let lower := clampIndex list.length lower
        let upper := clampIndex list.length upper
        .ok (some (if upper ≤ lower then [] else (list.take upper.toNat).drop lower.toNat))
    | _, _ => .ok none

/-- The nodes or the edges of a path -/
def pathEntities (startId : GraphId) (walk : List WalkStep) (nodes : Bool) : List PathEntity :=
  if nodes then (startId :: walk.map WalkStep.nextVertexId).map .node
  else (walk.map WalkStep.edgeId).map .edge

/-- The list before it is sliced -/
def SliceWrapper.list (wrapper : SliceWrapper) (base : SliceBase) (entities : List PathEntity) :
    List PathEntity :=
  match wrapper with
  | .tailReverse => entities.reverse.tail
  | .doubleTail => entities.tail.tail
  | .reverse => (if base.tail then entities.tail else entities).reverse
  | .plain | .sliceTail | .sliceReverse => if base.tail then entities.tail else entities

/-- The slice as the last list function leaves it -/
def SliceWrapper.slice {α : Type} (wrapper : SliceWrapper) (slice : List α) : List α :=
  match wrapper with
  | .sliceTail => slice.tail
  | .sliceReverse => slice.reverse
  | .plain | .reverse | .tailReverse | .doubleTail => slice

/-- The end of a list that is selected -/
def selectEnd {α : Type} (last : Bool) (list : List α) : Option α :=
  if last then list.getLast? else list.head?

/-- The entity that the list functions give one after the other -/
def unfusedBoundary (startId : GraphId) (walk : List WalkStep) (wrapper : SliceWrapper)
    (base : SliceBase) (lidx uidx : SliceBound) : Except SliceError (Option PathEntity) :=
  (agtypeAccessSlice (wrapper.list base (pathEntities startId walk base.nodes)) lidx uidx).map
    fun slice => slice.bind fun slice => selectEnd base.last (wrapper.slice slice)

/-- The fields that an entity has -/
def ReturnField.of (field : ReturnField) : PathEntity → Except SliceError ReturnField
  | .node _ =>
      match field with
      | .entity | .id | .label | .labels | .properties => .ok field
      | _ => .error .endpointOfNode
  | .edge _ => if field = .labels then .error .labelsOfRelationship else .ok field

/-- What is returned of the entity that the list functions give -/
def ReturnField.ofFound (field : ReturnField) (found : Option PathEntity) :
    Except SliceError (Option (PathEntity × ReturnField)) :=
  match found with
  | none => .ok none
  | some selected => (field.of selected).map fun field => some (selected, field)

/-- A mode of a wrapper, a return field and a base -/
def sliceBoundaryMode (wrapper : SliceWrapper) (field : ReturnField) (base : SliceBase) : Int :=
  wrapper.offset + field.offset + base.offset

end Unfused

section Decode

variable {wrapper : SliceWrapper} {field : ReturnField} {base : SliceBase}

/-- What the decoded mode says of the list -/
def SliceWrapper.flags : SliceWrapper → VLESliceBoundaryMode
  | .plain => .zero
  | .reverse => { VLESliceBoundaryMode.zero with reverseList := true }
  | .tailReverse => { VLESliceBoundaryMode.zero with tailReverseList := true }
  | .doubleTail => { VLESliceBoundaryMode.zero with doubleTailList := true }
  | .sliceTail => { VLESliceBoundaryMode.zero with sliceTailList := true }
  | .sliceReverse => { VLESliceBoundaryMode.zero with sliceReverseList := true }

/-- What the decoded mode says of the field -/
def ReturnField.flags (field : ReturnField) (decoded : VLESliceBoundaryMode) :
    VLESliceBoundaryMode :=
  match field with
  | .entity => decoded
  | .id => { decoded with returnId := true }
  | .label => { decoded with returnLabel := true }
  | .labels => { decoded with returnLabels := true }
  | .properties => { decoded with returnProperties := true }
  | .startNode => { decoded with returnEndpoint := true, startEndpoint := true }
  | .endNode => { decoded with returnEndpoint := true, startEndpoint := false }
  | .startId => { decoded with returnEndpointId := true, startEndpoint := true }
  | .endId => { decoded with returnEndpointId := true, startEndpoint := false }
  | .startLabel => { decoded with returnEndpointLabel := true, startEndpoint := true }
  | .endLabel => { decoded with returnEndpointLabel := true, startEndpoint := false }
  | .startLabels => { decoded with returnEndpointLabels := true, startEndpoint := true }
  | .endLabels => { decoded with returnEndpointLabels := true, startEndpoint := false }
  | .startProperties => { decoded with returnEndpointProperties := true, startEndpoint := true }
  | .endProperties => { decoded with returnEndpointProperties := true, startEndpoint := false }

theorem SliceBase.offset_range (base : SliceBase) : 0 ≤ base.offset ∧ base.offset < 8 := by
  rw [SliceBase.offset]
  split_ifs <;> omega

theorem ReturnField.offset_range (field : ReturnField) : 0 ≤ field.offset ∧ field.offset ≤ 112 := by
  cases field <;> decide

/-- The wrapper is found, whatever comes below it. -/
theorem decodeWrapper_offset (wrapper : SliceWrapper) {mode : Int} (low : 0 ≤ mode)
    (high : mode < 120) : decodeWrapper (wrapper.offset + mode) = (mode, wrapper.flags) := by
  rw [decodeWrapper]
  cases wrapper <;>
    simp (disch := (simp only [SliceWrapper.offset]; omega)) only [↓if_neg, ↓if_pos,
      SliceWrapper.offset, SliceWrapper.flags, add_sub_cancel_left, zero_add]

theorem decodeReturn_offset (field : ReturnField) {mode : Int} (low : 0 ≤ mode) (high : mode < 8)
    (decoded : VLESliceBoundaryMode) :
    decodeReturn (field.offset + mode) decoded = (mode, field.flags decoded) := by
  rw [decodeReturn]
  simp only [inField, Bool.and_eq_true, decide_eq_true_eq]
  cases field <;>
    simp (disch := (simp only [ReturnField.offset, SliceWrapper.offset]; omega)) only [↓if_neg,
      ↓if_pos, ReturnField.offset, ReturnField.flags, add_sub_cancel_left, zero_add]

theorem decode_sliceBoundaryMode (wrapper : SliceWrapper) (field : ReturnField)
    (base : SliceBase) : decodeVleSliceBoundaryMode (sliceBoundaryMode wrapper field base) =
      (base.offset, field.flags wrapper.flags) := by
  obtain ⟨baseLow, baseHigh⟩ := base.offset_range
  obtain ⟨fieldLow, fieldHigh⟩ := field.offset_range
  rw [decodeVleSliceBoundaryMode, sliceBoundaryMode, add_assoc,
    decodeWrapper_offset wrapper (by omega) (by omega)]
  exact decodeReturn_offset field baseLow baseHigh wrapper.flags

/-- The id that is counted instead of the field -/
def ReturnField.countId : ReturnField → Option ReturnField
  | .id | .startId | .endId => none
  | .entity | .label | .labels | .properties => some .id
  | .startNode | .startLabel | .startLabels | .startProperties => some .startId
  | .endNode | .endLabel | .endLabels | .endProperties => some .endId

theorem getSliceBoundaryWrapperOffset_offset (wrapper : SliceWrapper) {mode : Int}
    (low : 0 ≤ mode) (high : mode < 120) :
    getSliceBoundaryWrapperOffset (wrapper.offset + mode) = (wrapper.offset, mode) := by
  rw [getSliceBoundaryWrapperOffset]
  cases wrapper <;>
    simp (disch := (simp only [SliceWrapper.offset]; omega)) only [↓if_neg, ↓if_pos,
      SliceWrapper.offset, add_sub_cancel_left, zero_add]

theorem countIdOffset_offset (field : ReturnField) {mode : Int} (low : 0 ≤ mode)
    (high : mode < 8) : countIdOffset (field.offset + mode) =
      field.countId.map fun counted => (counted.offset, mode) := by
  rw [countIdOffset]
  cases field <;>
    simp (disch := (simp only [ReturnField.offset]; omega)) only [↓if_neg, ↓if_pos,
      ReturnField.offset, ReturnField.countId, Option.map_some, Option.map_none,
      add_sub_cancel_left, zero_add]

/-- The count rewrite keeps the wrapper and the base. -/
theorem getSliceBoundaryCountIdMode_eq (wrapper : SliceWrapper) (field : ReturnField)
    (base : SliceBase) : getSliceBoundaryCountIdMode (sliceBoundaryMode wrapper field base) =
      field.countId.map fun counted => sliceBoundaryMode wrapper counted base := by
  obtain ⟨baseLow, baseHigh⟩ := base.offset_range
  obtain ⟨fieldLow, fieldHigh⟩ := field.offset_range
  rw [getSliceBoundaryCountIdMode, sliceBoundaryMode, add_assoc,
    getSliceBoundaryWrapperOffset_offset wrapper (by omega) (by omega)]
  dsimp only
  rw [if_neg (by rw [SliceWrapper.offset]; omega), countIdOffset_offset field baseLow baseHigh]
  cases field.countId with
  | none => rfl
  | some counted =>
      dsimp only [Option.map_some]
      rw [if_neg (by omega)]
      rfl

end Decode

section Selection

variable {α : Type} {list : List α} {lower upper : Nat}

theorem head?_slice (inside : lower < upper) :
    ((list.take upper).drop lower).head? = list[lower]? := by
  rw [List.head?_drop, List.getElem?_take_of_lt inside]

theorem getLast?_slice (inside : lower < upper) (bound : upper ≤ list.length) :
    ((list.take upper).drop lower).getLast? = list[upper - 1]? := by
  rw [List.getLast?_eq_getElem?, List.getElem?_drop, List.length_drop, List.length_take_of_le bound,
    show lower + (upper - lower - 1) = upper - 1 by omega, List.getElem?_take_of_lt (by omega)]

theorem slice_eq_nil (outside : upper ≤ lower) : (list.take upper).drop lower = [] := by
  rw [List.drop_eq_nil_iff, List.length_take]
  omega

/-- The place that the arithmetic finds is where the selected element of the slice is. -/
theorem boundaryIndex_spec (wrapper : SliceWrapper) (field : ReturnField) (last : Bool)
    (bound : upper ≤ list.length) :
    match boundaryIndex (field.flags wrapper.flags) last lower upper with
    | none => selectEnd last (wrapper.slice ((list.take upper).drop lower)) = none
    | some index => ∃ place : Nat, index = place ∧ place < list.length ∧
        selectEnd last (wrapper.slice ((list.take upper).drop lower)) = list[place]? := by
  have isTail : (field.flags wrapper.flags).sliceTailList = wrapper.flags.sliceTailList := by
    cases field <;> rfl
  have isReverse : (field.flags wrapper.flags).sliceReverseList = wrapper.flags.sliceReverseList := by
    cases field <;> rfl
  rw [boundaryIndex, isTail, isReverse]
  by_cases empty : upper ≤ lower
  · rw [if_pos (by omega), slice_eq_nil empty]
    cases wrapper <;> cases last <;> rfl
  · rw [if_neg (by omega)]
    have plain : ∃ place : Nat, (if last = true then (upper : Int) - 1 else lower) = place ∧
        place < list.length ∧
          selectEnd last ((list.take upper).drop lower) = list[place]? := by
      cases last with
      | false => exact ⟨lower, rfl, by omega, head?_slice (by omega)⟩
      | true => exact ⟨upper - 1, by simp; omega, by omega, getLast?_slice (by omega) bound⟩
    cases wrapper with
    | plain | reverse | tailReverse | doubleTail => exact plain
    | sliceTail =>
        rw [if_pos (by decide), SliceWrapper.slice, List.tail_drop]
        by_cases single : upper ≤ lower + 1
        · rw [if_pos (by omega), slice_eq_nil single]
          cases last <;> rfl
        · rw [if_neg (by omega)]
          cases last with
          | false => exact ⟨lower + 1, by simp, by omega, head?_slice (by omega)⟩
          | true => exact ⟨upper - 1, by simp; omega, by omega, getLast?_slice (by omega) bound⟩
    | sliceReverse =>
        rw [if_neg (by decide), if_pos (by decide), SliceWrapper.slice]
        cases last with
        | false =>
            refine ⟨upper - 1, by simp; omega, by omega, ?_⟩
            rw [selectEnd, if_neg Bool.false_ne_true, List.head?_reverse]
            exact getLast?_slice (by omega) bound
        | true =>
            refine ⟨lower, rfl, by omega, ?_⟩
            rw [selectEnd, if_pos rfl, List.getLast?_reverse]
            exact head?_slice (by omega)

theorem clampIndex_nat (count : Nat) (index : Int) :
    ∃ place : Nat, clampIndex count index = place ∧ place ≤ count := by
  refine ⟨(clampIndex count index).toNat, ?_, ?_⟩
  all_goals
    rw [clampIndex]
    split_ifs <;> omega

end Selection

section Path

variable {wrapper : SliceWrapper} {field : ReturnField} {base : SliceBase} {startId : GraphId}
  {walk : List WalkStep}

theorem getElem?_graphidArray (place : Nat) :
    (graphidArray startId walk)[2 * place]? = (startId :: walk.map WalkStep.nextVertexId)[place]? ∧
      (graphidArray startId walk)[2 * place + 1]? = (walk.map WalkStep.edgeId)[place]? := by
  induction walk generalizing startId place with
  | nil =>
      cases place with
      | zero => exact ⟨rfl, rfl⟩
      | succ place => simp [graphidArray]
  | cons step rest inductionHypothesis =>
      have unfolded : graphidArray startId (step :: rest) =
          startId :: step.edgeId :: graphidArray step.nextVertexId rest := rfl
      cases place with
      | zero => exact ⟨rfl, rfl⟩
      | succ place =>
          obtain ⟨nodes, edges⟩ := @inductionHypothesis step.nextVertexId place
          rw [unfolded, show 2 * (place + 1) = 2 * place + 1 + 1 by omega]
          exact ⟨nodes, edges⟩

/-- The container has the nodes and the edges of the path in turn. -/
theorem entityAt_eq {place : Nat} {entity : PathEntity}
    (found : (pathEntities startId walk base.nodes)[place]? = some entity) :
    entityAt (graphidArray startId walk) base.nodes place = entity := by
  obtain ⟨nodes, edges⟩ := @getElem?_graphidArray startId walk place
  rw [pathEntities] at found
  rw [entityAt]
  split_ifs at found ⊢ with isNode
  · rw [List.getElem?_map, ← nodes] at found
    obtain ⟨id, isId, rfl⟩ := Option.map_eq_some_iff.1 found
    rw [List.getD_eq_getElem?_getD, show ((place : Int) * 2).toNat = 2 * place by omega, isId,
      Option.getD_some]
  · rw [List.getElem?_map, ← edges] at found
    obtain ⟨id, isId, rfl⟩ := Option.map_eq_some_iff.1 found
    rw [List.getD_eq_getElem?_getD, show ((place : Int) * 2 + 1).toNat = 2 * place + 1 by omega,
      isId, Option.getD_some]

theorem length_pathEntities :
    (pathEntities startId walk base.nodes).length = walk.length + if base.nodes then 1 else 0 := by
  rw [pathEntities]
  split_ifs <;> simp

/-- How many entities the list leaves out -/
def SliceWrapper.dropped (wrapper : SliceWrapper) (base : SliceBase) : Nat :=
  match wrapper with
  | .doubleTail => 2
  | .tailReverse => 1
  | .plain | .reverse | .sliceTail | .sliceReverse => if base.tail then 1 else 0

/-- Where the list starts among the entities -/
def SliceWrapper.baseIndex (wrapper : SliceWrapper) (base : SliceBase) : Nat :=
  if wrapper = .tailReverse then 0 else wrapper.dropped base

theorem tail_of_base (base : SliceBase) (entities : List PathEntity) :
    (if base.tail then entities.tail else entities) =
      entities.drop (if base.tail then 1 else 0) := by
  split_ifs
  · exact List.drop_one.symm
  · rfl

theorem SliceWrapper.length_list (wrapper : SliceWrapper) (base : SliceBase)
    (entities : List PathEntity) :
    (wrapper.list base entities).length = entities.length - wrapper.dropped base := by
  cases wrapper with
  | plain | sliceTail | sliceReverse =>
      rw [SliceWrapper.list, tail_of_base, List.length_drop, SliceWrapper.dropped]
  | reverse =>
      rw [SliceWrapper.list, tail_of_base, List.length_reverse, List.length_drop,
        SliceWrapper.dropped]
  | tailReverse => rw [SliceWrapper.list, List.length_tail, List.length_reverse, SliceWrapper.dropped]
  | doubleTail =>
      rw [SliceWrapper.list, List.length_tail, List.length_tail, SliceWrapper.dropped]
      omega

/-- The flags of the list come through the field. -/
theorem ReturnField.list_flags (field : ReturnField) (decoded : VLESliceBoundaryMode) :
    (field.flags decoded).reverseList = decoded.reverseList ∧
      (field.flags decoded).tailReverseList = decoded.tailReverseList ∧
        (field.flags decoded).doubleTailList = decoded.doubleTailList := by
  cases field <;> exact ⟨rfl, rfl, rfl⟩

theorem sliceSource_eq (valid : wrapper = .tailReverse ∨ wrapper = .doubleTail → base.tail = true) :
    sliceSource walk.length base.offset (field.flags wrapper.flags) =
      some ⟨(wrapper.list base (pathEntities startId walk base.nodes)).length,
        wrapper.baseIndex base, base.nodes, base.last⟩ := by
  obtain ⟨-, isTailReverse, isDouble⟩ := field.list_flags wrapper.flags
  rw [sliceSource, isTailReverse, isDouble, wrapper.length_list, length_pathEntities,
    SliceWrapper.baseIndex]
  obtain ⟨tail, nodes, last⟩ := base
  cases tail with
  | false =>
      have isPlain : wrapper.dropped ⟨false, nodes, last⟩ = 0 := by
        cases wrapper with
        | plain | reverse | sliceTail | sliceReverse => rfl
        | tailReverse | doubleTail => simp at valid
      rw [isPlain]
      cases nodes <;> cases last <;> simp [SliceBase.offset]
  | true =>
      cases wrapper <;> cases nodes <;> cases last <;>
        simp [SliceBase.offset, SliceWrapper.flags, SliceWrapper.dropped,
          VLESliceBoundaryMode.zero] <;> omega

/-- The place in the path is where the list has its element. -/
theorem originalIndex_eq {place : Nat} {entities : List PathEntity}
    (inside : place < (wrapper.list base entities).length) :
    ∃ original : Nat, originalIndex (field.flags wrapper.flags)
        ⟨(wrapper.list base entities).length, wrapper.baseIndex base, base.nodes, base.last⟩ place =
          original ∧ (wrapper.list base entities)[place]? = entities[original]? := by
  obtain ⟨isReverse, isTailReverse, -⟩ := field.list_flags wrapper.flags
  have length := wrapper.length_list base entities
  rw [originalIndex, isReverse, isTailReverse]
  dsimp only
  cases wrapper with
  | plain | sliceTail | sliceReverse =>
      refine ⟨(if base.tail then 1 else 0) + place, ?_, ?_⟩
      · rw [if_neg (by decide), SliceWrapper.baseIndex, if_neg (by decide), SliceWrapper.dropped]
        omega
      · rw [SliceWrapper.list, tail_of_base, List.getElem?_drop]
  | reverse =>
      rw [if_pos (by decide), SliceWrapper.baseIndex, if_neg (by decide), length]
      rw [length] at inside
      refine ⟨entities.length - 1 - place, ?_, ?_⟩
      · omega
      · rw [SliceWrapper.list, tail_of_base, List.getElem?_reverse, List.length_drop,
          List.getElem?_drop]
        · rw [SliceWrapper.dropped] at inside
          congr 1
          omega
        · rw [List.length_drop]
          exact inside
  | tailReverse =>
      rw [if_pos (by decide), SliceWrapper.baseIndex, if_pos rfl, length]
      rw [length, SliceWrapper.dropped] at inside
      refine ⟨entities.length - 1 - (place + 1), ?_, ?_⟩
      · rw [SliceWrapper.dropped]
        omega
      · rw [SliceWrapper.list, List.getElem?_tail, List.getElem?_reverse (by omega)]
  | doubleTail =>
      refine ⟨place + 2, ?_, ?_⟩
      · rw [if_neg (by decide), SliceWrapper.baseIndex, if_neg (by decide), SliceWrapper.dropped]
        omega
      · rw [SliceWrapper.list, List.getElem?_tail, List.getElem?_tail]

theorem returnedField_eq (entity : PathEntity) :
    returnedField (field.flags wrapper.flags) entity = field.of entity := by
  cases entity <;> cases wrapper <;> cases field <;> rfl

end Path

section Fused

variable {wrapper : SliceWrapper} {field : ReturnField} {base : SliceBase} {startId : GraphId}
  {walk : List WalkStep} {lidx uidx : SliceBound}

theorem slice_eq {list : List PathEntity} {lower upper : Nat} :
    (if (upper : Int) ≤ lower then [] else
      (list.take (upper : Int).toNat).drop (lower : Int).toNat) =
        (list.take upper).drop lower := by
  split_ifs with outside
  · rw [slice_eq_nil (by omega)]
  · rw [Int.toNat_natCast, Int.toNat_natCast]

/-- The entity is the one that the list functions give. -/
theorem materializeVleSliceBoundary_eq
    (valid : wrapper = .tailReverse ∨ wrapper = .doubleTail → base.tail = true) :
    materializeVleSliceBoundary startId walk lidx uidx (sliceBoundaryMode wrapper field base) =
      (unfusedBoundary startId walk wrapper base lidx uidx).bind field.ofFound := by
  rw [materializeVleSliceBoundary, unfusedBoundary, agtypeAccessSlice]
  by_cases omitted : lidx = .omitted ∧ uidx = .omitted
  · rw [if_pos omitted, if_pos omitted]
    rfl
  rw [if_neg omitted, if_neg omitted, decode_sliceBoundaryMode]
  dsimp only
  rw [@sliceSource_eq wrapper field base startId walk valid]
  generalize isEntities : pathEntities startId walk base.nodes = entities
  dsimp only
  cases lidx.value 0 with
  | none => rfl
  | some lower =>
      cases uidx.value (wrapper.list base entities).length with
      | none => rfl
      | some upper =>
          obtain ⟨lowerPlace, isLower, -⟩ := clampIndex_nat (wrapper.list base entities).length lower
          obtain ⟨upperPlace, isUpper, bound⟩ :=
            clampIndex_nat (wrapper.list base entities).length upper
          have spec := @boundaryIndex_spec _ _ lowerPlace _ wrapper field base.last bound
          dsimp only
          rw [isLower, isUpper, slice_eq]
          change _ = field.ofFound (selectEnd base.last (wrapper.slice
            (((wrapper.list base entities).take upperPlace).drop lowerPlace)))
          cases isIndex : boundaryIndex (field.flags wrapper.flags) base.last lowerPlace upperPlace with
          | none =>
              rw [isIndex] at spec
              dsimp only at spec
              rw [spec]
              rfl
          | some index =>
              rw [isIndex] at spec
              obtain ⟨place, rfl, inside, selected⟩ := spec
              obtain ⟨original, isOriginal, same⟩ := @originalIndex_eq _ field _ _ _ inside
              obtain ⟨entity, found⟩ : ∃ entity, (wrapper.list base entities)[place]? = some entity :=
                ⟨_, List.getElem?_eq_getElem inside⟩
              have inPath : (pathEntities startId walk base.nodes)[original]? = some entity := by
                rw [isEntities, ← same, found]
              dsimp only
              rw [isOriginal, entityAt_eq inPath, returnedField_eq, selected, found]
              rfl

theorem bind_ofFound_eq_none (found : Except SliceError (Option PathEntity)) :
    found.bind field.ofFound = .ok none ↔ found = .ok none := by
  cases found with
  | error error =>
      constructor
      · exact fun same => nomatch same
      · exact fun same => nomatch same
  | ok entity =>
      cases entity with
      | none => exact ⟨fun _ => rfl, fun _ => rfl⟩
      | some entity =>
          constructor
          · intro same
            change (field.of entity).map _ = _ at same
            cases of : field.of entity <;> rw [of] at same <;> exact (nomatch same)
          · exact fun same => nomatch same

/-- The fused boundary gives what the list functions give one after the other, and the mode that is
counted instead of it gives NULL for the same inputs. -/
theorem materializeVleSliceBoundary_unfused (startId : GraphId) (walk : List WalkStep)
    (wrapper : SliceWrapper) (field : ReturnField) (base : SliceBase)
    (valid : wrapper = .tailReverse ∨ wrapper = .doubleTail → base.tail = true)
    (lidx uidx : SliceBound) :
    materializeVleSliceBoundary startId walk lidx uidx (sliceBoundaryMode wrapper field base) =
        (unfusedBoundary startId walk wrapper base lidx uidx).bind field.ofFound ∧
      ∀ idMode, getSliceBoundaryCountIdMode (sliceBoundaryMode wrapper field base) = some idMode →
        (materializeVleSliceBoundary startId walk lidx uidx idMode = .ok none ↔
          materializeVleSliceBoundary startId walk lidx uidx (sliceBoundaryMode wrapper field base) =
            .ok none) := by
  constructor
  · exact materializeVleSliceBoundary_eq valid
  · intro idMode isMode
    rw [getSliceBoundaryCountIdMode_eq] at isMode
    obtain ⟨counted, -, rfl⟩ := Option.map_eq_some_iff.1 isMode
    rw [materializeVleSliceBoundary_eq valid, materializeVleSliceBoundary_eq valid,
      bind_ofFound_eq_none, bind_ofFound_eq_none]

def sampleStart : GraphId := 844424930131973

def sampleWalk : List WalkStep := [⟨1407374883553289, 844424930131974⟩]

/-- The label of the last node of the tail of the reversed nodes, of a path with one edge -/
theorem materializeVleSliceBoundary_unfused_one :
    materializeVleSliceBoundary sampleStart sampleWalk (.index 0) .omitted
        (sliceBoundaryMode .tailReverse .label ⟨true, true, true⟩) =
        (unfusedBoundary sampleStart sampleWalk .tailReverse ⟨true, true, true⟩ (.index 0) .omitted).bind
          ReturnField.label.ofFound ∧
      ∀ idMode, getSliceBoundaryCountIdMode
          (sliceBoundaryMode .tailReverse .label ⟨true, true, true⟩) = some idMode →
        (materializeVleSliceBoundary sampleStart sampleWalk (.index 0) .omitted idMode = .ok none ↔
          materializeVleSliceBoundary sampleStart sampleWalk (.index 0) .omitted
            (sliceBoundaryMode .tailReverse .label ⟨true, true, true⟩) = .ok none) :=
  materializeVleSliceBoundary_unfused sampleStart sampleWalk .tailReverse .label ⟨true, true, true⟩
    (fun _ => rfl) (.index 0) .omitted

end Fused

end Age.Vle
