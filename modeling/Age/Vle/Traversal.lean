import Mathlib.Algebra.Group.Int.Defs
import Mathlib.Algebra.GroupWithZero.Nat
import Mathlib.Data.List.Basic

/-!
# The traversal of a variable-length edge

`age_vle_traversal.c`: frames in an arena, a work list of visits and
backtracks, the stacks of the active path and one byte of flags for each edge.
An index of `-1` is `none`.  Capacities of arrays play no part; a failed
`Assert` on a frame index is an error here.
-/

namespace Age.Vle

/-- `typedef int64 graphid` -/
abbrev GraphId := Int64

/-- Decided along the list, not over every identifier -/
scoped instance decidableAllMem (ids others : List GraphId) :
    Decidable (∀ id ∈ ids, id ∈ others) :=
  List.decidableBAll (· ∈ others) ids

/-- `get_graphid_label_id` -/
def getGraphidLabelId (gid : GraphId) : Int :=
  gid.toUInt64.toNat / 2 ^ 48

/-- `label_id_is_valid` -/
def labelIdIsValid (id : Int) : Bool :=
  1 ≤ id && id ≤ 65535

inductive TraversalError where
  /-- `invalid edge index` -/
  | invalidEdgeIndex
  /-- `Assert(frame_index < state->frame_stack->size)` -/
  | invalidFrameIndex
  deriving DecidableEq, Repr

inductive IteratorPolicy where
  | lifo | levelBatch
  deriving DecidableEq, Repr

inductive WorkItemKind where
  | visit | backtrack
  deriving DecidableEq, Repr

section EdgeState

structure EdgeFlags where
  used : Bool
  matchChecked : Bool
  matched : Bool
  deriving DecidableEq, Repr

/-- `VLELocalEdgeState`: the flags below `size`, and the numbers given to edges
in the order of their discovery. -/
structure EdgeState where
  useLocal : Bool
  localEdgeIndex : List (GraphId × Nat)
  flags : List EdgeFlags
  deriving DecidableEq, Repr

/-- `age_vle_edge_state_init` -/
def edgeStateInit (useLocal : Bool) (estimatedEdgeCount : Nat) : EdgeState where
  useLocal := useLocal
  localEdgeIndex := []
  flags := if useLocal then [] else List.replicate estimatedEdgeCount ⟨false, false, false⟩

namespace EdgeState

/-- `age_vle_edge_state_get_or_create_index` -/
def getOrCreateIndex (state : EdgeState) (edgeId : GraphId) : Nat × EdgeState :=
  match state.localEdgeIndex.lookup edgeId with
  | some edgeIndex => (edgeIndex, state)
  | none =>
      (state.flags.length,
        { state with
          localEdgeIndex := (edgeId, state.flags.length) :: state.localEdgeIndex
          flags := state.flags ++ [⟨false, false, false⟩] })

/-- `age_vle_edge_state_flag_at` -/
def flagAt (state : EdgeState) (edgeIndex : Nat) : Except TraversalError EdgeFlags :=
  match state.flags[edgeIndex]? with
  | some flags => .ok flags
  | none => .error .invalidEdgeIndex

def setFlags (state : EdgeState) (edgeIndex : Nat) (flags : EdgeFlags) : EdgeState :=
  { state with flags := state.flags.set edgeIndex flags }

/-- Set or clear `VLE_EDGE_STATE_USED`. -/
def setUsed (state : EdgeState) (edgeIndex : Nat) (used : Bool) :
    Except TraversalError EdgeState := do
  let flags ← state.flagAt edgeIndex
  return state.setFlags edgeIndex { flags with used := used }

/-- `age_vle_traversal_candidate_needs_match_check` -/
def candidateNeedsMatchCheck (state : EdgeState) (edgeIndex : Nat) :
    Except TraversalError Bool := do
  let flags ← state.flagAt edgeIndex
  return !flags.used && !flags.matchChecked

/-- `age_vle_traversal_candidate_mark_match` -/
def candidateMarkMatch (state : EdgeState) (edgeIndex : Nat) (matched : Bool) :
    Except TraversalError EdgeState := do
  let flags ← state.flagAt edgeIndex
  if flags.used then
    return state
  else
    return state.setFlags edgeIndex { flags with matched := matched, matchChecked := true }

/-- `age_vle_context_apply_candidate_match_result`, with the answer that
`age_vle_edge_property_matches` would give. -/
def applyCandidateMatchResult (state : EdgeState) (edgeIndex : Nat) (matched : Bool) :
    Except TraversalError EdgeState := do
  if ← state.candidateNeedsMatchCheck edgeIndex then
    state.candidateMarkMatch edgeIndex matched
  else
    return state

/-- What a push asks of the flags of an edge. -/
def pushable (state : EdgeState) (edgeIndex : Nat) : Except TraversalError Bool := do
  let flags ← state.flagAt edgeIndex
  return !flags.used && flags.matched

end EdgeState

end EdgeState

section ActivePath

variable {Entry : Type}

/-- `VLETraversalCandidate`; an `Entry` is a `vertex_entry` of the loaded graph. -/
structure Candidate (Entry : Type) where
  edgeId : GraphId
  edgeIndex : Nat
  pathLength : Nat
  nextVertexId : GraphId
  nextVertexEntry : Option Entry
  deriving DecidableEq, Repr

/-- One edge of a path: what a frame says apart from its place in the arena. -/
structure PathStep (Entry : Type) where
  edgeId : GraphId
  edgeIndex : Nat
  pathLength : Nat
  nextVertexId : GraphId
  nextVertexEntry : Option Entry
  deriving DecidableEq, Repr

/-- `VLETraversalStep` -/
structure Step (Entry : Type) where
  vertexId : GraphId
  vertexEntry : Option Entry
  pathLength : Nat
  deriving DecidableEq, Repr

/-- The active path: its stacks, the flags of the edges and `path_depth`.
`path_stack` is `none` when the traversal does not store path edges. -/
structure ActivePath where
  pathStack : Option (List GraphId)
  pathEdgeIndexStack : List Nat
  pathVertexStack : List GraphId
  edgeState : EdgeState
  pathDepth : Nat
  deriving DecidableEq, Repr

namespace ActivePath

/-- `age_vle_path_stacks_push` -/
def stacksPush (path : ActivePath) (edgeId : GraphId) (edgeIndex : Nat) (vertexId : GraphId) :
    ActivePath :=
  { path with
    pathStack := path.pathStack.map (· ++ [edgeId])
    pathEdgeIndexStack := path.pathEdgeIndexStack ++ [edgeIndex]
    pathVertexStack := path.pathVertexStack ++ [vertexId] }

/-- `age_vle_path_stacks_pop` -/
def stacksPop (path : ActivePath) : ActivePath :=
  { path with
    pathStack := path.pathStack.map List.dropLast
    pathEdgeIndexStack := path.pathEdgeIndexStack.dropLast
    pathVertexStack := path.pathVertexStack.dropLast }

/-- Make a step's edge the last one of the active path. -/
def enter (path : ActivePath) (step : PathStep Entry) : Except TraversalError ActivePath := do
  let edgeState ← path.edgeState.setUsed step.edgeIndex true
  return { ({ path with edgeState := edgeState }.stacksPush step.edgeId step.edgeIndex
    step.nextVertexId) with pathDepth := step.pathLength }

/-- Take the last edge off the active path. -/
def leave (path : ActivePath) (edgeIndex : Nat) : Except TraversalError ActivePath := do
  let edgeState ← path.edgeState.setUsed edgeIndex false
  return { ({ path with edgeState := edgeState }).stacksPop with pathDepth := path.pathDepth - 1 }

def clearUsed : EdgeState → List Nat → Except TraversalError EdgeState
  | edgeState, [] => .ok edgeState
  | edgeState, edgeIndex :: rest => do
      let edgeState ← edgeState.setUsed edgeIndex false
      clearUsed edgeState rest

/-- `age_vle_traversal_clear_active_path`: the start vertex stays. -/
def clear (path : ActivePath) : Except TraversalError ActivePath := do
  let edgeState ← clearUsed path.edgeState path.pathEdgeIndexStack
  return {
    pathStack := path.pathStack.map fun _ => []
    pathEdgeIndexStack := []
    pathVertexStack := path.pathVertexStack.take 1
    edgeState := edgeState
    pathDepth := 0 }

end ActivePath

end ActivePath

section Arena

/-- `VLETraversalFrame` -/
structure Frame (Entry : Type) where
  edgeId : GraphId
  edgeIndex : Nat
  pathLength : Nat
  parentFrameIndex : Option Nat
  arenaSegmentIndex : Nat
  nextVertexId : GraphId
  nextVertexEntry : Option Entry
  deriving DecidableEq, Repr

def Frame.step {Entry : Type} (frame : Frame Entry) : PathStep Entry where
  edgeId := frame.edgeId
  edgeIndex := frame.edgeIndex
  pathLength := frame.pathLength
  nextVertexId := frame.nextVertexId
  nextVertexEntry := frame.nextVertexEntry

/-- `VLETraversalWorkItem` -/
structure WorkItem where
  frameIndex : Nat
  pathLength : Nat
  workOrdinal : Nat
  arenaSegmentIndex : Option Nat
  kind : WorkItemKind
  deriving DecidableEq, Repr

/-- `VLETraversalArenaSegment`: the frames that one push appended. -/
structure ArenaSegment where
  frameStart : Option Nat
  frameCount : Nat
  workStart : Nat
  workCount : Nat
  pathLength : Nat
  parentFrameIndex : Option Nat
  remainingWorkCount : Nat
  consumedWorkCount : Nat
  iteratorPolicy : IteratorPolicy
  workClosed : Bool
  compactableCandidate : Bool
  framesCompacted : Bool
  deriving DecidableEq, Repr

/-- `VLETraversalArenaSegmentList` -/
structure ArenaSegmentList where
  array : List ArenaSegment
  workClosedCount : Nat
  unprobedClosedSegmentCount : Nat
  unprobedClosedFrameCount : Nat
  compactableCandidateCount : Nat
  compactableFrameCount : Nat
  compactedSegmentCount : Nat
  compactedFrameCount : Nat
  deriving DecidableEq, Repr

/-- `VLETraversalState`; the live part of the work list, oldest item first. -/
structure TraversalState (Entry : Type) where
  frames : List (Frame Entry)
  items : List WorkItem
  nextWorkOrdinal : Nat
  iteratorPolicy : IteratorPolicy
  arenaSegments : ArenaSegmentList
  path : ActivePath
  activeFrameIndex : Option Nat
  deriving DecidableEq, Repr

/-- The intervals of reference probes, and the number of dead frames that a
compaction waits for. -/
structure ArenaLimits where
  probeSegmentInterval : Nat
  probeFrameInterval : Nat
  compactionMinFrameCount : Nat
  deriving DecidableEq, Repr

/-- The limits the source is compiled with. -/
def arenaLimits : ArenaLimits :=
  ⟨64, 1024, 1024⟩

variable {Entry : Type}

/-- `age_vle_arena_segments_init` -/
def arenaSegmentsInit : ArenaSegmentList :=
  ⟨[], 0, 0, 0, 0, 0, 0, 0⟩

/-- `age_vle_traversal_state_init` and `age_vle_traversal_state_reset` -/
def traversalStateInit (storePathEdges : Bool) (iteratorPolicy : IteratorPolicy)
    (edgeState : EdgeState) (startVertexId : GraphId) : TraversalState Entry where
  frames := []
  items := []
  nextWorkOrdinal := 0
  iteratorPolicy := iteratorPolicy
  arenaSegments := arenaSegmentsInit
  path := {
    pathStack := if storePathEdges then some [] else none
    pathEdgeIndexStack := []
    pathVertexStack := [startVertexId]
    edgeState := edgeState
    pathDepth := 0 }
  activeFrameIndex := none

/-- `age_vle_arena_segment_begin` -/
def arenaSegmentBegin (frameStart workStart pathLength : Nat) (parentFrameIndex : Option Nat)
    (iteratorPolicy : IteratorPolicy) : ArenaSegment where
  frameStart := some frameStart
  frameCount := 0
  workStart := workStart
  workCount := 0
  pathLength := pathLength
  parentFrameIndex := parentFrameIndex
  remainingWorkCount := 0
  consumedWorkCount := 0
  iteratorPolicy := iteratorPolicy
  workClosed := false
  compactableCandidate := false
  framesCompacted := false

/-- `age_vle_arena_segment_record_frame_work` -/
def recordFrameWork (segment : ArenaSegment) : ArenaSegment :=
  { segment with
    frameCount := segment.frameCount + 1
    workCount := segment.workCount + 1
    remainingWorkCount := segment.remainingWorkCount + 1 }

/-- `age_vle_arena_segment_record_work_consumed` -/
def recordWorkConsumed (segments : ArenaSegmentList) (arenaSegmentIndex : Option Nat) :
    ArenaSegmentList :=
  match arenaSegmentIndex with
  | none => segments
  | some index =>
      match segments.array[index]? with
      | none => segments
      | some segment =>
          let consumed := { segment with
            remainingWorkCount := segment.remainingWorkCount - 1
            consumedWorkCount := segment.consumedWorkCount + 1 }
          if consumed.remainingWorkCount = 0 then
            { segments with
              array := segments.array.set index { consumed with workClosed := true }
              workClosedCount := segments.workClosedCount + 1
              unprobedClosedSegmentCount := segments.unprobedClosedSegmentCount + 1
              unprobedClosedFrameCount :=
                segments.unprobedClosedFrameCount + segment.frameCount }
          else
            { segments with array := segments.array.set index consumed }

/-- `age_vle_arena_segments_mark_referenced_chain`; a parent stands before its
frame, so the chain has at most as many frames as the arena. -/
def markReferencedChain (frames : List (Frame Entry)) (segments : List ArenaSegment) :
    Nat → List Bool → Option Nat → List Bool
  | 0, referenced, _ => referenced
  | _, referenced, none => referenced
  | fuel + 1, referenced, some frameIndex =>
      match frames[frameIndex]? with
      | none => referenced
      | some frame =>
          if referenced[frame.arenaSegmentIndex]? = some true then referenced
          else
            match segments[frame.arenaSegmentIndex]? with
            | none => referenced
            | some segment =>
                markReferencedChain frames segments fuel
                  (referenced.set frame.arenaSegmentIndex true) segment.parentFrameIndex

/-- The segments that the active path or a pending item refers to. -/
def referencedSegments (state : TraversalState Entry) : List Bool :=
  (state.activeFrameIndex :: state.items.map fun item => some item.frameIndex).foldl
    (markReferencedChain state.frames state.arenaSegments.array state.frames.length)
    (List.replicate state.arenaSegments.array.length false)

/-- Whether a probe makes a segment a candidate. -/
def becomesCandidate (segment : ArenaSegment) (referenced : Bool) : Bool :=
  segment.workClosed && !segment.compactableCandidate && !referenced

def probeSegment (segment : ArenaSegment) (referenced : Bool) : ArenaSegment :=
  bif becomesCandidate segment referenced then { segment with compactableCandidate := true }
  else segment

/-- The reference probe of `age_vle_arena_segments_refresh_compactable_candidates`. -/
def probeReferences (state : TraversalState Entry) : TraversalState Entry :=
  let segments := state.arenaSegments
  let referenced := referencedSegments state
  let found := (segments.array.zip referenced).filter fun pair => becomesCandidate pair.1 pair.2
  { state with arenaSegments := { segments with
      array := List.zipWith probeSegment segments.array referenced
      compactableCandidateCount := segments.compactableCandidateCount + found.length
      compactableFrameCount :=
        segments.compactableFrameCount + (found.map fun pair => pair.1.frameCount).sum
      unprobedClosedSegmentCount := 0
      unprobedClosedFrameCount := 0 } }

/-- `VLEArenaCompactionWindow` -/
structure CompactionWindow where
  frameStart : Nat
  frameCount : Nat
  deriving DecidableEq, Repr

/-- `age_vle_arena_segments_collect_compaction_windows`: neighbouring candidates
share a window, which stays open until another segment's frames come. -/
def collectCompactionWindows : Option CompactionWindow → List ArenaSegment →
    List CompactionWindow
  | window, [] => window.toList
  | window, segment :: rest =>
      if segment.framesCompacted || segment.frameCount == 0 then
        collectCompactionWindows window rest
      else if !segment.compactableCandidate then
        window.toList ++ collectCompactionWindows none rest
      else
        let fresh : CompactionWindow := ⟨segment.frameStart.getD 0, segment.frameCount⟩
        match window with
        | none => collectCompactionWindows (some fresh) rest
        | some window =>
            if segment.frameStart = some (window.frameStart + window.frameCount) then
              collectCompactionWindows
                (some ⟨window.frameStart, window.frameCount + segment.frameCount⟩) rest
            else window :: collectCompactionWindows (some fresh) rest

/-- `age_vle_arena_frame_index_after_compaction_windows` for an index that is
not `-1`; `none` is a frame inside a window. -/
def frameIndexAfter (removed frameIndex : Nat) : List CompactionWindow → Option Nat
  | [] => some (frameIndex - removed)
  | window :: rest =>
      if frameIndex < window.frameStart then some (frameIndex - removed)
      else if frameIndex < window.frameStart + window.frameCount then none
      else frameIndexAfter (removed + window.frameCount) frameIndex rest

def frameIndexAfterCompactionWindows (frameIndex : Option Nat)
    (windows : List CompactionWindow) : Option Nat :=
  frameIndex.bind fun index => frameIndexAfter 0 index windows

/-- `age_vle_arena_segments_move_frame_windows` on the frames from `position` on:
the frames between the windows move down. -/
def moveFrameWindows (position : Nat) (frames : List (Frame Entry)) :
    List CompactionWindow → List (Frame Entry)
  | [] => frames
  | window :: rest =>
      frames.take (window.frameStart - position) ++
        moveFrameWindows (window.frameStart + window.frameCount)
          (frames.drop (window.frameStart + window.frameCount - position)) rest

def rewriteFrame (windows : List CompactionWindow) (frame : Frame Entry) : Frame Entry :=
  { frame with
    parentFrameIndex := frameIndexAfterCompactionWindows frame.parentFrameIndex windows }

def rewriteSegment (windows : List CompactionWindow) (segment : ArenaSegment) : ArenaSegment :=
  if segment.framesCompacted then segment
  else
    let moved := { segment with
      parentFrameIndex := frameIndexAfterCompactionWindows segment.parentFrameIndex windows }
    match frameIndexAfterCompactionWindows segment.frameStart windows with
    | none => { moved with frameStart := none, frameCount := 0, framesCompacted := true }
    | some frameStart => { moved with frameStart := some frameStart }

/-- `age_vle_arena_segments_compact_windows`, with
`age_vle_arena_segments_rewrite_frame_indexes_for_windows`. -/
def compactWindows (state : TraversalState Entry) : TraversalState Entry :=
  let segments := state.arenaSegments
  let windows := collectCompactionWindows none segments.array
  if state.frames.isEmpty || windows.isEmpty then state
  else
    let dead := segments.array.filter fun segment =>
      !segment.framesCompacted && (rewriteSegment windows segment).framesCompacted
    { state with
      activeFrameIndex := frameIndexAfterCompactionWindows state.activeFrameIndex windows
      items := state.items.map fun item =>
        { item with frameIndex := (frameIndexAfter 0 item.frameIndex windows).getD 0 }
      frames := (moveFrameWindows 0 state.frames windows).map (rewriteFrame windows)
      arenaSegments := { segments with
        array := segments.array.map (rewriteSegment windows)
        compactedSegmentCount := segments.compactedSegmentCount + dead.length
        compactedFrameCount :=
          segments.compactedFrameCount + (dead.map ArenaSegment.frameCount).sum } }

/-- Whether the next refresh looks for references. -/
def probes (limits : ArenaLimits) (state : TraversalState Entry) : Bool :=
  let segments := state.arenaSegments
  segments.workClosedCount != segments.compactableCandidateCount &&
    (state.items.isEmpty || limits.probeSegmentInterval ≤ segments.unprobedClosedSegmentCount ||
      limits.probeFrameInterval ≤ segments.unprobedClosedFrameCount)

/-- Whether enough dead frames are there to compact them. -/
def compacts (limits : ArenaLimits) (state : TraversalState Entry) : Bool :=
  let segments := state.arenaSegments
  segments.compactableCandidateCount != segments.compactedSegmentCount &&
    (limits.compactionMinFrameCount ≤
        segments.compactableFrameCount - segments.compactedFrameCount ||
      state.items.isEmpty)

/-- `age_vle_arena_segments_refresh_compactable_candidates`; without limits the
arena is never compacted. -/
def refreshCompactableCandidates (limits : Option ArenaLimits) (state : TraversalState Entry) :
    TraversalState Entry :=
  match limits with
  | none => state
  | some limits =>
      let state := bif probes limits state then probeReferences state else state
      bif compacts limits state then compactWindows state else state

end Arena

section Machine

variable {Entry : Type}

/-- The item at which `VLE_TRAVERSAL_WORK_VISIT` has the smallest path length,
the oldest one among equals. -/
def firstShallowestVisit : Nat → Option (Nat × Nat) → List (WorkItemKind × Nat) → Option Nat
  | _, selected, [] => selected.map Prod.fst
  | index, selected, (kind, pathLength) :: rest =>
      let better := kind = .visit ∧ ∀ best ∈ selected, pathLength < best.2
      firstShallowestVisit (index + 1) (if better then some (index, pathLength) else selected) rest

/-- `age_vle_worklist_select_next`: the place of the item that comes next. -/
def selectNext (iteratorPolicy : IteratorPolicy) (items : List (WorkItemKind × Nat)) :
    Option Nat :=
  match items with
  | [] => none
  | (kind, _) :: _ =>
      match iteratorPolicy with
      | .lifo => some (items.length - 1)
      | .levelBatch =>
          if kind = .visit then some 0
          else some ((firstShallowestVisit 0 none items).getD (items.length - 1))

def frameAt (frames : List (Frame Entry)) (frameIndex : Nat) :
    Except TraversalError (Frame Entry) :=
  match frames[frameIndex]? with
  | some frame => .ok frame
  | none => .error .invalidFrameIndex

/-- The path from the root to a frame, read off the parent links. -/
def parentChain (frames : List (Frame Entry)) : Nat → Option Nat →
    Except TraversalError (List (PathStep Entry))
  | _, none => .ok []
  | 0, some _ => .error .invalidFrameIndex
  | fuel + 1, some frameIndex => do
      let frame ← frameAt frames frameIndex
      return (← parentChain frames fuel frame.parentFrameIndex) ++ [frame.step]

/-- The path of a frame index in a state. -/
def TraversalState.chain (state : TraversalState Entry) (frameIndex : Option Nat) :
    Except TraversalError (List (PathStep Entry)) :=
  parentChain state.frames state.frames.length frameIndex

/-- `age_vle_traversal_switch_active_path` -/
def switchActivePath (state : TraversalState Entry) (target : Option Nat) :
    Except TraversalError (TraversalState Entry) := do
  if state.activeFrameIndex = target then
    return state
  else
    let cleared ← state.path.clear
    let replayed ← state.chain target
    let path ← replayed.foldlM ActivePath.enter cleared
    return { state with path := path, activeFrameIndex := target }

/-- `age_vle_worklist_push` -/
def worklistPush (state : TraversalState Entry) (frameIndex pathLength : Nat)
    (arenaSegmentIndex : Option Nat) (kind : WorkItemKind) : TraversalState Entry :=
  { state with
    items := state.items ++ [⟨frameIndex, pathLength, state.nextWorkOrdinal, arenaSegmentIndex,
      kind⟩]
    nextWorkOrdinal := state.nextWorkOrdinal + 1 }

/-- The frame that `age_vle_frame_stack_push` writes for a candidate. -/
def Candidate.frame (candidate : Candidate Entry) (parentFrameIndex : Option Nat)
    (arenaSegmentIndex : Nat) : Frame Entry where
  edgeId := candidate.edgeId
  edgeIndex := candidate.edgeIndex
  pathLength := candidate.pathLength
  parentFrameIndex := parentFrameIndex
  arenaSegmentIndex := arenaSegmentIndex
  nextVertexId := candidate.nextVertexId
  nextVertexEntry := candidate.nextVertexEntry

/-- Append a candidate's frame and its visit; the segment stands at the end. -/
def pushFrame (segmentIndex : Nat) (parentFrameIndex : Option Nat)
    (state : TraversalState Entry) (candidate : Candidate Entry) : TraversalState Entry :=
  let segments := state.arenaSegments
  let pushed := worklistPush state state.frames.length candidate.pathLength (some segmentIndex)
    .visit
  { pushed with
    frames := state.frames ++ [candidate.frame parentFrameIndex segmentIndex]
    arenaSegments := { segments with
      array := segments.array.modify segmentIndex recordFrameWork } }

/-- Open a segment for the frames that come next. -/
def beginSegment (state : TraversalState Entry) (pathLength : Nat) : TraversalState Entry :=
  { state with arenaSegments := { state.arenaSegments with
      array := state.arenaSegments.array ++ [arenaSegmentBegin state.frames.length
        state.nextWorkOrdinal pathLength state.activeFrameIndex state.iteratorPolicy] } }

/-- `age_vle_traversal_push_candidate_if_matched` -/
def pushCandidateIfMatched (state : TraversalState Entry) (candidate : Candidate Entry) :
    Except TraversalError (Bool × TraversalState Entry) := do
  if ← state.path.edgeState.pushable candidate.edgeIndex then
    let opened := beginSegment state candidate.pathLength
    return (true, pushFrame state.arenaSegments.array.length state.activeFrameIndex opened
      candidate)
  else
    return (false, state)

/-- Whether the vertex at the end of a candidate has the label asked for. -/
def targetLabelAccepts (targetLabelId : Int) (candidate : Candidate Entry) : Bool :=
  !labelIdIsValid targetLabelId || getGraphidLabelId candidate.nextVertexId == targetLabelId

def batchPushable (edgeState : EdgeState) (targetLabelId : Int) (candidate : Candidate Entry) :
    Except TraversalError Bool :=
  if targetLabelAccepts targetLabelId candidate then edgeState.pushable candidate.edgeIndex
  else .ok false

/-- The loop of `age_vle_traversal_push_candidate_batch_if_matched`; the first
candidate that is pushed opens the segment. -/
def pushBatchLoop (targetLabelId : Int) : Option Nat → TraversalState Entry →
    List (Candidate Entry) → Except TraversalError (List Bool × TraversalState Entry)
  | _, state, [] => .ok ([], state)
  | segment, state, candidate :: rest => do
      if ← batchPushable state.path.edgeState targetLabelId candidate then
        let segmentIndex := segment.getD state.arenaSegments.array.length
        let opened :=
          if segment.isSome then state else beginSegment state candidate.pathLength
        let next := pushFrame segmentIndex state.activeFrameIndex opened candidate
        let (pushed, final) ← pushBatchLoop targetLabelId (some segmentIndex) next rest
        return (true :: pushed, final)
      else
        let (pushed, final) ← pushBatchLoop targetLabelId segment state rest
        return (false :: pushed, final)

/-- `age_vle_traversal_push_candidate_batch_if_matched` -/
def pushCandidateBatchIfMatched (state : TraversalState Entry)
    (candidates : List (Candidate Entry)) (targetLabelId : Int) :
    Except TraversalError (List Bool × TraversalState Entry) :=
  pushBatchLoop targetLabelId none state candidates

def TraversalState.removeItem (state : TraversalState Entry) (workIndex : Nat) :
    TraversalState Entry :=
  { state with items := state.items.eraseIdx workIndex }

/-- The end of `age_vle_consume_next_frame`, when no work is left. -/
def finishFrames (limits : Option ArenaLimits) (state : TraversalState Entry) :
    Except TraversalError (TraversalState Entry) := do
  let state ←
    if state.iteratorPolicy = .levelBatch then
      state.path.clear.map fun path => { state with path := path, activeFrameIndex := none }
    else .ok state
  return refreshCompactableCandidates limits state

/-- A visit whose parent path is active: nothing if the path holds the edge,
else a step and, for `VLE_TRAVERSAL_ITERATOR_LIFO`, the backtrack to come. -/
def visitFrame (state : TraversalState Entry) (workIndex : Nat) (item : WorkItem)
    (frame : Frame Entry) : Except TraversalError (Option (Step Entry) × TraversalState Entry) := do
  let flags ← state.path.edgeState.flagAt frame.edgeIndex
  let consumed := { state.removeItem workIndex with
    arenaSegments := recordWorkConsumed state.arenaSegments item.arenaSegmentIndex }
  if flags.used then
    return (none, consumed)
  else
    let path ← state.path.enter frame.step
    let pushed :=
      if state.iteratorPolicy = .levelBatch then consumed
      else worklistPush consumed item.frameIndex frame.pathLength none .backtrack
    return (some ⟨frame.nextVertexId, frame.nextVertexEntry, frame.pathLength⟩,
      { pushed with path := path, activeFrameIndex := some item.frameIndex })

/-- What a turn of the loop makes of an item: a step for the caller, or nothing. -/
def consumeItem (state : TraversalState Entry) (workIndex : Nat) (item : WorkItem) :
    Except TraversalError (Option (Step Entry) × TraversalState Entry) := do
  let frame ← frameAt state.frames item.frameIndex
  let _ ← state.path.edgeState.flagAt frame.edgeIndex
  if item.kind = .backtrack then
    if state.iteratorPolicy = .levelBatch then
      return (none, state.removeItem workIndex)
    else
      let path ← state.path.leave frame.edgeIndex
      return (none, { state.removeItem workIndex with
        path := path
        activeFrameIndex := frame.parentFrameIndex })
  else if state.iteratorPolicy = .levelBatch then
    let state ← switchActivePath state frame.parentFrameIndex
    visitFrame state workIndex item frame
  else
    visitFrame state workIndex item frame

/-- The loop of `age_vle_consume_next_frame`; each turn takes an item off the list. -/
def consumeLoop (limits : Option ArenaLimits) : Nat → TraversalState Entry →
    Except TraversalError (Option (Step Entry) × TraversalState Entry)
  | 0, state => (finishFrames limits state).map fun state => (none, state)
  | fuel + 1, state =>
      match selectNext state.iteratorPolicy
          (state.items.map fun item => (item.kind, item.pathLength)) with
      | none => (finishFrames limits state).map fun state => (none, state)
      | some workIndex =>
          match state.items[workIndex]? with
          | none => .error .invalidFrameIndex
          | some item => do
              let (step, next) ← consumeItem state workIndex item
              let refreshed := refreshCompactableCandidates limits next
              match step with
              | some step => return (some step, refreshed)
              | none => consumeLoop limits fuel refreshed

/-- `age_vle_consume_next_frame` -/
def consumeNextFrame (limits : Option ArenaLimits) (state : TraversalState Entry) :
    Except TraversalError (Option (Step Entry) × TraversalState Entry) :=
  consumeLoop limits state.items.length state

end Machine

end Age.Vle
