import Age.Vle.SourceLayout

/-!
# The root of a traversal

`age_vle_root.c` picks the vertex at which a traversal starts, and keeps or
changes it when a cached context is used again.  What is to be found from a root
is told here by its walks.  Terminal property predicates are not asked for.
-/

namespace Age.Vle

section Graph

structure VleEdge where
  id : GraphId
  startId : GraphId
  endId : GraphId
  deriving DecidableEq

/-- The vertices in the order of `get_graph_vertices`, and the edges of the pattern's
label.  `edgeMatches` is the edge's property constraints. -/
structure VleGraph where
  vertices : List GraphId
  edges : List VleEdge
  edgeMatches : GraphId → Bool
  edgeIds_nodup : (edges.map VleEdge.id).Nodup
  endpoints : ∀ edge ∈ edges, edge.startId ∈ vertices ∧ edge.endId ∈ vertices

/-- `reverse_vle_edge_direction` -/
def RelDir.reversed : RelDir → RelDir
  | .right => .left
  | .left => .right
  | .none => .none

/-- An edge of a walk and the vertex it leads to. -/
structure WalkStep where
  edgeId : GraphId
  nextVertexId : GraphId
  deriving DecidableEq

namespace VleGraph

variable (graph : VleGraph)

def adjEdgesOut (vertexId : GraphId) : List VleEdge :=
  graph.edges.filter fun edge => edge.startId = vertexId ∧ edge.endId ≠ vertexId

def adjEdgesIn (vertexId : GraphId) : List VleEdge :=
  graph.edges.filter fun edge => edge.endId = vertexId ∧ edge.startId ≠ vertexId

def adjEdgesSelf (vertexId : GraphId) : List VleEdge :=
  graph.edges.filter fun edge => edge.startId = vertexId ∧ edge.endId = vertexId

/-- The candidates of a vertex, in a direction. -/
def candidates (direction : RelDir) (vertexId : GraphId) : List WalkStep :=
  (if direction ≠ .left then
    (graph.adjEdgesOut vertexId).map fun edge => ⟨edge.id, edge.endId⟩ else []) ++
  (if direction ≠ .right then
    (graph.adjEdgesIn vertexId).map fun edge => ⟨edge.id, edge.startId⟩ else []) ++
  (graph.adjEdgesSelf vertexId).map fun edge => ⟨edge.id, edge.endId⟩

/-- `get_vle_initial_edge_count` -/
def initialEdgeCount (vertexId : GraphId) (direction : RelDir) : Nat :=
  if vertexId ∈ graph.vertices then
    (if direction ≠ .left then (graph.adjEdgesOut vertexId).length else 0) +
    (if direction ≠ .right then (graph.adjEdgesIn vertexId).length else 0) +
    (graph.adjEdgesSelf vertexId).length
  else 0

/-- The edge leads from one vertex to the other in the direction. -/
def Joins (edge : VleEdge) (direction : RelDir) (source target : GraphId) : Prop :=
  (direction ≠ .left ∧ edge.startId = source ∧ edge.endId = target) ∨
    (direction ≠ .right ∧ edge.endId = source ∧ edge.startId = target)

variable {graph}

theorem joins_reversed {edge : VleEdge} {direction : RelDir} {source target : GraphId} :
    Joins edge direction.reversed target source ↔ Joins edge direction source target := by
  unfold Joins
  cases direction <;> simp [RelDir.reversed, and_comm, or_comm]

theorem mem_candidates {direction : RelDir} {vertexId : GraphId} {step : WalkStep} :
    step ∈ graph.candidates direction vertexId ↔
      ∃ edge ∈ graph.edges, edge.id = step.edgeId ∧
        Joins edge direction vertexId step.nextVertexId := by
  obtain ⟨edgeId, nextVertexId⟩ := step
  simp only [candidates, adjEdgesOut, adjEdgesIn, adjEdgesSelf, Joins, List.mem_append]
  constructor
  · rintro ((out | incoming) | self)
    · split at out
      case isTrue outgoing =>
        obtain ⟨edge, edgeMem, same⟩ := List.mem_map.1 out
        obtain ⟨inGraph, ends⟩ := List.mem_filter.1 edgeMem
        cases same
        exact ⟨edge, inGraph, rfl, .inl ⟨outgoing, (of_decide_eq_true ends).1, rfl⟩⟩
      case isFalse => exact (List.not_mem_nil out).elim
    · split at incoming
      case isTrue allowed =>
        obtain ⟨edge, edgeMem, same⟩ := List.mem_map.1 incoming
        obtain ⟨inGraph, ends⟩ := List.mem_filter.1 edgeMem
        cases same
        exact ⟨edge, inGraph, rfl, .inr ⟨allowed, (of_decide_eq_true ends).1, rfl⟩⟩
      case isFalse => exact (List.not_mem_nil incoming).elim
    · obtain ⟨edge, edgeMem, same⟩ := List.mem_map.1 self
      obtain ⟨inGraph, ends⟩ := List.mem_filter.1 edgeMem
      obtain ⟨startHere, endHere⟩ := of_decide_eq_true ends
      cases same
      refine ⟨edge, inGraph, rfl, ?_⟩
      by_cases outgoing : direction = .left
      · subst outgoing
        exact .inr ⟨by decide, endHere, startHere.trans endHere.symm⟩
      · exact .inl ⟨outgoing, startHere, rfl⟩
  · rintro ⟨edge, inGraph, rfl, ends⟩
    by_cases loop : edge.startId = vertexId ∧ edge.endId = vertexId
    · have here : nextVertexId = vertexId := by
        rcases ends with ⟨_, _, same⟩ | ⟨_, _, same⟩
        · exact same.symm.trans loop.2
        · exact same.symm.trans loop.1
      exact .inr (List.mem_map.2 ⟨edge, List.mem_filter.2 ⟨inGraph, decide_eq_true loop⟩, by
        rw [here, loop.2]⟩)
    · rcases ends with ⟨outgoing, startHere, rfl⟩ | ⟨allowed, endHere, rfl⟩
      · refine .inl (.inl ?_)
        rw [if_pos outgoing]
        exact List.mem_map.2 ⟨edge, List.mem_filter.2 ⟨inGraph, decide_eq_true
          ⟨startHere, fun endHere => loop ⟨startHere, endHere⟩⟩⟩, rfl⟩
      · refine .inl (.inr ?_)
        rw [if_pos allowed]
        exact List.mem_map.2 ⟨edge, List.mem_filter.2 ⟨inGraph, decide_eq_true
          ⟨endHere, fun startHere => loop ⟨startHere, endHere⟩⟩⟩, rfl⟩

theorem mem_vertices_of_joins {edge : VleEdge} {direction : RelDir} {source target : GraphId}
    (edgeMem : edge ∈ graph.edges) (joins : Joins edge direction source target) :
    source ∈ graph.vertices ∧ target ∈ graph.vertices := by
  obtain ⟨startMem, endMem⟩ := graph.endpoints edge edgeMem
  rcases joins with ⟨_, rfl, rfl⟩ | ⟨_, rfl, rfl⟩
  · exact ⟨startMem, endMem⟩
  · exact ⟨endMem, startMem⟩

end VleGraph

end Graph

section Root

/-- What the grammar node gives to each call.  A label that restricts every vertex after the
first is `terminalLabelId`, one for the end vertex alone is `terminalEndpointLabelId`. -/
structure VlePattern where
  direction : RelDir
  lower : Nat
  upper : Nat
  upperInfinite : Bool
  terminalLabelId : Int
  terminalEndpointLabelId : Int
  hasEdgeMetadata : Bool
  skipsVertexMetadata : Bool
  missingVertexEligible : Bool

/-- `VLE_path_function` -/
inductive PathFunction where
  | pathsBetween | pathsFrom | pathsTo | pathsAll
  deriving DecidableEq

/-- `VLETraversalRootDescriptor`; `nextVertex` is what is left of the vertex list. -/
structure Root where
  pathFunction : PathFunction
  startVertexId : GraphId
  endVertexId : GraphId
  direction : RelDir
  nextVertex : List GraphId
  reversePathsTo : Bool
  reverseOutputPath : Bool
  deriving DecidableEq

inductive RootError where
  /-- `age_vle: empty graph` -/
  | emptyGraph
  deriving DecidableEq

namespace VlePattern

variable (pattern : VlePattern)

/-- `age_vle_context_is_empty_length_range` -/
def isEmptyLengthRange : Bool :=
  !pattern.upperInfinite && pattern.upper < pattern.lower

/-- `age_vle_context_is_zero_length_only` -/
def isZeroLengthOnly : Bool :=
  pattern.lower == 0 && !pattern.upperInfinite && pattern.upper == 0

/-- `age_vle_context_endpoint_label_can_prune_source` -/
def endpointLabelCanPruneSource (targetPathLength : Nat) : Bool :=
  !pattern.upperInfinite && pattern.lower == pattern.upper && pattern.upper ≤ targetPathLength

/-- `age_vle_context_label_id_for_target_path_length`; `INVALID_LABEL_ID` is 0. -/
def labelIdForTargetPathLength (targetPathLength : Nat) : Int :=
  if labelIdIsValid pattern.terminalLabelId then pattern.terminalLabelId
  else if labelIdIsValid pattern.terminalEndpointLabelId &&
      pattern.endpointLabelCanPruneSource targetPathLength then
    pattern.terminalEndpointLabelId
  else 0

end VlePattern

/-- The two ends change places. -/
def Root.swapped (root : Root) : Root :=
  { root with
    startVertexId := root.endVertexId
    endVertexId := root.startVertexId
    direction := root.direction.reversed
    reverseOutputPath := true }

variable (graph : VleGraph) (pattern : VlePattern)

/-- The vertex list of the context that is loaded for a call. -/
def vertexList (startId endId : Option GraphId) : List GraphId :=
  if pattern.skipsVertexMetadata && (startId.isSome || endId.isSome) then []
  else graph.vertices

/-- The end vertex has fewer edges to start with. -/
def prefersEnd (startId endId : GraphId) : Bool :=
  !pattern.isEmptyLengthRange && !pattern.isZeroLengthOnly && pattern.hasEdgeMetadata &&
    graph.initialEdgeCount endId pattern.direction.reversed <
      graph.initialEdgeCount startId pattern.direction

/-- The root of a call with both vertices, before the ends change places. -/
def betweenRoot (startId endId : GraphId) : Root where
  pathFunction := .pathsBetween
  startVertexId := startId
  endVertexId := endId
  direction := pattern.direction
  nextVertex := vertexList graph pattern (some startId) (some endId)
  reversePathsTo := false
  reverseOutputPath := false

/-- `init_vle_root_descriptor_from_setup` -/
def initRootFromSetup (startId endId : Option GraphId) : Except RootError Root :=
  if graph.vertices = [] ∧ ¬(pattern.skipsVertexMetadata = true ∧
      (startId.isSome || endId.isSome) = true) then .error .emptyGraph
  else
    match startId, endId with
    | some startId, some endId =>
        let root := betweenRoot graph pattern startId endId
        .ok (if prefersEnd graph pattern startId endId then root.swapped else root)
    | some startId, none =>
        .ok ⟨.pathsFrom, startId, 0, pattern.direction,
          vertexList graph pattern (some startId) none, false, false⟩
    | none, some endId =>
        .ok ⟨.pathsTo, endId, endId, pattern.direction.reversed, [], true, true⟩
    | none, none =>
        match vertexList graph pattern none none with
        | [] => .error .emptyGraph
        | vertexId :: rest =>
            .ok ⟨.pathsAll, vertexId, 0, pattern.direction, rest, false, false⟩

/-- `init_vle_root_descriptor_from_refresh`; `none` when the vertex list has ended. -/
def initRootFromRefresh (current : Root) (startId endId : Option GraphId) : Option Root := do
  let root ←
    match startId with
    | some startId => some { current with startVertexId := startId }
    | none =>
        if current.reversePathsTo then some current
        else
          match current.nextVertex with
          | [] => none
          | vertexId :: rest => some { current with startVertexId := vertexId, nextVertex := rest }
  let root :=
    match endId with
    | none => { root with endVertexId := 0 }
    | some endId =>
        if root.reversePathsTo then
          { root with endVertexId := endId, startVertexId := endId, nextVertex := [] }
        else { root with endVertexId := endId }
  return if !root.reversePathsTo && root.reverseOutputPath then
    { root with startVertexId := root.endVertexId, endVertexId := root.startVertexId }
  else root

end Root

section Walks

variable (graph : VleGraph) (pattern : VlePattern) (root : Root)

def walkEnd (startId : GraphId) (walk : List WalkStep) : GraphId :=
  (walk.getLast?.map WalkStep.nextVertexId).getD startId

/-- Whether the search function asks for the end vertex. -/
def requiresTerminal : Bool :=
  match root.pathFunction with
  | .pathsBetween => true
  | .pathsTo => !root.reversePathsTo
  | .pathsFrom | .pathsAll => false

/-- `age_vle_context_should_emit_zero_bound` -/
def shouldEmitZeroBound (startId : GraphId) : Bool :=
  !(labelIdIsValid pattern.terminalEndpointLabelId &&
      getGraphidLabelId startId != pattern.terminalEndpointLabelId) &&
    (root.pathFunction != .pathsBetween || startId == root.endVertexId)

/-- `age_vle_context_has_zero_bound_start` -/
def hasZeroBoundStart (startId : GraphId) : Bool :=
  !pattern.isEmptyLengthRange && pattern.lower == 0 && shouldEmitZeroBound pattern root startId

/-- The vertices and edges of a walk in turn. -/
def graphidArray (startId : GraphId) (walk : List WalkStep) : List GraphId :=
  startId :: walk.flatMap fun step => [step.edgeId, step.nextVertexId]

/-- The container of a walk, in the order in which it is put out. -/
def walkContainer (startId : GraphId) (walk : List WalkStep) : List GraphId :=
  if root.reverseOutputPath then (graphidArray startId walk).reverse
  else graphidArray startId walk

/-- A walk along matching edges. -/
def IsTrail (direction : RelDir) : GraphId → List WalkStep → Prop
  | _, [] => True
  | vertexId, step :: rest =>
      step ∈ graph.candidates direction vertexId ∧ graph.edgeMatches step.edgeId = true ∧
        IsTrail direction step.nextVertexId rest

/-- The vertex that the step leads to has the label for its depth. -/
def LabelAccepts (pathLength : Nat) (vertexId : GraphId) : Prop :=
  labelIdIsValid (pattern.labelIdForTargetPathLength pathLength) = true →
    getGraphidLabelId vertexId = pattern.labelIdForTargetPathLength pathLength

/-- Every vertex of the walk has the label for its depth. -/
def LabelsAccepted : Nat → List WalkStep → Prop
  | _, [] => True
  | depth, step :: rest =>
      LabelAccepts pattern (depth + 1) step.nextVertexId ∧ LabelsAccepted (depth + 1) rest

/-- Within the bounds of the pattern. -/
def InRange (pathLength : Nat) : Prop :=
  pattern.lower ≤ pathLength ∧ (pattern.upperInfinite = true ∨ pathLength ≤ pattern.upper)

/-- What a search from a root is to find. -/
structure IsFound (startId : GraphId) (walk : List WalkStep) : Prop where
  nonempty : walk ≠ []
  isTrail : IsTrail graph root.direction startId walk
  distinct : (walk.map WalkStep.edgeId).Nodup
  inRange : InRange pattern walk.length
  labels : LabelsAccepted pattern 0 walk
  terminal : requiresTerminal root = true → walkEnd startId walk = root.endVertexId
  endpoint : labelIdIsValid pattern.terminalEndpointLabelId = true →
    root.reverseOutputPath = false →
      getGraphidLabelId (walkEnd startId walk) = pattern.terminalEndpointLabelId

variable {graph pattern}

theorem walkEnd_append (startId : GraphId) (walk : List WalkStep) (step : WalkStep) :
    walkEnd startId (walk ++ [step]) = step.nextVertexId := by
  simp [walkEnd]

theorem walkEnd_cons (startId : GraphId) (step : WalkStep) (rest : List WalkStep) :
    walkEnd startId (step :: rest) = walkEnd step.nextVertexId rest := by
  cases rest with
  | nil => rfl
  | cons next rest =>
      unfold walkEnd
      rw [List.getLast?_cons_cons, List.getLast?_eq_some_getLast (List.cons_ne_nil _ _)]
      rfl

theorem isTrail_append {direction : RelDir} {vertexId : GraphId} {walk : List WalkStep}
    {step : WalkStep} :
    IsTrail graph direction vertexId (walk ++ [step]) ↔
      IsTrail graph direction vertexId walk ∧
        step ∈ graph.candidates direction (walkEnd vertexId walk) ∧
        graph.edgeMatches step.edgeId = true := by
  induction walk generalizing vertexId with
  | nil => simp [IsTrail, walkEnd]
  | cons head rest hypothesis =>
      rw [List.cons_append, IsTrail, IsTrail, hypothesis, walkEnd_cons, and_assoc, and_assoc]

theorem labelsAccepted_append {depth : Nat} {walk : List WalkStep} {step : WalkStep} :
    LabelsAccepted pattern depth (walk ++ [step]) ↔
      LabelsAccepted pattern depth walk ∧
        LabelAccepts pattern (depth + walk.length + 1) step.nextVertexId := by
  induction walk generalizing depth with
  | nil => simp [LabelsAccepted]
  | cons head rest hypothesis =>
      rw [List.cons_append, LabelsAccepted, LabelsAccepted, hypothesis, and_assoc,
        List.length_cons, Nat.add_assoc depth 1, Nat.add_comm 1]

end Walks

end Age.Vle
