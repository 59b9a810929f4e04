import Age.Vle.RootSearch

/-!
# The choice of the root

A search lists the trails from its start vertex, and a trail read backwards is a
trail of the reversed direction.  A label that restricts the end vertex is where
the two roots of a pattern with both ends part.
-/

namespace Age.Vle

section Reversal

variable {graph : VleGraph} {pattern : VlePattern}

/-- The walk read backwards, from its end to the vertex where it starts. -/
def reverseWalk : GraphId → List WalkStep → List WalkStep
  | _, [] => []
  | vertexId, step :: rest => reverseWalk step.nextVertexId rest ++ [⟨step.edgeId, vertexId⟩]

@[simp]
theorem reverseWalk_length (vertexId : GraphId) (walk : List WalkStep) :
    (reverseWalk vertexId walk).length = walk.length := by
  induction walk generalizing vertexId with
  | nil => rfl
  | cons step rest hypothesis =>
      rw [reverseWalk, List.length_append, hypothesis, List.length_singleton, List.length_cons]

theorem reverseWalk_edgeIds (vertexId : GraphId) (walk : List WalkStep) :
    (reverseWalk vertexId walk).map WalkStep.edgeId = (walk.map WalkStep.edgeId).reverse := by
  induction walk generalizing vertexId with
  | nil => rfl
  | cons step rest hypothesis =>
      rw [reverseWalk, List.map_append, hypothesis, List.map_singleton, List.map_cons,
        List.reverse_cons]

theorem walkEnd_reverseWalk (vertexId : GraphId) (walk : List WalkStep) :
    walkEnd (walkEnd vertexId walk) (reverseWalk vertexId walk) = vertexId := by
  cases walk with
  | nil => rfl
  | cons step rest => exact walkEnd_append _ _ _

theorem mem_candidates_reversed {direction : RelDir} {source target edgeId : GraphId} :
    ⟨edgeId, source⟩ ∈ graph.candidates direction.reversed target ↔
      ⟨edgeId, target⟩ ∈ graph.candidates direction source := by
  simp only [VleGraph.mem_candidates, VleGraph.joins_reversed]

theorem isTrail_reverseWalk {direction : RelDir} {vertexId : GraphId} {walk : List WalkStep}
    (isTrail : IsTrail graph direction vertexId walk) :
    IsTrail graph direction.reversed (walkEnd vertexId walk) (reverseWalk vertexId walk) := by
  induction walk generalizing vertexId with
  | nil => simp [IsTrail, reverseWalk]
  | cons step rest hypothesis =>
      obtain ⟨isStep, isMatch, later⟩ := isTrail
      rw [walkEnd_cons, reverseWalk, isTrail_append, walkEnd_reverseWalk]
      exact ⟨hypothesis later, mem_candidates_reversed.2 isStep, isMatch⟩

theorem graphidArray_reverseWalk (vertexId : GraphId) (walk : List WalkStep) :
    graphidArray (walkEnd vertexId walk) (reverseWalk vertexId walk) =
      (graphidArray vertexId walk).reverse := by
  induction walk generalizing vertexId with
  | nil => rfl
  | cons step rest hypothesis =>
      have tail := hypothesis step.nextVertexId
      unfold graphidArray at tail ⊢
      rw [walkEnd_cons, reverseWalk, List.flatMap_append, ← List.cons_append, tail]
      simp

variable (graph pattern)

/-- A path of the pattern from one vertex to another: no edge twice, of a length that is
not zero and within the bounds. -/
structure IsPath (direction : RelDir) (startId endId : GraphId) (walk : List WalkStep) : Prop where
  nonempty : walk ≠ []
  isTrail : IsTrail graph direction startId walk
  distinct : (walk.map WalkStep.edgeId).Nodup
  inRange : InRange pattern walk.length
  terminal : walkEnd startId walk = endId

variable {graph pattern}

theorem IsPath.reverse {direction : RelDir} {startId endId : GraphId} {walk : List WalkStep}
    (path : IsPath graph pattern direction startId endId walk) :
    IsPath graph pattern direction.reversed endId startId (reverseWalk startId walk) where
  nonempty := fun empty => path.nonempty (List.length_eq_zero_iff.1 (by
    rw [← reverseWalk_length startId, empty, List.length_nil]))
  isTrail := path.terminal ▸ isTrail_reverseWalk path.isTrail
  distinct := by
    rw [reverseWalk_edgeIds]
    exact List.nodup_reverse.2 path.distinct
  inRange := by
    rw [reverseWalk_length]
    exact path.inRange
  terminal := path.terminal ▸ walkEnd_reverseWalk startId walk

end Reversal

section TerminalLabel

variable (pattern : VlePattern)

/-- The label of the end vertex. -/
def endLabelId : Int :=
  if labelIdIsValid pattern.terminalLabelId then pattern.terminalLabelId
  else pattern.terminalEndpointLabelId

/-- All paths have the same length. -/
def hasFixedLength : Bool :=
  !pattern.upperInfinite && pattern.lower == pattern.upper

variable {pattern}

end TerminalLabel

section RootChoice

variable {graph : VleGraph} {pattern : VlePattern} {startId endId : GraphId}

/-- Where the two roots find the same: no label is asked for, there is no path, or the
start vertex has the label when it is asked for just if the end vertex has it. -/
def RootInvisible (graph : VleGraph) (pattern : VlePattern) (startId endId : GraphId) : Prop :=
  labelIdIsValid (endLabelId pattern) = false ∨
    (∀ walk, ¬IsPath graph pattern pattern.direction startId endId walk) ∨
    (getGraphidLabelId endId = endLabelId pattern ↔
      (hasFixedLength pattern = true → getGraphidLabelId startId = endLabelId pattern))

/-- The container of the zero-length path, or of a walk that the search is to find. -/
def IsContainer (graph : VleGraph) (pattern : VlePattern) (root : Root)
    (container : List GraphId) : Prop :=
  IsContainerFrom graph pattern root root.startVertexId container

end RootChoice

section Example

/-- Two edges out of a vertex, one of which leads on to a vertex of another label. -/
def forkGraph : VleGraph where
  vertices := [844424930131969, 844424930131970, 844424930131971, 1125899906842625]
  edges := [⟨1407374883553281, 844424930131969, 844424930131970⟩,
    ⟨1407374883553282, 844424930131969, 844424930131971⟩,
    ⟨1407374883553283, 844424930131970, 1125899906842625⟩]
  edgeMatches _ := true
  edgeIds_nodup := by decide +kernel
  endpoints := by decide +kernel

/-- `-[:KNOWS*2..2]->(b:Person)` -/
def twoHops : VlePattern where
  direction := .right
  lower := 2
  upper := 2
  upperInfinite := false
  terminalLabelId := 0
  terminalEndpointLabelId := 4
  hasEdgeMetadata := true
  skipsVertexMetadata := false
  missingVertexEligible := true

/-- One edge from the first vertex to the second, one back, and one to a third. -/
def backGraph : VleGraph where
  vertices := [844424930131969, 844424930131970, 844424930131971]
  edges := [⟨1407374883553285, 844424930131970, 844424930131969⟩,
    ⟨1407374883553286, 844424930131969, 844424930131970⟩,
    ⟨1407374883553287, 844424930131969, 844424930131971⟩]
  edgeMatches _ := true
  edgeIds_nodup := by decide +kernel
  endpoints := by decide +kernel

/-- `-[*1..1]-` -/
def undirectedHop : VlePattern :=
  { twoHops with direction := .none, lower := 1, upper := 1, terminalEndpointLabelId := 0 }

/-- With two numberings, the choice of the root is seen where no label is asked for: from the
second vertex, the packed edge has a dense index that the local edge state does not have. -/
theorem rootChoice_two_numberings :
    RootInvisible backGraph undirectedHop 844424930131969 844424930131970 ∧
      initRootFromSetup backGraph undirectedHop (some 844424930131969) (some 844424930131970) =
        .ok (betweenRoot backGraph undirectedHop 844424930131969 844424930131970).swapped ∧
      (iteratePaths (outgoingIndexedSources backGraph) undirectedHop
        (betweenRoot backGraph undirectedHop 844424930131969 844424930131970) 10
        (outgoingIndexedSources backGraph).newEdgeState).map (Option.map Prod.fst) =
          .ok (some [[844424930131969, 1407374883553285, 844424930131970],
            [844424930131969, 1407374883553286, 844424930131970]]) ∧
      (iteratePaths (outgoingIndexedSources backGraph) undirectedHop
        (betweenRoot backGraph undirectedHop 844424930131969 844424930131970).swapped 10
        (outgoingIndexedSources backGraph).newEdgeState).map (Option.map Prod.fst) =
          .error .invalidEdgeIndex := by
  refine ⟨.inl ?_, ?_, ?_, ?_⟩ <;> decide +kernel

end Example

end Age.Vle
