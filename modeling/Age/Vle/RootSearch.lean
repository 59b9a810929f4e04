import Age.Vle.Enumerate
import Age.Vle.Root

/-!
# The searches from a root

A root is searched on the frame arena, from one start vertex after the other.  The
sources of candidates stay the same for all searches of a grammar node, and what is
known of edges is kept from each search to the next.
-/

namespace Age.Vle

variable {Entry : Type} {graph : VleGraph}

def Offer.walkStep (offer : Offer Entry) : WalkStep where
  edgeId := offer.edgeId
  nextVertexId := offer.nextVertexId

/-- What the searches of a grammar node have in common.  `edges` are the edges of the loaded
graph in the order of their dense index; what is offered at a vertex are its candidates, in
whatever order and from whatever source. -/
structure VleSources (graph : VleGraph) (Entry : Type) where
  useLocal : Bool
  edges : List GraphId
  provider : RelDir → GraphId → List (ProviderPush Entry)
  storePathEdges : Bool
  iteratorPolicy : IteratorPolicy
  limits : Option ArenaLimits
  loaded : ∀ edge ∈ graph.edges, edge.id ∈ edges
  candidates : ∀ direction vertexId,
    (((provider direction vertexId).flatMap ProviderPush.offers).map Offer.walkStep).Perm
      (graph.candidates direction vertexId)

namespace VleSources

variable (sources : VleSources graph Entry)

/-- The edge state of a context that is newly built -/
def newEdgeState : EdgeState :=
  edgeStateInit sources.useLocal sources.edges.length

/-- One numbering: where edges get local numbers, packed lists offer none in this direction. -/
def OneNumbering (direction : RelDir) : Prop :=
  sources.useLocal = true → ∀ vertexId, ∀ push ∈ sources.provider direction vertexId,
    push.isPacked = true → push.offers = []

end VleSources

section Search

variable (sources : VleSources graph Entry) (pattern : VlePattern) (root : Root)

/-- The search from a start vertex.  `age_vle_context_init_acceptance` asks for the label of
the end vertex unless paths are put out in reverse. -/
def rootSearch (startId : GraphId) : Search Entry where
  startVertexId := startId
  terminalId := if requiresTerminal root then some root.endVertexId else none
  lower := pattern.lower
  upper := pattern.upper
  upperUnbounded := pattern.upperInfinite
  hasVertex := graph.vertices.contains
  missingVertexEligible := pattern.missingVertexEligible
  useLocal := sources.useLocal
  edges := sources.edges
  edgeMatches := graph.edgeMatches
  provider := sources.provider root.direction
  targetLabelId := pattern.labelIdForTargetPathLength
  acceptedLabelId := if root.reverseOutputPath then 0 else pattern.terminalEndpointLabelId

/-- `age_vle_build_container`: a path that is found has its edges on the parent chain. -/
def buildContainer (startId : GraphId) (state : TraversalState Entry) :
    Except TraversalError (List GraphId) := do
  let path ← state.chain state.activeFrameIndex
  return walkContainer root startId (path.map fun step => step.offer.walkStep)

/-- The containers of one start vertex, the zero-length path first, and what is then known of
edges.  `age_vle_traversal_state_reset` keeps the edge state; `none` when the fuel ends first. -/
def searchStart (fuel : Nat) (edgeState : EdgeState) (startId : GraphId) :
    Except TraversalError (Option (List (List GraphId) × EdgeState)) := do
  match ← (rootSearch sources pattern root startId).run (arenaOps sources.limits) fuel
      (traversalStateInit sources.storePathEdges sources.iteratorPolicy edgeState startId) with
  | none => return none
  | some (returns, final) =>
      let containers ← returns.mapM (buildContainer root startId)
      return some ((if hasZeroBoundStart pattern root startId then [[startId]] else []) ++
        containers, final.path.edgeState)

/-- `age_vle_iterator_next` until the search is complete: the start vertex, and the rest of
the vertex list where the path function goes on to it. -/
def iterateStarts (fuel : Nat) : EdgeState → GraphId → List GraphId →
    Except TraversalError (Option (List (List GraphId) × EdgeState))
  | edgeState, startId, [] => searchStart sources pattern root fuel edgeState startId
  | edgeState, startId, next :: rest => do
      match ← searchStart sources pattern root fuel edgeState startId with
      | none => return none
      | some (here, edgeState) =>
          if root.pathFunction = .pathsBetween ∨ root.pathFunction = .pathsFrom then
            return some (here, edgeState)
          else
            return (← iterateStarts fuel edgeState next rest).map fun (later, final) =>
              (here ++ later, final)

/-- The containers of a root, and what is then known of edges. -/
def iteratePaths (fuel : Nat) (edgeState : EdgeState) :
    Except TraversalError (Option (List (List GraphId) × EdgeState)) :=
  iterateStarts sources pattern root fuel edgeState root.startVertexId root.nextVertex

end Search

section Candidates

theorem VleGraph.ids_injective {edge other : VleEdge} (edgeMem : edge ∈ graph.edges)
    (otherMem : other ∈ graph.edges) (same : edge.id = other.id) : edge = other :=
  List.inj_on_of_nodup_map graph.edgeIds_nodup edgeMem otherMem same

/-- No edge is a candidate of a vertex twice. -/
theorem VleGraph.candidates_nodup (direction : RelDir) (vertexId : GraphId) :
    ((graph.candidates direction vertexId).map WalkStep.edgeId).Nodup := by
  have part (chosen : VleEdge → Prop) [DecidablePred chosen] :
      ((graph.edges.filter fun edge => chosen edge).map VleEdge.id).Nodup :=
    (List.filter_sublist.map VleEdge.id).nodup graph.edgeIds_nodup
  have apart {left right : VleEdge → Prop} [DecidablePred left] [DecidablePred right]
      (disjoint : ∀ edge, left edge → ¬right edge) {edgeId : GraphId}
      (isLeft : edgeId ∈ (graph.edges.filter fun edge => left edge).map VleEdge.id)
      (isRight : edgeId ∈ (graph.edges.filter fun edge => right edge).map VleEdge.id) : False := by
    obtain ⟨edge, edgeMem, rfl⟩ := List.mem_map.1 isLeft
    obtain ⟨other, otherMem, same⟩ := List.mem_map.1 isRight
    obtain ⟨inGraph, chosen⟩ := List.mem_filter.1 edgeMem
    obtain ⟨otherInGraph, otherChosen⟩ := List.mem_filter.1 otherMem
    obtain rfl := VleGraph.ids_injective otherInGraph inGraph same
    exact disjoint other (of_decide_eq_true chosen) (of_decide_eq_true otherChosen)
  have ids (direction : RelDir) : (graph.candidates direction vertexId).map WalkStep.edgeId =
      ((if direction ≠ .left then (graph.adjEdgesOut vertexId).map VleEdge.id else []) ++
        (if direction ≠ .right then (graph.adjEdgesIn vertexId).map VleEdge.id else [])) ++
        (graph.adjEdgesSelf vertexId).map VleEdge.id := by
    cases direction <;> simp [candidates] <;> rfl
  have self : ((graph.adjEdgesSelf vertexId).map VleEdge.id).Nodup := part _
  have out : (if direction ≠ .left then (graph.adjEdgesOut vertexId).map VleEdge.id
      else []).Nodup := by
    split_ifs
    · exact part _
    · exact List.nodup_nil
  have incoming : (if direction ≠ .right then (graph.adjEdgesIn vertexId).map VleEdge.id
      else []).Nodup := by
    split_ifs
    · exact part _
    · exact List.nodup_nil
  rw [ids]
  refine (out.append incoming ?_).append self ?_
  · intro edgeId isOut isIn
    split_ifs at isOut isIn
    · exact apart (fun edge left right => left.2 right.1) isOut isIn
    all_goals simp at isOut isIn
  · intro edgeId either isSelf
    rcases List.mem_append.1 either with isOut | isIn
    · split_ifs at isOut
      · exact apart (fun edge left right => left.2 right.2) isOut isSelf
      · cases isOut
    · split_ifs at isIn
      · exact apart (fun edge left right => left.2 right.1) isIn isSelf
      · cases isIn

end Candidates

section Bridge

variable {sources : VleSources graph Entry} {pattern : VlePattern} {root : Root}
  {startId : GraphId}

theorem mem_candidates_of_offer {vertexId : GraphId} {offer : Offer Entry}
    (offered : offer ∈ (rootSearch sources pattern root startId).offers vertexId) :
    offer.walkStep ∈ graph.candidates root.direction vertexId :=
  (sources.candidates root.direction vertexId).mem_iff.1 (List.mem_map_of_mem offered)

theorem exists_offer {vertexId : GraphId} {step : WalkStep}
    (isStep : step ∈ graph.candidates root.direction vertexId) :
    ∃ offer ∈ (rootSearch sources pattern root startId).offers vertexId,
      offer.walkStep = step :=
  List.mem_map.1 ((sources.candidates root.direction vertexId).mem_iff.2 isStep)

theorem rootSearch_offers (sources : VleSources graph Entry) (pattern : VlePattern) (root : Root)
    (startId : GraphId) : (rootSearch sources pattern root startId).Offers where
  edges vertexId offer offered := by
    obtain ⟨edge, inGraph, same, -⟩ := VleGraph.mem_candidates.1 (mem_candidates_of_offer offered)
    have isEdge := sources.loaded edge inGraph
    rw [same] at isEdge
    exact isEdge
  once vertexId := by
    have ids := (sources.candidates root.direction vertexId).map WalkStep.edgeId
    rw [List.map_map] at ids
    exact (List.filter_sublist.map Offer.edgeId).nodup
      (ids.nodup_iff.2 (VleGraph.candidates_nodup root.direction vertexId))
  ends := by
    refine .inr fun vertexId offer offered => ?_
    obtain ⟨edge, inGraph, -, joins⟩ := VleGraph.mem_candidates.1 (mem_candidates_of_offer offered)
    obtain ⟨here, there⟩ := VleGraph.mem_vertices_of_joins inGraph joins
    exact ⟨List.contains_iff_mem.2 here, List.contains_iff_mem.2 there⟩

theorem isTrail_of_isWalk {vertexId : GraphId} {walk : List (Offer Entry)}
    (isWalk : (rootSearch sources pattern root startId).IsWalk vertexId walk) :
    IsTrail graph root.direction vertexId (walk.map Offer.walkStep) := by
  induction walk generalizing vertexId with
  | nil => trivial
  | cons offer rest inductionHypothesis =>
      exact ⟨mem_candidates_of_offer isWalk.1, isWalk.2.1, inductionHypothesis isWalk.2.2⟩

theorem exists_isWalk {vertexId : GraphId} {steps : List WalkStep}
    (isTrail : IsTrail graph root.direction vertexId steps) :
    ∃ walk : List (Offer Entry), walk.map Offer.walkStep = steps ∧
      (rootSearch sources pattern root startId).IsWalk vertexId walk := by
  induction steps generalizing vertexId with
  | nil => exact ⟨[], rfl, trivial⟩
  | cons step rest inductionHypothesis =>
      obtain ⟨offer, offered, rfl⟩ := @exists_offer _ _ sources pattern _ startId _ _ isTrail.1
      obtain ⟨walk, rfl, isWalk⟩ := inductionHypothesis isTrail.2.2
      exact ⟨offer :: walk, rfl, offered, isTrail.2.1, isWalk⟩

theorem endVertex_eq (walk : List (Offer Entry)) :
    (rootSearch sources pattern root startId).endVertex walk =
      walkEnd startId (walk.map Offer.walkStep) := by
  rw [Search.endVertex, walkEnd, List.getLast?_map, Option.map_map]
  rfl

theorem labelAccepts_search_iff (pathLength : Nat) (vertexId : GraphId) :
    (rootSearch sources pattern root startId).labelAccepts pathLength vertexId = true ↔
      LabelAccepts pattern pathLength vertexId := by
  simp only [Search.labelAccepts, rootSearch, LabelAccepts, Bool.or_eq_true, Bool.not_eq_true',
    beq_iff_eq]
  cases labelIdIsValid (pattern.labelIdForTargetPathLength pathLength) <;> simp

theorem labelled_iff (walk : List (Offer Entry)) :
    (rootSearch sources pattern root startId).Labelled walk ↔
      LabelsAccepted pattern 0 (walk.map Offer.walkStep) := by
  induction walk using List.reverseRecOn with
  | nil => simp [Search.Labelled, LabelsAccepted]
  | append_singleton walk offer inductionHypothesis =>
      rw [Search.labelled_append, inductionHypothesis, List.map_append, List.map_singleton,
        labelsAccepted_append, labelAccepts_search_iff, List.length_map, Nat.zero_add]
      rfl

/-- An answer of the search on the arena is a walk that the root is to find. -/
theorem isAnswer_iff (walk : List (Offer Entry)) :
    (rootSearch sources pattern root startId).IsAnswer walk ↔
      (rootSearch sources pattern root startId).IsWalk startId walk ∧
        IsFound graph pattern root startId (walk.map Offer.walkStep) := by
  have ids : (walk.map Offer.walkStep).map WalkStep.edgeId = walk.map Offer.edgeId := by
    rw [List.map_map]
    rfl
  have terminal : (∀ terminalId ∈ (rootSearch sources pattern root startId).terminalId,
      walkEnd startId (walk.map Offer.walkStep) = terminalId) ↔
      (requiresTerminal root = true →
        walkEnd startId (walk.map Offer.walkStep) = root.endVertexId) := by
    cases required : requiresTerminal root <;> simp [rootSearch, required]
  have endpoint : (labelIdIsValid (rootSearch sources pattern root startId).acceptedLabelId = true →
      getGraphidLabelId (walkEnd startId (walk.map Offer.walkStep)) =
        (rootSearch sources pattern root startId).acceptedLabelId) ↔
      (labelIdIsValid pattern.terminalEndpointLabelId = true → root.reverseOutputPath = false →
        getGraphidLabelId (walkEnd startId (walk.map Offer.walkStep)) =
          pattern.terminalEndpointLabelId) := by
    have notValid : labelIdIsValid 0 = false := rfl
    cases reversed : root.reverseOutputPath <;> simp [rootSearch, reversed, notValid]
  constructor
  · intro answer
    have lastLabel := answer.accepted
    have isTerminal := answer.terminal
    rw [endVertex_eq] at lastLabel isTerminal
    refine ⟨answer.isWalk, ⟨?_, isTrail_of_isWalk answer.isWalk, ?_, ⟨?_, ?_⟩, ?_, ?_, ?_⟩⟩
    · intro empty
      have nonempty := answer.nonempty
      rw [List.map_eq_nil_iff.1 empty] at nonempty
      cases nonempty
    · rw [ids]
      exact answer.distinct
    · rw [List.length_map]
      exact answer.lower
    · rw [List.length_map]
      exact answer.upper
    · exact (labelled_iff walk).1 answer.labelled
    · exact terminal.1 isTerminal
    · exact endpoint.1 lastLabel
  · rintro ⟨isWalk, found⟩
    have inRange := found.inRange
    rw [InRange, List.length_map] at inRange
    refine ⟨isWalk, ?_, ?_, inRange.1, inRange.2, ?_, (labelled_iff walk).2 found.labels, ?_⟩
    · rw [← ids]
      exact found.distinct
    · rw [← List.length_map Offer.walkStep]
      exact List.length_pos_iff.2 found.nonempty
    · rw [endVertex_eq]
      exact terminal.2 found.terminal
    · rw [endVertex_eq]
      exact endpoint.2 found.endpoint

end Bridge

section Iterate

variable {sources : VleSources graph Entry} {pattern : VlePattern} {root : Root}

variable (sources) in
/-- An edge state that a search of these sources can begin with -/
def VleSources.Fresh (edgeState : EdgeState) : Prop :=
  ∀ pattern root startId, (rootSearch sources pattern root startId).Fresh edgeState

theorem VleSources.fresh_new (sources : VleSources graph Entry) :
    sources.Fresh sources.newEdgeState := fun pattern root startId =>
  Search.fresh_init (rootSearch sources pattern root startId)

/-- What is known of edges does not depend on the root. -/
theorem VleSources.fresh_of_search {startId : GraphId} {edgeState : EdgeState}
    (fresh : (rootSearch sources pattern root startId).Fresh edgeState) :
    sources.Fresh edgeState := fun _ _ _ =>
  ⟨⟨fresh.known.inside, fresh.known.injective, fresh.known.checked⟩, fresh.unused⟩

/-- The container that is built where the search returns is that of the walk. -/
theorem buildContainers_ok {storePathEdges : Bool} {startId : GraphId}
    {returns : List (TraversalState Entry)} {walks : List (List (Offer Entry))}
    (describe : List.Forall₂ (TraversalState.Describes · storePathEdges startId) returns walks) :
    returns.mapM (buildContainer root startId) =
      .ok (walks.map fun walk => walkContainer root startId (walk.map Offer.walkStep)) := by
  induction describe with
  | nil => rfl
  | @cons state walk _ _ first _ inductionHypothesis =>
      obtain ⟨path, chain, rfl⟩ := first.chain
      have built : buildContainer root startId state =
          .ok (walkContainer root startId ((path.map PathStep.offer).map Offer.walkStep)) := by
        rw [buildContainer, chain, List.map_map]
        rfl
      rw [List.mapM_cons, built, inductionHypothesis]
      rfl

variable (graph pattern root) in
/-- The container of the zero-length path, or of a walk that is to be found from the start. -/
def IsContainerFrom (startId : GraphId) (container : List GraphId) : Prop :=
  (hasZeroBoundStart pattern root startId = true ∧ container = [startId]) ∨
    ∃ walk, IsFound graph pattern root startId walk ∧
      container = walkContainer root startId walk

/-- One search: what is put out, and an edge state for the next one. -/
theorem searchStart_ok (numbering : sources.OneNumbering root.direction) (startId : GraphId)
    {edgeState : EdgeState} (fresh : sources.Fresh edgeState) {fuel : Nat}
    (enough : (rootSearch sources pattern root startId).loaded.length < fuel) :
    ∃ containers after, searchStart sources pattern root fuel edgeState startId =
        .ok (some (containers, after)) ∧ sources.Fresh after ∧
      ∀ container, container ∈ containers ↔
        IsContainerFrom graph pattern root startId container := by
  obtain ⟨returns, final, walks, run, describe, -, answers, after⟩ :=
    Search.run_fresh (rootSearch_offers sources pattern root startId) numbering sources.limits
      sources.storePathEdges sources.iteratorPolicy (fresh pattern root startId) enough
  refine ⟨(if hasZeroBoundStart pattern root startId then [[startId]] else []) ++
    walks.map fun walk => walkContainer root startId (walk.map Offer.walkStep),
    final.path.edgeState, ?_, VleSources.fresh_of_search after, fun container => ?_⟩
  · have start : (rootSearch sources pattern root startId).startVertexId = startId := rfl
    rw [start] at run describe
    rw [searchStart, run]
    simp only [bind, Except.bind, buildContainers_ok describe, pure, Except.pure]
  · rw [List.mem_append, List.mem_map]
    refine or_congr ?_ ⟨?_, ?_⟩
    · cases hasZeroBoundStart pattern root startId <;> simp
    · rintro ⟨walk, inWalks, rfl⟩
      exact ⟨_, ((isAnswer_iff walk).1 ((answers walk).1 inWalks)).2, rfl⟩
    · rintro ⟨steps, found, rfl⟩
      obtain ⟨walk, rfl, isWalk⟩ := @exists_isWalk _ _ sources pattern _ startId _ _ found.isTrail
      exact ⟨walk, (answers walk).2 ((isAnswer_iff walk).2 ⟨isWalk, found⟩), rfl⟩

/-- A root whose search is done with its start vertex -/
def SearchesOnce (root : Root) : Prop :=
  root.nextVertex = [] ∨ root.pathFunction = .pathsBetween ∨ root.pathFunction = .pathsFrom

/-- The searches from all start vertices come to their end, and each thing that is put out is
the container of one of them. -/
theorem iterateStarts_ok (numbering : sources.OneNumbering root.direction) (startId : GraphId)
    (vertices : List GraphId) :
    ∃ enough, ∀ fuel, enough ≤ fuel → ∀ edgeState, sources.Fresh edgeState →
      ∃ containers after, iterateStarts sources pattern root fuel edgeState startId vertices =
          .ok (some (containers, after)) ∧ sources.Fresh after ∧
        ∀ container ∈ containers, ∃ start, IsContainerFrom graph pattern root start container := by
  induction vertices generalizing startId with
  | nil =>
      refine ⟨(rootSearch sources pattern root startId).loaded.length + 1,
        fun fuel bound edgeState fresh => ?_⟩
      obtain ⟨containers, after, ran, later, members⟩ :=
        @searchStart_ok _ _ sources pattern root numbering startId edgeState fresh fuel bound
      exact ⟨containers, after, ran, later,
        fun container inside => ⟨startId, (members container).1 inside⟩⟩
  | cons next rest inductionHypothesis =>
      obtain ⟨enoughRest, searchRest⟩ := inductionHypothesis next
      refine ⟨max ((rootSearch sources pattern root startId).loaded.length + 1) enoughRest,
        fun fuel bound edgeState fresh => ?_⟩
      obtain ⟨here, middle, ran, freshMiddle, members⟩ :=
        @searchStart_ok _ _ sources pattern root numbering startId edgeState fresh fuel (by omega)
      obtain ⟨later, after, ranLater, freshAfter, membersLater⟩ :=
        searchRest fuel (by omega) middle freshMiddle
      have isHere (container : List GraphId) (inside : container ∈ here) :
          ∃ start, IsContainerFrom graph pattern root start container :=
        ⟨startId, (members container).1 inside⟩
      rw [iterateStarts, ran]
      simp only [bind, Except.bind, ranLater]
      by_cases single : root.pathFunction = .pathsBetween ∨ root.pathFunction = .pathsFrom
      · exact ⟨here, middle, if_pos single, freshMiddle, isHere⟩
      · refine ⟨here ++ later, after, if_neg single, freshAfter, fun container inside => ?_⟩
        rcases List.mem_append.1 inside with isFirst | isLater
        · exact isHere container isFirst
        · exact membersLater container isLater

end Iterate

section Packed

/-- A context without indexes: the dense edge state, and packed lists alone. -/
def packedSources (graph : VleGraph) : VleSources graph Unit where
  useLocal := false
  edges := graph.edges.map VleEdge.id
  provider direction vertexId :=
    [.batch true ((graph.candidates direction vertexId).map fun step =>
      ⟨step.edgeId, step.nextVertexId, none⟩)]
  storePathEdges := true
  iteratorPolicy := .lifo
  limits := none
  loaded _ inGraph := List.mem_map_of_mem inGraph
  candidates direction vertexId := by
    have same : (Offer.walkStep ∘ fun step : WalkStep =>
        (⟨step.edgeId, step.nextVertexId, none⟩ : Offer Unit)) = id := rfl
    simp [ProviderPush.offers, same]

theorem packedSources_oneNumbering (graph : VleGraph) (direction : RelDir) :
    (packedSources graph).OneNumbering direction :=
  fun impossible => absurd impossible Bool.false_ne_true

/-- A context whose outgoing edges, loops included, come from an adjacency index and get local
numbers, while the incoming ones come from the packed lists. -/
def outgoingIndexedSources (graph : VleGraph) : VleSources graph Unit where
  useLocal := true
  edges := graph.edges.map VleEdge.id
  provider direction vertexId :=
    let offers (edges : List VleEdge) (next : VleEdge → GraphId) : List (Offer Unit) :=
      edges.map fun edge => ⟨edge.id, next edge, none⟩
    [.batch false ((if direction ≠ .left then offers (graph.adjEdgesOut vertexId) VleEdge.endId
        else []) ++ offers (graph.adjEdgesSelf vertexId) VleEdge.endId),
      .batch true (if direction ≠ .right then
        offers (graph.adjEdgesIn vertexId) VleEdge.startId else [])]
  storePathEdges := true
  iteratorPolicy := .lifo
  limits := none
  loaded _ inGraph := List.mem_map_of_mem inGraph
  candidates direction vertexId := by
    have listed (edges : List VleEdge) (next : VleEdge → GraphId) :
        (edges.map fun edge => (⟨edge.id, next edge, none⟩ : Offer Unit)).map Offer.walkStep =
          edges.map fun edge => ⟨edge.id, next edge⟩ := by
      rw [List.map_map]
      rfl
    cases direction <;>
      simp only [ProviderPush.offers, List.flatMap_cons, List.flatMap_nil, List.append_nil,
        List.map_append, listed, VleGraph.candidates, ne_eq, not_true_eq_false, not_false_eq_true,
        if_true, if_false, reduceCtorEq, List.nil_append]
    · exact List.perm_append_comm
    · exact List.Perm.refl _
    · rw [List.append_assoc, List.append_assoc]
      exact List.perm_append_comm.append_left _

end Packed

end Age.Vle
