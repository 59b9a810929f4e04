import Age.Vle.Simulation

/-!
# Finding paths

`load_initial_dfs_stacks`, `dfs_find_a_path_from` and `dfs_find_a_path_between`
of `age_vle.c`, over the operations of a traversal.  The candidate provider is a
parameter; terminal property predicates are not asked for.
-/

namespace Age.Vle

/-- The operations that the search uses of a traversal. -/
structure TraversalOps (State Entry : Type) where
  pathDepth : State → Nat
  localEdgeIndex : State → GraphId → Nat × State
  applyMatch : State → Nat → Bool → Except TraversalError State
  pushCandidate : State → Candidate Entry → Except TraversalError State
  pushBatch : State → Int → List (Candidate Entry) → Except TraversalError State
  consume : State → Except TraversalError (Option (Step Entry) × State)

/-- An edge that a provider offers at a vertex, and where it leads. -/
structure Offer (Entry : Type) where
  edgeId : GraphId
  nextVertexId : GraphId
  nextVertexEntry : Option Entry
  deriving DecidableEq, Repr

/-- Candidates are pushed one by one or as a batch.  Those of packed lists carry the dense
index of the loaded graph. -/
inductive ProviderPush (Entry : Type) where
  | single (packed : Bool) (offer : Offer Entry)
  | batch (packed : Bool) (offers : List (Offer Entry))
  deriving DecidableEq, Repr

def ProviderPush.offers {Entry : Type} : ProviderPush Entry → List (Offer Entry)
  | single _ offer => [offer]
  | batch _ offers => offers

def ProviderPush.isPacked {Entry : Type} : ProviderPush Entry → Bool
  | single packed _ => packed
  | batch packed _ => packed

/-- The part of `VLE_local_context` that a search reads.  `edges` are the edges
of the graph in the order of their dense index; a label id that is not valid
restricts nothing. -/
structure Search (Entry : Type) where
  startVertexId : GraphId
  terminalId : Option GraphId
  lower : Nat
  upper : Nat
  upperUnbounded : Bool
  hasVertex : GraphId → Bool
  missingVertexEligible : Bool
  useLocal : Bool
  edges : List GraphId
  edgeMatches : GraphId → Bool
  provider : GraphId → List (ProviderPush Entry)
  /-- `age_vle_context_label_id_for_target_path_length` -/
  targetLabelId : Nat → Int
  /-- the label that the acceptance of a path asks of its last vertex -/
  acceptedLabelId : Int

namespace Search

variable {State Entry : Type} (search : Search Entry) (ops : TraversalOps State Entry)

/-- `age_vle_context_is_empty_length_range` -/
def isEmptyLengthRange : Bool :=
  !search.upperUnbounded && search.upper < search.lower

/-- `age_vle_context_is_zero_length_only` -/
def isZeroLengthOnly : Bool :=
  search.lower == 0 && !search.upperUnbounded && search.upper == 0

/-- `age_vle_context_reached_upper_bound` -/
def reachedUpperBound (pathLength : Nat) : Bool :=
  !search.upperUnbounded && search.upper ≤ pathLength

/-- `age_vle_accepts_path` -/
def acceptsStep (step : Step Entry) : Bool :=
  search.terminalId.all (fun terminalId => step.vertexId == terminalId) &&
    (!labelIdIsValid search.acceptedLabelId ||
      getGraphidLabelId step.vertexId == search.acceptedLabelId) &&
    search.lower ≤ step.pathLength && (search.upperUnbounded || step.pathLength ≤ search.upper)

/-- `age_vle_terminal_over_upper_bound` -/
def stepOverUpperBound (step : Step Entry) : Bool :=
  search.terminalId.any (fun terminalId => step.vertexId == terminalId) &&
    !search.upperUnbounded && search.upper < step.pathLength

/-- The candidate of an offer: its number, and whether the edge matches. -/
def offerCandidate (packed : Bool) (state : State) (offer : Offer Entry) :
    Except TraversalError (Candidate Entry × State) := do
  let (edgeIndex, state) :=
    if search.useLocal && !packed then ops.localEdgeIndex state offer.edgeId
    else (search.edges.idxOf offer.edgeId, state)
  let state ← ops.applyMatch state edgeIndex (search.edgeMatches offer.edgeId)
  return ({
    edgeId := offer.edgeId
    edgeIndex := edgeIndex
    pathLength := ops.pathDepth state + 1
    nextVertexId := offer.nextVertexId
    nextVertexEntry := offer.nextVertexEntry }, state)

def offerCandidates (packed : Bool) : State → List (Offer Entry) →
    Except TraversalError (List (Candidate Entry) × State)
  | state, [] => .ok ([], state)
  | state, offer :: rest => do
      let (candidate, state) ← search.offerCandidate ops packed state offer
      let (candidates, state) ← offerCandidates packed state rest
      return (candidate :: candidates, state)

/-- `age_vle_context_push_candidate_if_matched` and, for a batch, the label of its first
candidate's length -/
def runPush (state : State) : ProviderPush Entry → Except TraversalError State
  | .single packed offer => do
      let (candidate, state) ← search.offerCandidate ops packed state offer
      if targetLabelAccepts (search.targetLabelId candidate.pathLength) candidate then
        ops.pushCandidate state candidate
      else return state
  | .batch packed offers => do
      let (candidates, state) ← search.offerCandidates ops packed state offers
      ops.pushBatch state
        (search.targetLabelId ((candidates.head?.map Candidate.pathLength).getD 0)) candidates

/-- `add_valid_vertex_edges` -/
def addValidVertexEdges (state : State) (vertexId : GraphId) : Except TraversalError State :=
  (search.provider vertexId).foldlM (search.runPush ops) state

/-- `load_initial_dfs_stacks` after the reset -/
def loadInitialDfsStacks (state : State) : Except TraversalError State :=
  if search.isEmptyLengthRange || search.isZeroLengthOnly then .ok state
  else if !search.hasVertex search.startVertexId then
    if search.missingVertexEligible then
      search.addValidVertexEdges ops state search.startVertexId
    else .ok state
  else if search.terminalId.any fun terminalId =>
      terminalId != search.startVertexId && !search.hasVertex terminalId then .ok state
  else search.addValidVertexEdges ops state search.startVertexId

/-- `extend_dfs_from_vertex_if_needed` -/
def extendDfsFromVertexIfNeeded (state : State) (step : Step Entry) :
    Except TraversalError State :=
  if search.reachedUpperBound step.pathLength then .ok state
  else search.addValidVertexEdges ops state step.vertexId

/-- `dfs_find_a_path_from`, and `dfs_find_a_path_between` when a terminal vertex
is required; `none` when the fuel ends first. -/
def dfsFindAPath : Nat → State → Except TraversalError (Option (Bool × State))
  | 0, _ => .ok none
  | fuel + 1, state => do
      let (step, state) ← ops.consume state
      match step with
      | none => return some (false, state)
      | some step =>
          if search.stepOverUpperBound step then dfsFindAPath fuel state
          else
            let state ← search.extendDfsFromVertexIfNeeded ops state step
            if search.acceptsStep step then return some (true, state)
            else dfsFindAPath fuel state

/-- Successive calls until one finds no path: the state at each return. -/
def dfsFindAllPaths (fuel : Nat) : Nat → State →
    Except TraversalError (Option (List State × State))
  | 0, _ => .ok none
  | calls + 1, state => do
      match ← search.dfsFindAPath ops fuel state with
      | none => return none
      | some (false, state) => return some ([], state)
      | some (true, state) =>
          return (← dfsFindAllPaths fuel calls state).map fun (found, final) =>
            (state :: found, final)

/-- A whole search: load the first edges, then find paths until there are none. -/
def run (fuel : Nat) (state : State) : Except TraversalError (Option (List State × State)) := do
  let state ← search.loadInitialDfsStacks ops state
  search.dfsFindAllPaths ops fuel fuel state

end Search

section Instances

variable {Entry : Type}

/-- The traversal on the frame arena. -/
def arenaOps (limits : Option ArenaLimits) : TraversalOps (TraversalState Entry) Entry where
  pathDepth state := state.path.pathDepth
  localEdgeIndex state edgeId :=
    let (index, edgeState) := state.path.edgeState.getOrCreateIndex edgeId
    (index, { state with path := { state.path with edgeState := edgeState } })
  applyMatch state edgeIndex matched :=
    (state.path.edgeState.applyCandidateMatchResult edgeIndex matched).map fun edgeState =>
      { state with path := { state.path with edgeState := edgeState } }
  pushCandidate state candidate := (pushCandidateIfMatched state candidate).map Prod.snd
  pushBatch state targetLabelId candidates :=
    (pushCandidateBatchIfMatched state candidates targetLabelId).map Prod.snd
  consume := consumeNextFrame limits

/-- The traversal on paths. -/
def pathOps : TraversalOps (PathMachine Entry) Entry where
  pathDepth machine := machine.path.pathDepth
  localEdgeIndex machine edgeId :=
    let (index, edgeState) := machine.path.edgeState.getOrCreateIndex edgeId
    (index, { machine with path := { machine.path with edgeState := edgeState } })
  applyMatch machine edgeIndex matched :=
    (machine.path.edgeState.applyCandidateMatchResult edgeIndex matched).map fun edgeState =>
      { machine with path := { machine.path with edgeState := edgeState } }
  pushCandidate machine candidate := (machine.pushCandidate candidate).map Prod.snd
  pushBatch machine targetLabelId candidates :=
    (machine.pushBatch targetLabelId candidates).map Prod.snd
  consume := PathMachine.consumeNext

variable {search : Search Entry} {limits : Option ArenaLimits} {state : TraversalState Entry}
  {machine : PathMachine Entry}

theorem Agrees.map_snd {α : Type} {x : Except TraversalError (α × TraversalState Entry)}
    {y : Except TraversalError (α × PathMachine Entry)} (agrees : Agrees SameResult x y) :
    Agrees Simulates (x.map Prod.snd) (y.map Prod.snd) := by
  cases x <;> cases y <;> first | exact agrees | exact agrees.2

theorem offerCandidate_agrees (packed : Bool) (simulates : Simulates state machine)
    (offer : Offer Entry) :
    Agrees SameResult (search.offerCandidate (arenaOps limits) packed state offer)
      (search.offerCandidate pathOps packed machine offer) := by
  have numbered : SameResult
      (if search.useLocal && !packed then (arenaOps limits).localEdgeIndex state offer.edgeId
        else (search.edges.idxOf offer.edgeId, state))
      (if search.useLocal && !packed then pathOps.localEdgeIndex machine offer.edgeId
        else (search.edges.idxOf offer.edgeId, machine)) := by
    cases search.useLocal && !packed with
    | false => exact ⟨rfl, simulates⟩
    | true =>
        refine ⟨by simp [arenaOps, pathOps, simulates.path], ?_⟩
        have next := simulates.edgeState fun used exactly => exactly.getOrCreateIndex offer.edgeId
        rw [← simulates.path] at next
        simpa [arenaOps, pathOps, simulates.path] using next
  rw [Search.offerCandidate, Search.offerCandidate]
  generalize (if search.useLocal && !packed then (arenaOps limits).localEdgeIndex state offer.edgeId
    else (search.edges.idxOf offer.edgeId, state)) = left at numbered
  generalize (if search.useLocal && !packed then pathOps.localEdgeIndex machine offer.edgeId
    else (search.edges.idxOf offer.edgeId, machine)) = right at numbered
  obtain ⟨index, next⟩ := left
  obtain ⟨_, other⟩ := right
  obtain ⟨rfl, simulatesNext⟩ := numbered
  dsimp only at simulatesNext ⊢
  refine Agrees.bind (?_ : Agrees Simulates _ _) (fun a b simulatesAfter => ?_)
  · simp only [arenaOps, pathOps, simulatesNext.path]
    cases run : other.path.edgeState.applyCandidateMatchResult index
        (search.edgeMatches offer.edgeId) with
    | error error => exact rfl
    | ok edgeState =>
        have after := simulatesNext.edgeState fun used exactly => exactly.applyMatch run
        rw [simulatesNext.path] at after
        exact after
  · refine ⟨?_, simulatesAfter⟩
    simp [arenaOps, pathOps, simulatesAfter.path]

theorem offerCandidates_agrees (packed : Bool) (simulates : Simulates state machine)
    (offers : List (Offer Entry)) :
    Agrees SameResult (search.offerCandidates (arenaOps limits) packed state offers)
      (search.offerCandidates pathOps packed machine offers) := by
  induction offers generalizing state machine with
  | nil => exact ⟨rfl, simulates⟩
  | cons offer rest inductionHypothesis =>
      refine Agrees.bind (offerCandidate_agrees packed simulates offer) ?_
      rintro ⟨candidate, next⟩ ⟨_, other⟩ ⟨rfl, simulatesNext⟩
      refine Agrees.bind (inductionHypothesis simulatesNext) ?_
      rintro ⟨candidates, final⟩ ⟨_, finalMachine⟩ ⟨rfl, simulatesFinal⟩
      exact ⟨rfl, simulatesFinal⟩

theorem runPush_agrees (simulates : Simulates state machine) (push : ProviderPush Entry) :
    Agrees Simulates (search.runPush (arenaOps limits) state push)
      (search.runPush pathOps machine push) := by
  cases push with
  | single packed offer =>
      refine Agrees.bind (offerCandidate_agrees packed simulates offer) ?_
      rintro ⟨candidate, next⟩ ⟨_, other⟩ ⟨rfl, simulatesNext⟩
      dsimp only
      split_ifs with accepts
      · exact Agrees.map_snd (pushCandidateIfMatched_agrees simulatesNext candidate)
      · exact simulatesNext
  | batch packed offers =>
      refine Agrees.bind (offerCandidates_agrees packed simulates offers) ?_
      rintro ⟨candidates, next⟩ ⟨_, other⟩ ⟨rfl, simulatesNext⟩
      exact Agrees.map_snd (pushBatchLoop_agrees _ candidates none simulatesNext (by simp))

theorem addValidVertexEdges_agrees (simulates : Simulates state machine) (vertexId : GraphId) :
    Agrees Simulates (search.addValidVertexEdges (arenaOps limits) state vertexId)
      (search.addValidVertexEdges pathOps machine vertexId) := by
  unfold Search.addValidVertexEdges
  generalize search.provider vertexId = pushes
  induction pushes generalizing state machine with
  | nil => exact simulates
  | cons push rest inductionHypothesis =>
      rw [List.foldlM_cons, List.foldlM_cons]
      exact Agrees.bind (runPush_agrees simulates push) fun _ _ next => inductionHypothesis next

theorem loadInitialDfsStacks_agrees (simulates : Simulates state machine) :
    Agrees Simulates (search.loadInitialDfsStacks (arenaOps limits) state)
      (search.loadInitialDfsStacks pathOps machine) := by
  unfold Search.loadInitialDfsStacks
  split_ifs
  · exact simulates
  · exact addValidVertexEdges_agrees simulates _
  · exact simulates
  · exact simulates
  · exact addValidVertexEdges_agrees simulates _

theorem extendDfsFromVertexIfNeeded_agrees (simulates : Simulates state machine)
    (step : Step Entry) :
    Agrees Simulates (search.extendDfsFromVertexIfNeeded (arenaOps limits) state step)
      (search.extendDfsFromVertexIfNeeded pathOps machine step) := by
  unfold Search.extendDfsFromVertexIfNeeded
  split_ifs
  · exact simulates
  · exact addValidVertexEdges_agrees simulates _

/-- Both searches ran out of fuel, or both came back. -/
def SameSearch {α β : Type} (relation : α → β → Prop) : Option α → Option β → Prop
  | none, none => True
  | some a, some b => relation a b
  | _, _ => False

theorem dfsFindAPath_agrees (simulates : Simulates state machine) (fuel : Nat) :
    Agrees (SameSearch SameResult) (search.dfsFindAPath (arenaOps limits) fuel state)
      (search.dfsFindAPath pathOps fuel machine) := by
  induction fuel generalizing state machine with
  | zero => exact trivial
  | succ fuel inductionHypothesis =>
      refine Agrees.bind (consumeNextFrame_agrees simulates limits) ?_
      rintro ⟨step, next⟩ ⟨_, other⟩ ⟨rfl, simulatesNext⟩
      cases step with
      | none => exact ⟨rfl, simulatesNext⟩
      | some step =>
          dsimp only
          split_ifs with beyond accepts
          · exact inductionHypothesis simulatesNext
          · exact Agrees.bind (extendDfsFromVertexIfNeeded_agrees simulatesNext step)
              fun _ _ extended => ⟨rfl, extended⟩
          · exact Agrees.bind (extendDfsFromVertexIfNeeded_agrees simulatesNext step)
              fun _ _ extended => inductionHypothesis extended

theorem dfsFindAllPaths_agrees (simulates : Simulates state machine) (fuel calls : Nat) :
    Agrees (SameSearch fun a b => List.Forall₂ Simulates a.1 b.1 ∧ Simulates a.2 b.2)
      (search.dfsFindAllPaths (arenaOps limits) fuel calls state)
      (search.dfsFindAllPaths pathOps fuel calls machine) := by
  induction calls generalizing state machine with
  | zero => exact trivial
  | succ calls inductionHypothesis =>
      refine Agrees.bind (dfsFindAPath_agrees simulates fuel) ?_
      rintro (_ | ⟨found, next⟩) (_ | ⟨other, machineNext⟩) same
      · exact trivial
      · exact same.elim
      · exact same.elim
      · obtain ⟨equal, simulatesNext⟩ := same
        dsimp only at equal simulatesNext
        subst equal
        cases found with
        | false => exact ⟨.nil, simulatesNext⟩
        | true =>
            refine Agrees.bind (inductionHypothesis simulatesNext) ?_
            rintro (_ | ⟨states, final⟩) (_ | ⟨machines, finalMachine⟩) rest
            · exact trivial
            · exact rest.elim
            · exact rest.elim
            · exact ⟨.cons simulatesNext rest.1, rest.2⟩

theorem run_agrees (simulates : Simulates state machine) (fuel : Nat) :
    Agrees (SameSearch fun a b => List.Forall₂ Simulates a.1 b.1 ∧ Simulates a.2 b.2)
      (search.run (arenaOps limits) fuel state) (search.run pathOps fuel machine) :=
  Agrees.bind (loadInitialDfsStacks_agrees simulates) fun _ _ loaded =>
    dfsFindAllPaths_agrees loaded fuel fuel

end Instances

end Age.Vle
