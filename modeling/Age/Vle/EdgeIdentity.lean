import Age.Vle.SourceLayout
import Age.Vle.PathMachine

/-!
# The number of an edge

Every candidate carries the number that its flags stand at.  Adjacency and
endpoint sources take it from the local edge state when there is one, packed
lists always from the loaded graph.
-/

namespace Age.Vle

namespace EdgeState

/-- Numbers of edges are places of flags, and no two edges share one. -/
structure Numbered (state : EdgeState) : Prop where
  inside : ∀ edgeId index, state.localEdgeIndex.lookup edgeId = some index →
    index < state.flags.length
  injective : ∀ a b index, state.localEdgeIndex.lookup a = some index →
    state.localEdgeIndex.lookup b = some index → a = b

/-- The numbers and the number of flags stay. -/
def SameNumbers (before after : EdgeState) : Prop :=
  after.localEdgeIndex = before.localEdgeIndex ∧ after.flags.length = before.flags.length

theorem Numbered.same {before after : EdgeState} (numbered : before.Numbered)
    (same : SameNumbers before after) : after.Numbered := by
  refine ⟨fun edgeId index found => ?_, fun a b index foundA foundB => ?_⟩
  · rw [same.1] at found
    rw [same.2]
    exact numbered.inside edgeId index found
  · rw [same.1] at foundA foundB
    exact numbered.injective a b index foundA foundB

theorem setUsed_sameNumbers {before after : EdgeState} {index : Nat} {used : Bool}
    (set : before.setUsed index used = .ok after) : SameNumbers before after := by
  have inside := ActivePath.inside_of_setUsed set
  rw [setUsed_of_lt inside] at set
  cases set
  exact ⟨rfl, by simp [setFlags]⟩

theorem applyMatch_sameNumbers {before after : EdgeState} {index : Nat} {matched : Bool}
    (applied : before.applyCandidateMatchResult index matched = .ok after) :
    SameNumbers before after := by
  cases found : before.flagAt index with
  | error error =>
      simp [applyCandidateMatchResult, candidateNeedsMatchCheck, found, bind, Except.bind] at applied
  | ok flags =>
      simp only [applyCandidateMatchResult, candidateNeedsMatchCheck, candidateMarkMatch, found,
        bind, Except.bind, pure, Except.pure] at applied
      split_ifs at applied <;> cases applied
      · exact ⟨rfl, rfl⟩
      · exact ⟨rfl, by simp [setFlags]⟩
      · exact ⟨rfl, rfl⟩

/-- A number is given out once, and stays. -/
theorem Numbered.getOrCreateIndex {state : EdgeState} (numbered : state.Numbered)
    (edgeId : GraphId) :
    (state.getOrCreateIndex edgeId).2.Numbered ∧
      (state.getOrCreateIndex edgeId).2.localEdgeIndex.lookup edgeId =
        some (state.getOrCreateIndex edgeId).1 ∧
      ∀ other index, state.localEdgeIndex.lookup other = some index →
        (state.getOrCreateIndex edgeId).2.localEdgeIndex.lookup other = some index := by
  cases found : state.localEdgeIndex.lookup edgeId with
  | some index =>
      simp only [EdgeState.getOrCreateIndex, found]
      exact ⟨numbered, trivial, fun _ _ here => here⟩
  | none =>
      have new (other : GraphId) :
          ((edgeId, state.flags.length) :: state.localEdgeIndex).lookup other =
            if other = edgeId then some state.flags.length
            else state.localEdgeIndex.lookup other := by
        rw [List.lookup_cons]
        by_cases same : other = edgeId
        · simp [same]
        · simp [same, beq_eq_false_iff_ne.mpr same]
      simp only [EdgeState.getOrCreateIndex, found]
      refine ⟨⟨fun other index here => ?_, fun a b index hereA hereB => ?_⟩,
        by rw [new, if_pos rfl], fun other index here => ?_⟩
      · rw [new] at here
        rw [List.length_append, List.length_singleton]
        split_ifs at here
        · cases here
          omega
        · have bound := numbered.inside other index here
          omega
      · rw [new] at hereA hereB
        split_ifs at hereA hereB with sameA sameB sameB
        · rw [sameA, sameB]
        · cases hereA
          have bound := numbered.inside b _ hereB
          omega
        · cases hereB
          have bound := numbered.inside a _ hereA
          omega
        · exact numbered.injective a b index hereA hereB
      · rw [new]
        split_ifs with same
        · rw [same, found] at here
          cases here
        · exact here

end EdgeState

/-- What a traversal does to edge state: it expands vertices, and its active
path takes edges and leaves them. -/
inductive EdgeStep where
  | expand (sources : VertexSources)
  | use (edgeIndex : Nat) (used : Bool)

/-- The edge state, and the edge and number of each candidate that was offered. -/
structure Offered where
  edgeState : EdgeState
  candidates : List (GraphId × Nat)

namespace LayoutInput

variable (input : LayoutInput) (edges : List GraphId) (edgeMatches : GraphId → Bool)

/-- The `edge_index` of a candidate; `edges` are the loaded edges in the order
of their dense index.  A candidate of an edge that is not loaded is dropped
where its dense index is wanted. -/
def candidateEdgeIndex (source : CandidateSource) (edgeState : EdgeState) (edgeId : GraphId) :
    Option (Nat × EdgeState) :=
  let dense := if edgeId ∈ edges then some (edges.idxOf edgeId, edgeState) else none
  match source with
  | .ageAdjacency =>
      if input.useLocalEdgeState then some (edgeState.getOrCreateIndex edgeId) else dense
  | .endpointBtree => some (edgeState.getOrCreateIndex edgeId)
  | .packedAdjacency => dense

def offer (offered : Offered) (candidate : CandidateSource × GraphId) :
    Except TraversalError Offered :=
  match input.candidateEdgeIndex edges candidate.1 offered.edgeState candidate.2 with
  | none => .ok offered
  | some (edgeIndex, numbered) => do
      let edgeState ← numbered.applyCandidateMatchResult edgeIndex (edgeMatches candidate.2)
      return ⟨edgeState, offered.candidates ++ [(candidate.2, edgeIndex)]⟩

def edgeStep (offered : Offered) : EdgeStep → Except TraversalError Offered
  | .expand sources =>
      (input.expansionOffers sources).foldlM (input.offer edges edgeMatches) offered
  | .use edgeIndex used => do
      let edgeState ← offered.edgeState.setUsed edgeIndex used
      return { offered with edgeState := edgeState }

def edgeRun (steps : List EdgeStep) : Except TraversalError Offered :=
  steps.foldlM (input.edgeStep edges edgeMatches)
    ⟨edgeStateInit input.useLocalEdgeState edges.length, []⟩

/-- The number that an edge has in a traversal. -/
def NumberIs (edgeState : EdgeState) (candidate : GraphId × Nat) : Prop :=
  if input.useLocalEdgeState then edgeState.localEdgeIndex.lookup candidate.1 = some candidate.2
  else candidate.1 ∈ edges ∧ edges.idxOf candidate.1 = candidate.2

/-- Each offered candidate carries the number of its edge. -/
structure Identified (offered : Offered) : Prop where
  numbered : offered.edgeState.Numbered
  numbers : ∀ candidate ∈ offered.candidates, input.NumberIs edges offered.edgeState candidate

/-- An expansion that takes no packed candidate into a local edge state. -/
def OneNumbering : EdgeStep → Prop
  | .expand sources => input.useLocalEdgeState = true → input.packedOffers sources = []
  | .use _ _ => True

variable {input edges edgeMatches}

theorem NumberIs.same {before after : EdgeState} {candidate : GraphId × Nat}
    (number : input.NumberIs edges before candidate)
    (same : before.SameNumbers after) : input.NumberIs edges after candidate := by
  unfold NumberIs at number ⊢
  rw [same.1]
  exact number

theorem Identified.iff {offered : Offered} (identified : input.Identified edges offered)
    {a b : GraphId × Nat} (inA : a ∈ offered.candidates) (inB : b ∈ offered.candidates) :
    a.2 = b.2 ↔ a.1 = b.1 := by
  have numberA := identified.numbers a inA
  have numberB := identified.numbers b inB
  unfold NumberIs at numberA numberB
  split_ifs at numberA numberB
  · constructor
    · intro same
      exact identified.numbered.injective _ _ _ numberA (same ▸ numberB)
    · intro same
      rw [same, numberB] at numberA
      exact (Option.some.inj numberA).symm
  · constructor
    · intro same
      exact (List.idxOf_inj numberA.1).mp ((numberA.2.trans same).trans numberB.2.symm)
    · intro same
      rw [← numberA.2, ← numberB.2, same]

/-- A number for a candidate, when its source counts as the edge state does. -/
theorem candidateEdgeIndex_number {edgeState after : EdgeState} (numbered : edgeState.Numbered)
    {source : CandidateSource} {edgeId : GraphId} {edgeIndex : Nat}
    (endpoint : source = .endpointBtree → input.useLocalEdgeState = true)
    (packed : source = .packedAdjacency → input.useLocalEdgeState = false)
    (given : input.candidateEdgeIndex edges source edgeState edgeId = some (edgeIndex, after)) :
    after.Numbered ∧ input.NumberIs edges after (edgeId, edgeIndex) ∧
      ∀ candidate, input.NumberIs edges edgeState candidate →
        input.NumberIs edges after candidate := by
  obtain ⟨numberedNew, newNumber, oldNumbers⟩ := numbered.getOrCreateIndex edgeId
  unfold NumberIs
  cases useLocal : input.useLocalEdgeState with
  | true =>
      have created : edgeState.getOrCreateIndex edgeId = (edgeIndex, after) := by
        cases source with
        | ageAdjacency => simpa [candidateEdgeIndex, useLocal] using given
        | endpointBtree => simpa [candidateEdgeIndex] using given
        | packedAdjacency =>
            rw [packed rfl] at useLocal
            cases useLocal
      rw [created] at numberedNew newNumber oldNumbers
      exact ⟨numberedNew, newNumber, fun candidate number => oldNumbers _ _ number⟩
  | false =>
      have dense : edgeId ∈ edges ∧ edges.idxOf edgeId = edgeIndex ∧ edgeState = after := by
        cases source with
        | ageAdjacency => simpa [candidateEdgeIndex, useLocal] using given
        | endpointBtree =>
            rw [endpoint rfl] at useLocal
            cases useLocal
        | packedAdjacency => simpa [candidateEdgeIndex] using given
      obtain ⟨inside, index, rfl⟩ := dense
      exact ⟨numbered, ⟨inside, index⟩, fun candidate number => number⟩

theorem Identified.offer {offered next : Offered} (identified : input.Identified edges offered)
    {candidate : CandidateSource × GraphId}
    (endpoint : candidate.1 = .endpointBtree → input.useLocalEdgeState = true)
    (packed : candidate.1 = .packedAdjacency → input.useLocalEdgeState = false)
    (run : input.offer edges edgeMatches offered candidate = .ok next) :
    input.Identified edges next := by
  unfold LayoutInput.offer at run
  cases given : input.candidateEdgeIndex edges candidate.1 offered.edgeState candidate.2 with
  | none =>
      simp only [given] at run
      cases run
      exact identified
  | some numbering =>
      obtain ⟨edgeIndex, numberedState⟩ := numbering
      obtain ⟨numbered, number, old⟩ :=
        candidateEdgeIndex_number identified.numbered endpoint packed given
      simp only [given, bind, Except.bind] at run
      cases applied : numberedState.applyCandidateMatchResult edgeIndex
          (edgeMatches candidate.2) with
      | error error => simp [applied] at run
      | ok edgeState =>
          simp only [applied, pure, Except.pure, Except.ok.injEq] at run
          have same := EdgeState.applyMatch_sameNumbers applied
          rw [← run]
          refine ⟨numbered.same same, fun other member => ?_⟩
          rcases List.mem_append.mp member with before | new
          · exact (old other (identified.numbers other before)).same same
          · rw [List.mem_singleton.mp new]
            exact number.same same

theorem Identified.offers {offered next : Offered} (identified : input.Identified edges offered)
    {candidates : List (CandidateSource × GraphId)}
    (endpoint : ∀ candidate ∈ candidates, candidate.1 = .endpointBtree →
      input.useLocalEdgeState = true)
    (packed : ∀ candidate ∈ candidates, candidate.1 = .packedAdjacency →
      input.useLocalEdgeState = false)
    (run : candidates.foldlM (input.offer edges edgeMatches) offered = .ok next) :
    input.Identified edges next := by
  induction candidates generalizing offered with
  | nil =>
      cases run
      exact identified
  | cons candidate rest inductionHypothesis =>
      rw [List.foldlM_cons] at run
      cases first : input.offer edges edgeMatches offered candidate with
      | error error => rw [first] at run; cases run
      | ok middle =>
          rw [first] at run
          exact inductionHypothesis
            (identified.offer (endpoint _ List.mem_cons_self) (packed _ List.mem_cons_self) first)
            (fun other member => endpoint other (List.mem_cons_of_mem _ member))
            (fun other member => packed other (List.mem_cons_of_mem _ member)) run

theorem Identified.step {offered next : Offered} (identified : input.Identified edges offered)
    {step : EdgeStep} (one : input.OneNumbering step)
    (run : input.edgeStep edges edgeMatches offered step = .ok next) :
    input.Identified edges next := by
  cases step with
  | expand sources =>
      refine identified.offers (fun candidate member isEndpoint => ?_)
        (fun candidate member isPacked => ?_) run
      · rcases input.mem_expansionOffers member with isAdjacency | ⟨-, useLocal⟩ | ⟨isPacked, -⟩
        · rw [isAdjacency] at isEndpoint
          cases isEndpoint
        · exact useLocal
        · rw [isPacked] at isEndpoint
          cases isEndpoint
      · rcases input.mem_expansionOffers member with isAdjacency | ⟨isEndpoint, -⟩ | ⟨-, offered⟩
        · rw [isAdjacency] at isPacked
          cases isPacked
        · rw [isEndpoint] at isPacked
          cases isPacked
        · rw [← Bool.not_eq_true]
          intro useLocal
          rw [one useLocal] at offered
          cases offered
  | use edgeIndex used =>
      cases set : offered.edgeState.setUsed edgeIndex used with
      | error error => simp [edgeStep, set, bind, Except.bind] at run
      | ok edgeState =>
          simp only [edgeStep, set, bind, Except.bind, pure, Except.pure, Except.ok.injEq] at run
          have same := EdgeState.setUsed_sameNumbers set
          rw [← run]
          exact ⟨identified.numbered.same same, fun candidate member =>
            (identified.numbers candidate member).same same⟩

/-- In a run that never takes a packed candidate into a local edge state, two
candidates have one number exactly if they have one edge. -/
theorem edgeRun_edgeIndex_iff (input : LayoutInput) (edges : List GraphId)
    (edgeMatches : GraphId → Bool) (steps : List EdgeStep)
    (one : ∀ step ∈ steps, input.OneNumbering step) (offered : Offered)
    (run : input.edgeRun edges edgeMatches steps = .ok offered) :
    ∀ a ∈ offered.candidates, ∀ b ∈ offered.candidates, a.2 = b.2 ↔ a.1 = b.1 := by
  suffices identified : input.Identified edges offered by
    intro a inA b inB
    exact identified.iff inA inB
  have start : input.Identified edges
      ⟨edgeStateInit input.useLocalEdgeState edges.length, []⟩ :=
    ⟨⟨by simp [edgeStateInit], by simp [edgeStateInit]⟩, by simp⟩
  unfold edgeRun at run
  generalize (⟨edgeStateInit input.useLocalEdgeState edges.length, []⟩ : Offered) = state
    at start run
  induction steps generalizing state with
  | nil =>
      cases run
      exact start
  | cons step rest inductionHypothesis =>
      rw [List.foldlM_cons] at run
      cases first : input.edgeStep edges edgeMatches state step with
      | error error => rw [first] at run; cases run
      | ok middle =>
          rw [first] at run
          exact inductionHypothesis (fun other member => one other (List.mem_cons_of_mem _ member))
            middle (start.step (one step List.mem_cons_self) first) run

/-- An undirected pattern with a label whose outgoing edges alone are indexed, on
a loaded graph. -/
def outgoingIndexOnly : LayoutInput where
  direction := .none
  sourcePolicyKnown := true
  hasEdgeMetadata := true
  labelConstrained := true
  hasPropertyConstraints := false
  upperInfinite := true
  upper := 0
  preferredOutgoingKind := .ageAdjacency
  preferredIncomingKind := .none
  candidates := ⟨true, false, false, false⟩

abbrev outgoingEdge : GraphId := 1407374883553286

abbrev incomingEdge : GraphId := 1407374883553285

/-- A vertex with one edge out and one edge in. -/
def outAndIn : VertexSources where
  indexed outgoing := if outgoing then some [outgoingEdge] else some []
  labelCandidates _ := none
  packed := some ([outgoingEdge], [incomingEdge], [])

/-- The second edge of the vertex gets the flags of its first. -/
theorem outAndIn_share_index :
    ¬ ∀ offered, outgoingIndexOnly.edgeRun [incomingEdge, outgoingEdge] (fun _ => true)
        [.expand outAndIn] = .ok offered →
      ∀ a ∈ offered.candidates, ∀ b ∈ offered.candidates, a.2 = b.2 ↔ a.1 = b.1 := by
  intro identity
  have same := identity ⟨⟨true, [(outgoingEdge, 0)], [⟨false, true, true⟩]⟩,
    [(outgoingEdge, 0), (incomingEdge, 0)]⟩ (by rfl)
    (outgoingEdge, 0) (by simp) (incomingEdge, 0) (by simp)
  exact absurd (same.mp rfl) (by decide)

/-- The same pattern with both directions indexed. -/
def bothIndexed : LayoutInput :=
  { outgoingIndexOnly with candidates := ⟨true, true, false, false⟩ }

def outAndInIndexed : VertexSources where
  indexed outgoing := if outgoing then some [outgoingEdge] else some [incomingEdge]
  labelCandidates _ := none
  packed := some ([outgoingEdge], [incomingEdge], [])

theorem outAndInIndexed_edgeIndex_iff :
    bothIndexed.edgeRun [incomingEdge, outgoingEdge] (fun _ => true) [.expand outAndInIndexed] =
        .ok ⟨⟨true, [(incomingEdge, 1), (outgoingEdge, 0)],
          [⟨false, true, true⟩, ⟨false, true, true⟩]⟩,
          [(outgoingEdge, 0), (incomingEdge, 1)]⟩ ∧
      ∀ a ∈ [(outgoingEdge, 0), (incomingEdge, 1)], ∀ b ∈ [(outgoingEdge, 0), (incomingEdge, 1)],
        a.2 = b.2 ↔ a.1 = b.1 := by
  refine ⟨rfl, edgeRun_edgeIndex_iff bothIndexed [incomingEdge, outgoingEdge] (fun _ => true)
    [.expand outAndInIndexed] ?_
    ⟨⟨true, [(incomingEdge, 1), (outgoingEdge, 0)], [⟨false, true, true⟩, ⟨false, true, true⟩]⟩,
      [(outgoingEdge, 0), (incomingEdge, 1)]⟩ rfl⟩
  intro step member
  rw [List.mem_singleton.mp member]
  intro _
  rfl

end LayoutInput

end Age.Vle
