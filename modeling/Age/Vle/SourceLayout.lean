import Age.Vle.Traversal

/-!
# The sources of an expansion

`select_vle_traversal_source_layout` of `age_vle_root.c`, and the order in which
`age_vle_push_candidates_from_vertex_entry` and the missing-vertex fallback ask
the sources.  What a source finds at a vertex is given to the expansion.
-/

namespace Age.Vle

/-- `cypher_rel_dir` -/
inductive RelDir where
  | left
  | right
  | none
  deriving DecidableEq, Repr

/-- `VLETraversalSourceKind` -/
inductive SourceKind where
  | none
  | ageAdjacency
  | endpointBtree
  deriving DecidableEq, Repr

/-- `VLETraversalSourceCandidates` -/
structure SourceCandidates where
  ageAdjacencyOut : Bool
  ageAdjacencyIn : Bool
  endpointStart : Bool
  endpointEnd : Bool

/-- What `init_vle_traversal_context_apply` and the layout read of a traversal. -/
structure LayoutInput where
  direction : RelDir
  sourcePolicyKnown : Bool
  hasEdgeMetadata : Bool
  labelConstrained : Bool
  hasPropertyConstraints : Bool
  upperInfinite : Bool
  upper : Nat
  preferredOutgoingKind : SourceKind
  preferredIncomingKind : SourceKind
  candidates : SourceCandidates

namespace LayoutInput

variable (input : LayoutInput)

/-- `use_local_edge_state` -/
def useLocalEdgeState : Bool :=
  input.sourcePolicyKnown || !input.hasEdgeMetadata

/-- `prefer_endpoint_btree` -/
def preferEndpointBtree : Bool :=
  input.useLocalEdgeState && !input.hasPropertyConstraints && !input.upperInfinite &&
    input.upper ≤ 1

/-- The adjacency index of a direction unless the endpoint index is preferred,
then the endpoint index. -/
def defaultKind (ageAdjacency endpoint : Bool) : SourceKind :=
  if !(input.preferEndpointBtree && endpoint) && ageAdjacency then .ageAdjacency
  else if input.useLocalEdgeState && endpoint then .endpointBtree
  else .none

/-- `traversal_source_candidate_available` -/
def candidateAvailable (kind : SourceKind) (outgoing : Bool) : Bool :=
  match kind with
  | .none => false
  | .ageAdjacency =>
      if outgoing then input.candidates.ageAdjacencyOut else input.candidates.ageAdjacencyIn
  | .endpointBtree =>
      if outgoing then input.candidates.endpointStart else input.candidates.endpointEnd

/-- `select_vle_traversal_source_layout`, one direction of it -/
def sourceKind (outgoing : Bool) : SourceKind :=
  let preferred :=
    if outgoing then input.preferredOutgoingKind else input.preferredIncomingKind
  if !input.labelConstrained then .none
  else if input.sourcePolicyKnown && input.candidateAvailable preferred outgoing then preferred
  else if outgoing then
    input.defaultKind input.candidates.ageAdjacencyOut input.candidates.endpointStart
  else input.defaultKind input.candidates.ageAdjacencyIn input.candidates.endpointEnd

/-- Whether the pattern's direction takes the outgoing, or the incoming, edges. -/
def directionMatches (outgoing : Bool) : Bool :=
  input.direction == .none || input.direction == if outgoing then .right else .left

/-- The kind that `age_vle_context_init_source_cursor` gives the cursor, if there is one. -/
def cursorKind (outgoing : Bool) : Option SourceKind :=
  if input.labelConstrained && input.directionMatches outgoing &&
      input.sourceKind outgoing != .none then
    some (input.sourceKind outgoing)
  else none

/-- An endpoint index is read only with local edge state. -/
theorem useLocal_of_endpointBtree {outgoing : Bool}
    (kind : input.sourceKind outgoing = .endpointBtree) : input.useLocalEdgeState = true := by
  cases known : input.sourcePolicyKnown with
  | true => simp [useLocalEdgeState, known]
  | false =>
      cases useLocal : input.useLocalEdgeState with
      | true => rfl
      | false =>
          simp only [sourceKind, defaultKind, known, useLocal, Bool.false_and, Bool.false_eq_true,
            if_false] at kind
          split_ifs at kind

end LayoutInput

/-- The candidate sources. -/
inductive CandidateSource where
  | ageAdjacency
  | endpointBtree
  | packedAdjacency
  deriving DecidableEq, Repr

def SourceKind.candidateSource : SourceKind → CandidateSource
  | .endpointBtree => .endpointBtree
  | _ => .ageAdjacency

/-- What the sources have for a vertex.  An index gives nothing when its scan
cannot begin; the label candidates of a direction are there when an edge label
has an adjacency index for it; the packed lists are those of the vertex entry,
none when the vertex is missing. -/
structure VertexSources where
  indexed : Bool → Option (List GraphId)
  labelCandidates : Bool → Option (List GraphId)
  packed : Option (List GraphId × List GraphId × List GraphId)

namespace LayoutInput

variable (input : LayoutInput)

/-- `push_candidates_from_edge_label_source_candidates` -/
def labelCandidateOffers (sources : VertexSources) (outgoing : Bool) : Option (List GraphId) :=
  if input.directionMatches outgoing && sources.packed.isSome && input.useLocalEdgeState &&
      !input.labelConstrained && !input.hasPropertyConstraints && !input.upperInfinite &&
      input.upper ≤ 1 then
    sources.labelCandidates outgoing
  else none

/-- `push_candidates_from_expansion_context_source`: the offers of one direction,
and whether a source was used for it. -/
def directedOffers (sources : VertexSources) (outgoing : Bool) :
    Bool × List (CandidateSource × GraphId) :=
  match input.cursorKind outgoing with
  | some kind =>
      match sources.indexed outgoing with
      | some edges => (true, edges.map fun edgeId => (kind.candidateSource, edgeId))
      | none => (false, [])
  | none =>
      match input.labelCandidateOffers sources outgoing with
      | some edges => (true, edges.map fun edgeId => (.ageAdjacency, edgeId))
      | none => (false, [])

/-- `push_candidates_from_packed_adjacency` with the lists that the used sources
do not suppress -/
def packedOffers (sources : VertexSources) : List (CandidateSource × GraphId) :=
  match sources.packed with
  | none => []
  | some (edgeOut, edgeIn, edgeSelf) =>
      let usedOut := (input.directedOffers sources true).1
      let usedIn := (input.directedOffers sources false).1
      let lists := (if input.directionMatches true && !usedOut then edgeOut else []) ++
        (if input.directionMatches false && !usedIn then edgeIn else []) ++
        (if !(usedOut || usedIn) then edgeSelf else [])
      lists.map fun edgeId => (.packedAdjacency, edgeId)

/-- `missing_vertex_eligible` -/
def missingVertexEligible : Bool :=
  input.useLocalEdgeState && input.labelConstrained && !input.hasPropertyConstraints

/-- `age_vle_push_candidates_from_vertex_entry`, and the missing-vertex fallback
when there is no vertex entry -/
def expansionOffers (sources : VertexSources) : List (CandidateSource × GraphId) :=
  if sources.packed.isNone && !input.missingVertexEligible then []
  else (input.directedOffers sources true).2 ++ (input.directedOffers sources false).2 ++
    input.packedOffers sources

/-- Only the packed lists offer packed candidates, and only local edge state has
endpoint candidates. -/
theorem mem_expansionOffers {sources : VertexSources} {source : CandidateSource}
    {edgeId : GraphId} (offered : (source, edgeId) ∈ input.expansionOffers sources) :
    source = .ageAdjacency ∨ (source = .endpointBtree ∧ input.useLocalEdgeState = true) ∨
      (source = .packedAdjacency ∧ (source, edgeId) ∈ input.packedOffers sources) := by
  have directed (outgoing : Bool)
      (member : (source, edgeId) ∈ (input.directedOffers sources outgoing).2) :
      source = .ageAdjacency ∨ (source = .endpointBtree ∧ input.useLocalEdgeState = true) := by
    unfold directedOffers at member
    cases cursor : input.cursorKind outgoing with
    | some kind =>
        cases indexed : sources.indexed outgoing with
        | none => simp [cursor, indexed] at member
        | some edges =>
            simp only [cursor, indexed, List.mem_map, Prod.mk.injEq] at member
            obtain ⟨-, -, rfl, -⟩ := member
            have same : input.sourceKind outgoing = kind := by
              unfold cursorKind at cursor
              split_ifs at cursor
              exact Option.some.inj cursor
            cases kind with
            | none => exact .inl rfl
            | ageAdjacency => exact .inl rfl
            | endpointBtree => exact .inr ⟨rfl, input.useLocal_of_endpointBtree same⟩
    | none =>
        cases candidates : input.labelCandidateOffers sources outgoing with
        | none => simp [cursor, candidates] at member
        | some edges =>
            simp only [cursor, candidates, List.mem_map, Prod.mk.injEq] at member
            obtain ⟨-, -, rfl, -⟩ := member
            exact .inl rfl
  unfold expansionOffers at offered
  split_ifs at offered
  · cases offered
  · rw [List.mem_append, List.mem_append] at offered
    rcases offered with (out | incoming) | packed
    · exact (directed true out).imp_right .inl
    · exact (directed false incoming).imp_right .inl
    · refine .inr (.inr ⟨?_, packed⟩)
      unfold packedOffers at packed
      cases lists : sources.packed with
      | none => simp [lists] at packed
      | some lists =>
          simp only [*, List.mem_map, Prod.mk.injEq] at packed
          obtain ⟨-, -, rfl, -⟩ := packed
          rfl

end LayoutInput

end Age.Vle
