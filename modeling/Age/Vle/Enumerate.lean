import Mathlib.Data.List.Induction
import Age.Lib.PathTree
import Age.Vle.Search

/-!
# The search enumerates the edge-distinct walks

Under both iterator policies the pending visits are a frontier of the tree of
walks in which no edge repeats: a call takes a visit off it and puts the walks
that extend it by one edge on it.
-/

namespace Age.Vle

variable {Entry : Type}

def PathStep.offer (step : PathStep Entry) : Offer Entry where
  edgeId := step.edgeId
  nextVertexId := step.nextVertexId
  nextVertexEntry := step.nextVertexEntry

namespace Search

variable (search : Search Entry)

/-- All edges that the provider offers at a vertex. -/
def offers (vertexId : GraphId) : List (Offer Entry) :=
  (search.provider vertexId).flatMap ProviderPush.offers

/-- A walk along matching edges. -/
def IsWalk : GraphId → List (Offer Entry) → Prop
  | _, [] => True
  | vertexId, offer :: rest =>
      offer ∈ search.offers vertexId ∧ search.edgeMatches offer.edgeId = true ∧
        IsWalk offer.nextVertexId rest

def endVertex (walk : List (Offer Entry)) : GraphId :=
  (walk.getLast?.map Offer.nextVertexId).getD search.startVertexId

/-- Whether the label of a vertex lets a path of this length be pushed. -/
def labelAccepts (pathLength : Nat) (vertexId : GraphId) : Bool :=
  !labelIdIsValid (search.targetLabelId pathLength) ||
    getGraphidLabelId vertexId == search.targetLabelId pathLength

/-- Each vertex after the first one has the label that its place asks for. -/
def Labelled (walk : List (Offer Entry)) : Prop :=
  ∀ (place : Nat) (offer : Offer Entry), walk[place]? = some offer →
    search.labelAccepts (place + 1) offer.nextVertexId = true

/-- What a caller asks for: a walk without a repeated edge, of a length within
the bounds, to the terminal vertex if there is one, over vertices of the labels
that are asked for. -/
structure IsAnswer (walk : List (Offer Entry)) : Prop where
  isWalk : search.IsWalk search.startVertexId walk
  distinct : (walk.map Offer.edgeId).Nodup
  nonempty : 1 ≤ walk.length
  lower : search.lower ≤ walk.length
  upper : search.upperUnbounded = true ∨ walk.length ≤ search.upper
  terminal : ∀ terminalId ∈ search.terminalId, search.endVertex walk = terminalId
  labelled : search.Labelled walk
  accepted : labelIdIsValid search.acceptedLabelId = true →
    getGraphidLabelId (search.endVertex walk) = search.acceptedLabelId

/-- The graph is finite, the ends of its edges are its vertices unless the
search starts at a vertex that is not loaded, and a matching edge is offered
once at a vertex. -/
structure Offers : Prop where
  edges : ∀ vertexId, ∀ offer ∈ search.offers vertexId, offer.edgeId ∈ search.edges
  once : ∀ vertexId, ((search.offers vertexId).filter fun offer =>
    search.edgeMatches offer.edgeId).map Offer.edgeId |>.Nodup
  ends : (search.hasVertex search.startVertexId = false ∧ search.missingVertexEligible = true) ∨
    ∀ vertexId, ∀ offer ∈ search.offers vertexId,
      search.hasVertex vertexId = true ∧ search.hasVertex offer.nextVertexId = true

/-- One numbering: where edges get local numbers, packed lists offer none. -/
def OneNumbering : Prop :=
  search.useLocal = true → ∀ vertexId, ∀ push ∈ search.provider vertexId,
    push.isPacked = true → push.offers = []

/-- Whether an offered edge extends a walk. -/
def wanted (walk : List (Offer Entry)) (offer : Offer Entry) : Bool :=
  search.edgeMatches offer.edgeId && !(walk.map Offer.edgeId).contains offer.edgeId &&
    search.labelAccepts (walk.length + 1) offer.nextVertexId

/-- The edges that may follow a walk. -/
def nextOffers (walk : List (Offer Entry)) : List (Offer Entry) :=
  if (walk.map Offer.edgeId).Nodup ∧ (∀ edgeId ∈ walk.map Offer.edgeId, edgeId ∈ search.edges) ∧
      search.reachedUpperBound walk.length = false then
    (search.offers (search.endVertex walk)).filter (search.wanted walk)
  else []

variable {search}

theorem nextOffers_bounded (walk : List (Offer Entry))
    (long : search.edges.length + 1 ≤ walk.length) :
    search.nextOffers walk = [] := by
  rw [nextOffers, if_neg]
  rintro ⟨distinct, inside, -⟩
  have short := (List.subperm_of_subset distinct inside).length_le
  rw [List.length_map] at short
  omega

theorem nextOffers_nodup (offers : search.Offers) (walk : List (Offer Entry)) :
    (search.nextOffers walk).Nodup := by
  rw [nextOffers]
  split_ifs
  · have once := (offers.once (search.endVertex walk)).of_map
    have split : (search.offers (search.endVertex walk)).filter (search.wanted walk) =
        ((search.offers (search.endVertex walk)).filter fun offer =>
          search.edgeMatches offer.edgeId).filter (search.wanted walk) := by
      rw [List.filter_filter]
      refine List.filter_congr fun offer _ => ?_
      cases isMatch : search.edgeMatches offer.edgeId <;> simp [wanted, isMatch]
    rw [split]
    exact once.filter _
  · exact List.nodup_nil

theorem endVertex_append (walk : List (Offer Entry)) (offer : Offer Entry) :
    search.endVertex (walk ++ [offer]) = offer.nextVertexId := by
  simp [endVertex]

theorem isWalk_append {vertexId : GraphId} {walk : List (Offer Entry)} {offer : Offer Entry} :
    search.IsWalk vertexId (walk ++ [offer]) ↔ search.IsWalk vertexId walk ∧
      offer ∈ search.offers ((walk.getLast?.map Offer.nextVertexId).getD vertexId) ∧
      search.edgeMatches offer.edgeId = true := by
  induction walk generalizing vertexId with
  | nil => simp [IsWalk]
  | cons head rest inductionHypothesis =>
      have last : (((head :: rest).getLast?.map Offer.nextVertexId).getD vertexId) =
          ((rest.getLast?.map Offer.nextVertexId).getD head.nextVertexId) := by
        cases rest with
        | nil => rfl
        | cons second others =>
            rw [List.getLast?_cons_cons, List.getLast?_eq_some_getLast (List.cons_ne_nil _ _)]
            rfl
      rw [List.cons_append, IsWalk, inductionHypothesis, IsWalk, last]
      tauto

theorem Offers.edges_of_isWalk (offers : search.Offers) {vertexId : GraphId}
    {walk : List (Offer Entry)} (isWalk : search.IsWalk vertexId walk) :
    ∀ edgeId ∈ walk.map Offer.edgeId, edgeId ∈ search.edges := by
  induction walk generalizing vertexId with
  | nil => simp
  | cons offer rest inductionHypothesis =>
      intro edgeId membership
      rcases List.mem_cons.mp membership with rfl | later
      · exact offers.edges vertexId offer isWalk.1
      · exact inductionHypothesis isWalk.2.2 edgeId later

theorem labelled_append {walk : List (Offer Entry)} {offer : Offer Entry} :
    search.Labelled (walk ++ [offer]) ↔ search.Labelled walk ∧
      search.labelAccepts (walk.length + 1) offer.nextVertexId = true := by
  constructor
  · intro labelled
    refine ⟨fun place other found => labelled place other ?_, labelled walk.length offer (by simp)⟩
    rw [List.getElem?_append_left (List.getElem?_eq_some_iff.mp found).1]
    exact found
  · rintro ⟨labelled, last⟩ place other found
    rw [List.getElem?_append] at found
    split_ifs at found with inside
    · exact labelled place other found
    · obtain ⟨zero, rfl⟩ := List.getElem?_eq_some_iff.mp found
      simp only [List.length_singleton] at zero
      have here : place = walk.length := by omega
      subst here
      simpa using last

section Numbering

variable (search)

/-- The number of an edge: given out in the order of discovery, or the dense
index of the loaded graph. -/
def edgeIndexOf (edgeState : EdgeState) (edgeId : GraphId) : Option Nat :=
  if search.useLocal then edgeState.localEdgeIndex.lookup edgeId
  else if edgeId ∈ search.edges then some (search.edges.idxOf edgeId) else none

/-- Edges have their own flags, and what is known of a match is right. -/
structure EdgesKnown (edgeState : EdgeState) : Prop where
  inside : ∀ edgeId index, search.edgeIndexOf edgeState edgeId = some index →
    index < edgeState.flags.length
  injective : ∀ a b index, search.edgeIndexOf edgeState a = some index →
    search.edgeIndexOf edgeState b = some index → a = b
  checked : ∀ edgeId index flags, search.edgeIndexOf edgeState edgeId = some index →
    edgeState.flags[index]? = some flags → flags.matchChecked = true →
    flags.matched = search.edgeMatches edgeId

/-- Later edge states: numbers and what was checked stay, and so do used edges. -/
structure Grows (before after : EdgeState) : Prop where
  numbers : ∀ edgeId index, search.edgeIndexOf before edgeId = some index →
    search.edgeIndexOf after edgeId = some index
  flags : ∀ (index : Nat) (flags : EdgeFlags), before.flags[index]? = some flags →
    ∃ later : EdgeFlags, after.flags[index]? = some later ∧ later.used = flags.used ∧
      (flags.matchChecked = true → later.matchChecked = true)

variable {search}

theorem Grows.refl (edgeState : EdgeState) : search.Grows edgeState edgeState :=
  ⟨fun _ _ found => found, fun _ flags found => ⟨flags, found, rfl, id⟩⟩

theorem Grows.trans {a b c : EdgeState} (first : search.Grows a b) (second : search.Grows b c) :
    search.Grows a c := by
  refine ⟨fun edgeId index found => second.numbers _ _ (first.numbers _ _ found),
    fun index flags found => ?_⟩
  obtain ⟨middle, foundMiddle, usedMiddle, checkedMiddle⟩ := first.flags index flags found
  obtain ⟨last, foundLast, usedLast, checkedLast⟩ := second.flags index middle foundMiddle
  exact ⟨last, foundLast, usedLast.trans usedMiddle, fun mark => checkedLast (checkedMiddle mark)⟩

theorem edgeIndexOf_congr {a b : EdgeState} (same : a.SameMatches b) (edgeId : GraphId) :
    search.edgeIndexOf a edgeId = search.edgeIndexOf b edgeId := by
  rw [edgeIndexOf, edgeIndexOf, same.2.1]

theorem EdgesKnown.congr {a b : EdgeState} (known : search.EdgesKnown a)
    (same : b.SameMatches a) : search.EdgesKnown b := by
  refine ⟨fun edgeId index found => ?_, fun x y index foundX foundY => ?_,
    fun edgeId index flags found here mark => ?_⟩
  · rw [same.length]
    exact known.inside edgeId index ((edgeIndexOf_congr same edgeId).symm.trans found)
  · exact known.injective x y index ((edgeIndexOf_congr same x).symm.trans foundX)
      ((edgeIndexOf_congr same y).symm.trans foundY)
  · have place := congrArg (fun list : List EdgeFlags => list[index]?) same.2.2
    simp only [List.getElem?_map, here, Option.map_some] at place
    cases other : a.flags[index]? with
    | none => simp [other] at place
    | some old =>
        simp only [other, Option.map_some, Option.some.injEq, EdgeFlags.mk.injEq, true_and] at place
        rw [place.2]
        exact known.checked edgeId index old ((edgeIndexOf_congr same edgeId).symm.trans found)
          other (place.1.symm.trans mark)

/-- A number for an edge of the graph. -/
theorem numbered {edgeState : EdgeState} (known : search.EdgesKnown edgeState) {edgeId : GraphId}
    (inside : edgeId ∈ search.edges) :
    ∃ index after, (if search.useLocal then edgeState.getOrCreateIndex edgeId
        else (search.edges.idxOf edgeId, edgeState)) = (index, after) ∧
      search.edgeIndexOf after edgeId = some index ∧ search.EdgesKnown after ∧
      search.Grows edgeState after := by
  cases useLocal : search.useLocal with
  | false =>
      refine ⟨_, _, rfl, ?_, known, Grows.refl _⟩
      simp [edgeIndexOf, useLocal, inside]
  | true =>
      have lookup (state : EdgeState) (other : GraphId) :
          search.edgeIndexOf state other = state.localEdgeIndex.lookup other := by
        rw [edgeIndexOf, useLocal, if_pos rfl]
      simp only [if_true, EdgeState.getOrCreateIndex]
      cases found : edgeState.localEdgeIndex.lookup edgeId with
      | some index => exact ⟨index, edgeState, rfl, (lookup _ _).trans found, known, Grows.refl _⟩
      | none =>
          have new (other : GraphId) :
              ((edgeId, edgeState.flags.length) :: edgeState.localEdgeIndex).lookup other =
                if other = edgeId then some edgeState.flags.length
                else edgeState.localEdgeIndex.lookup other := by
            rw [List.lookup_cons]
            by_cases same : other = edgeId
            · simp [same]
            · simp [same, beq_eq_false_iff_ne.mpr same]
          refine ⟨_, _, rfl, by rw [lookup, new, if_pos rfl], ?_, ?_⟩
          · refine ⟨fun other index here => ?_, fun a b index hereA hereB => ?_,
              fun other index flags here place mark => ?_⟩
            · rw [lookup, new] at here
              rw [List.length_append, List.length_singleton]
              split_ifs at here
              · cases here
                omega
              · have bound := known.inside other index ((lookup _ _).trans here)
                omega
            · rw [lookup, new] at hereA hereB
              split_ifs at hereA hereB with sameA sameB sameB
              · rw [sameA, sameB]
              · cases hereA
                have bound := known.inside b _ ((lookup _ _).trans hereB)
                omega
              · cases hereB
                have bound := known.inside a _ ((lookup _ _).trans hereA)
                omega
              · exact known.injective a b index ((lookup _ _).trans hereA)
                  ((lookup _ _).trans hereB)
            · rw [lookup, new] at here
              split_ifs at here with same
              · cases here
                simp only [List.getElem?_append_right (Nat.le_refl _), Nat.sub_self,
                  List.getElem?_cons_zero, Option.some.injEq] at place
                rw [← place] at mark
                cases mark
              · have bound := known.inside other index ((lookup _ _).trans here)
                rw [List.getElem?_append_left bound] at place
                exact known.checked other index flags ((lookup _ _).trans here) place mark
          · refine ⟨fun other index here => ?_, fun index flags here => ?_⟩
            · rw [lookup] at here
              rw [lookup, new]
              split_ifs with same
              · rw [same, found] at here
                cases here
              · exact here
            · refine ⟨flags, ?_, rfl, id⟩
              rw [List.getElem?_append_left (List.getElem?_eq_some_iff.mp here).1]
              exact here

/-- The flags of an edge are good for a push. -/
def Ready (edgeState : EdgeState) (index : Nat) : Prop :=
  ∃ flags, edgeState.flags[index]? = some flags ∧
    (flags.used = true ∨ flags.matchChecked = true)

theorem Ready.grows {a b : EdgeState} {index : Nat} (ready : Ready a index)
    (grows : search.Grows a b) : Ready b index := by
  obtain ⟨flags, found, known⟩ := ready
  obtain ⟨later, foundLater, used, checked⟩ := grows.flags index flags found
  exact ⟨later, foundLater, known.imp (fun isUsed => used.trans isUsed) checked⟩

theorem matchApplied {edgeState : EdgeState} (known : search.EdgesKnown edgeState)
    {edgeId : GraphId} {index : Nat} (number : search.edgeIndexOf edgeState edgeId = some index) :
    ∃ after, edgeState.applyCandidateMatchResult index (search.edgeMatches edgeId) = .ok after ∧
      search.EdgesKnown after ∧ search.Grows edgeState after ∧ Ready after index := by
  have inside := known.inside edgeId index number
  have flagOk := EdgeState.flagAt_of_lt inside
  have found := List.getElem?_eq_getElem inside
  by_cases skip : edgeState.flags[index].used = true ∨ edgeState.flags[index].matchChecked = true
  · refine ⟨edgeState, ?_, known, Grows.refl _, _, found, skip⟩
    have noCheck : (!edgeState.flags[index].used && !edgeState.flags[index].matchChecked) =
        false := by
      rcases skip with isUsed | isChecked <;> simp [*]
    simp [EdgeState.applyCandidateMatchResult, EdgeState.candidateNeedsMatchCheck, flagOk, bind,
      Except.bind, pure, Except.pure, noCheck]
  · have unused : edgeState.flags[index].used = false := by
      cases isUsed : edgeState.flags[index].used <;> simp_all
    have unchecked : edgeState.flags[index].matchChecked = false := by
      cases isChecked : edgeState.flags[index].matchChecked <;> simp_all
    have place (other : Nat) : (edgeState.flags.set index ⟨false, true,
        search.edgeMatches edgeId⟩)[other]? = if index = other then
          some ⟨false, true, search.edgeMatches edgeId⟩ else edgeState.flags[other]? := by
      rw [List.getElem?_set]
      split_ifs with same
      · rfl
      · rfl
    refine ⟨edgeState.setFlags index ⟨false, true, search.edgeMatches edgeId⟩, ?_, ?_, ?_, ?_⟩
    · simp [EdgeState.applyCandidateMatchResult, EdgeState.candidateNeedsMatchCheck,
        EdgeState.candidateMarkMatch, flagOk, bind, Except.bind, pure, Except.pure, unused,
        unchecked]
    · refine ⟨fun other otherIndex here => ?_, known.injective,
        fun other otherIndex flags here there mark => ?_⟩
      · simpa [EdgeState.setFlags] using known.inside other otherIndex here
      · simp only [EdgeState.setFlags, place] at there
        split_ifs at there with same
        · cases there
          rw [known.injective other edgeId index (same ▸ here) number]
        · exact known.checked other otherIndex flags here there mark
    · refine ⟨fun _ _ here => here, fun other flags here => ?_⟩
      simp only [EdgeState.setFlags, place]
      split_ifs with same
      · subst same
        rw [found] at here
        cases here
        exact ⟨_, rfl, unused.symm, fun _ => rfl⟩
      · exact ⟨flags, here, rfl, id⟩
    · refine ⟨⟨false, true, search.edgeMatches edgeId⟩, ?_, .inr rfl⟩
      simp only [EdgeState.setFlags, place, if_true]

end Numbering

section Invariant

variable (search)

/-- A path of the machine is a walk without a repeated edge; its edges have
their numbers. -/
structure GoodPath (edgeState : EdgeState) (path : Path Entry) : Prop where
  isWalk : search.IsWalk search.startVertexId (path.map PathStep.offer)
  distinct : (path.map PathStep.edgeId).Nodup
  numbers : ∀ step ∈ path, search.edgeIndexOf edgeState step.edgeId = some step.edgeIndex
  lengths : ∀ (place : Nat) step, path[place]? = some step → step.pathLength = place + 1

variable {search}

theorem GoodPath.grows {a b : EdgeState} {path : Path Entry} (good : search.GoodPath a path)
    (grows : ∀ edgeId index, search.edgeIndexOf a edgeId = some index →
      search.edgeIndexOf b edgeId = some index) : search.GoodPath b path :=
  ⟨good.isWalk, good.distinct, fun step inside => grows _ _ (good.numbers step inside),
    good.lengths⟩

theorem GoodPath.init {edgeState : EdgeState} {path : Path Entry} {step : PathStep Entry}
    (good : search.GoodPath edgeState (path ++ [step])) : search.GoodPath edgeState path := by
  refine ⟨?_, ?_, fun other inside => good.numbers other (List.mem_append_left _ inside),
    fun place other found => good.lengths place other ?_⟩
  · have walk := good.isWalk
    rw [List.map_append, List.map_singleton, isWalk_append] at walk
    exact walk.1
  · have distinct := good.distinct
    rw [List.map_append] at distinct
    exact distinct.of_append_left
  · rw [List.getElem?_append_left (List.getElem?_eq_some_iff.mp found).1]
    exact found

/-- The number of an edge stands on the path exactly if the edge does. -/
theorem GoodPath.mem_indexes {edgeState : EdgeState} {path : Path Entry}
    (good : search.GoodPath edgeState path) (known : search.EdgesKnown edgeState)
    {edgeId : GraphId} {index : Nat} (number : search.edgeIndexOf edgeState edgeId = some index) :
    index ∈ path.map PathStep.edgeIndex ↔ edgeId ∈ path.map PathStep.edgeId := by
  constructor
  · intro membership
    obtain ⟨step, inside, rfl⟩ := List.mem_map.mp membership
    rw [known.injective edgeId step.edgeId _ number (good.numbers step inside)]
    exact List.mem_map_of_mem inside
  · intro membership
    obtain ⟨step, inside, rfl⟩ := List.mem_map.mp membership
    have same := (good.numbers step inside).symm.trans number
    cases same
    exact List.mem_map_of_mem inside

theorem GoodPath.last_fresh {edgeState : EdgeState} {path : Path Entry} {step : PathStep Entry}
    (good : search.GoodPath edgeState (path ++ [step])) (known : search.EdgesKnown edgeState) :
    step.edgeIndex ∉ path.map PathStep.edgeIndex := by
  rw [good.init.mem_indexes known (good.numbers step (by simp))]
  have distinct := good.distinct
  rw [List.map_append, List.nodup_append] at distinct
  intro membership
  exact distinct.2.2 _ membership _ (by simp) rfl

theorem GoodPath.last_length {edgeState : EdgeState} {path : Path Entry}
    (good : search.GoodPath edgeState path) :
    (path.getLast?.map PathStep.pathLength).getD 0 = path.length := by
  cases path using List.reverseRecOn with
  | nil => rfl
  | append_singleton path step =>
      have length := good.lengths path.length step (by simp)
      simp [length]

/-- The stack of a depth-first traversal, its top first: a visit belongs to the
active path, a backtrack takes the last edge off it. -/
inductive LifoStack : Path Entry → List (WorkPath Entry) → Prop where
  | nil : LifoStack [] []
  | visit {active : Path Entry} {item : WorkPath Entry} {rest : List (WorkPath Entry)} :
      item.kind = .visit → item.parent = active → LifoStack active rest →
      LifoStack active (item :: rest)
  | backtrack {item : WorkPath Entry} {rest : List (WorkPath Entry)} :
      item.kind = .backtrack → LifoStack item.parent rest →
      LifoStack (item.parent ++ [item.step]) (item :: rest)

variable (search)

/-- What holds between the calls of a search. -/
structure Searching (machine : PathMachine Entry) : Prop where
  follows : machine.path.Follows machine.active
  start : machine.path.pathVertexStack.head? = some search.startVertexId
  known : search.EdgesKnown machine.path.edgeState
  active : search.GoodPath machine.path.edgeState machine.active
  work : ∀ item ∈ machine.work,
    search.GoodPath machine.path.edgeState (item.parent ++ [item.step])
  stack : machine.iteratorPolicy = .lifo → LifoStack machine.active machine.work.reverse
  queue : machine.iteratorPolicy = .levelBatch → ∀ item ∈ machine.work, item.kind = .visit

variable {search}

/-- The walks that wait for a visit. -/
def visits (work : List (WorkPath Entry)) : List (List (Offer Entry)) :=
  (work.filter fun item => item.kind = .visit).map fun item =>
    (item.parent ++ [item.step]).map PathStep.offer

theorem Searching.depth {machine : PathMachine Entry} (searching : search.Searching machine) :
    machine.path.pathDepth = machine.active.length := by
  rw [searching.follows.depth, searching.active.last_length]

/-- A change of what is known of edges. -/
theorem Searching.edgeState {machine : PathMachine Entry} (searching : search.Searching machine)
    {edgeState : EdgeState} (known : search.EdgesKnown edgeState)
    (grows : search.Grows machine.path.edgeState edgeState)
    (used : edgeState.UsedExactly (machine.active.map PathStep.edgeIndex)) :
    search.Searching { machine with path := { machine.path with edgeState := edgeState } } := by
  have follows := searching.follows
  exact ⟨⟨follows.edgeIds, follows.edgeIndexes, follows.vertices, used, follows.depth⟩,
    searching.start, known, searching.active.grows grows.numbers,
    fun item inside => (searching.work item inside).grows grows.numbers, searching.stack,
    searching.queue⟩

/-- What an offer makes of the machine: its edge has a number and is checked. -/
theorem offerCandidate_ok {machine : PathMachine Entry} (searching : search.Searching machine)
    {packed : Bool} (numbering : packed = true → search.useLocal = false)
    {offer : Offer Entry} (inside : offer.edgeId ∈ search.edges) :
    ∃ index edgeState, search.offerCandidate pathOps packed machine offer =
        .ok (⟨offer.edgeId, index, machine.active.length + 1, offer.nextVertexId,
          offer.nextVertexEntry⟩,
          { machine with path := { machine.path with edgeState := edgeState } }) ∧
      search.Searching { machine with path := { machine.path with edgeState := edgeState } } ∧
      search.Grows machine.path.edgeState edgeState ∧
      search.edgeIndexOf edgeState offer.edgeId = some index ∧ Ready edgeState index := by
  obtain ⟨index, numberedState, run, number, known, grows⟩ := numbered searching.known inside
  obtain ⟨edgeState, applied, knownAfter, growsAfter, ready⟩ := matchApplied known number
  have usedNumbered : numberedState.UsedExactly (machine.active.map PathStep.edgeIndex) := by
    cases useLocal : search.useLocal with
    | false =>
        simp only [useLocal, Bool.false_eq_true, if_false, Prod.mk.injEq] at run
        rw [← run.2]
        exact searching.follows.used
    | true =>
        simp only [useLocal, if_true] at run
        have used := searching.follows.used.getOrCreateIndex offer.edgeId
        rw [run] at used
        exact used
  refine ⟨index, edgeState, ?_, searching.edgeState knownAfter (grows.trans growsAfter)
    (usedNumbered.applyMatch applied), grows.trans growsAfter, growsAfter.numbers _ _ number,
    ready⟩
  have numberedMachine : (if search.useLocal then pathOps.localEdgeIndex machine offer.edgeId
      else (search.edges.idxOf offer.edgeId, machine)) =
      (index, { machine with path := { machine.path with edgeState := numberedState } }) := by
    cases useLocal : search.useLocal with
    | false =>
        simp only [useLocal, Bool.false_eq_true, if_false, Prod.mk.injEq] at run ⊢
        exact ⟨run.1, by rw [← run.2]⟩
    | true =>
        simp only [useLocal, if_true] at run ⊢
        simp [pathOps, run]
  have oneNumber : (search.useLocal && !packed) = search.useLocal := by
    cases packed with
    | false => exact Bool.and_true _
    | true => rw [numbering rfl]; rfl
  rw [offerCandidate, oneNumber, numberedMachine]
  simp only [pathOps, applied, Except.map, bind, Except.bind, pure, Except.pure]
  rw [searching.depth]

theorem map_offer_edgeId (path : Path Entry) :
    (path.map PathStep.offer).map Offer.edgeId = path.map PathStep.edgeId := by
  rw [List.map_map]
  rfl

theorem pushable_eq {machine : PathMachine Entry} (searching : search.Searching machine)
    {edgeId : GraphId} {index : Nat}
    (number : search.edgeIndexOf machine.path.edgeState edgeId = some index)
    (ready : Ready machine.path.edgeState index) :
    machine.path.edgeState.pushable index =
      .ok (search.edgeMatches edgeId && !(machine.active.map PathStep.edgeId).contains edgeId) := by
  obtain ⟨flags, found, known⟩ := ready
  have usedIff : flags.used = true ↔ edgeId ∈ machine.active.map PathStep.edgeId :=
    (searching.follows.used.2 index flags found).trans
      (searching.active.mem_indexes searching.known number)
  rw [EdgeState.pushable, EdgeState.flagAt_ok.mpr found]
  simp only [bind, Except.bind, pure, Except.pure]
  congr 1
  by_cases onPath : edgeId ∈ machine.active.map PathStep.edgeId
  · have contained : (machine.active.map PathStep.edgeId).contains edgeId = true :=
      List.contains_iff_mem.mpr onPath
    rw [usedIff.mpr onPath, contained]
    simp
  · have absent : (machine.active.map PathStep.edgeId).contains edgeId = false := by
      rw [← Bool.not_eq_true, List.contains_iff_mem]
      exact onPath
    have unused : flags.used = false := by
      rw [← Bool.not_eq_true, usedIff]
      exact onPath
    have checked := known.resolve_left (by simp [unused])
    rw [unused, absent, searching.known.checked edgeId index flags number found checked]
    simp

/-- A wanted candidate is a new visit. -/
theorem Searching.push {machine : PathMachine Entry} (searching : search.Searching machine)
    {offer : Offer Entry} {index : Nat}
    (offered : offer ∈ search.offers (search.endVertex (machine.active.map PathStep.offer)))
    (number : search.edgeIndexOf machine.path.edgeState offer.edgeId = some index)
    (isWanted : search.wanted (machine.active.map PathStep.offer) offer = true)
    {candidate : Candidate Entry} (same : candidate = ⟨offer.edgeId, index,
      machine.active.length + 1, offer.nextVertexId, offer.nextVertexEntry⟩) :
    search.Searching (machine.push candidate) ∧
      visits (machine.push candidate).work = visits machine.work ++
        [machine.active.map PathStep.offer ++ [offer]] := by
  subst same
  rw [wanted, Bool.and_eq_true, Bool.and_eq_true, Bool.not_eq_true', ← Bool.not_eq_true,
    List.contains_iff_mem, map_offer_edgeId] at isWanted
  have good : search.GoodPath machine.path.edgeState (machine.active ++
      [⟨offer.edgeId, index, machine.active.length + 1, offer.nextVertexId,
        offer.nextVertexEntry⟩]) := by
    refine ⟨?_, ?_, fun step membership => ?_, fun place step found => ?_⟩
    · rw [List.map_append, List.map_singleton, isWalk_append]
      exact ⟨searching.active.isWalk, offered, isWanted.1.1⟩
    · rw [List.map_append, List.map_singleton, List.nodup_append]
      refine ⟨searching.active.distinct, List.nodup_singleton _, ?_⟩
      intro a inA b inB equal
      rw [List.mem_singleton] at inB
      subst equal inB
      exact isWanted.1.2 inA
    · rcases List.mem_append.mp membership with old | new
      · exact searching.active.numbers step old
      · rw [List.mem_singleton.mp new]
        exact number
    · rw [List.getElem?_append] at found
      split_ifs at found with inside
      · exact searching.active.lengths place step found
      · obtain ⟨zero, rfl⟩ := List.getElem?_eq_some_iff.mp found
        simp at zero
        simp
        omega
  refine ⟨⟨searching.follows, searching.start, searching.known, searching.active, ?_, ?_, ?_⟩, ?_⟩
  · intro item membership
    rcases List.mem_append.mp membership with old | new
    · exact searching.work item old
    · rw [List.mem_singleton.mp new]
      exact good
  · intro policy
    simp only [PathMachine.push, List.reverse_append, List.reverse_singleton,
      List.singleton_append]
    exact .visit rfl rfl (searching.stack policy)
  · intro policy item membership
    rcases List.mem_append.mp membership with old | new
    · exact searching.queue policy item old
    · rw [List.mem_singleton.mp new]
  · simp [visits, PathMachine.push, PathMachine.candidateStep, PathStep.offer]

/-- What a push of offers does to the machine. -/
structure Pushed (search : Search Entry) (before after : PathMachine Entry)
    (offers : List (Offer Entry)) : Prop where
  searching : search.Searching after
  active : after.active = before.active
  iteratorPolicy : after.iteratorPolicy = before.iteratorPolicy
  visits : Search.visits after.work = Search.visits before.work ++
    (offers.filter (search.wanted (before.active.map PathStep.offer))).map
      (before.active.map PathStep.offer ++ [·])
  stored : after.path.pathStack.isSome = before.path.pathStack.isSome

/-- The push of a candidate whose label is asked first -/
def pushLabelled (machine : PathMachine Entry) (targetLabelId : Int)
    (candidate : Candidate Entry) : Except TraversalError (Bool × PathMachine Entry) :=
  if targetLabelAccepts targetLabelId candidate then machine.pushCandidate candidate
  else .ok (false, machine)

theorem pushLabelled_ok {machine : PathMachine Entry} (searching : search.Searching machine)
    {offer : Offer Entry} {index : Nat}
    (offered : offer ∈ search.offers (search.endVertex (machine.active.map PathStep.offer)))
    (number : search.edgeIndexOf machine.path.edgeState offer.edgeId = some index)
    (ready : Ready machine.path.edgeState index) {candidate : Candidate Entry}
    (same : candidate = ⟨offer.edgeId, index, machine.active.length + 1, offer.nextVertexId,
      offer.nextVertexEntry⟩) :
    ∃ after accepted, pushLabelled machine (search.targetLabelId (machine.active.length + 1))
        candidate = .ok (accepted, after) ∧
      after.path = machine.path ∧ search.Pushed machine after [offer] := by
  have pushable := pushable_eq searching number ready
  rw [← map_offer_edgeId] at pushable
  have edgeIndex : candidate.edgeIndex = index := by rw [same]
  have isLabel : targetLabelAccepts (search.targetLabelId (machine.active.length + 1)) candidate =
      search.labelAccepts ((machine.active.map PathStep.offer).length + 1) offer.nextVertexId := by
    rw [same, List.length_map]
    rfl
  rw [pushLabelled, isLabel]
  cases isWanted : search.wanted (machine.active.map PathStep.offer) offer with
  | true =>
      obtain ⟨pushed, grown⟩ := searching.push offered number isWanted same
      have both := isWanted
      rw [wanted, Bool.and_eq_true] at both
      refine ⟨machine.push candidate, true, ?_, rfl, pushed, rfl, rfl, ?_, rfl⟩
      · rw [both.1] at pushable
        rw [if_pos both.2]
        simp [PathMachine.pushCandidate, edgeIndex, pushable, bind, Except.bind, pure,
          Except.pure]
      · rw [grown]
        simp [isWanted]
  | false =>
      refine ⟨machine, false, ?_, rfl, searching, rfl, rfl, by simp [isWanted], rfl⟩
      split_ifs with accepts
      · rw [wanted, accepts, Bool.and_true] at isWanted
        rw [isWanted] at pushable
        simp [PathMachine.pushCandidate, edgeIndex, pushable, bind, Except.bind, pure,
          Except.pure]
      · rfl

theorem Pushed.refl {machine : PathMachine Entry} (searching : search.Searching machine) :
    search.Pushed machine machine [] :=
  ⟨searching, rfl, rfl, by simp, rfl⟩

theorem Pushed.trans {a b c : PathMachine Entry} {first second : List (Offer Entry)}
    (one : search.Pushed a b first) (two : search.Pushed b c second) :
    search.Pushed a c (first ++ second) := by
  refine ⟨two.searching, two.active.trans one.active,
    two.iteratorPolicy.trans one.iteratorPolicy, ?_, two.stored.trans one.stored⟩
  rw [two.visits, one.visits, one.active, List.filter_append, List.map_append, List.append_assoc]

variable (search)

/-- The candidate of an offer at the end of the active path. -/
def IsCandidate (machine : PathMachine Entry) (candidate : Candidate Entry)
    (offer : Offer Entry) : Prop :=
  ∃ index, candidate = ⟨offer.edgeId, index, machine.active.length + 1, offer.nextVertexId,
      offer.nextVertexEntry⟩ ∧
    search.edgeIndexOf machine.path.edgeState offer.edgeId = some index ∧
    Ready machine.path.edgeState index

variable {search}

theorem IsCandidate.grows {a b : PathMachine Entry} {candidate : Candidate Entry}
    {offer : Offer Entry} (isCandidate : search.IsCandidate a candidate offer)
    (grows : search.Grows a.path.edgeState b.path.edgeState) (active : b.active = a.active) :
    search.IsCandidate b candidate offer := by
  obtain ⟨index, rfl, number, ready⟩ := isCandidate
  exact ⟨index, by rw [active], grows.numbers _ _ number, ready.grows grows⟩

theorem offerCandidates_ok {machine : PathMachine Entry} (searching : search.Searching machine)
    {packed : Bool} {offers : List (Offer Entry)}
    (numbering : ∀ offer ∈ offers, packed = true → search.useLocal = false)
    (inside : ∀ offer ∈ offers, offer.edgeId ∈ search.edges) :
    ∃ candidates next,
      search.offerCandidates pathOps packed machine offers = .ok (candidates, next) ∧
      search.Pushed machine next [] ∧
      search.Grows machine.path.edgeState next.path.edgeState ∧
      List.Forall₂ (search.IsCandidate next) candidates offers := by
  induction offers generalizing machine with
  | nil => exact ⟨[], machine, rfl, Pushed.refl searching, Grows.refl _, .nil⟩
  | cons offer rest inductionHypothesis =>
      obtain ⟨index, edgeState, run, searchingNext, grows, number, ready⟩ :=
        offerCandidate_ok searching (numbering offer List.mem_cons_self)
          (inside offer List.mem_cons_self)
      obtain ⟨candidates, final, runRest, pushed, growsRest, are⟩ := inductionHypothesis
        searchingNext (fun other membership => numbering other (List.mem_cons_of_mem _ membership))
        fun other membership => inside other (List.mem_cons_of_mem _ membership)
      refine ⟨_, final, ?_, ?_, grows.trans growsRest,
        .cons (IsCandidate.grows ⟨index, rfl, number, ready⟩ growsRest pushed.active) are⟩
      · simp only [offerCandidates, run, runRest, bind, Except.bind, pure, Except.pure]
      · exact ⟨pushed.searching, pushed.active, pushed.iteratorPolicy, pushed.visits, pushed.stored⟩

theorem pushBatch_cons (machine : PathMachine Entry) (targetLabelId : Int)
    (candidate : Candidate Entry) (rest : List (Candidate Entry)) :
    machine.pushBatch targetLabelId (candidate :: rest) = (do
      let (accepted, next) ← pushLabelled machine targetLabelId candidate
      let (pushed, final) ← next.pushBatch targetLabelId rest
      return (accepted :: pushed, final)) := by
  rw [PathMachine.pushBatch, pushLabelled, batchPushable]
  split_ifs with accepts
  · rw [PathMachine.pushCandidate]
    cases machine.path.edgeState.pushable candidate.edgeIndex with
    | error error => rfl
    | ok pushable => cases pushable <;> rfl
  · rfl

theorem pushBatch_ok {machine : PathMachine Entry} (searching : search.Searching machine)
    {candidates : List (Candidate Entry)} {offers : List (Offer Entry)}
    (are : List.Forall₂ (search.IsCandidate machine) candidates offers)
    (offered : ∀ offer ∈ offers,
      offer ∈ search.offers (search.endVertex (machine.active.map PathStep.offer))) :
    ∃ pushed after, machine.pushBatch (search.targetLabelId (machine.active.length + 1))
        candidates = .ok (pushed, after) ∧ search.Pushed machine after offers := by
  induction offers generalizing machine candidates with
  | nil =>
      cases are
      exact ⟨[], machine, rfl, Pushed.refl searching⟩
  | cons offer rest inductionHypothesis =>
      obtain _ | ⟨isCandidate, areRest⟩ := are
      obtain ⟨index, same, number, ready⟩ := isCandidate
      obtain ⟨next, accepted, run, path, one⟩ :=
        pushLabelled_ok searching (offered offer List.mem_cons_self) number ready same
      have still (candidate : Candidate Entry) (other : Offer Entry)
          (isCandidate : search.IsCandidate machine candidate other) :
          search.IsCandidate next candidate other :=
        isCandidate.grows (by rw [path]; exact Grows.refl _) one.active
      obtain ⟨pushed, after, runRest, others⟩ := inductionHypothesis one.searching
        (areRest.imp still) (fun other membership => by
          rw [one.active]
          exact offered other (List.mem_cons_of_mem _ membership))
      refine ⟨accepted :: pushed, after, ?_, one.trans others⟩
      rw [one.active] at runRest
      rw [pushBatch_cons, run]
      simp only [bind, Except.bind, runRest, pure, Except.pure]

theorem runPush_ok (isOffers : search.Offers) (numbering : search.OneNumbering)
    {machine : PathMachine Entry} (searching : search.Searching machine) {push : ProviderPush Entry}
    (inside : push ∈
      search.provider (search.endVertex (machine.active.map PathStep.offer))) :
    ∃ after, search.runPush pathOps machine push = .ok after ∧
      search.Pushed machine after push.offers := by
  have offered (offer : Offer Entry) (membership : offer ∈ push.offers) :
      offer ∈ search.offers (search.endVertex (machine.active.map PathStep.offer)) :=
    List.mem_flatMap.mpr ⟨push, inside, membership⟩
  have dense (offer : Offer Entry) (membership : offer ∈ push.offers)
      (packed : push.isPacked = true) : search.useLocal = false := by
    by_contra useLocal
    rw [numbering (Bool.not_eq_false _ |>.mp useLocal) _ push inside packed] at membership
    cases membership
  cases push with
  | single packed offer =>
      have here := offered offer (by simp [ProviderPush.offers])
      obtain ⟨index, edgeState, run, searchingNext, grows, number, ready⟩ :=
        offerCandidate_ok searching (dense offer (List.mem_singleton_self _))
          (isOffers.edges _ offer here)
      rw [ProviderPush.isPacked] at run
      obtain ⟨after, accepted, runPush, -, pushed⟩ :=
        pushLabelled_ok searchingNext here number ready rfl
      refine ⟨after, ?_, ?_⟩
      · simp only [Search.runPush, run, bind, Except.bind]
        unfold pushLabelled at runPush
        split_ifs at runPush ⊢ with accepts
        · simp only [pathOps, runPush, Except.map]
        · cases runPush
          rfl
      · exact ⟨pushed.searching, pushed.active, pushed.iteratorPolicy, pushed.visits, pushed.stored⟩
  | batch packed offers =>
      obtain ⟨candidates, next, run, numbered, grows, are⟩ :=
        offerCandidates_ok searching dense fun offer membership =>
          isOffers.edges _ offer (offered offer membership)
      obtain ⟨pushed, after, runBatch, others⟩ := pushBatch_ok numbered.searching are
        (fun offer membership => by
          rw [numbered.active]
          exact offered offer membership)
      refine ⟨after, ?_, numbered.trans others⟩
      rw [ProviderPush.offers, ProviderPush.isPacked] at run
      simp only [Search.runPush, run, bind, Except.bind]
      cases are with
      | nil =>
          cases runBatch
          rfl
      | cons first rest =>
          obtain ⟨index, rfl, -⟩ := first
          simp only [List.head?_cons, Option.map_some, Option.getD_some]
          simp only [pathOps, runBatch, Except.map]

theorem runPushes_ok (isOffers : search.Offers) (numbering : search.OneNumbering)
    {machine : PathMachine Entry} (searching : search.Searching machine)
    {pushes : List (ProviderPush Entry)}
    (inside : ∀ push ∈ pushes,
      push ∈ search.provider (search.endVertex (machine.active.map PathStep.offer))) :
    ∃ after, pushes.foldlM (search.runPush pathOps) machine = .ok after ∧
      search.Pushed machine after (pushes.flatMap ProviderPush.offers) := by
  induction pushes generalizing machine with
  | nil => exact ⟨machine, rfl, Pushed.refl searching⟩
  | cons push rest inductionHypothesis =>
      obtain ⟨next, run, one⟩ :=
        runPush_ok isOffers numbering searching (inside push List.mem_cons_self)
      obtain ⟨after, runRest, others⟩ := inductionHypothesis one.searching
        (fun other membership => by
          rw [one.active]
          exact inside other (List.mem_cons_of_mem _ membership))
      refine ⟨after, ?_, one.trans others⟩
      rw [List.foldlM_cons, run]
      exact runRest

/-- The pushes at the end of the active path put its extensions on the frontier. -/
theorem addValidVertexEdges_ok (isOffers : search.Offers) (numbering : search.OneNumbering)
    {machine : PathMachine Entry} (searching : search.Searching machine)
    (short : search.reachedUpperBound machine.active.length = false) {vertexId : GraphId}
    (here : vertexId = search.endVertex (machine.active.map PathStep.offer)) :
    ∃ after, search.addValidVertexEdges pathOps machine vertexId = .ok after ∧
      search.Searching after ∧ after.active = machine.active ∧
      after.path.pathStack.isSome = machine.path.pathStack.isSome ∧
      visits after.work = visits machine.work ++
        PathTree.children search.nextOffers (machine.active.map PathStep.offer) := by
  subst here
  obtain ⟨after, run, pushed⟩ :=
    runPushes_ok isOffers numbering searching (fun push membership => membership)
  refine ⟨after, run, pushed.searching, pushed.active, pushed.stored, ?_⟩
  have guard : ((machine.active.map PathStep.offer).map Offer.edgeId).Nodup ∧
      (∀ edgeId ∈ (machine.active.map PathStep.offer).map Offer.edgeId, edgeId ∈ search.edges) ∧
      search.reachedUpperBound (machine.active.map PathStep.offer).length = false := by
    refine ⟨?_, ?_, ?_⟩
    · rw [map_offer_edgeId]
      exact searching.active.distinct
    · exact isOffers.edges_of_isWalk searching.active.isWalk
    · rw [List.length_map]
      exact short
  rw [pushed.visits, PathTree.children, nextOffers, if_pos guard]
  rfl

end Invariant

section Consume

variable (search)

/-- What a call that takes a visit does to the machine. -/
structure Taken (before after : PathMachine Entry) (step : Step Entry) : Prop where
  searching : search.Searching after
  vertexId : step.vertexId = search.endVertex (after.active.map PathStep.offer)
  pathLength : step.pathLength = after.active.length
  nonempty : 1 ≤ after.active.length
  visits : (Search.visits before.work).Perm
    (after.active.map PathStep.offer :: Search.visits after.work)
  stored : after.path.pathStack.isSome = before.path.pathStack.isSome

variable {search}

/-- A machine that moved to another path, with work that was there before. -/
theorem Searching.moved {machine : PathMachine Entry} (searching : search.Searching machine)
    {path : ActivePath} {active : Path Entry} {work : List (WorkPath Entry)}
    (follows : path.Follows active)
    (start : path.pathVertexStack.head? = some search.startVertexId)
    (same : path.edgeState.SameMatches machine.path.edgeState)
    (good : search.GoodPath machine.path.edgeState active)
    (goodWork : ∀ item ∈ work,
      search.GoodPath machine.path.edgeState (item.parent ++ [item.step]))
    (stack : machine.iteratorPolicy = .lifo → LifoStack active work.reverse)
    (queue : machine.iteratorPolicy = .levelBatch → ∀ item ∈ work, item.kind = .visit) :
    search.Searching ⟨work, machine.iteratorPolicy, path, active⟩ := by
  have numbers (edgeId : GraphId) (index : Nat)
      (number : search.edgeIndexOf machine.path.edgeState edgeId = some index) :
      search.edgeIndexOf path.edgeState edgeId = some index :=
    (edgeIndexOf_congr same edgeId).trans number
  exact ⟨follows, start, searching.known.congr same, good.grows numbers,
    fun item inside => (goodWork item inside).grows numbers, stack, queue⟩

/-- A visit whose parent is the active path enters its edge. -/
theorem visit_ok {machine : PathMachine Entry} {item : WorkPath Entry}
    (follows : machine.path.Follows item.parent)
    (known : search.EdgesKnown machine.path.edgeState)
    (good : search.GoodPath machine.path.edgeState (item.parent ++ [item.step]))
    (workIndex : Nat) :
    ∃ path, machine.visit workIndex item = .ok
        (some ⟨item.step.nextVertexId, item.step.nextVertexEntry, item.step.pathLength⟩,
          ⟨if machine.iteratorPolicy = .levelBatch then machine.work.eraseIdx workIndex
            else machine.work.eraseIdx workIndex ++ [{ item with kind := .backtrack }],
            machine.iteratorPolicy, path, item.parent ++ [item.step]⟩) ∧
      path.Follows (item.parent ++ [item.step]) ∧
      path.edgeState.SameMatches machine.path.edgeState ∧
      path.pathStack.isSome = machine.path.pathStack.isSome ∧
      path.pathVertexStack = machine.path.pathVertexStack ++ [item.step.nextVertexId] := by
  have inside := known.inside _ _ (good.numbers item.step (by simp))
  have unused : machine.path.edgeState.flags[item.step.edgeIndex].used = false := by
    rw [← Bool.not_eq_true, follows.used.2 _ _ (List.getElem?_eq_getElem inside)]
    exact good.last_fresh known
  obtain ⟨path, run, followsStep, same, stack, vertices⟩ := follows.enter inside
  refine ⟨path, ?_, followsStep, same, by rw [stack, Option.isSome_map], vertices⟩
  simp only [PathMachine.visit, EdgeState.flagAt_of_lt inside, run, unused, bind, Except.bind,
    pure, Except.pure, PathMachine.removeItem, Bool.false_eq_true, if_false]
  split_ifs <;> rfl

/-- What a taken visit says of its step. -/
theorem Searching.taken_step {edgeState : EdgeState} {item : WorkPath Entry}
    (good : search.GoodPath edgeState (item.parent ++ [item.step])) :
    item.step.nextVertexId =
        search.endVertex ((item.parent ++ [item.step]).map PathStep.offer) ∧
      item.step.pathLength = (item.parent ++ [item.step]).length := by
  constructor
  · rw [List.map_append, List.map_singleton, endVertex_append]
    rfl
  · rw [← good.last_length]
    simp

theorem selectNext_lifo (items : List (WorkItemKind × Nat)) (top : WorkItemKind × Nat) :
    selectNext .lifo (items ++ [top]) = some items.length := by
  cases items <;> simp [selectNext]

/-- One round of the loop, once the item is known. -/
theorem consumeLoop_item {machine : PathMachine Entry} {fuel workIndex : Nat}
    {item : WorkPath Entry}
    (selected : selectNext machine.iteratorPolicy
      (machine.work.map fun item => (item.kind, item.step.pathLength)) = some workIndex)
    (found : machine.work[workIndex]? = some item) {step : Option (Step Entry)}
    {next : PathMachine Entry} (run : machine.consumeItem workIndex item = .ok (step, next)) :
    PathMachine.consumeLoop (fuel + 1) machine =
      match step with
      | some step => .ok (some step, next)
      | none => PathMachine.consumeLoop fuel next := by
  simp only [PathMachine.consumeLoop, selected, found, run, bind, Except.bind]
  cases step <;> rfl

theorem leave_stored {path left : ActivePath} {edgeIndex : Nat}
    (run : path.leave edgeIndex = .ok left) : left.pathStack.isSome = path.pathStack.isSome := by
  cases set : path.edgeState.setUsed edgeIndex false with
  | error error => simp [ActivePath.leave, set, bind, Except.bind] at run
  | ok after =>
      simp only [ActivePath.leave, set, bind, Except.bind, pure, Except.pure,
        Except.ok.injEq] at run
      rw [← run]
      simp [ActivePath.stacksPop]

theorem Searching.visit_lifo {machine : PathMachine Entry} (searching : search.Searching machine)
    (policy : machine.iteratorPolicy = .lifo) {rest : List (WorkPath Entry)}
    {item : WorkPath Entry} (top : machine.work = rest ++ [item]) (kind : item.kind = .visit)
    (parent : item.parent = machine.active) (below : LifoStack machine.active rest.reverse) :
    ∃ step after, machine.consumeItem rest.length item = .ok (some step, after) ∧
      search.Taken machine after step := by
  have good := searching.work item (by simp [top])
  obtain ⟨path, run, follows, same, stored, vertices⟩ := visit_ok
    (parent ▸ searching.follows) searching.known good rest.length
  have erased : machine.work.eraseIdx rest.length = rest := by
    rw [top, List.eraseIdx_append_of_length_le (Nat.le_refl _)]
    simp
  have inside := searching.known.inside _ _ (good.numbers item.step (by simp))
  rw [erased, policy, if_neg (by simp)] at run
  have consumed : machine.consumeItem rest.length item = machine.visit rest.length item := by
    simp only [PathMachine.consumeItem, EdgeState.flagAt_of_lt inside, kind, policy, bind,
      Except.bind, reduceCtorEq, if_false]
  obtain ⟨vertexId, pathLength⟩ := Searching.taken_step good
  refine ⟨_, _, consumed.trans run, ?_, vertexId, pathLength, by simp, ?_, stored⟩
  · rw [← policy]
    refine searching.moved follows ?_ same good (fun other membership => ?_) (fun _ => ?_)
      (fun level => by rw [policy] at level; cases level)
    · rw [vertices, List.head?_append, searching.start]
      rfl
    · rcases List.mem_append.mp membership with old | new
      · exact searching.work other (by simp [top, old])
      · rw [List.mem_singleton.mp new]
        exact good
    · rw [List.reverse_append, List.reverse_singleton, List.singleton_append]
      exact @LifoStack.backtrack _ { item with kind := .backtrack } _ rfl (parent ▸ below)
  · simp only [visits, top, List.filter_append, List.map_append]
    simp [kind]

theorem Searching.backtrack_lifo {machine : PathMachine Entry}
    (searching : search.Searching machine) (policy : machine.iteratorPolicy = .lifo)
    {rest : List (WorkPath Entry)} {item : WorkPath Entry} (top : machine.work = rest ++ [item])
    (kind : item.kind = .backtrack) (active : machine.active = item.parent ++ [item.step])
    (below : LifoStack item.parent rest.reverse) :
    ∃ after, machine.consumeItem rest.length item = .ok (none, after) ∧
      search.Searching after ∧ after.work = rest ∧ after.iteratorPolicy = .lifo ∧
      after.path.pathStack.isSome = machine.path.pathStack.isSome := by
  have good := searching.work item (by simp [top])
  have lengths := (Searching.taken_step good).2
  have follows := active ▸ searching.follows
  obtain ⟨left, run, followsLeft, same, vertices⟩ := follows.leave
    (good.last_fresh searching.known) (by
      rw [good.init.last_length, lengths]
      simp)
  have erased : machine.work.eraseIdx rest.length = rest := by
    rw [top, List.eraseIdx_append_of_length_le (Nat.le_refl _)]
    simp
  have inside := searching.known.inside _ _ (good.numbers item.step (by simp))
  refine ⟨⟨rest, machine.iteratorPolicy, left, item.parent⟩, ?_, ?_, rfl, policy, ?_⟩
  · simp only [PathMachine.consumeItem, EdgeState.flagAt_of_lt inside, kind, policy, run, bind,
      Except.bind, reduceCtorEq, if_false, if_true, PathMachine.removeItem, erased, pure,
      Except.pure]
  · refine searching.moved followsLeft ?_ same good.init (fun other membership => ?_)
      (fun _ => below) (fun level => by rw [policy] at level; cases level)
    · obtain ⟨start, shape⟩ := follows.vertices
      have first := searching.start
      rw [shape] at first
      rw [vertices, shape, List.map_append, List.map_singleton, ← List.cons_append,
        List.dropLast_concat]
      exact first
    · exact searching.work other (by simp [top, membership])
  · exact leave_stored run

/-- Under an empty stack there is no active path. -/
theorem Searching.active_nil {machine : PathMachine Entry} (searching : search.Searching machine)
    (policy : machine.iteratorPolicy = .lifo) (empty : machine.work = []) :
    machine.active = [] := by
  have stack := searching.stack policy
  rw [empty, List.reverse_nil] at stack
  generalize machine.active = active at stack
  cases stack
  rfl

theorem consumeLoop_lifo {machine : PathMachine Entry} (searching : search.Searching machine)
    (policy : machine.iteratorPolicy = .lifo) {fuel : Nat} (enough : machine.work.length ≤ fuel) :
    (visits machine.work = [] ∧ ∃ after, PathMachine.consumeLoop fuel machine = .ok (none, after) ∧
      search.Searching after ∧ after.active = []) ∨
    ∃ step after, PathMachine.consumeLoop fuel machine = .ok (some step, after) ∧
      search.Taken machine after step := by
  induction fuel generalizing machine with
  | zero =>
      have empty : machine.work = [] := List.length_eq_zero_iff.mp (by omega)
      refine .inl ⟨by rw [empty]; rfl, machine, ?_, searching, searching.active_nil policy empty⟩
      simp [PathMachine.consumeLoop, PathMachine.finish, policy, Except.map]
  | succ fuel inductionHypothesis =>
      rcases List.eq_nil_or_concat machine.work with empty | ⟨rest, item, top⟩
      · refine .inl ⟨by rw [empty]; rfl, machine, ?_, searching,
          searching.active_nil policy empty⟩
        simp [PathMachine.consumeLoop, PathMachine.finish, policy, Except.map, empty, selectNext]
      · rw [List.concat_eq_append] at top
        have selected : selectNext machine.iteratorPolicy
            (machine.work.map fun item => (item.kind, item.step.pathLength)) =
              some rest.length := by
          rw [policy, top, List.map_append, List.map_singleton, selectNext_lifo, List.length_map]
        have found : machine.work[rest.length]? = some item := by simp [top]
        have stack := searching.stack policy
        rw [top, List.reverse_append, List.reverse_singleton, List.singleton_append] at stack
        generalize activeIs : machine.active = active at stack
        cases stack with
        | visit kind parent below =>
            obtain ⟨step, after, run, taken⟩ := searching.visit_lifo policy top kind
              (parent.trans activeIs.symm) (activeIs ▸ below)
            exact .inr ⟨step, after, consumeLoop_item selected found run, taken⟩
        | backtrack kind below =>
            obtain ⟨next, run, searchingNext, work, policyNext, stored⟩ :=
              searching.backtrack_lifo policy top kind activeIs below
            have sameVisits : visits machine.work = visits next.work := by
              simp [visits, top, work, kind]
            rw [consumeLoop_item selected found run, sameVisits]
            rcases inductionHypothesis searchingNext policyNext (by
                rw [work]
                rw [top, List.length_append, List.length_singleton] at enough
                omega) with done | ⟨step, after, runRest, taken⟩
            · exact .inl done
            · refine .inr ⟨step, after, runRest, taken.searching, taken.vertexId,
                taken.pathLength, taken.nonempty, ?_, taken.stored.trans stored⟩
              rw [sameVisits]
              exact taken.visits

/-- Switching to a path whose edges have their numbers. -/
theorem Searching.switchTo {machine : PathMachine Entry} (searching : search.Searching machine)
    {target : Path Entry} (good : search.GoodPath machine.path.edgeState target) :
    ∃ path, machine.switchTo target = .ok { machine with path := path, active := target } ∧
      path.Follows target ∧ path.edgeState.SameMatches machine.path.edgeState ∧
      path.pathStack.isSome = machine.path.pathStack.isSome ∧
      path.pathVertexStack.head? = some search.startVertexId := by
  obtain ⟨path, run, follows, same, stack, vertices⟩ :=
    searching.follows.switch (fun step (membership : step ∈ target) =>
      searching.known.inside _ _ (good.numbers step membership))
  refine ⟨path, ?_, follows, same, by rw [stack, Option.isSome_map], ?_⟩
  · cases cleared : machine.path.clear with
    | error error => rw [cleared] at run; cases run
    | ok start =>
        rw [cleared] at run
        have replay : target.foldlM ActivePath.enter start = .ok path := run
        simp only [PathMachine.switchTo, cleared, replay, bind, Except.bind, pure, Except.pure]
  · obtain ⟨start, shape⟩ := searching.follows.vertices
    have first := searching.start
    rw [shape] at first
    rw [vertices, shape]
    exact first

theorem consumeNext_levelBatch {machine : PathMachine Entry}
    (searching : search.Searching machine) (policy : machine.iteratorPolicy = .levelBatch) :
    (visits machine.work = [] ∧ ∃ after, machine.consumeNext = .ok (none, after) ∧
      search.Searching after ∧ after.active = []) ∨
    ∃ step after, machine.consumeNext = .ok (some step, after) ∧
      search.Taken machine after step := by
  cases queue : machine.work with
  | nil =>
      have root : search.GoodPath machine.path.edgeState [] :=
        ⟨trivial, List.nodup_nil, by simp, by simp⟩
      obtain ⟨path, run, follows, same, -, first⟩ := searching.switchTo root
      refine .inl ⟨rfl, { machine with path := path, active := [] }, ?_,
        searching.moved follows first same root searching.work
          (fun lifo => by rw [policy] at lifo; cases lifo) searching.queue, rfl⟩
      simp only [PathMachine.consumeNext, queue, List.length_nil, PathMachine.consumeLoop,
        PathMachine.finish, policy, run, Except.map, if_true]
  | cons item rest =>
      have here : item ∈ machine.work := by simp [queue]
      have kind := searching.queue policy item here
      have good := searching.work item here
      have inside := searching.known.inside _ _ (good.numbers item.step (by simp))
      have selected : selectNext machine.iteratorPolicy
          (machine.work.map fun item => (item.kind, item.step.pathLength)) = some 0 := by
        simp [policy, queue, selectNext, kind]
      have found : machine.work[0]? = some item := by simp [queue]
      obtain ⟨switched, runSwitch, follows, same, storedSwitch, first⟩ :=
        searching.switchTo good.init
      have searchingSwitch : search.Searching
          { machine with path := switched, active := item.parent } :=
        searching.moved follows first same good.init searching.work
          (fun lifo => by rw [policy] at lifo; cases lifo) searching.queue
      obtain ⟨path, run, followsStep, sameStep, stored, vertices⟩ :=
        @visit_ok _ _ { machine with path := switched, active := item.parent } item follows
          searchingSwitch.known (searchingSwitch.work item here) 0
      have consumed : machine.consumeItem 0 item =
          PathMachine.visit { machine with path := switched, active := item.parent } 0 item := by
        simp only [PathMachine.consumeItem, EdgeState.flagAt_of_lt inside, kind, policy, runSwitch,
          bind, Except.bind, reduceCtorEq, if_false, if_true]
      rw [if_pos policy] at run
      obtain ⟨vertexId, pathLength⟩ := Searching.taken_step good
      have loop := @consumeLoop_item _ machine rest.length 0 item selected found _ _
        (consumed.trans run)
      rw [show rest.length + 1 = machine.work.length by simp [queue]] at loop
      refine .inr ⟨_, _, loop, ?_, vertexId, pathLength, by simp, ?_, stored.trans storedSwitch⟩
      · refine searchingSwitch.moved followsStep ?_ sameStep
          (searchingSwitch.work item here)
          (fun other membership => searchingSwitch.work other ?_)
          (fun lifo => by rw [policy] at lifo; cases lifo)
          (fun _ other membership => searching.queue policy other ?_)
        · rw [vertices, List.head?_append, first]
          rfl
        · exact List.mem_of_mem_eraseIdx membership
        · exact List.mem_of_mem_eraseIdx membership
      · simp [visits, queue, kind]

theorem consumeNext_ok {machine : PathMachine Entry} (searching : search.Searching machine) :
    (visits machine.work = [] ∧ ∃ after, machine.consumeNext = .ok (none, after) ∧
      search.Searching after ∧ after.active = []) ∨
    ∃ step after, machine.consumeNext = .ok (some step, after) ∧
      search.Taken machine after step := by
  cases policy : machine.iteratorPolicy with
  | lifo => exact consumeLoop_lifo searching policy (Nat.le_refl _)
  | levelBatch => exact consumeNext_levelBatch searching policy

end Consume

section Driver

variable (search)

abbrev walkTree : List (Offer Entry) → List (List (Offer Entry)) :=
  PathTree.tree search.nextOffers (search.edges.length + 1)

/-- The walks that the pending visits lead to. -/
def pending (machine : PathMachine Entry) : List (List (Offer Entry)) :=
  (visits machine.work).flatMap search.walkTree

/-- Whether a walk that was taken is returned. -/
def returned (walk : List (Offer Entry)) : Bool :=
  search.acceptsStep ⟨search.endVertex walk, none, walk.length⟩

/-- The search stands at a walk. -/
def StandsAt (machine : PathMachine Entry) (walk : List (Offer Entry)) : Prop :=
  search.Searching machine ∧ machine.active.map PathStep.offer = walk

variable {search}

/-- The edges that follow the walk of a step are pushed after it is taken. -/
theorem extend_ok (isOffers : search.Offers) (numbering : search.OneNumbering)
    {before machine : PathMachine Entry} {step : Step Entry}
    (taken : search.Taken before machine step) :
    ∃ after, search.extendDfsFromVertexIfNeeded pathOps machine step = .ok after ∧
      search.Searching after ∧ after.active = machine.active ∧
      after.path.pathStack.isSome = machine.path.pathStack.isSome ∧
      visits after.work = visits machine.work ++
        PathTree.children search.nextOffers (machine.active.map PathStep.offer) := by
  unfold extendDfsFromVertexIfNeeded
  rw [taken.pathLength]
  cases reached : search.reachedUpperBound machine.active.length with
  | true =>
      refine ⟨machine, rfl, taken.searching, rfl, rfl, ?_⟩
      have none : search.nextOffers (machine.active.map PathStep.offer) = [] := by
        rw [nextOffers, if_neg]
        rintro ⟨-, -, short⟩
        rw [List.length_map, reached] at short
        cases short
      rw [PathTree.children, none, List.map_nil, List.append_nil]
  | false => exact addValidVertexEdges_ok isOffers numbering taken.searching reached taken.vertexId

/-- A step beyond the upper bound is neither extended nor returned. -/
theorem overUpperBound {step : Step Entry} (beyond : search.stepOverUpperBound step = true)
    (machine : PathMachine Entry) :
    search.extendDfsFromVertexIfNeeded pathOps machine step = .ok machine ∧
      search.acceptsStep step = false := by
  simp only [stepOverUpperBound, Bool.and_eq_true, Bool.not_eq_true', decide_eq_true_eq] at beyond
  obtain ⟨⟨-, bounded⟩, long⟩ := beyond
  constructor
  · rw [extendDfsFromVertexIfNeeded, if_pos]
    simp only [reachedUpperBound, bounded, Bool.not_false, Bool.true_and, decide_eq_true_eq]
    omega
  · have tooLong : ¬ step.pathLength ≤ search.upper := by omega
    simp [acceptsStep, bounded, tooLong]

/-- One round of a search that took a visit. -/
theorem dfsFindAPath_taken {machine next : PathMachine Entry} {step : Step Entry} {fuel : Nat}
    (consumed : machine.consumeNext = .ok (some step, next)) {after : PathMachine Entry}
    (extended : search.extendDfsFromVertexIfNeeded pathOps next step = .ok after) :
    search.dfsFindAPath pathOps (fuel + 1) machine =
      if search.acceptsStep step then .ok (some (true, after))
      else search.dfsFindAPath pathOps fuel after := by
  have consume : (pathOps : TraversalOps (PathMachine Entry) Entry).consume machine =
      .ok (some step, next) := consumed
  simp only [dfsFindAPath, consume, bind, Except.bind]
  cases beyond : search.stepOverUpperBound step with
  | true =>
      obtain ⟨same, rejected⟩ := overUpperBound beyond next
      rw [extended] at same
      cases same
      simp [rejected]
  | false =>
      simp only [extended, Bool.false_eq_true, if_false]
      split_ifs <;> rfl

theorem dfsFindAPath_ok (isOffers : search.Offers) (numbering : search.OneNumbering)
    {machine : PathMachine Entry} (searching : search.Searching machine) {fuel : Nat}
    (enough : (search.pending machine).length < fuel) :
    (∃ after, search.dfsFindAPath pathOps fuel machine = .ok (some (false, after)) ∧
      search.Searching after ∧ after.active = [] ∧
      ∀ walk ∈ search.pending machine, search.returned walk = false) ∨
    ∃ after skipped walk, search.dfsFindAPath pathOps fuel machine = .ok (some (true, after)) ∧
      search.StandsAt after walk ∧ search.returned walk = true ∧
      (∀ other ∈ skipped, search.returned other = false) ∧
      (search.pending machine).Perm (skipped ++ walk :: search.pending after) ∧
      after.path.pathStack.isSome = machine.path.pathStack.isSome := by
  induction fuel generalizing machine with
  | zero => omega
  | succ fuel inductionHypothesis =>
      rcases consumeNext_ok searching with
        ⟨empty, after, consumed, searchingAfter, atRoot⟩ | ⟨step, next, consumed, taken⟩
      · refine .inl ⟨after, ?_, searchingAfter, atRoot, by simp [pending, empty]⟩
        have consume : (pathOps : TraversalOps (PathMachine Entry) Entry).consume machine =
            .ok (none, after) := consumed
        simp only [dfsFindAPath, consume, bind, Except.bind, pure, Except.pure]
      · obtain ⟨after, extended, searchingAfter, active, stored, grown⟩ :=
          extend_ok isOffers numbering taken
        have listed : (search.pending machine).Perm
            (next.active.map PathStep.offer :: search.pending after) := by
          have step := @PathTree.frontier_step _ _ _ search.nextOffers_bounded [] _ _ _ _
            (List.Perm.refl _) taken.visits
          rw [pending, pending, grown]
          exact step.symm
        have accepts : search.acceptsStep step =
            search.returned (next.active.map PathStep.offer) := by
          simp only [returned, acceptsStep, taken.vertexId, taken.pathLength, List.length_map]
        rw [dfsFindAPath_taken consumed extended, accepts]
        cases isReturned : search.returned (next.active.map PathStep.offer) with
        | true =>
            refine .inr ⟨after, [], _, rfl, ⟨searchingAfter, by rw [active]⟩, isReturned, by simp,
              listed, stored.trans taken.stored⟩
        | false =>
            simp only [Bool.false_eq_true, if_false]
            have shorter : (search.pending after).length < fuel := by
              have lengths := listed.length_eq
              rw [List.length_cons] at lengths
              omega
            rcases inductionHypothesis searchingAfter shorter with
              ⟨final, run, searchingFinal, atRoot, none⟩ |
                ⟨final, skipped, walk, run, stands, returns, others, rest, same⟩
            · refine .inl ⟨final, run, searchingFinal, atRoot, fun walk membership => ?_⟩
              rcases List.mem_cons.mp (listed.mem_iff.mp membership) with rfl | later
              · exact isReturned
              · exact none walk later
            · refine .inr ⟨final, next.active.map PathStep.offer :: skipped, walk, run, stands,
                returns, fun other membership => ?_, listed.trans (rest.cons _),
                same.trans (stored.trans taken.stored)⟩
              rcases List.mem_cons.mp membership with rfl | later
              · exact isReturned
              · exact others other later

theorem dfsFindAllPaths_ok (isOffers : search.Offers) (numbering : search.OneNumbering)
    {machine : PathMachine Entry} (searching : search.Searching machine) {fuel calls : Nat}
    (enough : (search.pending machine).length < fuel)
    (enoughCalls : (search.pending machine).length < calls) :
    ∃ returns final walks,
      search.dfsFindAllPaths pathOps fuel calls machine = .ok (some (returns, final)) ∧
      List.Forall₂ search.StandsAt returns walks ∧
      walks.Perm ((search.pending machine).filter search.returned) ∧
      (∀ state ∈ returns, state.path.pathStack.isSome = machine.path.pathStack.isSome) ∧
      search.Searching final ∧ final.active = [] := by
  induction calls generalizing machine with
  | zero => omega
  | succ calls inductionHypothesis =>
      rcases dfsFindAPath_ok isOffers numbering searching enough with
        ⟨final, run, searchingFinal, atRoot, none⟩ |
          ⟨next, skipped, walk, run, stands, returned, others, listed, stored⟩
      · refine ⟨[], final, [], ?_, .nil, ?_, by simp, searchingFinal, atRoot⟩
        · simp only [dfsFindAllPaths, run, bind, Except.bind, pure, Except.pure]
        · rw [List.filter_eq_nil_iff.mpr (fun walk membership => by simp [none walk membership])]
      · have lengths := listed.length_eq
        simp only [List.length_append, List.length_cons] at lengths
        obtain ⟨returns, final, walks, runRest, stand, perm, same, drained⟩ :=
          inductionHypothesis stands.1 (by omega) (by omega)
        refine ⟨next :: returns, final, walk :: walks, ?_, .cons stands stand, ?_, ?_, drained⟩
        · simp only [dfsFindAllPaths, run, runRest, bind, Except.bind, pure, Except.pure,
            Option.map_some]
        · refine List.Perm.trans ?_ (listed.filter search.returned).symm
          rw [List.filter_append, List.filter_cons_of_pos returned, List.filter_eq_nil_iff.mpr
            (fun other membership => by simp [others other membership]), List.nil_append]
          exact perm.cons walk
        · intro state membership
          rcases List.mem_cons.mp membership with rfl | later
          · exact stored
          · exact (same state later).trans stored

theorem mem_nextOffers (isOffers : search.Offers) {walk : List (Offer Entry)}
    (isWalk : search.IsWalk search.startVertexId walk) {offer : Offer Entry} :
    offer ∈ search.nextOffers walk ↔ (walk.map Offer.edgeId).Nodup ∧
      (search.upperUnbounded = true ∨ walk.length < search.upper) ∧
      offer ∈ search.offers (search.endVertex walk) ∧ search.edgeMatches offer.edgeId = true ∧
      offer.edgeId ∉ walk.map Offer.edgeId ∧
      search.labelAccepts (walk.length + 1) offer.nextVertexId = true := by
  have reached : search.reachedUpperBound walk.length = false ↔
      search.upperUnbounded = true ∨ walk.length < search.upper := by
    cases unbounded : search.upperUnbounded <;> simp [reachedUpperBound, unbounded]
  have inside := isOffers.edges_of_isWalk isWalk
  rw [nextOffers]
  split_ifs with guard
  · rw [List.mem_filter, wanted, Bool.and_eq_true, Bool.and_eq_true, Bool.not_eq_true',
      ← Bool.not_eq_true, List.contains_iff_mem, and_assoc]
    exact ⟨fun member => ⟨guard.1, reached.mp guard.2.2, member⟩, fun member => member.2.2⟩
  · refine ⟨fun member => absurd member (List.not_mem_nil), fun member => ?_⟩
    exact absurd ⟨member.1, inside, reached.mpr member.2.1⟩ guard

/-- The tree of walks, in the words of the caller. -/
theorem extends_iff (isOffers : search.Offers) (walk : List (Offer Entry)) :
    PathTree.Extends search.nextOffers [] walk ↔ search.IsWalk search.startVertexId walk ∧
      (walk.map Offer.edgeId).Nodup ∧
      (walk = [] ∨ search.upperUnbounded = true ∨ walk.length ≤ search.upper) ∧
      search.Labelled walk := by
  induction walk using List.reverseRecOn with
  | nil => simp [PathTree.Extends, IsWalk, Labelled]
  | append_singleton walk offer inductionHypothesis =>
      rw [PathTree.extends_append, inductionHypothesis, List.nil_append, isWalk_append,
        List.map_append, List.map_singleton, List.nodup_append_comm, List.singleton_append,
        List.nodup_cons, List.length_append, List.length_singleton, labelled_append]
      have here : (walk.getLast?.map Offer.nextVertexId).getD search.startVertexId =
        search.endVertex walk := rfl
      rw [here]
      constructor
      · rintro ⟨⟨isWalk, distinct, -, labelled⟩, follows⟩
        obtain ⟨-, short, offered, isMatch, fresh, label⟩ :=
          (mem_nextOffers isOffers isWalk).mp follows
        exact ⟨⟨isWalk, offered, isMatch⟩, ⟨fresh, distinct⟩, .inr (short.imp_right (by omega)),
          labelled, label⟩
      · rintro ⟨⟨isWalk, offered, isMatch⟩, ⟨fresh, distinct⟩, short, labelled, label⟩
        have shorter := short.resolve_left (by simp)
        refine ⟨⟨isWalk, distinct, .inr (shorter.imp_right (by omega)), labelled⟩, ?_⟩
        exact (mem_nextOffers isOffers isWalk).mpr
          ⟨distinct, shorter.imp_right (by omega), offered, isMatch, fresh, label⟩

theorem returned_iff (walk : List (Offer Entry)) :
    search.returned walk = true ↔
      (∀ terminalId ∈ search.terminalId, search.endVertex walk = terminalId) ∧
      (labelIdIsValid search.acceptedLabelId = true →
        getGraphidLabelId (search.endVertex walk) = search.acceptedLabelId) ∧
      search.lower ≤ walk.length ∧
      (search.upperUnbounded = true ∨ walk.length ≤ search.upper) := by
  simp only [returned, acceptsStep, Bool.and_eq_true, Bool.or_eq_true, decide_eq_true_eq,
    Option.all_eq_true, beq_iff_eq, and_assoc, Option.mem_def, Bool.not_eq_true',
    ← Bool.not_eq_true, imp_iff_not_or]

/-- The pending visits after the first edges are loaded. -/
def loaded (search : Search Entry) : List (List (Offer Entry)) :=
  (PathTree.children search.nextOffers []).flatMap search.walkTree

theorem walkTree_root : PathTree.tree search.nextOffers (search.edges.length + 1) [] =
    [] :: search.loaded :=
  PathTree.tree_eq search.nextOffers_bounded []

theorem loaded_nodup (isOffers : search.Offers) : search.loaded.Nodup := by
  have distinct := PathTree.nodup_tree search.nextOffers_bounded (nextOffers_nodup isOffers) []
  rw [walkTree_root] at distinct
  exact distinct.of_cons

theorem mem_loaded (isOffers : search.Offers) (walk : List (Offer Entry)) :
    walk ∈ search.loaded.filter search.returned ↔ search.IsAnswer walk := by
  have distinct := PathTree.nodup_tree search.nextOffers_bounded (nextOffers_nodup isOffers) []
  have inTree := @PathTree.mem_tree _ _ _ search.nextOffers_bounded [] walk
  rw [walkTree_root] at distinct inTree
  simp only [List.nil_append, exists_eq_left', List.mem_cons] at inTree
  rw [List.mem_filter, returned_iff]
  constructor
  · rintro ⟨member, terminal, accepted, lower, upper⟩
    obtain ⟨isWalk, distinctEdges, -, labelled⟩ :=
      (extends_iff isOffers walk).mp (inTree.mp (.inr member))
    have nonempty : walk ≠ [] := by
      rintro rfl
      exact (List.nodup_cons.mp distinct).1 member
    exact ⟨isWalk, distinctEdges, List.length_pos_iff.mpr nonempty, lower, upper, terminal,
      labelled, accepted⟩
  · intro answer
    have follows := (extends_iff isOffers walk).mpr
      ⟨answer.isWalk, answer.distinct, .inr answer.upper, answer.labelled⟩
    refine ⟨(inTree.mpr follows).resolve_left ?_, answer.terminal, answer.accepted, answer.lower,
      answer.upper⟩
    rintro rfl
    exact absurd answer.nonempty (by simp)

/-- No answer exists where the first edges are not loaded. -/
theorem no_answer (isOffers : search.Offers)
    (skipped : search.isEmptyLengthRange = true ∨ search.isZeroLengthOnly = true ∨
      (search.hasVertex search.startVertexId = false ∧ search.missingVertexEligible = false) ∨
      (search.hasVertex search.startVertexId = true ∧
        ∃ terminalId ∈ search.terminalId, search.hasVertex terminalId = false))
    (walk : List (Offer Entry)) : ¬ search.IsAnswer walk := by
  intro answer
  have nonempty := answer.nonempty
  rcases skipped with
    empty | zero | ⟨missing, ineligible⟩ | ⟨present, terminalId, required, missing⟩
  · simp only [isEmptyLengthRange, Bool.and_eq_true, Bool.not_eq_true', decide_eq_true_eq] at empty
    have upper := answer.upper.resolve_left (by simp [empty.1])
    have lower := answer.lower
    omega
  · simp only [isZeroLengthOnly, Bool.and_eq_true, Bool.not_eq_true', beq_iff_eq] at zero
    have upper := answer.upper.resolve_left (by simp [zero.1.2])
    omega
  · have ends := isOffers.ends.resolve_left (by simp [ineligible])
    cases walk with
    | nil => simp at nonempty
    | cons offer rest =>
        have here := (ends _ offer answer.isWalk.1).1
        rw [missing] at here
        cases here
  · have ends := isOffers.ends.resolve_left (by simp [present])
    rcases List.eq_nil_or_concat walk with rfl | ⟨before, offer, rfl⟩
    · simp at nonempty
    · rw [List.concat_eq_append] at answer
      have there := (ends _ offer (isWalk_append.mp answer.isWalk).2.1).2
      rw [← @endVertex_append _ search before offer,
        answer.terminal terminalId required, missing] at there
      cases there

theorem not_reached (asked : ¬ (search.isEmptyLengthRange || search.isZeroLengthOnly) = true) :
    search.reachedUpperBound 0 = false := by
  cases unbounded : search.upperUnbounded with
  | true => simp [reachedUpperBound, unbounded]
  | false =>
      simp only [isEmptyLengthRange, isZeroLengthOnly, unbounded, Bool.not_false, Bool.true_and,
        Bool.and_true, Bool.or_eq_true, decide_eq_true_eq, Bool.and_eq_true, beq_iff_eq,
        not_or, not_and, Nat.not_lt] at asked
      simp only [reachedUpperBound, unbounded, Bool.not_false, Bool.true_and,
        decide_eq_false_iff_not]
      omega

/-- What is pending leads to the answers, to each of them once. -/
structure PendingAnswers (search : Search Entry) (machine : PathMachine Entry) : Prop where
  nodup : (search.pending machine).Nodup
  answers : ∀ walk, walk ∈ (search.pending machine).filter search.returned ↔ search.IsAnswer walk
  bounded : (search.pending machine).length ≤ search.loaded.length

theorem addFirstEdges_ok (isOffers : search.Offers) (numbering : search.OneNumbering)
    {machine : PathMachine Entry} (searching : search.Searching machine)
    (active : machine.active = []) (work : machine.work = [])
    (short : search.reachedUpperBound 0 = false) :
    ∃ after, search.addValidVertexEdges pathOps machine search.startVertexId = .ok after ∧
      search.Searching after ∧ after.path.pathStack.isSome = machine.path.pathStack.isSome ∧
      search.PendingAnswers after := by
  have here : search.startVertexId =
      search.endVertex (machine.active.map PathStep.offer) := by
    rw [active]
    rfl
  obtain ⟨after, run, searchingAfter, -, stored, grown⟩ :=
    addValidVertexEdges_ok isOffers numbering searching (by rw [active]; exact short) here
  have isLoaded : search.pending after = search.loaded := by
    have none : visits (machine.work) = [] := by rw [work]; rfl
    rw [pending, grown, none, active, List.map_nil, List.nil_append, loaded]
  refine ⟨after, run, searchingAfter, stored, ?_, ?_, ?_⟩
  · rw [isLoaded]
    exact loaded_nodup isOffers
  · rw [isLoaded]
    exact mem_loaded isOffers
  · exact Nat.le_of_eq (congrArg List.length isLoaded)

theorem loadInitialDfsStacks_ok (isOffers : search.Offers) (numbering : search.OneNumbering)
    {machine : PathMachine Entry} (searching : search.Searching machine)
    (active : machine.active = []) (work : machine.work = []) :
    ∃ after, search.loadInitialDfsStacks pathOps machine = .ok after ∧ search.Searching after ∧
      after.path.pathStack.isSome = machine.path.pathStack.isSome ∧
      search.PendingAnswers after := by
  have nothing (none : ∀ walk, ¬ search.IsAnswer walk) : search.PendingAnswers machine := by
    constructor <;> simp [pending, work, visits, none]
  unfold loadInitialDfsStacks
  split_ifs with skip missing eligible terminal
  · rw [Bool.or_eq_true] at skip
    exact ⟨machine, rfl, searching, rfl,
      nothing (no_answer isOffers (skip.imp_right Or.inl))⟩
  · exact addFirstEdges_ok isOffers numbering searching active work (not_reached skip)
  · rw [Bool.not_eq_true'] at missing
    rw [Bool.not_eq_true] at eligible
    exact ⟨machine, rfl, searching, rfl,
      nothing (no_answer isOffers (.inr (.inr (.inl ⟨missing, eligible⟩))))⟩
  · rw [Bool.not_eq_true', Bool.not_eq_false] at missing
    simp only [Option.any_eq_true, Bool.and_eq_true, Bool.not_eq_true'] at terminal
    obtain ⟨terminalId, required, -, absent⟩ := terminal
    exact ⟨machine, rfl, searching, rfl,
      nothing (no_answer isOffers (.inr (.inr (.inr ⟨missing, terminalId, required, absent⟩))))⟩
  · exact addFirstEdges_ok isOffers numbering searching active work (not_reached skip)

/-- A whole search returns at each answer once, and ends. -/
theorem run_ok (isOffers : search.Offers) (numbering : search.OneNumbering)
    {machine : PathMachine Entry} (searching : search.Searching machine)
    (active : machine.active = []) (work : machine.work = []) {fuel : Nat}
    (enough : search.loaded.length < fuel) :
    ∃ returns final walks,
      search.run pathOps fuel machine = .ok (some (returns, final)) ∧
      List.Forall₂ search.StandsAt returns walks ∧ walks.Nodup ∧
      (∀ walk, walk ∈ walks ↔ search.IsAnswer walk) ∧
      (∀ state ∈ returns, state.path.pathStack.isSome = machine.path.pathStack.isSome) ∧
      search.Searching final ∧ final.active = [] := by
  obtain ⟨after, load, searchingAfter, stored, pending⟩ :=
    loadInitialDfsStacks_ok isOffers numbering searching active work
  have bounded := pending.bounded
  obtain ⟨returns, final, walks, find, stands, perm, same, drained⟩ :=
    @dfsFindAllPaths_ok _ _ isOffers numbering _ searchingAfter fuel fuel (by omega) (by omega)
  refine ⟨returns, final, walks, ?_, stands, ?_, fun walk => ?_, fun state membership => ?_,
    drained⟩
  · simp only [run, load, bind, Except.bind]
    exact find
  · exact perm.nodup_iff.mpr (pending.nodup.filter _)
  · rw [perm.mem_iff, pending.answers]
  · exact (same state membership).trans stored

end Driver

section Arena

theorem edgesKnown_init (search : Search Entry) :
    search.EdgesKnown (edgeStateInit search.useLocal search.edges.length) := by
  cases useLocal : search.useLocal with
  | true => constructor <;> simp [edgeIndexOf, useLocal, edgeStateInit]
  | false =>
      have number (edgeId : GraphId) (index : Nat) (found : search.edgeIndexOf
          (edgeStateInit false search.edges.length) edgeId = some index) :
          edgeId ∈ search.edges ∧ search.edges.idxOf edgeId = index := by
        simp only [edgeIndexOf, useLocal, Bool.false_eq_true, if_false] at found
        split_ifs at found with inside
        exact ⟨inside, Option.some.inj found⟩
      refine ⟨fun edgeId index found => ?_, fun a b index foundA foundB => ?_,
        fun edgeId index flags found place mark => ?_⟩
      · obtain ⟨inside, rfl⟩ := number edgeId index found
        simpa [edgeStateInit] using List.idxOf_lt_length_of_mem inside
      · obtain ⟨insideA, same⟩ := number a index foundA
        exact (List.idxOf_inj insideA).mp (same.trans (number b index foundB).2.symm)
      · simp only [edgeStateInit, Bool.false_eq_true, if_false, List.getElem?_replicate] at place
        split_ifs at place
        cases place
        cases mark

/-- An edge state that a search can begin with: no edge is used. -/
structure Fresh (search : Search Entry) (edgeState : EdgeState) : Prop where
  known : search.EdgesKnown edgeState
  unused : edgeState.UsedExactly []

theorem fresh_init (search : Search Entry) :
    search.Fresh (edgeStateInit search.useLocal search.edges.length) :=
  ⟨edgesKnown_init search, edgeStateInit_unused _ _⟩

theorem searching_init {search : Search Entry} {edgeState : EdgeState}
    (fresh : search.Fresh edgeState) (storePathEdges : Bool) (iteratorPolicy : IteratorPolicy) :
    search.Searching ⟨[], iteratorPolicy, (@traversalStateInit Entry storePathEdges iteratorPolicy
      edgeState search.startVertexId).path, []⟩ where
  follows := by
    refine ⟨fun stack found => ?_, rfl, ⟨search.startVertexId, rfl⟩, fresh.unused, rfl⟩
    cases storePathEdges <;> simp_all [traversalStateInit]
  start := rfl
  known := fresh.known
  active := ⟨trivial, List.nodup_nil, by simp, by simp⟩
  work := by simp
  stack _ := .nil
  queue := by simp

end Arena

end Search

/-- The parent chain, the stacks and the depth of a state describe a walk. -/
structure TraversalState.Describes (state : TraversalState Entry) (storePathEdges : Bool)
    (startVertexId : GraphId) (walk : List (Offer Entry)) : Prop where
  chain : ∃ path, state.chain state.activeFrameIndex = .ok path ∧ path.map PathStep.offer = walk
  pathStack : state.path.pathStack =
    if storePathEdges then some (walk.map Offer.edgeId) else none
  pathVertexStack : state.path.pathVertexStack = startVertexId :: walk.map Offer.nextVertexId
  pathDepth : state.path.pathDepth = walk.length

namespace Search

variable {search : Search Entry}

theorem StandsAt.describes {state : TraversalState Entry} {machine : PathMachine Entry}
    {walk : List (Offer Entry)} {storePathEdges : Bool} (simulates : Simulates state machine)
    (stands : search.StandsAt machine walk)
    (stored : machine.path.pathStack.isSome = storePathEdges) :
    state.Describes storePathEdges search.startVertexId walk := by
  obtain ⟨searching, rfl⟩ := stands
  refine ⟨⟨_, simulates.active.chain, rfl⟩, ?_, ?_, ?_⟩
  · rw [simulates.path, Search.map_offer_edgeId]
    cases stack : machine.path.pathStack with
    | none =>
        rw [stack] at stored
        subst stored
        rfl
    | some ids =>
        rw [stack] at stored
        subst stored
        rw [searching.follows.edgeIds ids stack]
        rfl
  · obtain ⟨start, vertices⟩ := searching.follows.vertices
    have first := searching.start
    rw [vertices, List.head?_cons, Option.some.injEq] at first
    rw [simulates.path, vertices, first, List.map_map]
    rfl
  · rw [simulates.path, searching.depth, List.length_map]

theorem forall₂_describes {states : List (TraversalState Entry)}
    {machines : List (PathMachine Entry)} {walks : List (List (Offer Entry))}
    {storePathEdges : Bool} (simulates : List.Forall₂ Simulates states machines)
    (stand : List.Forall₂ search.StandsAt machines walks)
    (stored : ∀ machine ∈ machines, machine.path.pathStack.isSome = storePathEdges) :
    List.Forall₂ (TraversalState.Describes · storePathEdges search.startVertexId) states walks := by
  induction simulates generalizing walks with
  | nil =>
      cases stand
      exact .nil
  | cons first rest inductionHypothesis =>
      obtain _ | ⟨stands, standRest⟩ := stand
      exact .cons (stands.describes first (stored _ List.mem_cons_self))
        (inductionHypothesis standRest fun other membership =>
          stored other (List.mem_cons_of_mem _ membership))

theorem sameSearch_some {α β : Type} {relation : α → β → Prop}
    {x : Except TraversalError (Option α)} {b : β}
    (agrees : Agrees (SameSearch relation) x (.ok (some b))) :
    ∃ a, x = .ok (some a) ∧ relation a b := by
  match x, agrees with
  | .ok (some a), related => exact ⟨a, rfl, related⟩

/-- A search that begins with what an earlier one knows of edges: it returns at each
answer once, and leaves an edge state that the next search can begin with. -/
theorem run_fresh (isOffers : search.Offers) (numbering : search.OneNumbering)
    (limits : Option ArenaLimits) (storePathEdges : Bool) (iteratorPolicy : IteratorPolicy)
    {edgeState : EdgeState} (fresh : search.Fresh edgeState) {fuel : Nat}
    (enough : search.loaded.length < fuel) :
    ∃ returns final walks,
      search.run (arenaOps limits) fuel (traversalStateInit storePathEdges iteratorPolicy
        edgeState search.startVertexId) = .ok (some (returns, final)) ∧
      List.Forall₂ (TraversalState.Describes · storePathEdges search.startVertexId)
        returns walks ∧
      walks.Nodup ∧ (∀ walk, walk ∈ walks ↔ search.IsAnswer walk) ∧
      search.Fresh final.path.edgeState := by
  obtain ⟨machines, finalMachine, walks, run, stand, distinct, answers, stored, searching,
      atRoot⟩ :=
    run_ok isOffers numbering (searching_init fresh storePathEdges iteratorPolicy) rfl rfl enough
  have agrees := @run_agrees _ search limits _ _ (simulates_init storePathEdges iteratorPolicy _
    search.startVertexId fresh.unused) fuel
  rw [run] at agrees
  obtain ⟨⟨returns, final⟩, arenaRun, simulates, simulatesFinal⟩ := sameSearch_some agrees
  refine ⟨returns, final, walks, arenaRun, forall₂_describes simulates stand ?_, distinct, answers,
    ?_⟩
  · intro machine membership
    rw [stored machine membership]
    cases storePathEdges <;> rfl
  · have unused := searching.follows.used
    rw [atRoot] at unused
    rw [simulatesFinal.path]
    exact ⟨searching.known, unused⟩

end Search

end Age.Vle
