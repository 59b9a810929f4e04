import Age.Vle.Traversal

/-!
# The traversal without an arena

The same work list with the path of each item written out, in place of a frame
index.  There is nothing to compact here.
-/

namespace Age.Vle

variable {Entry : Type}

abbrev Path (Entry : Type) := List (PathStep Entry)

/-- A pending visit or backtrack: the path to its parent and its own edge. -/
structure WorkPath (Entry : Type) where
  kind : WorkItemKind
  parent : Path Entry
  step : PathStep Entry

structure PathMachine (Entry : Type) where
  work : List (WorkPath Entry)
  iteratorPolicy : IteratorPolicy
  path : ActivePath
  active : Path Entry

namespace PathMachine

def candidateStep (candidate : Candidate Entry) : PathStep Entry where
  edgeId := candidate.edgeId
  edgeIndex := candidate.edgeIndex
  pathLength := candidate.pathLength
  nextVertexId := candidate.nextVertexId
  nextVertexEntry := candidate.nextVertexEntry

def push (machine : PathMachine Entry) (candidate : Candidate Entry) : PathMachine Entry :=
  { machine with
    work := machine.work ++ [⟨.visit, machine.active, candidateStep candidate⟩] }

def pushCandidate (machine : PathMachine Entry) (candidate : Candidate Entry) :
    Except TraversalError (Bool × PathMachine Entry) := do
  if ← machine.path.edgeState.pushable candidate.edgeIndex then
    return (true, machine.push candidate)
  else
    return (false, machine)

def pushBatch (targetLabelId : Int) : PathMachine Entry → List (Candidate Entry) →
    Except TraversalError (List Bool × PathMachine Entry)
  | machine, [] => .ok ([], machine)
  | machine, candidate :: rest => do
      if ← batchPushable machine.path.edgeState targetLabelId candidate then
        let (pushed, final) ← pushBatch targetLabelId (machine.push candidate) rest
        return (true :: pushed, final)
      else
        let (pushed, final) ← pushBatch targetLabelId machine rest
        return (false :: pushed, final)

/-- Clear the active path and replay another one. -/
def switchTo (machine : PathMachine Entry) (target : Path Entry) :
    Except TraversalError (PathMachine Entry) := do
  let cleared ← machine.path.clear
  let path ← target.foldlM ActivePath.enter cleared
  return { machine with path := path, active := target }

def removeItem (machine : PathMachine Entry) (workIndex : Nat) : PathMachine Entry :=
  { machine with work := machine.work.eraseIdx workIndex }

def finish (machine : PathMachine Entry) : Except TraversalError (PathMachine Entry) :=
  if machine.iteratorPolicy = .levelBatch then machine.switchTo [] else .ok machine

def visit (machine : PathMachine Entry) (workIndex : Nat) (item : WorkPath Entry) :
    Except TraversalError (Option (Step Entry) × PathMachine Entry) := do
  let flags ← machine.path.edgeState.flagAt item.step.edgeIndex
  let consumed := machine.removeItem workIndex
  if flags.used then
    return (none, consumed)
  else
    let path ← machine.path.enter item.step
    let pushed :=
      if machine.iteratorPolicy = .levelBatch then consumed
      else { consumed with work := consumed.work ++ [{ item with kind := .backtrack }] }
    return (some ⟨item.step.nextVertexId, item.step.nextVertexEntry, item.step.pathLength⟩,
      { pushed with path := path, active := item.parent ++ [item.step] })

def consumeItem (machine : PathMachine Entry) (workIndex : Nat) (item : WorkPath Entry) :
    Except TraversalError (Option (Step Entry) × PathMachine Entry) := do
  let _ ← machine.path.edgeState.flagAt item.step.edgeIndex
  if item.kind = .backtrack then
    if machine.iteratorPolicy = .levelBatch then
      return (none, machine.removeItem workIndex)
    else
      let path ← machine.path.leave item.step.edgeIndex
      return (none, { machine.removeItem workIndex with path := path, active := item.parent })
  else if machine.iteratorPolicy = .levelBatch then
    let machine ← machine.switchTo item.parent
    machine.visit workIndex item
  else
    machine.visit workIndex item

def consumeLoop : Nat → PathMachine Entry →
    Except TraversalError (Option (Step Entry) × PathMachine Entry)
  | 0, machine => machine.finish.map fun machine => (none, machine)
  | fuel + 1, machine =>
      match selectNext machine.iteratorPolicy
          (machine.work.map fun item => (item.kind, item.step.pathLength)) with
      | none => machine.finish.map fun machine => (none, machine)
      | some workIndex =>
          match machine.work[workIndex]? with
          | none => .error .invalidFrameIndex
          | some item => do
              let (step, next) ← machine.consumeItem workIndex item
              match step with
              | some step => return (some step, next)
              | none => consumeLoop fuel next

def consumeNext (machine : PathMachine Entry) :
    Except TraversalError (Option (Step Entry) × PathMachine Entry) :=
  consumeLoop machine.work.length machine

end PathMachine

section Consistent

/-- The used edges are the given ones, and their flags are there. -/
def EdgeState.UsedExactly (state : EdgeState) (used : List Nat) : Prop :=
  (∀ index ∈ used, index < state.flags.length) ∧
    ∀ index flags, state.flags[index]? = some flags → (flags.used = true ↔ index ∈ used)

/-- The stacks, the used flags and the depth are those of a path. -/
structure ActivePath.Follows (path : ActivePath) (active : Path Entry) : Prop where
  edgeIds : ∀ stack, path.pathStack = some stack → stack = active.map PathStep.edgeId
  edgeIndexes : path.pathEdgeIndexStack = active.map PathStep.edgeIndex
  vertices : ∃ start, path.pathVertexStack = start :: active.map PathStep.nextVertexId
  used : path.edgeState.UsedExactly (active.map PathStep.edgeIndex)
  depth : path.pathDepth = (active.getLast?.map PathStep.pathLength).getD 0

namespace EdgeState

theorem flagAt_ok {state : EdgeState} {index : Nat} {flags : EdgeFlags} :
    state.flagAt index = .ok flags ↔ state.flags[index]? = some flags := by
  unfold flagAt
  split <;> simp_all

theorem flagAt_of_lt {state : EdgeState} {index : Nat} (inside : index < state.flags.length) :
    state.flagAt index = .ok state.flags[index] := by
  rw [flagAt_ok, List.getElem?_eq_getElem inside]

theorem setUsed_of_lt {state : EdgeState} {index : Nat} (inside : index < state.flags.length)
    (used : Bool) : state.setUsed index used =
      .ok (state.setFlags index { state.flags[index] with used := used }) := by
  unfold setUsed
  rw [flagAt_of_lt inside]
  rfl

/-- Whether the flags agree apart from `USED`. -/
def SameMatches (a b : EdgeState) : Prop :=
  a.useLocal = b.useLocal ∧ a.localEdgeIndex = b.localEdgeIndex ∧
    a.flags.map (fun flags => { flags with used := false }) =
      b.flags.map (fun flags => { flags with used := false })

theorem SameMatches.length {a b : EdgeState} (same : SameMatches a b) :
    a.flags.length = b.flags.length := by
  have lengths := congrArg List.length same.2.2
  simpa using lengths

theorem SameMatches.setUsed {a b : EdgeState} (same : SameMatches a b) {index : Nat}
    (inside : index < a.flags.length) (used : Bool) :
    SameMatches (a.setFlags index { a.flags[index] with used := used }) b := by
  refine ⟨same.1, same.2.1, ?_⟩
  rw [← same.2.2, setFlags, List.map_set]
  apply List.ext_getElem?
  intro place
  rw [List.getElem?_set]
  split_ifs with here short
  · subst here
    simp [List.getElem?_eq_getElem inside]
  · subst here
    simp at short
    omega
  · rfl

/-- Edge states with the same matches and the same used edges are the same. -/
theorem eq_of_sameMatches {a b : EdgeState} {used : List Nat} (same : SameMatches a b)
    (usedA : a.UsedExactly used) (usedB : b.UsedExactly used) : a = b := by
  obtain ⟨useLocal, indexes, flags⟩ := same
  have equal : a.flags = b.flags := by
    apply List.ext_getElem?
    intro place
    have here := congrArg (fun list : List EdgeFlags => list[place]?) flags
    simp only [List.getElem?_map] at here
    cases flagA : a.flags[place]? with
    | none => cases flagB : b.flags[place]? with
      | none => rfl
      | some other => simp [flagA, flagB] at here
    | some flag => cases flagB : b.flags[place]? with
      | none => simp [flagA, flagB] at here
      | some other =>
          simp only [flagA, flagB, Option.map_some, Option.some.injEq, EdgeFlags.mk.injEq,
            true_and] at here
          have sameUsed : flag.used = other.used := by
            rw [Bool.eq_iff_iff, usedA.2 place flag flagA, usedB.2 place other flagB]
          cases flag
          cases other
          simp_all
  cases a
  cases b
  simp_all

theorem usedExactly_setUsed {state : EdgeState} {used : List Nat}
    (exactly : state.UsedExactly used) {index : Nat} (inside : index < state.flags.length) :
    (state.setFlags index { state.flags[index] with used := true }).UsedExactly
      (used ++ [index]) := by
  refine ⟨fun other membership => ?_, fun other flags found => ?_⟩
  · simp only [setFlags, List.length_set]
    rcases List.mem_append.mp membership with old | new
    · exact exactly.1 other old
    · rw [List.mem_singleton.mp new]
      exact inside
  · simp only [setFlags, List.getElem?_set] at found
    split_ifs at found with here
    · subst here
      injection found with found
      subst found
      simp
    · have known := exactly.2 other flags found
      simp [known, Ne.symm here]

/-- Clearing all used edges keeps what is known of matches. -/
theorem clearUsed_ok {state : EdgeState} {indexes : List Nat}
    (inside : ∀ index ∈ indexes, index < state.flags.length)
    (covered : ∀ index flags, state.flags[index]? = some flags → flags.used = true →
      index ∈ indexes) :
    ∃ cleared, ActivePath.clearUsed state indexes = .ok cleared ∧ cleared.SameMatches state ∧
      cleared.UsedExactly [] := by
  induction indexes generalizing state with
  | nil =>
      refine ⟨state, rfl, ⟨rfl, rfl, rfl⟩, by simp, fun index flags found => ?_⟩
      simpa using covered index flags found
  | cons head tail inductionHypothesis =>
      have headInside := inside head List.mem_cons_self
      obtain ⟨cleared, run, same, none⟩ := @inductionHypothesis
        (state.setFlags head { state.flags[head] with used := false })
        (fun index membership => by
          simpa [setFlags] using inside index (List.mem_cons_of_mem _ membership))
        (fun index flags found used => by
          simp only [setFlags, List.getElem?_set] at found
          split_ifs at found with here
          · injection found with found
            subst found
            cases used
          · exact (List.mem_cons.mp (covered index flags found used)).resolve_left
              (Ne.symm here))
      refine ⟨cleared, ?_, ?_, none⟩
      · simp only [ActivePath.clearUsed, setUsed_of_lt headInside, bind, Except.bind]
        exact run
      · have step := SameMatches.setUsed (a := state) (b := state) ⟨rfl, rfl, rfl⟩ headInside false
        exact ⟨same.1.trans step.1, same.2.1.trans step.2.1, same.2.2.trans step.2.2⟩

end EdgeState

namespace ActivePath

variable {path : ActivePath} {active : Path Entry}

theorem Follows.clear (follows : path.Follows active) :
    ∃ cleared, path.clear = .ok cleared ∧ cleared.Follows ([] : Path Entry) ∧
      cleared.edgeState.SameMatches path.edgeState ∧
      cleared.pathStack = path.pathStack.map (fun _ => []) ∧
      cleared.pathVertexStack = path.pathVertexStack.take 1 := by
  obtain ⟨edgeState, run, same, none⟩ := @EdgeState.clearUsed_ok path.edgeState
    path.pathEdgeIndexStack (by
      rw [follows.edgeIndexes]
      exact follows.used.1) (fun index flags found used => by
      rw [follows.edgeIndexes]
      exact (follows.used.2 index flags found).mp used)
  obtain ⟨start, vertices⟩ := follows.vertices
  refine ⟨_, by rw [ActivePath.clear, run]; rfl, ?_, same, rfl, rfl⟩
  refine ⟨fun stack found => ?_, rfl, ⟨start, by simp [vertices]⟩, none, rfl⟩
  cases stored : path.pathStack <;> simp_all

theorem Follows.enter (follows : path.Follows active) {step : PathStep Entry}
    (inside : step.edgeIndex < path.edgeState.flags.length) :
    ∃ entered, path.enter step = .ok entered ∧ entered.Follows (active ++ [step]) ∧
      entered.edgeState.SameMatches path.edgeState ∧
      entered.pathStack = path.pathStack.map (· ++ [step.edgeId]) ∧
      entered.pathVertexStack = path.pathVertexStack ++ [step.nextVertexId] := by
  obtain ⟨start, vertices⟩ := follows.vertices
  refine ⟨_, by rw [ActivePath.enter, EdgeState.setUsed_of_lt inside]; rfl, ?_, ?_, rfl, rfl⟩
  · refine ⟨fun stack found => ?_, ?_, ⟨start, ?_⟩, ?_, ?_⟩
    · cases stored : path.pathStack with
      | none => simp [stacksPush, stored] at found
      | some old =>
          simp only [stacksPush, stored, Option.map_some, Option.some.injEq] at found
          rw [← found, follows.edgeIds old stored, List.map_append]
          rfl
    · simp [stacksPush, follows.edgeIndexes]
    · simp [stacksPush, vertices]
    · rw [List.map_append]
      exact EdgeState.usedExactly_setUsed follows.used inside
    · simp
  · exact EdgeState.SameMatches.setUsed ⟨rfl, rfl, rfl⟩ inside true

theorem inside_of_setUsed {state after : EdgeState} {index : Nat} {used : Bool}
    (set : state.setUsed index used = .ok after) : index < state.flags.length := by
  cases found : state.flagAt index with
  | error error => simp [EdgeState.setUsed, found, bind, Except.bind] at set
  | ok flags => exact (List.getElem?_eq_some_iff.mp (EdgeState.flagAt_ok.mp found)).1

theorem inside_of_enter {entered : ActivePath} {step : PathStep Entry}
    (run : path.enter step = .ok entered) : step.edgeIndex < path.edgeState.flags.length := by
  cases set : path.edgeState.setUsed step.edgeIndex true with
  | error error => simp [ActivePath.enter, set, bind, Except.bind] at run
  | ok after => exact inside_of_setUsed set

theorem Follows.of_replay (follows : path.Follows active) {target : Path Entry}
    {replayed : ActivePath} (run : target.foldlM ActivePath.enter path = .ok replayed) :
    replayed.Follows (active ++ target) := by
  induction target generalizing path active with
  | nil =>
      cases run
      simpa using follows
  | cons step rest inductionHypothesis =>
      rw [List.foldlM_cons] at run
      cases first : path.enter step with
      | error error => rw [first] at run; cases run
      | ok middle =>
          obtain ⟨entered, same, followsStep, -⟩ := follows.enter (inside_of_enter first)
          rw [first] at same run
          cases same
          simpa using inductionHypothesis followsStep run

theorem Follows.replay (follows : path.Follows active) {target : Path Entry}
    (inside : ∀ step ∈ target, step.edgeIndex < path.edgeState.flags.length) :
    ∃ replayed, target.foldlM ActivePath.enter path = .ok replayed ∧
      replayed.Follows (active ++ target) ∧
      replayed.edgeState.SameMatches path.edgeState ∧
      replayed.pathStack = path.pathStack.map (· ++ target.map PathStep.edgeId) ∧
      replayed.pathVertexStack = path.pathVertexStack ++ target.map PathStep.nextVertexId := by
  induction target generalizing path active with
  | nil =>
      refine ⟨path, rfl, by simpa using follows, ⟨rfl, rfl, rfl⟩, ?_, by simp⟩
      cases path.pathStack <;> simp
  | cons step rest inductionHypothesis =>
      obtain ⟨entered, run, followsStep, same, stack, vertices⟩ :=
        follows.enter (inside step List.mem_cons_self)
      obtain ⟨replayed, runRest, followsRest, sameRest, stackRest, verticesRest⟩ :=
        inductionHypothesis followsStep (fun other membership => by
          rw [same.length]
          exact inside other (List.mem_cons_of_mem _ membership))
      refine ⟨replayed, ?_, by simpa using followsRest, ?_, ?_, ?_⟩
      · rw [List.foldlM_cons, run]
        exact runRest
      · exact ⟨sameRest.1.trans same.1, sameRest.2.1.trans same.2.1,
          sameRest.2.2.trans same.2.2⟩
      · rw [stackRest, stack]
        cases path.pathStack <;> simp
      · rw [verticesRest, vertices]
        simp

/-- Taking the last edge off the path, when no other edge of it has its flags. -/
theorem Follows.leave {step : PathStep Entry} (follows : path.Follows (active ++ [step]))
    (fresh : step.edgeIndex ∉ active.map PathStep.edgeIndex)
    (depth : step.pathLength - 1 = (active.getLast?.map PathStep.pathLength).getD 0) :
    ∃ left, path.leave step.edgeIndex = .ok left ∧ left.Follows active ∧
      left.edgeState.SameMatches path.edgeState ∧
      left.pathVertexStack = path.pathVertexStack.dropLast := by
  have inside : step.edgeIndex < path.edgeState.flags.length := follows.used.1 _ (by simp)
  obtain ⟨start, vertices⟩ := follows.vertices
  refine ⟨_, by rw [ActivePath.leave, EdgeState.setUsed_of_lt inside]; rfl, ?_, ?_, rfl⟩
  · refine ⟨fun stack found => ?_, ?_, ⟨start, ?_⟩, ⟨fun index membership => ?_,
      fun index flags found => ?_⟩, ?_⟩
    · cases stored : path.pathStack with
      | none => simp [stacksPop, stored] at found
      | some old =>
          have same := follows.edgeIds old stored
          simp only [stacksPop, stored, Option.map_some, Option.some.injEq] at found
          simp [← found, same]
    · simp [stacksPop, follows.edgeIndexes]
    · rw [List.map_append, List.map_singleton, ← List.cons_append] at vertices
      simp only [stacksPop, vertices, List.dropLast_concat]
    · simpa [EdgeState.setFlags, stacksPop] using follows.used.1 index (by
        simp only [List.map_append, List.mem_append]
        exact .inl membership)
    · simp only [stacksPop, EdgeState.setFlags, List.getElem?_set] at found
      split_ifs at found with here
      · cases found
        subst here
        simp [fresh]
      · rw [follows.used.2 index flags found]
        simp [Ne.symm here]
    · have last := follows.depth
      rw [List.getLast?_concat, Option.map_some, Option.getD_some] at last
      rw [← depth, ← last]
  · exact EdgeState.SameMatches.setUsed ⟨rfl, rfl, rfl⟩ inside false

/-- Clearing the active path and replaying another one. -/
theorem Follows.switch (follows : path.Follows active) {target : Path Entry}
    (inside : ∀ step ∈ target, step.edgeIndex < path.edgeState.flags.length) :
    ∃ switched, (path.clear >>= fun cleared => target.foldlM ActivePath.enter cleared) =
        .ok switched ∧ switched.Follows target ∧
      switched.edgeState.SameMatches path.edgeState ∧
      switched.pathStack = path.pathStack.map (fun _ => target.map PathStep.edgeId) ∧
      switched.pathVertexStack =
        path.pathVertexStack.take 1 ++ target.map PathStep.nextVertexId := by
  obtain ⟨cleared, run, followsNone, same, stack, vertices⟩ := follows.clear
  obtain ⟨switched, replay, followsTarget, sameTarget, stackTarget, verticesTarget⟩ :=
    followsNone.replay (fun step (membership : step ∈ target) => by
      rw [same.length]
      exact inside step membership)
  refine ⟨switched, by rw [run]; exact replay, by simpa using followsTarget, ?_, ?_, ?_⟩
  · exact ⟨sameTarget.1.trans same.1, sameTarget.2.1.trans same.2.1,
      sameTarget.2.2.trans same.2.2⟩
  · rw [stackTarget, stack]
    cases path.pathStack <;> simp
  · rw [verticesTarget, vertices]

/-- Replaying the active path changes nothing. -/
theorem Follows.switch_self (follows : path.Follows active) :
    (path.clear >>= fun cleared => active.foldlM ActivePath.enter cleared) = .ok path := by
  obtain ⟨switched, run, followsSame, same, stack, vertices⟩ :=
    follows.switch (fun step (membership : step ∈ active) =>
      follows.used.1 _ (List.mem_map_of_mem membership))
  rw [run]
  obtain ⟨start, pathVertices⟩ := follows.vertices
  have edgeStates := EdgeState.eq_of_sameMatches same followsSame.used follows.used
  have sameStacks : switched.pathStack = path.pathStack := by
    rw [stack]
    cases stored : path.pathStack with
    | none => rfl
    | some edges => rw [Option.map_some, follows.edgeIds edges stored]
  have indexes : switched.pathEdgeIndexStack = path.pathEdgeIndexStack := by
    rw [followsSame.edgeIndexes, follows.edgeIndexes]
  have vertexStacks : switched.pathVertexStack = path.pathVertexStack := by
    rw [vertices, pathVertices]
    rfl
  have depths : switched.pathDepth = path.pathDepth := by
    rw [followsSame.depth, follows.depth]
  cases switched
  cases path
  simp_all

end ActivePath

end Consistent

end Age.Vle
