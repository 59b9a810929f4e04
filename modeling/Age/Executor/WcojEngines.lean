import Age.Executor.WcojProviders

/-!
# Engines of the WCOJ join

Three engines look for the next key that all providers have: leapfrog seeks up to the largest
current key, merge drops the smallest one, progressive asks the other providers for the keys of a
seed.  The progressive engine first filters an adjacency seed by the other adjacency providers, and
gives way to merge where that does not pay.  Whichever engines run, the groups that come out are
those of the common keys in their order.
-/

namespace Age.Executor.WcojJoin

open SortedKeys CommonKeys InPlace
open scoped GenericJoin
open GenericJoin (sortedDistinct mem_sortedDistinct sortedDistinct_sorted)

section Code

/-- `AgeWCOJEngineKind` -/
inductive EngineKind where
  | auto
  | progressive
  | leapfrog
  | merge
  deriving DecidableEq, Repr

/-- `AgeWCOJJoinScanState`: `seed_index` is the first of the `sourceOrder`. -/
structure JoinState (Row : Type) where
  providers : List (Provider Row)
  sourceOrder : List Nat
  requestedEngine : EngineKind
  plannedEngine : EngineKind
  actualEngine : EngineKind
  fallbackReason : String
  progressiveSetupDone : Bool
  progressiveProbes : Nat
  progressiveMatches : Nat

variable {Row : Type} (keyOf : Row → Option GraphId)

/-- `AGE_WCOJ_PROGRESSIVE_MAX_SEED_POSTINGS` -/
def ageWcojProgressiveMaxSeedPostings : Nat := 65536

/-- `AGE_WCOJ_PROGRESSIVE_DENSE_SAMPLE` -/
def ageWcojProgressiveDenseSample : Nat := 1024

/-- `AGE_WCOJ_PROGRESSIVE_DENSE_NUMERATOR` -/
def ageWcojProgressiveDenseNumerator : Nat := 3

/-- `AGE_WCOJ_PROGRESSIVE_DENSE_DENOMINATOR` -/
def ageWcojProgressiveDenseDenominator : Nat := 4

/-- `increment_wcoj_counter` -/
def incrementWcojCounter (counter : Nat) : Nat :=
  if counter < 9223372036854775807 then counter + 1 else counter

/-- The shift of a source to its place, which is the loop inside the insertion sort of
`create_age_wcoj_join_scan_state` -/
def insertSource (greater : Nat → Nat → Bool) (source : Nat) (sourceOrder : List Nat) :
    (position : Nat) → List Nat
  | 0 => sourceOrder.set 0 source
  | position + 1 =>
      match sourceOrder[position]? with
      | none => sourceOrder.set (position + 1) source
      | some previous =>
          if greater previous source then
            insertSource greater source (sourceOrder.set (position + 1) previous) position
          else sourceOrder.set (position + 1) source

/-- The insertion sort of the sources by their estimated postings -/
def orderSources (greater : Nat → Nat → Bool) (arity : Nat) : List Nat :=
  (List.range arity).foldl
    (fun sourceOrder index => insertSource greater index sourceOrder index) (List.range arity)

/-- A loop over the providers that ends at the first that has no key left -/
def eachProvider (step : Provider Row → Except WcojError (Bool × Provider Row)) :
    List (Provider Row) → Except WcojError (Bool × List (Provider Row))
  | [] => .ok (true, [])
  | provider :: rest => do
      let (more, provider) ← step provider
      if !more then return (false, provider :: rest)
      else
        let (all, rest) ← eachProvider step rest
        return (all, provider :: rest)

/-- `initialize_age_wcoj_providers` -/
def initializeAgeWcojProviders (providers : List (Provider Row)) :
    Except WcojError (Bool × List (Provider Row)) :=
  eachProvider (fun provider => provider.firstDistinct keyOf) providers

/-- `max_key` and `min_key`: the first key that no other one surpasses -/
def extremeKey (surpasses : GraphId → GraphId → Bool) : GraphId → List (Provider Row) → GraphId
  | key, [] => key
  | key, provider :: rest =>
      extremeKey surpasses (if surpasses provider.currentKey key then provider.currentKey else key)
        rest

/-- The loop of `align_age_wcoj_leapfrog` -/
def leapfrogLoop : (fuel : Nat) → List (Provider Row) →
    Except WcojError (Option GraphId × List (Provider Row))
  | 0, _ => .error .outOfFuel
  | _ + 1, [] => .error .noProvider
  | fuel + 1, first :: rest => do
      let maxKey := extremeKey (fun key other => other < key) first.currentKey rest
      let (all, providers) ← eachProvider (fun provider =>
        if provider.currentKey < maxKey then provider.seekGe keyOf maxKey
        else .ok (true, provider)) (first :: rest)
      if !all then return (none, providers)
      else if providers.all (·.currentKey = maxKey) then return (some maxKey, providers)
      else leapfrogLoop fuel providers

/-- `align_age_wcoj_leapfrog` -/
def alignAgeWcojLeapfrog (fuel : Nat) (state : JoinState Row) :
    Except WcojError (Option GraphId × JoinState Row) := do
  let (all, providers) ← initializeAgeWcojProviders keyOf state.providers
  if !all then return (none, { state with providers := providers })
  else
    let (key, providers) ← leapfrogLoop keyOf fuel providers
    return (key, { state with providers := providers })

/-- The loop of `align_age_wcoj_merge` -/
def mergeLoop : (fuel : Nat) → List (Provider Row) →
    Except WcojError (Option GraphId × List (Provider Row))
  | 0, _ => .error .outOfFuel
  | _ + 1, [] => .error .noProvider
  | fuel + 1, first :: rest => do
      let minKey := extremeKey (fun key other => key < other) first.currentKey rest
      let maxKey := extremeKey (fun key other => other < key) first.currentKey rest
      if minKey = maxKey then return (some minKey, first :: rest)
      else
        let (all, providers) ← eachProvider (fun provider =>
          if provider.currentKey = minKey then provider.nextDistinct keyOf
          else .ok (true, provider)) (first :: rest)
        if !all then return (none, providers)
        else mergeLoop fuel providers

/-- `align_age_wcoj_merge` -/
def alignAgeWcojMerge (fuel : Nat) (state : JoinState Row) :
    Except WcojError (Option GraphId × JoinState Row) := do
  let (all, providers) ← initializeAgeWcojProviders keyOf state.providers
  if !all then return (none, { state with providers := providers })
  else
    let (key, providers) ← mergeLoop keyOf fuel providers
    return (key, { state with providers := providers })

/-- `rescan_age_wcoj_providers` -/
def rescanAgeWcojProviders (providers : List (Provider Row)) : List (Provider Row) :=
  providers.map Provider.rescan

/-- The loop of `prepare_age_wcoj_progressive_exact_set` over the stages; nothing is left of the
candidates where their overlap is dense. -/
def filterStages (requestedEngine : EngineKind) (seedCount : Nat) :
    (stages : List Nat) → (filterCount : Nat) → (candidates : List GraphId) →
      List (Provider Row) → Except WcojError (Option (List GraphId) × List (Provider Row))
  | [], _, candidates, providers => .ok (some candidates, providers)
  | stage :: stages, filterCount, candidates, providers =>
      if candidates = [] then .ok (some [], providers)
      else
        match providers[stage]? with
        | none => .error .noProvider
        | some provider =>
            if provider.kind ≠ .adjacency then
              filterStages requestedEngine seedCount stages filterCount candidates providers
            else
              let built := buildAdjacencyProviderFiltered keyOf provider (some candidates) 0
              let providers := providers.set stage built.2
              let candidates :=
                if built.1 = .empty then []
                else counted (intersectAgeWcojGraphids candidates built.2.terminals)
              if filterCount = 0 ∧ requestedEngine = .auto ∧
                  seedCount * ageWcojProgressiveDenseNumerator ≤
                    candidates.length * ageWcojProgressiveDenseDenominator then
                .ok (none, providers)
              else
                filterStages requestedEngine seedCount stages (filterCount + 1) candidates providers

/-- The end of `prepare_age_wcoj_progressive_exact_set`: the seed stands before the candidates. -/
def Provider.compacted (seed : Provider Row) (candidates : List GraphId) : Provider Row :=
  { seed with
    terminals := candidates, terminalIndex := 0, hasCurrent := !candidates.isEmpty
    exhausted := candidates.isEmpty, currentKey := candidates.head?.getD seed.currentKey }

/-- `prepare_age_wcoj_progressive_exact_set` -/
def prepareAgeWcojProgressiveExactSet (state : JoinState Row) :
    Except WcojError (Bool × JoinState Row) :=
  if state.progressiveSetupDone then .ok (true, state)
  else
    let state := { state with progressiveSetupDone := true }
    match state.sourceOrder with
    | [] => .error .noProvider
    | seedIndex :: stages =>
        match state.providers[seedIndex]? with
        | none => .error .noProvider
        | some seed =>
            if seed.kind ≠ .adjacency then .ok (true, state)
            else
              match buildAdjacencyProviderFiltered keyOf seed none
                  ageWcojProgressiveMaxSeedPostings with
              | (.oversize, _) =>
                  let state := { state with providers := rescanAgeWcojProviders state.providers }
                  .ok (true, if state.requestedEngine = .auto then { state with
                      actualEngine := .merge
                      fallbackReason := "progressive seed exceeds exact-set cap" }
                    else state)
              | (.empty, seed) =>
                  .ok (false, { state with providers := state.providers.set seedIndex seed })
              | (.ready, seed) => do
                  let (candidates, providers) ← filterStages keyOf state.requestedEngine
                    seed.terminals.length stages 0 seed.terminals
                    (state.providers.set seedIndex seed)
                  match candidates with
                  | none =>
                      return (true, { state with
                        providers := rescanAgeWcojProviders providers, actualEngine := .merge
                        fallbackReason := "dense progressive exact-set overlap" })
                  | some candidates =>
                      return (!candidates.isEmpty, { state with
                        providers := providers.set seedIndex (seed.compacted candidates) })

/-- What the probes of a candidate come to -/
inductive ProbeOutcome where
  | ended
  | restart
  | matched
  deriving DecidableEq, Repr

/-- An operation on the provider at a place -/
def atProvider (providers : List (Provider Row)) (place : Nat)
    (step : Provider Row → Except WcojError (Bool × Provider Row)) :
    Except WcojError (Bool × Provider Row × List (Provider Row)) :=
  match providers[place]? with
  | none => .error .noProvider
  | some provider => do
      let (more, provider) ← step provider
      return (more, provider, providers.set place provider)

/-- The stages of `align_age_wcoj_progressive` for one candidate -/
def probeStages (seedIndex : Nat) (candidate : GraphId) :
    (stages : List Nat) → List (Provider Row) →
      Except WcojError (ProbeOutcome × List (Provider Row))
  | [], providers => .ok (.matched, providers)
  | stage :: stages, providers => do
      let (more, provider, providers) ←
        atProvider providers stage fun provider => provider.seekGe keyOf candidate
      if !more then return (.ended, providers)
      else if candidate < provider.currentKey then
        let (more, _, providers) ←
          atProvider providers seedIndex fun seed => seed.seekGe keyOf provider.currentKey
        return (if more then .restart else .ended, providers)
      else probeStages seedIndex candidate stages providers

/-- The loop of `align_age_wcoj_progressive` -/
def progressiveLoop (seedIndex : Nat) (stages : List Nat) :
    (fuel : Nat) → JoinState Row → Except WcojError (Option GraphId × JoinState Row)
  | 0, _ => .error .outOfFuel
  | fuel + 1, state =>
      match state.providers[seedIndex]? with
      | none => .error .noProvider
      | some seed => do
          let candidate := seed.currentKey
          let probes := incrementWcojCounter state.progressiveProbes
          let (outcome, providers) ←
            probeStages keyOf seedIndex candidate stages state.providers
          let state := { state with providers := providers, progressiveProbes := probes }
          match outcome with
          | .ended => return (none, state)
          | .restart => progressiveLoop seedIndex stages fuel state
          | .matched =>
              return (some candidate, { state with
                progressiveMatches := incrementWcojCounter state.progressiveMatches })

/-- `align_age_wcoj_progressive` -/
def alignAgeWcojProgressive (fuel : Nat) (state : JoinState Row) :
    Except WcojError (Option GraphId × JoinState Row) := do
  let (more, state) ← prepareAgeWcojProgressiveExactSet keyOf state
  if !more then return (none, state)
  else if state.actualEngine ≠ .progressive then alignAgeWcojMerge keyOf fuel state
  else
    let (all, providers) ← initializeAgeWcojProviders keyOf state.providers
    let state := { state with providers := providers }
    if !all then return (none, state)
    else
      match state.sourceOrder with
      | [] => .error .noProvider
      | seedIndex :: stages => progressiveLoop keyOf seedIndex stages fuel state

/-- `maybe_fallback_from_progressive` -/
def maybeFallbackFromProgressive (state : JoinState Row) : JoinState Row :=
  if state.requestedEngine ≠ .auto ∨ state.actualEngine ≠ .progressive ∨
      state.progressiveProbes < ageWcojProgressiveDenseSample then state
  else if state.progressiveProbes * ageWcojProgressiveDenseNumerator ≤
      state.progressiveMatches * ageWcojProgressiveDenseDenominator then
    { state with actualEngine := .merge, fallbackReason := "dense progressive overlap" }
  else state

/-- `find_next_age_wcoj_survivor` -/
def findNextAgeWcojSurvivor (fuel : Nat) (state : JoinState Row) :
    Except WcojError (Option GraphId × JoinState Row) :=
  let state := maybeFallbackFromProgressive state
  match state.actualEngine with
  | .progressive => alignAgeWcojProgressive keyOf fuel state
  | .leapfrog => alignAgeWcojLeapfrog keyOf fuel state
  | .merge => alignAgeWcojMerge keyOf fuel state
  | .auto => .error .invalidEngine

/-- The loop of `collect_age_wcoj_group` -/
def collectAgeWcojGroup (matchedKey : GraphId) :
    List (Provider Row) → Except WcojError (List (List Row) × List (Provider Row))
  | [] => .ok ([], [])
  | provider :: rest => do
      let (group, provider) ← provider.materializeGroup keyOf matchedKey
      let (groups, rest) ← collectAgeWcojGroup matchedKey rest
      return (group :: groups, provider :: rest)

/-- `prepare_age_wcoj_group` without survivor blocks; no group is there when the state is
exhausted. -/
def prepareAgeWcojGroup (alignFuel : Nat) :
    (fuel : Nat) → JoinState Row →
      Except WcojError (Option (GraphId × List (List Row)) × JoinState Row)
  | 0, _ => .error .outOfFuel
  | fuel + 1, state => do
      let (key, state) ← findNextAgeWcojSurvivor keyOf alignFuel state
      match key with
      | none => return (none, state)
      | some key =>
          let (groups, providers) ← collectAgeWcojGroup keyOf key state.providers
          let state := { state with providers := providers }
          if groups.all (!·.isEmpty) then return (some (key, groups), state)
          else prepareAgeWcojGroup alignFuel fuel state

/-- The groups that are prepared one after the other until the state is exhausted -/
def ageWcojGroups (alignFuel : Nat) :
    (fuel : Nat) → JoinState Row → Except WcojError (List (GraphId × List (List Row)))
  | 0, _ => .error .outOfFuel
  | fuel + 1, state => do
      let (group, state) ← prepareAgeWcojGroup keyOf alignFuel alignFuel state
      match group with
      | none => return []
      | some group =>
          let groups ← ageWcojGroups alignFuel fuel state
          return group :: groups

/-- `rescan_age_wcoj_join_scan`, and the state that the scan begins in -/
def rescanAgeWcojJoinScan (state : JoinState Row) : JoinState Row :=
  { state with
    providers := rescanAgeWcojProviders state.providers, actualEngine := state.plannedEngine
    fallbackReason := "none", progressiveSetupDone := false }

end Code

section SourceOrder

variable {greater : Nat → Nat → Bool}

theorem insertSource_past {source position place : Nat} {sourceOrder : List Nat}
    (past : position < place) :
    (insertSource greater source sourceOrder position)[place]? = sourceOrder[place]? := by
  induction position generalizing sourceOrder with
  | zero => exact List.getElem?_set_ne past.ne
  | succ position inductionHypothesis =>
      rw [insertSource]
      split
      · exact List.getElem?_set_ne past.ne
      · split_ifs
        · rw [inductionHypothesis (Nat.lt_of_succ_lt past), List.getElem?_set_ne past.ne]
        · exact List.getElem?_set_ne past.ne

/-- A shift is a swap with the source that is to come to the place. -/
theorem insertSource_perm {source position : Nat} {sourceOrder : List Nat}
    (inside : position < sourceOrder.length) :
    (insertSource greater source sourceOrder position).Perm (sourceOrder.set position source) := by
  induction position generalizing sourceOrder with
  | zero => exact List.Perm.refl _
  | succ position inductionHypothesis =>
      rw [insertSource]
      split
      · exact List.Perm.refl _
      · rename_i previous found
        split_ifs
        · have before : position < sourceOrder.length := Nat.lt_of_succ_lt inside
          obtain ⟨_, rfl⟩ := List.getElem?_eq_some_iff.1 found
          apply (inductionHypothesis (by rw [List.length_set]; exact before)).trans
          have swapped := @List.set_set_perm _ (sourceOrder.set (position + 1) source) position
            (position + 1) (by rw [List.length_set]; exact before)
            (by rw [List.length_set]; exact inside)
          rw [List.getElem_set_self, List.getElem_set_ne (by omega),
            List.set_comm _ _ (by omega : position ≠ position + 1), List.set_set] at swapped
          exact swapped
        · exact List.Perm.refl _

/-- The sort of the sources loses none of them. -/
theorem orderSources_perm (arity : Nat) : (orderSources greater arity).Perm (List.range arity) := by
  have sorts (count : Nat) (bounded : count ≤ arity) :
      ((List.range count).foldl
        (fun sourceOrder index => insertSource greater index sourceOrder index)
        (List.range arity)).Perm (List.range arity) ∧
      ∀ place, count ≤ place → ((List.range count).foldl
        (fun sourceOrder index => insertSource greater index sourceOrder index)
        (List.range arity))[place]? = (List.range arity)[place]? := by
    induction count with
    | zero => exact ⟨List.Perm.refl _, fun _ _ => rfl⟩
    | succ count inductionHypothesis =>
        obtain ⟨perm, rest⟩ := inductionHypothesis (Nat.le_of_succ_le bounded)
        rw [List.range_succ, List.foldl_append, List.foldl_cons, List.foldl_nil]
        constructor
        · have inside : count < (List.range arity).length := by
            rw [List.length_range]
            exact bounded
          have stays := rest count (Nat.le_refl _)
          apply (insertSource_perm (by rw [perm.length_eq]; exact inside)).trans
          rw [List.getElem?_range bounded] at stays
          rw [set_found stays]
          exact perm
        · intro place past
          rw [insertSource_past past, rest place (Nat.le_of_succ_le past)]
  exact (sorts arity (Nat.le_refl _)).1

end SourceOrder

section Cursors

variable {Row : Type} {keyOf : Row → Option GraphId}

/-- A provider stands at the first of the keys. -/
structure Cursor (keyOf : Row → Option GraphId) (provider : Provider Row) (keys : List GraphId) :
    Prop where
  stands : Stands keyOf provider keys
  head : keys.head? = some provider.currentKey
  current : provider.hasCurrent = true

/-- What the groups of a provider come from -/
def Provider.source (provider : Provider Row) : ProviderKind × List Row × (Row → Bool) :=
  (provider.kind, provider.rows, provider.localQual)

theorem SameSource.source_eq {provider next : Provider Row} (same : SameSource provider next) :
    next.source = provider.source := by
  rw [Provider.source, Provider.source, same.kind, same.rows, same.localQual]

theorem group_of_source {provider next : Provider Row} (same : next.source = provider.source)
    (key : GraphId) : next.group keyOf key = provider.group keyOf key := by
  obtain ⟨kind, rows, localQual⟩ : next.kind = provider.kind ∧ next.rows = provider.rows ∧
      next.localQual = provider.localQual := by
    simpa [Provider.source] using same
  rw [Provider.group, Provider.group, kind, rows, localQual]

theorem Reached.cursor {provider next : Provider Row} {keys : List GraphId}
    (reached : Reached keyOf provider next keys) (nonempty : keys ≠ []) :
    Cursor keyOf next keys := by
  refine ⟨reached.stands, ?_, reached.current nonempty⟩
  obtain ⟨key, rest, rfl⟩ := List.exists_cons_of_ne_nil nonempty
  rw [reached.atKey key rfl]
  rfl

/-- The providers stand before the keys of the cursors. -/
abbrev AllStand (keyOf : Row → Option GraphId) (providers : List (Provider Row))
    (cursors : List (List GraphId)) : Prop :=
  List.Forall₂ (Stands keyOf) providers cursors

/-- The providers stand at the first keys of the cursors. -/
abbrev AllAt (keyOf : Row → Option GraphId) (providers : List (Provider Row))
    (cursors : List (List GraphId)) : Prop :=
  List.Forall₂ (Cursor keyOf) providers cursors

theorem AllAt.stand {providers : List (Provider Row)} {cursors : List (List GraphId)}
    (at_ : AllAt keyOf providers cursors) : AllStand keyOf providers cursors :=
  at_.imp fun _ _ cursor => cursor.stands

theorem AllStand.sorted {providers : List (Provider Row)} {cursors : List (List GraphId)}
    (stand : AllStand keyOf providers cursors) : Sorted cursors := by
  induction stand with
  | nil =>
      intro keys inside
      cases inside
  | cons stands _ inductionHypothesis =>
      exact List.forall_mem_cons.2 ⟨stands.sorted, inductionHypothesis⟩

/-- One loop over the providers moves all cursors, or ends at one that has no key left. -/
theorem eachProvider_spec {relation : Provider Row → List GraphId → Prop}
    {step : Provider Row → Except WcojError (Bool × Provider Row)}
    {move : List GraphId → List GraphId}
    (moves : ∀ provider keys, relation provider keys → ∃ next,
      step provider = .ok (!(move keys).isEmpty, next) ∧ Reached keyOf provider next (move keys))
    {providers : List (Provider Row)} {cursors : List (List GraphId)}
    (related : List.Forall₂ relation providers cursors) :
    ∃ next, (eachProvider step providers = .ok (true, next) ∧
        AllAt keyOf next (cursors.map move) ∧
        next.map Provider.source = providers.map Provider.source) ∨
      (eachProvider step providers = .ok (false, next) ∧
        next.map Provider.source = providers.map Provider.source ∧
        ∃ keys ∈ cursors, move keys = []) := by
  induction related with
  | nil => exact ⟨[], .inl ⟨rfl, .nil, rfl⟩⟩
  | @cons provider keys providers cursors here _ inductionHypothesis =>
      obtain ⟨next, ran, reached⟩ := moves provider keys here
      rw [eachProvider, ran]
      cases moved : move keys with
      | nil =>
          refine ⟨next :: providers, .inr ⟨rfl, ?_, keys, List.mem_cons_self, moved⟩⟩
          rw [List.map_cons, List.map_cons, reached.source.source_eq]
      | cons key rest =>
          have cursor : Cursor keyOf next (move keys) :=
            reached.cursor (by rw [moved]; exact List.cons_ne_nil key rest)
          obtain ⟨others, ⟨ranOthers, allAt, sources⟩ | ⟨ranOthers, sources, empty, inside, none⟩⟩ :=
            inductionHypothesis
          · refine ⟨next :: others, .inl ⟨?_, .cons cursor allAt, ?_⟩⟩
            · change (eachProvider step providers >>= _) = _
              rw [ranOthers]
              rfl
            · rw [List.map_cons, List.map_cons, sources, reached.source.source_eq]
          · refine ⟨next :: others, .inr ⟨?_, ?_, empty, List.mem_cons_of_mem keys inside, none⟩⟩
            · change (eachProvider step providers >>= _) = _
              rw [ranOthers]
              rfl
            · rw [List.map_cons, List.map_cons, sources, reached.source.source_eq]

/-- A loop comes to the next common key, or there is none. -/
inductive Found (keyOf : Row → Option GraphId) (providers : List (Provider Row))
    (cursors : List (List GraphId)) : Option GraphId × List (Provider Row) → Prop where
  | key {key : GraphId} {next : List (Provider Row)} {after : List (List GraphId)} :
      Advance cursors after → Agree after key → AllAt keyOf next after →
      next.map Provider.source = providers.map Provider.source →
      Found keyOf providers cursors (some key, next)
  | none {next : List (Provider Row)} : (∀ key, ¬Common cursors key) →
      next.map Provider.source = providers.map Provider.source →
      Found keyOf providers cursors (none, next)

theorem Found.after {providers middle : List (Provider Row)} {cursors ahead : List (List GraphId)}
    {outcome : Option GraphId × List (Provider Row)} (found : Found keyOf middle ahead outcome)
    (advance : Advance cursors ahead)
    (sources : middle.map Provider.source = providers.map Provider.source) :
    Found keyOf providers cursors outcome := by
  cases found with
  | key later agree allAt sourcesLater =>
      exact .key (advance.trans later) agree allAt (sourcesLater.trans sources)
  | none noneCommon sourcesLater =>
      refine Found.none ?_ (sourcesLater.trans sources)
      intro key common
      exact noneCommon key (advance.keeps key common)

theorem initializeAgeWcojProviders_spec {providers : List (Provider Row)}
    {cursors : List (List GraphId)} (stand : AllStand keyOf providers cursors) :
    ∃ next, (initializeAgeWcojProviders keyOf providers = .ok (true, next) ∧
        AllAt keyOf next cursors ∧
        next.map Provider.source = providers.map Provider.source) ∨
      (initializeAgeWcojProviders keyOf providers = .ok (false, next) ∧
        next.map Provider.source = providers.map Provider.source ∧
        ∀ key, ¬Common cursors key) := by
  obtain ⟨next, ⟨ran, allAt, sources⟩ | ⟨ran, sources, empty, inside, none⟩⟩ :=
    @eachProvider_spec _ keyOf _ _ id (fun _ _ stands => firstDistinct_spec stands) _ _ stand
  · rw [List.map_id] at allAt
    exact ⟨next, .inl ⟨ran, allAt, sources⟩⟩
  · refine ⟨next, .inr ⟨ran, sources, ?_⟩⟩
    intro key common
    have impossible := common empty inside
    rw [show empty = [] from none] at impossible
    cases impossible

section Extreme

variable {surpasses : GraphId → GraphId → Bool} {key : GraphId} {providers : List (Provider Row)}

theorem extremeKey_mem : extremeKey surpasses key providers ∈
    key :: providers.map Provider.currentKey := by
  induction providers generalizing key with
  | nil => exact List.mem_cons_self
  | cons provider rest inductionHypothesis =>
      rw [extremeKey, List.map_cons]
      split_ifs
      · exact List.mem_cons_of_mem _ inductionHypothesis
      · rcases List.mem_cons.1 (@inductionHypothesis key) with first | later
        · rw [first]
          exact List.mem_cons_self
        · exact List.mem_cons_of_mem _ (List.mem_cons_of_mem _ later)

/-- None of the keys surpasses the extreme one. -/
theorem not_surpasses_extremeKey
    (trans : ∀ first second third, surpasses first second = false →
      surpasses second third = false → surpasses first third = false)
    (asymm : ∀ first second, surpasses first second = true → surpasses second first = false)
    {other : GraphId} (inside : other ∈ key :: providers.map Provider.currentKey) :
    surpasses other (extremeKey surpasses key providers) = false := by
  have irrefl (same : GraphId) : surpasses same same = false := by
    cases self : surpasses same same with
    | false => rfl
    | true =>
        rw [← self]
        exact asymm same same self
  induction providers generalizing key other with
  | nil =>
      rw [List.map_nil, List.mem_singleton] at inside
      rw [inside]
      exact irrefl key
  | cons provider rest inductionHypothesis =>
      rw [extremeKey]
      split_ifs with replaced
      · rcases List.mem_cons.1 inside with first | inside
        · rw [first]
          exact trans key provider.currentKey _ (asymm _ _ replaced)
            (inductionHypothesis List.mem_cons_self)
        · exact inductionHypothesis inside
      · rcases List.mem_cons.1 inside with first | inside
        · exact inductionHypothesis (first ▸ List.mem_cons_self)
        · rcases List.mem_cons.1 inside with second | inside
          · rw [second]
            exact trans provider.currentKey key _ (by simpa using replaced)
              (inductionHypothesis List.mem_cons_self)
          · exact inductionHypothesis (List.mem_cons_of_mem _ inside)

end Extreme

end Cursors

section Loops

variable {Row : Type} {keyOf : Row → Option GraphId} {providers : List (Provider Row)}
  {cursors : List (List GraphId)}

theorem AllAt.exists_provider (allAt : AllAt keyOf providers cursors) {keys : List GraphId}
    (inside : keys ∈ cursors) : ∃ provider ∈ providers, Cursor keyOf provider keys := by
  induction allAt with
  | nil => cases inside
  | @cons provider first providers cursors cursor _ inductionHypothesis =>
      rcases List.mem_cons.1 inside with rfl | later
      · exact ⟨provider, List.mem_cons_self, cursor⟩
      · obtain ⟨other, isProvider, found⟩ := inductionHypothesis later
        exact ⟨other, List.mem_cons_of_mem _ isProvider, found⟩

theorem AllAt.exists_keys (allAt : AllAt keyOf providers cursors) {provider : Provider Row}
    (inside : provider ∈ providers) : ∃ keys ∈ cursors, Cursor keyOf provider keys := by
  induction allAt with
  | nil => cases inside
  | @cons first keys providers cursors cursor _ inductionHypothesis =>
      rcases List.mem_cons.1 inside with rfl | later
      · exact ⟨keys, List.mem_cons_self, cursor⟩
      · obtain ⟨other, isKeys, found⟩ := inductionHypothesis later
        exact ⟨other, List.mem_cons_of_mem _ isKeys, found⟩

theorem AllAt.nonempty {first : Provider Row} {rest : List (Provider Row)}
    (allAt : AllAt keyOf (first :: rest) cursors) : cursors ≠ [] := by
  rintro rfl
  cases allAt

section Keys

variable {first : Provider Row} {rest : List (Provider Row)}

theorem le_maxKey {provider : Provider Row} (inside : provider ∈ first :: rest) :
    provider.currentKey ≤ extremeKey (fun key other => other < key) first.currentKey rest := by
  have bound := @not_surpasses_extremeKey Row (fun key other => decide (other < key))
    first.currentKey rest (by simpa using fun _ _ _ less later => le_trans less later)
    (by simpa using fun _ _ less => less.le) provider.currentKey
    (List.mem_map_of_mem (f := Provider.currentKey) inside)
  simpa using bound

theorem minKey_le {provider : Provider Row} (inside : provider ∈ first :: rest) :
    extremeKey (fun key other => key < other) first.currentKey rest ≤ provider.currentKey := by
  have bound := @not_surpasses_extremeKey Row (fun key other => decide (key < other))
    first.currentKey rest (by simpa using fun _ _ _ less later => le_trans later less)
    (by simpa using fun _ _ less => less.le) provider.currentKey
    (List.mem_map_of_mem (f := Provider.currentKey) inside)
  simpa using bound

/-- A provider stands at the extreme key. -/
theorem AllAt.exists_extreme {surpasses : GraphId → GraphId → Bool}
    (allAt : AllAt keyOf (first :: rest) cursors) :
    ∃ keys ∈ cursors, keys.head? = some (extremeKey surpasses first.currentKey rest) := by
  obtain ⟨provider, inside, isExtreme⟩ := List.mem_map.1
    (show extremeKey surpasses first.currentKey rest ∈
      (first :: rest).map Provider.currentKey from extremeKey_mem)
  obtain ⟨keys, isKeys, cursor⟩ := allAt.exists_keys inside
  exact ⟨keys, isKeys, cursor.head.trans (congrArg some isExtreme)⟩

theorem AllAt.maxKey_le_common (allAt : AllAt keyOf (first :: rest) cursors) {key : GraphId}
    (common : Common cursors key) :
    extremeKey (fun key other => other < key) first.currentKey rest ≤ key := by
  obtain ⟨keys, inside, head⟩ := allAt.exists_extreme
  exact le_of_head (allAt.stand.sorted keys inside) head (common keys inside)

end Keys

theorem Cursor.seekBelow {provider : Provider Row} {keys : List GraphId}
    (cursor : Cursor keyOf provider keys) (target : GraphId) :
    ∃ next, (if provider.currentKey < target then provider.seekGe keyOf target
        else .ok (true, provider)) = .ok (!(seek keys target).isEmpty, next) ∧
      Reached keyOf provider next (seek keys target) := by
  split_ifs with below
  · exact seekGe_spec cursor.stands target
  · rw [seek_of_reached cursor.head below]
    refine ⟨provider, ?_, cursor.stands, ⟨rfl, rfl, rfl⟩, ?_, fun _ => cursor.current⟩
    · obtain ⟨later, keysAre⟩ := List.head?_eq_some_iff.1 cursor.head
      rw [keysAre]
      rfl
    · intro key isHead
      rw [cursor.head] at isHead
      exact Option.some.inj isHead

theorem seek_length_lt {keys : List GraphId} {key target : GraphId}
    (head : keys.head? = some key) (below : key < target) :
    (seek keys target).length < keys.length := by
  rw [seek_of_below head below]
  obtain ⟨rest, rfl⟩ := List.head?_eq_some_iff.1 head
  exact Nat.lt_succ_of_le (seek_sublist rest target).length_le

/-- Where not all providers have come to the largest key, one of them was before it. -/
theorem leapfrogLoop_spec {fuel : Nat} (allAt : AllAt keyOf providers cursors)
    (nonempty : providers ≠ []) (enough : total cursors < fuel) :
    ∃ outcome, leapfrogLoop keyOf fuel providers = .ok outcome ∧
      Found keyOf providers cursors outcome := by
  induction fuel generalizing providers cursors with
  | zero => exact absurd enough (Nat.not_lt_zero _)
  | succ fuel inductionHypothesis =>
      obtain ⟨first, rest, rfl⟩ := List.exists_cons_of_ne_nil nonempty
      have sorted := allAt.stand.sorted
      have reached (key : GraphId) (common : Common cursors key) := allAt.maxKey_le_common common
      rw [leapfrogLoop]
      generalize isMax : extremeKey (fun key other => decide (other < key)) first.currentKey rest =
        maxKey at reached ⊢
      have advance : Advance cursors (cursors.map (seek · maxKey)) := by
        apply Advance.map
        · intro keys _
          exact seek_sublist keys maxKey
        · intro key common keys inside
          exact common_mem_seek sorted inside (reached key common) common
      obtain ⟨next, ⟨ran, allAtNext, sources⟩ | ⟨ran, sources, empty, inside, none⟩⟩ :=
        @eachProvider_spec _ keyOf _ _ (seek · maxKey) (fun _ _ cursor => cursor.seekBelow maxKey)
          _ _ allAt
      · change ∃ outcome, (eachProvider _ (first :: rest) >>= _) = _ ∧ _
        rw [ran]
        change ∃ outcome, (if next.all (fun provider => decide (provider.currentKey = maxKey)) then
          _ else _) = _ ∧ _
        split_ifs with aligned
        · refine ⟨_, rfl, .key advance ⟨?_, ?_⟩ allAtNext sources⟩
          · exact fun none => allAt.nonempty (List.map_eq_nil_iff.1 none)
          · intro keys inside
            obtain ⟨provider, isProvider, cursor⟩ := allAtNext.exists_provider inside
            rw [cursor.head, of_decide_eq_true (List.all_eq_true.1 aligned provider isProvider)]
        · have loses : ∃ keys ∈ cursors, (seek keys maxKey).length < keys.length := by
            by_contra allStay
            apply aligned
            rw [List.all_eq_true]
            intro provider inside
            obtain ⟨keys, isKeys, cursor⟩ := allAtNext.exists_keys inside
            obtain ⟨whole, isWhole, rfl⟩ := List.mem_map.1 isKeys
            obtain ⟨before, isBefore, cursorBefore⟩ := allAt.exists_provider isWhole
            have notBelow : ¬before.currentKey < maxKey := fun below =>
              allStay ⟨whole, isWhole, seek_length_lt cursorBefore.head below⟩
            have bounded := le_maxKey isBefore
            rw [isMax] at bounded
            have head := cursor.head
            rw [seek_of_reached cursorBefore.head notBelow, cursorBefore.head] at head
            apply decide_eq_true
            rw [← Option.some.inj head]
            exact le_antisymm bounded (not_lt.1 notBelow)
          have fewer := total_map_lt (fun keys _ => seek_sublist keys maxKey) loses
          have nextNonempty : next ≠ [] := by
            rintro rfl
            exact absurd (congrArg List.length sources) (by simp)
          obtain ⟨outcome, ranOn, found⟩ :=
            inductionHypothesis allAtNext nextNonempty (by omega)
          exact ⟨outcome, ranOn, found.after advance sources⟩
      · change ∃ outcome, (eachProvider _ (first :: rest) >>= _) = _ ∧ _
        rw [ran]
        exact ⟨_, rfl, .none (not_common_of_seek_nil sorted inside reached none) sources⟩

/-- What the smallest key is dropped from -/
def dropKey (key : GraphId) (keys : List GraphId) : List GraphId :=
  if keys.head? = some key then keys.tail else keys

theorem dropKey_sublist (key : GraphId) (keys : List GraphId) : (dropKey key keys).Sublist keys := by
  rw [dropKey]
  split_ifs
  · exact List.tail_sublist keys
  · exact List.Sublist.refl keys

theorem mem_dropKey {key other : GraphId} {keys : List GraphId} (inside : other ∈ keys)
    (differs : other ≠ key) : other ∈ dropKey key keys := by
  rw [dropKey]
  split_ifs with head
  · obtain ⟨rest, rfl⟩ := List.head?_eq_some_iff.1 head
    exact (List.mem_cons.1 inside).resolve_left differs
  · exact inside

theorem Cursor.dropKey {provider : Provider Row} {keys : List GraphId}
    (cursor : Cursor keyOf provider keys) (key : GraphId) :
    ∃ next, (if provider.currentKey = key then provider.nextDistinct keyOf
        else .ok (true, provider)) = .ok (!(dropKey key keys).isEmpty, next) ∧
      Reached keyOf provider next (dropKey key keys) := by
  rw [WcojJoin.dropKey, cursor.head]
  by_cases same : provider.currentKey = key
  · rw [if_pos same, if_pos (congrArg some same)]
    exact nextDistinct_spec cursor.stands
  · rw [if_neg same, if_neg (fun equal => same (Option.some.inj equal))]
    refine ⟨provider, ?_, cursor.stands, ⟨rfl, rfl, rfl⟩, ?_, fun _ => cursor.current⟩
    · obtain ⟨later, keysAre⟩ := List.head?_eq_some_iff.1 cursor.head
      rw [keysAre]
      rfl
    · intro head isHead
      rw [cursor.head] at isHead
      exact Option.some.inj isHead

/-- The smallest key is not common as long as it is not the largest one. -/
theorem mergeLoop_spec {fuel : Nat} (allAt : AllAt keyOf providers cursors)
    (nonempty : providers ≠ []) (enough : total cursors < fuel) :
    ∃ outcome, mergeLoop keyOf fuel providers = .ok outcome ∧
      Found keyOf providers cursors outcome := by
  induction fuel generalizing providers cursors with
  | zero => exact absurd enough (Nat.not_lt_zero _)
  | succ fuel inductionHypothesis =>
      obtain ⟨first, rest, rfl⟩ := List.exists_cons_of_ne_nil nonempty
      have sorted := allAt.stand.sorted
      have reached (key : GraphId) (common : Common cursors key) := allAt.maxKey_le_common common
      obtain ⟨least, isLeast, headLeast⟩ :=
        @AllAt.exists_extreme _ _ _ _ _ (fun key other => decide (key < other)) allAt
      have smallest {provider : Provider Row} (inside : provider ∈ first :: rest) :=
        minKey_le inside
      have largest {provider : Provider Row} (inside : provider ∈ first :: rest) :=
        le_maxKey inside
      rw [mergeLoop]
      generalize extremeKey (fun key other => decide (other < key)) first.currentKey rest =
        maxKey at reached largest ⊢
      generalize extremeKey (fun key other => decide (key < other)) first.currentKey rest =
        minKey at headLeast smallest ⊢
      dsimp only
      by_cases same : minKey = maxKey
      · rw [if_pos same]
        refine ⟨_, rfl, .key (Advance.refl cursors) ⟨allAt.nonempty, ?_⟩ allAt rfl⟩
        intro keys inside
        obtain ⟨provider, isProvider, cursor⟩ := allAt.exists_provider inside
        rw [cursor.head, le_antisymm ((largest isProvider).trans same.ge) (smallest isProvider)]
      · rw [if_neg same]
        have less : minKey < maxKey := by
          have bounded := (smallest List.mem_cons_self).trans (largest List.mem_cons_self)
          exact lt_of_le_of_ne bounded same
        have differs (key : GraphId) (common : Common cursors key) : key ≠ minKey := by
          rintro rfl
          exact absurd (reached key common) (not_le.2 less)
        have advance : Advance cursors (cursors.map (dropKey minKey)) := by
          apply Advance.map
          · intro keys _
            exact dropKey_sublist minKey keys
          · intro key common keys inside
            exact mem_dropKey (common keys inside) (differs key common)
        obtain ⟨next, ⟨ran, allAtNext, sources⟩ | ⟨ran, sources, empty, inside, none⟩⟩ :=
          @eachProvider_spec _ keyOf _ _ (dropKey minKey)
            (fun _ _ cursor => cursor.dropKey minKey) _ _ allAt
        · rw [ran]
          have loses : ∃ keys ∈ cursors, (dropKey minKey keys).length < keys.length := by
            refine ⟨least, isLeast, ?_⟩
            rw [dropKey, if_pos headLeast]
            obtain ⟨later, rfl⟩ := List.head?_eq_some_iff.1 headLeast
            exact Nat.lt_succ_self _
          have fewer := total_map_lt (fun keys _ => dropKey_sublist minKey keys) loses
          have nextNonempty : next ≠ [] := by
            rintro rfl
            exact absurd (congrArg List.length sources) (by simp)
          obtain ⟨outcome, ranOn, found⟩ :=
            inductionHypothesis allAtNext nextNonempty (by omega)
          exact ⟨outcome, ranOn, found.after advance sources⟩
        · rw [ran]
          refine ⟨_, rfl, .none ?_ sources⟩
          intro key common
          have impossible := mem_dropKey (common empty inside) (differs key common)
          rw [none] at impossible
          cases impossible

end Loops

section Progressive

variable {Row : Type} {keyOf : Row → Option GraphId} {providers : List (Provider Row)}
  {cursors : List (List GraphId)}

theorem map_source_set {place : Nat} {provider next : Provider Row}
    (found : providers[place]? = some provider) (source : SameSource provider next) :
    (providers.set place next).map Provider.source = providers.map Provider.source := by
  apply List.ext_getElem?
  intro other
  rw [List.getElem?_map, List.getElem?_map, List.getElem?_set]
  split_ifs with same inside
  · rw [← same, found, Option.map_some, Option.map_some, source.source_eq]
  · rw [← same, List.getElem?_eq_none (Nat.le_of_not_lt inside)]
  · rfl

/-- A seek at one place moves one cursor. -/
theorem AllAt.seekAt (allAt : AllAt keyOf providers cursors) {place : Nat} {keys : List GraphId}
    (found : cursors[place]? = some keys) {target : GraphId}
    (reached : ∀ key, Common cursors key → target ≤ key) :
    ∃ next, (atProvider providers place fun provider => provider.seekGe keyOf target) =
        .ok (!(seek keys target).isEmpty, next, providers.set place next) ∧
      Advance cursors (cursors.set place (seek keys target)) ∧
      (providers.set place next).map Provider.source = providers.map Provider.source ∧
      (seek keys target ≠ [] → Cursor keyOf next (seek keys target) ∧
        AllAt keyOf (providers.set place next) (cursors.set place (seek keys target))) := by
  obtain ⟨provider, isProvider, cursor⟩ := related_getElem? allAt found
  obtain ⟨next, ran, reachedNext⟩ := seekGe_spec cursor.stands target
  refine ⟨next, ?_, advance_seek allAt.stand.sorted found reached,
    map_source_set isProvider reachedNext.source, ?_⟩
  · rw [atProvider, isProvider]
    dsimp only
    rw [ran]
    rfl
  · intro nonempty
    have cursorNext := reachedNext.cursor nonempty
    exact ⟨cursorNext, related_set allAt place cursorNext⟩

/-- What the probes of the seed's candidate come to: the cursors agree on it, or the seed has
passed it, or there is no common key. -/
inductive Probed (keyOf : Row → Option GraphId) (providers : List (Provider Row))
    (cursors : List (List GraphId)) (candidate : GraphId) :
    ProbeOutcome × List (Provider Row) → Prop where
  | ended {next : List (Provider Row)} : (∀ key, ¬Common cursors key) →
      next.map Provider.source = providers.map Provider.source →
      Probed keyOf providers cursors candidate (.ended, next)
  | restart {next : List (Provider Row)} {after : List (List GraphId)} :
      Advance cursors after → total after < total cursors → AllAt keyOf next after →
      next.map Provider.source = providers.map Provider.source →
      Probed keyOf providers cursors candidate (.restart, next)
  | matched {next : List (Provider Row)} {after : List (List GraphId)} :
      Advance cursors after → (∀ keys ∈ after, keys.head? = some candidate) →
      AllAt keyOf next after → next.map Provider.source = providers.map Provider.source →
      Probed keyOf providers cursors candidate (.matched, next)

theorem Probed.after {middle : List (Provider Row)} {ahead : List (List GraphId)}
    {candidate : GraphId} {outcome : ProbeOutcome × List (Provider Row)}
    (probed : Probed keyOf middle ahead candidate outcome) (advance : Advance cursors ahead)
    (sources : middle.map Provider.source = providers.map Provider.source) :
    Probed keyOf providers cursors candidate outcome := by
  cases probed with
  | ended noneCommon sourcesLater =>
      refine Probed.ended ?_ (sourcesLater.trans sources)
      intro key common
      exact noneCommon key (advance.keeps key common)
  | restart later loses allAt sourcesLater =>
      exact .restart (advance.trans later) (loses.trans_le (total_le advance.sublists)) allAt
        (sourcesLater.trans sources)
  | matched later heads allAt sourcesLater =>
      exact .matched (advance.trans later) heads allAt (sourcesLater.trans sources)

/-- The seed goes on to a key that a stage has passed it for. -/
theorem AllAt.reseed (allAt : AllAt keyOf providers cursors) {seedIndex : Nat}
    {seedKeys : List GraphId} {candidate target : GraphId}
    (seedAt : cursors[seedIndex]? = some seedKeys) (seedHead : seedKeys.head? = some candidate)
    (passed : candidate < target) (reached : ∀ key, Common cursors key → target ≤ key) :
    ∃ more seed next,
      (atProvider providers seedIndex fun seed => seed.seekGe keyOf target) =
        .ok (more, seed, next) ∧
      Probed keyOf providers cursors candidate (if more then .restart else .ended, next) := by
  obtain ⟨seed, ran, advance, sources, moved⟩ := allAt.seekAt seedAt reached
  refine ⟨_, seed, _, ran, ?_⟩
  cases left : seek seedKeys target with
  | nil =>
      exact .ended
        (not_common_of_seek_nil allAt.stand.sorted (List.mem_of_getElem? seedAt) reached left)
        sources
  | cons later others =>
      have nonempty : seek seedKeys target ≠ [] := left ▸ List.cons_ne_nil later others
      have loses := total_set_lt seedAt (seek_length_lt seedHead passed)
      exact .restart advance loses (moved nonempty).2 sources

/-- The places that are no stages any more are at the candidate. -/
theorem probeStages_spec {seedIndex : Nat} {candidate : GraphId} {stages : List Nat}
    (allAt : AllAt keyOf providers cursors) (inside : ∀ stage ∈ stages, stage < cursors.length)
    (seedInside : seedIndex < cursors.length) (noSeed : seedIndex ∉ stages)
    (probed : ∀ place keys, place ∉ stages → cursors[place]? = some keys →
      keys.head? = some candidate) :
    ∃ outcome, probeStages keyOf seedIndex candidate stages providers = .ok outcome ∧
      Probed keyOf providers cursors candidate outcome := by
  induction stages generalizing providers cursors with
  | nil =>
      refine ⟨_, rfl, .matched (Advance.refl cursors) ?_ allAt rfl⟩
      intro keys isKeys
      obtain ⟨place, found⟩ := List.mem_iff_getElem?.1 isKeys
      exact probed place keys List.not_mem_nil found
  | cons stage stages inductionHypothesis =>
      have sorted := allAt.stand.sorted
      obtain ⟨seedKeys, seedAt⟩ : ∃ keys, cursors[seedIndex]? = some keys :=
        ⟨_, List.getElem?_eq_getElem seedInside⟩
      obtain ⟨keys, stageAt⟩ : ∃ keys, cursors[stage]? = some keys :=
        ⟨_, List.getElem?_eq_getElem (inside stage List.mem_cons_self)⟩
      have seedHead := probed seedIndex _ noSeed seedAt
      have reached (key : GraphId) (common : Common cursors key) : candidate ≤ key :=
        le_of_head (sorted _ (List.mem_of_getElem? seedAt)) seedHead
          (common _ (List.mem_of_getElem? seedAt))
      obtain ⟨next, ran, advance, sources, moved⟩ := allAt.seekAt stageAt reached
      rw [probeStages, ran]
      cases left : seek keys candidate with
      | nil =>
          have noneCommon := not_common_of_seek_nil sorted (List.mem_of_getElem? stageAt) reached
            left
          exact ⟨_, rfl, .ended noneCommon sources⟩
      | cons first rest =>
          have nonempty : seek keys candidate ≠ [] := left ▸ List.cons_ne_nil first rest
          obtain ⟨cursor, allAtNext⟩ := moved nonempty
          have noSeedHere : stage ≠ seedIndex := fun same =>
            noSeed (same ▸ List.mem_cons_self)
          have seedStays : (cursors.set stage (seek keys candidate))[seedIndex]? =
              some seedKeys := by
            rw [List.getElem?_set_ne noSeedHere, seedAt]
          have stageHas : (cursors.set stage (seek keys candidate))[stage]? =
              some (seek keys candidate) :=
            List.getElem?_set_self (inside stage List.mem_cons_self)
          change ∃ outcome, (if candidate < next.currentKey then _ else _) = _ ∧ _
          by_cases passed : candidate < next.currentKey
          · rw [if_pos passed]
            have sortedNext := allAtNext.stand.sorted
            have reachedNext (key : GraphId)
                (common : Common (cursors.set stage (seek keys candidate)) key) :
                next.currentKey ≤ key :=
              le_of_head (sortedNext _ (List.mem_of_getElem? stageHas)) cursor.head
                (common _ (List.mem_of_getElem? stageHas))
            obtain ⟨more, seed, later, ranSeed, probedSeed⟩ :=
              allAtNext.reseed seedStays seedHead passed reachedNext
            rw [ranSeed]
            exact ⟨_, rfl, probedSeed.after advance sources⟩
          · rw [if_neg passed]
            have atCandidate : (seek keys candidate).head? = some candidate := by
              rw [cursor.head]
              have isKey := List.mem_of_mem_head? cursor.head
              have notBefore := (mem_seek (sorted keys (List.mem_of_getElem? stageAt))).1 isKey
              rw [le_antisymm (not_lt.1 passed) notBefore.2]
            obtain ⟨outcome, ranOn, probedNext⟩ := inductionHypothesis allAtNext
              (by
                intro other isStage
                rw [List.length_set]
                exact inside other (List.mem_cons_of_mem _ isStage))
              (by
                rw [List.length_set]
                exact seedInside)
              (fun isStage => noSeed (List.mem_cons_of_mem _ isStage))
              (by
                intro place other notStage found
                by_cases here : stage = place
                · rw [← here, stageHas] at found
                  rw [← Option.some.inj found, atCandidate]
                · rw [List.getElem?_set_ne here] at found
                  apply probed place other _ found
                  intro isStage
                  rcases List.mem_cons.1 isStage with same | later
                  · exact here same.symm
                  · exact notStage later)
            exact ⟨outcome, ranOn, probedNext.after advance sources⟩

/-- What an engine leaves as it is -/
structure Carries (state next : JoinState Row) : Prop where
  sourceOrder : next.sourceOrder = state.sourceOrder
  notAuto : next.actualEngine ≠ .auto
  setupDone : next.actualEngine = .progressive → next.progressiveSetupDone = true

theorem progressiveLoop_spec {seedIndex : Nat} {stages : List Nat} {fuel : Nat}
    {state : JoinState Row} (allAt : AllAt keyOf state.providers cursors)
    (order : (seedIndex :: stages).Perm (List.range cursors.length))
    (carries : Carries state state) (enough : total cursors < fuel) :
    ∃ key next, progressiveLoop keyOf seedIndex stages fuel state = .ok (key, next) ∧
      Found keyOf state.providers cursors (key, next.providers) ∧ Carries state next := by
  induction fuel generalizing state cursors with
  | zero => exact absurd enough (Nat.not_lt_zero _)
  | succ fuel inductionHypothesis =>
      have noSeed : seedIndex ∉ stages :=
        (List.nodup_cons.1 (order.nodup_iff.2 List.nodup_range)).1
      have inside (place : Nat) (isPlace : place ∈ seedIndex :: stages) : place < cursors.length :=
        List.mem_range.1 (order.mem_iff.1 isPlace)
      have seedInside := inside seedIndex List.mem_cons_self
      obtain ⟨seed, isSeed, cursor⟩ :=
        related_getElem? allAt (List.getElem?_eq_getElem seedInside)
      have probed (place : Nat) (keys : List GraphId) (notStage : place ∉ stages)
          (found : cursors[place]? = some keys) : keys.head? = some seed.currentKey := by
        have bounded := (List.getElem?_eq_some_iff.1 found).1
        rcases List.mem_cons.1 (order.mem_iff.2 (List.mem_range.2 bounded)) with same | isStage
        · obtain ⟨within, rfl⟩ := List.getElem?_eq_some_iff.1 found
          subst same
          exact cursor.head
        · exact absurd isStage notStage
      obtain ⟨⟨outcome, providers⟩, ran, probedNext⟩ := probeStages_spec allAt
        (fun stage isStage => inside stage (List.mem_cons_of_mem _ isStage)) seedInside noSeed probed
      rw [progressiveLoop, isSeed]
      dsimp only
      rw [ran]
      cases probedNext with
      | ended noneCommon sources =>
          exact ⟨none, _, rfl, .none noneCommon sources, rfl, carries.notAuto, carries.setupDone⟩
      | @restart _ after advance loses allAtNext sources =>
          have order : (seedIndex :: stages).Perm (List.range after.length) := by
            rw [← advance.sublists.length_eq]
            exact order
          obtain ⟨key, next, ranOn, found, carriesNext⟩ := @inductionHypothesis after
            { state with
              providers := providers
              progressiveProbes := incrementWcojCounter state.progressiveProbes }
            allAtNext order ⟨rfl, carries.notAuto, carries.setupDone⟩ (by omega)
          exact ⟨key, next, ranOn, found.after advance sources, carriesNext.sourceOrder,
            carriesNext.notAuto, carriesNext.setupDone⟩
      | matched advance heads allAtNext sources =>
          refine ⟨some seed.currentKey, _, rfl, .key advance ⟨?_, heads⟩ allAtNext sources, rfl,
            carries.notAuto, carries.setupDone⟩
          intro empty
          rw [empty] at advance
          have short := advance.sublists.length_eq
          rw [short] at seedInside
          exact Nat.not_lt_zero _ seedInside

end Progressive

section ExactSet

variable {Row : Type} {keyOf : Row → Option GraphId} {providers : List (Provider Row)}
  {cursors : List (List GraphId)}

/-- Only adjacency providers are built, and an adjacency provider is built once. -/
theorem Stands.adjacencyAt {provider : Provider Row} {keys : List GraphId}
    (stands : Stands keyOf provider keys) (kind : provider.kind = .adjacency) :
    AdjacencyAt keyOf provider keys := by
  cases stands with
  | planStream stream =>
      rw [stream.kind] at kind
      cases kind
  | adjacency adjacency => exact adjacency

/-- The stages leave among the candidates all keys that the cursors have in common. -/
structure Filtered (keyOf : Row → Option GraphId) (providers : List (Provider Row))
    (cursors : List (List GraphId)) (candidates : List GraphId) (seedIndex : Nat)
    (left : List GraphId) (next : List (Provider Row)) (ahead : List (List GraphId)) : Prop where
  advance : Advance cursors ahead
  stand : AllStand keyOf next ahead
  sorted : left.Pairwise (· < ·)
  among : ∀ key ∈ left, key ∈ candidates
  common : ∀ key, Common ahead key → key ∈ left
  seed : next[seedIndex]? = providers[seedIndex]?
  seedKeys : ahead[seedIndex]? = cursors[seedIndex]?

theorem counted_intersect {candidates matchIds : List GraphId}
    (sortedCandidates : candidates.Pairwise (· < ·)) (sortedMatches : matchIds.Pairwise (· < ·)) :
    counted (intersectAgeWcojGraphids candidates matchIds) = candidates.filter (· ∈ matchIds) := by
  have leaves := @intersectAgeWcojGraphids_leaves candidates matchIds
  rw [intersect_eq sortedCandidates sortedMatches] at leaves
  exact leaves.front

theorem filterStages_spec {requestedEngine : EngineKind} {seedCount seedIndex : Nat}
    {stages : List Nat} {filterCount : Nat} {candidates : List GraphId}
    (stand : AllStand keyOf providers cursors) (sorted : candidates.Pairwise (· < ·))
    (common : ∀ key, Common cursors key → key ∈ candidates)
    (inside : ∀ stage ∈ stages, stage < cursors.length) (nodup : (seedIndex :: stages).Nodup)
    (fresh : ∀ stage ∈ stages, ∀ provider, providers[stage]? = some provider →
      provider.kind = .adjacency → provider.built = false) :
    ∃ result next, filterStages keyOf requestedEngine seedCount stages filterCount candidates
        providers = .ok (result, next) ∧
      next.map Provider.source = providers.map Provider.source ∧
      (result = none → requestedEngine = .auto) ∧
      ∀ left, result = some left →
        ∃ ahead, Filtered keyOf providers cursors candidates seedIndex left next ahead := by
  induction stages generalizing providers cursors candidates filterCount with
  | nil =>
      refine ⟨_, providers, rfl, rfl, ?_, ?_⟩
      · intro impossible
        cases impossible
      · rintro left isLeft
        obtain rfl := Option.some.inj isLeft
        exact ⟨cursors, Advance.refl cursors, stand, sorted, fun _ inside => inside, common, rfl, rfl⟩
  | cons stage stages inductionHypothesis =>
      have insideLater (other : Nat) (isStage : other ∈ stages) :=
        inside other (List.mem_cons_of_mem _ isStage)
      obtain ⟨noSeed, nodupStages⟩ := List.nodup_cons.1 nodup
      obtain ⟨once, nodupLater⟩ := List.nodup_cons.1 nodupStages
      have nodupNext : (seedIndex :: stages).Nodup :=
        List.nodup_cons.2 ⟨fun isStage => noSeed (List.mem_cons_of_mem _ isStage), nodupLater⟩
      have stageNotSeed : stage ≠ seedIndex := fun same => noSeed (same ▸ List.mem_cons_self)
      obtain ⟨keys, stageAt⟩ : ∃ keys, cursors[stage]? = some keys :=
        ⟨_, List.getElem?_eq_getElem (inside stage List.mem_cons_self)⟩
      obtain ⟨provider, isProvider, stands⟩ := related_getElem? stand stageAt
      rw [filterStages]
      by_cases noCandidate : candidates = []
      · rw [if_pos noCandidate]
        refine ⟨_, providers, rfl, rfl, ?_, ?_⟩
        · intro impossible
          cases impossible
        · rintro left isLeft
          obtain rfl := Option.some.inj isLeft
          refine ⟨cursors, Advance.refl cursors, stand, .nil, ?_, ?_, rfl, rfl⟩
          · intro key impossible
            cases impossible
          · intro key isCommon
            rw [← noCandidate]
            exact common key isCommon
      · rw [if_neg noCandidate, isProvider]
        dsimp only
        by_cases kind : provider.kind = .adjacency
        · rw [if_neg (not_not.2 kind)]
          obtain ⟨impossible, -⟩ | ⟨built, ran, standsBuilt, source, hasBuilt, terminals⟩ :=
            @buildAdjacencyProviderFiltered_spec _ _ _ _ (some candidates) 0
              (stands.adjacencyAt kind) (fresh stage List.mem_cons_self provider isProvider kind)
              (fun none => noCandidate (Option.some.inj none))
          · exact absurd impossible (Nat.lt_irrefl 0)
          · have keptIs : (keys.filter fun key => (some candidates).all (key ∈ ·)) =
                keys.filter (· ∈ candidates) := rfl
            rw [keptIs] at ran standsBuilt terminals
            have narrowed : (if (if keys.filter (· ∈ candidates) = [] then
                  AdjacencyBuildResult.empty else .ready) = .empty then []
                else counted (intersectAgeWcojGraphids candidates built.terminals)) =
                  candidates.filter (· ∈ keys.filter (· ∈ candidates)) := by
              rw [terminals, counted_intersect sorted (stands.sorted.filter _)]
              split_ifs with none
              · rw [none]
                simp
              · rename_i impossible
                exact absurd rfl impossible
              · rename_i impossible
                cases impossible
              · rfl
            rw [ran, narrowed]
            dsimp only
            have sourcesSet := map_source_set isProvider source
            have standSet := related_set stand stage (Stands.adjacency standsBuilt)
            split_ifs with dense
            · refine ⟨_, _, rfl, sourcesSet, fun _ => dense.2.1, ?_⟩
              intro left impossible
              cases impossible
            · have advance : Advance cursors
                  (cursors.set stage (keys.filter (· ∈ candidates))) := by
                apply Advance.set stageAt List.filter_sublist
                intro key isCommon
                exact List.mem_filter.2 ⟨isCommon keys (List.mem_of_getElem? stageAt),
                  decide_eq_true (common key isCommon)⟩
              obtain ⟨result, next, ranOn, sources, requested, filters⟩ :=
                @inductionHypothesis _ _ (filterCount + 1)
                  (candidates.filter (· ∈ keys.filter (· ∈ candidates))) standSet (sorted.filter _)
                  (by
                    intro key isCommon
                    have isCandidate := common key (advance.common_iff.1 isCommon)
                    refine List.mem_filter.2 ⟨isCandidate, decide_eq_true ?_⟩
                    exact isCommon _ (List.mem_of_getElem?
                      (List.getElem?_set_self (inside stage List.mem_cons_self))))
                  (by
                    intro other isStage
                    rw [List.length_set]
                    exact insideLater other isStage)
                  nodupNext
                  (by
                    intro other isStage found isFound
                    have differs : stage ≠ other := fun same => once (same ▸ isStage)
                    rw [List.getElem?_set_ne differs] at isFound
                    exact fresh other (List.mem_cons_of_mem _ isStage) found isFound)
              refine ⟨result, next, ranOn, sources.trans sourcesSet, requested, ?_⟩
              intro left isLeft
              obtain ⟨ahead, filtered⟩ := filters left isLeft
              refine ⟨ahead, advance.trans filtered.advance, filtered.stand, filtered.sorted, ?_,
                filtered.common, ?_, ?_⟩
              · intro key isLeftKey
                exact (List.mem_filter.1 (filtered.among key isLeftKey)).1
              · rw [filtered.seed, List.getElem?_set_ne stageNotSeed]
              · rw [filtered.seedKeys, List.getElem?_set_ne stageNotSeed]
        · rw [if_pos kind]
          exact inductionHypothesis stand sorted common insideLater nodupNext
            fun other isStage => fresh other (List.mem_cons_of_mem _ isStage)

/-- What holds of the state between two searches -/
structure Before (keyOf : Row → Option GraphId) (state : JoinState Row)
    (cursors : List (List GraphId)) : Prop where
  stand : AllStand keyOf state.providers cursors
  nonempty : state.providers ≠ []
  order : state.sourceOrder.Perm (List.range state.providers.length)
  notAuto : state.actualEngine ≠ .auto
  setup : state.actualEngine = .progressive → state.progressiveSetupDone = false →
    cursors = state.providers.map (Provider.allKeys keyOf) ∧
      (∀ provider ∈ state.providers, provider.InOrder keyOf) ∧
      ∀ provider ∈ state.providers, provider.kind = .adjacency → provider.built = false

theorem rescan_allStand (inOrder : ∀ provider ∈ providers, provider.InOrder keyOf) :
    AllStand keyOf (rescanAgeWcojProviders providers)
      (providers.map (Provider.allKeys keyOf)) := by
  rw [AllStand, rescanAgeWcojProviders, List.forall₂_map_left_iff, List.forall₂_map_right_iff,
    List.forall₂_same]
  intro provider inside
  exact rescan_stands (inOrder provider inside)

theorem rescan_sources :
    (rescanAgeWcojProviders providers).map Provider.source = providers.map Provider.source := by
  rw [rescanAgeWcojProviders, List.map_map]
  apply List.map_congr_left
  intro provider _
  exact rescan_sameSource.source_eq

theorem allKeys_of_source {provider next : Provider Row} (same : next.source = provider.source) :
    next.allKeys keyOf = provider.allKeys keyOf ∧
      (provider.InOrder keyOf → next.InOrder keyOf) := by
  obtain ⟨kind, rows, -⟩ : next.kind = provider.kind ∧ next.rows = provider.rows ∧
      next.localQual = provider.localQual := by
    simpa [Provider.source] using same
  rw [Provider.allKeys, Provider.allKeys, Provider.InOrder, Provider.InOrder, kind, rows]
  exact ⟨rfl, id⟩

/-- Rescanned providers stand before the keys that they had at first. -/
theorem rescan_allStand_of_sources {next : List (Provider Row)}
    (sources : next.map Provider.source = providers.map Provider.source)
    (inOrder : ∀ provider ∈ providers, provider.InOrder keyOf) :
    AllStand keyOf (rescanAgeWcojProviders next) (providers.map (Provider.allKeys keyOf)) := by
  induction providers generalizing next with
  | nil =>
      rw [List.map_nil, List.map_eq_nil_iff] at sources
      rw [sources]
      exact .nil
  | cons provider rest inductionHypothesis =>
      cases next with
      | nil => cases sources
      | cons first others =>
          obtain ⟨here, later⟩ := List.cons.inj sources
          obtain ⟨same, ordered⟩ := @allKeys_of_source _ keyOf _ _ here
          obtain ⟨inOrderHere, inOrderLater⟩ := List.forall_mem_cons.1 inOrder
          have stands := rescan_stands (ordered inOrderHere)
          rw [same] at stands
          exact .cons stands (inductionHypothesis later inOrderLater)

theorem compacted_source {seed : Provider Row} (candidates : List GraphId) :
    SameSource seed (seed.compacted candidates) :=
  ⟨rfl, rfl, rfl⟩

theorem compacted_stands {seed : Provider Row} {candidates : List GraphId}
    (kind : seed.kind = .adjacency) (isBuilt : seed.built = true)
    (sorted : candidates.Pairwise (· < ·)) :
    Stands keyOf (seed.compacted candidates) candidates := by
  apply Stands.adjacency
  refine ⟨kind, sorted, ?_, ?_⟩
  · intro notBuilt
    have isBuilt : (seed.compacted candidates).built = true := isBuilt
    rw [isBuilt] at notBuilt
    cases notBuilt
  · intro _
    exact ⟨rfl, sorted, List.isEmpty_iff.1⟩

/-- The set-up leaves all common keys ahead, or there is none. -/
theorem prepareAgeWcojProgressiveExactSet_spec {state : JoinState Row}
    (before : Before keyOf state cursors) (engine : state.actualEngine = .progressive) :
    ∃ more next, prepareAgeWcojProgressiveExactSet keyOf state = .ok (more, next) ∧
      next.sourceOrder = state.sourceOrder ∧ next.actualEngine ≠ .auto ∧
      next.progressiveSetupDone = true ∧
      next.providers.map Provider.source = state.providers.map Provider.source ∧
      ((more = true ∧ ∃ ahead, Advance cursors ahead ∧ AllStand keyOf next.providers ahead) ∨
        (more = false ∧ ∀ key, ¬Common cursors key)) := by
  have notAuto := before.notAuto
  rw [prepareAgeWcojProgressiveExactSet]
  cases done : state.progressiveSetupDone with
  | true =>
      exact ⟨true, state, rfl, rfl, notAuto, done, rfl,
        .inl ⟨rfl, cursors, Advance.refl cursors, before.stand⟩⟩
  | false =>
      obtain ⟨cursorsAre, inOrder, fresh⟩ := before.setup engine done
      have rescanned {next : List (Provider Row)}
          (sources : next.map Provider.source = state.providers.map Provider.source) :
          AllStand keyOf (rescanAgeWcojProviders next) cursors := by
        rw [cursorsAre]
        exact rescan_allStand_of_sources sources inOrder
      have order := before.order
      rw [if_neg Bool.false_ne_true]
      dsimp only
      cases orderIs : state.sourceOrder with
      | nil =>
          rw [orderIs] at order
          have short := order.length_eq
          rw [List.length_range] at short
          exact absurd (List.length_eq_zero_iff.1 short.symm) before.nonempty
      | cons seedIndex stages =>
          rw [orderIs] at order
          have lengths := before.stand.length_eq
          have inside (place : Nat) (isPlace : place ∈ seedIndex :: stages) :
              place < cursors.length := by
            rw [← lengths]
            exact List.mem_range.1 (order.mem_iff.1 isPlace)
          have nodup : (seedIndex :: stages).Nodup := order.nodup_iff.2 List.nodup_range
          obtain ⟨keys, seedAt⟩ : ∃ keys, cursors[seedIndex]? = some keys :=
            ⟨_, List.getElem?_eq_getElem (inside seedIndex List.mem_cons_self)⟩
          obtain ⟨seed, isSeed, stands⟩ := related_getElem? before.stand seedAt
          dsimp only
          rw [isSeed]
          dsimp only
          by_cases kind : seed.kind = .adjacency
          · rw [if_neg (not_not.2 kind)]
            have whole : (keys.filter fun key => (none : Option (List GraphId)).all (key ∈ ·)) =
                keys := by simp
            obtain ⟨-, given, ran⟩ | ⟨built, ran, standsBuilt, source, hasBuilt, terminals⟩ :=
              @buildAdjacencyProviderFiltered_spec _ _ _ _ none ageWcojProgressiveMaxSeedPostings
                (stands.adjacencyAt kind) (fresh seed (List.mem_of_getElem? isSeed) kind)
                (Option.some_ne_none _).symm
            · rw [ran]
              dsimp only
              split_ifs with requested
              · exact ⟨true, _, rfl, rfl, by simp, rfl, rescan_sources,
                  .inl ⟨rfl, cursors, Advance.refl cursors, rescanned rfl⟩⟩
              · exact ⟨true, _, rfl, rfl, notAuto, rfl, rescan_sources,
                  .inl ⟨rfl, cursors, Advance.refl cursors, rescanned rfl⟩⟩
            · rw [whole] at ran standsBuilt terminals
              have sourcesSet := map_source_set isSeed source
              have seedInside : seedIndex < state.providers.length :=
                lengths ▸ inside seedIndex List.mem_cons_self
              rw [ran]
              cases keysAre : keys with
              | nil =>
                  refine ⟨false, _, rfl, rfl, notAuto, rfl, sourcesSet, .inr ⟨rfl, ?_⟩⟩
                  intro key common
                  have impossible := common keys (List.mem_of_getElem? seedAt)
                  rw [keysAre] at impossible
                  cases impossible
              | cons first rest =>
                  have standSet := related_set before.stand seedIndex
                    (Stands.adjacency standsBuilt)
                  rw [set_found seedAt] at standSet
                  rw [keysAre] at seedAt terminals
                  have sortedKeys := before.stand.sorted _ (List.mem_of_getElem? seedAt)
                  obtain ⟨result, next, ranStages, sources, requested, filters⟩ :=
                    @filterStages_spec _ _ _ _ state.requestedEngine built.terminals.length
                      seedIndex stages 0 built.terminals standSet (terminals ▸ sortedKeys)
                      (by
                        intro key common
                        rw [terminals]
                        exact common _ (List.mem_of_getElem? seedAt))
                      (fun stage isStage => inside stage (List.mem_cons_of_mem _ isStage)) nodup
                      (by
                        intro stage isStage provider found
                        have differs : seedIndex ≠ stage := fun same =>
                          (List.nodup_cons.1 nodup).1 (same ▸ isStage)
                        rw [List.getElem?_set_ne differs] at found
                        exact fresh provider (List.mem_of_getElem? found))
                  rw [if_neg (List.cons_ne_nil first rest)]
                  dsimp only
                  rw [ranStages]
                  cases result with
                  | none =>
                      exact ⟨true, _, rfl, rfl, by simp, rfl,
                        rescan_sources.trans (sources.trans sourcesSet), .inl ⟨rfl, cursors,
                          Advance.refl cursors, rescanned (sources.trans sourcesSet)⟩⟩
                  | some left =>
                      obtain ⟨ahead, filtered⟩ := filters left rfl
                      have isBuilt := filtered.seed
                      have hasKeys := filtered.seedKeys
                      rw [List.getElem?_set_self seedInside] at isBuilt
                      rw [seedAt] at hasKeys
                      have among : left.Sublist (first :: rest) := by
                        apply sublist_of_sorted filtered.sorted sortedKeys
                        rw [← terminals]
                        exact filtered.among
                      have compacts : Stands keyOf (built.compacted left) left :=
                        compacted_stands (source.kind.trans kind) hasBuilt filtered.sorted
                      have advance := filtered.advance.trans
                        (Advance.set hasKeys among filtered.common)
                      refine ⟨!left.isEmpty, _, rfl, rfl, notAuto, rfl,
                        (map_source_set isBuilt (compacted_source left)).trans
                          (sources.trans sourcesSet), ?_⟩
                      cases leftIs : left with
                      | nil =>
                          refine .inr ⟨rfl, ?_⟩
                          intro key common
                          have impossible :=
                            filtered.common key (filtered.advance.keeps key common)
                          rw [leftIs] at impossible
                          cases impossible
                      | cons least later =>
                          rw [← leftIs]
                          exact .inl ⟨by rw [leftIs]; rfl, _, advance,
                            related_set filtered.stand seedIndex compacts⟩
          · rw [if_pos kind]
            exact ⟨true, _, rfl, rfl, notAuto, rfl, rfl,
              .inl ⟨rfl, cursors, Advance.refl cursors, before.stand⟩⟩

end ExactSet

section Runs

variable {Row : Type} {keyOf : Row → Option GraphId} {state : JoinState Row}
  {cursors : List (List GraphId)} {fuel : Nat}

theorem nonempty_of_sources {providers next : List (Provider Row)}
    (sources : next.map Provider.source = providers.map Provider.source)
    (nonempty : providers ≠ []) : next ≠ [] := by
  rintro rfl
  exact nonempty (List.map_eq_nil_iff.1 sources.symm)

/-- Leapfrog and merge begin alike. -/
theorem align_spec
    {loop : List (Provider Row) → Except WcojError (Option GraphId × List (Provider Row))}
    (loops : ∀ providers ahead, AllAt keyOf providers ahead → providers ≠ [] →
      total ahead < fuel → ∃ outcome, loop providers = .ok outcome ∧
        Found keyOf providers ahead outcome)
    (stand : AllStand keyOf state.providers cursors) (nonempty : state.providers ≠ [])
    (enough : total cursors < fuel) (carries : Carries state state) :
    ∃ key next, (do
        let (all, providers) ← initializeAgeWcojProviders keyOf state.providers
        if !all then return (none, { state with providers := providers })
        else
          let (key, providers) ← loop providers
          return (key, { state with providers := providers })) = Except.ok (key, next) ∧
      Found keyOf state.providers cursors (key, next.providers) ∧ Carries state next := by
  obtain ⟨started, ⟨ran, allAt, sources⟩ | ⟨ran, sources, noneCommon⟩⟩ :=
    initializeAgeWcojProviders_spec stand
  · obtain ⟨⟨key, providers⟩, ranLoop, found⟩ :=
      loops started cursors allAt (nonempty_of_sources sources nonempty) enough
    refine ⟨key, { state with providers := providers }, ?_,
      found.after (Advance.refl cursors) sources, rfl, carries.notAuto, carries.setupDone⟩
    rw [ran]
    change (loop started >>= _) = _
    rw [ranLoop]
    rfl
  · refine ⟨none, { state with providers := started }, ?_, .none noneCommon sources, rfl,
      carries.notAuto, carries.setupDone⟩
    rw [ran]
    rfl

theorem alignAgeWcojLeapfrog_spec (stand : AllStand keyOf state.providers cursors)
    (nonempty : state.providers ≠ []) (enough : total cursors < fuel)
    (carries : Carries state state) :
    ∃ key next, alignAgeWcojLeapfrog keyOf fuel state = .ok (key, next) ∧
      Found keyOf state.providers cursors (key, next.providers) ∧ Carries state next :=
  align_spec (fun _ _ allAt some more => leapfrogLoop_spec allAt some more) stand nonempty enough
    carries

theorem alignAgeWcojMerge_spec (stand : AllStand keyOf state.providers cursors)
    (nonempty : state.providers ≠ []) (enough : total cursors < fuel)
    (carries : Carries state state) :
    ∃ key next, alignAgeWcojMerge keyOf fuel state = .ok (key, next) ∧
      Found keyOf state.providers cursors (key, next.providers) ∧ Carries state next :=
  align_spec (fun _ _ allAt some more => mergeLoop_spec allAt some more) stand nonempty enough
    carries

/-- The engine that goes on after the set-up -/
theorem alignAgeWcojProgressive_spec (before : Before keyOf state cursors)
    (engine : state.actualEngine = .progressive) (enough : total cursors < fuel) :
    ∃ key next, alignAgeWcojProgressive keyOf fuel state = .ok (key, next) ∧
      Found keyOf state.providers cursors (key, next.providers) ∧ Carries state next := by
  obtain ⟨more, ready, ran, order, notAuto, done, sources, ⟨rfl, ahead, advance, stand⟩ |
    ⟨rfl, noneCommon⟩⟩ := prepareAgeWcojProgressiveExactSet_spec before engine
  · have carries : Carries ready ready := ⟨rfl, notAuto, fun _ => done⟩
    have nonempty := nonempty_of_sources sources before.nonempty
    have enoughAhead : total ahead < fuel := (total_le advance.sublists).trans_lt enough
    rw [alignAgeWcojProgressive, ran]
    change ∃ key next, (if ready.actualEngine ≠ .progressive then _ else _) = _ ∧ _
    by_cases stays : ready.actualEngine = .progressive
    · rw [if_neg (not_not.2 stays)]
      obtain ⟨started, ⟨ranStart, allAt, sourcesStart⟩ | ⟨ranStart, sourcesStart, noneAhead⟩⟩ :=
        initializeAgeWcojProviders_spec stand
      · have orderPerm := before.order
        have lengths : state.providers.length = ahead.length := by
          rw [before.stand.length_eq, advance.sublists.length_eq]
        rw [← order, lengths] at orderPerm
        cases orderIs : ready.sourceOrder with
        | nil =>
            rw [orderIs] at orderPerm
            have short := orderPerm.length_eq
            rw [List.length_range, ← lengths] at short
            exact absurd (List.length_eq_zero_iff.1 short.symm) before.nonempty
        | cons seedIndex stages =>
            rw [orderIs] at orderPerm
            obtain ⟨key, next, ranLoop, found, carriesNext⟩ := @progressiveLoop_spec _ keyOf ahead
              seedIndex stages fuel
              { ready with providers := started, sourceOrder := seedIndex :: stages } allAt orderPerm
              ⟨rfl, notAuto, fun _ => done⟩ enoughAhead
            rw [ranStart]
            exact ⟨key, next, ranLoop, found.after advance (sourcesStart.trans sources),
              carriesNext.sourceOrder.trans (orderIs.symm.trans order), carriesNext.notAuto,
              carriesNext.setupDone⟩
      · rw [ranStart]
        refine ⟨none, { ready with providers := started }, rfl,
          .none ?_ (sourcesStart.trans sources), order, notAuto, fun _ => done⟩
        intro key common
        exact noneAhead key (advance.keeps key common)
    · rw [if_pos stays]
      obtain ⟨key, next, ranMerge, found, carriesNext⟩ :=
        alignAgeWcojMerge_spec stand nonempty enoughAhead carries
      exact ⟨key, next, ranMerge, found.after advance sources,
        carriesNext.sourceOrder.trans order, carriesNext.notAuto, carriesNext.setupDone⟩
  · rw [alignAgeWcojProgressive, ran]
    exact ⟨none, ready, rfl, .none noneCommon sources, order, notAuto, fun _ => done⟩

theorem maybeFallbackFromProgressive_before (before : Before keyOf state cursors) :
    Before keyOf (maybeFallbackFromProgressive state) cursors ∧
      (maybeFallbackFromProgressive state).providers = state.providers ∧
      (maybeFallbackFromProgressive state).sourceOrder = state.sourceOrder := by
  rw [maybeFallbackFromProgressive]
  split_ifs
  · exact ⟨before, rfl, rfl⟩
  · refine ⟨⟨before.stand, before.nonempty, before.order, ?_, ?_⟩, rfl, rfl⟩
    · intro impossible
      cases impossible
    · intro impossible
      cases impossible
  · exact ⟨before, rfl, rfl⟩

/-- Whichever engine runs, it finds the next common key. -/
theorem findNextAgeWcojSurvivor_spec (before : Before keyOf state cursors)
    (enough : total cursors < fuel) :
    ∃ key next, findNextAgeWcojSurvivor keyOf fuel state = .ok (key, next) ∧
      Found keyOf state.providers cursors (key, next.providers) ∧ Carries state next := by
  obtain ⟨beforeNow, providers, order⟩ := maybeFallbackFromProgressive_before before
  rw [findNextAgeWcojSurvivor, ← providers]
  generalize maybeFallbackFromProgressive state = now at beforeNow order ⊢
  have carried {next : JoinState Row} (carries : Carries now next) : Carries state next :=
    ⟨carries.sourceOrder.trans order, carries.notAuto, carries.setupDone⟩
  cases engine : now.actualEngine with
  | auto => exact absurd engine beforeNow.notAuto
  | progressive =>
      obtain ⟨key, next, ran, found, carries⟩ :=
        alignAgeWcojProgressive_spec beforeNow engine enough
      exact ⟨key, next, ran, found, carried carries⟩
  | leapfrog =>
      have itself : Carries now now := by
        refine ⟨rfl, beforeNow.notAuto, ?_⟩
        rw [engine]
        intro impossible
        cases impossible
      obtain ⟨key, next, ran, found, carries⟩ :=
        alignAgeWcojLeapfrog_spec beforeNow.stand beforeNow.nonempty enough itself
      exact ⟨key, next, ran, found, carried carries⟩
  | merge =>
      have itself : Carries now now := by
        refine ⟨rfl, beforeNow.notAuto, ?_⟩
        rw [engine]
        intro impossible
        cases impossible
      obtain ⟨key, next, ran, found, carries⟩ :=
        alignAgeWcojMerge_spec beforeNow.stand beforeNow.nonempty enough itself
      exact ⟨key, next, ran, found, carried carries⟩

/-- The groups of the key that all cursors are at -/
theorem collectAgeWcojGroup_spec {providers : List (Provider Row)} {key : GraphId}
    (allAt : AllAt keyOf providers cursors) (heads : ∀ keys ∈ cursors, keys.head? = some key) :
    ∃ next, collectAgeWcojGroup keyOf key providers =
        .ok (providers.map fun provider => provider.group keyOf key, next) ∧
      AllStand keyOf next (cursors.map List.tail) ∧
      next.map Provider.source = providers.map Provider.source := by
  induction allAt with
  | nil => exact ⟨[], rfl, .nil, rfl⟩
  | cons cursor _ inductionHypothesis =>
      obtain ⟨head, headsLater⟩ := List.forall_mem_cons.1 heads
      obtain ⟨next, ran, reached⟩ := materializeGroup_spec cursor.stands head
      obtain ⟨others, ranOthers, standOthers, sources⟩ := inductionHypothesis headsLater
      refine ⟨next :: others, ?_, .cons reached.stands standOthers, ?_⟩
      · rw [collectAgeWcojGroup, ran]
        change (collectAgeWcojGroup keyOf key _ >>= _) = _
        rw [ranOthers]
        rfl
      · rw [List.map_cons, List.map_cons, sources, reached.source.source_eq]

/-- The group of a key at all providers -/
def groupsOf (keyOf : Row → Option GraphId) (providers : List (Provider Row)) (key : GraphId) :
    GraphId × List (List Row) :=
  (key, providers.map fun provider => provider.group keyOf key)

/-- The groups of the keys where all providers have rows -/
def nonemptyGroups (keyOf : Row → Option GraphId) (providers : List (Provider Row))
    (keys : List GraphId) : List (GraphId × List (List Row)) :=
  (keys.map (groupsOf keyOf providers)).filter fun groups => groups.2.all (!·.isEmpty)

theorem groupsOf_sources {providers next : List (Provider Row)}
    (sources : next.map Provider.source = providers.map Provider.source) :
    groupsOf keyOf next = groupsOf keyOf providers := by
  funext key
  apply congrArg (Prod.mk key)
  induction providers generalizing next with
  | nil => rw [List.map_eq_nil_iff.1 sources]
  | cons provider rest inductionHypothesis =>
      cases next with
      | nil => cases sources
      | cons first others =>
          obtain ⟨here, later⟩ := List.cons.inj sources
          rw [List.map_cons, List.map_cons, inductionHypothesis later, group_of_source here]

theorem nonemptyGroups_sources {providers next : List (Provider Row)}
    (sources : next.map Provider.source = providers.map Provider.source) (keys : List GraphId) :
    nonemptyGroups keyOf next keys = nonemptyGroups keyOf providers keys := by
  rw [nonemptyGroups, groupsOf_sources sources, nonemptyGroups]

/-- The state after a search, with providers that have been moved on -/
theorem Before.next {next : JoinState Row} {providers : List (Provider Row)}
    {ahead : List (List GraphId)} (before : Before keyOf state cursors)
    (carries : Carries state next) (stand : AllStand keyOf providers ahead)
    (sources : providers.map Provider.source = state.providers.map Provider.source) :
    Before keyOf { next with providers := providers } ahead := by
  have lengths := congrArg List.length sources
  rw [List.length_map, List.length_map] at lengths
  refine ⟨stand, nonempty_of_sources sources before.nonempty, ?_, carries.notAuto, ?_⟩
  · change next.sourceOrder.Perm (List.range providers.length)
    rw [carries.sourceOrder, lengths]
    exact before.order
  · intro engine notDone
    have notDone : next.progressiveSetupDone = false := notDone
    rw [carries.setupDone engine] at notDone
    cases notDone

theorem commonKeys_of_none {ahead : List (List GraphId)} (none : ∀ key, ¬Common ahead key) :
    commonKeys ahead = [] := by
  apply List.eq_nil_iff_forall_not_mem.2
  intro key inside
  have nonempty : ahead ≠ [] := by
    rintro rfl
    cases inside
  exact none key ((mem_commonKeys nonempty).1 inside)

/-- What a call of `prepareAgeWcojGroup` leaves to do -/
inductive Prepared (keyOf : Row → Option GraphId) (state : JoinState Row)
    (cursors : List (List GraphId)) :
    Option (GraphId × List (List Row)) × JoinState Row → Prop where
  | exhausted {next : JoinState Row} :
      nonemptyGroups keyOf state.providers (commonKeys cursors) = [] →
      Prepared keyOf state cursors (none, next)
  | group {next : JoinState Row} {ahead : List (List GraphId)}
      {group : GraphId × List (List Row)} : Before keyOf next ahead → total ahead < total cursors →
      next.providers.map Provider.source = state.providers.map Provider.source →
      nonemptyGroups keyOf state.providers (commonKeys cursors) =
        group :: nonemptyGroups keyOf state.providers (commonKeys ahead) →
      Prepared keyOf state cursors (some group, next)

theorem total_tails_lt {key : GraphId} (agree : Agree cursors key) :
    total (cursors.map List.tail) < total cursors := by
  obtain ⟨keys, inside⟩ := List.exists_mem_of_ne_nil cursors agree.1
  obtain ⟨rest, keysAre⟩ := List.head?_eq_some_iff.1 (agree.2 keys inside)
  apply total_map_lt (fun keys _ => List.tail_sublist keys)
  refine ⟨keys, inside, ?_⟩
  rw [keysAre]
  exact Nat.lt_succ_self _

theorem prepareAgeWcojGroup_spec {alignFuel : Nat} (before : Before keyOf state cursors)
    (enoughAlign : total cursors < alignFuel) (enough : total cursors < fuel) :
    ∃ outcome, prepareAgeWcojGroup keyOf alignFuel fuel state = .ok outcome ∧
      Prepared keyOf state cursors outcome := by
  induction fuel generalizing state cursors with
  | zero => exact absurd enough (Nat.not_lt_zero _)
  | succ fuel inductionHypothesis =>
      have sorted := before.stand.sorted
      obtain ⟨key, next, ran, found, carries⟩ := findNextAgeWcojSurvivor_spec before enoughAlign
      rw [prepareAgeWcojGroup, ran]
      cases found with
      | none noneCommon =>
          refine ⟨_, rfl, .exhausted ?_⟩
          rw [commonKeys_of_none noneCommon]
          rfl
      | @key key _ after advance agree allAt sources =>
          obtain ⟨providers, collects, stand, sourcesAfter⟩ := collectAgeWcojGroup_spec allAt agree.2
          have beforeNext : Before keyOf { next with providers := providers }
              (after.map List.tail) :=
            before.next carries stand (sourcesAfter.trans sources)
          have fewer := (total_tails_lt agree).trans_le (total_le advance.sublists)
          have isFirst : commonKeys cursors = key :: commonKeys (after.map List.tail) := by
            rw [← advance.commonKeys_eq sorted, agree.commonKeys_eq (advance.sorted sorted)]
          have groups : (next.providers.map fun provider => provider.group keyOf key) =
              (groupsOf keyOf state.providers key).2 := by
            rw [← groupsOf_sources sources]
            rfl
          dsimp only
          change ∃ outcome, (collectAgeWcojGroup keyOf key next.providers >>= _) = _ ∧ _
          rw [collects, groups]
          change ∃ outcome, (if (groupsOf keyOf state.providers key).2.all (!·.isEmpty) then
            _ else _) = _ ∧ _
          by_cases nonempty : (groupsOf keyOf state.providers key).2.all (!·.isEmpty) = true
          · rw [if_pos nonempty]
            refine ⟨_, rfl, .group beforeNext fewer (sourcesAfter.trans sources) ?_⟩
            rw [nonemptyGroups, isFirst, List.map_cons]
            exact List.filter_cons_of_pos nonempty
          · rw [if_neg nonempty]
            have skips : nonemptyGroups keyOf state.providers (commonKeys cursors) =
                nonemptyGroups keyOf state.providers (commonKeys (after.map List.tail)) := by
              rw [nonemptyGroups, isFirst, List.map_cons]
              exact List.filter_cons_of_neg nonempty
            obtain ⟨outcome, ranOn, prepared⟩ :=
              inductionHypothesis beforeNext (by omega) (by omega)
            refine ⟨outcome, ranOn, ?_⟩
            cases prepared with
            | exhausted nothing =>
                apply Prepared.exhausted
                rw [skips, ← nothing]
                exact (nonemptyGroups_sources (sourcesAfter.trans sources) _).symm
            | group beforeLater less sourcesLater eq =>
                apply Prepared.group beforeLater (less.trans fewer)
                  (sourcesLater.trans (sourcesAfter.trans sources))
                rw [skips]
                have same (keys : List GraphId) :=
                  @nonemptyGroups_sources _ keyOf _ _ (sourcesAfter.trans sources) keys
                rw [← same, ← same]
                exact eq

theorem ageWcojGroups_spec {alignFuel : Nat} (before : Before keyOf state cursors)
    (enoughAlign : total cursors < alignFuel) (enough : total cursors < fuel) :
    ageWcojGroups keyOf alignFuel fuel state =
      .ok (nonemptyGroups keyOf state.providers (commonKeys cursors)) := by
  induction fuel generalizing state cursors with
  | zero => exact absurd enough (Nat.not_lt_zero _)
  | succ fuel inductionHypothesis =>
      obtain ⟨outcome, ran, prepared⟩ := prepareAgeWcojGroup_spec before enoughAlign enoughAlign
      rw [ageWcojGroups, ran]
      cases prepared with
      | exhausted nothing =>
          rw [nothing]
          rfl
      | @group next ahead group beforeNext fewer sources eq =>
          rw [eq]
          change (ageWcojGroups keyOf alignFuel fuel next >>= _) = _
          rw [inductionHypothesis beforeNext (by omega) (by omega), nonemptyGroups_sources sources]
          rfl

theorem rescan_before {greater : Nat → Nat → Bool} (nonempty : state.providers ≠ [])
    (order : state.sourceOrder = orderSources greater state.providers.length)
    (planned : state.plannedEngine ≠ .auto)
    (inOrder : ∀ provider ∈ state.providers, provider.InOrder keyOf) :
    Before keyOf (rescanAgeWcojJoinScan state)
      (state.providers.map (Provider.allKeys keyOf)) := by
  refine ⟨rescan_allStand inOrder, nonempty_of_sources rescan_sources nonempty, ?_, planned, ?_⟩
  · change state.sourceOrder.Perm (List.range (rescanAgeWcojProviders state.providers).length)
    rw [rescanAgeWcojProviders, List.length_map, order]
    exact orderSources_perm _
  · intro _ _
    refine ⟨?_, ?_, ?_⟩
    · change _ = (rescanAgeWcojProviders state.providers).map (Provider.allKeys keyOf)
      rw [rescanAgeWcojProviders, List.map_map]
      apply List.map_congr_left
      intro provider _
      exact (allKeys_of_source rescan_sameSource.source_eq).1.symm
    · intro provider inside
      obtain ⟨original, isOriginal, rfl⟩ := List.mem_map.1 inside
      exact (allKeys_of_source rescan_sameSource.source_eq).2 (inOrder original isOriginal)
    · intro provider inside kind
      obtain ⟨original, -, rfl⟩ := List.mem_map.1 inside
      rw [rescan_sameSource.kind] at kind
      rw [Provider.rescan, kind]

/-- Whatever engine is planned, and whenever it gives way to another one, the scan returns the
groups of the keys that all providers have, in the order of the keys. -/
theorem ageWcojGroups_rescan {alignFuel : Nat} (keyOf : Row → Option GraphId)
    (greater : Nat → Nat → Bool) (state : JoinState Row) (nonempty : state.providers ≠ [])
    (order : state.sourceOrder = orderSources greater state.providers.length)
    (planned : state.plannedEngine ≠ .auto)
    (inOrder : ∀ provider ∈ state.providers, provider.InOrder keyOf)
    (enoughAlign : total (state.providers.map (Provider.allKeys keyOf)) < alignFuel)
    (enough : total (state.providers.map (Provider.allKeys keyOf)) < fuel) :
    ageWcojGroups keyOf alignFuel fuel (rescanAgeWcojJoinScan state) =
      .ok (nonemptyGroups keyOf state.providers
        (commonKeys (state.providers.map (Provider.allKeys keyOf)))) := by
  rw [ageWcojGroups_spec (rescan_before nonempty order planned inOrder) enoughAlign enough]
  exact congrArg Except.ok (nonemptyGroups_sources rescan_sources _)

/-- A plan stream and an adjacency provider, whose local predicate no row of the second common key
meets -/
def twoSources (requested planned : EngineKind) : JoinState (GraphId × Nat) where
  providers :=
    [{ kind := .planStream
       rows := [(844424930131969, 0), (844424930131971, 1), (844424930131971, 2), (844424930131973, 3)]
       localQual := fun _ => true
       pending := [], currentSlot := none, currentKey := 0, lastKey := none, hasCurrent := false
       exhausted := false, terminals := [], terminalIndex := 0, built := false, rowsScanned := 0 },
     { kind := .adjacency
       rows := [(844424930131973, 4), (844424930131972, 5), (844424930131971, 6)]
       localQual := fun row => row.2 ≠ 4
       pending := [], currentSlot := none, currentKey := 0, lastKey := none, hasCurrent := false
       exhausted := false, terminals := [], terminalIndex := 0, built := false, rowsScanned := 0 }]
  sourceOrder := orderSources (fun _ _ => true) 2
  requestedEngine := requested
  plannedEngine := planned
  actualEngine := planned
  fallbackReason := "none"
  progressiveSetupDone := false
  progressiveProbes := 0
  progressiveMatches := 0

theorem twoSources_allKeys (requested planned : EngineKind) :
    (twoSources requested planned).providers.map (Provider.allKeys fun row => some row.1) =
      [[844424930131969, 844424930131971, 844424930131973],
        [844424930131971, 844424930131972, 844424930131973]] := by
  rw [twoSources, List.map_cons, List.map_singleton]
  congr 1
  · exact allKeys_eq (by decide) (by simp)
  · congr 1
    apply allKeys_eq (by decide)
    intro key
    simp
    tauto

theorem twoSources_inOrder (requested planned : EngineKind) :
    ∀ provider ∈ (twoSources requested planned).providers,
      provider.InOrder fun row => some row.1 := by
  intro provider inside
  rcases List.mem_cons.1 inside with rfl | inside
  · intro _
    decide
  · obtain rfl := List.mem_singleton.1 inside
    intro impossible
    cases impossible

theorem twoSources_total (requested planned : EngineKind) :
    total ((twoSources requested planned).providers.map
      (Provider.allKeys fun row => some row.1)) = 6 := by
  rw [twoSources_allKeys]
  rfl

theorem ageWcojGroups_rescan_two :
    ageWcojGroups (fun row => some row.1) 9 9
        (rescanAgeWcojJoinScan (twoSources .auto .progressive)) =
      .ok [(844424930131971, [[(844424930131971, 1), (844424930131971, 2)],
        [(844424930131971, 6)]])] := by
  have short := twoSources_total .auto .progressive
  have groups := @ageWcojGroups_rescan _ 9 9 (fun row => some row.1) (fun _ _ => true)
    (twoSources .auto .progressive) (List.cons_ne_nil _ _) rfl (by decide)
    (twoSources_inOrder _ _) (by rw [short]; decide) (by rw [short]; decide)
  rw [twoSources_allKeys] at groups
  exact groups.trans rfl

end Runs

end Age.Executor.WcojJoin
