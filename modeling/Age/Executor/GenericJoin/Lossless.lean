import Age.Executor.GenericJoin.Combinations

/-!
# What the reduction of the generic join removes

Every pass keeps the rows of the bindings that join, so a domain or a provider that comes out
empty means that nothing joins.  Where a variable has no materialized provider, the reduction
takes the missing domain for an empty one and declares the join exhausted.
-/

namespace Age.Executor.GenericJoin

open SortedKeys

variable {variableCount : Nat} {base : List GenericProvider} {state : JoinState}
  {desc : ReductionDesc}

section Filters

theorem not_joins_of_empty {now : List GenericProvider} (reduces : Reduces base now)
    {provider : GenericProvider} (inside : provider ∈ now) (empty : provider.rows = [])
    (bindings : Nat → GraphId) : ¬Joins base bindings := fun joins => by
  obtain ⟨row, rowMem, _⟩ := reduces.joins joins provider inside
  simp [empty] at rowMem

/-- The selected providers lose no row of a binding that joins. -/
def Keeping (base : List GenericProvider) (selected : GenericProvider → Bool)
    (keep : GenericProvider → GenericRow → Bool) : Prop :=
  ∀ now, Reduces base now → ∀ provider ∈ now, selected provider = true →
    ∀ bindings, Joins base bindings → ∀ row, provider.Binds bindings row →
      keep provider row = true

theorem Keeping.filterProviders {selected : GenericProvider → Bool}
    {keep : GenericProvider → GenericRow → Bool} (keeping : Keeping base selected keep)
    (kept : Kept variableCount base state) (indexes : List Nat) :
    Kept variableCount base (filterProviders selected keep indexes state) := by
  induction indexes generalizing state with
  | nil => exact kept
  | cons index rest ih =>
      unfold GenericJoin.filterProviders
      cases found : state.providers[index]? with
      | none => exact ih kept
      | some provider =>
          dsimp only
          have inside := List.mem_of_getElem? found
          split_ifs with chosen empty
          · rw [Bool.and_eq_true] at chosen
            have reduces := kept.reduces.set found fun bindings joins row _ binds =>
              keeping _ kept.reduces provider inside chosen.1 bindings joins row binds
            refine ⟨reduces, fun _ _ => not_joins_of_empty reduces (List.mem_of_getElem?
              (List.getElem?_set_self (List.getElem?_eq_some_iff.1 found).1)) empty⟩
          · rw [Bool.and_eq_true] at chosen
            exact ih ⟨kept.reduces.set found fun bindings joins row _ binds =>
              keeping _ kept.reduces provider inside chosen.1 bindings joins row binds,
              kept.exhausted⟩
          · exact ih kept

theorem genericDomainContains_of_mem {domain : List GraphId} {key : GraphId}
    (sorted : domain.Pairwise (· < ·)) (inside : key ∈ domain) :
    genericDomainContains domain key = true :=
  (contains_iff (le_of_lt_pairwise sorted)).2 inside

theorem DomainsHold.contains {domains : Domains} (holds : DomainsHold base domains)
    {bindings : Nat → GraphId} (joins : Joins base bindings) {var : Nat}
    (known : (domains var).isSome = true) :
    genericDomainContains (domains.keys var) (bindings var) = true := by
  obtain ⟨keys, same⟩ := Option.isSome_iff_exists.1 known
  obtain ⟨sorted, complete⟩ := holds var keys same
  rw [Domains.keys, same, Option.getD_some]
  exact genericDomainContains_of_mem sorted (complete bindings joins)

theorem keeping_filterGenericProvider (wellFormed : WellFormed variableCount base)
    {domains : Domains} (holds : DomainsHold base domains)
    (known : ∀ var < variableCount, (domains var).isSome = true)
    (selected : GenericProvider → Bool) :
    Keeping base selected (filterGenericProvider domains) := by
  intro now reduces provider inside _ bindings joins row binds
  have formed := reduces.wellFormed wellFormed
  rw [filterGenericProvider, Bool.and_eq_true, binds.1]
  refine ⟨holds.contains joins (known _ (formed.var1 provider inside)), ?_⟩
  by_cases isEdge : provider.kind = .edge
  · rw [binds.2 isEdge, holds.contains joins (known _ (formed.var2 provider inside isEdge).2),
      Bool.or_true]
  · simp [isEdge]

theorem keeping_filterOnVariable {domain : List GraphId} {var : Nat}
    (sorted : domain.Pairwise (· < ·))
    (complete : ∀ bindings, Joins base bindings → bindings var ∈ domain) :
    Keeping base (·.hasVariable var) (filterGenericProviderOnVariable var domain) := by
  intro now _ provider _ has bindings joins row binds
  have inside := genericDomainContains_of_mem sorted (complete bindings joins)
  rw [filterGenericProviderOnVariable]
  split_ifs with first
  · rwa [binds.1, first]
  · simp only [GenericProvider.hasVariable, first, decide_false, Bool.false_or, Bool.and_eq_true,
      decide_eq_true_eq] at has
    rwa [binds.2 has.1, has.2]

end Filters

section SemijoinSteps

theorem rowKeyForVariable_binds {provider : GenericProvider} {var : Nat}
    (has : provider.hasVariable var = true) (row : GenericRow) :
    ∃ key, provider.rowKeyForVariable row var = some key ∧
      ∀ bindings, provider.Binds bindings row → key = bindings var := by
  unfold GenericProvider.rowKeyForVariable
  split_ifs with first second
  · exact ⟨row.key1, rfl, fun bindings binds => first ▸ binds.1⟩
  · exact ⟨row.key2, rfl, fun bindings binds => second.2 ▸ binds.2 second.1⟩
  · simp only [GenericProvider.hasVariable, first, decide_false, Bool.false_or, Bool.and_eq_true,
      decide_eq_true_eq] at has
    exact (second has).elim

theorem stepKeys_ok {provider : GenericProvider} {step : SemijoinStep} {domains : Domains}
    (fromHas : provider.hasVariable step.fromVariable = true)
    (keyHas : provider.hasVariable step.keyVariable = true) (rows : List GenericRow) :
    ∃ keys, stepKeys provider step domains rows = .ok keys ∧
      ∀ row ∈ rows, ∀ bindings, provider.Binds bindings row →
        genericDomainContains (domains.keys step.fromVariable) (bindings step.fromVariable) = true →
          bindings step.keyVariable ∈ keys := by
  induction rows with
  | nil => exact ⟨[], rfl, fun _ impossible => (List.not_mem_nil impossible).elim⟩
  | cons row rest ih =>
      obtain ⟨keys, same, complete⟩ := ih
      obtain ⟨fromKey, fromSame, fromBinds⟩ := rowKeyForVariable_binds fromHas row
      obtain ⟨key, keySame, keyBinds⟩ := rowKeyForVariable_binds keyHas row
      unfold stepKeys
      rw [fromSame, keySame, same]
      by_cases inside : genericDomainContains (domains.keys step.fromVariable) fromKey = true
      · refine ⟨key :: keys, if_pos inside, fun other isOther bindings binds known => ?_⟩
        rcases List.mem_cons.1 isOther with rfl | isOther
        · rw [keyBinds bindings binds]
          exact List.mem_cons_self
        · exact List.mem_cons_of_mem _ (complete other isOther bindings binds known)
      · refine ⟨keys, if_neg inside, fun other isOther bindings binds known => ?_⟩
        rcases List.mem_cons.1 isOther with rfl | isOther
        · rw [fromBinds bindings binds] at inside
          exact (inside known).elim
        · exact complete other isOther bindings binds known

theorem mem_physicalPrefix {provider : GenericProvider} {key : GraphId} {row : GenericRow} :
    row ∈ provider.physicalPrefix key ↔ row ∈ provider.rows ∧ row.key1 = key := by
  rw [GenericProvider.physicalPrefix, sortGenericRows, List.mem_mergeSort, List.mem_filter,
    decide_eq_true_eq]

/-- The shape of the provider of a step, and of all that it is filtered to -/
structure SemijoinStep.Follows (step : SemijoinStep) (provider : GenericProvider) : Prop where
  isEdge : provider.kind = .edge
  ends : step.fromVariable = provider.var1 ∧ step.toVariable = provider.var2 ∨
    step.fromVariable = provider.var2 ∧ step.toVariable = provider.var1
  key : step.keyVariable = step.toVariable

theorem SemijoinStep.Valid.follows {step : SemijoinStep} (valid : step.Valid base)
    {now : List GenericProvider} (reduces : Reduces base now) :
    ∃ provider, now[step.providerIndex]? = some provider ∧ step.Follows provider := by
  obtain ⟨provider, found, isEdge, ends, key⟩ := valid
  obtain ⟨keep, same, _⟩ := reduces.2 _ provider found
  exact ⟨_, same, isEdge, ends, key⟩

theorem lazyPhysicalStepDomain_spec {provider : GenericProvider} {step : SemijoinStep}
    (follows : step.Follows provider) {domains : Domains} (holds : DomainsHold base domains)
    (known1 : (domains provider.var1).isSome = true)
    (known2 : (domains provider.var2).isSome = true) :
    (lazyPhysicalStepDomain provider step domains).Pairwise (· < ·) ∧
      ∀ row ∈ provider.rows, ∀ bindings, Joins base bindings → provider.Binds bindings row →
        bindings step.toVariable ∈ lazyPhysicalStepDomain provider step domains := by
  have source {bindings : Nat → GraphId} (joins : Joins base bindings) :
      bindings provider.var1 ∈ domains.keys provider.var1 := by
    obtain ⟨keys, same⟩ := Option.isSome_iff_exists.1 known1
    rw [Domains.keys, same, Option.getD_some]
    exact (holds _ keys same).2 bindings joins
  have inPrefix {row : GenericRow} (rowMem : row ∈ provider.rows) {bindings : Nat → GraphId}
      (binds : provider.Binds bindings row) :
      row ∈ provider.physicalPrefix (bindings provider.var1) :=
    mem_physicalPrefix.2 ⟨rowMem, binds.1⟩
  unfold lazyPhysicalStepDomain
  split_ifs with forward backward
  · refine ⟨sortedDistinct_sorted _, fun row rowMem bindings joins binds => ?_⟩
    rw [mem_sortedDistinct, ← follows.key, forward.2]
    exact List.mem_flatMap.2 ⟨_, source joins, List.mem_map.2 ⟨row, inPrefix rowMem binds,
      binds.2 follows.isEdge⟩⟩
  · refine ⟨sortedDistinct_sorted _, fun row rowMem bindings joins binds => ?_⟩
    rw [mem_sortedDistinct, ← follows.key, backward.2, List.mem_filter, List.any_eq_true]
    refine ⟨source joins, row, inPrefix rowMem binds, ?_⟩
    rw [binds.2 follows.isEdge]
    exact holds.contains joins known2
  · rcases follows.ends with ⟨fromFirst, toSecond⟩ | ⟨fromSecond, toFirst⟩
    · exact (forward ⟨fromFirst, follows.key.trans toSecond⟩).elim
    · exact (backward ⟨fromSecond, follows.key.trans toFirst⟩).elim

theorem buildGenericSemijoinStepDomain_ok {provider : GenericProvider} {step : SemijoinStep}
    (follows : step.Follows provider) {domains : Domains} (holds : DomainsHold base domains)
    (known1 : (domains provider.var1).isSome = true)
    (known2 : (domains provider.var2).isSome = true)
    (joinsRow : ∀ bindings, Joins base bindings → ∃ row ∈ provider.rows,
      provider.Binds bindings row) :
    ∃ domain, buildGenericSemijoinStepDomain provider step domains = .ok domain ∧
      domain.Pairwise (· < ·) ∧
        ∀ bindings, Joins base bindings → bindings step.toVariable ∈ domain := by
  have ofEnds {var : Nat} (ends : var = provider.var1 ∨ var = provider.var2) :
      provider.hasVariable var = true ∧ (domains var).isSome = true := by
    unfold GenericProvider.hasVariable
    rcases ends with rfl | rfl
    · exact ⟨by simp, known1⟩
    · exact ⟨by simp [follows.isEdge], known2⟩
  have fromEnds : step.fromVariable = provider.var1 ∨ step.fromVariable = provider.var2 :=
    follows.ends.imp And.left And.left
  have keyEnds : step.keyVariable = provider.var1 ∨ step.keyVariable = provider.var2 := by
    rw [follows.key]
    exact (follows.ends.imp And.right And.right).symm
  unfold buildGenericSemijoinStepDomain
  split_ifs with empty lazy
  · refine ⟨[], rfl, .nil, fun bindings joins => ?_⟩
    have inside := holds.contains joins (ofEnds fromEnds).2
    rw [empty] at inside
    simp [genericDomainContains, contains] at inside
  · obtain ⟨sorted, complete⟩ := lazyPhysicalStepDomain_spec follows holds known1 known2
    refine ⟨_, rfl, sorted, fun bindings joins => ?_⟩
    obtain ⟨row, rowMem, binds⟩ := joinsRow bindings joins
    exact complete row rowMem bindings joins binds
  · obtain ⟨keys, same, complete⟩ := @stepKeys_ok provider step domains (ofEnds fromEnds).1
      (ofEnds keyEnds).1 provider.rows
    refine ⟨sortedDistinct keys, by rw [same]; rfl, sortedDistinct_sorted _,
      fun bindings joins => ?_⟩
    obtain ⟨row, rowMem, binds⟩ := joinsRow bindings joins
    rw [mem_sortedDistinct, ← follows.key]
    exact complete row rowMem bindings binds (holds.contains joins (ofEnds fromEnds).2)

theorem filterForSemijoinStep_ok (wellFormed : WellFormed variableCount base)
    (kept : Kept variableCount base state) {provider : GenericProvider} {step : SemijoinStep}
    (inside : provider ∈ state.providers) (follows : step.Follows provider) {domains : Domains}
    (holds : DomainsHold base domains)
    (known : ∀ var < variableCount, (domains var).isSome = true) :
    ∃ filtered, filterForSemijoinStep provider step domains state = .ok filtered ∧
      Kept variableCount base filtered := by
  have formed := kept.reduces.wellFormed wellFormed
  obtain ⟨domain, same, sorted, complete⟩ := buildGenericSemijoinStepDomain_ok follows holds
    (known _ (formed.var1 provider inside)) (known _ (formed.var2 provider inside follows.isEdge).2)
    fun bindings joins => kept.reduces.joins joins provider inside
  unfold filterForSemijoinStep
  rw [same]
  by_cases empty : domain = []
  · refine ⟨{ state with exhausted := true }, if_pos empty, kept.exhaust fun _ bindings joins => ?_⟩
    simpa [empty] using complete bindings joins
  · exact ⟨_, if_neg empty, (keeping_filterOnVariable sorted complete).filterProviders kept _⟩

theorem runSemijoinSteps_ok (wellFormed : WellFormed variableCount base)
    (kept : Kept variableCount base state) {steps : List SemijoinStep}
    (valid : ∀ step ∈ steps, step.Valid base) :
    ∃ reduced, runSemijoinSteps variableCount steps state = .ok reduced ∧
      Kept variableCount base reduced := by
  induction steps generalizing state with
  | nil => exact ⟨state, rfl, kept⟩
  | cons step rest ih =>
      have validRest := fun other isOther => valid other (List.mem_cons_of_mem step isOther)
      obtain ⟨provider, found, follows⟩ := (valid step List.mem_cons_self).follows kept.reduces
      obtain ⟨empty, holds⟩ := buildGenericReductionDomains_spec wellFormed kept.reduces
      unfold runSemijoinSteps
      rw [found]
      dsimp only
      split_ifs with canBuild
      · cases built : buildGenericReductionDomains variableCount state.providers with
        | none => exact ⟨_, rfl, kept.exhaust (empty built)⟩
        | some domains =>
            obtain ⟨domainsHold, known⟩ := holds domains built
            obtain ⟨filtered, same, keptFiltered⟩ := filterForSemijoinStep_ok wellFormed kept
              (List.mem_of_getElem? found) follows domainsHold known
            dsimp only
            rw [same]
            by_cases exhausted : filtered.exhausted = true
            · exact ⟨filtered, if_pos exhausted, keptFiltered⟩
            · obtain ⟨reduced, ran, keptReduced⟩ := ih keptFiltered validRest
              exact ⟨reduced, (if_neg exhausted).trans ran, keptReduced⟩
      · exact ih kept validRest

theorem reduceGenericSemijoinSteps_ok (wellFormed : WellFormed variableCount base)
    (kept : Kept variableCount base state) (valid : desc.Valid base) :
    ∃ reduced, reduceGenericSemijoinSteps variableCount desc state = .ok reduced ∧
      Kept variableCount base reduced := by
  unfold reduceGenericSemijoinSteps
  split_ifs with applicable
  · exact runSemijoinSteps_ok wellFormed kept valid.steps
  · exact ⟨state, rfl, kept⟩

/-- The first step finds the variable that has no domain. -/
theorem reduceGenericSemijoinSteps_uncovered (uncovered : ¬Covered variableCount state.providers)
    (applicable : desc.stepsApplicable state.providers = true) :
    reduceGenericSemijoinSteps variableCount desc state =
      .ok { state with exhausted := true } := by
  rw [reduceGenericSemijoinSteps, if_pos applicable]
  unfold ReductionDesc.stepsApplicable at applicable
  simp only [Bool.and_eq_true, decide_eq_true_eq] at applicable
  obtain ⟨⟨nonempty, _⟩, all⟩ := applicable
  cases steps : desc.semijoinSteps with
  | nil => exact (nonempty steps).elim
  | cons step rest =>
      rw [steps] at all
      have canBuild := List.all_eq_true.1 all step List.mem_cons_self
      unfold runSemijoinSteps
      cases found : state.providers[step.providerIndex]? with
      | none => rw [found] at canBuild; exact (Bool.false_ne_true canBuild).elim
      | some provider =>
          rw [found] at canBuild
          dsimp only at canBuild ⊢
          rw [if_pos canBuild, buildGenericReductionDomains_uncovered uncovered]

end SemijoinSteps

section LeafTails

/-- The separator and the tail are the two variables of the edge. -/
def GenericProvider.IsTail (provider : GenericProvider) (separatorVariable tailVariable : Nat)
    (separatorIsKey1 : Bool) : Prop :=
  provider.kind = .edge ∧
    if separatorIsKey1 then
      provider.var1 = separatorVariable ∧ provider.var2 = tailVariable
    else provider.var2 = separatorVariable ∧ provider.var1 = tailVariable

theorem isTail_of_leafTailEdgeInfo {core : Nat → Bool} {provider : GenericProvider}
    {separatorVariable tailVariable : Nat} {separatorIsKey1 : Bool}
    (info : leafTailEdgeInfo core provider =
      some (separatorVariable, tailVariable, separatorIsKey1)) :
    provider.IsTail separatorVariable tailVariable separatorIsKey1 := by
  unfold leafTailEdgeInfo at info
  split_ifs at info with outside first
  · obtain ⟨rfl, rfl, rfl⟩ := by simpa using info
    exact ⟨not_not.1 fun notEdge => outside (.inl notEdge), rfl, rfl⟩
  · obtain ⟨rfl, rfl, rfl⟩ := by simpa using info
    exact ⟨not_not.1 fun notEdge => outside (.inl notEdge), rfl, rfl⟩

theorem addDomain_tail (wellFormed : WellFormed variableCount base)
    {now : List GenericProvider} (reduces : Reduces base now) {provider : GenericProvider}
    (inside : provider ∈ now) {separatorVariable tailVariable : Nat} {separatorIsKey1 : Bool}
    (isTail : provider.IsTail separatorVariable tailVariable separatorIsKey1)
    {localDomains : Domains} (localHolds : DomainsHold base localDomains)
    (localKnown : ∀ var < variableCount, (localDomains var).isSome = true) {domains : Domains}
    (holds : DomainsHold base domains) :
    (addDomain domains separatorVariable
        (tailSeparatorDomain provider tailVariable separatorIsKey1 localDomains) = none →
      ∀ bindings, ¬Joins base bindings) ∧
      ∀ added, addDomain domains separatorVariable
        (tailSeparatorDomain provider tailVariable separatorIsKey1 localDomains) = some added →
        DomainsHold base added := by
  have formed := reduces.wellFormed wellFormed
  refine addDomain_spec holds (sortedDistinct_sorted _) fun bindings joins => ?_
  obtain ⟨row, rowMem, binds⟩ := reduces.joins joins provider inside
  obtain ⟨isEdge, ends⟩ := isTail
  rw [tailSeparatorDomain, mem_sortedDistinct, List.mem_filterMap]
  refine ⟨row, rowMem, ?_⟩
  cases separatorIsKey1 with
  | true =>
      obtain ⟨rfl, rfl⟩ := ends
      have known := localHolds.contains joins (localKnown _ (formed.var2 provider inside isEdge).2)
      simp [binds.1, binds.2 isEdge, known]
  | false =>
      obtain ⟨rfl, rfl⟩ := ends
      have known := localHolds.contains joins (localKnown _ (formed.var1 provider inside))
      simp [binds.1, binds.2 isEdge, known]

theorem plannedSeparatorDomains_ok (wellFormed : WellFormed variableCount base)
    {now : List GenericProvider} (reduces : Reduces base now) {localDomains : Domains}
    (localHolds : DomainsHold base localDomains)
    (localKnown : ∀ var < variableCount, (localDomains var).isSome = true)
    {plans : List GHDSeparator}
    (valid : ∀ plan ∈ plans, plan.kind = .leafTail → plan.ValidTail base) {domains : Domains}
    (holds : DomainsHold base domains) :
    ∃ separators, plannedSeparatorDomains now localDomains plans domains = .ok separators ∧
      (separators = none → ∀ bindings, ¬Joins base bindings) ∧
      ∀ found, separators = some found → DomainsHold base found := by
  induction plans generalizing domains with
  | nil =>
      refine ⟨some domains, rfl, fun impossible => by simp at impossible, fun found same => ?_⟩
      exact Option.some.inj same ▸ holds
  | cons plan rest ih =>
      have validRest := fun other isOther => valid other (List.mem_cons_of_mem plan isOther)
      unfold plannedSeparatorDomains
      by_cases notTail : plan.kind ≠ .leafTail
      · rw [if_pos notTail]
        exact ih validRest holds
      rw [if_neg notTail]
      obtain ⟨provider, found, isEdge, ends⟩ :=
        valid plan List.mem_cons_self (not_not.1 notTail)
      obtain ⟨keep, same, _⟩ := reduces.2 _ provider found
      rw [same]
      dsimp only
      rw [if_neg (by rw [not_or, not_not, not_not]; exact ⟨isEdge, ends⟩)]
      split_ifs with lazy
      · exact ih validRest holds
      · obtain ⟨empty, added⟩ := addDomain_tail wellFormed reduces (List.mem_of_getElem? same)
          ⟨isEdge, ends⟩ localHolds localKnown holds
        cases step : addDomain domains plan.separatorVariable (tailSeparatorDomain
            { provider with rows := provider.rows.filter keep } plan.tailVariable
            plan.separatorIsKey1 localDomains) with
        | none =>
            exact ⟨none, rfl, fun _ => empty step, fun found impossible => by simp at impossible⟩
        | some next => exact ih validRest (added next step)

theorem unplannedSeparatorDomains_spec (wellFormed : WellFormed variableCount base)
    {now : List GenericProvider} (reduces : Reduces base now) {core : Nat → Bool}
    {localDomains : Domains} (localHolds : DomainsHold base localDomains)
    (localKnown : ∀ var < variableCount, (localDomains var).isSome = true)
    {providers : List GenericProvider} (inside : ∀ provider ∈ providers, provider ∈ now)
    {domains : Domains} (holds : DomainsHold base domains) :
    (unplannedSeparatorDomains core localDomains providers domains = none →
      ∀ bindings, ¬Joins base bindings) ∧
      ∀ found, unplannedSeparatorDomains core localDomains providers domains = some found →
        DomainsHold base found := by
  induction providers generalizing domains with
  | nil =>
      refine ⟨fun impossible => by simp [unplannedSeparatorDomains] at impossible,
        fun found same => ?_⟩
      exact Option.some.inj same ▸ holds
  | cons provider rest ih =>
      have insideRest := fun other isOther => inside other (List.mem_cons_of_mem provider isOther)
      unfold unplannedSeparatorDomains
      cases info : leafTailEdgeInfo core provider with
      | none => exact ih insideRest holds
      | some ends =>
          obtain ⟨separatorVariable, tailVariable, separatorIsKey1⟩ := ends
          obtain ⟨empty, added⟩ := addDomain_tail wellFormed reduces
            (inside provider List.mem_cons_self) (isTail_of_leafTailEdgeInfo info) localHolds
            localKnown holds
          dsimp only
          split_ifs with lazy
          · exact ih insideRest holds
          · cases step : addDomain domains separatorVariable
                (tailSeparatorDomain provider tailVariable separatorIsKey1 localDomains) with
            | none => exact ⟨fun _ => empty step, fun found impossible => by simp at impossible⟩
            | some next => exact ih insideRest (added next step)

theorem tailDomainPasses_spec (wellFormed : WellFormed variableCount base) {core : Nat → Bool}
    {passes : Nat} {domains : Domains} (kept : Kept variableCount base state)
    (holds : DomainsHold base domains)
    (known : ∀ var < variableCount, (domains var).isSome = true) :
    Kept variableCount base (tailDomainPasses variableCount core passes domains state).2 ∧
      ((tailDomainPasses variableCount core passes domains state).1 = none →
        Covered variableCount base → ∀ bindings, ¬Joins base bindings) ∧
      ∀ found, (tailDomainPasses variableCount core passes domains state).1 = some found →
        DomainsHold base found ∧ ∀ var < variableCount, (found var).isSome = true := by
  induction passes generalizing domains state with
  | zero =>
      refine ⟨kept, fun impossible => by simp [tailDomainPasses] at impossible,
        fun found same => ?_⟩
      exact Option.some.inj same ▸ ⟨holds, known⟩
  | succ passes ih =>
      have filtered := (keeping_filterGenericProvider wellFormed holds known
        fun provider => !isCyclicCore core provider).filterProviders kept state.indexes
      unfold tailDomainPasses
      dsimp only
      split_ifs with exhausted settled
      · exact ⟨filtered, fun _ => filtered.exhausted exhausted,
          fun found impossible => by simp at impossible⟩
      · refine ⟨filtered, fun impossible => by simp at impossible, fun found same => ?_⟩
        exact Option.some.inj same ▸ ⟨holds, known⟩
      · obtain ⟨empty, rebuilds⟩ := buildGenericReductionDomains_spec wellFormed filtered.reduces
        cases built : buildGenericReductionDomains variableCount (filterProviders
            (fun provider => !isCyclicCore core provider) (filterGenericProvider domains)
            state.indexes state).providers with
        | none =>
            exact ⟨filtered.exhaust (empty built), fun _ => empty built,
              fun found impossible => by simp at impossible⟩
        | some rebuilt =>
            obtain ⟨rebuiltHolds, rebuiltKnown⟩ := rebuilds rebuilt built
            exact ih filtered rebuiltHolds rebuiltKnown

theorem filterOnSeparators_kept {separators : Domains} (holds : DomainsHold base separators)
    (vars : List Nat) (kept : Kept variableCount base state) :
    Kept variableCount base (filterOnSeparators separators vars state) := by
  induction vars generalizing state with
  | nil => exact kept
  | cons var rest ih =>
      unfold filterOnSeparators
      cases known : separators var with
      | none => exact ih kept
      | some domain =>
          obtain ⟨sorted, complete⟩ := holds var domain known
          have filtered := (keeping_filterOnVariable sorted complete).filterProviders kept
            state.indexes
          dsimp only
          split_ifs
          · exact filtered
          · exact ih filtered

theorem reduceGenericLeafTailSeparators_ok (wellFormed : WellFormed variableCount base)
    (kept : Kept variableCount base state) (valid : desc.Valid base) :
    ∃ reduced, reduceGenericLeafTailSeparators variableCount desc state = .ok reduced ∧
      Kept variableCount base reduced := by
  unfold reduceGenericLeafTailSeparators reduceGenericTailDomains
  dsimp only
  split_ifs with noTail planned
  · exact ⟨state, rfl, kept⟩
  all_goals
    obtain ⟨empty, builds⟩ := buildGenericReductionDomains_spec wellFormed kept.reduces
    cases built : buildGenericReductionDomains variableCount state.providers with
    | none => exact ⟨_, rfl, kept.exhaust (empty built)⟩
    | some domains => ?_
    obtain ⟨domainsHold, domainsKnown⟩ := builds domains built
    obtain ⟨keptPasses, noLocal, localSpec⟩ := @tailDomainPasses_spec variableCount base state
      wellFormed (cycleCoreVariables state.providers) (max variableCount 1) domains kept
      domainsHold domainsKnown
    dsimp only
    cases passes : tailDomainPasses variableCount (cycleCoreVariables state.providers)
      (max variableCount 1) domains state with
    | mk localDomains reduced => ?_
    rw [passes] at keptPasses noLocal localSpec
    cases localDomains with
    | none => exact ⟨_, rfl, keptPasses.exhaust (noLocal rfl)⟩
    | some localDomains => ?_
    obtain ⟨localHolds, localKnown⟩ := localSpec localDomains rfl
  · obtain ⟨separators, same, noSeparators, separatorsHold⟩ := plannedSeparatorDomains_ok
      wellFormed keptPasses.reduces localHolds localKnown valid.tails
      domainsHold_none
    dsimp only
    rw [same]
    cases separators with
    | none => exact ⟨_, rfl, keptPasses.exhaust fun _ => noSeparators rfl⟩
    | some separators =>
        exact ⟨_, rfl, filterOnSeparators_kept (separatorsHold separators rfl) _ keptPasses⟩
  · obtain ⟨noSeparators, separatorsHold⟩ := @unplannedSeparatorDomains_spec variableCount base
      wellFormed reduced.providers keptPasses.reduces (cycleCoreVariables state.providers)
      localDomains localHolds localKnown reduced.providers (fun _ inside => inside)
      (fun _ => none) domainsHold_none
    dsimp only
    cases separators : unplannedSeparatorDomains (cycleCoreVariables state.providers) localDomains
        reduced.providers (fun _ => none) with
    | none => exact ⟨_, rfl, keptPasses.exhaust fun _ => noSeparators separators⟩
    | some found =>
        exact ⟨_, rfl, filterOnSeparators_kept (separatorsHold found separators) _ keptPasses⟩

end LeafTails

section PairSeparators

theorem compactWithBitmap_map (rows : List GenericRow) (keep : GenericRow → Bool) :
    compactWithBitmap rows (rows.map keep) = rows.filter keep := by
  induction rows with
  | nil => rfl
  | cons row rest ih =>
      unfold compactWithBitmap at ih ⊢
      cases isKept : keep row with
      | true => simp [isKept, ih]
      | false => simp [isKept, ih]

theorem Kept.compact (kept : Kept variableCount base state) {index : Nat}
    {provider : GenericProvider} (found : state.providers[index]? = some provider)
    {keep : GenericRow → Bool} (keeps : ∀ bindings, Joins base bindings →
      ∀ row ∈ provider.rows, provider.Binds bindings row → keep row = true) :
    Kept variableCount base (state.compact index (provider.rows.map keep)) := by
  unfold JoinState.compact
  rw [found]
  dsimp only
  rw [compactWithBitmap_map]
  have reduces := kept.reduces.set found keeps
  refine ⟨reduces, fun exhausted covered => ?_⟩
  rw [Bool.or_eq_true, decide_eq_true_eq] at exhausted
  rcases exhausted with already | empty
  · exact kept.exhausted already covered
  · exact not_joins_of_empty reduces (List.mem_of_getElem?
      (List.getElem?_set_self (List.getElem?_eq_some_iff.1 found).1)) empty

/-- What the bag looks like in providers that are reduced -/
theorem GHDBag.ValidPath.reduced {bag : GHDBag} {separators : Nat × Nat}
    (valid : bag.ValidPath separators base) {now : List GenericProvider}
    (reduces : Reduces base now) : bag.ValidPath separators now := by
  obtain ⟨internal, index1, index2, provider1, provider2, isInternal, indexes, different, found1,
    found2, rest⟩ := valid
  obtain ⟨keep1, same1, _⟩ := reduces.2 _ provider1 found1
  obtain ⟨keep2, same2, _⟩ := reduces.2 _ provider2 found2
  exact ⟨internal, index1, index2, _, _, isInternal, indexes, different, same1, same2, rest⟩

theorem pathPairFromRows_binds {provider1 provider2 : GenericProvider} {separators : Nat × Nat}
    {internal : Nat} (internal1 : provider1.hasVariable internal = true)
    (internal2 : provider2.hasVariable internal = true)
    (ends : ∀ separator ∈ [separators.1, separators.2],
      provider1.hasVariable separator = true ∨ provider2.hasVariable separator = true)
    {bindings : Nat → GraphId} {row1 row2 : GenericRow} (binds1 : provider1.Binds bindings row1)
    (binds2 : provider2.Binds bindings row2) :
    pathPairFromRows provider1 row1 provider2 row2 separators internal =
      some (toLex (bindings separators.1, bindings separators.2)) := by
  have keyOf {provider : GenericProvider} {row : GenericRow} (binds : provider.Binds bindings row)
      {var : Nat} (has : provider.hasVariable var = true) :
      provider.rowKeyForVariable row var = some (bindings var) := by
    obtain ⟨key, same, keyBinds⟩ := rowKeyForVariable_binds has row
    rw [same, keyBinds bindings binds]
  have noKey {provider : GenericProvider} (row : GenericRow) {var : Nat}
      (has : ¬provider.hasVariable var = true) : provider.rowKeyForVariable row var = none := by
    unfold GenericProvider.hasVariable at has
    unfold GenericProvider.rowKeyForVariable
    simp only [Bool.or_eq_true, Bool.and_eq_true, decide_eq_true_eq, not_or] at has
    rw [if_neg has.1, if_neg has.2]
  have endKey {separator : Nat} (isEnd : separator ∈ [separators.1, separators.2]) :
      (provider1.rowKeyForVariable row1 separator <|>
        provider2.rowKeyForVariable row2 separator) = some (bindings separator) := by
    by_cases first : provider1.hasVariable separator = true
    · rw [keyOf binds1 first]
      rfl
    · rw [noKey row1 first, keyOf binds2 ((ends separator isEnd).resolve_left first)]
      rfl
  unfold pathPairFromRows
  simp only [keyOf binds1 internal1, keyOf binds2 internal2, Option.bind_eq_bind,
    Option.bind_some, if_neg (not_not_intro rfl), endKey List.mem_cons_self,
    endKey (List.mem_cons_of_mem _ List.mem_cons_self)]

theorem pathProviders_eq {now : List GenericProvider} {bag : GHDBag} {index1 index2 : Nat}
    {provider1 provider2 : GenericProvider} (indexes : bag.providerIndexes = [index1, index2])
    (found1 : now[index1]? = some provider1) (found2 : now[index2]? = some provider2) :
    bag.pathProviders now =
      if provider1.kind = .edge ∧ provider2.kind = .edge ∧
          provider1.isReductionMaterialized ∧ provider2.isReductionMaterialized ∧
          provider1.rows ≠ [] ∧ provider2.rows ≠ [] then
        some ((index1, provider1), (index2, provider2))
      else none := by
  rw [GHDBag.pathProviders, indexes]
  dsimp only
  rw [found1, found2]

theorem pathPairDomain_spec {now : List GenericProvider} (reduces : Reduces base now)
    {bag : GHDBag} {separators : Nat × Nat} (valid : bag.ValidPath separators base)
    (materialized : bag.isReductionMaterialized now = true) :
    (pathPairDomain now bag separators).Pairwise (· < ·) ∧
      ∀ bindings, Joins base bindings →
        toLex (bindings separators.1, bindings separators.2) ∈
          pathPairDomain now bag separators := by
  obtain ⟨internal, index1, index2, provider1, provider2, isInternal, indexes, _, found1, found2,
    isEdge1, isEdge2, internal1, internal2, ends⟩ := valid.reduced reduces
  have inside1 := List.mem_of_getElem? found1
  have inside2 := List.mem_of_getElem? found2
  unfold GHDBag.isReductionMaterialized at materialized
  rw [indexes, List.all_cons, List.all_cons, found1, found2, Bool.and_eq_true, Bool.and_eq_true]
    at materialized
  unfold pathPairDomain
  rw [isInternal, pathProviders_eq indexes found1 found2]
  split_ifs with usable
  · dsimp only
    refine ⟨distinct_sorted ?_, fun bindings joins => ?_⟩
    · have sorted := @List.pairwise_mergeSort (GraphId ×ₗ GraphId)
        (fun first second => decide (first ≤ second))
        (fun first second third => by simpa using le_trans)
        (fun first second => by simpa using le_total first second)
        (provider1.rows.flatMap fun row1 => provider2.rows.filterMap fun row2 =>
          pathPairFromRows provider1 row1 provider2 row2 separators internal)
      simpa using sorted
    · obtain ⟨row1, rowMem1, binds1⟩ := reduces.joins joins provider1 inside1
      obtain ⟨row2, rowMem2, binds2⟩ := reduces.joins joins provider2 inside2
      rw [mem_distinct, List.mem_mergeSort, List.mem_flatMap]
      exact ⟨row1, rowMem1, List.mem_filterMap.2 ⟨row2, rowMem2,
        pathPairFromRows_binds internal1 internal2 ends binds1 binds2⟩⟩
  · refine ⟨.nil, fun bindings joins => (usable ⟨isEdge1, isEdge2, materialized.1,
      materialized.2.1, fun empty => ?_, fun empty => ?_⟩).elim⟩
    · exact not_joins_of_empty reduces inside1 empty bindings joins
    · exact not_joins_of_empty reduces inside2 empty bindings joins

theorem rowsPair_of_mem {pairs : List (GraphId ×ₗ GraphId)} {pair : GraphId ×ₗ GraphId}
    (sorted : pairs.Pairwise (· < ·)) (inside : pair ∈ pairs) :
    rowsPair pairs (some pair) = true := by
  obtain ⟨place, atPlace⟩ := List.mem_iff_getElem?.1 inside
  exact search_of_mem (le_of_lt_pairwise sorted) atPlace (Nat.zero_le _)
    (List.getElem?_eq_some_iff.1 atPlace).1 le_rfl (Nat.sub_le _ _)

theorem filterPathBagOnPairDomain_kept (kept : Kept variableCount base state) {bag : GHDBag}
    {separators : Nat × Nat} (valid : bag.ValidPath separators base)
    {pairs : List (GraphId ×ₗ GraphId)} (sorted : pairs.Pairwise (· < ·))
    (complete : ∀ bindings, Joins base bindings →
      toLex (bindings separators.1, bindings separators.2) ∈ pairs) :
    Kept variableCount base (filterPathBagOnPairDomain bag separators pairs state) := by
  obtain ⟨internal, index1, index2, provider1, provider2, isInternal, indexes, different, found1,
    found2, _, _, internal1, internal2, ends⟩ := valid.reduced kept.reduces
  unfold filterPathBagOnPairDomain
  rw [isInternal, pathProviders_eq indexes found1 found2]
  split_ifs with usable
  · dsimp only
    have paired {bindings : Nat → GraphId} (joins : Joins base bindings) {row1 row2 : GenericRow}
        (binds1 : provider1.Binds bindings row1) (binds2 : provider2.Binds bindings row2) :
        rowsPair pairs (pathPairFromRows provider1 row1 provider2 row2 separators internal) =
          true := by
      rw [pathPairFromRows_binds internal1 internal2 ends binds1 binds2]
      exact rowsPair_of_mem sorted (complete bindings joins)
    refine (kept.compact found1 fun bindings joins row1 _ binds1 => ?_).compact ?_
      fun bindings joins row2 _ binds2 => ?_
    · obtain ⟨row2, rowMem2, binds2⟩ := kept.reduces.joins joins provider2
        (List.mem_of_getElem? found2)
      exact List.any_eq_true.2 ⟨row2, rowMem2, paired joins binds1 binds2⟩
    · unfold JoinState.compact
      rw [found1]
      exact (List.getElem?_set_ne different).trans found2
    · obtain ⟨row1, rowMem1, binds1⟩ := kept.reduces.joins joins provider1
        (List.mem_of_getElem? found1)
      exact List.any_eq_true.2 ⟨row1, rowMem1, paired joins binds1 binds2⟩
  · exact kept

theorem reducePairBag_kept (kept : Kept variableCount base state) {source target : GHDBag}
    {separators : Nat × Nat} (sourceValid : source.ValidPath separators base)
    (targetValid : target.ValidPath separators base)
    (materialized : source.isReductionMaterialized state.providers = true) :
    Kept variableCount base (reducePairBag source target separators state) := by
  obtain ⟨sorted, complete⟩ := pathPairDomain_spec kept.reduces sourceValid materialized
  unfold reducePairBag
  dsimp only
  split_ifs with empty
  · refine kept.exhaust fun _ bindings joins => ?_
    simpa [empty] using complete bindings joins
  · exact filterPathBagOnPairDomain_kept kept targetValid sorted complete

/-- A bag stays materialized, as filtered providers do. -/
theorem isReductionMaterialized_reduced {now later : List GenericProvider}
    (reduces : Reduces base now) (reducesLater : Reduces base later) {bag : GHDBag}
    (materialized : bag.isReductionMaterialized now = true) :
    bag.isReductionMaterialized later = true := by
  unfold GHDBag.isReductionMaterialized at materialized ⊢
  rw [List.all_eq_true] at materialized ⊢
  intro index isIndex
  have before := materialized index isIndex
  cases found : now[index]? with
  | none => rw [found] at before; exact (Bool.false_ne_true before).elim
  | some provider =>
      rw [found] at before
      obtain ⟨origin, keep, atIndex, rfl, _⟩ := reduces.source found
      obtain ⟨laterKeep, same, _⟩ := reducesLater.2 index origin atIndex
      rw [same]
      exact before

theorem reduceGenericPairGHDSeparators_kept {bags : List GHDBag} {plans : List GHDSeparator}
    (valid : ∀ plan ∈ plans, plan.kind = .pair → ∃ parentBag childBag,
      bags[plan.parentBag]? = some parentBag ∧ bags[plan.childBag]? = some childBag ∧
        parentBag.ValidPath plan.pairVariables base ∧ childBag.ValidPath plan.pairVariables base)
    (kept : Kept variableCount base state) :
    Kept variableCount base (reduceGenericPairGHDSeparators bags plans state) := by
  induction plans generalizing state with
  | nil => exact kept
  | cons plan rest ih =>
      have validRest := fun other isOther => valid other (List.mem_cons_of_mem plan isOther)
      unfold reduceGenericPairGHDSeparators
      split
      · rename_i parentBag childBag parentFound childFound
        dsimp only
        split_ifs with unusable parentExhausted childExhausted
        · exact ih validRest kept
        all_goals
          simp only [ne_eq, Bool.or_eq_true, decide_eq_true_eq, Bool.not_eq_true', not_or,
            not_not, Bool.not_eq_false] at unusable
          obtain ⟨⟨isPair, parentMaterialized⟩, childMaterialized⟩ := unusable
          obtain ⟨parent, child, isParent, isChild, parentValid, childValid⟩ :=
            valid plan List.mem_cons_self isPair
          obtain rfl := Option.some.inj (parentFound.symm.trans isParent)
          obtain rfl := Option.some.inj (childFound.symm.trans isChild)
          have keptParent := reducePairBag_kept kept childValid parentValid childMaterialized
        · exact keptParent
        all_goals
          have keptChild := reducePairBag_kept keptParent parentValid childValid
            (isReductionMaterialized_reduced kept.reduces keptParent.reduces parentMaterialized)
        · exact keptChild
        · exact ih validRest keptChild
      · exact ih validRest kept

end PairSeparators

section Reduction

theorem ok_bind {α β : Type} (value : α) (next : α → Except JoinError β) :
    (Except.ok value >>= next) = next value :=
  rfl

theorem filterInReductionOrder_kept (wellFormed : WellFormed variableCount base)
    {orderEdges : List Nat} {domains : Domains} {reverse : Bool} (holds : DomainsHold base domains)
    (known : ∀ var < variableCount, (domains var).isSome = true)
    (kept : Kept variableCount base state) :
    Kept variableCount base (filterInReductionOrder orderEdges domains reverse state) := by
  have ordered := (keeping_filterGenericProvider wellFormed holds known
    fun _ => true).filterProviders kept (if reverse then orderEdges.reverse else orderEdges)
  unfold filterInReductionOrder
  dsimp only
  split_ifs at ordered ⊢
  · exact ordered
  · exact (keeping_filterGenericProvider wellFormed holds known _).filterProviders ordered _
  · exact ordered
  · exact (keeping_filterGenericProvider wellFormed holds known _).filterProviders ordered _

theorem reductionPasses_kept (wellFormed : WellFormed variableCount base) {bottomUp : Bool}
    (passes : Nat) (kept : Kept variableCount base state) :
    Kept variableCount base (reductionPasses variableCount desc bottomUp passes state) := by
  induction passes generalizing state bottomUp with
  | zero => exact kept
  | succ passes ih =>
      obtain ⟨empty, builds⟩ := buildGenericReductionDomains_spec wellFormed kept.reduces
      unfold reductionPasses
      cases built : buildGenericReductionDomains variableCount state.providers with
      | none => exact kept.exhaust (empty built)
      | some domains =>
          obtain ⟨holds, known⟩ := builds domains built
          have ordered := @filterInReductionOrder_kept variableCount base state wellFormed
            desc.orderEdges domains bottomUp holds known kept
          have defaulted : Kept variableCount base (filterInDefaultOrder domains state) :=
            (keeping_filterGenericProvider wellFormed holds known _).filterProviders kept _
          dsimp only
          split_ifs
          · exact ordered
          · exact ih ordered
          · exact defaulted
          · exact ih defaulted

theorem reduceGenericProviders_kept (wellFormed : WellFormed variableCount base)
    (valid : desc.Valid base) :
    ∃ reduced, reduceGenericProviders variableCount desc ⟨base, false⟩ = .ok reduced ∧
      Kept variableCount base reduced := by
  have start : Kept variableCount base ⟨base, false⟩ :=
    ⟨.refl, fun impossible => (Bool.false_ne_true impossible).elim⟩
  obtain ⟨stepped, steps, keptSteps⟩ := reduceGenericSemijoinSteps_ok wellFormed start valid
  unfold reduceGenericProviders
  rw [steps]
  by_cases stepsExhausted : stepped.exhausted = true
  · exact ⟨stepped, if_pos stepsExhausted, keptSteps⟩
  obtain ⟨tails, tailsSame, keptTails⟩ :=
    reduceGenericLeafTailSeparators_ok wellFormed keptSteps valid
  have separated : Kept variableCount base (if tails.exhausted then tails
      else if desc.ghdBags = [] then tails
      else reduceGenericPairGHDSeparators desc.ghdBags desc.ghdSeparators tails) := by
    split_ifs
    · exact keptTails
    · exact keptTails
    · exact reduceGenericPairGHDSeparators_kept valid.pairs keptTails
  rw [ok_bind, if_neg stepsExhausted, tailsSame, ok_bind]
  generalize (if tails.exhausted then tails else if desc.ghdBags = [] then tails
    else reduceGenericPairGHDSeparators desc.ghdBags desc.ghdSeparators tails) = after
    at separated ⊢
  dsimp only
  split_ifs
  · exact ⟨after, rfl, separated⟩
  · obtain ⟨empty, _⟩ := buildGenericReductionDomains_spec wellFormed separated.reduces
    cases built : buildGenericReductionDomains variableCount after.providers with
    | none => exact ⟨_, rfl, separated.exhaust (empty built)⟩
    | some _ => exact ⟨after, rfl, separated⟩
  · exact ⟨_, rfl, reductionPasses_kept wellFormed _ separated⟩

/-- Where a variable has no materialized provider, the reduction ends exhausted. -/
theorem reduceGenericProviders_uncovered (wellFormed : WellFormed variableCount base)
    (valid : desc.Valid base) (uncovered : ¬Covered variableCount base) {reduced : JoinState}
    (ran : reduceGenericProviders variableCount desc ⟨base, false⟩ = .ok reduced) :
    reduced.exhausted = true := by
  unfold reduceGenericProviders at ran
  by_cases applicable : desc.stepsApplicable base = true
  · rw [@reduceGenericSemijoinSteps_uncovered variableCount ⟨base, false⟩ desc uncovered
      applicable, ok_bind, if_pos rfl] at ran
    obtain rfl := Except.ok.inj ran
    rfl
  rw [reduceGenericSemijoinSteps, if_neg applicable, ok_bind, if_neg Bool.false_ne_true] at ran
  have start : Kept variableCount base ⟨base, false⟩ :=
    ⟨.refl, fun impossible => (Bool.false_ne_true impossible).elim⟩
  obtain ⟨tails, tailsSame, keptTails⟩ :=
    reduceGenericLeafTailSeparators_ok wellFormed start valid
  have separated : Kept variableCount base (if tails.exhausted then tails
      else if desc.ghdBags = [] then tails
      else reduceGenericPairGHDSeparators desc.ghdBags desc.ghdSeparators tails) := by
    split_ifs
    · exact keptTails
    · exact keptTails
    · exact reduceGenericPairGHDSeparators_kept valid.pairs keptTails
  rw [tailsSame, ok_bind] at ran
  generalize (if tails.exhausted then tails else if desc.ghdBags = [] then tails
    else reduceGenericPairGHDSeparators desc.ghdBags desc.ghdSeparators tails) = after
    at separated ran
  have noDomains := buildGenericReductionDomains_uncovered (mt separated.reduces.covered_iff.1
    uncovered)
  have positive : 0 < semijoinPassBudget variableCount desc base := by
    unfold semijoinPassBudget
    split_ifs <;> omega
  obtain ⟨passes, budget⟩ := Nat.exists_eq_succ_of_ne_zero positive.ne'
  dsimp only at ran
  split_ifs at ran with exhausted inApplicable
  · exact Except.ok.inj ran ▸ exhausted
  · rw [Bool.and_eq_true] at inApplicable
    exact (applicable inApplicable.1).elim
  · rw [budget, reductionPasses, noDomains] at ran
    exact Except.ok.inj ran ▸ rfl

theorem Kept.sublists (kept : Kept variableCount base state) :
    List.Forall₂ (fun provider reduced => reduced = { provider with rows := reduced.rows } ∧
      reduced.rows.Sublist provider.rows) base state.providers := by
  refine List.forall₂_iff_get.2 ⟨kept.reduces.1.symm, fun index inBase inState => ?_⟩
  obtain ⟨provider, keep, atIndex, same, _⟩ :=
    kept.reduces.source (List.getElem?_eq_getElem inState)
  rw [List.getElem?_eq_getElem inBase, Option.some.injEq] at atIndex
  rw [List.get_eq_getElem, List.get_eq_getElem, same, atIndex]
  exact ⟨rfl, List.filter_sublist⟩

/-- The reduction is lossless exactly where every variable has a materialized provider, or
nothing joins in the first place. -/
theorem reduceGenericProviders_lossless_iff (variableCount : Nat)
    (providers : List GenericProvider) (desc : ReductionDesc)
    (wellFormed : WellFormed variableCount providers) (valid : desc.Valid providers) :
    ∃ reduced, reduceGenericProviders variableCount desc ⟨providers, false⟩ = .ok reduced ∧
      (Lossless providers reduced ↔
        Covered variableCount providers ∨ ∀ rows, ¬Combination providers rows) := by
  obtain ⟨reduced, ran, kept⟩ := reduceGenericProviders_kept wellFormed valid
  refine ⟨reduced, ran, fun lossless => ?_, fun holds => ⟨kept.sublists, ?_, ?_⟩⟩
  · by_cases covered : Covered variableCount providers
    · exact .inl covered
    · exact .inr (lossless.exhausted (reduceGenericProviders_uncovered wellFormed valid covered ran))
  · intro index provider filtered row found reducedFound takesPart
    obtain ⟨rows, combination, atIndex⟩ := takesPart
    obtain ⟨bindings, joins, rowsOf⟩ := combination.joins
    obtain ⟨same, isProvider, rowMem, binds⟩ := rowsOf index row atIndex
    obtain rfl := Option.some.inj (found.symm.trans isProvider)
    obtain ⟨keep, isReduced, keeps⟩ := kept.reduces.2 index provider found
    obtain rfl := Option.some.inj (reducedFound.symm.trans isReduced)
    exact List.count_filter (keeps row rowMem bindings joins binds)
  · intro exhausted rows combination
    rcases holds with covered | empty
    · obtain ⟨bindings, joins, _⟩ := combination.joins
      exact kept.exhausted exhausted covered bindings joins
    · exact empty rows combination

end Reduction

section Example

abbrev sampleSource : GraphId := 844424930131969

abbrev sampleTarget : GraphId := 844424930131970

abbrev sampleEdge : GraphId := 1407374883553281

/-- The vertices that a variable can be -/
def vertexProvider (var : Nat) (key : GraphId) : GenericProvider :=
  ⟨.vertex, var, 0, .eagerSortedArray, [⟨key, 0, none⟩]⟩

/-- The edge between the two vertices, read from an index -/
def indexedEdge : GenericProvider :=
  ⟨.edge, 0, 1, .adjacencyEdge, [⟨sampleSource, sampleTarget, some sampleEdge⟩]⟩

/-- The descriptor of one edge: a leaf that is peeled, up and down. -/
def oneEdgeDesc (edgeIndex : Nat) : ReductionDesc where
  shape := .alphaAcyclic
  tailSeparators := 0
  orderKind := .leafPeel
  orderEdges := [edgeIndex]
  ghdBags := []
  ghdSeparators := []
  semijoinSteps := [⟨.bottomUp, edgeIndex, 1, 0, 0⟩, ⟨.topDown, edgeIndex, 0, 1, 1⟩]

theorem oneEdgeDesc_valid {providers : List GenericProvider} {edgeIndex : Nat}
    (found : providers[edgeIndex]? = some indexedEdge) : (oneEdgeDesc edgeIndex).Valid providers where
  steps step isStep := by
    rcases List.mem_pair.1 isStep with rfl | rfl
    · exact ⟨indexedEdge, found, rfl, .inr ⟨rfl, rfl⟩, rfl⟩
    · exact ⟨indexedEdge, found, rfl, .inl ⟨rfl, rfl⟩, rfl⟩
  tails _ impossible := (List.not_mem_nil impossible).elim
  pairs _ impossible := (List.not_mem_nil impossible).elim

/-- Both vertices and the edge between them -/
def joinedProviders : List GenericProvider :=
  [vertexProvider 0 sampleSource, vertexProvider 1 sampleTarget, indexedEdge]

theorem joinedProviders_wellFormed : WellFormed 2 joinedProviders where
  var1 := by decide
  var2 := by decide
  physical := by decide
  sorted := by decide

theorem reduceGenericProviders_lossless_joined :
    WellFormed 2 joinedProviders ∧ (oneEdgeDesc 2).Valid joinedProviders ∧
      ∃ reduced, reduceGenericProviders 2 (oneEdgeDesc 2) ⟨joinedProviders, false⟩ =
        .ok reduced ∧ Lossless joinedProviders reduced := by
  have valid : (oneEdgeDesc 2).Valid joinedProviders := oneEdgeDesc_valid rfl
  obtain ⟨reduced, ran, lossless⟩ := reduceGenericProviders_lossless_iff 2 joinedProviders
    (oneEdgeDesc 2) joinedProviders_wellFormed valid
  exact ⟨joinedProviders_wellFormed, valid, reduced, ran, lossless.2 (.inl (by unfold Covered; decide))⟩

/-- The variable 1 has the edge of the index alone. -/
def edgeOnlyProviders : List GenericProvider := [vertexProvider 0 sampleSource, indexedEdge]

/-- The join of one vertex with its edge is taken for empty. -/
theorem reduceGenericProviders_loses_edge :
    WellFormed 2 edgeOnlyProviders ∧ (oneEdgeDesc 1).Valid edgeOnlyProviders ∧
      (∃ rows, Combination edgeOnlyProviders rows) ∧
      reduceGenericProviders 2 (oneEdgeDesc 1) ⟨edgeOnlyProviders, false⟩ =
        .ok ⟨edgeOnlyProviders, true⟩ ∧
      ¬Lossless edgeOnlyProviders ⟨edgeOnlyProviders, true⟩ := by
  have combination : Combination edgeOnlyProviders
      [⟨sampleSource, 0, none⟩, ⟨sampleSource, sampleTarget, some sampleEdge⟩] :=
    ⟨fun var => if var = 0 then sampleSource else sampleTarget,
      .cons ⟨List.mem_cons_self, rfl, fun isEdge => (nomatch isEdge)⟩
        (.cons ⟨List.mem_cons_self, rfl, fun _ => rfl⟩ .nil)⟩
  refine ⟨⟨by decide, by decide, by decide, by decide⟩, oneEdgeDesc_valid rfl, ⟨_, combination⟩,
    ?_, fun lossless => lossless.exhausted rfl _ combination⟩
  rfl

end Example

end Age.Executor.GenericJoin
