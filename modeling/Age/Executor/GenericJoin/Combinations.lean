import Age.Executor.GenericJoin.Reduction

/-!
# The combinations of the generic join

A binding of the variables joins the providers when each of them has a row for it.  Filtered
providers keep the rows of all bindings that join, and the domains that are built from them
have the keys of these bindings.  A variable without a materialized provider has no domain at
all.
-/

namespace Age.Executor.GenericJoin

open SortedKeys

section Combinations

/-- The row agrees with the bindings of the variables. -/
def GenericProvider.Binds (provider : GenericProvider) (bindings : Nat → GraphId)
    (row : GenericRow) : Prop :=
  row.key1 = bindings provider.var1 ∧ (provider.kind = .edge → row.key2 = bindings provider.var2)

/-- One row of each provider, so that they agree on every variable -/
def Combination (providers : List GenericProvider) (rows : List GenericRow) : Prop :=
  ∃ bindings, List.Forall₂ (fun provider row => row ∈ provider.rows ∧
    provider.Binds bindings row) providers rows

/-- The row of the provider is in a combination. -/
def TakesPart (providers : List GenericProvider) (index : Nat) (row : GenericRow) : Prop :=
  ∃ rows, Combination providers rows ∧ rows[index]? = some row

/-- Every provider has a row for the bindings. -/
def Joins (providers : List GenericProvider) (bindings : Nat → GraphId) : Prop :=
  ∀ provider ∈ providers, ∃ row ∈ provider.rows, provider.Binds bindings row

/-- Every variable has a provider that the reduction materializes. -/
def Covered (variableCount : Nat) (providers : List GenericProvider) : Prop :=
  ∀ var < variableCount, ∃ provider ∈ providers,
    provider.isReductionMaterialized = true ∧ provider.hasVariable var = true

/-- What `initialize_generic_provider` checks, and the order that the rows have been
sorted in -/
structure WellFormed (variableCount : Nat) (providers : List GenericProvider) : Prop where
  var1 : ∀ provider ∈ providers, provider.var1 < variableCount
  var2 : ∀ provider ∈ providers, provider.kind = .edge →
    provider.var1 < provider.var2 ∧ provider.var2 < variableCount
  physical : ∀ provider ∈ providers, provider.isLazyPhysical = true → provider.kind = .edge
  sorted : ∀ provider ∈ providers, provider.isReductionMaterialized = true →
    provider.rows.Pairwise fun first second => first.key1 ≤ second.key1

/-- A step leads from one variable of an edge to the other, whose keys it reads. -/
def SemijoinStep.Valid (step : SemijoinStep) (providers : List GenericProvider) : Prop :=
  ∃ provider, providers[step.providerIndex]? = some provider ∧ provider.kind = .edge ∧
    (step.fromVariable = provider.var1 ∧ step.toVariable = provider.var2 ∨
      step.fromVariable = provider.var2 ∧ step.toVariable = provider.var1) ∧
    step.keyVariable = step.toVariable

/-- A leaf tail names the two variables of its edge. -/
def GHDSeparator.ValidTail (plan : GHDSeparator) (providers : List GenericProvider) : Prop :=
  ∃ provider, providers[plan.providerIndex]? = some provider ∧ provider.kind = .edge ∧
    if plan.separatorIsKey1 then
      provider.var1 = plan.separatorVariable ∧ provider.var2 = plan.tailVariable
    else provider.var2 = plan.separatorVariable ∧ provider.var1 = plan.tailVariable

/-- A path bag has two edges that meet in its third variable. -/
def GHDBag.ValidPath (bag : GHDBag) (separators : Nat × Nat)
    (providers : List GenericProvider) : Prop :=
  ∃ internal index1 index2 provider1 provider2,
    bag.internalVariable separators = some internal ∧ bag.providerIndexes = [index1, index2] ∧
      index1 ≠ index2 ∧ providers[index1]? = some provider1 ∧
      providers[index2]? = some provider2 ∧ provider1.kind = .edge ∧ provider2.kind = .edge ∧
      provider1.hasVariable internal = true ∧ provider2.hasVariable internal = true ∧
      (∀ separator ∈ [separators.1, separators.2],
        provider1.hasVariable separator = true ∨ provider2.hasVariable separator = true)

/-- What the executor checks of a descriptor, and what `make_generic_semijoin_step_desc` and
`try_make_generic_four_cycle_ghd` make -/
structure ReductionDesc.Valid (desc : ReductionDesc) (providers : List GenericProvider) :
    Prop where
  steps : ∀ step ∈ desc.semijoinSteps, step.Valid providers
  tails : ∀ plan ∈ desc.ghdSeparators, plan.kind = .leafTail → plan.ValidTail providers
  pairs : ∀ plan ∈ desc.ghdSeparators, plan.kind = .pair → ∃ parentBag childBag,
    desc.ghdBags[plan.parentBag]? = some parentBag ∧
      desc.ghdBags[plan.childBag]? = some childBag ∧
      parentBag.ValidPath plan.pairVariables providers ∧
      childBag.ValidPath plan.pairVariables providers

/-- Only rows outside of all combinations are gone, and the join is exhausted only when it
is empty. -/
structure Lossless (providers : List GenericProvider) (state : JoinState) : Prop where
  sublists : List.Forall₂ (fun provider reduced => reduced =
    { provider with rows := reduced.rows } ∧ reduced.rows.Sublist provider.rows) providers
    state.providers
  kept : ∀ index provider reduced row, providers[index]? = some provider →
    state.providers[index]? = some reduced → TakesPart providers index row →
    reduced.rows.count row = provider.rows.count row
  exhausted : state.exhausted = true → ∀ rows, ¬Combination providers rows

theorem Joins.combination {providers : List GenericProvider} {bindings : Nat → GraphId}
    (joins : Joins providers bindings) : ∃ rows, Combination providers rows := by
  suffices ∃ rows, List.Forall₂ (fun (provider : GenericProvider) row => row ∈ provider.rows ∧
      provider.Binds bindings row) providers rows by
    obtain ⟨rows, agree⟩ := this
    exact ⟨rows, bindings, agree⟩
  induction providers with
  | nil => exact ⟨[], .nil⟩
  | cons provider rest ih =>
      obtain ⟨row, inside, binds⟩ := joins provider List.mem_cons_self
      obtain ⟨rows, agree⟩ := ih fun other isOther => joins other (List.mem_cons_of_mem _ isOther)
      exact ⟨row :: rows, .cons ⟨inside, binds⟩ agree⟩

theorem Combination.joins {providers : List GenericProvider} {rows : List GenericRow}
    (combination : Combination providers rows) : ∃ bindings, Joins providers bindings ∧
      ∀ (index : Nat) (row : GenericRow), rows[index]? = some row →
        ∃ provider : GenericProvider, providers[index]? = some provider ∧
        row ∈ provider.rows ∧ provider.Binds bindings row := by
  obtain ⟨bindings, agree⟩ := combination
  refine ⟨bindings, ?_⟩
  induction agree with
  | nil => exact ⟨fun _ inside => (List.not_mem_nil inside).elim, fun _ _ found => by simp at found⟩
  | cons first _ ih =>
      obtain ⟨joins, rowsOf⟩ := ih
      refine ⟨fun provider inside => ?_, fun index row found => ?_⟩
      · rcases List.mem_cons.1 inside with rfl | inside
        · exact ⟨_, first⟩
        · exact joins provider inside
      · cases index with
        | zero =>
            rw [List.getElem?_cons_zero, Option.some.injEq] at found
            exact ⟨_, rfl, found ▸ first⟩
        | succ index => exact rowsOf index row found

end Combinations

section Reduces

variable {variableCount : Nat} {base now : List GenericProvider}

/-- Each provider is filtered, and a row of a binding that joins stays. -/
def Reduces (base now : List GenericProvider) : Prop :=
  now.length = base.length ∧ ∀ (index : Nat) (provider : GenericProvider),
    base[index]? = some provider →
    ∃ keep : GenericRow → Bool,
      now[index]? = some { provider with rows := provider.rows.filter keep } ∧
        ∀ row ∈ provider.rows, ∀ bindings, Joins base bindings → provider.Binds bindings row →
          keep row = true

theorem Reduces.refl : Reduces base base :=
  ⟨rfl, fun index provider found => ⟨fun _ => true, by rw [found, List.filter_true],
    fun _ _ _ _ _ => rfl⟩⟩

theorem Reduces.source (reduces : Reduces base now) {index : Nat} {reduced : GenericProvider}
    (found : now[index]? = some reduced) : ∃ provider keep, base[index]? = some provider ∧
      reduced = { provider with rows := provider.rows.filter keep } ∧
        ∀ row ∈ provider.rows, ∀ bindings, Joins base bindings → provider.Binds bindings row →
          keep row = true := by
  have inRange : index < base.length := by
    rw [← reduces.1]
    exact (List.getElem?_eq_some_iff.1 found).1
  obtain ⟨keep, same, keeps⟩ := reduces.2 index _ (List.getElem?_eq_getElem inRange)
  exact ⟨_, keep, List.getElem?_eq_getElem inRange, Option.some.inj (found.symm.trans same), keeps⟩

theorem Reduces.joins (reduces : Reduces base now) {bindings : Nat → GraphId}
    (joins : Joins base bindings) : Joins now bindings := by
  intro reduced inside
  obtain ⟨index, found⟩ := List.mem_iff_getElem?.1 inside
  obtain ⟨provider, keep, atIndex, rfl, keeps⟩ := reduces.source found
  obtain ⟨row, rowMem, binds⟩ := joins provider (List.mem_of_getElem? atIndex)
  exact ⟨row, List.mem_filter.2 ⟨rowMem, keeps row rowMem bindings joins binds⟩, binds⟩

theorem Reduces.set (reduces : Reduces base now) {index : Nat} {reduced : GenericProvider}
    (found : now[index]? = some reduced) {keep : GenericRow → Bool}
    (keeps : ∀ bindings, Joins base bindings → ∀ row ∈ reduced.rows,
      reduced.Binds bindings row → keep row = true) :
    Reduces base (now.set index { reduced with rows := reduced.rows.filter keep }) := by
  refine ⟨by rw [List.length_set, reduces.1], fun place provider atPlace => ?_⟩
  obtain ⟨before, same, beforeKeeps⟩ := reduces.2 place provider atPlace
  by_cases here : index = place
  · subst here
    obtain rfl := Option.some.inj (found.symm.trans same)
    refine ⟨fun row => keep row && before row, ?_, fun row rowMem bindings joins binds => ?_⟩
    · rw [List.getElem?_set_self (List.getElem?_eq_some_iff.1 found).1, List.filter_filter]
    · have isKept := beforeKeeps row rowMem bindings joins binds
      rw [Bool.and_eq_true]
      exact ⟨keeps bindings joins row (List.mem_filter.2 ⟨rowMem, isKept⟩) binds, isKept⟩
  · exact ⟨before, by rw [List.getElem?_set_ne here, same], beforeKeeps⟩

theorem Reduces.wellFormed (reduces : Reduces base now) (wellFormed : WellFormed variableCount base) :
    WellFormed variableCount now := by
  have shape : ∀ reduced ∈ now, ∃ provider ∈ base, ∃ keep,
      reduced = { provider with rows := provider.rows.filter keep } := fun reduced inside => by
    obtain ⟨index, found⟩ := List.mem_iff_getElem?.1 inside
    obtain ⟨provider, keep, atIndex, same, _⟩ := reduces.source found
    exact ⟨provider, List.mem_of_getElem? atIndex, keep, same⟩
  constructor
  · intro reduced inside
    obtain ⟨provider, isBase, keep, rfl⟩ := shape reduced inside
    exact wellFormed.var1 provider isBase
  · intro reduced inside
    obtain ⟨provider, isBase, keep, rfl⟩ := shape reduced inside
    exact wellFormed.var2 provider isBase
  · intro reduced inside
    obtain ⟨provider, isBase, keep, rfl⟩ := shape reduced inside
    exact wellFormed.physical provider isBase
  · intro reduced inside materialized
    obtain ⟨provider, isBase, keep, rfl⟩ := shape reduced inside
    exact (wellFormed.sorted provider isBase materialized).filter _

theorem Reduces.covered_iff (reduces : Reduces base now) :
    Covered variableCount now ↔ Covered variableCount base := by
  refine forall₂_congr fun var inRange => ⟨?_, ?_⟩
  · rintro ⟨reduced, inside, materialized, has⟩
    obtain ⟨index, found⟩ := List.mem_iff_getElem?.1 inside
    obtain ⟨provider, keep, atIndex, rfl, _⟩ := reduces.source found
    exact ⟨provider, List.mem_of_getElem? atIndex, materialized, has⟩
  · rintro ⟨provider, inside, materialized, has⟩
    obtain ⟨index, found⟩ := List.mem_iff_getElem?.1 inside
    obtain ⟨keep, same, _⟩ := reduces.2 index provider found
    exact ⟨_, List.mem_of_getElem? same, materialized, has⟩

/-- The state has kept all combinations of the providers it started from. -/
structure Kept (variableCount : Nat) (base : List GenericProvider) (state : JoinState) :
    Prop where
  reduces : Reduces base state.providers
  exhausted : state.exhausted = true → Covered variableCount base →
    ∀ bindings, ¬Joins base bindings

theorem Kept.exhaust {state : JoinState} (kept : Kept variableCount base state)
    (empty : Covered variableCount base → ∀ bindings, ¬Joins base bindings) :
    Kept variableCount base { state with exhausted := true } :=
  ⟨kept.reduces, fun _ => empty⟩

end Reduces

section Domains

variable {variableCount : Nat} {base now : List GenericProvider} {domains : Domains}

/-- The domains are in order and have the keys of all bindings that join. -/
def DomainsHold (base : List GenericProvider) (domains : Domains) : Prop :=
  ∀ var keys, domains var = some keys →
    keys.Pairwise (· < ·) ∧ ∀ bindings, Joins base bindings → bindings var ∈ keys

theorem domainsHold_none : DomainsHold base fun _ => none :=
  fun _ _ impossible => by simp at impossible

theorem mem_sortedDistinct {keys : List GraphId} {key : GraphId} :
    key ∈ sortedDistinct keys ↔ key ∈ keys := by
  rw [sortedDistinct, mem_distinct, List.mem_mergeSort]

theorem sortedDistinct_sorted (keys : List GraphId) : (sortedDistinct keys).Pairwise (· < ·) := by
  refine distinct_sorted ?_
  have sorted := @List.pairwise_mergeSort GraphId (fun first second => decide (first ≤ second))
    (fun first second third => by simpa using le_trans) (fun first second => by
      simpa using le_total first second) keys
  simpa using sorted

theorem hasVariable_iff {provider : GenericProvider} {var : Nat} :
    provider.hasVariable var = true ↔ var ∈ provider.endpoints := by
  unfold GenericProvider.hasVariable GenericProvider.endpoints
  cases provider.kind <;> simp [@eq_comm Nat var]

theorem genericProviderUnboundDomain_spec {provider : GenericProvider} {var : Nat}
    (sorted : provider.rows.Pairwise fun first second => first.key1 ≤ second.key1)
    (has : provider.hasVariable var = true) :
    (genericProviderUnboundDomain provider var).Pairwise (· < ·) ∧
      ∀ row ∈ provider.rows, ∀ bindings, provider.Binds bindings row →
        bindings var ∈ genericProviderUnboundDomain provider var := by
  unfold genericProviderUnboundDomain
  unfold GenericProvider.hasVariable at has
  split_ifs with first second
  · subst first
    refine ⟨distinct_sorted (List.pairwise_map.2 sorted), fun row rowMem bindings binds => ?_⟩
    exact mem_distinct.2 (List.mem_map.2 ⟨row, rowMem, binds.1⟩)
  · obtain ⟨isEdge, rfl⟩ := second
    refine ⟨sortedDistinct_sorted _, fun row rowMem bindings binds => ?_⟩
    exact mem_sortedDistinct.2 (List.mem_map.2 ⟨row, rowMem, binds.2 isEdge⟩)
  · simp [first] at has
    exact (second has).elim

theorem addDomain_spec (holds : DomainsHold base domains) {var : Nat} {keys : List GraphId}
    (sorted : keys.Pairwise (· < ·))
    (complete : ∀ bindings, Joins base bindings → bindings var ∈ keys) :
    (addDomain domains var keys = none → ∀ bindings, ¬Joins base bindings) ∧
      ∀ added, addDomain domains var keys = some added → DomainsHold base added := by
  have holdsUpdate {restricted : List GraphId} (sorted : restricted.Pairwise (· < ·))
      (complete : ∀ bindings, Joins base bindings → bindings var ∈ restricted) :
      DomainsHold base (Function.update domains var (some restricted)) := fun other found known => by
    by_cases same : other = var
    · subst same
      rw [Function.update_self, Option.some.injEq] at known
      exact known ▸ ⟨sorted, complete⟩
    · rw [Function.update_of_ne same] at known
      exact holds other found known
  unfold addDomain
  split_ifs with empty
  · exact ⟨fun _ bindings joins => by simpa [empty] using complete bindings joins,
      fun _ impossible => by simp at impossible⟩
  · cases known : domains var with
    | none =>
        refine ⟨fun impossible => by simp at impossible, fun added same => ?_⟩
        obtain rfl := Option.some.inj same
        exact holdsUpdate sorted complete
    | some found =>
        obtain ⟨foundSorted, foundComplete⟩ := holds var found known
        have common : intersectGenericDomains found keys = found.filter (· ∈ keys) :=
          intersect_eq foundSorted sorted
        have commonComplete : ∀ bindings, Joins base bindings →
            bindings var ∈ intersectGenericDomains found keys := fun bindings joins => by
          rw [common, List.mem_filter, decide_eq_true_eq]
          exact ⟨foundComplete bindings joins, complete bindings joins⟩
        dsimp only
        split_ifs with nothing
        · exact ⟨fun _ bindings joins => by simpa [nothing] using commonComplete bindings joins,
            fun _ impossible => by simp at impossible⟩
        · refine ⟨fun impossible => by simp at impossible, fun added same => ?_⟩
          obtain rfl := Option.some.inj same
          exact holdsUpdate (common ▸ foundSorted.filter _) commonComplete

theorem addDomain_known {var : Nat} {keys : List GraphId} {added : Domains}
    (same : addDomain domains var keys = some added) (other : Nat) :
    (added other).isSome = true ↔ (domains other).isSome = true ∨ other = var := by
  have update (restricted : List GraphId) :
      (Function.update domains var (some restricted) other).isSome = true ↔
        (domains other).isSome = true ∨ other = var := by
    by_cases here : other = var
    · simp [here]
    · rw [Function.update_of_ne here, or_iff_left here]
  unfold addDomain at same
  split_ifs at same
  cases known : domains var with
  | none =>
      rw [known] at same
      obtain rfl := Option.some.inj same
      exact update keys
  | some found =>
      rw [known] at same
      dsimp only at same
      split_ifs at same
      obtain rfl := Option.some.inj same
      exact update _

theorem foldSources_spec {sources : List (GenericProvider × Nat)} (holds : DomainsHold base domains)
    (good : ∀ source ∈ sources,
      (genericProviderUnboundDomain source.1 source.2).Pairwise (· < ·) ∧
        ∀ bindings, Joins base bindings →
          bindings source.2 ∈ genericProviderUnboundDomain source.1 source.2) :
    (sources.foldlM (fun domains source => addDomain domains source.2
        (genericProviderUnboundDomain source.1 source.2)) domains = none →
      ∀ bindings, ¬Joins base bindings) ∧
      ∀ built, sources.foldlM (fun domains source => addDomain domains source.2
        (genericProviderUnboundDomain source.1 source.2)) domains = some built →
        DomainsHold base built := by
  induction sources generalizing domains with
  | nil =>
      refine ⟨fun impossible => by simp at impossible, fun built same => ?_⟩
      rw [List.foldlM_nil, Option.pure_def, Option.some.injEq] at same
      exact same ▸ holds
  | cons source rest ih =>
      obtain ⟨sorted, complete⟩ := good source List.mem_cons_self
      obtain ⟨empty, added⟩ := addDomain_spec holds sorted complete
      rw [List.foldlM_cons]
      cases step : addDomain domains source.2 (genericProviderUnboundDomain source.1 source.2) with
      | none =>
          exact ⟨fun _ => empty step, fun built impossible => by simp at impossible⟩
      | some next =>
          exact ih (added next step) fun other isOther => good other (List.mem_cons_of_mem _ isOther)

theorem foldSources_known {sources : List (GenericProvider × Nat)} {built : Domains}
    (same : sources.foldlM (fun domains source => addDomain domains source.2
      (genericProviderUnboundDomain source.1 source.2)) domains = some built) (var : Nat) :
    (built var).isSome = true ↔
      (domains var).isSome = true ∨ ∃ source ∈ sources, var = source.2 := by
  induction sources generalizing domains with
  | nil =>
      rw [List.foldlM_nil, Option.pure_def, Option.some.injEq] at same
      simp [same]
  | cons source rest ih =>
      rw [List.foldlM_cons] at same
      obtain ⟨next, step, after⟩ := Option.bind_eq_some_iff.1 same
      rw [ih after, addDomain_known step]
      simp [or_assoc]

theorem mem_domainSources {source : GenericProvider × Nat} :
    source ∈ domainSources now ↔ source.1 ∈ now ∧
      source.1.isReductionMaterialized = true ∧ source.1.hasVariable source.2 = true := by
  obtain ⟨provider, endpoint⟩ := source
  simp only [domainSources, List.mem_flatMap, List.mem_filter, List.mem_map, Prod.mk.injEq,
    hasVariable_iff]
  constructor
  · rintro ⟨found, ⟨inside, materialized⟩, place, isEndpoint, rfl, rfl⟩
    exact ⟨inside, materialized, isEndpoint⟩
  · rintro ⟨inside, materialized, isEndpoint⟩
    exact ⟨provider, ⟨inside, materialized⟩, endpoint, isEndpoint, rfl, rfl⟩

theorem buildGenericReductionDomains_spec (wellFormed : WellFormed variableCount base)
    (reduces : Reduces base now) :
    (buildGenericReductionDomains variableCount now = none → Covered variableCount base →
      ∀ bindings, ¬Joins base bindings) ∧
      ∀ domains, buildGenericReductionDomains variableCount now = some domains →
        DomainsHold base domains ∧ ∀ var < variableCount, (domains var).isSome = true := by
  have good : ∀ source ∈ domainSources now,
      (genericProviderUnboundDomain source.1 source.2).Pairwise (· < ·) ∧
        ∀ bindings, Joins base bindings →
          bindings source.2 ∈ genericProviderUnboundDomain source.1 source.2 :=
    fun source isSource => by
      obtain ⟨inside, materialized, has⟩ := mem_domainSources.1 isSource
      obtain ⟨sorted, complete⟩ := genericProviderUnboundDomain_spec
        ((reduces.wellFormed wellFormed).sorted _ inside materialized) has
      refine ⟨sorted, fun bindings joins => ?_⟩
      obtain ⟨row, rowMem, binds⟩ := reduces.joins joins _ inside
      exact complete row rowMem bindings binds
  obtain ⟨empty, holds⟩ := foldSources_spec domainsHold_none good
  unfold buildGenericReductionDomains
  cases folded : (domainSources now).foldlM (fun domains source => addDomain domains source.2
      (genericProviderUnboundDomain source.1 source.2)) fun _ => none with
  | none => exact ⟨fun _ _ => empty folded, fun domains impossible => by simp at impossible⟩
  | some built =>
      have known := foldSources_known folded
      rw [Option.bind_eq_bind, Option.bind_some]
      split_ifs with all
      · refine ⟨fun impossible => by simp at impossible, fun domains same => ?_⟩
        obtain rfl := Option.some.inj same
        exact ⟨holds _ folded, fun var inRange =>
          List.all_eq_true.1 all var (List.mem_range.2 inRange)⟩
      · refine ⟨fun _ covered => (all ?_).elim, fun domains impossible => by simp at impossible⟩
        rw [List.all_eq_true]
        intro var inRange
        obtain ⟨provider, inside, materialized, has⟩ :=
          reduces.covered_iff.2 covered var (List.mem_range.1 inRange)
        exact (known var).2 (.inr ⟨(provider, var),
          mem_domainSources.2 ⟨inside, materialized, has⟩, rfl⟩)

/-- A variable without a materialized provider has no domain. -/
theorem buildGenericReductionDomains_uncovered (uncovered : ¬Covered variableCount now) :
    buildGenericReductionDomains variableCount now = none := by
  unfold buildGenericReductionDomains
  cases folded : (domainSources now).foldlM (fun domains source => addDomain domains source.2
      (genericProviderUnboundDomain source.1 source.2)) fun _ => none with
  | none => rfl
  | some built =>
      rw [Option.bind_eq_bind, Option.bind_some, if_neg]
      intro all
      refine uncovered fun var inRange => ?_
      have isKnown := List.all_eq_true.1 all var (List.mem_range.2 inRange)
      rcases (foldSources_known folded var).1 isKnown with impossible | ⟨source, isSource, rfl⟩
      · simp at impossible
      · obtain ⟨inside, materialized, has⟩ := mem_domainSources.1 isSource
        exact ⟨source.1, inside, materialized, has⟩

end Domains

end Age.Executor.GenericJoin
