import Mathlib.Algebra.GroupWithZero.Nat
import Mathlib.Data.Int.Order.Basic
import Mathlib.Data.Prod.Lex
import Mathlib.Logic.Function.Basic
import Age.Lib.SortedKeys

/-!
# The reduction of the generic join

`reduce_generic_providers` removes rows of the materialized providers before
the variables are bound: the semijoin steps of the descriptor, the separators
of leaf tails and of pairs of bags, and passes over all providers.  A provider
that reads an adjacency index stays as it is.
-/

namespace Age.Executor.GenericJoin

open SortedKeys

abbrev GraphId := Int64

scoped instance : LinearOrder GraphId where
  le_refl := Int64.le_refl
  le_trans _ _ _ := Int64.le_trans
  le_antisymm _ _ := Int64.le_antisymm
  le_total := Int64.le_total
  lt_iff_le_not_ge first second := by
    rw [Int64.lt_iff_toInt_lt, Int64.le_iff_toInt_le, Int64.le_iff_toInt_le]
    omega
  toDecidableLE := inferInstance
  toDecidableEq := inferInstance
  toDecidableLT := inferInstance

scoped instance : LawfulBEq GraphId := inferInstance

section Providers

inductive ProviderKind where
  | vertex
  | edge
  deriving DecidableEq

inductive PhysicalKind where
  | eagerSortedArray
  | adjacencyEdge
  deriving DecidableEq

/-- `AgeGenericRow`; the edge id is `none` where `edge_id_valid` is not set. -/
structure GenericRow where
  key1 : GraphId
  key2 : GraphId
  edgeId : Option GraphId
  deriving DecidableEq

/-- `AgeGenericProvider`.  The rows of an adjacency edge are those its payload scan
finds. -/
structure GenericProvider where
  kind : ProviderKind
  var1 : Nat
  var2 : Nat
  physicalKind : PhysicalKind
  rows : List GenericRow
  deriving DecidableEq

/-- `AgeGenericJoinState` -/
structure JoinState where
  providers : List GenericProvider
  exhausted : Bool
  deriving DecidableEq

/-- `generic_provider_is_lazy_physical` -/
def GenericProvider.isLazyPhysical (provider : GenericProvider) : Bool :=
  provider.physicalKind = .adjacencyEdge

/-- `generic_provider_is_reduction_materialized` -/
def GenericProvider.isReductionMaterialized (provider : GenericProvider) : Bool :=
  !provider.isLazyPhysical

/-- `generic_provider_has_variable` -/
def GenericProvider.hasVariable (provider : GenericProvider) (var : Nat) : Bool :=
  provider.var1 = var || provider.kind = .edge && provider.var2 = var

/-- `generic_provider_row_key_for_variable` -/
def GenericProvider.rowKeyForVariable (provider : GenericProvider) (row : GenericRow)
    (var : Nat) : Option GraphId :=
  if provider.var1 = var then some row.key1
  else if provider.kind = .edge ∧ provider.var2 = var then some row.key2
  else none

/-- The order of `compare_generic_rows` on the keys.  Rows that have both keys in common
may come in any order. -/
def sortGenericRows (rows : List GenericRow) : List GenericRow :=
  rows.mergeSort fun first second =>
    first.key1 < second.key1 || first.key1 = second.key1 && first.key2 ≤ second.key2

/-- The rows that `load_generic_physical_prefix` reads -/
def GenericProvider.physicalPrefix (provider : GenericProvider) (key : GraphId) :
    List GenericRow :=
  sortGenericRows (provider.rows.filter (·.key1 = key))

/-- The number of materialized rows, `generic_provider_row_total` -/
def JoinState.rowTotal (state : JoinState) : Nat :=
  ((state.providers.filter (·.isReductionMaterialized)).map (·.rows.length)).sum

end Providers

section Domains

/-- The domain of each variable; `none` where it is not `initialized`. -/
abbrev Domains := Nat → Option (List GraphId)

/-- The keys of a variable, none of them where there is no domain -/
def Domains.keys (domains : Domains) (var : Nat) : List GraphId :=
  (domains var).getD []

/-- `qsort` with `compare_generic_graphids`, and the loop that drops repetitions -/
def sortedDistinct (keys : List GraphId) : List GraphId :=
  distinct (keys.mergeSort (· ≤ ·))

/-- `generic_provider_unbound_domain`: the first keys are in order already. -/
def genericProviderUnboundDomain (provider : GenericProvider) (var : Nat) :
    List GraphId :=
  if provider.var1 = var then distinct (provider.rows.map (·.key1))
  else if provider.kind = .edge ∧ provider.var2 = var then
    sortedDistinct (provider.rows.map (·.key2))
  else []

/-- `AGE_GENERIC_GALLOPING_MIN_RATIO` -/
def gallopingMinRatio : Nat := 8

/-- `intersect_generic_domains` -/
def intersectGenericDomains (left right : List GraphId) : List GraphId :=
  intersect gallopingMinRatio left right

/-- Restricts a domain, or starts it; `none` when nothing is left. -/
def addDomain (domains : Domains) (var : Nat) (keys : List GraphId) : Option Domains :=
  if keys = [] then none
  else
    match domains var with
    | none => some (Function.update domains var (some keys))
    | some found =>
        let common := intersectGenericDomains found keys
        if common = [] then none
        else some (Function.update domains var (some common))

/-- The endpoints that `build_generic_reduction_domains` visits -/
def GenericProvider.endpoints (provider : GenericProvider) : List Nat :=
  match provider.kind with
  | .vertex => [provider.var1]
  | .edge => [provider.var1, provider.var2]

/-- The materialized providers with each of their endpoints -/
def domainSources (providers : List GenericProvider) : List (GenericProvider × Nat) :=
  (providers.filter (·.isReductionMaterialized)).flatMap fun provider =>
    provider.endpoints.map fun endpoint => (provider, endpoint)

/-- `build_generic_reduction_domains` -/
def buildGenericReductionDomains (variableCount : Nat) (providers : List GenericProvider) :
    Option Domains := do
  let domains ← (domainSources providers).foldlM (fun domains source =>
    addDomain domains source.2 (genericProviderUnboundDomain source.1 source.2)) fun _ => none
  if (List.range variableCount).all fun var => (domains var).isSome then
    some domains
  else none

/-- `generic_domain_contains` -/
def genericDomainContains (domain : List GraphId) (key : GraphId) : Bool :=
  contains domain key

end Domains

section Filters

/-- The loops over the providers: a row stays where `keep` says so, and a provider without
rows ends the loop and the join. -/
def filterProviders (selected : GenericProvider → Bool)
    (keep : GenericProvider → GenericRow → Bool) : List Nat → JoinState → JoinState
  | [], state => state
  | index :: rest, state =>
      match state.providers[index]? with
      | none => filterProviders selected keep rest state
      | some provider =>
          if selected provider && provider.isReductionMaterialized then
            let rows := provider.rows.filter (keep provider)
            let state :=
              { state with providers := state.providers.set index { provider with rows := rows } }
            if rows = [] then { state with exhausted := true }
            else filterProviders selected keep rest state
          else filterProviders selected keep rest state

/-- The indexes of all providers -/
def JoinState.indexes (state : JoinState) : List Nat := List.range state.providers.length

/-- The rows that `filter_generic_provider` keeps -/
def filterGenericProvider (domains : Domains) (provider : GenericProvider) (row : GenericRow) :
    Bool :=
  genericDomainContains (domains.keys provider.var1) row.key1 &&
    (provider.kind ≠ .edge || genericDomainContains (domains.keys provider.var2) row.key2)

/-- The rows that `filter_generic_provider_on_variable` keeps -/
def filterGenericProviderOnVariable (var : Nat) (domain : List GraphId)
    (provider : GenericProvider) (row : GenericRow) : Bool :=
  genericDomainContains domain (if provider.var1 = var then row.key1 else row.key2)

/-- `filter_generic_providers_in_default_order` -/
def filterInDefaultOrder (domains : Domains) (state : JoinState) : JoinState :=
  filterProviders (fun _ => true) (filterGenericProvider domains) state.indexes state

/-- `filter_generic_providers_in_reduction_order` -/
def filterInReductionOrder (orderEdges : List Nat) (domains : Domains) (reverse : Bool)
    (state : JoinState) : JoinState :=
  let ordered := filterProviders (fun _ => true) (filterGenericProvider domains)
    (if reverse then orderEdges.reverse else orderEdges) state
  if ordered.exhausted then ordered
  else filterProviders (·.kind = .vertex) (filterGenericProvider domains) ordered.indexes ordered

end Filters

section Descriptor

inductive ReductionShape where
  | alphaAcyclic
  | cyclicCore
  | cyclicWithTail
  deriving DecidableEq

inductive ReductionOrderKind where
  | none
  | leafPeel
  deriving DecidableEq

inductive SemijoinPhase where
  | bottomUp
  | topDown
  deriving DecidableEq

inductive SeparatorKind where
  | leafTail
  | pair
  deriving DecidableEq

/-- `AgeGenericSemijoinStepPlan` -/
structure SemijoinStep where
  phase : SemijoinPhase
  providerIndex : Nat
  fromVariable : Nat
  toVariable : Nat
  keyVariable : Nat
  deriving DecidableEq

/-- `AgeGenericGHDBagPlan` -/
structure GHDBag where
  bagVariables : List Nat
  providerIndexes : List Nat
  deriving DecidableEq

/-- `AgeGenericGHDSeparatorPlan`; the two variables of a pair are those of
`separator_variables`. -/
structure GHDSeparator where
  kind : SeparatorKind
  parentBag : Nat
  childBag : Nat
  separatorVariable : Nat
  tailVariable : Nat
  providerIndex : Nat
  separatorIsKey1 : Bool
  pairVariables : Nat × Nat
  deriving DecidableEq

/-- What `initialize_generic_reduction_order` reads of the descriptor -/
structure ReductionDesc where
  shape : ReductionShape
  tailSeparators : Nat
  orderKind : ReductionOrderKind
  orderEdges : List Nat
  ghdBags : List GHDBag
  ghdSeparators : List GHDSeparator
  semijoinSteps : List SemijoinStep
  deriving DecidableEq

inductive JoinError where
  | invalidSemijoinStepRow
  | invalidSeparatorProvider
  deriving DecidableEq

/-- `generic_reduction_order_applicable` -/
def ReductionDesc.orderApplicable (desc : ReductionDesc) (providers : List GenericProvider) :
    Bool :=
  desc.shape = .alphaAcyclic && desc.orderKind = .leafPeel && desc.orderEdges ≠ [] &&
    providers.countP (·.kind = .edge) = desc.orderEdges.length && desc.orderEdges.Nodup &&
    desc.orderEdges.all fun index => match providers[index]? with
      | some provider => provider.kind = .edge
      | none => false

end Descriptor

section SemijoinSteps

/-- `generic_provider_can_build_semijoin_step_domain` -/
def canBuildSemijoinStepDomain (provider : GenericProvider) (step : SemijoinStep) : Bool :=
  provider.isReductionMaterialized ||
    provider.kind = .edge &&
      (step.fromVariable = provider.var1 && step.keyVariable = provider.var2 ||
        step.fromVariable = provider.var2 && step.keyVariable = provider.var1)

/-- `generic_planned_semijoin_steps_applicable` -/
def ReductionDesc.stepsApplicable (desc : ReductionDesc) (providers : List GenericProvider) :
    Bool :=
  let expected :=
    if desc.shape = .cyclicWithTail ∧ desc.orderKind = .none ∧ desc.orderEdges = [] then
      some desc.tailSeparators
    else if desc.shape = .alphaAcyclic ∧ desc.orderKind = .leafPeel ∧ desc.orderEdges ≠ [] then
      some desc.orderEdges.length
    else none
  desc.semijoinSteps ≠ [] &&
    (match expected with
    | some steps => desc.semijoinSteps.length = steps * 2 &&
        desc.semijoinSteps.countP (·.phase = .bottomUp) = steps &&
        desc.semijoinSteps.countP (·.phase = .topDown) = steps
    | none => false) &&
    desc.semijoinSteps.all fun step => match providers[step.providerIndex]? with
      | some provider => canBuildSemijoinStepDomain provider step
      | none => false

/-- `build_generic_lazy_physical_semijoin_step_domain` -/
def lazyPhysicalStepDomain (provider : GenericProvider) (step : SemijoinStep)
    (domains : Domains) : List GraphId :=
  if step.fromVariable = provider.var1 ∧ step.keyVariable = provider.var2 then
    sortedDistinct ((domains.keys provider.var1).flatMap fun key =>
      (provider.physicalPrefix key).map (·.key2))
  else if step.fromVariable = provider.var2 ∧ step.keyVariable = provider.var1 then
    sortedDistinct ((domains.keys provider.var1).filter fun key =>
      (provider.physicalPrefix key).any fun row =>
        genericDomainContains (domains.keys provider.var2) row.key2)
  else []

/-- The keys of the rows that agree with the domain of `from_variable` -/
def stepKeys (provider : GenericProvider) (step : SemijoinStep) (domains : Domains) :
    List GenericRow → Except JoinError (List GraphId)
  | [] => .ok []
  | row :: rest =>
      match provider.rowKeyForVariable row step.fromVariable,
        provider.rowKeyForVariable row step.keyVariable with
      | some fromKey, some key => do
          let keys ← stepKeys provider step domains rest
          if genericDomainContains (domains.keys step.fromVariable) fromKey then
            .ok (key :: keys)
          else .ok keys
      | _, _ => .error .invalidSemijoinStepRow

/-- `build_generic_semijoin_step_domain` -/
def buildGenericSemijoinStepDomain (provider : GenericProvider) (step : SemijoinStep)
    (domains : Domains) : Except JoinError (List GraphId) :=
  if domains.keys step.fromVariable = [] then .ok []
  else if provider.isLazyPhysical then .ok (lazyPhysicalStepDomain provider step domains)
  else (stepKeys provider step domains provider.rows).map sortedDistinct

/-- `filter_generic_providers_for_semijoin_step` -/
def filterForSemijoinStep (provider : GenericProvider) (step : SemijoinStep)
    (domains : Domains) (state : JoinState) : Except JoinError JoinState := do
  let domain ← buildGenericSemijoinStepDomain provider step domains
  if domain = [] then .ok { state with exhausted := true }
  else .ok (filterProviders (·.hasVariable step.toVariable)
    (filterGenericProviderOnVariable step.toVariable domain) state.indexes state)

/-- The loop of `reduce_generic_semijoin_steps` -/
def runSemijoinSteps (variableCount : Nat) : List SemijoinStep → JoinState →
    Except JoinError JoinState
  | [], state => .ok state
  | step :: rest, state =>
      match state.providers[step.providerIndex]? with
      | none => .error .invalidSemijoinStepRow
      | some provider =>
          if canBuildSemijoinStepDomain provider step then
            match buildGenericReductionDomains variableCount state.providers with
            | none => .ok { state with exhausted := true }
            | some domains => do
                let filtered ← filterForSemijoinStep provider step domains state
                if filtered.exhausted then .ok filtered
                else runSemijoinSteps variableCount rest filtered
          else runSemijoinSteps variableCount rest state

/-- `reduce_generic_semijoin_steps` -/
def reduceGenericSemijoinSteps (variableCount : Nat) (desc : ReductionDesc)
    (state : JoinState) : Except JoinError JoinState :=
  if desc.stepsApplicable state.providers then
    runSemijoinSteps variableCount desc.semijoinSteps state
  else .ok state

end SemijoinSteps

section LeafTails

/-- One round over the edges: an edge stays when both of its variables have another edge. -/
def peelRound (degree : Nat → Nat) : List (Nat × Nat) → List (Nat × Nat) × (Nat → Nat)
  | [] => ([], degree)
  | edge :: rest =>
      if 1 < degree edge.1 ∧ 1 < degree edge.2 then
        let (alive, after) := peelRound degree rest
        (edge :: alive, after)
      else
        let first := Function.update degree edge.1 (degree edge.1 - 1)
        peelRound (Function.update first edge.2 (first edge.2 - 1)) rest

/-- The rounds until none removes an edge -/
def peel : Nat → List (Nat × Nat) → (Nat → Nat) → Nat → Nat
  | 0, _, degree => degree
  | rounds + 1, edges, degree =>
      let (alive, after) := peelRound degree edges
      if alive.length = edges.length then after else peel rounds alive after

/-- `build_generic_cycle_core_variables` -/
def cycleCoreVariables (providers : List GenericProvider) (var : Nat) : Bool :=
  let edges := (providers.filter (·.kind = .edge)).map fun provider =>
    (provider.var1, provider.var2)
  let degree := fun endpoint =>
    edges.countP (·.1 = endpoint) + edges.countP (·.2 = endpoint)
  2 ≤ peel (edges.length + 1) edges degree var

/-- `generic_leaf_tail_edge_info`: the separator, the tail and whether the separator is the
first key. -/
def leafTailEdgeInfo (core : Nat → Bool) (provider : GenericProvider) :
    Option (Nat × Nat × Bool) :=
  if provider.kind ≠ .edge ∨ core provider.var1 = core provider.var2 then none
  else if core provider.var1 then some (provider.var1, provider.var2, true)
  else some (provider.var2, provider.var1, false)

/-- `generic_provider_is_cyclic_core` -/
def isCyclicCore (core : Nat → Bool) (provider : GenericProvider) : Bool :=
  provider.isReductionMaterialized && core provider.var1 &&
    (provider.kind = .vertex || core provider.var2)

/-- `generic_has_leaf_tail_separator` -/
def hasLeafTailSeparator (desc : ReductionDesc) (core : Nat → Bool)
    (providers : List GenericProvider) : Bool :=
  if desc.ghdSeparators ≠ [] then desc.ghdSeparators.any (·.kind = .leafTail)
  else providers.any fun provider =>
    provider.isReductionMaterialized && (leafTailEdgeInfo core provider).isSome

/-- `build_generic_tail_separator_domain` -/
def tailSeparatorDomain (provider : GenericProvider) (tailVariable : Nat)
    (separatorIsKey1 : Bool) (localDomains : Domains) : List GraphId :=
  sortedDistinct (provider.rows.filterMap fun row =>
    let tailKey := if separatorIsKey1 then row.key2 else row.key1
    if genericDomainContains (localDomains.keys tailVariable) tailKey then
      some (if separatorIsKey1 then row.key1 else row.key2)
    else none)

/-- The passes of `reduce_generic_tail_domains` over the providers outside of the core -/
def tailDomainPasses (variableCount : Nat) (core : Nat → Bool) :
    Nat → Domains → JoinState → Option Domains × JoinState
  | 0, domains, state => (some domains, state)
  | passes + 1, domains, state =>
      let filtered := filterProviders (fun provider => !isCyclicCore core provider)
        (filterGenericProvider domains) state.indexes state
      if filtered.exhausted then (none, filtered)
      else if filtered.rowTotal = state.rowTotal then (some domains, filtered)
      else
        match buildGenericReductionDomains variableCount filtered.providers with
        | none => (none, { filtered with exhausted := true })
        | some rebuilt => tailDomainPasses variableCount core passes rebuilt filtered

/-- `reduce_generic_tail_domains` -/
def reduceGenericTailDomains (variableCount : Nat) (core : Nat → Bool) (state : JoinState) :
    Option Domains × JoinState :=
  match buildGenericReductionDomains variableCount state.providers with
  | none => (none, state)
  | some domains => tailDomainPasses variableCount core (max variableCount 1) domains state

/-- The separators of the descriptor; the inner `none` is an exhausted join. -/
def plannedSeparatorDomains (providers : List GenericProvider) (localDomains : Domains) :
    List GHDSeparator → Domains → Except JoinError (Option Domains)
  | [], domains => .ok (some domains)
  | plan :: rest, domains =>
      if plan.kind ≠ .leafTail then plannedSeparatorDomains providers localDomains rest domains
      else
        match providers[plan.providerIndex]? with
        | none => .error .invalidSeparatorProvider
        | some provider =>
            if provider.kind ≠ .edge ∨ ¬(if plan.separatorIsKey1 then
                provider.var1 = plan.separatorVariable ∧ provider.var2 = plan.tailVariable
              else provider.var2 = plan.separatorVariable ∧
                provider.var1 = plan.tailVariable) then
              .error .invalidSeparatorProvider
            else if !provider.isReductionMaterialized then
              plannedSeparatorDomains providers localDomains rest domains
            else
              match addDomain domains plan.separatorVariable (tailSeparatorDomain provider
                plan.tailVariable plan.separatorIsKey1 localDomains) with
              | none => .ok none
              | some added => plannedSeparatorDomains providers localDomains rest added

/-- The separators that the core leaves, where the descriptor has none -/
def unplannedSeparatorDomains (core : Nat → Bool) (localDomains : Domains) :
    List GenericProvider → Domains → Option Domains
  | [], domains => some domains
  | provider :: rest, domains =>
      match leafTailEdgeInfo core provider with
      | none => unplannedSeparatorDomains core localDomains rest domains
      | some (separatorVariable, tailVariable, separatorIsKey1) =>
          if !provider.isReductionMaterialized then
            unplannedSeparatorDomains core localDomains rest domains
          else
            match addDomain domains separatorVariable
              (tailSeparatorDomain provider tailVariable separatorIsKey1 localDomains) with
            | none => none
            | some added => unplannedSeparatorDomains core localDomains rest added

/-- The last loop of `reduce_generic_leaf_tail_separators` -/
def filterOnSeparators (separators : Domains) : List Nat → JoinState → JoinState
  | [], state => state
  | var :: rest, state =>
      match separators var with
      | none => filterOnSeparators separators rest state
      | some domain =>
          let filtered := filterProviders (·.hasVariable var)
            (filterGenericProviderOnVariable var domain) state.indexes state
          if filtered.exhausted then filtered else filterOnSeparators separators rest filtered

/-- `reduce_generic_leaf_tail_separators` -/
def reduceGenericLeafTailSeparators (variableCount : Nat) (desc : ReductionDesc)
    (state : JoinState) : Except JoinError JoinState :=
  let core := cycleCoreVariables state.providers
  if !(List.range variableCount).any core || !hasLeafTailSeparator desc core state.providers then
    .ok state
  else
    match reduceGenericTailDomains variableCount core state with
    | (none, reduced) => .ok { reduced with exhausted := true }
    | (some localDomains, reduced) => do
        let separators ← if desc.ghdSeparators ≠ [] then
            plannedSeparatorDomains reduced.providers localDomains desc.ghdSeparators
              fun _ => none
          else .ok (unplannedSeparatorDomains core localDomains reduced.providers fun _ => none)
        match separators with
        | none => .ok { reduced with exhausted := true }
        | some domains => .ok (filterOnSeparators domains (List.range variableCount) reduced)

end LeafTails

section PairSeparators

/-- `generic_ghd_path_bag_internal_variable` -/
def GHDBag.internalVariable (bag : GHDBag) (separators : Nat × Nat) : Option Nat :=
  if bag.bagVariables.length = 3 ∧ bag.providerIndexes.length = 2 then
    match bag.bagVariables.filter fun var =>
      var ≠ separators.1 ∧ var ≠ separators.2 with
    | [internal] => some internal
    | _ => none
  else none

/-- `generic_ghd_bag_reduction_materialized` -/
def GHDBag.isReductionMaterialized (bag : GHDBag) (providers : List GenericProvider) : Bool :=
  bag.providerIndexes.all fun index => match providers[index]? with
    | some provider => provider.isReductionMaterialized
    | none => false

/-- `generic_ghd_path_pair_from_rows` -/
def pathPairFromRows (provider1 : GenericProvider) (row1 : GenericRow)
    (provider2 : GenericProvider) (row2 : GenericRow) (separators : Nat × Nat)
    (internal : Nat) : Option (GraphId ×ₗ GraphId) := do
  let internal1 ← provider1.rowKeyForVariable row1 internal
  let internal2 ← provider2.rowKeyForVariable row2 internal
  if internal1 ≠ internal2 then none
  else
    let key1 ← provider1.rowKeyForVariable row1 separators.1 <|>
      provider2.rowKeyForVariable row2 separators.1
    let key2 ← provider1.rowKeyForVariable row1 separators.2 <|>
      provider2.rowKeyForVariable row2 separators.2
    some (toLex (key1, key2))

/-- The two edges of a path bag, while both are materialized and have rows -/
def GHDBag.pathProviders (bag : GHDBag) (providers : List GenericProvider) :
    Option ((Nat × GenericProvider) × (Nat × GenericProvider)) :=
  match bag.providerIndexes with
  | [index1, index2] =>
      match providers[index1]?, providers[index2]? with
      | some provider1, some provider2 =>
          if provider1.kind = .edge ∧ provider2.kind = .edge ∧
              provider1.isReductionMaterialized ∧ provider2.isReductionMaterialized ∧
              provider1.rows ≠ [] ∧ provider2.rows ≠ [] then
            some ((index1, provider1), (index2, provider2))
          else none
      | _, _ => none
  | _ => none

/-- `build_generic_ghd_path_pair_domain` -/
def pathPairDomain (providers : List GenericProvider) (bag : GHDBag)
    (separators : Nat × Nat) : List (GraphId ×ₗ GraphId) :=
  match bag.internalVariable separators, bag.pathProviders providers with
  | some internal, some ((_, provider1), (_, provider2)) =>
      distinct ((provider1.rows.flatMap fun row1 => provider2.rows.filterMap fun row2 =>
        pathPairFromRows provider1 row1 provider2 row2 separators internal).mergeSort (· ≤ ·))
  | _, _ => []

/-- `compact_generic_provider_with_bitmap` -/
def compactWithBitmap (rows : List GenericRow) (keep : List Bool) : List GenericRow :=
  ((rows.zip keep).filter (·.2)).map (·.1)

/-- `generic_pair_domain_contains` -/
def pairDomainContains (pairs : List (GraphId ×ₗ GraphId)) (pair : GraphId ×ₗ GraphId) : Bool :=
  search pairs pair pairs.length 0 pairs.length

/-- Whether two rows make a pair of the domain -/
def rowsPair (pairs : List (GraphId ×ₗ GraphId)) (pair : Option (GraphId ×ₗ GraphId)) : Bool :=
  match pair with
  | some pair => pairDomainContains pairs pair
  | none => false

/-- Compacts one provider of the state. -/
def JoinState.compact (state : JoinState) (index : Nat) (keep : List Bool) : JoinState :=
  match state.providers[index]? with
  | none => state
  | some provider =>
      let rows := compactWithBitmap provider.rows keep
      { providers := state.providers.set index { provider with rows := rows }
        exhausted := state.exhausted || rows = [] }

/-- `filter_generic_ghd_path_bag_on_pair_domain` -/
def filterPathBagOnPairDomain (bag : GHDBag) (separators : Nat × Nat)
    (pairs : List (GraphId ×ₗ GraphId)) (state : JoinState) : JoinState :=
  match bag.internalVariable separators, bag.pathProviders state.providers with
  | some internal, some ((index1, provider1), (index2, provider2)) =>
      let pairFrom := fun row1 row2 =>
        pathPairFromRows provider1 row1 provider2 row2 separators internal
      let keep1 := provider1.rows.map fun row1 =>
        provider2.rows.any fun row2 => rowsPair pairs (pairFrom row1 row2)
      let keep2 := provider2.rows.map fun row2 =>
        provider1.rows.any fun row1 => rowsPair pairs (pairFrom row1 row2)
      (state.compact index1 keep1).compact index2 keep2
  | _, _ => state

/-- One bag is filtered on the pairs of the other. -/
def reducePairBag (source target : GHDBag) (separators : Nat × Nat) (state : JoinState) :
    JoinState :=
  let pairs := pathPairDomain state.providers source separators
  if pairs = [] then { state with exhausted := true }
  else filterPathBagOnPairDomain target separators pairs state

/-- `reduce_generic_pair_ghd_separators` -/
def reduceGenericPairGHDSeparators (bags : List GHDBag) : List GHDSeparator → JoinState →
    JoinState
  | [], state => state
  | plan :: rest, state =>
      match bags[plan.parentBag]?, bags[plan.childBag]? with
      | some parentBag, some childBag =>
          if plan.kind ≠ .pair || !parentBag.isReductionMaterialized state.providers ||
              !childBag.isReductionMaterialized state.providers then
            reduceGenericPairGHDSeparators bags rest state
          else
            let parent := reducePairBag childBag parentBag plan.pairVariables state
            if parent.exhausted then parent
            else
              let child := reducePairBag parentBag childBag plan.pairVariables parent
              if child.exhausted then child else reduceGenericPairGHDSeparators bags rest child
      | _, _ => reduceGenericPairGHDSeparators bags rest state

end PairSeparators

section Reduction

/-- `generic_semijoin_pass_budget` -/
def semijoinPassBudget (variableCount : Nat) (desc : ReductionDesc)
    (providers : List GenericProvider) : Nat :=
  if desc.orderApplicable providers then 2 else max (variableCount * 2) 1

/-- The passes of `reduce_generic_providers`; the first one goes bottom up. -/
def reductionPasses (variableCount : Nat) (desc : ReductionDesc) (bottomUp : Bool) :
    Nat → JoinState → JoinState
  | 0, state => state
  | passes + 1, state =>
      match buildGenericReductionDomains variableCount state.providers with
      | none => { state with exhausted := true }
      | some domains =>
          if desc.orderApplicable state.providers then
            let filtered := filterInReductionOrder desc.orderEdges domains bottomUp state
            if filtered.exhausted then filtered
            else reductionPasses variableCount desc false passes filtered
          else
            let filtered := filterInDefaultOrder domains state
            if filtered.exhausted || filtered.rowTotal = state.rowTotal then filtered
            else reductionPasses variableCount desc false passes filtered

/-- `reduce_generic_providers` -/
def reduceGenericProviders (variableCount : Nat) (desc : ReductionDesc) (state : JoinState) :
    Except JoinError JoinState := do
  let stepped ← reduceGenericSemijoinSteps variableCount desc state
  if stepped.exhausted then .ok stepped
  else
    let tails ← reduceGenericLeafTailSeparators variableCount desc stepped
    let separated := if tails.exhausted then tails
      else if desc.ghdBags = [] then tails
      else reduceGenericPairGHDSeparators desc.ghdBags desc.ghdSeparators tails
    if separated.exhausted then .ok separated
    else if desc.stepsApplicable state.providers && desc.shape = .alphaAcyclic then
      match buildGenericReductionDomains variableCount separated.providers with
      | none => .ok { separated with exhausted := true }
      | some _ => .ok separated
    else
      .ok (reductionPasses variableCount desc true
        (semijoinPassBudget variableCount desc state.providers) separated)

end Reduction

end Age.Executor.GenericJoin
