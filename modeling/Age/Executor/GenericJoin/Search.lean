import Age.Lib.Backtrack
import Age.Executor.GenericJoin.Lossless
import Age.Executor.GenericJoin.Ranges

/-!
# The search of the generic join

The variables are bound one after the other.  The candidates of a variable are what the views
of all its providers have in common, and a full binding gives every provider a bag of rows.
The combinations of the bags are enumerated from the smallest bag on, without two rows of one
edge in a uniqueness group.
-/

namespace Age.Executor.GenericJoin

open SortedKeys

section Views

/-- The caches of a provider, and the prefix that it has loaded -/
structure ProviderCaches where
  ranges : RangeCaches
  loadedPrefix : Option (GraphId × List GenericRow)

/-- The caches of all providers -/
abbrev Caches := Nat → ProviderCaches

def Caches.empty : Caches := fun _ => ⟨.empty, none⟩

/-- The key a variable is bound to -/
def boundKey (bindings : List GraphId) (var : Nat) : GraphId := bindings[var]?.getD 0

/-- `load_generic_physical_prefix` -/
def loadPhysicalPrefix (provider : GenericProvider) (caches : ProviderCaches) (key : GraphId) :
    List GenericRow × ProviderCaches :=
  match caches.loadedPrefix.filter (·.1 = key) with
  | some loaded => (loaded.2, caches)
  | none => (provider.physicalPrefix key, ⟨.empty, some (key, provider.physicalPrefix key)⟩)

/-- The rows of `generic_provider_key1_range` -/
def key1Rows (provider : GenericProvider) (caches : ProviderCaches) (key : GraphId) :
    List GenericRow × ProviderCaches :=
  let (range, ranges) := openChildRange provider.rows caches.ranges key
  (slice provider.rows range.1 range.2, { caches with ranges := ranges })

/-- `build_generic_domain_view`, with no key where it fails -/
def buildDomainView (provider : GenericProvider) (caches : ProviderCaches)
    (bindings : List GraphId) (var : Nat) : List GraphId × ProviderCaches :=
  if provider.isLazyPhysical then
    if provider.var2 ≠ var then ([], caches)
    else
      let (rows, loaded) := loadPhysicalPrefix provider caches (boundKey bindings provider.var1)
      (rows.map (·.key2), loaded)
  else if provider.rows = [] then ([], caches)
  else if provider.kind = .edge ∧ provider.var2 = var then
    let (rows, ranged) := key1Rows provider caches (boundKey bindings provider.var1)
    (rows.map (·.key2), ranged)
  else if provider.var1 ≠ var then ([], caches)
  else (provider.rows.map (·.key1), caches)

/-- `intersect_generic_candidates_with_view` -/
def intersectCandidatesWithView (candidates view : List GraphId) : List GraphId :=
  if candidates = [] ∨ view = [] then []
  else if candidates.length * gallopingMinRatio ≤ view.length then
    gallopingIntersect view candidates 0
  else if view.length * gallopingMinRatio ≤ candidates.length then
    gallopingIntersect candidates (distinct view) 0
  else mergeIntersect candidates (distinct view)

/-- The providers whose views `build_generic_level` takes -/
def GenericProvider.bindsAt (provider : GenericProvider) (var : Nat) : Bool :=
  provider.hasVariable var && !(provider.isLazyPhysical && provider.var1 = var)

/-- The loop of `build_generic_level` -/
def levelLoop (bindings : List GraphId) (var : Nat) : List (GenericProvider × Nat) →
    Option (List GraphId) → Caches → List GraphId × Caches
  | [], candidates, caches => (candidates.getD [], caches)
  | (provider, index) :: rest, candidates, caches =>
      if !provider.bindsAt var then levelLoop bindings var rest candidates caches
      else
        let (view, next) := buildDomainView provider (caches index) bindings var
        let viewed := Function.update caches index next
        if view = [] then ([], viewed)
        else
          match candidates with
          | none => levelLoop bindings var rest (some (distinct view)) viewed
          | some found =>
              let common := intersectCandidatesWithView found view
              if common = [] then ([], viewed)
              else levelLoop bindings var rest (some common) viewed

end Views

section Bags

/-- `lower_bound_key2_rows` and `upper_bound_key2_rows` in the rows of a first key -/
def pairRows (run : List GenericRow) (key2 : GraphId) : List GenericRow :=
  let keys := run.map (·.key2)
  let start := bisect (before keys key2) keys.length 0 keys.length
  slice run start (bisect (upTo keys key2) keys.length start keys.length)

/-- The bag of a provider for a full binding -/
def providerBag (provider : GenericProvider) (caches : ProviderCaches)
    (bindings : List GraphId) : List GenericRow × ProviderCaches :=
  let key1 := boundKey bindings provider.var1
  match provider.kind with
  | .vertex => key1Rows provider caches key1
  | .edge =>
      let (run, ranged) := if provider.isLazyPhysical then loadPhysicalPrefix provider caches key1
        else key1Rows provider caches key1
      (pairRows run (boundKey bindings provider.var2), ranged)

/-- `prepare_generic_bags`; `none` at the first empty bag. -/
def prepareBags (bindings : List GraphId) : List (GenericProvider × Nat) → Caches →
    Option (List (List GenericRow)) × Caches
  | [], caches => (some [], caches)
  | (provider, index) :: rest, caches =>
      let (bag, next) := providerBag provider (caches index) bindings
      let ranged := Function.update caches index next
      if bag = [] then (none, ranged)
      else
        let (bags, last) := prepareBags bindings rest ranged
        (bags.map (bag :: ·), last)

/-- The loop of `next_generic_binding` -/
def bindingSearch (variableCount : Nat) (providers : List GenericProvider) :
    Backtrack.Search GraphId Caches (List (List GenericRow)) where
  depth := variableCount
  openLevel caches bindings := levelLoop bindings bindings.length providers.zipIdx none caches
  visit caches bindings := prepareBags bindings providers.zipIdx caches

end Bags

section Combine

/-- The uniqueness groups of each provider -/
abbrev UniquenessGroups := Nat → List Nat

/-- `bms_overlap` -/
def UniquenessGroups.overlap (groups : UniquenessGroups) (first second : Nat) : Bool :=
  (groups first).any fun group => (groups second).contains group

/-- The order of the enumeration, from the smallest bag on -/
def enumerationOrder (bags : List (List GenericRow)) : List Nat :=
  (List.range bags.length).mergeSort fun first second =>
    ((bags[first]?).getD []).length ≤ ((bags[second]?).getD []).length

/-- A row before has the same edge id, in a provider that shares a group. -/
def conflicts (groups : UniquenessGroups) (order : List Nat) (chosen : List GenericRow)
    (row : GenericRow) : Bool :=
  match row.edgeId, order[chosen.length]? with
  | some edgeId, some provider => (order.zip chosen).any fun previous =>
      previous.2.edgeId = some edgeId && groups.overlap provider previous.1
  | _, _ => false

/-- The rows of the providers in the order of the providers -/
def arrange (order : List Nat) (chosen : List GenericRow) : List GenericRow :=
  (List.range order.length).filterMap fun provider => (order.zip chosen).lookup provider

/-- The bag of the provider that comes after the chosen rows -/
def bagAt (bags : List (List GenericRow)) (order : List Nat) (depth : Nat) : List GenericRow :=
  (order[depth]?.bind fun provider => bags[provider]?).getD []

/-- The loop of `next_generic_combination` -/
def combinationSearch (groups : UniquenessGroups) (bags : List (List GenericRow)) :
    Backtrack.Search GenericRow Unit (List GenericRow) where
  depth := bags.length
  openLevel _ chosen := ((bagAt bags (enumerationOrder bags) chosen.length).filter fun row =>
    !conflicts groups (enumerationOrder bags) chosen row, ())
  visit _ chosen := (some (arrange (enumerationOrder bags) chosen), ())

/-- The providers after their rows have been read and sorted -/
def GenericProvider.materialize (provider : GenericProvider) : GenericProvider :=
  if provider.isReductionMaterialized then
    { provider with rows := sortGenericRows provider.rows }
  else provider

/-- `materialize_generic_providers` -/
def materializeGenericProviders (variableCount : Nat) (desc : ReductionDesc)
    (providers : List GenericProvider) : Except JoinError JoinState :=
  if providers.any fun provider => provider.isReductionMaterialized && provider.rows = [] then
    .ok ⟨providers.map (·.materialize), true⟩
  else reduceGenericProviders variableCount desc ⟨providers.map (·.materialize), false⟩

/-- `access_age_generic_join` until it has no row left; the inner `none` is the end of the
fuel. -/
def accessGenericJoin (variableCount : Nat) (desc : ReductionDesc) (groups : UniquenessGroups)
    (providers : List GenericProvider) (fuel : Nat) :
    Except JoinError (Option (List (List GenericRow))) := do
  let state ← materializeGenericProviders variableCount desc providers
  if state.exhausted then .ok (some [])
  else .ok (do
    let search := bindingSearch variableCount state.providers
    let prepared ← Backtrack.run search fuel (Backtrack.start search Caches.empty)
    let combined ← prepared.mapM fun bags =>
      Backtrack.run (combinationSearch groups bags) fuel
        (Backtrack.start (combinationSearch groups bags) ())
    some combined.flatten)

end Combine

end Age.Executor.GenericJoin
