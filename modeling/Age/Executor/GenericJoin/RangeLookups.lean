import Age.Executor.GenericJoin.Views

/-!
# The prefix caches are transparent

Lookups come in any order with the passes that filter the rows of a provider.  Each lookup finds the
range that the two bisections find in the rows that are left.
-/

namespace Age.Executor.GenericJoin

section Machine

/-- A provider, whose rows are those of its array, and its caches -/
structure RangeState where
  provider : GenericProvider
  caches : RangeCaches

/-- What is done with a provider.  The first two are lookups, of which the second one asks for the
children of a prefix of one key, as all callers do. -/
inductive ProviderStep where
  | key1Range (key : GraphId)
  | childRange (key : GraphId)
  | filter (domains : Domains)
  | filterOnVariable (var : Nat) (domain : List GraphId)
  | compact (keep : List Bool)
  | invalidate

/-- What a pass leaves of the provider; `none` when it does not come to the rows and invalidates
nothing. -/
def ProviderStep.filtered (provider : GenericProvider) : ProviderStep → Option GenericProvider
  | .key1Range _ | .childRange _ => none
  | .filter domains =>
      if provider.isReductionMaterialized then
        some { provider with rows := provider.rows.filter (filterGenericProvider domains provider) }
      else none
  | .filterOnVariable var domain =>
      if provider.hasVariable var && provider.isReductionMaterialized then
        some { provider with
          rows := provider.rows.filter (filterGenericProviderOnVariable var domain provider) }
      else none
  | .compact keep => some { provider with rows := compactWithBitmap provider.rows keep }
  -- `load_generic_physical_prefix` forgets the ranges too
  | .invalidate => some provider

/-- One step with the caches, and the range that a lookup finds -/
def RangeState.step (state : RangeState) (step : ProviderStep) : Option Range × RangeState :=
  match step with
  | .key1Range key =>
      let found := sortedArrayKey1Range state.provider.rows state.caches key
      (some found.1, { state with caches := found.2 })
  | .childRange key =>
      let found := openChildRange state.provider.rows state.caches key
      (some found.1, { state with caches := found.2 })
  | pass =>
      match pass.filtered state.provider with
      | some provider => (none, ⟨provider, .empty⟩)
      | none => (none, state)

/-- The ranges that the lookups of a run find -/
def RangeState.lookups : List ProviderStep → RangeState → List (Option Range)
  | [], _ => []
  | step :: rest, state => (state.step step).1 :: lookups rest (state.step step).2

/-- One step that bisects the rows at each lookup -/
def freshStep (provider : GenericProvider) (step : ProviderStep) :
    Option Range × GenericProvider :=
  match step with
  | .key1Range key | .childRange key =>
      (some (boundsRange (provider.rows.map (·.key1)) key), provider)
  | pass => (none, (pass.filtered provider).getD provider)

def freshLookups : List ProviderStep → GenericProvider → List (Option Range)
  | [], _ => []
  | step :: rest, provider =>
      (freshStep provider step).1 :: freshLookups rest (freshStep provider step).2

/-- A provider before its first lookup: the array of a physical provider stays empty. -/
def RangeState.start (provider : GenericProvider) : RangeState :=
  ⟨if provider.isReductionMaterialized then provider.materialize else { provider with rows := [] },
    .empty⟩

end Machine

section Transparent

variable {state : RangeState} {provider left : GenericProvider}

/-- The range is the one that the two bisections find. -/
def IsFresh (rows : List GenericRow) (key : GraphId) (range : Range) : Prop :=
  range = boundsRange (rows.map (·.key1)) key

/-- The rows are in order, and the caches have what the bisections find. -/
structure RangeState.Fresh (state : RangeState) : Prop where
  sorted : (state.provider.rows.map (·.key1)).Pairwise (· ≤ ·)
  keep : state.caches.Keep state.provider.rows (IsFresh state.provider.rows)

theorem sublist_compactWithBitmap (rows : List GenericRow) (keep : List Bool) :
    (compactWithBitmap rows keep).Sublist rows := by
  have zipped : ((rows.zip keep).map (·.1)).Sublist rows := by
    induction rows generalizing keep with
    | nil => exact List.Sublist.refl _
    | cons row rest inductionHypothesis =>
        cases keep with
        | nil => exact List.nil_sublist _
        | cons _ keep => exact (inductionHypothesis keep).cons_cons row
  exact (List.filter_sublist.map _).trans zipped

/-- A pass only leaves rows out. -/
theorem ProviderStep.filtered_sublist {step : ProviderStep}
    (passes : step.filtered provider = some left) : left.rows.Sublist provider.rows := by
  cases step with
  | key1Range _ | childRange _ => cases passes
  | filter domains =>
      rw [ProviderStep.filtered] at passes
      split_ifs at passes
      obtain rfl := Option.some.inj passes
      exact List.filter_sublist
  | filterOnVariable var domain =>
      rw [ProviderStep.filtered] at passes
      split_ifs at passes
      obtain rfl := Option.some.inj passes
      exact List.filter_sublist
  | compact keep =>
      obtain rfl := Option.some.inj passes
      exact sublist_compactWithBitmap _ _
  | invalidate =>
      obtain rfl := Option.some.inj passes
      exact List.Sublist.refl _

theorem RangeState.fresh_start (provider : GenericProvider) : (start provider).Fresh := by
  refine ⟨?_, RangeCaches.keep_empty⟩
  rw [start]
  dsimp only
  split_ifs with materialized
  · rw [GenericProvider.materialize, if_pos materialized, List.pairwise_map]
    exact (rowsSorted_sortGenericRows _).key1
  · exact List.Pairwise.nil

theorem RangeState.Fresh.pass (fresh : state.Fresh) {step : ProviderStep}
    (passes : step.filtered state.provider = some left) :
    RangeState.Fresh ⟨left, .empty⟩ :=
  ⟨fresh.sorted.sublist ((ProviderStep.filtered_sublist passes).map _), RangeCaches.keep_empty⟩

/-- One step finds what the bisections find, and leaves the caches so. -/
theorem RangeState.Fresh.step (fresh : state.Fresh) (step : ProviderStep) :
    (state.step step).1 = (freshStep state.provider step).1 ∧
      (state.step step).2.provider = (freshStep state.provider step).2 ∧
        (state.step step).2.Fresh := by
  have pass (isPass : state.step step = match step.filtered state.provider with
      | some provider => (none, ⟨provider, .empty⟩)
      | none => (none, state))
      (isFresh : freshStep state.provider step =
        (none, (step.filtered state.provider).getD state.provider)) :
      (state.step step).1 = (freshStep state.provider step).1 ∧
        (state.step step).2.provider = (freshStep state.provider step).2 ∧
          (state.step step).2.Fresh := by
    rw [isPass, isFresh]
    cases passes : step.filtered state.provider with
    | none => exact ⟨rfl, rfl, fresh⟩
    | some left => exact ⟨rfl, rfl, fresh.pass passes⟩
  cases step with
  | key1Range key =>
      obtain ⟨range, keep⟩ := @sortedArrayKey1Range_keep _ _ key (IsFresh state.provider.rows)
        fresh.sorted (fun _ => rfl) fresh.keep
      exact ⟨congrArg some range, rfl, fresh.sorted, keep⟩
  | childRange key =>
      obtain ⟨range, keep⟩ := @openChildRange_keep _ _ key (IsFresh state.provider.rows)
        fresh.sorted (fun _ => rfl) fresh.keep
      exact ⟨congrArg some range, rfl, fresh.sorted, keep⟩
  | filter domains => exact pass rfl rfl
  | filterOnVariable var domain => exact pass rfl rfl
  | compact keep => exact pass rfl rfl
  | invalidate => exact pass rfl rfl

theorem RangeState.Fresh.lookups (fresh : state.Fresh) (steps : List ProviderStep) :
    state.lookups steps = freshLookups steps state.provider := by
  induction steps generalizing state with
  | nil => rfl
  | cons step rest inductionHypothesis =>
      obtain ⟨range, provider, after⟩ := fresh.step step
      rw [RangeState.lookups, freshLookups, range, inductionHypothesis after, provider]

/-- Through whichever cache a range comes, it is the one of the two bisections in the rows that the
passes before have left. -/
theorem lookups_start (provider : GenericProvider) (steps : List ProviderStep) :
    (RangeState.start provider).lookups steps =
      freshLookups steps (RangeState.start provider).provider :=
  (RangeState.fresh_start provider).lookups steps

end Transparent

end Age.Executor.GenericJoin
