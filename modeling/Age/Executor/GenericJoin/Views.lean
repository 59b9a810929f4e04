import Age.Executor.GenericJoin.Search

/-!
# What the search of the generic join sees

The views, the candidates and the bags depend on the rows of the providers alone.  The caches
of ranges and prefixes stay right, whatever has been asked of them.
-/

namespace Age.Executor.GenericJoin

open SortedKeys

section Views

variable {rows : List GenericRow} {provider : GenericProvider} {caches : ProviderCaches}
  {bindings : List GraphId} {var : Nat} {key : GraphId}

/-- The order that the rows are sorted in -/
def RowsSorted (rows : List GenericRow) : Prop :=
  rows.Pairwise fun first second =>
    first.key1 < second.key1 ∨ first.key1 = second.key1 ∧ first.key2 ≤ second.key2

theorem rowsSorted_sortGenericRows (rows : List GenericRow) :
    RowsSorted (sortGenericRows rows) := by
  have sorted := @List.pairwise_mergeSort GenericRow
    (fun first second => first.key1 < second.key1 ||
      first.key1 = second.key1 && first.key2 ≤ second.key2)
    (fun first second third => by
      simp only [Bool.or_eq_true, Bool.and_eq_true, decide_eq_true_eq]
      rintro (less | ⟨same, le⟩) (less' | ⟨same', le'⟩)
      · exact .inl (less.trans less')
      · exact .inl (same' ▸ less)
      · exact .inl (same ▸ less')
      · exact .inr ⟨same.trans same', le.trans le'⟩)
    (fun first second => by
      simp only [Bool.or_eq_true, Bool.and_eq_true, decide_eq_true_eq]
      rcases lt_trichotomy first.key1 second.key1 with less | same | greater
      · exact .inl (.inl less)
      · exact (le_total first.key2 second.key2).imp (fun le => .inr ⟨same, le⟩)
          fun le => .inr ⟨same.symm, le⟩
      · exact .inr (.inl greater)) rows
  simpa [RowsSorted, sortGenericRows] using sorted

theorem RowsSorted.key1 (sorted : RowsSorted rows) :
    rows.Pairwise fun first second => first.key1 ≤ second.key1 :=
  sorted.imp fun le => le.elim le_of_lt fun same => same.1.le

theorem RowsSorted.key2 (sorted : RowsSorted rows) (same : ∀ row ∈ rows, row.key1 = key) :
    (rows.map (·.key2)).Pairwise (· ≤ ·) := by
  rw [List.pairwise_map]
  refine List.Pairwise.imp_of_mem (fun {first second} isFirst isSecond le => ?_) sorted
  rcases le with less | ⟨_, le⟩
  · rw [same first isFirst, same second isSecond] at less
    exact (lt_irrefl _ less).elim
  · exact le

/-- What the caches of a provider hold is right. -/
structure ProviderCaches.Right (provider : GenericProvider) (caches : ProviderCaches) : Prop where
  ranges : caches.ranges.Right provider.rows
  loadedPrefix : ∀ loaded, caches.loadedPrefix = some loaded →
    loaded.2 = provider.physicalPrefix loaded.1

theorem loadPhysicalPrefix_spec (right : caches.Right provider) :
    (loadPhysicalPrefix provider caches key).1 = provider.physicalPrefix key ∧
      (loadPhysicalPrefix provider caches key).2.Right provider := by
  unfold loadPhysicalPrefix
  cases loaded : caches.loadedPrefix.filter (·.1 = key) with
  | some found =>
      obtain ⟨isLoaded, atKey⟩ := Option.filter_eq_some_iff.1 loaded
      rw [decide_eq_true_eq] at atKey
      exact ⟨atKey ▸ right.loadedPrefix found isLoaded, right⟩
  | none =>
      refine ⟨rfl, RangeCaches.right_empty, fun found same => ?_⟩
      obtain rfl := Option.some.inj same
      rfl

theorem key1Rows_spec (sorted : RowsSorted provider.rows) (right : caches.Right provider) :
    (key1Rows provider caches key).1 = provider.rows.filter (·.key1 = key) ∧
      (key1Rows provider caches key).2.Right provider := by
  obtain ⟨isRange, ranged⟩ := @openChildRange_spec provider.rows caches.ranges key
    (List.pairwise_map.2 sorted.key1) right.ranges
  exact ⟨isRange, ranged, right.loadedPrefix⟩

/-- The rows of a first key, from the index or from the sorted rows -/
def GenericProvider.run (provider : GenericProvider) (key : GraphId) : List GenericRow :=
  if provider.isLazyPhysical then provider.physicalPrefix key
  else provider.rows.filter (·.key1 = key)

theorem mem_run {row : GenericRow} :
    row ∈ provider.run key ↔ row ∈ provider.rows ∧ row.key1 = key := by
  unfold GenericProvider.run
  split_ifs
  · exact mem_physicalPrefix
  · rw [List.mem_filter, decide_eq_true_eq]

theorem run_perm : (provider.run key).Perm (provider.rows.filter (·.key1 = key)) := by
  unfold GenericProvider.run
  split_ifs
  · exact List.mergeSort_perm _ _
  · exact .refl _

theorem run_sorted (sorted : provider.isLazyPhysical = false → RowsSorted provider.rows) :
    ((provider.run key).map (·.key2)).Pairwise (· ≤ ·) := by
  refine RowsSorted.key2 ?_ fun row isRow => (mem_run.1 isRow).2
  unfold GenericProvider.run
  split_ifs with isLazy
  · exact rowsSorted_sortGenericRows _
  · exact (sorted (by simpa using isLazy)).filter _

/-- The keys that a provider allows for the variable -/
def viewKeys (provider : GenericProvider) (bindings : List GraphId) (var : Nat) : List GraphId :=
  if provider.isLazyPhysical = true ∨ provider.kind = .edge ∧ provider.var2 = var then
    (provider.run (boundKey bindings provider.var1)).map (·.key2)
  else provider.rows.map (·.key1)

theorem buildDomainView_spec
    (sorted : provider.isLazyPhysical = false → RowsSorted provider.rows)
    (isEdge : provider.isLazyPhysical = true → provider.kind = .edge)
    (right : caches.Right provider) (binds : provider.bindsAt var = true) :
    (buildDomainView provider caches bindings var).1 = viewKeys provider bindings var ∧
      (buildDomainView provider caches bindings var).2.Right provider := by
  unfold GenericProvider.bindsAt GenericProvider.hasVariable at binds
  unfold buildDomainView viewKeys GenericProvider.run
  by_cases isLazy : provider.isLazyPhysical = true
  · have second : provider.var2 = var := by
      by_contra other
      simp [isLazy, other] at binds
    rw [if_pos isLazy, if_neg (not_not_intro second), if_pos (.inl isLazy), if_pos isLazy]
    obtain ⟨same, loaded⟩ := @loadPhysicalPrefix_spec provider caches
      (boundKey bindings provider.var1) right
    exact ⟨congrArg _ same, loaded⟩
  · rw [if_neg isLazy, if_neg isLazy]
    have isSorted := sorted (by simpa using isLazy)
    by_cases empty : provider.rows = []
    · rw [if_pos empty]
      exact ⟨by simp [empty], right⟩
    rw [if_neg empty]
    by_cases second : provider.kind = .edge ∧ provider.var2 = var
    · rw [if_pos second, if_pos (.inr second)]
      obtain ⟨same, ranged⟩ := @key1Rows_spec provider caches (boundKey bindings provider.var1)
        isSorted right
      exact ⟨congrArg _ same, ranged⟩
    · have first : provider.var1 = var := by
        by_contra other
        simp only [other, decide_false, Bool.false_or, Bool.and_eq_true, decide_eq_true_eq] at binds
        exact second binds.1
      rw [if_neg second, if_neg (not_not_intro first),
        if_neg (not_or.2 ⟨isLazy, second⟩)]
      exact ⟨rfl, right⟩

theorem viewKeys_sorted (sorted : provider.isLazyPhysical = false → RowsSorted provider.rows) :
    (viewKeys provider bindings var).Pairwise (· ≤ ·) := by
  unfold viewKeys
  split_ifs with second
  · exact run_sorted sorted
  · rw [not_or, Bool.not_eq_true] at second
    exact List.pairwise_map.2 (sorted second.1).key1

theorem intersectCandidatesWithView_eq {candidates view : List GraphId}
    (sorted : candidates.Pairwise (· < ·)) (viewSorted : view.Pairwise (· ≤ ·)) :
    intersectCandidatesWithView candidates view = candidates.filter (· ∈ view) := by
  have distinctSorted := distinct_sorted viewSorted
  have same : candidates.filter (· ∈ distinct view) = candidates.filter (· ∈ view) :=
    List.filter_congr fun key _ => by simp only [mem_distinct]
  unfold intersectCandidatesWithView
  split_ifs with empty
  · rcases empty with empty | empty
    · simp [empty]
    · simp [empty]
  · exact gallopingIntersect_eq viewSorted sorted fun _ _ => Nat.zero_le _
  · rw [gallopingIntersect_other sorted distinctSorted, same]
  · rw [mergeIntersect_eq sorted distinctSorted, same]

end Views

section Levels

variable {bindings : List GraphId} {var : Nat}

/-- The candidates without the caches -/
def levelKeys (bindings : List GraphId) (var : Nat) : List GenericProvider →
    Option (List GraphId) → List GraphId
  | [], candidates => candidates.getD []
  | provider :: rest, candidates =>
      if !provider.bindsAt var then levelKeys bindings var rest candidates
      else
        match candidates with
        | none => levelKeys bindings var rest (some (distinct (viewKeys provider bindings var)))
        | some found =>
            levelKeys bindings var rest
              (some (found.filter (· ∈ viewKeys provider bindings var)))

theorem levelKeys_nil (providers : List GenericProvider) :
    levelKeys bindings var providers (some []) = [] := by
  induction providers with
  | nil => rfl
  | cons provider rest ih =>
      rw [levelKeys]
      split_ifs <;> exact ih

theorem mem_levelKeys_some {providers : List GenericProvider} {found : List GraphId}
    {key : GraphId} : key ∈ levelKeys bindings var providers (some found) ↔ key ∈ found ∧
      ∀ provider ∈ providers, provider.bindsAt var = true →
        key ∈ viewKeys provider bindings var := by
  induction providers generalizing found with
  | nil => simp [levelKeys]
  | cons provider rest ih =>
      rw [levelKeys]
      split_ifs with skipped
      · rw [ih]
        rw [Bool.not_eq_true'] at skipped
        simp [skipped]
      · rw [Bool.not_eq_true', Bool.not_eq_false] at skipped
        rw [ih]
        simp [skipped, and_assoc]

theorem mem_levelKeys_none {providers : List GenericProvider} {key : GraphId} :
    key ∈ levelKeys bindings var providers none ↔
      (∃ provider ∈ providers, provider.bindsAt var = true) ∧
        ∀ provider ∈ providers, provider.bindsAt var = true →
          key ∈ viewKeys provider bindings var := by
  induction providers with
  | nil => simp [levelKeys]
  | cons provider rest ih =>
      rw [levelKeys]
      split_ifs with skipped
      · rw [ih]
        rw [Bool.not_eq_true'] at skipped
        simp [skipped]
      · rw [Bool.not_eq_true', Bool.not_eq_false] at skipped
        rw [mem_levelKeys_some, mem_distinct]
        simp [skipped]

theorem levelKeys_sorted {providers : List GenericProvider}
    (sorted : ∀ provider ∈ providers, provider.isLazyPhysical = false → RowsSorted provider.rows)
    {candidates : Option (List GraphId)}
    (candidatesSorted : ∀ found, candidates = some found → found.Pairwise (· < ·)) :
    (levelKeys bindings var providers candidates).Pairwise (· < ·) := by
  induction providers generalizing candidates with
  | nil =>
      cases candidates with
      | none => exact .nil
      | some found => exact candidatesSorted found rfl
  | cons provider rest ih =>
      have sortedRest := fun other isOther => sorted other (List.mem_cons_of_mem provider isOther)
      rw [levelKeys.eq_def]
      dsimp only
      split_ifs
      · exact ih sortedRest candidatesSorted
      · cases candidates with
        | none =>
            refine ih sortedRest fun found same => ?_
            obtain rfl := Option.some.inj same
            exact distinct_sorted (viewKeys_sorted (sorted provider List.mem_cons_self))
        | some before =>
            refine ih sortedRest fun found same => ?_
            obtain rfl := Option.some.inj same
            exact (candidatesSorted before rfl).filter _

/-- The caches of all providers are right. -/
def Caches.Right (providers : List GenericProvider) (caches : Caches) : Prop :=
  ∀ index provider, providers[index]? = some provider → (caches index).Right provider

theorem Caches.right_empty (providers : List GenericProvider) :
    Caches.empty.Right providers := fun _ _ _ =>
  ⟨RangeCaches.right_empty, fun _ impossible => by simp [Caches.empty] at impossible⟩

theorem Caches.Right.update {providers : List GenericProvider} {caches : Caches}
    (right : caches.Right providers) {index : Nat} {provider : GenericProvider}
    (found : providers[index]? = some provider) {next : ProviderCaches}
    (nextRight : next.Right provider) : Caches.Right providers (Function.update caches index next) :=
  fun place other isOther => by
    by_cases same : place = index
    · subst same
      obtain rfl := Option.some.inj (found.symm.trans isOther)
      rwa [Function.update_self]
    · rw [Function.update_of_ne same]
      exact right place other isOther

/-- What the search relies on: sorted rows, and edges behind the indexes -/
structure Searchable (providers : List GenericProvider) : Prop where
  sorted : ∀ provider ∈ providers, provider.isLazyPhysical = false → RowsSorted provider.rows
  physical : ∀ provider ∈ providers, provider.isLazyPhysical = true → provider.kind = .edge

theorem levelLoop_spec {providers : List GenericProvider} (searchable : Searchable providers)
    (part : List (GenericProvider × Nat))
    (isPart : ∀ entry ∈ part, providers[entry.2]? = some entry.1)
    {candidates : Option (List GraphId)}
    (candidatesSorted : ∀ found, candidates = some found → found.Pairwise (· < ·))
    {caches : Caches} (right : caches.Right providers) :
    (levelLoop bindings var part candidates caches).1 =
        levelKeys bindings var (part.map (·.1)) candidates ∧
      (levelLoop bindings var part candidates caches).2.Right providers := by
  induction part generalizing candidates caches with
  | nil => exact ⟨rfl, right⟩
  | cons entry rest ih =>
      obtain ⟨provider, index⟩ := entry
      have isRest := fun other isOther => isPart other (List.mem_cons_of_mem _ isOther)
      have found := isPart (provider, index) List.mem_cons_self
      have inside := List.mem_of_getElem? found
      rw [levelLoop, List.map_cons, levelKeys.eq_def]
      dsimp only
      split_ifs with skipped empty
      · exact ih isRest candidatesSorted right
      all_goals
        rw [Bool.not_eq_true', Bool.not_eq_false] at skipped
        obtain ⟨same, viewRight⟩ := @buildDomainView_spec provider (caches index) bindings var
          (searchable.sorted provider inside) (searchable.physical provider inside)
          (right index provider found) skipped
        have updated := right.update found viewRight
        have viewSorted := @viewKeys_sorted provider bindings var
          (searchable.sorted provider inside)
        rw [same] at empty
      · refine ⟨?_, updated⟩
        cases candidates with
        | none => rw [empty]; exact (levelKeys_nil _).symm
        | some before =>
            dsimp only
            rw [empty]
            simp only [List.not_mem_nil, decide_false, List.filter_false]
            exact (levelKeys_nil _).symm
      · rw [same]
        cases candidates with
        | none =>
            refine ih isRest (fun found same => ?_) updated
            obtain rfl := Option.some.inj same
            exact distinct_sorted viewSorted
        | some before =>
            have beforeSorted := candidatesSorted before rfl
            dsimp only
            rw [intersectCandidatesWithView_eq beforeSorted viewSorted]
            split_ifs with nothing
            · refine ⟨?_, updated⟩
              rw [nothing]
              exact (levelKeys_nil _).symm
            · refine ih isRest (fun found same => ?_) updated
              obtain rfl := Option.some.inj same
              exact beforeSorted.filter _

end Levels

section Bags

variable {provider : GenericProvider} {bindings : List GraphId}

theorem pairRows_eq {run : List GenericRow} {key2 : GraphId}
    (sorted : (run.map (·.key2)).Pairwise (· ≤ ·)) :
    pairRows run key2 = run.filter (·.key2 = key2) := by
  unfold pairRows
  dsimp only
  rw [bisect_eq (isBound_lowerBound sorted) (Nat.zero_le _) lowerBound_le_length (Nat.sub_le _ _),
    bisect_eq (isBound_upperBound sorted) lowerBound_le_upperBound upperBound_le_length
      (Nat.sub_le _ _)]
  exact slice_bounds sorted

/-- The rows of a provider for a full binding -/
def bagRows (bindings : List GraphId) (provider : GenericProvider) : List GenericRow :=
  match provider.kind with
  | .vertex => provider.rows.filter (·.key1 = boundKey bindings provider.var1)
  | .edge => (provider.run (boundKey bindings provider.var1)).filter
      (·.key2 = boundKey bindings provider.var2)

theorem providerBag_spec (sorted : provider.isLazyPhysical = false → RowsSorted provider.rows)
    (isEdge : provider.isLazyPhysical = true → provider.kind = .edge) {caches : ProviderCaches}
    (right : caches.Right provider) :
    (providerBag provider caches bindings).1 = bagRows bindings provider ∧
      (providerBag provider caches bindings).2.Right provider := by
  unfold providerBag bagRows
  cases kind : provider.kind with
  | vertex =>
      have notLazy : provider.isLazyPhysical = false := by
        by_contra isLazy
        have := isEdge (by simpa using isLazy)
        simp [kind] at this
      exact key1Rows_spec (sorted notLazy) right
  | edge =>
      have runSorted := @run_sorted provider (boundKey bindings provider.var1) sorted
      dsimp only
      by_cases isLazy : provider.isLazyPhysical = true
      · obtain ⟨same, loaded⟩ := @loadPhysicalPrefix_spec provider caches
          (boundKey bindings provider.var1) right
        have isRun : provider.run (boundKey bindings provider.var1) =
            provider.physicalPrefix (boundKey bindings provider.var1) := if_pos isLazy
        rw [if_pos isLazy, same, ← isRun, pairRows_eq runSorted]
        exact ⟨rfl, loaded⟩
      · obtain ⟨same, ranged⟩ := @key1Rows_spec provider caches
          (boundKey bindings provider.var1) (sorted (by simpa using isLazy)) right
        have isRun : provider.run (boundKey bindings provider.var1) =
            provider.rows.filter (·.key1 = boundKey bindings provider.var1) := if_neg isLazy
        rw [if_neg isLazy, same, ← isRun, pairRows_eq runSorted]
        exact ⟨rfl, ranged⟩

/-- The bags of all providers, where none is empty -/
def allBags (bindings : List GraphId) (providers : List GenericProvider) :
    Option (List (List GenericRow)) :=
  if ∃ provider ∈ providers, bagRows bindings provider = [] then none
  else some (providers.map (bagRows bindings))

theorem prepareBags_spec {providers : List GenericProvider} (searchable : Searchable providers)
    (part : List (GenericProvider × Nat))
    (isPart : ∀ entry ∈ part, providers[entry.2]? = some entry.1) {caches : Caches}
    (right : caches.Right providers) :
    (prepareBags bindings part caches).1 = allBags bindings (part.map (·.1)) ∧
      (prepareBags bindings part caches).2.Right providers := by
  induction part generalizing caches with
  | nil => exact ⟨by simp [prepareBags, allBags], right⟩
  | cons entry rest ih =>
      obtain ⟨provider, index⟩ := entry
      have isRest := fun other isOther => isPart other (List.mem_cons_of_mem _ isOther)
      have found := isPart (provider, index) List.mem_cons_self
      have inside := List.mem_of_getElem? found
      obtain ⟨same, bagRight⟩ := @providerBag_spec provider bindings
        (searchable.sorted provider inside) (searchable.physical provider inside) (caches index)
        (right index provider found)
      have updated := right.update found bagRight
      rw [prepareBags]
      dsimp only
      rw [same]
      split_ifs with empty
      · exact ⟨by simp [allBags, empty], updated⟩
      · obtain ⟨restSame, restRight⟩ := ih isRest updated
        refine ⟨?_, restRight⟩
        rw [restSame]
        unfold allBags
        simp only [List.map_cons, List.exists_mem_cons_iff, empty, false_or]
        split_ifs <;> rfl

end Bags

end Age.Executor.GenericJoin
