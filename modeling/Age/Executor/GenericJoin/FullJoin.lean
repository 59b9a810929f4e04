import Age.Lib.Choices
import Age.Executor.GenericJoin.Views

/-!
# The generic join gives out the full join

The full join has one row of each provider, so that the rows agree on every variable and no two
rows of a uniqueness group are one edge.  The search gives out each of these once, in an order
of its own.
-/

namespace Age.Executor.GenericJoin

open SortedKeys Backtrack

section Unique

variable {groups : UniquenessGroups}

/-- No two providers that share a group have rows of one edge. -/
def UniqueEdges (groups : UniquenessGroups) (rowAt : Nat → Option GenericRow) : Prop :=
  ∀ first second row1 row2 edgeId, first ≠ second → rowAt first = some row1 →
    rowAt second = some row2 → row1.edgeId = some edgeId → row2.edgeId = some edgeId →
      groups.overlap first second = false

theorem UniquenessGroups.overlap_comm (first second : Nat) :
    groups.overlap first second = groups.overlap second first := by
  rw [Bool.eq_iff_iff]
  unfold UniquenessGroups.overlap
  simp only [List.any_eq_true, List.contains_iff_mem]
  constructor
  · rintro ⟨group, inFirst, inSecond⟩
    exact ⟨group, inSecond, inFirst⟩
  · rintro ⟨group, inSecond, inFirst⟩
    exact ⟨group, inFirst, inSecond⟩

theorem lookup_zip {α : Type} {order : List Nat} (distinct : order.Nodup) {choice : List α}
    (sameLength : choice.length = order.length) {place number : Nat} {row : α}
    (atOrder : order[place]? = some number) (atChoice : choice[place]? = some row) :
    (order.zip choice).lookup number = some row := by
  induction order generalizing choice place with
  | nil => simp at atOrder
  | cons first order ih =>
      obtain ⟨fresh, distinctOrder⟩ := List.nodup_cons.1 distinct
      cases choice with
      | nil => simp at atChoice
      | cons entry choice =>
          rw [List.zip_cons_cons, List.lookup_cons]
          cases place with
          | zero =>
              obtain rfl : first = number := by simpa using atOrder
              obtain rfl : entry = row := by simpa using atChoice
              rw [beq_self_eq_true]
          | succ place =>
              rw [List.getElem?_cons_succ] at atOrder atChoice
              have different : number ≠ first := fun same =>
                fresh (same ▸ List.mem_of_getElem? atOrder)
              rw [beq_false_of_ne different]
              exact ih distinctOrder (by simpa using sameLength) atOrder atChoice

theorem exists_of_lookup_zip {order : List Nat} {choice : List GenericRow} {number : Nat}
    {row : GenericRow} (found : (order.zip choice).lookup number = some row) :
    ∃ place : Nat, order[place]? = some number ∧ choice[place]? = some row := by
  induction order generalizing choice with
  | nil => simp at found
  | cons first order ih =>
      cases choice with
      | nil => simp at found
      | cons entry choice =>
          rw [List.zip_cons_cons, List.lookup_cons] at found
          by_cases same : number = first
          · subst same
            rw [beq_self_eq_true] at found
            exact ⟨0, rfl, found⟩
          · rw [beq_false_of_ne same] at found
            obtain ⟨place, atOrder, atChoice⟩ := ih found
            exact ⟨place + 1, atOrder, atChoice⟩

theorem conflicts_iff {order : List Nat} {chosen : List GenericRow} {row : GenericRow}
    {number : Nat} (atOrder : order[chosen.length]? = some number) :
    conflicts groups order chosen row = true ↔
      ∃ (place other : Nat) (previous : GenericRow) (edgeId : GraphId),
        order[place]? = some other ∧ chosen[place]? = some previous ∧
          row.edgeId = some edgeId ∧
          previous.edgeId = some edgeId ∧ groups.overlap number other = true := by
  unfold conflicts
  rw [atOrder]
  cases isEdge : row.edgeId with
  | none => simp
  | some edgeId =>
      dsimp only
      rw [List.any_eq_true]
      constructor
      · rintro ⟨⟨other, previous⟩, inside, isConflict⟩
        rw [Bool.and_eq_true, decide_eq_true_eq] at isConflict
        obtain ⟨place, found⟩ := List.mem_iff_getElem?.1 inside
        rw [List.getElem?_zip_eq_some] at found
        exact ⟨place, other, previous, edgeId, found.1, found.2, rfl, isConflict.1, isConflict.2⟩
      · rintro ⟨place, other, previous, sameId, otherAt, previousAt, same, isPrevious, overlaps⟩
        obtain rfl := Option.some.inj same
        refine ⟨(other, previous), List.mem_iff_getElem?.2 ⟨place, ?_⟩, ?_⟩
        · exact List.getElem?_zip_eq_some.2 ⟨otherAt, previousAt⟩
        · rw [Bool.and_eq_true, decide_eq_true_eq]
          exact ⟨isPrevious, overlaps⟩

/-- The enumeration rejects a row only where it meets a row before, and that is enough. -/
theorem allowed_iff_uniqueEdges {order : List Nat} (distinct : order.Nodup)
    {choice : List GenericRow} (sameLength : choice.length = order.length) :
    allowed (fun chosen row => !conflicts groups order chosen row) [] choice = true ↔
      UniqueEdges groups fun place => (order.zip choice).lookup place := by
  rw [allowed_iff]
  simp only [List.nil_append, Bool.not_eq_true', ← Bool.not_eq_true]
  constructor
  · -- Of two rows that clash, the later one is rejected.
    intro all first second row1 row2 edgeId different found1 found2 isEdge1 isEdge2
    obtain ⟨place1, atOrder1, atChoice1⟩ := exists_of_lookup_zip found1
    obtain ⟨place2, atOrder2, atChoice2⟩ := exists_of_lookup_zip found2
    have lookupLength {place : Nat} {row : GenericRow} (found : choice[place]? = some row) :
        (choice.take place).length = place := by
      rw [List.length_take, min_eq_left (List.getElem?_eq_some_iff.1 found).1.le]
    by_contra overlaps
    rw [Bool.not_eq_false] at overlaps
    rcases Nat.lt_trichotomy place1 place2 with less | same | greater
    · refine all place2 row2 atChoice2 ((conflicts_iff (by
        rw [lookupLength atChoice2]; exact atOrder2)).2 ⟨place1, first, row1, edgeId, atOrder1, ?_,
          isEdge2, isEdge1, UniquenessGroups.overlap_comm first second ▸ overlaps⟩)
      rw [List.getElem?_take_of_lt less, atChoice1]
    · subst same
      exact different (Option.some.inj (atOrder1.symm.trans atOrder2))
    · refine all place1 row1 atChoice1 ((conflicts_iff (by
        rw [lookupLength atChoice1]; exact atOrder1)).2 ⟨place2, second, row2, edgeId, atOrder2, ?_,
          isEdge1, isEdge2, overlaps⟩)
      rw [List.getElem?_take_of_lt greater, atChoice2]
  · intro unique place row found isConflict
    have inRange := (List.getElem?_eq_some_iff.1 found).1
    have takeLength : (choice.take place).length = place := by
      rw [List.length_take, min_eq_left inRange.le]
    have atOrder : order[place]? = some order[place] :=
      List.getElem?_eq_getElem (sameLength ▸ inRange)
    obtain ⟨before, other, previous, edgeId, otherAt, previousAt, isEdge, isPrevious, overlaps⟩ :=
      (conflicts_iff (by rw [takeLength]; exact atOrder)).1 isConflict
    have less : before < place := by
      by_contra notLess
      rw [List.getElem?_eq_none (by rw [takeLength]; omega)] at previousAt
      exact Option.some_ne_none _ previousAt.symm
    rw [List.getElem?_take_of_lt less] at previousAt
    have different : order[place] ≠ other := fun same => by
      have samePlace := (List.getElem?_inj (sameLength ▸ inRange) distinct).1
        (atOrder.trans (same ▸ otherAt.symm))
      omega
    have := unique _ other row previous edgeId different
      (lookup_zip distinct sameLength atOrder found) (lookup_zip distinct sameLength otherAt previousAt)
      isEdge isPrevious
    rw [this] at overlaps
    exact Bool.false_ne_true overlaps

end Unique

section Combine

variable {groups : UniquenessGroups}

theorem lookup_zip_range (choice : List GenericRow) (place : Nat) :
    ((List.range choice.length).zip choice).lookup place = choice[place]? := by
  refine Option.ext fun row => ⟨fun found => ?_, fun found => ?_⟩
  · obtain ⟨index, inRange, atIndex⟩ := exists_of_lookup_zip found
    obtain ⟨_, rfl⟩ := by simpa [List.getElem?_eq_some_iff] using inRange
    exact atIndex
  · exact lookup_zip List.nodup_range List.length_range.symm
      (List.getElem?_range (List.getElem?_eq_some_iff.1 found).1) found

theorem filterMap_range (choice : List GenericRow) :
    ((List.range choice.length).filterMap fun place => choice[place]?) = choice := by
  induction choice with
  | nil => rfl
  | cons row rest ih =>
      rw [List.length_cons, List.range_succ_eq_map, List.filterMap_cons, List.filterMap_map]
      exact congrArg (row :: ·) ih

theorem enumerationOrder_perm (bags : List (List GenericRow)) :
    (enumerationOrder bags).Perm (List.range bags.length) :=
  List.mergeSort_perm _ _

/-- The choices of the enumeration -/
def combinationRows (groups : UniquenessGroups) (bags : List (List GenericRow))
    (chosen : List GenericRow) : List GenericRow :=
  (bagAt bags (enumerationOrder bags) chosen.length).filter fun row =>
    !conflicts groups (enumerationOrder bags) chosen row

theorem lawful_combinationSearch (bags : List (List GenericRow)) :
    Lawful (combinationSearch groups bags) (combinationRows groups bags)
      (fun chosen => some (arrange (enumerationOrder bags) chosen)) fun _ => True where
  openLevel _ _ _ := ⟨rfl, trivial⟩
  visit _ _ _ := ⟨rfl, trivial⟩

open Classical in
/-- The enumeration gives out each section of the bags with unique edges once. -/
theorem leaves_combinations_perm (groups : UniquenessGroups) (bags : List (List GenericRow)) :
    (leaves (combinationRows groups bags)
      (fun chosen => some (arrange (enumerationOrder bags) chosen)) bags.length []).Perm
      (bags.sections.filter fun rows => UniqueEdges groups fun place => rows[place]?) := by
  have isPerm := enumerationOrder_perm bags
  have distinct : (enumerationOrder bags).Nodup := isPerm.nodup_iff.2 List.nodup_range
  have orderLength : (enumerationOrder bags).length = bags.length := by
    rw [isPerm.length_eq, List.length_range]
  have sections := @leaves_sections GenericRow (bagAt bags (enumerationOrder bags))
    (fun chosen row => !conflicts groups (enumerationOrder bags) chosen row) bags.length []
  have isNumbered : (List.range' ([] : List GenericRow).length bags.length).map
      (bagAt bags (enumerationOrder bags)) =
        (enumerationOrder bags).map fun number => bags[number]?.getD [] := by
    refine List.ext_getElem (by simp [orderLength]) fun index inFirst inSecond => ?_
    have inOrder : index < (enumerationOrder bags).length := by simpa using inSecond
    simp [bagAt, List.getElem?_eq_getElem inOrder]
  have isBags : (List.range bags.length).map (fun number => bags[number]?.getD []) = bags := by
    refine List.ext_getElem (by simp) fun index inFirst inSecond => ?_
    simp [List.getElem?_eq_getElem inSecond]
  rw [isNumbered] at sections
  simp only [List.nil_append, List.map_id'] at sections
  rw [leaves_filterMap]
  refine (sections.filterMap _).trans ?_
  -- A section of the bags in this order is a row for each number of a provider.
  have numbered := ((sections_lookup_perm isPerm distinct fun number =>
    bags[number]?.getD []).filter fun rowAt => UniqueEdges groups rowAt).map fun rowAt =>
      (List.range bags.length).filterMap rowAt
  rw [isBags, List.filter_map, List.filter_map, List.map_map, List.map_map] at numbered
  refine (List.Perm.of_eq ?_).trans (numbered.trans (List.Perm.of_eq ?_))
  · rw [show (fun chosen => some (arrange (enumerationOrder bags) chosen)) =
      some ∘ arrange (enumerationOrder bags) from rfl, List.filterMap_eq_map]
    have sameFilter : ((enumerationOrder bags).map fun number =>
        bags[number]?.getD []).sections.filter (allowed (fun chosen row =>
          !conflicts groups (enumerationOrder bags) chosen row) []) =
        ((enumerationOrder bags).map fun number => bags[number]?.getD []).sections.filter
          ((fun rowAt => decide (UniqueEdges groups rowAt)) ∘ fun choice place =>
            ((enumerationOrder bags).zip choice).lookup place) := by
      refine List.filter_congr fun choice isSection => ?_
      rw [Bool.eq_iff_iff, allowed_iff_uniqueEdges distinct (by
        rw [List.mem_sections_length isSection, List.length_map])]
      simp
    rw [sameFilter]
    refine List.map_congr_left fun choice _ => ?_
    rw [arrange, orderLength]
    rfl
  · have sameFilter : bags.sections.filter ((fun rowAt => decide (UniqueEdges groups rowAt)) ∘
        fun choice place => ((List.range bags.length).zip choice).lookup place) =
        bags.sections.filter fun rows => UniqueEdges groups fun place => rows[place]? := by
      refine List.filter_congr fun choice isSection => ?_
      rw [Function.comp_apply, ← List.mem_sections_length isSection]
      simp only [lookup_zip_range]
    rw [sameFilter]
    conv_rhs => rw [← List.map_id (bags.sections.filter _)]
    refine List.map_congr_left fun choice isSection => ?_
    rw [Function.comp_apply, ← List.mem_sections_length (List.mem_filter.1 isSection).1]
    simp only [lookup_zip_range]
    exact filterMap_range choice

end Combine

section Bindings

variable {variableCount : Nat} {providers : List GenericProvider} {groups : UniquenessGroups}

/-- Some bindings of the variables bind all rows. -/
def Agree (providers : List GenericProvider) (rows : List GenericRow) : Prop :=
  ∃ bindings, List.Forall₂ (fun provider row => provider.Binds bindings row) providers rows

open Classical in
/-- One row of each provider, so that the rows agree on every variable and have unique edges -/
noncomputable def fullJoin (groups : UniquenessGroups) (providers : List GenericProvider) :
    List (List GenericRow) :=
  (providers.map (·.rows)).sections.filter fun rows =>
    Agree providers rows ∧ UniqueEdges groups fun place => rows[place]?

theorem combination_iff {rows : List GenericRow} : Combination providers rows ↔
    rows ∈ (providers.map (·.rows)).sections ∧ Agree providers rows := by
  rw [List.mem_sections, List.forall₂_map_right_iff]
  constructor
  · rintro ⟨bindings, agree⟩
    exact ⟨(agree.imp fun _ _ both => both.1).flip, bindings, agree.imp fun _ _ both => both.2⟩
  · rintro ⟨inside, bindings, agree⟩
    refine ⟨bindings, List.forall₂_iff_get.2 ⟨agree.length_eq, fun index inRange inRows => ?_⟩⟩
    exact ⟨(List.forall₂_iff_get.1 inside).2 index inRows inRange,
      (List.forall₂_iff_get.1 agree).2 index inRange inRows⟩

open Classical in
theorem mem_fullJoin {rows : List GenericRow} : rows ∈ fullJoin groups providers ↔
    Combination providers rows ∧ UniqueEdges groups fun place => rows[place]? := by
  unfold fullJoin
  rw [List.mem_filter, decide_eq_true_iff, combination_iff, and_assoc]

theorem fullJoin_eq_nil (nothing : ∀ bindings, ¬Joins providers bindings) :
    fullJoin groups providers = [] := by
  refine List.eq_nil_iff_forall_not_mem.2 fun rows inside => ?_
  obtain ⟨bindings, joins, _⟩ := (mem_fullJoin.1 inside).1.joins
  exact nothing bindings joins

/-- The candidates of the variable after those that are bound -/
def bindingKeys (providers : List GenericProvider) (bindings : List GraphId) : List GraphId :=
  levelKeys bindings bindings.length providers none

theorem lawful_bindingSearch (searchable : Searchable providers) :
    Lawful (bindingSearch variableCount providers) (bindingKeys providers)
      (fun bindings => allBags bindings providers) (Caches.Right providers) := by
  have isPart : ∀ entry ∈ providers.zipIdx, providers[entry.2]? = some entry.1 :=
    fun entry inside => List.mem_zipIdx_iff_getElem?.1 inside
  constructor
  · intro caches right bindings
    have loop := @levelLoop_spec bindings bindings.length providers searchable providers.zipIdx
      isPart none (fun _ impossible => nomatch impossible) caches right
    rwa [List.zipIdx_map_fst] at loop
  · intro caches right bindings
    have bags := @prepareBags_spec bindings providers searchable providers.zipIdx isPart caches right
    rwa [List.zipIdx_map_fst] at bags

/-- The keys of one row follow from the bindings. -/
def GenericProvider.bindsRow (provider : GenericProvider) (bindings : List GraphId)
    (row : GenericRow) : Bool :=
  row.key1 = boundKey bindings provider.var1 &&
    (provider.kind ≠ .edge || row.key2 = boundKey bindings provider.var2)

theorem bagRows_perm (bindings : List GraphId) (provider : GenericProvider) :
    (bagRows bindings provider).Perm (provider.rows.filter
      (provider.bindsRow bindings)) := by
  unfold bagRows
  cases isKind : provider.kind with
  | vertex =>
      refine .of_eq (List.filter_congr fun row _ => ?_)
      simp [GenericProvider.bindsRow, isKind]
  | edge =>
      refine (run_perm.filter _).trans (.of_eq ?_)
      rw [List.filter_filter]
      refine List.filter_congr fun row _ => ?_
      simp [GenericProvider.bindsRow, isKind, Bool.and_comm]

theorem bindsRow_iff {provider : GenericProvider} {bindings : List GraphId} {row : GenericRow} :
    provider.bindsRow bindings row = true ↔ provider.Binds (boundKey bindings) row := by
  unfold GenericProvider.bindsRow GenericProvider.Binds
  by_cases isEdge : provider.kind = .edge <;> simp [isEdge]

/-- The bindings bind all rows. -/
def bindRows (providers : List GenericProvider) (bindings : List GraphId)
    (rows : List GenericRow) : Bool :=
  (providers.zip rows).all fun entry => entry.1.bindsRow bindings entry.2

theorem bindRows_iff {bindings : List GraphId} {rows : List GenericRow}
    (sameLength : providers.length = rows.length) : bindRows providers bindings rows = true ↔
      List.Forall₂ (fun provider row => provider.Binds (boundKey bindings) row) providers rows := by
  unfold bindRows
  rw [List.all_eq_true, List.forall₂_iff_zip]
  simp [sameLength, bindsRow_iff]

/-- The bindings of a row that takes part are candidates on every level. -/
theorem mem_bindingKeys (described : WellFormed variableCount providers)
    {bindings : Nat → GraphId} (joins : Joins providers bindings) {var : Nat}
    (covered : ∃ provider ∈ providers,
      provider.isReductionMaterialized = true ∧ provider.hasVariable var = true)
    {bound : List GraphId} (length : bound.length = var)
    (isBound : ∀ place < var, boundKey bound place = bindings place) :
    bindings var ∈ bindingKeys providers bound := by
  unfold bindingKeys
  rw [length, mem_levelKeys_none]
  constructor
  · obtain ⟨provider, inside, materialized, has⟩ := covered
    refine ⟨provider, inside, ?_⟩
    unfold GenericProvider.isReductionMaterialized at materialized
    rw [Bool.not_eq_true'] at materialized
    rw [GenericProvider.bindsAt, has, materialized]
    rfl
  · intro provider inside binds
    obtain ⟨row, isRow, bindsRow⟩ := joins provider inside
    rw [GenericProvider.bindsAt, Bool.and_eq_true, Bool.not_eq_true', Bool.and_eq_false_iff,
      decide_eq_false_iff_not] at binds
    obtain ⟨has, notFirst⟩ := binds
    rw [GenericProvider.hasVariable, Bool.or_eq_true, Bool.and_eq_true, decide_eq_true_eq,
      decide_eq_true_eq, decide_eq_true_eq] at has
    unfold viewKeys
    split_ifs with second
    · have isSecond : provider.kind = .edge ∧ provider.var2 = var := by
        rcases second with isLazy | isSecond
        · exact has.resolve_left (notFirst.resolve_left (by simp [isLazy]))
        · exact isSecond
      have before := (described.var2 provider inside isSecond.1).1
      rw [isSecond.2] at before
      rw [isBound _ before, ← bindsRow.1, ← isSecond.2, ← bindsRow.2 isSecond.1]
      exact List.mem_map_of_mem (mem_run.2 ⟨isRow, rfl⟩)
    · have isFirst : provider.var1 = var := has.resolve_right fun isSecond => second (.inr isSecond)
      rw [← isFirst, ← bindsRow.1]
      exact List.mem_map_of_mem isRow

/-- The full bindings that the search reaches, as lists of keys -/
def bindingVectors (variableCount : Nat) (providers : List GenericProvider) :
    List (List GraphId) :=
  leaves (bindingKeys providers) some variableCount []

theorem nodup_bindingVectors (searchable : Searchable providers) :
    (bindingVectors variableCount providers).Nodup :=
  nodup_leaves (fun bound => (@levelKeys_sorted bound bound.length providers searchable.sorted none
    fun _ impossible => nomatch impossible).imp ne_of_lt) _ _

theorem length_bindingVectors {vector : List GraphId}
    (inside : vector ∈ bindingVectors variableCount providers) : vector.length = variableCount := by
  obtain ⟨rest, rfl, length, _⟩ := mem_leaves.1 inside
  exact length

/-- A binding that joins is reached. -/
theorem mem_bindingVectors (wellFormed : WellFormed variableCount providers)
    (covered : Covered variableCount providers) {bindings : Nat → GraphId}
    (joins : Joins providers bindings) :
    (List.range variableCount).map bindings ∈ bindingVectors variableCount providers := by
  refine mem_leaves.2 ⟨_, rfl, by simp, follows_iff.2 fun place choice found => ?_⟩
  have inRange : place < variableCount := by
    simpa using (List.getElem?_eq_some_iff.1 found).1
  obtain rfl : bindings place = choice := by simpa [inRange] using found
  refine mem_bindingKeys wellFormed joins (covered place inRange) ?_ fun before isBefore => ?_
  · simp [inRange.le]
  · simp [boundKey, List.getElem?_take_of_lt isBefore, List.getElem?_range (isBefore.trans inRange)]

open Classical in
/-- The search gives out the full join of providers that are all covered. -/
theorem flatMap_bags_perm (wellFormed : WellFormed variableCount providers)
    (searchable : Searchable providers) (covered : Covered variableCount providers)
    (groups : UniquenessGroups) :
    ((bindingVectors variableCount providers).flatMap fun bindings =>
      (providers.map (bagRows bindings)).sections.filter fun rows =>
        UniqueEdges groups fun place => rows[place]?).Perm (fullJoin groups providers) := by
  have bound (bindings : List GraphId) : ((providers.map (bagRows bindings)).sections.filter
      fun rows => decide (UniqueEdges groups fun place => rows[place]?)).Perm
        (((providers.map (·.rows)).sections.filter fun rows =>
          decide (UniqueEdges groups fun place => rows[place]?)).filter
            (bindRows providers bindings)) := by
    have bags : List.Forall₂ List.Perm (providers.map (bagRows bindings))
        (providers.map fun provider => provider.rows.filter (provider.bindsRow bindings)) := by
      rw [List.forall₂_map_left_iff, List.forall₂_map_right_iff, List.forall₂_same]
      exact fun provider _ => bagRows_perm bindings provider
    refine ((sections_perm bags).filter _).trans (.of_eq ?_)
    rw [sections_filter providers (·.rows) fun provider => provider.bindsRow bindings,
      List.filter_filter, List.filter_filter]
    exact List.filter_congr fun rows _ => Bool.and_comm _ _
  refine (List.Perm.flatMap_left _ fun bindings _ => bound bindings).trans ?_
  have lengths : ∀ rows ∈ (providers.map (·.rows)).sections,
      providers.length = rows.length := fun rows isSection => by
    rw [List.mem_sections_length isSection, List.length_map]
  refine (flatMap_filter_perm _ (nodup_bindingVectors searchable) _ _ ?_).trans (.of_eq ?_)
  · -- Two bindings of the same rows have the same key for each variable.
    intro rows isRows first isFirst second isSecond bindsFirst bindsSecond
    have sameLength := lengths rows (List.mem_filter.1 isRows).1
    rw [bindRows_iff sameLength] at bindsFirst bindsSecond
    have firstLength := length_bindingVectors isFirst
    have secondLength := length_bindingVectors isSecond
    refine List.ext_getElem (firstLength.trans secondLength.symm) fun var inFirst inSecond => ?_
    obtain ⟨provider, inside, _, has⟩ := covered var (firstLength ▸ inFirst)
    obtain ⟨index, found⟩ := List.mem_iff_getElem.1 inside
    obtain ⟨inRange, rfl⟩ := found
    have rowFirst := (List.forall₂_iff_get.1 bindsFirst).2 index inRange (sameLength ▸ inRange)
    have rowSecond := (List.forall₂_iff_get.1 bindsSecond).2 index inRange (sameLength ▸ inRange)
    have sameKey : boundKey first var = boundKey second var := by
      obtain ⟨key, _, keyBinds⟩ := rowKeyForVariable_binds has
        (rows.get ⟨index, sameLength ▸ inRange⟩)
      exact (keyBinds _ rowFirst).symm.trans (keyBinds _ rowSecond)
    simpa [boundKey, inFirst, inSecond] using sameKey
  · rw [fullJoin, List.filter_filter]
    refine List.filter_congr fun rows isSection => ?_
    have sameLength := lengths rows isSection
    rw [Bool.eq_iff_iff, Bool.and_eq_true, decide_eq_true_eq, decide_eq_true_eq,
      List.any_eq_true]
    refine and_congr_left fun _ => ⟨?_, ?_⟩
    · rintro ⟨vector, _, binds⟩
      exact ⟨_, (bindRows_iff sameLength).1 binds⟩
    · intro agree
      obtain ⟨bindings, joins, rowsOf⟩ := (combination_iff.2 ⟨isSection, agree⟩).joins
      refine ⟨_, mem_bindingVectors wellFormed covered joins, (bindRows_iff sameLength).2 ?_⟩
      have known {var : Nat} (inRange : var < variableCount) :
          boundKey ((List.range variableCount).map bindings) var = bindings var := by
        simp [boundKey, inRange]
      refine List.forall₂_iff_get.2 ⟨sameLength, fun index inRange inRows => ?_⟩
      obtain ⟨provider, found, _, binds⟩ := rowsOf index _ (List.getElem?_eq_getElem inRows)
      obtain rfl := Option.some.inj ((List.getElem?_eq_getElem inRange).symm.trans found)
      have inside : providers.get ⟨index, inRange⟩ ∈ providers := List.get_mem _ _
      refine ⟨binds.1.trans (known (wellFormed.var1 _ inside)).symm, fun isEdge => ?_⟩
      exact (binds.2 isEdge).trans (known (wellFormed.var2 _ inside isEdge).2).symm

end Bindings

section Materialized

variable {variableCount : Nat} {providers base now : List GenericProvider}
  {groups : UniquenessGroups} {desc : ReductionDesc}

/-- What `initialize_generic_provider` checks, and the number of variables that
`access_age_generic_join` starts with -/
structure Described (variableCount : Nat) (providers : List GenericProvider) : Prop where
  two : 2 ≤ variableCount
  var1 : ∀ provider ∈ providers, provider.var1 < variableCount
  var2 : ∀ provider ∈ providers, provider.kind = .edge →
    provider.var1 < provider.var2 ∧ provider.var2 < variableCount
  physical : ∀ provider ∈ providers, provider.isLazyPhysical = true → provider.kind = .edge

/-- Materialized providers are as described, with their rows in another order. -/
theorem GenericProvider.materialize_eq (provider : GenericProvider) :
    ∃ rows, provider.materialize = { provider with rows := rows } ∧ rows.Perm provider.rows ∧
      (provider.isLazyPhysical = false → RowsSorted rows) := by
  unfold GenericProvider.materialize GenericProvider.isReductionMaterialized
  cases isLazy : provider.isLazyPhysical with
  | true => exact ⟨provider.rows, by simp, .refl _, fun impossible => nomatch impossible⟩
  | false =>
      exact ⟨sortGenericRows provider.rows, by simp, List.mergeSort_perm _ _,
        fun _ => rowsSorted_sortGenericRows _⟩

theorem mem_materialize {provider : GenericProvider}
    (inside : provider ∈ providers.map (·.materialize)) : ∃ source ∈ providers, ∃ rows,
      provider = { source with rows := rows } ∧
        (source.isLazyPhysical = false → RowsSorted rows) := by
  obtain ⟨source, isSource, rfl⟩ := List.mem_map.1 inside
  obtain ⟨rows, same, _, sorted⟩ := source.materialize_eq
  exact ⟨source, isSource, rows, same, sorted⟩

theorem Described.wellFormed (described : Described variableCount providers) :
    WellFormed variableCount (providers.map (·.materialize)) where
  var1 _ inside := by
    obtain ⟨source, isSource, _, rfl, _⟩ := mem_materialize inside
    exact described.var1 source isSource
  var2 _ inside := by
    obtain ⟨source, isSource, _, rfl, _⟩ := mem_materialize inside
    exact described.var2 source isSource
  physical _ inside := by
    obtain ⟨source, isSource, _, rfl, _⟩ := mem_materialize inside
    exact described.physical source isSource
  sorted _ inside := by
    obtain ⟨source, _, _, rfl, sorted⟩ := mem_materialize inside
    intro materialized
    have isEager : source.isReductionMaterialized = true := materialized
    exact (sorted (by simpa [GenericProvider.isReductionMaterialized] using isEager)).key1

theorem Described.searchable (described : Described variableCount providers)
    (reduces : Reduces (providers.map (·.materialize)) now) : Searchable now where
  sorted provider inside notLazy := by
    obtain ⟨index, found⟩ := List.mem_iff_getElem?.1 inside
    obtain ⟨materialized, keep, atIndex, rfl, _⟩ := reduces.source found
    obtain ⟨source, _, rows, rfl, sorted⟩ := mem_materialize (List.mem_of_getElem? atIndex)
    exact (sorted notLazy).filter _
  physical := (reduces.wellFormed described.wellFormed).physical

theorem covered_materialize : Covered variableCount (providers.map (·.materialize)) ↔
    Covered variableCount providers := by
  unfold Covered
  refine forall₂_congr fun var _ => ?_
  simp only [List.mem_map, exists_exists_and_eq_and]
  refine exists_congr fun provider => and_congr_right fun _ => ?_
  obtain ⟨rows, same, _⟩ := provider.materialize_eq
  rw [same]
  rfl

theorem agree_materialize {rows : List GenericRow} :
    Agree (providers.map (·.materialize)) rows ↔ Agree providers rows := by
  unfold Agree
  simp only [List.forall₂_map_left_iff]
  refine exists_congr fun bindings => ?_
  have same (provider : GenericProvider) (row : GenericRow) :
      provider.materialize.Binds bindings row ↔ provider.Binds bindings row := by
    obtain ⟨rows, same, _⟩ := provider.materialize_eq
    rw [same]
    rfl
  simp only [same]

open Classical in
theorem fullJoin_materialize (groups : UniquenessGroups) (providers : List GenericProvider) :
    (fullJoin groups (providers.map (·.materialize))).Perm (fullJoin groups providers) := by
  have perm : List.Forall₂ List.Perm ((providers.map (·.materialize)).map (·.rows))
      (providers.map (·.rows)) := by
    rw [List.map_map, List.forall₂_map_left_iff, List.forall₂_map_right_iff, List.forall₂_same]
    intro provider _
    obtain ⟨rows, same, perm, _⟩ := provider.materialize_eq
    rw [Function.comp_apply, same]
    exact perm
  unfold fullJoin
  refine ((sections_perm perm).filter _).trans (.of_eq (List.filter_congr fun rows _ => ?_))
  rw [Bool.eq_iff_iff, decide_eq_true_iff, decide_eq_true_iff, agree_materialize]

theorem getElem?_materialize {index : Nat} {provider : GenericProvider}
    (found : providers[index]? = some provider) :
    ∃ rows, (providers.map (·.materialize))[index]? = some { provider with rows := rows } := by
  obtain ⟨rows, same, _⟩ := provider.materialize_eq
  exact ⟨rows, by rw [List.getElem?_map, found, ← same]; rfl⟩

theorem valid_materialize (valid : desc.Valid providers) :
    desc.Valid (providers.map (·.materialize)) where
  steps step isStep := by
    obtain ⟨provider, found, isValid⟩ := valid.steps step isStep
    obtain ⟨rows, same⟩ := getElem?_materialize found
    exact ⟨_, same, isValid⟩
  tails plan isPlan isTail := by
    obtain ⟨provider, found, isValid⟩ := valid.tails plan isPlan isTail
    obtain ⟨rows, same⟩ := getElem?_materialize found
    exact ⟨_, same, isValid⟩
  pairs plan isPlan isPair := by
    have path {bag : GHDBag} (isPath : bag.ValidPath plan.pairVariables providers) :
        bag.ValidPath plan.pairVariables (providers.map (·.materialize)) := by
      obtain ⟨internal, index1, index2, provider1, provider2, isInternal, indexes, different,
        found1, found2, isValid⟩ := isPath
      obtain ⟨rows1, same1⟩ := getElem?_materialize found1
      obtain ⟨rows2, same2⟩ := getElem?_materialize found2
      exact ⟨internal, index1, index2, _, _, isInternal, indexes, different, same1, same2, isValid⟩
    obtain ⟨parentBag, childBag, isParent, isChild, parentPath, childPath⟩ :=
      valid.pairs plan isPlan isPair
    exact ⟨parentBag, childBag, isParent, isChild, path parentPath, path childPath⟩

open Classical in
/-- The full join has no row that a reduction removes. -/
theorem fullJoin_reduced (reduces : Reduces base now) (groups : UniquenessGroups) :
    fullJoin groups now = fullJoin groups base := by
  have keeps (index : Nat) : ∃ keep : GenericRow → Bool, ∀ provider : GenericProvider,
      base[index]? = some provider →
        now[index]? = some { provider with rows := provider.rows.filter keep } ∧
        ∀ row ∈ provider.rows, ∀ bindings, Joins base bindings → provider.Binds bindings row →
          keep row = true := by
    cases found : base[index]? with
    | none => exact ⟨fun _ => true, fun _ impossible => nomatch impossible⟩
    | some provider =>
        obtain ⟨keep, isKept⟩ := reduces.2 index provider found
        exact ⟨keep, fun _ same => Option.some.inj same ▸ isKept⟩
  choose keep isKept using keeps
  have isNow : now = base.zipIdx.map fun entry =>
      { entry.1 with rows := entry.1.rows.filter (keep entry.2) } := by
    refine List.ext_getElem? fun index => ?_
    rw [List.getElem?_map, List.getElem?_zipIdx]
    cases found : base[index]? with
    | none =>
        rw [List.getElem?_eq_none_iff, ← reduces.1] at found
        rw [List.getElem?_eq_none found]
        rfl
    | some provider =>
        rw [(isKept index provider found).1]
        simp
  have sameAgree (rows : List GenericRow) : Agree now rows ↔ Agree base rows := by
    conv_rhs => rw [← List.zipIdx_map_fst 0 base]
    rw [isNow]
    unfold Agree
    simp only [List.forall₂_map_left_iff]
    rfl
  have sameSections : (now.map (·.rows)).sections = (base.map (·.rows)).sections.filter
      fun rows => (base.zipIdx.zip rows).all fun entry => keep entry.1.2 entry.2 := by
    have rowsOf := sections_filter base.zipIdx (fun entry => entry.1.rows) fun entry =>
      keep entry.2
    rw [isNow, List.map_map]
    refine rowsOf.trans ?_
    conv_rhs => rw [← List.zipIdx_map_fst 0 base, List.map_map, List.zipIdx_map_fst 0 base]
    rfl
  unfold fullJoin
  rw [sameSections, List.filter_filter]
  refine List.filter_congr fun rows isSection => ?_
  rw [Bool.eq_iff_iff, Bool.and_eq_true, decide_eq_true_iff, decide_eq_true_iff, sameAgree]
  refine ⟨fun both => both.1, fun both => ⟨both, List.all_eq_true.2 fun entry inside => ?_⟩⟩
  obtain ⟨bindings, joins, rowsOf⟩ := (combination_iff.2 ⟨isSection, both.1⟩).joins
  obtain ⟨index, found⟩ := List.mem_iff_getElem?.1 inside
  obtain ⟨atBase, atRows⟩ := List.getElem?_zip_eq_some.1 found
  obtain ⟨provider, isProvider, isRow, binds⟩ := rowsOf index entry.2 atRows
  rw [List.getElem?_zipIdx, isProvider] at atBase
  obtain rfl : index = entry.1.2 := by
    have := congrArg (Option.map Prod.snd) atBase
    simpa using this
  exact (isKept _ provider isProvider).2 entry.2 isRow bindings joins binds

end Materialized

section Rows

variable {variableCount : Nat} {providers now : List GenericProvider}
  {groups : UniquenessGroups} {desc : ReductionDesc}

/-- The reduction does not fail, keeps the full join, and ends exhausted only when there is none. -/
theorem materializeGenericProviders_spec (described : Described variableCount providers)
    (valid : desc.Valid providers) :
    ∃ state, materializeGenericProviders variableCount desc providers = .ok state ∧
      Reduces (providers.map (·.materialize)) state.providers ∧
      (state.exhausted = true → Covered variableCount providers →
        ∀ groups, fullJoin groups (providers.map (·.materialize)) = []) ∧
      (state.exhausted = false → Covered variableCount providers) := by
  have reductionSpec := reduceGenericProviders_kept described.wellFormed (valid_materialize valid)
  unfold materializeGenericProviders
  split_ifs with empty
  · refine ⟨_, rfl, .refl, fun _ _ groups => ?_, fun impossible => nomatch impossible⟩
    obtain ⟨provider, inside, isEmpty⟩ := List.any_eq_true.1 empty
    rw [Bool.and_eq_true, decide_eq_true_eq] at isEmpty
    obtain ⟨rows, same, perm, _⟩ := provider.materialize_eq
    have noRows : provider.materialize.rows = [] := by
      rw [same]
      exact List.perm_nil.1 (isEmpty.2 ▸ perm)
    exact fullJoin_eq_nil (not_joins_of_empty .refl (List.mem_map_of_mem inside) noRows)
  · obtain ⟨state, ran, kept⟩ := reductionSpec
    refine ⟨state, ran, kept.reduces, fun exhausted covered groups => ?_, fun goesOn => ?_⟩
    · exact fullJoin_eq_nil (kept.exhausted exhausted (covered_materialize.2 covered))
    · by_contra uncovered
      have := reduceGenericProviders_uncovered described.wellFormed (valid_materialize valid)
        (mt covered_materialize.1 uncovered) ran
      rw [goesOn] at this
      exact Bool.false_ne_true this

/-- What the enumeration gives out for some bags -/
def bagCombinations (groups : UniquenessGroups) (bags : List (List GenericRow)) :
    List (List GenericRow) :=
  leaves (combinationRows groups bags)
    (fun chosen => some (arrange (enumerationOrder bags) chosen)) bags.length []

open Classical in
/-- The bags of a full binding have its combinations, none when a bag is empty. -/
theorem allBags_combinations_perm (bindings : List GraphId) :
    ((allBags bindings now).toList.flatMap (bagCombinations groups)).Perm
      ((now.map (bagRows bindings)).sections.filter fun rows =>
        UniqueEdges groups fun place => rows[place]?) := by
  unfold allBags
  split_ifs with empty
  · obtain ⟨provider, inside, isEmpty⟩ := empty
    refine .of_eq (Eq.symm (List.eq_nil_iff_forall_not_mem.2 fun rows isRows => ?_))
    have isSection := List.mem_sections.1 (List.mem_filter.1 isRows).1
    rw [List.forall₂_map_right_iff] at isSection
    obtain ⟨index, inRange, rfl⟩ := List.mem_iff_getElem.1 inside
    have isRow := (List.forall₂_iff_get.1 isSection).2 index
      (isSection.length_eq ▸ inRange) inRange
    simp only [List.get_eq_getElem, isEmpty] at isRow
    exact List.not_mem_nil isRow
  · rw [Option.toList_some, List.flatMap_singleton]
    exact leaves_combinations_perm groups _

/-- The two loops give out the full join of providers that are all covered. -/
theorem search_spec (wellFormed : WellFormed variableCount now) (searchable : Searchable now)
    (covered : Covered variableCount now) (positive : 0 < variableCount)
    (groups : UniquenessGroups) :
    ∃ emitted enough, (∀ fuel, enough ≤ fuel → (do
      let search := bindingSearch variableCount now
      let prepared ← Backtrack.run search fuel (Backtrack.start search Caches.empty)
      let combined ← prepared.mapM fun bags =>
        Backtrack.run (combinationSearch groups bags) fuel
          (Backtrack.start (combinationSearch groups bags) ())
      some combined.flatten) = some emitted) ∧ emitted.Perm (fullJoin groups now) := by
  obtain ⟨below, rfl⟩ : ∃ below, variableCount = below + 1 := ⟨variableCount - 1, by omega⟩
  obtain ⟨enoughBindings, bindingsEnd⟩ := @run_start _ _ _ (bindingSearch (below + 1) now) _ _ _
    (lawful_bindingSearch searchable) below rfl _ (Caches.right_empty now)
  obtain ⟨first, inside, _⟩ := covered 0 positive
  have combinationsEnd := @mapM_enough _ _ (fun fuel bags =>
    Backtrack.run (combinationSearch groups bags) fuel
      (Backtrack.start (combinationSearch groups bags) ())) (bagCombinations groups)
    (leaves (bindingKeys now) (fun bindings => allBags bindings now) (below + 1) [])
    fun bags isBags => by
      rw [leaves_filterMap, List.mem_filterMap] at isBags
      obtain ⟨bindings, _, isAll⟩ := isBags
      have length : bags.length = now.length := by
        unfold allBags at isAll
        split_ifs at isAll
        rw [← Option.some.inj isAll, List.length_map]
      obtain ⟨levels, isLength⟩ := Nat.exists_eq_succ_of_ne_zero
        (length ▸ (List.length_pos_of_mem inside).ne')
      unfold bagCombinations
      rw [isLength]
      exact run_start (lawful_combinationSearch bags) isLength.symm trivial
  obtain ⟨enoughCombinations, combined⟩ := combinationsEnd
  refine ⟨((leaves (bindingKeys now) (fun bindings => allBags bindings now) (below + 1) []).map
    (bagCombinations groups)).flatten, max enoughBindings enoughCombinations,
    fun fuel bound => ?_, ?_⟩
  · dsimp only
    rw [bindingsEnd fuel (le_of_max_le_left bound), Option.bind_eq_bind, Option.bind_some,
      combined fuel (le_of_max_le_right bound)]
    rfl
  · rw [← List.flatMap_def, leaves_filterMap, List.filterMap_eq_flatMap_toList, List.flatMap_assoc]
    exact (List.Perm.flatMap_left _ fun bindings _ => allBags_combinations_perm bindings).trans
      (flatMap_bags_perm wellFormed searchable covered groups)

/-- The join ends, and gives out the full join exactly where every variable has a provider that
is materialized, or there is nothing to give out. -/
theorem accessGenericJoin_perm_iff (variableCount : Nat) (providers : List GenericProvider)
    (desc : ReductionDesc) (groups : UniquenessGroups)
    (described : Described variableCount providers) (valid : desc.Valid providers) :
    ∃ emitted enough, (∀ fuel, enough ≤ fuel →
      accessGenericJoin variableCount desc groups providers fuel = .ok (some emitted)) ∧
        (emitted.Perm (fullJoin groups providers) ↔
          Covered variableCount providers ∨ fullJoin groups providers = []) := by
  obtain ⟨state, ran, reduces, whenExhausted, goesOn⟩ :=
    materializeGenericProviders_spec described valid
  have samePerm := fullJoin_materialize groups providers
  unfold accessGenericJoin
  simp only [ran, ok_bind]
  cases exhausted : state.exhausted with
  | true =>
      refine ⟨[], 0, fun _ _ => rfl, ⟨fun perm => .inr (List.nil_perm.1 perm), ?_⟩⟩
      rintro (covered | empty)
      · rw [whenExhausted exhausted covered groups] at samePerm
        exact samePerm
      · rw [empty]
  | false =>
      have covered := goesOn exhausted
      obtain ⟨emitted, enough, ends, perm⟩ := search_spec (reduces.wellFormed described.wellFormed)
        (described.searchable reduces) (reduces.covered_iff.2 (covered_materialize.2 covered))
        (Nat.lt_of_lt_of_le Nat.two_pos described.two) groups
      rw [fullJoin_reduced reduces] at perm
      exact ⟨emitted, enough, fun fuel bound =>
        (if_neg Bool.false_ne_true).trans (congrArg Except.ok (ends fuel bound)),
        ⟨fun _ => .inl covered, fun _ => perm.trans samePerm⟩⟩

end Rows

section Example

/-- The edge with both of its vertices is given out. -/
theorem accessGenericJoin_joined :
    Described 2 joinedProviders ∧ (oneEdgeDesc 2).Valid joinedProviders ∧
      ∃ emitted enough, (∀ fuel, enough ≤ fuel → accessGenericJoin 2 (oneEdgeDesc 2)
        (fun _ => [0]) joinedProviders fuel = .ok (some emitted)) ∧
          emitted.Perm (fullJoin (fun _ => [0]) joinedProviders) := by
  have described : Described 2 joinedProviders := ⟨by decide, by decide, by decide, by decide⟩
  have valid : (oneEdgeDesc 2).Valid joinedProviders := oneEdgeDesc_valid rfl
  obtain ⟨emitted, enough, ends, perm⟩ := accessGenericJoin_perm_iff 2 joinedProviders
    (oneEdgeDesc 2) (fun _ => [0]) described valid
  exact ⟨described, valid, emitted, enough, ends, perm.2 (.inl (by unfold Covered; decide))⟩

/-- Both variables are covered, one of them by the edge of the index alone, and nothing is
given out. -/
theorem accessGenericJoin_loses_edge :
    Described 2 edgeOnlyProviders ∧ (oneEdgeDesc 1).Valid edgeOnlyProviders ∧
      (∀ var < 2, ∃ provider ∈ edgeOnlyProviders, provider.hasVariable var = true) ∧
      [⟨sampleSource, 0, none⟩, ⟨sampleSource, sampleTarget, some sampleEdge⟩] ∈
        fullJoin (fun _ => []) edgeOnlyProviders ∧
      ∀ fuel, accessGenericJoin 2 (oneEdgeDesc 1) (fun _ => []) edgeOnlyProviders fuel =
        .ok (some []) := by
  refine ⟨⟨by decide, by decide, by decide, by decide⟩, oneEdgeDesc_valid rfl, by decide,
    mem_fullJoin.2 ⟨⟨fun var => if var = 0 then sampleSource else sampleTarget,
      .cons ⟨List.mem_cons_self, rfl, fun isEdge => (nomatch isEdge)⟩
        (.cons ⟨List.mem_cons_self, rfl, fun _ => rfl⟩ .nil)⟩, ?_⟩, fun fuel => ?_⟩
  · intro first second _ _ _ _ _ _ _ _
    rfl
  · have sorted : sortGenericRows [⟨sampleSource, 0, none⟩] = [⟨sampleSource, 0, none⟩] := by
      simp [sortGenericRows]
    have materialized : edgeOnlyProviders.map (·.materialize) = edgeOnlyProviders := by
      simp [edgeOnlyProviders, vertexProvider, indexedEdge, GenericProvider.materialize,
        GenericProvider.isReductionMaterialized, GenericProvider.isLazyPhysical, sorted]
    unfold accessGenericJoin materializeGenericProviders
    rw [materialized]
    rfl

end Example

end Age.Executor.GenericJoin
