import Mathlib.Order.Bounds.Basic
import Age.Executor.GenericJoin.Combinations
import Age.Lib.InPlace

/-!
# Intersection of terminals in the WCOJ join

`intersect_age_wcoj_graphids` keeps the candidates that are among the matches.  It writes them to
the front of the array of candidates while it reads the rest of it, which is the array that it
gallops in when there are far more candidates than matches.  The arrays are in order, without
repetitions, as `deduplicate_adjacency_terminals` leaves them.
-/

namespace Age.Executor.WcojJoin

open SortedKeys InPlace
open scoped GenericJoin
open GenericJoin (sortedDistinct mem_sortedDistinct sortedDistinct_sorted)

abbrev GraphId := Int64

section Code

/-- The loop of `deduplicate_adjacency_terminals` -/
def dropRepeatedTerminals (terminals : List GraphId) (readIndex writeIndex : Nat) :
    List GraphId × Nat :=
  if inside : readIndex < terminals.length then
    let terminal := terminals[readIndex]
    if terminals[writeIndex - 1]? ≠ some terminal then
      dropRepeatedTerminals (terminals.set writeIndex terminal) (readIndex + 1) (writeIndex + 1)
    else dropRepeatedTerminals terminals (readIndex + 1) writeIndex
  else (terminals, writeIndex)
termination_by terminals.length - readIndex
decreasing_by
  · rw [List.length_set]
    omega
  · omega

/-- `deduplicate_adjacency_terminals`: the array of terminals at the end, and `terminal_count` -/
def deduplicateAdjacencyTerminals (terminals : List GraphId) : List GraphId × Nat :=
  if terminals.length ≤ 1 then (terminals, terminals.length)
  else dropRepeatedTerminals (terminals.mergeSort (· ≤ ·)) 1 1

/-- `AGE_WCOJ_GALLOPING_MIN_RATIO` -/
def ageWcojGallopingMinRatio : Nat := 8

/-- `age_wcoj_galloping_lower_bound` -/
def ageWcojGallopingLowerBound (values : List GraphId) (startIndex : Nat) (target : GraphId) :
    Nat :=
  gallopingBound (before values target) startIndex values.length

/-- The loop of `intersect_age_wcoj_graphids` for far more matches than candidates: the array of
candidates at the end, and `output_count` -/
def gallopMatches (matchIds candidates : List GraphId)
    (candidateIndex matchIndex outputCount : Nat) : List GraphId × Nat :=
  if inside : candidateIndex < candidates.length ∧ matchIndex < matchIds.length then
    let candidate := candidates[candidateIndex]
    let matchIndex := ageWcojGallopingLowerBound matchIds matchIndex candidate
    if matchIds.length ≤ matchIndex then (candidates, outputCount)
    else if matchIds[matchIndex]? = some candidate then
      gallopMatches matchIds (candidates.set outputCount candidate) (candidateIndex + 1)
        (matchIndex + 1) (outputCount + 1)
    else gallopMatches matchIds candidates (candidateIndex + 1) matchIndex outputCount
  else (candidates, outputCount)
termination_by candidates.length - candidateIndex
decreasing_by
  · rw [List.length_set]
    omega
  · omega

/-- The loop for far more candidates than matches -/
def gallopCandidates (matchIds candidates : List GraphId)
    (candidateIndex matchIndex outputCount : Nat) : List GraphId × Nat :=
  if inside : candidateIndex < candidates.length ∧ matchIndex < matchIds.length then
    let matchId := matchIds[matchIndex]
    let candidateIndex := ageWcojGallopingLowerBound candidates candidateIndex matchId
    if candidates.length ≤ candidateIndex then (candidates, outputCount)
    else if candidates[candidateIndex]? = some matchId then
      gallopCandidates matchIds (candidates.set outputCount matchId) (candidateIndex + 1)
        (matchIndex + 1) (outputCount + 1)
    else gallopCandidates matchIds candidates candidateIndex (matchIndex + 1) outputCount
  else (candidates, outputCount)
termination_by matchIds.length - matchIndex

/-- The merge loop -/
def mergeCandidates (matchIds candidates : List GraphId)
    (candidateIndex matchIndex outputCount : Nat) : List GraphId × Nat :=
  if inside : candidateIndex < candidates.length ∧ matchIndex < matchIds.length then
    let candidate := candidates[candidateIndex]
    let matchId := matchIds[matchIndex]
    if candidate < matchId then
      mergeCandidates matchIds candidates (candidateIndex + 1) matchIndex outputCount
    else if matchId < candidate then
      mergeCandidates matchIds candidates candidateIndex (matchIndex + 1) outputCount
    else
      mergeCandidates matchIds (candidates.set outputCount candidate) (candidateIndex + 1)
        (matchIndex + 1) (outputCount + 1)
  else (candidates, outputCount)
termination_by candidates.length - candidateIndex + (matchIds.length - matchIndex)
decreasing_by
  · omega
  · omega
  · rw [List.length_set]
    omega

/-- `intersect_age_wcoj_graphids`: the array of candidates at the end, and the count of those that
are kept in its front -/
def intersectAgeWcojGraphids (candidates matchIds : List GraphId) : List GraphId × Nat :=
  if candidates.length = 0 ∨ matchIds.length = 0 then (candidates, 0)
  else if candidates.length * ageWcojGallopingMinRatio ≤ matchIds.length then
    gallopMatches matchIds candidates 0 0 0
  else if matchIds.length * ageWcojGallopingMinRatio ≤ candidates.length then
    gallopCandidates matchIds candidates 0 0 0
  else mergeCandidates matchIds candidates 0 0 0

end Code

section LowerBound

variable {values : List GraphId} {start : Nat} {target : GraphId}

/-- The places from `start` on where the value has reached the target -/
def reachingPlaces (values : List GraphId) (start : Nat) (target : GraphId) : Set Nat :=
  {place | start ≤ place ∧ ∃ value, values[place]? = some value ∧ target ≤ value}

theorem ageWcojGallopingLowerBound_past (outside : values.length ≤ start) :
    ageWcojGallopingLowerBound values start target = values.length :=
  if_pos outside

theorem le_ageWcojGallopingLowerBound (inside : start ≤ values.length) :
    start ≤ ageWcojGallopingLowerBound values start target :=
  le_gallopingBound inside

/-- Only the order of the values from `start` on counts. -/
theorem isLeast_ageWcojGallopingLowerBound (sorted : (values.drop start).Pairwise (· ≤ ·)) :
    IsLeast (insert values.length (reachingPlaces values start target))
      (ageWcojGallopingLowerBound values start target) := by
  rcases Nat.lt_or_ge values.length start with outside | inside
  · rw [ageWcojGallopingLowerBound_past outside.le]
    constructor
    · exact Set.mem_insert _ _
    · rintro place (rfl | ⟨isFrom, -⟩)
      · exact Nat.le_refl _
      · exact (outside.trans_le isFrom).le
  · have isBound := @isBound_lowerBound _ _ _ target sorted
    have bounded := @lowerBound_le_length _ _ (values.drop start) target
    rw [List.length_drop] at bounded
    rw [ageWcojGallopingLowerBound, gallopingBound_before sorted inside]
    constructor
    · rcases Nat.eq_or_lt_of_le bounded with atEnd | within
      · apply Or.inl
        rw [atEnd, Nat.add_sub_cancel' inside]
      · apply Or.inr
        have notBefore := mt (isBound (lowerBound (values.drop start) target)).1 (lt_irrefl _)
        have found := List.getElem?_eq_getElem (Nat.add_lt_of_lt_sub' within)
        refine ⟨Nat.le_add_right _ _, _, found, ?_⟩
        rw [before, List.getElem?_drop, found] at notBefore
        simpa using notBefore
    · rintro place (rfl | ⟨isFrom, value, found, reached⟩)
      · exact Nat.add_le_of_le_sub' inside bounded
      · obtain ⟨more, rfl⟩ := Nat.exists_eq_add_of_le isFrom
        apply Nat.add_le_add_left
        by_contra less
        have isBefore := (isBound more).2 (Nat.lt_of_not_le less)
        rw [before, List.getElem?_drop, found] at isBefore
        exact absurd reached (not_le.2 (by simpa using isBefore))

end LowerBound

section Loops

variable {original candidates emitted matchIds : List GraphId}
  {candidateIndex matchIndex outputCount : Nat}

theorem gallopMatches_leaves
    (overwritten : Overwritten original candidates emitted outputCount candidateIndex) :
    Leaves original.length
      (emitted ++ gallopingIntersect matchIds (original.drop candidateIndex) matchIndex)
      (gallopMatches matchIds candidates candidateIndex matchIndex outputCount) := by
  fun_induction gallopMatches matchIds candidates candidateIndex matchIndex outputCount
    generalizing emitted with
  | case1 candidates candidateIndex matchIndex outputCount inside candidate place =>
      rename_i past
      rw [overwritten.drop_eq_cons inside.1, gallopingIntersect_past inside.2 past, List.append_nil]
      exact overwritten.leaves
  | case2 candidates candidateIndex matchIndex outputCount inside candidate place within =>
      rename_i found inductionHypothesis
      rw [overwritten.drop_eq_cons inside.1, gallopingIntersect_found inside.2 within found,
        List.append_cons]
      apply inductionHypothesis
      exact overwritten.write candidate inside.1
  | case3 candidates candidateIndex matchIndex outputCount inside candidate place within =>
      rename_i absent inductionHypothesis
      rw [overwritten.drop_eq_cons inside.1, gallopingIntersect_absent inside.2 within absent]
      apply inductionHypothesis
      exact overwritten.skip (Nat.le_succ candidateIndex)
  | case4 candidates candidateIndex matchIndex outputCount atEnd =>
      have none : gallopingIntersect matchIds (original.drop candidateIndex) matchIndex = [] := by
        by_cases inside : candidateIndex < original.length
        · apply gallopingIntersect_outside
          rw [← overwritten.length] at inside
          exact Nat.le_of_not_lt fun more => atEnd ⟨inside, more⟩
        · rw [List.drop_eq_nil_of_le (Nat.le_of_not_lt inside)]
          rfl
      rw [none, List.append_nil]
      exact overwritten.leaves

/-- The search runs in the array that is written to, and finds the place it has in the original. -/
theorem ageWcojGallopingLowerBound_overwritten {matchId : GraphId}
    (overwritten : Overwritten original candidates emitted outputCount candidateIndex) :
    ageWcojGallopingLowerBound candidates candidateIndex matchId =
      gallopingBound (before original matchId) candidateIndex original.length := by
  rw [ageWcojGallopingLowerBound, overwritten.length]
  apply gallopingBound_congr
  intro place isRest
  rw [before, before, overwritten.getElem? isRest]

theorem gallopCandidates_leaves
    (overwritten : Overwritten original candidates emitted outputCount candidateIndex) :
    Leaves original.length
      (emitted ++ gallopingIntersect original (matchIds.drop matchIndex) candidateIndex)
      (gallopCandidates matchIds candidates candidateIndex matchIndex outputCount) := by
  fun_induction gallopCandidates matchIds candidates candidateIndex matchIndex outputCount
    generalizing emitted with
  | case1 candidates candidateIndex matchIndex outputCount inside matchId place =>
      rename_i past
      have atPlace : place = _ := ageWcojGallopingLowerBound_overwritten overwritten
      rw [overwritten.length] at inside past
      rw [atPlace] at past
      rw [List.drop_eq_getElem_cons inside.2, gallopingIntersect_past inside.1 past,
        List.append_nil]
      exact overwritten.leaves
  | case2 candidates candidateIndex matchIndex outputCount inside matchId place within =>
      rename_i found inductionHypothesis
      have atPlace : place = _ := ageWcojGallopingLowerBound_overwritten overwritten
      have onward : candidateIndex ≤ place := le_ageWcojGallopingLowerBound inside.1.le
      have written := (overwritten.skip onward).write matchId (Nat.lt_of_not_le within)
      rw [overwritten.getElem? onward, atPlace] at found
      rw [overwritten.length] at inside within
      rw [atPlace] at within
      rw [List.drop_eq_getElem_cons inside.2, gallopingIntersect_found inside.1 within found,
        List.append_cons, ← atPlace]
      apply inductionHypothesis
      exact written
  | case3 candidates candidateIndex matchIndex outputCount inside matchId place within =>
      rename_i absent inductionHypothesis
      have atPlace : place = _ := ageWcojGallopingLowerBound_overwritten overwritten
      have onward : candidateIndex ≤ place := le_ageWcojGallopingLowerBound inside.1.le
      rw [overwritten.getElem? onward, atPlace] at absent
      rw [overwritten.length] at inside within
      rw [atPlace] at within
      rw [List.drop_eq_getElem_cons inside.2, gallopingIntersect_absent inside.1 within absent,
        ← atPlace]
      apply inductionHypothesis
      exact overwritten.skip onward
  | case4 candidates candidateIndex matchIndex outputCount atEnd =>
      have none : gallopingIntersect original (matchIds.drop matchIndex) candidateIndex = [] := by
        by_cases inside : matchIndex < matchIds.length
        · apply gallopingIntersect_outside
          rw [← overwritten.length]
          exact Nat.le_of_not_lt fun more => atEnd ⟨more, inside⟩
        · rw [List.drop_eq_nil_of_le (Nat.le_of_not_lt inside)]
          rfl
      rw [none, List.append_nil]
      exact overwritten.leaves

theorem mergeCandidates_leaves
    (overwritten : Overwritten original candidates emitted outputCount candidateIndex) :
    Leaves original.length
      (emitted ++ mergeIntersect (original.drop candidateIndex) (matchIds.drop matchIndex))
      (mergeCandidates matchIds candidates candidateIndex matchIndex outputCount) := by
  fun_induction mergeCandidates matchIds candidates candidateIndex matchIndex outputCount
    generalizing emitted with
  | case1 candidates candidateIndex matchIndex outputCount inside candidate matchId =>
      rename_i less inductionHypothesis
      rw [overwritten.drop_eq_cons inside.1, List.drop_eq_getElem_cons inside.2, mergeIntersect,
        if_pos less, ← List.drop_eq_getElem_cons inside.2]
      apply inductionHypothesis
      exact overwritten.skip (Nat.le_succ candidateIndex)
  | case2 candidates candidateIndex matchIndex outputCount inside candidate matchId =>
      rename_i notLess greater inductionHypothesis
      rw [overwritten.drop_eq_cons inside.1, List.drop_eq_getElem_cons inside.2, mergeIntersect,
        if_neg notLess, if_pos greater, ← overwritten.drop_eq_cons inside.1]
      exact inductionHypothesis overwritten
  | case3 candidates candidateIndex matchIndex outputCount inside candidate matchId =>
      rename_i notLess notGreater inductionHypothesis
      rw [overwritten.drop_eq_cons inside.1, List.drop_eq_getElem_cons inside.2, mergeIntersect,
        if_neg notLess, if_neg notGreater, List.append_cons]
      apply inductionHypothesis
      exact overwritten.write candidate inside.1
  | case4 candidates candidateIndex matchIndex outputCount atEnd =>
      have none :
          mergeIntersect (original.drop candidateIndex) (matchIds.drop matchIndex) = [] := by
        rw [overwritten.length] at atEnd
        rcases not_and_or.1 atEnd with outside | outside
        · rw [List.drop_eq_nil_of_le (Nat.le_of_not_lt outside), mergeIntersect_nil_left]
        · rw [List.drop_eq_nil_of_le (Nat.le_of_not_lt outside), mergeIntersect_nil_right]
      rw [none, List.append_nil]
      exact overwritten.leaves

end Loops

section Intersection

variable {candidates matchIds : List GraphId}

/-- What the loops leave does not depend on the order of the arrays. -/
theorem intersectAgeWcojGraphids_leaves :
    Leaves candidates.length (intersect ageWcojGallopingMinRatio candidates matchIds)
      (intersectAgeWcojGraphids candidates matchIds) := by
  have start := Overwritten.start candidates
  rw [intersect, intersectAgeWcojGraphids]
  split_ifs with empty farMore farFewer
  · exact start.leaves
  · exact gallopMatches_leaves start
  · exact @gallopCandidates_leaves candidates candidates [] matchIds 0 0 0 start
  · exact @mergeCandidates_leaves candidates candidates [] matchIds 0 0 0 start

/-- The prefix that is left has the candidates that are among the matches, in their order, and the
search ends at the least place that has reached its target. -/
theorem intersectAgeWcojGraphids_common (sortedCandidates : candidates.Pairwise (· < ·))
    (sortedMatches : matchIds.Pairwise (· < ·)) :
    Leaves candidates.length (candidates.filter (· ∈ matchIds))
        (intersectAgeWcojGraphids candidates matchIds) ∧
      ∀ values : List GraphId, values.Pairwise (· < ·) → ∀ start target,
        IsLeast (insert values.length (reachingPlaces values start target))
          (ageWcojGallopingLowerBound values start target) := by
  constructor
  · rw [← @intersect_eq _ _ _ _ ageWcojGallopingMinRatio sortedCandidates sortedMatches]
    exact intersectAgeWcojGraphids_leaves
  · intro values sorted start target
    apply isLeast_ageWcojGallopingLowerBound
    exact (le_of_lt_pairwise sorted).drop

theorem intersectAgeWcojGraphids_common_between :
    Leaves 4 [844424930131971, 844424930131975] (intersectAgeWcojGraphids
        [844424930131969, 844424930131971, 844424930131973, 844424930131975]
        [844424930131971, 844424930131972, 844424930131975]) ∧
      IsLeast (insert 3 (reachingPlaces [844424930131971, 844424930131972, 844424930131975] 1
          844424930131973))
        (ageWcojGallopingLowerBound [844424930131971, 844424930131972, 844424930131975] 1
          844424930131973) := by
  have sorted : ([844424930131971, 844424930131972, 844424930131975] : List GraphId).Pairwise
      (· < ·) := by
    decide
  obtain ⟨leaves, least⟩ := @intersectAgeWcojGraphids_common
    [844424930131969, 844424930131971, 844424930131973, 844424930131975]
    [844424930131971, 844424930131972, 844424930131975] (by decide) sorted
  exact ⟨leaves, least [844424930131971, 844424930131972, 844424930131975] sorted 1 844424930131973⟩

end Intersection

section Deduplication

variable {original terminals emitted : List GraphId} {last : GraphId}
  {readIndex writeIndex : Nat}

/-- The terminal that was written last is the one that the next one is compared with. -/
theorem dropRepeatedTerminals_leaves
    (overwritten : Overwritten original terminals (emitted ++ [last]) writeIndex readIndex) :
    Leaves original.length (emitted ++ distinct (last :: original.drop readIndex))
      (dropRepeatedTerminals terminals readIndex writeIndex) := by
  fun_induction dropRepeatedTerminals terminals readIndex writeIndex generalizing emitted last with
  | case1 terminals readIndex writeIndex inside terminal =>
      rename_i differs inductionHypothesis
      have different : last ≠ terminal := by
        intro same
        apply differs
        rw [overwritten.last, same]
      rw [overwritten.drop_eq_cons inside, distinct, if_neg different, List.append_cons]
      apply inductionHypothesis
      exact overwritten.write terminal inside
  | case2 terminals readIndex writeIndex inside terminal =>
      rename_i repeated inductionHypothesis
      have same : last = terminals[readIndex] := by
        rw [not_not, overwritten.last] at repeated
        exact Option.some.inj repeated
      rw [overwritten.drop_eq_cons inside, distinct, if_pos same, ← same]
      apply inductionHypothesis
      exact overwritten.skip (Nat.le_succ readIndex)
  | case3 terminals readIndex writeIndex atEnd =>
      rw [overwritten.length] at atEnd
      rw [List.drop_eq_nil_of_le (Nat.le_of_not_lt atEnd)]
      exact overwritten.leaves

theorem deduplicateAdjacencyTerminals_leaves (terminals : List GraphId) :
    Leaves terminals.length (sortedDistinct terminals)
      (deduplicateAdjacencyTerminals terminals) := by
  rw [deduplicateAdjacencyTerminals]
  split_ifs with short
  · have alone : sortedDistinct terminals = terminals := by
      rw [sortedDistinct]
      cases terminals with
      | nil =>
          rw [List.mergeSort_nil]
          rfl
      | cons terminal rest =>
          have noMore : rest = [] :=
            List.eq_nil_of_length_eq_zero (Nat.le_zero.1 (Nat.le_of_succ_le_succ short))
          rw [noMore, List.mergeSort_singleton]
          rfl
    rw [alone]
    exact ⟨rfl, rfl, List.take_length⟩
  · have sameLength := @List.length_mergeSort GraphId (fun first second => decide (first ≤ second))
      terminals
    rw [sortedDistinct, ← sameLength]
    cases sorted : terminals.mergeSort (· ≤ ·) with
    | nil =>
        rw [sorted] at sameLength
        exact (short (sameLength ▸ Nat.zero_le 1)).elim
    | cons first rest =>
        apply @dropRepeatedTerminals_leaves (first :: rest) (first :: rest) [] first 1 1
        exact ⟨rfl, rfl, Nat.le_refl 1, rfl, rfl⟩

/-- The part of an array that counts -/
def counted (result : List GraphId × Nat) : List GraphId := result.1.take result.2

/-- The terminals may be collected in any order, and more than once. -/
theorem intersectAgeWcojGraphids_deduplicated (candidates matchIds : List GraphId) :
    counted (intersectAgeWcojGraphids (counted (deduplicateAdjacencyTerminals candidates))
        (counted (deduplicateAdjacencyTerminals matchIds))) =
      (sortedDistinct candidates).filter (· ∈ matchIds) := by
  unfold counted
  rw [(deduplicateAdjacencyTerminals_leaves candidates).front,
    (deduplicateAdjacencyTerminals_leaves matchIds).front, intersectAgeWcojGraphids_leaves.front,
    intersect_eq (sortedDistinct_sorted candidates) (sortedDistinct_sorted matchIds)]
  apply List.filter_congr
  intro terminal inside
  rw [decide_eq_decide]
  exact mem_sortedDistinct

end Deduplication

end Age.Executor.WcojJoin
