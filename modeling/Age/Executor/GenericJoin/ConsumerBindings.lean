import Mathlib.Algebra.BigOperators.Group.List.Basic
import Mathlib.Algebra.Order.BigOperators.Group.List
import Mathlib.Algebra.Order.Ring.Int
import Mathlib.Data.List.Dedup
import Mathlib.Tactic.Ring
import Age.Executor.GenericJoin.Consumers

/-!
# What one binding adds

The product of the bags of a binding is the number of its combinations where no two of its rows may
share an edge.  The enumeration by numbers gives out the same combinations as the one by rows.
-/

namespace Age.Executor.GenericJoin

open Backtrack

section Checked

theorem checked_ok {number : Int} (low : 0 ≤ number) (high : number < 2 ^ 63) :
    checked number = .ok number :=
  if_pos ⟨by omega, high⟩

theorem checked_error {number : Int} (high : 2 ^ 63 ≤ number) :
    checked number = .error .bigintOutOfRange :=
  if_neg fun fits => by have := fits.2; omega

theorem ok_then {α β : Type} (a : α) (f : α → Except ConsumerError β) :
    (Except.ok a >>= f) = f a := rfl

theorem error_then {α β : Type} (error : ConsumerError) (f : α → Except ConsumerError β) :
    (Except.error error >>= f) = .error error := rfl

theorem addCountResult_eq {count increment : Int} (low : 0 ≤ count) (high : count < 2 ^ 63)
    (positive : 0 ≤ increment) : addCountResult count increment = checked (count + increment) := by
  unfold addCountResult
  split_ifs with none
  · rw [show count + increment = count by omega, checked_ok low high]
  · rfl

theorem addCount_checked {count increment : Int} (low : 0 ≤ count) (high : count < 2 ^ 63)
    (positive : 0 ≤ increment) :
    (checked increment >>= fun increment => addCountResult count increment) =
      checked (count + increment) := by
  by_cases small : increment < 2 ^ 63
  · rw [checked_ok positive small, ok_then, addCountResult_eq low high positive]
  · rw [checked_error (by omega), checked_error (by omega), error_then]

/-- A loop whose turns add to a checked count -/
theorem foldlM_checked {α : Type} {add : α → Int → Except ConsumerError Int} {size : α → Int}
    {list : List α} (positive : ∀ entry ∈ list, 0 ≤ size entry)
    (step : ∀ entry ∈ list, ∀ count, 0 ≤ count → count < 2 ^ 63 →
      add entry count = checked (count + size entry)) {count : Int} (low : 0 ≤ count)
    (high : count < 2 ^ 63) :
    list.foldlM (fun count entry => add entry count) count =
      checked (count + (list.map size).sum) := by
  induction list generalizing count with
  | nil => simp [checked_ok low high, pure, Except.pure]
  | cons entry rest inductionHypothesis =>
      have first := positive entry List.mem_cons_self
      have later := fun other isOther => positive other (List.mem_cons_of_mem entry isOther)
      have sum : 0 ≤ (rest.map size).sum :=
        List.sum_nonneg fun number inside => by
          obtain ⟨other, isOther, rfl⟩ := List.mem_map.1 inside
          exact later other isOther
      rw [List.foldlM_cons, step entry List.mem_cons_self count low high, List.map_cons,
        List.sum_cons]
      by_cases fits : count + size entry < 2 ^ 63
      · rw [checked_ok (by omega) fits, ok_then, inductionHypothesis later
          (fun other isOther => step other (List.mem_cons_of_mem entry isOther)) (by omega) fits,
          Int.add_assoc]
      · rw [checked_error (by omega), checked_error (by omega), error_then]

theorem countEach_eq {α : Type} (entries : List α) {count : Int} (low : 0 ≤ count)
    (high : count < 2 ^ 63) : countEach entries count = checked (count + entries.length) := by
  have sum : (entries.map fun _ => (1 : Int)).sum = entries.length := by simp
  rw [← sum]
  exact @foldlM_checked _ (fun _ count => addCountResult count 1) (fun _ => 1) _
    (fun _ _ => Int.one_nonneg) (fun _ _ count low high => addCountResult_eq low high
      Int.one_nonneg) _ low high

theorem checkedProduct_eq {left right : Int} (first : 0 ≤ left) (second : 0 ≤ right) :
    checkedProduct left right = checked (left * right) :=
  if_neg (by omega)

/-- The sizes of lists that are not empty, multiplied -/
def sizeProduct {α : Type} (bags : List (List α)) : Nat := (bags.map List.length).prod

theorem sizeProduct_pos {α : Type} {bags : List (List α)} (full : ∀ bag ∈ bags, bag ≠ []) :
    0 < sizeProduct bags := by
  induction bags with
  | nil => exact Nat.one_pos
  | cons bag rest inductionHypothesis =>
      have later := inductionHypothesis fun other isOther =>
        full other (List.mem_cons_of_mem bag isOther)
      exact Nat.mul_pos (List.length_pos_iff.2 (full bag List.mem_cons_self)) later

theorem foldlM_product {bags : List (List GenericRow)} (full : ∀ bag ∈ bags, bag ≠ [])
    {product : Int} (low : 0 < product) (high : product < 2 ^ 63) :
    bags.foldlM (fun product bag => checkedProduct product bag.length) product =
      checked (product * sizeProduct bags) := by
  induction bags generalizing product with
  | nil => simp [sizeProduct, checked_ok low.le high, pure, Except.pure]
  | cons bag rest inductionHypothesis =>
      have some : 0 < bag.length := List.length_pos_iff.2 (full bag List.mem_cons_self)
      have later := fun other isOther => full other (List.mem_cons_of_mem bag isOther)
      have more : (1 : Int) ≤ sizeProduct rest := by exact_mod_cast sizeProduct_pos later
      have positive : 0 < product * (bag.length : Int) := Int.mul_pos low (by omega)
      have split : product * (sizeProduct (bag :: rest) : Int) =
          product * bag.length * sizeProduct rest := by
        simp only [sizeProduct, List.map_cons, List.prod_cons, Nat.cast_mul]
        ring
      rw [List.foldlM_cons, checkedProduct_eq low.le (by omega), split]
      by_cases fits : product * bag.length < 2 ^ 63
      · rw [checked_ok positive.le fits, ok_then, inductionHypothesis later positive fits]
      · rw [checked_error (by omega), error_then, checked_error]
        exact (not_lt.1 fits).trans (le_mul_of_one_le_right positive.le more)

theorem countBindingProduct_eq {bags : List (List GenericRow)} (full : ∀ bag ∈ bags, bag ≠ [])
    (product : Int) : countBindingProduct bags product =
      bags.foldlM (fun product bag => checkedProduct product bag.length) product := by
  induction bags generalizing product with
  | nil => rfl
  | cons bag rest inductionHypothesis =>
      rw [countBindingProduct, if_neg (full bag List.mem_cons_self), List.foldlM_cons]
      exact congrArg _ (funext fun product =>
        inductionHypothesis (fun other isOther => full other (List.mem_cons_of_mem bag isOther))
          product)

/-- The product of the bags of a binding is exact where it fits. -/
theorem countBindingProduct_checked {bags : List (List GenericRow)}
    (full : ∀ bag ∈ bags, bag ≠ []) :
    countBindingProduct bags 1 = checked (sizeProduct bags) := by
  rw [countBindingProduct_eq full, foldlM_product full Int.one_pos (by decide), Int.one_mul]

end Checked

section Sections

variable {α : Type}

theorem length_sections (lists : List (List α)) : lists.sections.length = sizeProduct lists := by
  induction lists with
  | nil => rfl
  | cons list rest inductionHypothesis =>
      rw [sections_cons, List.length_flatMap]
      simp [inductionHypothesis, sizeProduct, Nat.mul_comm]

/-- Each entry of a list is in as many sections as the other lists allow. -/
theorem sections_entry_perm (lists : List (List α)) {place : Nat} (inRange : place < lists.length) :
    (lists.sections.map fun choice => choice[place]?).Perm
      ((lists[place]?.getD []).flatMap fun entry =>
        List.replicate (sizeProduct (lists.eraseIdx place)) (some entry)) := by
  induction lists generalizing place with
  | nil => cases inRange
  | cons list rest inductionHypothesis =>
      rw [sections_cons, List.map_flatMap]
      cases place with
      | zero =>
          simp only [List.map_map, Function.comp_def, List.getElem?_cons_zero, Option.getD_some,
            List.eraseIdx_cons_zero]
          refine (flatMap_map_comm rest.sections list fun _ entry => some entry).trans
            (.of_eq (List.flatMap_congr fun entry _ => ?_))
          rw [List.map_const', length_sections]
      | succ place =>
          have inRest : place < rest.length := Nat.lt_of_succ_lt_succ inRange
          simp only [List.map_map, Function.comp_def, List.getElem?_cons_succ,
            List.eraseIdx_cons_succ]
          have same : (rest.sections.flatMap fun choice => list.map fun _ => choice[place]?) =
              (rest.sections.map fun choice => choice[place]?).flatMap
                (List.replicate list.length) := by
            rw [List.flatMap_map]
            exact List.flatMap_congr fun choice _ => List.map_const'
          rw [same]
          refine ((inductionHypothesis inRest).flatMap_right _).trans (.of_eq ?_)
          rw [List.flatMap_assoc]
          refine List.flatMap_congr fun entry _ => ?_
          rw [List.flatMap_replicate]
          simp [sizeProduct, Nat.mul_comm]

end Sections

section Rejection

variable {groups : UniquenessGroups} {left right : List GenericRow}

theorem singleEdgeLabel_eq {bag : List GenericRow} {label : Nat}
    (single : singleEdgeLabel bag = some label) {row : GenericRow} (inside : row ∈ bag)
    {edgeId : GraphId} (isEdge : row.edgeId = some edgeId) : edgeLabelId edgeId = label := by
  cases bag with
  | nil => cases inside
  | cons first rest =>
      rw [singleEdgeLabel] at single
      split at single
      · cases single
      · rename_i firstId isFirst
        split_ifs at single with invalid all
        obtain rfl := Option.some.inj single
        rcases List.mem_cons.1 inside with rfl | inRest
        · rw [isFirst] at isEdge
          rw [Option.some.inj isEdge]
        · have same := List.all_eq_true.1 all row inRest
          rw [isEdge] at same
          simpa using same

/-- Bags with rows of one edge are never taken for bags without. -/
theorem bagsMayShareEdgeId_of_common {row other : GenericRow} (inLeft : row ∈ left)
    (inRight : other ∈ right) {edgeId : GraphId} (isEdge : row.edgeId = some edgeId)
    (isOther : other.edgeId = some edgeId) : bagsMayShareEdgeId left right = true := by
  have common : hasCommonEdgeId left right = true := by
    refine List.any_eq_true.2 ⟨row, inLeft, ?_⟩
    rw [Bool.and_eq_true]
    exact ⟨by rw [isEdge]; rfl, List.any_eq_true.2 ⟨other, inRight, by simp [isEdge, isOther]⟩⟩
  have many : bagsMayShareEdgeId.manyOrCommon left right = true := by
    unfold bagsMayShareEdgeId.manyOrCommon
    rw [common, Bool.or_true]
  unfold bagsMayShareEdgeId
  rw [if_neg (by
    rintro (rfl | rfl)
    · cases inLeft
    · cases inRight)]
  split
  · rename_i leftLabel rightLabel isLeft isRight
    rw [if_neg, many]
    rw [← singleEdgeLabel_eq isLeft inLeft isEdge, ← singleEdgeLabel_eq isRight inRight isOther]
    exact fun different => different rfl
  · exact many

variable {bags : List (List GenericRow)}

theorem activeBindingMayReject_of_not (never : uniquenessMayReject groups bags.length = false) :
    activeBindingMayReject groups bags = false := by
  unfold activeBindingMayReject
  unfold uniquenessMayReject at never
  simp only [List.any_eq_false, List.mem_range] at never ⊢
  intro first inFirst isFirst
  refine never first inFirst ?_
  rw [List.any_eq_true] at isFirst ⊢
  obtain ⟨second, inSecond, both⟩ := isFirst
  rw [Bool.and_eq_true] at both
  exact ⟨second, inSecond, both.1⟩

/-- Where the bags of no group may share an edge, every choice of rows has unique edges. -/
theorem uniqueEdges_of_not_reject (safe : activeBindingMayReject groups bags = false)
    {rows : List GenericRow} (isSection : rows ∈ bags.sections) :
    UniqueEdges groups fun place => rows[place]? := by
  have inBag {place : Nat} {row : GenericRow} (found : rows[place]? = some row) :
      place < bags.length ∧ row ∈ bags[place]?.getD [] := by
    obtain ⟨inRange, rfl⟩ := List.getElem?_eq_some_iff.1 found
    have inBags := List.mem_sections_length isSection ▸ inRange
    refine ⟨inBags, ?_⟩
    rw [List.getElem?_eq_getElem inBags]
    exact (List.forall₂_iff_get.1 (List.mem_sections.1 isSection)).2 place inRange inBags
  have ordered {first second : Nat} {row1 row2 : GenericRow} {edgeId : GraphId}
      (before : first < second) (atFirst : rows[first]? = some row1)
      (atSecond : rows[second]? = some row2) (isFirst : row1.edgeId = some edgeId)
      (isSecond : row2.edgeId = some edgeId) : groups.overlap first second = false := by
    by_contra overlaps
    rw [Bool.not_eq_false] at overlaps
    obtain ⟨firstRange, firstBag⟩ := inBag atFirst
    obtain ⟨secondRange, secondBag⟩ := inBag atSecond
    have rejects : activeBindingMayReject groups bags = true := by
      refine List.any_eq_true.2 ⟨first, List.mem_range.2 firstRange,
        List.any_eq_true.2 ⟨second, List.mem_range.2 secondRange, ?_⟩⟩
      rw [overlaps, bagsMayShareEdgeId_of_common firstBag secondBag isFirst isSecond]
      simpa using before
    rw [safe] at rejects
    cases rejects
  intro first second row1 row2 edgeId different atFirst atSecond isFirst isSecond
  rcases Nat.lt_or_gt_of_ne different with before | after
  · exact ordered before atFirst atSecond isFirst isSecond
  · rw [UniquenessGroups.overlap_comm]
    exact ordered after atSecond atFirst isSecond isFirst

/-- The combinations of such bags are all choices of rows. -/
theorem bagCombinations_safe (safe : activeBindingMayReject groups bags = false) :
    (bagCombinations groups bags).Perm bags.sections := by
  classical
  refine (leaves_combinations_perm groups bags).trans (.of_eq (List.filter_eq_self.2 ?_))
  exact fun rows isSection => decide_eq_true (uniqueEdges_of_not_reject safe isSection)

end Rejection

section Numbers

variable {α ν : Type}

theorem flatMap_numbers {bag : List α} {keep : α → Bool} {next : Nat → List ν}
    {nextRow : α → List ν} (same : ∀ (number : Nat) row, bag[number]? = some row →
      keep row = true → next number = nextRow row) :
    ((List.range bag.length).filter fun number => bag[number]?.all keep).flatMap next =
      (bag.filter keep).flatMap nextRow := by
  induction bag generalizing next with
  | nil => rfl
  | cons row rest inductionHypothesis =>
      have later := @inductionHypothesis (fun number => next (number + 1))
        fun number other found isKept => same (number + 1) other found isKept
      rw [List.length_cons, List.range_succ_eq_map, List.filter_cons, List.filter_cons,
        List.filter_map]
      have first : ((row :: rest)[0]?.all keep) = keep row := rfl
      rw [first]
      cases isKept : keep row with
      | true =>
          rw [if_pos rfl, if_pos rfl, List.flatMap_cons, List.flatMap_cons, List.flatMap_map,
            same 0 row rfl isKept]
          exact congrArg _ later
      | false =>
          rw [if_neg Bool.false_ne_true, if_neg Bool.false_ne_true, List.flatMap_map]
          exact later

theorem getElem?_filterMap_range {count : Nat} {valueAt : Nat → Option α}
    (total : ∀ number < count, (valueAt number).isSome = true) {number : Nat}
    (inRange : number < count) :
    ((List.range count).filterMap valueAt)[number]? = valueAt number := by
  have both : ((List.range count).filterMap valueAt).length = count ∧ ∀ number < count,
      ((List.range count).filterMap valueAt)[number]? = valueAt number := by
    clear inRange
    induction count with
    | zero => exact ⟨rfl, fun _ impossible => absurd impossible (Nat.not_lt_zero _)⟩
    | succ count inductionHypothesis =>
        obtain ⟨length, values⟩ := inductionHypothesis fun number inRange =>
          total number (Nat.lt_succ_of_lt inRange)
        obtain ⟨value, isValue⟩ := Option.isSome_iff_exists.1 (total count (Nat.lt_succ_self _))
        rw [List.range_succ, List.filterMap_append]
        have last : [count].filterMap valueAt = [value] := by simp [isValue]
        rw [last]
        refine ⟨by simp [length], fun number inRange => ?_⟩
        rcases Nat.lt_succ_iff_lt_or_eq.1 inRange with before | rfl
        · rw [List.getElem?_append_left (before.trans_eq length.symm), values number before]
        · rw [List.getElem?_append_right length.le, length, Nat.sub_self, isValue]
          rfl
  exact both.2 number inRange

end Numbers

section Enumerations

variable {groups : UniquenessGroups} {bags : List (List GenericRow)}

/-- The numbers are of rows of the bags they are for. -/
def InBags (bags : List (List GenericRow)) (order chosen : List Nat) : Prop :=
  ∀ place number, chosen[place]? = some number → number < (bagAt bags order place).length

theorem numberedRows_append {order chosen : List Nat} {number : Nat} {row : GenericRow}
    (found : (bagAt bags order chosen.length)[number]? = some row) :
    numberedRows bags order (chosen ++ [number]) = numberedRows bags order chosen ++ [row] := by
  unfold numberedRows
  rw [List.zipIdx_append, List.filterMap_append]
  simp [found]

theorem inBags_append {order chosen : List Nat} {number : Nat} (inBags : InBags bags order chosen)
    (inBag : number < (bagAt bags order chosen.length).length) :
    InBags bags order (chosen ++ [number]) := by
  intro place other found
  rcases Nat.lt_or_ge place chosen.length with before | after
  · rw [List.getElem?_append_left before] at found
    exact inBags place other found
  · rw [List.getElem?_append_right after] at found
    obtain ⟨isLast, rfl⟩ := List.getElem?_eq_some_iff.1 found
    have : place = chosen.length := by
      simp only [List.length_singleton] at isLast
      omega
    simpa [this] using inBag

theorem getElem?_numberedRows {order chosen : List Nat} (inBags : InBags bags order chosen) :
    (numberedRows bags order chosen).length = chosen.length ∧
      ∀ place number, chosen[place]? = some number →
        (numberedRows bags order chosen)[place]? = (bagAt bags order place)[number]? := by
  induction chosen using List.reverseRecOn with
  | nil => exact ⟨rfl, fun place number found => nomatch found⟩
  | append_singleton chosen last inductionHypothesis =>
      have before : InBags bags order chosen := fun place number found =>
        inBags place number (by
          rw [List.getElem?_append_left (List.getElem?_eq_some_iff.1 found).1, found])
      obtain ⟨length, rowsAt⟩ := inductionHypothesis before
      have inLast := inBags chosen.length last (by simp)
      have found := List.getElem?_eq_getElem inLast
      rw [numberedRows_append found]
      refine ⟨by simp [length], fun place number isNumber => ?_⟩
      rcases Nat.lt_or_ge place chosen.length with earlier | later
      · rw [List.getElem?_append_left earlier] at isNumber
        rw [List.getElem?_append_left (earlier.trans_eq length.symm), rowsAt place number isNumber]
      · have isLast : place = chosen.length := by
          have := (List.getElem?_eq_some_iff.1 isNumber).1
          simp only [List.length_append, List.length_singleton] at this
          omega
        subst isLast
        have same : last = number := by simpa using isNumber
        subst same
        rw [found, List.getElem?_append_right length.le, length, Nat.sub_self]
        rfl

/-- The numbers that the enumeration may choose next -/
def combinationNumbers (groups : UniquenessGroups) (bags : List (List GenericRow))
    (chosen : List Nat) : List Nat :=
  (List.range (bagAt bags (enumerationOrder bags) chosen.length).length).filter fun number =>
    (bagAt bags (enumerationOrder bags) chosen.length)[number]?.all fun row =>
      !conflicts groups (enumerationOrder bags) (numberedRows bags (enumerationOrder bags) chosen)
        row

/-- The numbers in the order of the providers -/
def arrangeNumbers (bags : List (List GenericRow)) (chosen : List Nat) : List Nat :=
  (List.range bags.length).filterMap fun provider =>
    ((enumerationOrder bags).zip chosen).lookup provider

theorem lawful_flatSearch : Lawful (flatSearch groups bags) (combinationNumbers groups bags)
    (fun chosen => some (arrangeNumbers bags chosen)) fun _ => True where
  openLevel _ _ _ := ⟨rfl, trivial⟩
  visit _ _ _ := ⟨rfl, trivial⟩

/-- What the enumeration by numbers gives out -/
def bagNumbers (groups : UniquenessGroups) (bags : List (List GenericRow)) : List (List Nat) :=
  leaves (combinationNumbers groups bags) (fun chosen => some (arrangeNumbers bags chosen))
    bags.length []

theorem leaves_numbered (levels : Nat) (chosen : List Nat)
    (inBags : InBags bags (enumerationOrder bags) chosen) :
    (leaves (combinationNumbers groups bags) some levels chosen).map
        (numberedRows bags (enumerationOrder bags)) =
      leaves (combinationRows groups bags) some levels
        (numberedRows bags (enumerationOrder bags) chosen) := by
  induction levels generalizing chosen with
  | zero => rfl
  | succ levels inductionHypothesis =>
      have next : combinationRows groups bags
          (numberedRows bags (enumerationOrder bags) chosen) =
            (bagAt bags (enumerationOrder bags) chosen.length).filter fun row =>
              !conflicts groups (enumerationOrder bags)
                (numberedRows bags (enumerationOrder bags) chosen) row := by
        rw [combinationRows, (getElem?_numberedRows inBags).1]
      rw [leaves, leaves, List.map_flatMap, next]
      refine flatMap_numbers fun number row found _ => ?_
      rw [inductionHypothesis _ (inBags_append inBags (List.getElem?_eq_some_iff.1 found).1),
        numberedRows_append found]

theorem mem_combinationNumbers {number : Nat} {chosen : List Nat}
    (inside : number ∈ combinationNumbers groups bags chosen) :
    number < (bagAt bags (enumerationOrder bags) chosen.length).length :=
  List.mem_range.1 (List.mem_filter.1 inside).1

/-- Both enumerations go through the same choices, one by rows and one by numbers. -/
theorem bagNumbers_combinations :
    ∃ choices : List (List Nat), bagNumbers groups bags = choices.map (arrangeNumbers bags) ∧
      bagCombinations groups bags = choices.map (fun chosen => arrange (enumerationOrder bags)
        (numberedRows bags (enumerationOrder bags) chosen)) ∧
      ∀ chosen ∈ choices, chosen.length = bags.length ∧
        InBags bags (enumerationOrder bags) chosen := by
  refine ⟨leaves (combinationNumbers groups bags) some bags.length [], ?_, ?_, ?_⟩
  · unfold bagNumbers
    rw [leaves_filterMap, ← List.filterMap_eq_map]
    rfl
  · unfold bagCombinations
    rw [leaves_filterMap]
    have same := @leaves_numbered groups bags bags.length [] fun _ _ found => nomatch found
    rw [show numberedRows bags (enumerationOrder bags) [] = [] from rfl] at same
    rw [← same, List.filterMap_map, ← List.filterMap_eq_map]
    rfl
  · intro chosen inside
    obtain ⟨rest, rfl, length, follows⟩ := mem_leaves.1 inside
    refine ⟨length, fun place number found => ?_⟩
    have isNext := mem_combinationNumbers (follows_iff.1 follows place number found)
    rwa [List.nil_append, List.length_take_of_le
      (List.getElem?_eq_some_iff.1 found).1.le] at isNext

/-- The row of a provider in a combination has the number that the other enumeration gives. -/
theorem arrange_numbered {chosen : List Nat} (length : chosen.length = bags.length)
    (inBags : InBags bags (enumerationOrder bags) chosen) {place : Nat}
    (inRange : place < bags.length) :
    ∃ number, (arrangeNumbers bags chosen)[place]? = some number ∧
      number < (bags[place]?.getD []).length ∧
      (arrange (enumerationOrder bags) (numberedRows bags (enumerationOrder bags) chosen))[place]? =
        (bags[place]?.getD [])[number]? := by
  have isPerm := enumerationOrder_perm bags
  have distinct : (enumerationOrder bags).Nodup := isPerm.nodup_iff.2 List.nodup_range
  have orderLength : (enumerationOrder bags).length = bags.length := by
    rw [isPerm.length_eq, List.length_range]
  obtain ⟨rowsLength, rowsAt⟩ := getElem?_numberedRows inBags
  have at_ {provider : Nat} (isProvider : provider < bags.length) :
      ∃ number row, ((enumerationOrder bags).zip chosen).lookup provider = some number ∧
        (bags[provider]?.getD [])[number]? = some row ∧
        ((enumerationOrder bags).zip (numberedRows bags (enumerationOrder bags) chosen)).lookup
          provider = some row := by
    obtain ⟨index, atOrder⟩ := List.mem_iff_getElem?.1
      (isPerm.mem_iff.2 (List.mem_range.2 isProvider))
    have inOrder := (List.getElem?_eq_some_iff.1 atOrder).1
    have found := List.getElem?_eq_getElem (length.symm ▸ orderLength ▸ inOrder : index < chosen.length)
    have inBag := inBags index _ found
    have isBag : bagAt bags (enumerationOrder bags) index = bags[provider]?.getD [] := by
      simp [bagAt, atOrder]
    have rowAt := rowsAt index _ found
    rw [List.getElem?_eq_getElem inBag] at rowAt
    refine ⟨_, _, lookup_zip distinct (length.trans orderLength.symm) atOrder found, ?_,
      lookup_zip distinct (rowsLength.trans (length.trans orderLength.symm)) atOrder rowAt⟩
    rw [← isBag, List.getElem?_eq_getElem inBag]
  obtain ⟨number, row, isNumber, isRow, isArranged⟩ := at_ inRange
  refine ⟨number, ?_, (List.getElem?_eq_some_iff.1 isRow).1, ?_⟩
  · unfold arrangeNumbers
    rw [getElem?_filterMap_range _ inRange, isNumber]
    intro provider isProvider
    obtain ⟨other, -, found, -⟩ := at_ isProvider
    rw [found]
    rfl
  · unfold arrange
    rw [orderLength, getElem?_filterMap_range _ inRange, isArranged, isRow]
    intro provider isProvider
    obtain ⟨-, other, -, -, found⟩ := at_ isProvider
    rw [found]
    rfl

end Enumerations

section Ready

variable {groups : UniquenessGroups} {binding : ReadyBinding}

/-- What the search and the enumerations make of a binding -/
structure ReadyBinding.Right (groups : UniquenessGroups) (binding : ReadyBinding) : Prop where
  full : ∀ bag ∈ binding.bags, bag ≠ []
  combinations : binding.combinations = bagCombinations groups binding.bags
  numbered : binding.numbered = bagNumbers groups binding.bags

theorem ReadyBinding.Right.length_numbered (right : binding.Right groups) :
    binding.numbered.length = binding.combinations.length := by
  obtain ⟨choices, numbers, combinations, -⟩ := @bagNumbers_combinations groups binding.bags
  rw [right.numbered, right.combinations, numbers, combinations, List.length_map, List.length_map]

theorem ReadyBinding.Right.perm_sections (right : binding.Right groups)
    (safe : activeBindingMayReject groups binding.bags = false) :
    binding.combinations.Perm binding.bags.sections := by
  rw [right.combinations]
  exact bagCombinations_safe safe

theorem ReadyBinding.Right.length_safe (right : binding.Right groups)
    (safe : activeBindingMayReject groups binding.bags = false) :
    binding.combinations.length = sizeProduct binding.bags := by
  rw [(right.perm_sections safe).length_eq, length_sections]

theorem ReadyBinding.Right.length_le (right : binding.Right groups) :
    binding.combinations.length ≤ sizeProduct binding.bags := by
  classical
  rw [right.combinations, ← length_sections]
  unfold bagCombinations
  rw [(leaves_combinations_perm groups binding.bags).length_eq]
  exact List.length_filter_le _ _

/-- A binding adds the number of its combinations to a count. -/
theorem addBindingCount_eq (right : binding.Right groups) {count : Int} (low : 0 ≤ count)
    (high : count < 2 ^ 63) : addBindingCount groups binding count =
      checked (count + binding.combinations.length) := by
  unfold addBindingCount
  split_ifs with safe small
  · have isSafe : activeBindingMayReject groups binding.bags = false := by
      rw [Bool.or_eq_true, Bool.not_eq_true', Bool.not_eq_true'] at safe
      exact safe.elim activeBindingMayReject_of_not id
    rw [countBindingProduct_checked right.full, addCount_checked low high (Int.natCast_nonneg _),
      right.length_safe isSafe]
  · rw [countEach_eq _ le_rfl (by decide), Int.zero_add, addCount_checked low high
      (Int.natCast_nonneg _), right.length_numbered]
  · exact countEach_eq _ low high

/-- The product is checked before the combinations of a group are counted. -/
theorem groupCount_eq (right : binding.Right groups)
    (fits : (sizeProduct binding.bags : Int) < 2 ^ 63) {count : Int} (low : 0 ≤ count)
    (high : count < 2 ^ 63) : groupCount groups binding count =
      checked (count + binding.combinations.length) := by
  unfold groupCount
  rw [countBindingProduct_checked right.full, checked_ok (Int.natCast_nonneg _) fits, ok_then,
    addBindingCount_eq right low high]

theorem groupHasBinding_eq (right : binding.Right groups)
    (fits : (sizeProduct binding.bags : Int) < 2 ^ 63) (has : Bool) :
    groupHasBinding groups binding has = .ok (has || binding.combinations ≠ []) := by
  unfold groupHasBinding
  rw [countBindingProduct_checked right.full, checked_ok (Int.natCast_nonneg _) fits, ok_then]
  cases never : uniquenessMayReject groups binding.bags.length with
  | true => simp [pure, Except.pure]
  | false =>
      have some : binding.combinations ≠ [] := by
        rw [← List.length_pos_iff, right.length_safe (activeBindingMayReject_of_not never)]
        exact sizeProduct_pos right.full
      simp [pure, Except.pure, some]

end Ready

section Values

/-- The values that are there -/
def known (values : List (Option Int)) : List Int := values.filterMap id

/-- The values that a loop of rows with multiplicities stands for -/
def expand (adds : List (Option Int × Nat)) : List (Option Int) :=
  adds.flatMap fun add => List.replicate add.2 add.1

/-- What the state says of the values since the start and of those of its group -/
structure PropertyState.Summarizes (aggregate : PropertyAggregate) (all group : List (Option Int))
    (state : PropertyState) : Prop where
  nullRows : state.nullRows = all.length - (known all).length
  inputRows : state.inputRows = (known all).length
  valueInputRows : state.valueInputRows = (known group).length
  hasValue : state.hasValue = !(known group).isEmpty
  value : state.hasValue = true →
    match aggregate with
    | .sum => state.sum = (known group).sum
    | .avg => state.avgSum = (known group).sum
    | .min => state.minmax ∈ known group ∧ ∀ value ∈ known group, state.minmax ≤ value
    | .max => state.minmax ∈ known group ∧ ∀ value ∈ known group, value ≤ state.minmax

theorem known_append (first second : List (Option Int)) :
    known (first ++ second) = known first ++ known second :=
  List.filterMap_append

theorem length_known_le (values : List (Option Int)) : (known values).length ≤ values.length :=
  List.length_filterMap_le _ _

theorem known_replicate_none (count : Nat) : known (List.replicate count none) = [] := by
  simp [known]

theorem known_replicate_some (count : Nat) (value : Int) :
    known (List.replicate count (some value)) = List.replicate count value := by
  simp [known]

variable {aggregate : PropertyAggregate} {all group : List (Option Int)} {state : PropertyState}

theorem PropertyState.Summarizes.perm (summary : state.Summarizes aggregate all group)
    {all' group' : List (Option Int)} (permAll : all.Perm all') (permGroup : group.Perm group') :
    state.Summarizes aggregate all' group' := by
  have allKnown : (known all).Perm (known all') := permAll.filterMap _
  have groupKnown : (known group).Perm (known group') := permGroup.filterMap _
  refine ⟨?_, ?_, ?_, ?_, fun has => ?_⟩
  · rw [summary.nullRows, permAll.length_eq, allKnown.length_eq]
  · rw [summary.inputRows, allKnown.length_eq]
  · rw [summary.valueInputRows, groupKnown.length_eq]
  · rw [summary.hasValue, groupKnown.isEmpty_eq]
  · have := summary.value has
    cases aggregate with
    | sum => exact this.trans groupKnown.sum_eq
    | avg => exact this.trans groupKnown.sum_eq
    | min => exact ⟨groupKnown.mem_iff.1 this.1, fun value inside =>
        this.2 value (groupKnown.mem_iff.2 inside)⟩
    | max => exact ⟨groupKnown.mem_iff.1 this.1, fun value inside =>
        this.2 value (groupKnown.mem_iff.2 inside)⟩

theorem PropertyState.Summarizes.start (aggregate : PropertyAggregate) :
    PropertyState.initial.Summarizes aggregate [] [] :=
  ⟨rfl, rfl, rfl, rfl, nofun⟩

/-- The counters of the rows with a value and of those without one have 64 bits. -/
structure RowsFit (values : List (Option Int)) : Prop where
  inputRows : ((known values).length : Int) < 2 ^ 63
  nullRows : (values.length : Int) - (known values).length < 2 ^ 63

theorem RowsFit.left {first second : List (Option Int)} (fit : RowsFit (first ++ second)) :
    RowsFit first := by
  have input := fit.inputRows
  have nulls := fit.nullRows
  have fewer := length_known_le second
  rw [known_append, List.length_append] at input nulls
  rw [List.length_append] at nulls
  push_cast at input nulls
  exact ⟨by omega, by omega⟩

theorem RowsFit.perm {first second : List (Option Int)} (fit : RowsFit first)
    (perm : first.Perm second) : RowsFit second := by
  have same : (known first).Perm (known second) := perm.filterMap _
  exact ⟨same.length_eq ▸ fit.inputRows, same.length_eq ▸ perm.length_eq ▸ fit.nullRows⟩

/-- A new group has no value yet. -/
theorem PropertyState.Summarizes.reset (summary : state.Summarizes aggregate all group) :
    state.reset.Summarizes aggregate all [] :=
  ⟨summary.nullRows, summary.inputRows, rfl, rfl, nofun⟩

end Values

section Adding

variable {aggregate : PropertyAggregate} {all group : List (Option Int)} {state : PropertyState}

/-- The values are added, or the sum is out of range and so is the exact one. -/
def Added (aggregate : PropertyAggregate) (all group : List (Option Int))
    (result : Except ConsumerError PropertyState) : Prop :=
  (∃ state, result = .ok state ∧ state.Summarizes aggregate all group ∧
      (aggregate = .sum → (known group).sum < 2 ^ 63)) ∨
    (aggregate = .sum ∧ result = .error .bigintOutOfRange ∧ 2 ^ 63 ≤ (known group).sum)

/-- A sum has no negative values. -/
def SumNonneg (aggregate : PropertyAggregate) (values : List (Option Int)) : Prop :=
  aggregate = .sum → ∀ value ∈ known values, 0 ≤ value

theorem sum_replicate_int (count : Nat) (value : Int) :
    (List.replicate count value).sum = value * count := by
  rw [List.sum_replicate, nsmul_eq_mul, mul_comm]

theorem addSumValue_spec (known_ : state.hasValue = !(known group).isEmpty)
    (sums : state.hasValue = true → state.sum = (known group).sum) {value : Int}
    (nonneg : ∀ number ∈ known group, 0 ≤ number) (positive : 0 ≤ value) {multiplicity : Nat}
    (often : 0 < multiplicity) :
    (addSumValue state value multiplicity = .ok { state with
        hasValue := true, sum := (known group).sum + value * multiplicity } ∧
        (known group).sum + value * multiplicity < 2 ^ 63) ∨
      (addSumValue state value multiplicity = .error .bigintOutOfRange ∧
        2 ^ 63 ≤ (known group).sum + value * multiplicity) := by
  have before : 0 ≤ (known group).sum := List.sum_nonneg nonneg
  have addend : 0 ≤ value * (multiplicity : Int) := Int.mul_nonneg positive (Int.natCast_nonneg _)
  unfold addSumValue
  rw [if_neg (by omega), checkedProduct_eq positive (Int.natCast_nonneg _)]
  by_cases fits : value * (multiplicity : Int) < 2 ^ 63
  · rw [checked_ok addend fits, ok_then]
    cases has : state.hasValue with
    | false =>
        have none : known group = [] := by
          have := known_
          rw [has] at this
          simpa using this.symm
        left
        rw [none]
        exact ⟨by simp [pure, Except.pure], by simpa using fits⟩
    | true =>
        have exact_ : state.sum = (known group).sum := sums has
        simp only [Bool.not_true, Bool.false_eq_true, if_false, checkedSum, exact_]
        by_cases total : (known group).sum + value * (multiplicity : Int) < 2 ^ 63
        · left
          rw [checked_ok (by omega) total]
          exact ⟨rfl, total⟩
        · right
          rw [checked_error (by omega)]
          exact ⟨rfl, by omega⟩
  · right
    rw [checked_error (by omega)]
    exact ⟨rfl, by omega⟩

theorem addAvgValue_eq (known_ : state.hasValue = !(known group).isEmpty)
    (sums : state.hasValue = true → state.avgSum = (known group).sum) (value : Int)
    {multiplicity : Nat} (often : 0 < multiplicity) : addAvgValue state value multiplicity = { state with
      hasValue := true, avgSum := (known group).sum + value * multiplicity } := by
  unfold addAvgValue
  rw [if_neg (by omega)]
  cases has : state.hasValue with
  | false =>
      have none : known group = [] := by
        have := known_
        rw [has] at this
        simpa using this.symm
      simp [none]
  | true =>
      have exact_ : state.avgSum = (known group).sum := sums has
      simp [exact_]

theorem addMinmaxValue_min (known_ : state.hasValue = !(known group).isEmpty)
    (extreme : state.hasValue = true → state.minmax ∈ known group ∧
      ∀ value ∈ known group, state.minmax ≤ value) (value : Int) :
    ∃ least, addMinmaxValue false state value = { state with hasValue := true, minmax := least } ∧
      least ∈ value :: known group ∧ ∀ number ∈ value :: known group, least ≤ number := by
  unfold addMinmaxValue
  cases has : state.hasValue with
  | false =>
      have none : known group = [] := by
        have := known_
        rw [has] at this
        simpa using this.symm
      exact ⟨value, rfl, by simp, by simp [none]⟩
  | true =>
      obtain ⟨inside, least⟩ := extreme has
      by_cases smaller : value < state.minmax
      · refine ⟨value, by simp [smaller], List.mem_cons_self, fun number isNumber => ?_⟩
        rcases List.mem_cons.1 isNumber with rfl | isKnown
        · exact le_rfl
        · exact smaller.le.trans (least number isKnown)
      · refine ⟨state.minmax, by simp [smaller, ← has], List.mem_cons_of_mem _ inside,
          fun number isNumber => ?_⟩
        rcases List.mem_cons.1 isNumber with rfl | isKnown
        · exact not_lt.1 smaller
        · exact least number isKnown

theorem addMinmaxValue_max (known_ : state.hasValue = !(known group).isEmpty)
    (extreme : state.hasValue = true → state.minmax ∈ known group ∧
      ∀ value ∈ known group, value ≤ state.minmax) (value : Int) :
    ∃ most, addMinmaxValue true state value = { state with hasValue := true, minmax := most } ∧
      most ∈ value :: known group ∧ ∀ number ∈ value :: known group, number ≤ most := by
  unfold addMinmaxValue
  cases has : state.hasValue with
  | false =>
      have none : known group = [] := by
        have := known_
        rw [has] at this
        simpa using this.symm
      exact ⟨value, rfl, by simp, by simp [none]⟩
  | true =>
      obtain ⟨inside, most⟩ := extreme has
      by_cases larger : state.minmax < value
      · refine ⟨value, by simp [larger], List.mem_cons_self, fun number isNumber => ?_⟩
        rcases List.mem_cons.1 isNumber with rfl | isKnown
        · exact le_rfl
        · exact (most number isKnown).trans larger.le
      · refine ⟨state.minmax, by simp [larger, ← has], List.mem_cons_of_mem _ inside,
          fun number isNumber => ?_⟩
        rcases List.mem_cons.1 isNumber with rfl | isKnown
        · exact not_lt.1 larger
        · exact most number isKnown

theorem known_append_replicate_some (values : List (Option Int)) (value : Int)
    (multiplicity : Nat) : known (values ++ List.replicate multiplicity (some value)) =
      known values ++ List.replicate multiplicity value := by
  rw [known_append, known_replicate_some]

/-- A state whose counters moved on and whose aggregate took a value sums up the value too. -/
theorem PropertyState.Summarizes.count (summary : state.Summarizes aggregate all group)
    {next : PropertyState} {value : Int} {multiplicity : Nat} (positive : 0 < multiplicity)
    (nullRows : next.nullRows = state.nullRows)
    (inputRows : next.inputRows = state.inputRows + multiplicity)
    (valueInputRows : next.valueInputRows = state.valueInputRows + multiplicity)
    (hasValue : next.hasValue = true)
    (taken : match aggregate with
      | .sum => next.sum = (known group).sum + value * multiplicity
      | .avg => next.avgSum = (known group).sum + value * multiplicity
      | .min => next.minmax ∈ value :: known group ∧
          ∀ number ∈ value :: known group, next.minmax ≤ number
      | .max => next.minmax ∈ value :: known group ∧
          ∀ number ∈ value :: known group, number ≤ next.minmax) :
    next.Summarizes aggregate (all ++ List.replicate multiplicity (some value))
      (group ++ List.replicate multiplicity (some value)) := by
  have more := fun values => known_append_replicate_some values value multiplicity
  have knownAll := length_known_le all
  have members {number : Int} : number ∈ known group ++ List.replicate multiplicity value ↔
      number ∈ value :: known group := by
    simp [positive.ne', or_comm]
  have total : (known group ++ List.replicate multiplicity value).sum =
      (known group).sum + value * multiplicity := by
    rw [List.sum_append, sum_replicate_int]
  refine ⟨?_, ?_, ?_, ?_, fun _ => ?_⟩
  · rw [nullRows, summary.nullRows, more, List.length_append, List.length_append,
      List.length_replicate, List.length_replicate]
    push_cast
    omega
  · rw [inputRows, summary.inputRows, more, List.length_append, List.length_replicate]
    push_cast
    rfl
  · rw [valueInputRows, summary.valueInputRows, more, List.length_append, List.length_replicate]
    push_cast
    rfl
  · rw [hasValue, more]
    simp [positive.ne']
  · rw [more]
    cases aggregate with
    | sum => exact taken.trans total.symm
    | avg => exact taken.trans total.symm
    | min => exact ⟨members.2 taken.1, fun number inside => taken.2 number (members.1 inside)⟩
    | max => exact ⟨members.2 taken.1, fun number inside => taken.2 number (members.1 inside)⟩

/-- A row adds its value as often as its multiplicity says. -/
theorem addPropertyRow_spec (summary : state.Summarizes aggregate all group)
    (smaller : (known group).length ≤ (known all).length) (value : Option Int) (multiplicity : Nat)
    (bound : RowsFit (all ++ List.replicate multiplicity value))
    (small : aggregate = .sum → (known group).sum < 2 ^ 63)
    (nonneg : SumNonneg aggregate (group ++ List.replicate multiplicity value)) :
    Added aggregate (all ++ List.replicate multiplicity value)
      (group ++ List.replicate multiplicity value)
      (addPropertyRow aggregate state value multiplicity) := by
  unfold addPropertyRow
  rcases Nat.eq_zero_or_pos multiplicity with rfl | positive
  · rw [if_pos (by simp)]
    exact .inl ⟨state, rfl, by simpa using summary, by simpa using small⟩
  rw [if_neg (by omega)]
  have knownAll := length_known_le all
  cases value with
  | none =>
      have noMore (values : List (Option Int)) :
          known (values ++ List.replicate multiplicity none) = known values := by
        rw [known_append, known_replicate_none, List.append_nil]
      have nulls := bound.nullRows
      rw [noMore, List.length_append, List.length_replicate] at nulls
      push_cast at nulls
      rw [summary.nullRows, addCountResult_eq (by omega) (by omega) (Int.natCast_nonneg _),
        checked_ok (by omega) (by omega)]
      refine .inl ⟨_, rfl, ⟨?_, ?_, ?_, ?_, fun has => ?_⟩, noMore group ▸ small⟩
      · rw [noMore, List.length_append, List.length_replicate]
        push_cast
        omega
      · rw [noMore]
        exact summary.inputRows
      · rw [noMore]
        exact summary.valueInputRows
      · rw [noMore]
        exact summary.hasValue
      · rw [noMore]
        exact summary.value has
  | some value =>
      have more := fun values => known_append_replicate_some values value multiplicity
      have inputs := bound.inputRows
      rw [more, List.length_append, List.length_replicate] at inputs
      push_cast at inputs
      have total : (known group ++ List.replicate multiplicity value).sum =
          (known group).sum + value * multiplicity := by
        rw [List.sum_append, sum_replicate_int]
      dsimp only
      rw [addCountResult_eq (by rw [summary.inputRows]; omega) (by rw [summary.inputRows]; omega)
        (Int.natCast_nonneg _), checked_ok (by rw [summary.inputRows]; omega)
        (by rw [summary.inputRows]; omega), ok_then,
        addCountResult_eq (by rw [summary.valueInputRows]; omega)
        (by rw [summary.valueInputRows]; omega) (Int.natCast_nonneg _),
        checked_ok (by rw [summary.valueInputRows]; omega)
        (by rw [summary.valueInputRows]; omega), ok_then]
      cases aggregate with
      | sum =>
          have values := nonneg rfl
          rw [more] at values
          have positiveValue := values value (List.mem_append_right _ (by simp [positive.ne']))
          have earlier := fun number inside => values number (List.mem_append_left _ inside)
          rcases @addSumValue_spec group { state with
            inputRows := state.inputRows + multiplicity
            valueInputRows := state.valueInputRows + multiplicity } summary.hasValue summary.value
            value earlier positiveValue multiplicity positive with ⟨added, fits⟩ | ⟨failed, large⟩
          · refine .inl ⟨_, added, summary.count positive rfl rfl rfl rfl rfl, fun _ => ?_⟩
            rw [more, total]
            exact fits
          · refine .inr ⟨rfl, failed, ?_⟩
            rw [more, total]
            exact large
      | avg =>
          have added := @addAvgValue_eq group { state with
            inputRows := state.inputRows + multiplicity
            valueInputRows := state.valueInputRows + multiplicity } summary.hasValue summary.value
            value multiplicity positive
          exact .inl ⟨_, congrArg Except.ok added, summary.count positive rfl rfl rfl rfl rfl, nofun⟩
      | min =>
          obtain ⟨least, added, extreme⟩ := @addMinmaxValue_min group { state with
            inputRows := state.inputRows + multiplicity
            valueInputRows := state.valueInputRows + multiplicity } summary.hasValue summary.value
            value
          exact .inl ⟨_, congrArg Except.ok added, summary.count positive rfl rfl rfl rfl extreme, nofun⟩
      | max =>
          obtain ⟨most, added, extreme⟩ := @addMinmaxValue_max group { state with
            inputRows := state.inputRows + multiplicity
            valueInputRows := state.valueInputRows + multiplicity } summary.hasValue summary.value
            value
          exact .inl ⟨_, congrArg Except.ok added, summary.count positive rfl rfl rfl rfl extreme, nofun⟩

/-- A loop of rows adds the values that it stands for. -/
theorem addPropertyRows_spec (adds : List (Option Int × Nat))
    (summary : state.Summarizes aggregate all group)
    (smaller : (known group).length ≤ (known all).length) (bound : RowsFit (all ++ expand adds))
    (small : aggregate = .sum → (known group).sum < 2 ^ 63)
    (nonneg : SumNonneg aggregate (group ++ expand adds)) :
    Added aggregate (all ++ expand adds) (group ++ expand adds)
      (adds.foldlM (fun state add => addPropertyRow aggregate state add.1 add.2) state) := by
  induction adds generalizing all group state with
  | nil =>
      exact .inl ⟨state, rfl, by simpa [expand] using summary, by simpa [expand] using small⟩
  | cons add rest inductionHypothesis =>
      have split (values : List (Option Int)) : values ++ expand (add :: rest) =
          (values ++ List.replicate add.2 add.1) ++ expand rest := by
        simp [expand]
      rw [split] at bound nonneg
      rw [split, split, List.foldlM_cons]
      have first := addPropertyRow_spec summary smaller add.1 add.2 bound.left small
        fun isSum value inside => nonneg isSum value (by
          rw [known_append]
          exact List.mem_append_left _ inside)
      rcases first with ⟨next, added, summary', small'⟩ | ⟨isSum, failed, large⟩
      · rw [added, ok_then]
        refine inductionHypothesis summary' ?_ bound small' nonneg
        rw [known_append, known_append, List.length_append, List.length_append]
        exact Nat.add_le_add_right smaller _
      · rw [failed, error_then]
        refine .inr ⟨isSum, rfl, large.trans ?_⟩
        rw [known_append (group ++ List.replicate add.2 add.1), List.sum_append]
        exact le_add_of_nonneg_right (List.sum_nonneg fun value inside => nonneg isSum value (by
          rw [known_append]
          exact List.mem_append_right _ inside))

end Adding

section Counting

variable {aggregate : PropertyAggregate} {all : List (Option Int)} {state next : PropertyState}

/-- The counters count the values, and have 64 bits. -/
structure PropertyState.Counts (all : List (Option Int)) (state : PropertyState) : Prop where
  nullRows : state.nullRows = all.length - (known all).length
  inputRows : state.inputRows = (known all).length
  fit : RowsFit all

theorem PropertyState.Counts.start : PropertyState.initial.Counts [] :=
  ⟨rfl, rfl, ⟨by decide, by decide⟩⟩

theorem PropertyState.Counts.reset (counts : state.Counts all) : state.reset.Counts all :=
  ⟨counts.nullRows, counts.inputRows, counts.fit⟩

theorem PropertyState.Counts.perm {all' : List (Option Int)} (counts : state.Counts all)
    (perm : all.Perm all') : state.Counts all' := by
  have same : (known all).Perm (known all') := perm.filterMap _
  refine ⟨?_, ?_, counts.fit.perm perm⟩
  · rw [counts.nullRows, perm.length_eq, same.length_eq]
  · rw [counts.inputRows, same.length_eq]

/-- A value that is added moves no counter. -/
theorem addSumValue_counters {value multiplicity : Int}
    (added : addSumValue state value multiplicity = .ok next) :
    next.nullRows = state.nullRows ∧ next.inputRows = state.inputRows := by
  unfold addSumValue at added
  by_cases none : multiplicity ≤ 0
  · rw [if_pos none] at added
    cases added
    exact ⟨rfl, rfl⟩
  · rw [if_neg none] at added
    cases isProduct : checkedProduct value multiplicity with
    | error error =>
        rw [isProduct, error_then] at added
        cases added
    | ok addend =>
        rw [isProduct, ok_then] at added
        split_ifs at added with has
        · cases added
          exact ⟨rfl, rfl⟩
        · cases isSum : checkedSum state.sum addend with
          | error error =>
              rw [isSum, error_then] at added
              cases added
          | ok sum =>
              rw [isSum, ok_then] at added
              cases added
              exact ⟨rfl, rfl⟩

theorem addAvgValue_counters (state : PropertyState) (value multiplicity : Int) :
    (addAvgValue state value multiplicity).nullRows = state.nullRows ∧
      (addAvgValue state value multiplicity).inputRows = state.inputRows := by
  unfold addAvgValue
  split_ifs <;> exact ⟨rfl, rfl⟩

theorem addMinmaxValue_counters (isMax : Bool) (state : PropertyState) (value : Int) :
    (addMinmaxValue isMax state value).nullRows = state.nullRows ∧
      (addMinmaxValue isMax state value).inputRows = state.inputRows := by
  unfold addMinmaxValue
  split_ifs <;> exact ⟨rfl, rfl⟩

/-- A row that is added without an error is counted. -/
theorem addPropertyRow_counts (counts : state.Counts all) {value : Option Int} {multiplicity : Nat}
    (added : addPropertyRow aggregate state value multiplicity = .ok next) :
    next.Counts (all ++ List.replicate multiplicity value) := by
  unfold addPropertyRow at added
  rcases Nat.eq_zero_or_pos multiplicity with rfl | positive
  · rw [if_pos (by simp)] at added
    cases added
    simpa using counts
  rw [if_neg (by omega)] at added
  have fewer := length_known_le all
  have inputBound := counts.fit.inputRows
  have nullBound := counts.fit.nullRows
  have lengths : ((all ++ List.replicate multiplicity value).length : Int) =
      all.length + multiplicity := by simp
  cases value with
  | none =>
      have noMore : known (all ++ List.replicate multiplicity none) = known all := by
        rw [known_append, known_replicate_none, List.append_nil]
      dsimp only at added
      rw [counts.nullRows, addCountResult_eq (by omega) nullBound (Int.natCast_nonneg _)] at added
      by_cases fits : (all.length : Int) - (known all).length + multiplicity < 2 ^ 63
      · rw [checked_ok (by omega) fits, ok_then] at added
        cases added
        refine ⟨?_, ?_, ?_, ?_⟩
        · rw [lengths, noMore]
          dsimp only
          omega
        · rw [noMore]
          exact counts.inputRows
        · rw [noMore]
          exact inputBound
        · rw [lengths, noMore]
          omega
      · rw [checked_error (by omega), error_then] at added
        cases added
  | some value =>
      have more : ((known (all ++ List.replicate multiplicity (some value))).length : Int) =
          (known all).length + multiplicity := by
        rw [known_append, known_replicate_some]
        simp
      dsimp only at added
      rw [counts.inputRows, addCountResult_eq (Int.natCast_nonneg _) inputBound
        (Int.natCast_nonneg _)] at added
      by_cases fits : ((known all).length : Int) + multiplicity < 2 ^ 63
      · rw [checked_ok (by omega) fits, ok_then] at added
        cases isCount : addCountResult state.valueInputRows multiplicity with
        | error error =>
            rw [isCount, error_then] at added
            cases added
        | ok valueInputRows =>
            rw [isCount, ok_then] at added
            have same : next.nullRows = state.nullRows ∧
                next.inputRows = (known all).length + multiplicity := by
              cases aggregate with
              | sum => exact addSumValue_counters added
              | avg =>
                  cases added
                  exact addAvgValue_counters _ _ _
              | min =>
                  cases added
                  exact addMinmaxValue_counters _ _ _
              | max =>
                  cases added
                  exact addMinmaxValue_counters _ _ _
            refine ⟨?_, same.2.trans more.symm, ?_, ?_⟩
            · rw [same.1, counts.nullRows, lengths, more]
              omega
            · rw [more]
              exact fits
            · rw [lengths, more]
              omega
      · rw [checked_error (by omega), error_then] at added
        cases added

theorem addPropertyRows_counts (adds : List (Option Int × Nat)) (counts : state.Counts all)
    (added : adds.foldlM (fun state add => addPropertyRow aggregate state add.1 add.2) state =
      .ok next) : next.Counts (all ++ expand adds) := by
  induction adds generalizing all state with
  | nil =>
      cases added
      simpa [expand] using counts
  | cons add rest inductionHypothesis =>
      have split : all ++ expand (add :: rest) =
          (all ++ List.replicate add.2 add.1) ++ expand rest := by
        simp [expand]
      rw [List.foldlM_cons] at added
      cases isRow : addPropertyRow aggregate state add.1 add.2 with
      | error error =>
          rw [isRow, error_then] at added
          cases added
      | ok between =>
          rw [isRow, ok_then] at added
          rw [split]
          exact inductionHypothesis (addPropertyRow_counts counts isRow) added

end Counting

section Binding

variable {groups : UniquenessGroups} {binding : ReadyBinding} {valueOf : GenericRow → Option Int}
  {sumIndex : Nat} {aggregate : PropertyAggregate} {all group : List (Option Int)}
  {state : PropertyState}

/-- The value of the property in a combination -/
def combinationValue (valueOf : GenericRow → Option Int) (sumIndex : Nat)
    (rows : List GenericRow) : Option Int := rows[sumIndex]?.bind valueOf

theorem flatMap_replicate_map {α β : Type} (list : List α) (count : Nat) (value : α → β) :
    (list.map fun entry => (value entry, count)).flatMap (fun add => List.replicate add.2 add.1) =
      list.flatMap fun entry => List.replicate count (value entry) := by
  rw [List.flatMap_map]

/-- The rows of the bag, each as often as the other bags allow, have the values of all choices. -/
theorem expand_product (inRange : sumIndex < binding.bags.length) :
    (expand ((binding.bags[sumIndex]?.getD []).map fun row =>
      (valueOf row, sizeProduct (binding.bags.eraseIdx sumIndex)))).Perm
        (binding.bags.sections.map (combinationValue valueOf sumIndex)) := by
  have entries := (sections_entry_perm binding.bags inRange).map fun row => row.bind valueOf
  rw [List.map_map, List.map_flatMap] at entries
  refine List.Perm.trans (.of_eq ?_) entries.symm
  rw [expand, flatMap_replicate_map]
  exact List.flatMap_congr fun row _ => by simp

theorem sizeProduct_eraseIdx (inRange : sumIndex < binding.bags.length) :
    sizeProduct binding.bags =
      (binding.bags[sumIndex]?.getD []).length * sizeProduct (binding.bags.eraseIdx sumIndex) := by
  have lengths := (sections_entry_perm binding.bags inRange).length_eq
  rw [List.length_map, length_sections, List.length_flatMap] at lengths
  simpa [Nat.mul_comm] using lengths

/-- The numbers of the rows in the combinations, counted for each row of the bag -/
theorem expand_numbered (right : binding.Right groups) (inRange : sumIndex < binding.bags.length) :
    (expand (((binding.bags[sumIndex]?.getD []).zip
      ((List.range (binding.bags[sumIndex]?.getD []).length).map fun number =>
        (binding.numbered.filter fun chosen => chosen[sumIndex]? = some number).length)).map
          fun entry => (valueOf entry.1, entry.2))).Perm
      (binding.combinations.map (combinationValue valueOf sumIndex)) := by
  obtain ⟨choices, numbers, combinations, sound⟩ := @bagNumbers_combinations groups binding.bags
  -- A combination has the value of the row with its number.
  have values : binding.combinations.map (combinationValue valueOf sumIndex) =
      binding.numbered.map fun chosen => chosen[sumIndex]?.bind fun number =>
        (binding.bags[sumIndex]?.getD [])[number]?.bind valueOf := by
    rw [right.combinations, right.numbered, numbers, combinations, List.map_map, List.map_map]
    refine List.map_congr_left fun chosen inside => ?_
    obtain ⟨length, inBags⟩ := sound chosen inside
    obtain ⟨number, isNumber, -, isRow⟩ := arrange_numbered length inBags inRange
    simp only [Function.comp_apply, combinationValue, isRow, isNumber, Option.bind_some]
  have total : ∀ chosen ∈ binding.numbered, ∃ number < (binding.bags[sumIndex]?.getD []).length,
      chosen[sumIndex]? = some number := by
    intro chosen inside
    rw [right.numbered, numbers] at inside
    obtain ⟨choice, isChoice, rfl⟩ := List.mem_map.1 inside
    obtain ⟨length, inBags⟩ := sound choice isChoice
    obtain ⟨number, isNumber, inBag, -⟩ := arrange_numbered length inBags inRange
    exact ⟨number, inBag, isNumber⟩
  rw [values]
  generalize binding.bags[sumIndex]?.getD [] = bag at total ⊢
  have grouped := flatMap_filter_perm (List.range bag.length) List.nodup_range binding.numbered
    (fun number chosen => decide (chosen[sumIndex]? = some number)) (by
      intro chosen _ first _ second _ isFirst isSecond
      rw [decide_eq_true_eq] at isFirst isSecond
      exact Option.some.inj (isFirst.symm.trans isSecond))
  have everyone : (binding.numbered.filter fun chosen => (List.range bag.length).any fun number =>
      decide (chosen[sumIndex]? = some number)) = binding.numbered := by
    refine List.filter_eq_self.2 fun chosen inside => ?_
    obtain ⟨number, inBag, isNumber⟩ := total chosen inside
    exact List.any_eq_true.2 ⟨number, List.mem_range.2 inBag, decide_eq_true isNumber⟩
  rw [everyone] at grouped
  refine List.Perm.trans (.of_eq ?_) (grouped.map _)
  rw [List.map_flatMap]
  have adds : ((bag.zip ((List.range bag.length).map fun number =>
      (binding.numbered.filter fun chosen => chosen[sumIndex]? = some number).length)).map
        fun entry => (valueOf entry.1, entry.2)) =
      (List.range bag.length).map fun number => (bag[number]?.bind valueOf,
        (binding.numbered.filter fun chosen => chosen[sumIndex]? = some number).length) := by
    refine List.ext_getElem (by simp) fun index inFirst inSecond => ?_
    have inBag : index < bag.length := by simpa using inSecond
    simp [List.getElem?_eq_getElem inBag]
  rw [adds, expand, List.flatMap_map]
  refine List.flatMap_congr fun number _ => ?_
  refine (List.eq_replicate_iff.2 ⟨by simp, fun value inside => ?_⟩).symm
  obtain ⟨chosen, isChosen, rfl⟩ := List.mem_map.1 inside
  have isNumber := of_decide_eq_true (List.mem_filter.1 isChosen).2
  simp [isNumber]

theorem Added.perm {all' group' : List (Option Int)} {result : Except ConsumerError PropertyState}
    (added : Added aggregate all group result) (permAll : all.Perm all')
    (permGroup : group.Perm group') : Added aggregate all' group' result := by
  have groupKnown : (known group).Perm (known group') := permGroup.filterMap _
  rcases added with ⟨state, isOk, summary, small⟩ | ⟨isSum, failed, large⟩
  · exact .inl ⟨state, isOk, summary.perm permAll permGroup, groupKnown.sum_eq ▸ small⟩
  · exact .inr ⟨isSum, failed, groupKnown.sum_eq ▸ large⟩

theorem SumNonneg.perm {values values' : List (Option Int)} (nonneg : SumNonneg aggregate values)
    (perm : values.Perm values') : SumNonneg aggregate values' :=
  fun isSum value inside => nonneg isSum value ((perm.filterMap id).mem_iff.2 inside)

theorem mapM_ok {α β : Type} {list : List α} {run : α → Except ConsumerError β} {value : α → β}
    (runs : ∀ entry ∈ list, run entry = .ok (value entry)) :
    list.mapM run = .ok (list.map value) := by
  induction list with
  | nil => rfl
  | cons entry rest inductionHypothesis =>
      rw [List.mapM_cons, runs entry List.mem_cons_self, ok_then,
        inductionHypothesis fun other isOther => runs other (List.mem_cons_of_mem entry isOther)]
      rfl

theorem rowMultiplicities_eq (bag : List GenericRow) {numbered : List (List Nat)}
    (fits : (numbered.length : Int) < 2 ^ 63) :
    rowMultiplicities sumIndex bag numbered = .ok ((List.range bag.length).map fun number =>
      ((numbered.filter fun chosen => chosen[sumIndex]? = some number).length : Int)) := by
  unfold rowMultiplicities
  rw [countEach_eq _ le_rfl (by decide), Int.zero_add, checked_ok (Int.natCast_nonneg _) fits,
    ok_then]
  refine mapM_ok fun number _ => ?_
  have fewer := List.length_filter_le (fun chosen => decide (chosen[sumIndex]? = some number))
    numbered
  rw [countEach_eq _ le_rfl (by decide), Int.zero_add,
    checked_ok (Int.natCast_nonneg _) (by omega)]

theorem counts_cast (numbers : List Nat) (count : Nat → Nat) :
    (numbers.map fun number => (count number : Int)) = (numbers.map count).map Nat.cast := by
  rw [List.map_map]
  rfl

/-- The product of the sizes of the bags has 64 bits where a property is multiplied with it. -/
def ReadyBinding.ProductFits (groups : UniquenessGroups) (binding : ReadyBinding) : Prop :=
  uniquenessMayReject groups binding.bags.length = false →
    (sizeProduct binding.bags : Int) < 2 ^ 63

theorem productWithinLimit_le {limit : Nat} {bags : List (List GenericRow)} {product result : Nat}
    (within : productWithinLimit limit bags product = some result) (small : product ≤ limit) :
    product * sizeProduct bags ≤ limit := by
  induction bags generalizing product with
  | nil => simpa [sizeProduct] using small
  | cons bag rest inductionHypothesis =>
      unfold productWithinLimit at within
      split_ifs at within with empty over_
      rw [not_or, not_lt, not_lt] at over_
      have next := inductionHypothesis within (Nat.mul_le_of_le_div _ _ _ over_.2)
      rwa [Nat.mul_assoc] at next

theorem sizeProduct_small {bags : List (List GenericRow)} (small : isSmallBinding bags = true) :
    sizeProduct bags ≤ smallBagEnumeratorLimit := by
  obtain ⟨result, within⟩ := Option.isSome_iff_exists.1 small
  have bounded := productWithinLimit_le within (by decide)
  rwa [Nat.one_mul] at bounded

theorem ReadyBinding.Right.numbered_fits (right : binding.Right groups)
    (small : isSmallBinding binding.bags = true) : (binding.numbered.length : Int) < 2 ^ 63 := by
  have few := right.length_numbered.trans_le (right.length_le.trans (sizeProduct_small small))
  exact (Int.ofNat_le.2 few).trans_lt (by decide)

/-- Whatever path a binding takes, it adds the values of its combinations. -/
theorem addActiveBinding_spec (right : binding.Right groups)
    (inRange : sumIndex < binding.bags.length) (fits : binding.ProductFits groups)
    (summary : state.Summarizes aggregate all group)
    (smaller : (known group).length ≤ (known all).length)
    (bound : RowsFit (all ++ binding.combinations.map (combinationValue valueOf sumIndex)))
    (small : aggregate = .sum → (known group).sum < 2 ^ 63)
    (nonneg : SumNonneg aggregate
      (group ++ binding.combinations.map (combinationValue valueOf sumIndex))) :
    Added aggregate (all ++ binding.combinations.map (combinationValue valueOf sumIndex))
      (group ++ binding.combinations.map (combinationValue valueOf sumIndex))
      (addActiveBinding groups valueOf sumIndex aggregate binding state) := by
  -- Rows that stand for the values of the combinations are added as they are.
  have loop {adds : List (Option Int × Nat)} (perm : (expand adds).Perm
      (binding.combinations.map (combinationValue valueOf sumIndex))) :
      Added aggregate (all ++ binding.combinations.map (combinationValue valueOf sumIndex))
        (group ++ binding.combinations.map (combinationValue valueOf sumIndex))
        (adds.foldlM (fun state add => addPropertyRow aggregate state add.1 add.2) state) := by
    refine (addPropertyRows_spec adds summary smaller ?_ small ?_).perm (perm.append_left _)
      (perm.append_left _)
    · exact bound.perm (perm.symm.append_left _)
    · exact nonneg.perm (perm.symm.append_left _)
  unfold addActiveBinding
  dsimp only
  split_ifs with never few_
  · have safe := activeBindingMayReject_of_not (by simpa using never)
    have bag : binding.bags[sumIndex]?.getD [] ≠ [] := by
      rw [List.getElem?_eq_getElem inRange]
      exact right.full _ (List.getElem_mem inRange)
    have product := sizeProduct_eraseIdx inRange
    have others : sizeProduct (binding.bags.eraseIdx sumIndex) ≤ sizeProduct binding.bags := by
      rw [product]
      exact Nat.le_mul_of_pos_left _ (List.length_pos_iff.2 bag)
    have fitting := fits (by simpa using never)
    rw [countBindingProduct_checked right.full, checked_ok (Int.natCast_nonneg _) (by omega),
      ok_then, foldlM_product (fun other isOther => right.full other
        (List.mem_of_mem_eraseIdx isOther)) Int.one_pos (by decide), Int.one_mul,
      checked_ok (Int.natCast_nonneg _) (by omega), ok_then]
    have perm := (@expand_product binding valueOf sumIndex inRange).trans
      ((right.perm_sections safe).map _).symm
    have ran := loop perm
    rwa [List.foldlM_map] at ran
  · rw [rowMultiplicities_eq _ (right.numbered_fits (Bool.and_eq_true_iff.1 few_).2), ok_then]
    have ran := loop (expand_numbered right inRange)
    rw [List.foldlM_map] at ran
    rw [counts_cast, List.zip_map_right, List.foldlM_map]
    exact ran
  · have ran := @loop (binding.combinations.map fun rows =>
      (combinationValue valueOf sumIndex rows, 1)) (.of_eq (by
        rw [expand, List.flatMap_map, List.map_eq_flatMap]
        rfl))
    rw [List.foldlM_map] at ran
    exact ran

/-- A binding that is added without an error has its product and its rows counted. -/
theorem addActiveBinding_counts (right : binding.Right groups)
    (inRange : sumIndex < binding.bags.length) {next : PropertyState} (counts : state.Counts all)
    (added : addActiveBinding groups valueOf sumIndex aggregate binding state = .ok next) :
    next.Counts (all ++ binding.combinations.map (combinationValue valueOf sumIndex)) ∧
      binding.ProductFits groups := by
  unfold addActiveBinding at added
  dsimp only at added
  split_ifs at added with never few_
  · have safe := activeBindingMayReject_of_not (by simpa using never)
    have perm := (@expand_product binding valueOf sumIndex inRange).trans
      ((right.perm_sections safe).map _).symm
    rw [countBindingProduct_checked right.full] at added
    by_cases fits : (sizeProduct binding.bags : Int) < 2 ^ 63
    · rw [checked_ok (Int.natCast_nonneg _) fits, ok_then, foldlM_product (fun other isOther =>
        right.full other (List.mem_of_mem_eraseIdx isOther)) Int.one_pos (by decide),
        Int.one_mul] at added
      by_cases others : (sizeProduct (binding.bags.eraseIdx sumIndex) : Int) < 2 ^ 63
      · rw [checked_ok (Int.natCast_nonneg _) others, ok_then] at added
        refine ⟨?_, fun _ => fits⟩
        have counted := @addPropertyRows_counts aggregate all state next
          ((binding.bags[sumIndex]?.getD []).map fun row =>
            (valueOf row, sizeProduct (binding.bags.eraseIdx sumIndex))) counts
        rw [List.foldlM_map] at counted
        exact (counted added).perm (perm.append_left _)
      · rw [checked_error (by omega), error_then] at added
        cases added
    · rw [checked_error (by omega), error_then] at added
      cases added
  · have small := right.numbered_fits (Bool.and_eq_true_iff.1 few_).2
    rw [rowMultiplicities_eq _ small, ok_then, counts_cast, List.zip_map_right,
      List.foldlM_map] at added
    have perm := @expand_numbered groups binding valueOf sumIndex right inRange
    refine ⟨?_, fun never' => absurd never' (by simpa using never)⟩
    have counted := @addPropertyRows_counts aggregate all state next
      (((binding.bags[sumIndex]?.getD []).zip
        ((List.range (binding.bags[sumIndex]?.getD []).length).map fun number =>
          (binding.numbered.filter fun chosen => chosen[sumIndex]? = some number).length)).map
            fun entry => (valueOf entry.1, entry.2)) counts
    rw [List.foldlM_map] at counted
    exact (counted added).perm (perm.append_left _)
  · refine ⟨?_, fun never' => absurd never' (by simpa using never)⟩
    have counted := @addPropertyRows_counts aggregate all state next
      (binding.combinations.map fun rows => (combinationValue valueOf sumIndex rows, 1)) counts
    rw [List.foldlM_map] at counted
    refine (counted added).perm (.of_eq ?_)
    rw [expand, List.flatMap_map, List.map_eq_flatMap]
    rfl

section Negative

theorem foldlM_error {α β : Type} {step : β → α → Except ConsumerError β} {list : List α}
    (fails : ∃ entry ∈ list, ∀ state, step state entry = .error .bigintOutOfRange) (state : β) :
    list.foldlM step state = .error .bigintOutOfRange := by
  induction list generalizing state with
  | nil =>
      obtain ⟨entry, inside, -⟩ := fails
      cases inside
  | cons first rest inductionHypothesis =>
      rw [List.foldlM_cons]
      obtain ⟨entry, inside, failsAt⟩ := fails
      rcases List.mem_cons.1 inside with rfl | inRest
      · rw [failsAt, error_then]
      · cases step state first with
        | error error => rfl
        | ok next => exact inductionHypothesis ⟨entry, inRest, failsAt⟩ next

theorem addPropertyRow_negative {value multiplicity : Int} (negative : value < 0)
    (positive : 0 < multiplicity) (state : PropertyState) :
    addPropertyRow .sum state (some value) multiplicity = .error .bigintOutOfRange := by
  unfold addPropertyRow
  rw [if_neg (by omega)]
  dsimp only
  cases addCountResult state.inputRows multiplicity with
  | error error => rfl
  | ok inputRows =>
      rw [ok_then]
      cases addCountResult state.valueInputRows multiplicity with
      | error error => rfl
      | ok valueInputRows =>
          rw [ok_then, addSumValue, if_neg (by omega), checkedProduct, if_pos (.inl negative)]
          rfl

theorem addPropertyRows_negative {adds : List (Option Int × Nat)} {value : Int}
    (negative : value < 0) (inside : some value ∈ expand adds) (state : PropertyState) :
    adds.foldlM (fun state add => addPropertyRow .sum state add.1 add.2) state =
      .error .bigintOutOfRange := by
  obtain ⟨add, isAdd, isValue⟩ := List.mem_flatMap.1 inside
  obtain ⟨positive, same⟩ := List.mem_replicate.1 isValue
  exact foldlM_error ⟨add, isAdd, fun state => by
    rw [← same]
    exact addPropertyRow_negative negative (by omega) state⟩ state

/-- A sum takes no negative value, whatever its multiplicity. -/
theorem addActiveBinding_negative (right : binding.Right groups)
    (inRange : sumIndex < binding.bags.length) {rows : List GenericRow}
    (isRow : rows ∈ binding.combinations) {value : Int}
    (isValue : combinationValue valueOf sumIndex rows = some value) (negative : value < 0)
    (state : PropertyState) :
    addActiveBinding groups valueOf sumIndex .sum binding state = .error .bigintOutOfRange := by
  have inValues : some value ∈ binding.combinations.map (combinationValue valueOf sumIndex) :=
    List.mem_map.2 ⟨rows, isRow, isValue⟩
  unfold addActiveBinding
  dsimp only
  split_ifs with never few_
  · have safe := activeBindingMayReject_of_not (by simpa using never)
    have perm := (@expand_product binding valueOf sumIndex inRange).trans
      ((right.perm_sections safe).map _).symm
    have ran := addPropertyRows_negative negative (perm.mem_iff.2 inValues) state
    rw [List.foldlM_map] at ran
    cases countBindingProduct binding.bags 1 with
    | error error => rfl
    | ok product =>
        rw [ok_then, foldlM_product (fun other isOther => right.full other
          (List.mem_of_mem_eraseIdx isOther)) Int.one_pos (by decide), Int.one_mul]
        by_cases fits : (sizeProduct (binding.bags.eraseIdx sumIndex) : Int) < 2 ^ 63
        · rw [checked_ok (Int.natCast_nonneg _) fits, ok_then]
          exact ran
        · rw [checked_error (by omega), error_then]
  · have ran := addPropertyRows_negative negative
      ((@expand_numbered groups binding valueOf sumIndex right inRange).mem_iff.2 inValues) state
    rw [List.foldlM_map] at ran
    by_cases fits : (binding.numbered.length : Int) < 2 ^ 63
    · rw [rowMultiplicities_eq _ fits, ok_then]
      rw [counts_cast, List.zip_map_right, List.foldlM_map]
      exact ran
    · unfold rowMultiplicities
      rw [countEach_eq _ le_rfl (by decide), Int.zero_add, checked_error (by omega), error_then]
      rfl
  · exact foldlM_error ⟨rows, isRow, fun state => by
      change addPropertyRow .sum state (combinationValue valueOf sumIndex rows) 1 = _
      rw [isValue]
      exact addPropertyRow_negative negative Int.one_pos state⟩ state

end Negative

end Binding

end Age.Executor.GenericJoin
