import Mathlib.Data.List.TakeWhile
import Mathlib.Data.List.Sort
import Mathlib.Tactic.SplitIfs

/-!
# Sorted lists of keys

Bisection and galloping find where the keys below a target end. Two strictly sorted lists are
intersected by galloping the longer one or by a merge, and each way keeps the keys of the
first list that the second one has.
-/

namespace Age.SortedKeys

section Bounds

variable {below : Nat → Bool} {bound : Nat}

/-- The halving loop between `low` and `high`. -/
def bisect (below : Nat → Bool) : Nat → Nat → Nat → Nat
  | 0, low, _ => low
  | fuel + 1, low, high =>
      if low < high then
        let middle := low + (high - low) / 2
        if below middle then bisect below fuel (middle + 1) high
        else bisect below fuel low middle
      else low

/-- The doubling loop from `start`, over the `span` places that are left. -/
def gallop (below : Nat → Bool) (start span : Nat) : Nat → Nat → Nat
  | 0, reach => reach
  | fuel + 1, reach =>
      if reach < span then
        if !below (start + reach) then reach
        else if span / 2 < reach then span
        else gallop below start span fuel (reach * 2)
      else reach

/-- Doubling, then halving what the last doubling left. -/
def gallopingBound (below : Nat → Bool) (start count : Nat) : Nat :=
  if count ≤ start then count
  else if !below start then start
  else
    let reach := gallop below start (count - start) (count - start) 1
    bisect below count (start + reach / 2 + 1) (min (start + reach + 1) count)

/-- The places below are those before `bound`. -/
def IsBound (below : Nat → Bool) (bound : Nat) : Prop :=
  ∀ place, below place = true ↔ place < bound

theorem bisect_eq (isBound : IsBound below bound) {fuel low high : Nat} (lower : low ≤ bound)
    (upper : bound ≤ high) (enough : high - low ≤ fuel) :
    bisect below fuel low high = bound := by
  induction fuel generalizing low high with
  | zero => rw [bisect]; omega
  | succ fuel ih =>
      rw [bisect]
      split_ifs with inside
      · dsimp only
        have middleBelow := isBound (low + (high - low) / 2)
        split_ifs with isBelow
        · exact ih (middleBelow.1 isBelow) upper (by omega)
        · have notBelow := mt middleBelow.2 isBelow
          exact ih lower (by omega) (by omega)
      · omega

theorem gallop_spec (isBound : IsBound below bound) {start span fuel reach : Nat}
    (upper : bound ≤ start + span) (positive : 0 < reach) (lower : start + reach / 2 < bound)
    (enough : span ≤ fuel + reach) :
    start + gallop below start span fuel reach / 2 < bound ∧
      bound ≤ start + gallop below start span fuel reach := by
  induction fuel generalizing reach with
  | zero => rw [gallop]; omega
  | succ fuel ih =>
      rw [gallop]
      have reachBelow := isBound (start + reach)
      split_ifs with inside notBelow halfway
      · refine ⟨lower, ?_⟩
        rw [Bool.not_eq_true'] at notBelow
        have outside := mt reachBelow.2 (by simp [notBelow])
        omega
      · have isBelow := reachBelow.1 (by simpa using notBelow)
        omega
      · have isBelow := reachBelow.1 (by simpa using notBelow)
        exact ih (by omega) (by omega) (by omega)
      · omega

theorem gallopingBound_eq (isBound : IsBound below bound) {start count : Nat}
    (lower : start ≤ bound) (upper : bound ≤ count) :
    gallopingBound below start count = bound := by
  rw [gallopingBound]
  have startBelow := isBound start
  split_ifs with outside notBelow
  · omega
  · rw [Bool.not_eq_true'] at notBelow
    have atBound := mt startBelow.2 (by simp [notBelow])
    omega
  · have isBelow := startBelow.1 (by simpa using notBelow)
    obtain ⟨after, before⟩ := @gallop_spec below bound isBound start (count - start)
      (count - start) 1 (by omega) Nat.one_pos (by omega) (by omega)
    exact bisect_eq isBound (by omega) (by omega) (by omega)

/-- Only the places from `low` on are read. -/
theorem bisect_congr {other : Nat → Bool} {start fuel low high : Nat}
    (same : ∀ place, start ≤ place → below place = other place) (lower : start ≤ low) :
    bisect below fuel low high = bisect other fuel low high := by
  induction fuel generalizing low high with
  | zero => rfl
  | succ fuel inductionHypothesis =>
      have middle := same (low + (high - low) / 2) (by omega)
      rw [bisect, bisect]
      dsimp only
      rw [middle, inductionHypothesis (by omega), inductionHypothesis lower]

theorem gallop_congr {other : Nat → Bool} {start span fuel reach : Nat}
    (same : ∀ place, start ≤ place → below place = other place) :
    gallop below start span fuel reach = gallop other start span fuel reach := by
  induction fuel generalizing reach with
  | zero => rfl
  | succ fuel inductionHypothesis =>
      rw [gallop, gallop, same _ (Nat.le_add_right start reach), inductionHypothesis]

/-- Only the places from `start` on are read. -/
theorem gallopingBound_congr {other : Nat → Bool} {start count : Nat}
    (same : ∀ place, start ≤ place → below place = other place) :
    gallopingBound below start count = gallopingBound other start count := by
  rw [gallopingBound, gallopingBound, same start (Nat.le_refl start), gallop_congr same]
  dsimp only
  rw [bisect_congr same (by omega)]

/-- What is below before `start` does not count. -/
theorem gallopingBound_eq_from {start count : Nat}
    (isBound : ∀ place, start ≤ place → (below place = true ↔ place < bound))
    (lower : start ≤ bound) (upper : bound ≤ count) :
    gallopingBound below start count = bound := by
  have same : ∀ place, start ≤ place → below place = decide (place < bound) := by
    intro place isFrom
    rw [Bool.eq_iff_iff, decide_eq_true_eq]
    exact isBound place isFrom
  rw [gallopingBound_congr same]
  exact gallopingBound_eq (fun place => decide_eq_true_iff) lower upper

theorem le_bisect {fuel low high : Nat} : low ≤ bisect below fuel low high := by
  induction fuel generalizing low high with
  | zero => exact Nat.le_refl low
  | succ fuel inductionHypothesis =>
      rw [bisect]
      dsimp only
      split_ifs with inside isBelow
      · apply Nat.le_trans _ inductionHypothesis
        omega
      · exact inductionHypothesis
      · exact Nat.le_refl low

theorem le_gallopingBound {start count : Nat} (inside : start ≤ count) :
    start ≤ gallopingBound below start count := by
  rw [gallopingBound]
  split_ifs with outside notBelow
  · exact inside
  · exact Nat.le_refl start
  · dsimp only
    apply Nat.le_trans _ le_bisect
    omega

end Bounds

variable {α : Type} [LinearOrder α] {keys left right : List α} {key : α}

section Places

/-- The key at `place` is below `key`. -/
def before (keys : List α) (key : α) (place : Nat) : Bool :=
  match keys[place]? with
  | some found => found < key
  | none => false

/-- The number of leading keys below `key` -/
def lowerBound (keys : List α) (key : α) : Nat := (keys.takeWhile (· < key)).length

theorem isBound_lowerBound (sorted : keys.Pairwise (· ≤ ·)) :
    IsBound (before keys key) (lowerBound keys key) := by
  induction keys with
  | nil => intro place; simp [before, lowerBound]
  | cons first rest ih =>
      rw [List.pairwise_cons] at sorted
      intro place
      by_cases isBelow : first < key
      · cases place with
        | zero => simp [before, lowerBound, isBelow]
        | succ place =>
            have := ih sorted.2 place
            simpa [before, lowerBound, isBelow] using this
      · have none : lowerBound (first :: rest) key = 0 := by simp [lowerBound, isBelow]
        rw [none]
        cases place with
        | zero => simp [before, isBelow]
        | succ place =>
            simp only [before, List.getElem?_cons_succ, Nat.not_lt_zero, iff_false]
            cases found : rest[place]? with
            | none => simp
            | some later =>
                have := sorted.1 later (List.mem_of_getElem? found)
                simpa using (not_lt.1 isBelow).trans this

theorem lowerBound_le_length : lowerBound keys key ≤ keys.length :=
  (List.takeWhile_prefix _).length_le

theorem lowerBound_lt_of_lt (sorted : keys.Pairwise (· ≤ ·)) {place : Nat} {found : α}
    (at_place : keys[place]? = some found) (below : found < key) :
    place < lowerBound keys key :=
  (isBound_lowerBound sorted place).1 (by simpa [before, at_place] using below)

theorem lt_of_lt_lowerBound (sorted : keys.Pairwise (· ≤ ·)) {place : Nat} {found : α}
    (at_place : keys[place]? = some found) (less : place < lowerBound keys key) : found < key := by
  have isBefore := (isBound_lowerBound sorted place).2 less
  rw [before, at_place] at isBefore
  exact of_decide_eq_true isBefore

theorem before_drop {start place : Nat} :
    before keys key (start + place) = before (keys.drop start) key place := by
  rw [before, before, List.getElem?_drop]

/-- Galloping needs the keys from `start` on to be sorted, and no others. -/
theorem gallopingBound_before {start : Nat} (sorted : (keys.drop start).Pairwise (· ≤ ·))
    (inside : start ≤ keys.length) :
    gallopingBound (before keys key) start keys.length =
      start + lowerBound (keys.drop start) key := by
  have restLength := @lowerBound_le_length α _ (keys.drop start) key
  rw [List.length_drop] at restLength
  apply gallopingBound_eq_from
  · intro place isFrom
    obtain ⟨more, rfl⟩ := Nat.exists_eq_add_of_le isFrom
    rw [before_drop, isBound_lowerBound sorted more]
    omega
  · exact Nat.le_add_right start _
  · omega

/-- Only which keys are below counts. -/
theorem lowerBound_congr {other : α} (same : ∀ found ∈ keys, found < key ↔ found < other) :
    lowerBound keys key = lowerBound keys other := by
  unfold lowerBound
  induction keys with
  | nil => rfl
  | cons first rest ih =>
      rw [List.forall_mem_cons] at same
      by_cases below : first < key
      · simpa [below, same.1.1 below] using ih same.2
      · simp [below, mt same.1.2 below]

theorem lowerBound_eq_length (below : ∀ found ∈ keys, found < key) :
    lowerBound keys key = keys.length := by
  rw [lowerBound, List.takeWhile_eq_self_iff.2 (by simpa using below)]

theorem lowerBound_mono {larger : α} (sorted : keys.Pairwise (· ≤ ·)) (le : key ≤ larger) :
    lowerBound keys key ≤ lowerBound keys larger := by
  by_contra less
  have isBelow := (@isBound_lowerBound α _ keys key sorted (lowerBound keys larger)).2 (by omega)
  cases found : keys[lowerBound keys larger]? with
  | none => simp [before, found] at isBelow
  | some there =>
      have := @lowerBound_lt_of_lt α _ keys larger sorted _ _ found
        (lt_of_lt_of_le (by simpa [before, found] using isBelow) le)
      omega

/-- A key of the list is where the keys below it end. -/
theorem getElem?_lowerBound (sorted : keys.Pairwise (· ≤ ·)) :
    keys[lowerBound keys key]? = some key ↔ key ∈ keys := by
  constructor
  · exact List.mem_of_getElem?
  · intro inside
    obtain ⟨place, at_place⟩ := List.mem_iff_getElem?.1 inside
    have notBelow : ¬place < lowerBound keys key := fun less => by
      have := (isBound_lowerBound sorted place).2 less
      simp [before, at_place] at this
    have bounded : lowerBound keys key < keys.length := by
      have := (List.getElem?_eq_some_iff.1 at_place).1
      omega
    have atLeast : ¬keys[lowerBound keys key] < key := fun below => by
      have := lowerBound_lt_of_lt sorted (List.getElem?_eq_getElem bounded) below
      omega
    obtain ⟨inRange, atKey⟩ := List.getElem?_eq_some_iff.1 at_place
    rw [List.getElem?_eq_getElem bounded, Option.some.injEq]
    refine le_antisymm ?_ (not_lt.1 atLeast)
    rcases Nat.lt_or_eq_of_le (not_lt.1 notBelow) with less | same
    · exact (List.pairwise_iff_getElem.1 sorted _ _ bounded inRange less).trans atKey.le
    · exact (getElem_congr_idx same).trans_le atKey.le

/-- Whether a bisection of the list finds the key -/
def contains (keys : List α) (key : α) : Bool :=
  keys[bisect (before keys key) keys.length 0 keys.length]? == some key

theorem contains_iff (sorted : keys.Pairwise (· ≤ ·)) : contains keys key = true ↔ key ∈ keys := by
  rw [contains, bisect_eq (isBound_lowerBound sorted) (Nat.zero_le _) lowerBound_le_length
    (Nat.sub_le _ _), beq_iff_eq, getElem?_lowerBound sorted]

/-- The bisection that ends at the first place where it meets the key -/
def search (keys : List α) (key : α) : Nat → Nat → Nat → Bool
  | 0, _, _ => false
  | fuel + 1, low, high =>
      if low < high then
        let middle := low + (high - low) / 2
        match keys[middle]? with
        | none => false
        | some found =>
            if found < key then search keys key fuel (middle + 1) high
            else if key < found then search keys key fuel low middle
            else true
      else false

theorem search_of_mem (sorted : keys.Pairwise (· ≤ ·)) {fuel low high place : Nat}
    (at_place : keys[place]? = some key) (lower : low ≤ place) (upper : place < high)
    (bounded : high ≤ keys.length) (enough : high - low ≤ fuel) :
    search keys key fuel low high = true := by
  induction fuel generalizing low high with
  | zero => omega
  | succ fuel ih =>
      have inside : low < high := by omega
      have inRange : low + (high - low) / 2 < keys.length := by omega
      obtain ⟨placeRange, atKey⟩ := List.getElem?_eq_some_iff.1 at_place
      rw [search, if_pos inside]
      dsimp only
      rw [List.getElem?_eq_getElem inRange]
      dsimp only
      split_ifs with less greater
      · refine ih ?_ upper bounded (by omega)
        by_contra notAbove
        rcases Nat.lt_or_eq_of_le (show place ≤ low + (high - low) / 2 by omega) with before | same
        · exact absurd (List.pairwise_iff_getElem.1 sorted _ _ placeRange inRange before)
            (not_le.2 (less.trans_eq atKey.symm))
        · exact less.ne ((getElem_congr_idx same).symm.trans atKey)
      · refine ih lower ?_ (by omega) (by omega)
        by_contra notBelow
        rcases Nat.lt_or_eq_of_le (show low + (high - low) / 2 ≤ place by omega) with after | same
        · exact absurd (List.pairwise_iff_getElem.1 sorted _ _ inRange placeRange after)
            (not_le.2 (atKey.trans_lt greater))
        · exact greater.ne' ((getElem_congr_idx same).trans atKey)
      · rfl

end Places

section Slices

variable {Row : Type} {rows : List Row} {keyOf : Row → α}

/-- The key at `place` is `key` or below it. -/
def upTo (keys : List α) (key : α) (place : Nat) : Bool :=
  match keys[place]? with
  | some found => found ≤ key
  | none => false

/-- The number of leading keys up to `key` -/
def upperBound (keys : List α) (key : α) : Nat := (keys.takeWhile (· ≤ key)).length

theorem isBound_upperBound (sorted : keys.Pairwise (· ≤ ·)) :
    IsBound (upTo keys key) (upperBound keys key) := by
  induction keys with
  | nil => intro place; simp [upTo, upperBound]
  | cons first rest ih =>
      rw [List.pairwise_cons] at sorted
      intro place
      by_cases isUpTo : first ≤ key
      · cases place with
        | zero => simp [upTo, upperBound, isUpTo]
        | succ place =>
            have := ih sorted.2 place
            simpa [upTo, upperBound, isUpTo] using this
      · have none : upperBound (first :: rest) key = 0 := by simp [upperBound, isUpTo]
        rw [none]
        cases place with
        | zero => simpa [upTo] using isUpTo
        | succ place =>
            simp only [upTo, List.getElem?_cons_succ, Nat.not_lt_zero, iff_false]
            cases found : rest[place]? with
            | none => simp
            | some later =>
                have := sorted.1 later (List.mem_of_getElem? found)
                simpa using (not_le.1 isUpTo).trans_le this

theorem upperBound_le_length : upperBound keys key ≤ keys.length :=
  (List.takeWhile_prefix _).length_le

theorem upperBound_eq_lowerBound (absent : key ∉ keys) :
    upperBound keys key = lowerBound keys key := by
  unfold lowerBound upperBound
  induction keys with
  | nil => rfl
  | cons first rest ih =>
      rw [List.mem_cons, not_or] at absent
      obtain ⟨differs, notLater⟩ := absent
      by_cases isBelow : first < key
      · simpa [isBelow, isBelow.le] using ih notLater
      · simp [isBelow, mt (lt_of_le_of_ne · (Ne.symm differs)) isBelow]

theorem lowerBound_le_upperBound : lowerBound keys key ≤ upperBound keys key := by
  unfold lowerBound upperBound
  induction keys with
  | nil => rfl
  | cons first rest ih =>
      by_cases isBelow : first < key
      · simpa [isBelow, isBelow.le] using ih
      · simp [isBelow]

/-- The rows from `start` to `stop` -/
def slice (rows : List Row) (start stop : Nat) : List Row := (rows.take stop).drop start

/-- Between the two bounds of a key are its rows. -/
theorem slice_bounds (sorted : (rows.map keyOf).Pairwise (· ≤ ·)) :
    slice rows (lowerBound (rows.map keyOf) key) (upperBound (rows.map keyOf) key) =
      rows.filter (keyOf · = key) := by
  induction rows with
  | nil => rfl
  | cons row rest ih =>
      rw [List.map_cons, List.pairwise_cons] at sorted
      have ofRest := ih sorted.2
      unfold slice lowerBound upperBound at ofRest ⊢
      rcases lt_trichotomy (keyOf row) key with below | same | above
      · simpa [below, below.le, below.ne] using ofRest
      · subst same
        have noneBelow : (rest.map keyOf).takeWhile (· < keyOf row) = [] := by
          cases rest with
          | nil => rfl
          | cons next later =>
              have := sorted.1 (keyOf next) List.mem_cons_self
              simp [this]
        rw [noneBelow] at ofRest
        simpa using ofRest
      · have noneLater : rest.filter (keyOf · = key) = [] := by
          rw [List.filter_eq_nil_iff]
          intro later isLater
          have := sorted.1 (keyOf later) (List.mem_map_of_mem isLater)
          simpa using (above.trans_le this).ne'
        simp [above.not_gt, above.not_ge, above.ne', noneLater]

end Slices

section Intersection

/-- Gallops `other` for one key after the other. -/
def gallopingIntersect (other : List α) : List α → Nat → List α
  | [], _ => []
  | key :: rest, start =>
      if start < other.length then
        let place := gallopingBound (before other key) start other.length
        if other.length ≤ place then []
        else if other[place]? = some key then
          key :: gallopingIntersect other rest (place + 1)
        else gallopingIntersect other rest place
      else []

section GallopingSteps

variable {other rest : List α} {start : Nat}

theorem gallopingIntersect_outside (outside : other.length ≤ start) :
    gallopingIntersect other keys start = [] := by
  cases keys with
  | nil => rfl
  | cons key rest => exact if_neg (Nat.not_lt_of_le outside)

theorem gallopingIntersect_past (inside : start < other.length)
    (past : other.length ≤ gallopingBound (before other key) start other.length) :
    gallopingIntersect other (key :: rest) start = [] := by
  rw [gallopingIntersect, if_pos inside]
  exact if_pos past

theorem gallopingIntersect_found (inside : start < other.length)
    (within : ¬other.length ≤ gallopingBound (before other key) start other.length)
    (found : other[gallopingBound (before other key) start other.length]? = some key) :
    gallopingIntersect other (key :: rest) start =
      key :: gallopingIntersect other rest
        (gallopingBound (before other key) start other.length + 1) := by
  rw [gallopingIntersect, if_pos inside]
  dsimp only
  rw [if_neg within, if_pos found]

theorem gallopingIntersect_absent (inside : start < other.length)
    (within : ¬other.length ≤ gallopingBound (before other key) start other.length)
    (absent : ¬other[gallopingBound (before other key) start other.length]? = some key) :
    gallopingIntersect other (key :: rest) start =
      gallopingIntersect other rest (gallopingBound (before other key) start other.length) := by
  rw [gallopingIntersect, if_pos inside]
  dsimp only
  rw [if_neg within, if_neg absent]

end GallopingSteps

/-- The merge of two lists, which keeps what both have -/
def mergeIntersect : List α → List α → List α
  | first :: left, second :: right =>
      if first < second then mergeIntersect left (second :: right)
      else if second < first then mergeIntersect (first :: left) right
      else first :: mergeIntersect left right
  | _, _ => []
termination_by left right => left.length + right.length

theorem mergeIntersect_nil_left : mergeIntersect [] right = [] := by
  rw [mergeIntersect]
  simp

theorem mergeIntersect_nil_right : mergeIntersect left [] = [] := by
  rw [mergeIntersect]
  simp

theorem le_of_lt_pairwise (sorted : keys.Pairwise (· < ·)) : keys.Pairwise (· ≤ ·) :=
  sorted.imp le_of_lt

theorem not_mem_of_lowerBound (sorted : keys.Pairwise (· ≤ ·))
    (outside : keys.length ≤ lowerBound keys key) : key ∉ keys := fun inside => by
  have found := (getElem?_lowerBound sorted).2 inside
  have := (List.getElem?_eq_some_iff.1 found).1
  omega

theorem gallopingIntersect_eq {other : List α} (sortedLe : other.Pairwise (· ≤ ·))
    (sorted : keys.Pairwise (· < ·)) {start : Nat}
    (reached : ∀ key ∈ keys, start ≤ lowerBound other key) :
    gallopingIntersect other keys start = keys.filter (· ∈ other) := by
  induction keys generalizing start with
  | nil => rfl
  | cons key rest ih =>
      rw [List.pairwise_cons] at sorted
      have atKey := reached key List.mem_cons_self
      rw [gallopingIntersect]
      dsimp only
      rw [gallopingBound_eq (isBound_lowerBound sortedLe) atKey lowerBound_le_length]
      have none (outside : other.length ≤ lowerBound other key) :
          (key :: rest).filter (· ∈ other) = [] := by
        rw [List.filter_eq_nil_iff]
        intro later inside
        rw [decide_eq_true_eq]
        refine not_mem_of_lowerBound sortedLe (outside.trans ?_)
        rcases List.mem_cons.1 inside with rfl | inside
        · rfl
        · exact lowerBound_mono sortedLe (sorted.1 later inside).le
      split_ifs with more past same
      · exact (none past).symm
      · have inside := (getElem?_lowerBound sortedLe).1 same
        rw [List.filter_cons_of_pos (by simpa using inside), ih sorted.2 fun later isLater =>
          lowerBound_lt_of_lt sortedLe same (sorted.1 later isLater)]
      · have outside := mt (getElem?_lowerBound sortedLe).2 same
        rw [List.filter_cons_of_neg (by simpa using outside), ih sorted.2 fun later isLater =>
          lowerBound_mono sortedLe (sorted.1 later isLater).le]
      · exact (none (by omega)).symm

theorem mergeIntersect_eq (sortedLeft : left.Pairwise (· < ·))
    (sortedRight : right.Pairwise (· < ·)) :
    mergeIntersect left right = left.filter (· ∈ right) := by
  fun_induction mergeIntersect left right with
  | case1 first left second right less ih =>
      have outside : first ∉ second :: right := fun inside => by
        rcases List.mem_cons.1 inside with rfl | inside
        · exact lt_irrefl _ less
        · exact lt_asymm less ((List.pairwise_cons.1 sortedRight).1 first inside)
      rw [List.filter_cons_of_neg (by simpa using outside)]
      exact ih (List.pairwise_cons.1 sortedLeft).2 sortedRight
  | case2 first left second right notLess less ih =>
      rw [ih sortedLeft (List.pairwise_cons.1 sortedRight).2]
      refine List.filter_congr fun key inside => ?_
      have later : second < key := by
        rcases List.mem_cons.1 inside with rfl | inside
        · exact less
        · exact less.trans ((List.pairwise_cons.1 sortedLeft).1 key inside)
      simp [later.ne']
  | case3 first left second right notLess notGreater ih =>
      obtain rfl := le_antisymm (not_lt.1 notGreater) (not_lt.1 notLess)
      rw [List.filter_cons_of_pos (by simp),
        ih (List.pairwise_cons.1 sortedLeft).2 (List.pairwise_cons.1 sortedRight).2]
      refine congrArg _ (List.filter_congr fun key inside => ?_)
      simp [((List.pairwise_cons.1 sortedLeft).1 key inside).ne']
  | case4 left right notBoth =>
      cases left with
      | nil => rfl
      | cons first left =>
          cases right with
          | nil => simp
          | cons second right => exact (notBoth first left second right rfl rfl).elim

/-- Galloping the list whose keys are kept gives the same. -/
theorem gallopingIntersect_other (sortedLeft : left.Pairwise (· < ·))
    (sortedRight : right.Pairwise (· < ·)) :
    gallopingIntersect left right 0 = left.filter (· ∈ right) := by
  rw [gallopingIntersect_eq (le_of_lt_pairwise sortedLeft) sortedRight fun _ _ => Nat.zero_le _]
  refine List.Perm.eq_of_pairwise
    (fun first second _ _ (less : first < second) greater => (lt_asymm less greater).elim)
    (sortedRight.filter _) (sortedLeft.filter _) ?_
  refine (List.perm_ext_iff_of_nodup (sortedRight.filter _).nodup
    (sortedLeft.filter _).nodup).2 fun key => ?_
  simp [and_comm]

/-- Galloping where one list is `ratio` times as long as the other, merging elsewhere -/
def intersect (ratio : Nat) (left right : List α) : List α :=
  if left.length = 0 ∨ right.length = 0 then []
  else if left.length * ratio ≤ right.length then gallopingIntersect right left 0
  else if right.length * ratio ≤ left.length then gallopingIntersect left right 0
  else mergeIntersect left right

theorem intersect_eq {ratio : Nat} (sortedLeft : left.Pairwise (· < ·))
    (sortedRight : right.Pairwise (· < ·)) :
    intersect ratio left right = left.filter (· ∈ right) := by
  rw [intersect]
  split_ifs with empty
  · rcases empty with empty | empty
    · rw [List.length_eq_zero_iff.1 empty, List.filter_nil]
    · simp [List.length_eq_zero_iff.1 empty]
  · exact gallopingIntersect_eq (le_of_lt_pairwise sortedRight) sortedLeft
      fun _ _ => Nat.zero_le _
  · rw [gallopingIntersect_other sortedLeft sortedRight]
  · exact mergeIntersect_eq sortedLeft sortedRight


end Intersection

section Distinct

/-- A list without the repetitions that follow each other -/
def distinct : List α → List α
  | first :: second :: rest =>
      if first = second then distinct (second :: rest) else first :: distinct (second :: rest)
  | keys => keys

theorem mem_distinct : key ∈ distinct keys ↔ key ∈ keys := by
  fun_induction distinct keys with
  | case1 first rest ih => simp_all
  | case2 first second rest different ih => simp_all
  | case3 keys short => rfl

theorem distinct_sublist (keys : List α) : (distinct keys).Sublist keys := by
  fun_induction distinct keys with
  | case1 first rest ih => exact ih.cons first
  | case2 first second rest different ih => exact ih.cons_cons first
  | case3 keys short => exact List.Sublist.refl keys

theorem distinct_sorted (sorted : keys.Pairwise (· ≤ ·)) : (distinct keys).Pairwise (· < ·) := by
  fun_induction distinct keys with
  | case1 first rest ih => exact ih (List.pairwise_cons.1 sorted).2
  | case2 first second rest different ih =>
      rw [List.pairwise_cons] at sorted
      refine List.pairwise_cons.2 ⟨fun key inside => ?_, ih sorted.2⟩
      have firstLess := lt_of_le_of_ne (sorted.1 second List.mem_cons_self) different
      rcases List.mem_cons.1 (mem_distinct.1 inside) with rfl | later
      · exact firstLess
      · exact firstLess.trans_le ((List.pairwise_cons.1 sorted.2).1 key later)
  | case3 keys short =>
      cases keys with
      | nil => exact .nil
      | cons first rest =>
          cases rest with
          | nil => exact List.pairwise_singleton _ _
          | cons second rest => exact (short first second rest rfl).elim

end Distinct

end Age.SortedKeys
