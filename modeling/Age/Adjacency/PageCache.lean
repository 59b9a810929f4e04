import Age.Adjacency.Filters

/-!
# The cache of a visible-payload scan

`age_adjacency_scan_posting_run` counts down the postings of a run as it reads them.  The
visible-payload scan reads a page at a time: `main_remaining` still counts the postings that wait
in the cache, and the loop over the blocks of a page only looks at both numbers after a block that
it has read.
-/

namespace Age.Adjacency

open Vle (getGraphidLabelId labelIdIsValid)

abbrev MainBlock := List MainPosting
abbrev MainPage := List MainBlock

section Scans

variable (target : ScanTarget)

/-- `uint32` subtraction -/
def subtract32 (remaining skipped : Nat) : Nat := (remaining + 2 ^ 32 - skipped) % 2 ^ 32

/-- The blocks of a page in `age_adjacency_scan_posting_run`: what is accepted, and how many
postings remain. -/
def scanBlocks : List MainBlock → Nat → List MainPosting × Nat
  | [], remaining => ([], remaining)
  | block :: blocks, remaining =>
      if remaining = 0 then ([], 0)
      else
        match skipCacheFilters target block 0 remaining with
        | some skipped => scanBlocks blocks (remaining - skipped)
        | none =>
            let postingIndex := findCompactPostingIntersection target block 0
            let left := subtract32 remaining postingIndex
            let postings := (block.drop postingIndex).take left
            let (emitted, left) := scanBlocks blocks (left - postings.length)
            (postings.filter target.accepts ++ emitted, left)

/-- `age_adjacency_scan_posting_run` from the block on that the chain starts with -/
def scanPages : List MainPage → Nat → List MainPosting
  | [], _ => []
  | page :: pages, remaining =>
      if remaining = 0 then []
      else
        let (emitted, left) := scanBlocks target page remaining
        emitted ++ scanPages pages left

/-- The loop over the postings of a block in `age_adjacency_load_main_cache_from_locked_page`: the
index where it stops, `main_remaining` and the cache. -/
def loadPostings (block : MainBlock) :
    Nat → Nat → Nat → List MainPosting → Nat × Nat × List MainPosting
  | 0, postingIndex, remaining, cached => (postingIndex, remaining, cached)
  | fuel + 1, postingIndex, remaining, cached =>
      match block[postingIndex]? with
      | none => (postingIndex, remaining, cached)
      | some posting =>
          if remaining ≤ cached.length then (postingIndex, remaining, cached)
          else if target.accepts posting then
            let cached := cached ++ [posting]
            if postingIndex + 1 < block.length && cached.length < remaining then
              let next := findCompactPostingIntersection target block (postingIndex + 1)
              let remaining := subtract32 remaining (next - (postingIndex + 1))
              if remaining ≤ cached.length then (next, remaining, cached)
              else loadPostings block fuel next remaining cached
            else loadPostings block fuel (postingIndex + 1) remaining cached
          else if remaining - 1 = 0 then (postingIndex + 1, 0, cached)
          else loadPostings block fuel (postingIndex + 1) (remaining - 1) cached

/-- What a load leaves: `next` is the rest of the page that is still to be read, and `none` where
the next page follows. -/
structure CacheLoad where
  remaining : Nat
  cached : List MainPosting
  next : Option (MainPage × Nat)

/-- `age_adjacency_load_main_cache_from_locked_page` on the blocks from `main_offnum` on -/
def loadMainCache : List MainBlock → Nat → Nat → List MainPosting → CacheLoad
  | [], _, remaining, cached => ⟨remaining, cached, none⟩
  | block :: blocks, postingIndex, remaining, cached =>
      match skipCacheFilters target block postingIndex remaining with
      | some skipped =>
          if remaining - skipped = 0 then ⟨0, cached, none⟩
          else loadMainCache blocks 0 (remaining - skipped) cached
      | none =>
          let start := findCompactPostingIntersection target block postingIndex
          let left := subtract32 remaining (start - postingIndex)
          if start ≠ postingIndex ∧ left = 0 then ⟨0, cached, none⟩
          else
            let (stop, left, cached) := loadPostings target block block.length start left cached
            if left ≤ cached.length then
              ⟨left, cached, if stop < block.length then some (block :: blocks, stop) else none⟩
            else loadMainCache blocks 0 left cached

/-- `age_adjacency_visible_payload_scan_next_main` until it finds no more -/
def nextMain : Nat → List MainPage → Nat → Nat → List MainPosting
  | 0, _, _, _ => []
  | _, [], _, _ => []
  | fuel + 1, page :: pages, postingIndex, remaining =>
      if remaining = 0 then []
      else
        let load := loadMainCache target page postingIndex remaining []
        load.cached.take load.remaining ++
          match load.next with
          | some (blocks, postingIndex) =>
              nextMain fuel (blocks :: pages) postingIndex (load.remaining - load.cached.length)
          | none => nextMain fuel pages 0 (load.remaining - load.cached.length)

end Scans

section Blocks

variable {target : ScanTarget} {block : MainBlock}

variable (target) in
/-- What a scan lets pass of a block that it starts at its first posting -/
def passing (block : MainBlock) : List MainPosting :=
  if blockMayMatch target block 0 then block.filter target.accepts else []

variable (target) in
/-- The filters take postings of the block away before its first one is read. -/
def Shortens (block : MainBlock) : Prop :=
  blockMayMatch target block 0 = false ∨ 0 < findCompactPostingIntersection target block 0

theorem subtract32_of_le {remaining skipped : Nat} (order : skipped ≤ remaining)
    (small : remaining < 2 ^ 32) : subtract32 remaining skipped = remaining - skipped := by
  rw [subtract32]
  omega

theorem subtract32_of_lt {remaining skipped : Nat} (order : remaining < skipped)
    (small : skipped ≤ 2 ^ 32) : subtract32 remaining skipped = remaining + 2 ^ 32 - skipped := by
  rw [subtract32]
  omega

theorem filter_intersection :
    (block.drop (findCompactPostingIntersection target block 0)).filter target.accepts =
      block.filter target.accepts := by
  rw [filter_drop_intersection, List.drop_zero]

theorem skipCacheFilters_of_match {postingIndex remaining : Nat}
    (matching : blockMayMatch target block postingIndex = true) :
    skipCacheFilters target block postingIndex remaining = none := by
  rw [skipCacheFilters, matching]
  simp

theorem skipCacheFilters_of_mismatch {remaining : Nat} (nonempty : block ≠ [])
    (positive : 0 < remaining) (mismatch : blockMayMatch target block 0 = false) :
    skipCacheFilters target block 0 remaining = some (min block.length remaining) := by
  have := List.length_pos_iff.2 nonempty
  rw [skipCacheFilters, mismatch, Nat.sub_zero]
  simp only [Bool.false_eq_true, if_false]
  rw [if_neg (by omega)]

/-- A block of the run itself is read to its end. -/
theorem loadPostings_own {fuel postingIndex remaining later : Nat} {cached : List MainPosting}
    (inside : postingIndex ≤ block.length) (enough : block.length - postingIndex ≤ fuel)
    (counted : remaining = cached.length + (block.length - postingIndex) + later)
    (small : remaining < 2 ^ 32) :
    loadPostings target block fuel postingIndex remaining cached =
      (block.length,
        (cached ++ (block.drop postingIndex).filter target.accepts).length + later,
        cached ++ (block.drop postingIndex).filter target.accepts) := by
  induction fuel generalizing postingIndex remaining cached with
  | zero =>
      have atEnd : postingIndex = block.length := by omega
      subst atEnd
      simp [loadPostings, counted]
  | succ fuel inductionHypothesis =>
      rcases Nat.lt_or_ge postingIndex block.length with more | atEnd
      · have here : block[postingIndex]? = some block[postingIndex] := List.getElem?_eq_getElem more
        rw [loadPostings, here]
        dsimp only
        rw [if_neg (by omega), List.drop_eq_getElem_cons more]
        by_cases accepted : target.accepts block[postingIndex] = true
        · rw [if_pos accepted, List.filter_cons_of_pos accepted,
            List.append_cons cached _ (List.filter _ _)]
          have longer : (cached ++ [block[postingIndex]]).length = cached.length + 1 := by simp
          by_cases last : postingIndex + 1 < block.length
          · have budget : (cached ++ [block[postingIndex]]).length < remaining := by omega
            rw [decide_eq_true last, decide_eq_true budget, Bool.and_true, if_pos rfl]
            obtain ⟨forward, bounded⟩ :=
              @findCompactPostingIntersection_le target block _ (Nat.le_of_lt last)
            have same := @filter_drop_intersection target block (postingIndex + 1)
            generalize findCompactPostingIntersection target block (postingIndex + 1) = next
              at forward bounded same ⊢
            rw [subtract32_of_le (by omega) small, ← same]
            split_ifs with full
            · have ended : next = block.length := by omega
              subst ended
              simp only [List.drop_length, List.filter_nil, List.append_nil, Prod.mk.injEq,
                true_and, and_true]
              omega
            · exact inductionHypothesis bounded (by omega) (by omega) (by omega)
          · rw [decide_eq_false last, Bool.false_and, if_neg Bool.false_ne_true]
            exact inductionHypothesis more (by omega) (by omega) small
        · rw [if_neg accepted, List.filter_cons_of_neg accepted]
          split_ifs with done
          · have ended : postingIndex + 1 = block.length := by omega
            have empty : cached.length = 0 := by omega
            rw [ended, List.drop_length, List.filter_nil, List.append_nil, empty]
            simp only [Prod.mk.injEq, and_true, true_and]
            omega
          · exact inductionHypothesis more (by omega) (by omega) (by omega)
      · have atLast : postingIndex = block.length := by omega
        subst atLast
        simp [loadPostings, counted]

/-- However the loop goes, it takes no more from the count than there are postings. -/
theorem loadPostings_bounds {fuel postingIndex remaining : Nat} {cached : List MainPosting}
    (inside : postingIndex ≤ block.length) (many : block.length - postingIndex ≤ remaining)
    (small : remaining < 2 ^ 32) :
    cached.length ≤ (loadPostings target block fuel postingIndex remaining cached).2.2.length ∧
      remaining ≤ (loadPostings target block fuel postingIndex remaining cached).2.1 +
        (block.length - postingIndex) ∧
      (loadPostings target block fuel postingIndex remaining cached).2.1 ≤ remaining := by
  induction fuel generalizing postingIndex remaining cached with
  | zero => simp [loadPostings]
  | succ fuel inductionHypothesis =>
      rcases Nat.lt_or_ge postingIndex block.length with more | atEnd
      · have here : block[postingIndex]? = some block[postingIndex] := List.getElem?_eq_getElem more
        have longer : (cached ++ [block[postingIndex]]).length = cached.length + 1 := by simp
        rw [loadPostings, here]
        dsimp only
        split_ifs with full accepted budget exhausted done
        · dsimp only
          exact ⟨le_refl _, by omega, le_refl _⟩
        · have last : postingIndex + 1 ≤ block.length := more
          obtain ⟨forward, bounded⟩ := @findCompactPostingIntersection_le target block _ last
          rw [subtract32_of_le (by omega) small]
          dsimp only
          exact ⟨by omega, by omega, by omega⟩
        · have last : postingIndex + 1 ≤ block.length := more
          obtain ⟨forward, bounded⟩ := @findCompactPostingIntersection_le target block _ last
          rw [subtract32_of_le (by omega) small]
          obtain ⟨grows, counts, falls⟩ := @inductionHypothesis
            (findCompactPostingIntersection target block (postingIndex + 1))
            (remaining - (findCompactPostingIntersection target block (postingIndex + 1) -
              (postingIndex + 1))) (cached ++ [block[postingIndex]]) bounded (by omega) (by omega)
          exact ⟨by omega, by omega, by omega⟩
        · obtain ⟨grows, counts, falls⟩ := @inductionHypothesis (postingIndex + 1) remaining
            (cached ++ [block[postingIndex]]) more (by omega) small
          exact ⟨by omega, by omega, falls⟩
        · dsimp only
          exact ⟨le_refl _, by omega, by omega⟩
        · obtain ⟨grows, counts, falls⟩ := @inductionHypothesis (postingIndex + 1) (remaining - 1)
            cached more (by omega) (by omega)
          exact ⟨grows, by omega, by omega⟩
      · have outside : block[postingIndex]? = none := List.getElem?_eq_none atEnd
        rw [loadPostings, outside]
        dsimp only
        exact ⟨le_refl _, by omega, le_refl _⟩

/-- With a full cache the loop ends at once. -/
theorem loadPostings_full {fuel postingIndex remaining : Nat} {cached : List MainPosting}
    (full : remaining ≤ cached.length) :
    loadPostings target block fuel postingIndex remaining cached =
      (postingIndex, remaining, cached) := by
  cases fuel with
  | zero => rfl
  | succ fuel =>
      rw [loadPostings]
      split
      · rfl
      · rw [if_pos full]

end Blocks

section Loads

variable {target : ScanTarget} {block : MainBlock} {blocks : List MainBlock} {remaining : Nat}
  {cached : List MainPosting}

theorem passing_of_match (matching : blockMayMatch target block 0 = true) :
    passing target block = block.filter target.accepts :=
  if_pos matching

theorem passing_of_mismatch (mismatch : blockMayMatch target block 0 = false) :
    passing target block = [] := by
  rw [passing, mismatch, if_neg Bool.false_ne_true]

theorem length_passing_le : (passing target block).length ≤ block.length := by
  rw [passing]
  split_ifs
  · exact List.length_filter_le _ _
  · exact Nat.zero_le _

/-- A block of the run with more of the run after it -/
theorem loadMainCache_own {later : Nat} (nonempty : block ≠ []) (more : 0 < later)
    (counted : remaining = cached.length + block.length + later) (small : remaining < 2 ^ 32) :
    loadMainCache target (block :: blocks) 0 remaining cached =
      loadMainCache target blocks 0 ((cached ++ passing target block).length + later)
        (cached ++ passing target block) := by
  have := List.length_pos_iff.2 nonempty
  rw [loadMainCache]
  cases matches' : blockMayMatch target block 0 with
  | false =>
      rw [skipCacheFilters_of_mismatch nonempty (by omega) matches', min_eq_left (by omega)]
      dsimp only
      rw [if_neg (by omega), passing_of_mismatch matches', List.append_nil, counted]
      congr 1
      omega
  | true =>
      obtain ⟨-, bounded⟩ := @findCompactPostingIntersection_le target block 0 (Nat.zero_le _)
      rw [skipCacheFilters_of_match matches']
      dsimp only
      rw [Nat.sub_zero, subtract32_of_le (by omega) small, if_neg (by omega),
        @loadPostings_own _ _ _ _ _ later _ bounded (Nat.sub_le _ _) (by omega) (by omega),
        filter_intersection, passing_of_match matches']
      dsimp only
      rw [if_neg (by omega)]

/-- The run ends with a block that is read. -/
theorem loadMainCache_end (matching : blockMayMatch target block 0 = true)
    (counted : remaining = cached.length + block.length) (small : remaining < 2 ^ 32) :
    loadMainCache target (block :: blocks) 0 remaining cached =
      ⟨(cached ++ passing target block).length, cached ++ passing target block, none⟩ := by
  obtain ⟨-, bounded⟩ := @findCompactPostingIntersection_le target block 0 (Nat.zero_le _)
  rw [loadMainCache, skipCacheFilters_of_match matching]
  dsimp only
  rw [Nat.sub_zero, subtract32_of_le (by omega) small]
  have sameFilter := @filter_intersection target block
  by_cases nothing : findCompactPostingIntersection target block 0 ≠ 0 ∧
      remaining - findCompactPostingIntersection target block 0 = 0
  · rw [if_pos nothing]
    have ended : findCompactPostingIntersection target block 0 = block.length := by omega
    have empty : cached = [] := List.length_eq_zero_iff.1 (by omega)
    rw [ended, List.drop_length, List.filter_nil] at sameFilter
    rw [passing_of_match matching, ← sameFilter, empty]
    rfl
  · rw [if_neg nothing, @loadPostings_own _ _ _ _ _ 0 _ bounded (Nat.sub_le _ _) (by omega)
      (by omega), sameFilter, passing_of_match matching]
    dsimp only
    rw [if_pos (by omega), if_neg (Nat.lt_irrefl _), Nat.add_zero]

/-- The run ends with a block that is skipped: with postings in the cache, the load goes on. -/
theorem loadMainCache_end_skipped (nonempty : block ≠ [])
    (mismatch : blockMayMatch target block 0 = false)
    (counted : remaining = cached.length + block.length) :
    loadMainCache target (block :: blocks) 0 remaining cached =
      if cached = [] then ⟨0, [], none⟩ else loadMainCache target blocks 0 cached.length cached := by
  have := List.length_pos_iff.2 nonempty
  have left : remaining - block.length = cached.length := by omega
  rw [loadMainCache, skipCacheFilters_of_mismatch nonempty (by omega) mismatch,
    min_eq_left (by omega)]
  dsimp only
  rw [left]
  by_cases empty : cached = []
  · rw [if_pos empty, if_pos (by rw [empty, List.length_nil]), empty]
  · rw [if_neg empty, if_neg (by rwa [List.length_eq_zero_iff])]

/-- A block of another run that the filters leave as it is ends the load. -/
theorem loadMainCache_foreign (nonempty : block ≠ []) (whole : ¬Shortens target block)
    (small : cached.length < 2 ^ 32) :
    loadMainCache target (block :: blocks) 0 cached.length cached =
      ⟨cached.length, cached, some (block :: blocks, 0)⟩ := by
  rw [Shortens, not_or, Bool.not_eq_false] at whole
  have atStart : findCompactPostingIntersection target block 0 = 0 := by omega
  rw [loadMainCache, skipCacheFilters_of_match whole.1]
  dsimp only
  rw [atStart, Nat.sub_zero, subtract32_of_le (Nat.zero_le _) small, Nat.sub_zero,
    if_neg fun both => both.1 rfl, loadPostings_full (le_refl _)]
  dsimp only
  rw [if_pos (le_refl _), if_pos (List.length_pos_iff.2 nonempty)]

/-- All blocks of a page up to the last one of a run -/
theorem loadMainCache_run {own : List MainBlock} {later : Nat}
    (nonempty : ∀ block ∈ own, block ≠ []) (more : 0 < later)
    (counted : remaining = cached.length + own.flatten.length + later) (small : remaining < 2 ^ 32) :
    loadMainCache target (own ++ blocks) 0 remaining cached =
      loadMainCache target blocks 0 ((cached ++ own.flatMap (passing target)).length + later)
        (cached ++ own.flatMap (passing target)) := by
  induction own generalizing remaining cached with
  | nil => simp [counted]
  | cons block own inductionHypothesis =>
      rw [List.flatten_cons, List.length_append] at counted
      have passed := @length_passing_le target block
      have longer : (cached ++ passing target block).length =
          cached.length + (passing target block).length := List.length_append
      rw [List.cons_append, @loadMainCache_own _ _ _ _ _ (own.flatten.length + later)
        (nonempty block List.mem_cons_self) (by omega) (by omega) small,
        @inductionHypothesis _ (cached ++ passing target block)
          (fun other member => nonempty other (List.mem_cons_of_mem _ member)) (by omega) (by omega),
        List.flatMap_cons, List.append_assoc]

/-- However a load goes, it takes no more from the count than the page has postings. -/
theorem loadMainCache_bounds (nonempty : ∀ block ∈ blocks, block ≠ [])
    (many : blocks.flatten.length ≤ remaining) (small : remaining < 2 ^ 32) :
    cached.length ≤ (loadMainCache target blocks 0 remaining cached).cached.length ∧
      remaining ≤ (loadMainCache target blocks 0 remaining cached).remaining +
        blocks.flatten.length := by
  induction blocks generalizing remaining cached with
  | nil => exact ⟨le_refl _, le_refl _⟩
  | cons block blocks inductionHypothesis =>
      have later : ∀ other ∈ blocks, other ≠ [] := fun other member =>
        nonempty other (List.mem_cons_of_mem _ member)
      have isNonempty := nonempty block List.mem_cons_self
      have := List.length_pos_iff.2 isNonempty
      rw [List.flatten_cons, List.length_append] at many ⊢
      rw [loadMainCache]
      cases matches' : blockMayMatch target block 0 with
      | false =>
          rw [skipCacheFilters_of_mismatch isNonempty (by omega) matches', min_eq_left (by omega)]
          dsimp only
          split_ifs with done
          · dsimp only
            exact ⟨le_refl _, by omega⟩
          · obtain ⟨grows, counts⟩ := @inductionHypothesis (remaining - block.length) cached later
              (by omega) (by omega)
            exact ⟨grows, by omega⟩
      | true =>
          obtain ⟨-, bounded⟩ := @findCompactPostingIntersection_le target block 0 (Nat.zero_le _)
          rw [skipCacheFilters_of_match matches']
          dsimp only
          rw [Nat.sub_zero, subtract32_of_le (by omega) small]
          generalize findCompactPostingIntersection target block 0 = start at bounded ⊢
          obtain ⟨grows, counts, falls⟩ := @loadPostings_bounds target block block.length start
            (remaining - start) cached bounded (by omega) (by omega)
          generalize loadPostings target block block.length start (remaining - start) cached = out
            at grows counts falls ⊢
          obtain ⟨stop, left, kept⟩ := out
          dsimp only at grows counts falls ⊢
          by_cases nothing : start ≠ 0 ∧ remaining - start = 0
          · rw [if_pos nothing]
            dsimp only
            exact ⟨le_refl _, by omega⟩
          rw [if_neg nothing]
          by_cases full : left ≤ kept.length
          · rw [if_pos full]
            dsimp only
            exact ⟨grows, by omega⟩
          · rw [if_neg full]
            obtain ⟨growsOn, countsOn⟩ := @inductionHypothesis left kept later (by omega) (by omega)
            exact ⟨by omega, by omega⟩

/-- A block that is entered behind its start with more to count than there is adds to the cache. -/
theorem loadPostings_adds {start left : Nat} (matching : blockMayMatch target block 0 = true)
    (isStart : findCompactPostingIntersection target block 0 = start) (moves : 0 < start)
    (many : cached.length + block.length < left) (small : left < 2 ^ 32) :
    cached.length < (loadPostings target block block.length start left cached).2.2.length := by
  obtain ⟨posting, here, accepted⟩ := accepts_at_intersection matching (isStart ▸ moves)
  rw [isStart] at here
  obtain ⟨inside, -⟩ := List.getElem?_eq_some_iff.1 here
  obtain ⟨fuel, isFuel⟩ := Nat.exists_eq_succ_of_ne_zero (Nat.ne_of_gt (Nat.zero_lt_of_lt inside))
  have longer : (cached ++ [posting]).length = cached.length + 1 := by simp
  rw [isFuel, loadPostings, here]
  dsimp only
  rw [if_neg (by omega), if_pos accepted]
  obtain ⟨forward, bounded⟩ := @findCompactPostingIntersection_le target block (start + 1) inside
  rw [subtract32_of_le (by omega) small]
  split_ifs with budget exhausted
  · dsimp only
    omega
  · have := (@loadPostings_bounds target block fuel _ (left -
      (findCompactPostingIntersection target block (start + 1) - (start + 1))) (cached ++ [posting])
      bounded (by omega) (by omega)).1
    omega
  · have := (@loadPostings_bounds target block fuel (start + 1) left (cached ++ [posting]) inside
      (by omega) small).1
    omega

/-- Once the filters take away postings of other runs, the count and the cache no longer agree:
either the count is short, or it has wrapped around and the cache has too much. -/
theorem loadMainCache_overrun (nonempty : ∀ block ∈ blocks, block ≠ []) (positive : 0 < remaining)
    (covered : remaining ≤ cached.length)
    (shortens : remaining < cached.length ∨
      ∃ other more, blocks = other :: more ∧ Shortens target other)
    (room : cached.length + blocks.flatten.length < 2 ^ 31) :
    ((loadMainCache target blocks 0 remaining cached).remaining < cached.length ∧
      (loadMainCache target blocks 0 remaining cached).cached = cached) ∨
    (cached.length < (loadMainCache target blocks 0 remaining cached).remaining ∧
      cached.length < (loadMainCache target blocks 0 remaining cached).cached.length) := by
  induction blocks generalizing remaining with
  | nil =>
      rcases shortens with fewer | ⟨_, _, none, _⟩
      · exact .inl ⟨fewer, rfl⟩
      · cases none
  | cons block blocks inductionHypothesis =>
      have later : ∀ other ∈ blocks, other ≠ [] := fun other member =>
        nonempty other (List.mem_cons_of_mem _ member)
      have isNonempty := nonempty block List.mem_cons_self
      have := List.length_pos_iff.2 isNonempty
      rw [List.flatten_cons, List.length_append] at room
      rw [loadMainCache]
      cases matches' : blockMayMatch target block 0 with
      | false =>
          rw [skipCacheFilters_of_mismatch isNonempty positive matches']
          dsimp only
          split_ifs with done
          · exact .inl ⟨Nat.lt_of_lt_of_le positive covered, rfl⟩
          · exact @inductionHypothesis (remaining - min block.length remaining) later (by omega)
              (by omega) (.inl (by omega)) (by omega)
      | true =>
          have moved : remaining < cached.length ∨
              0 < findCompactPostingIntersection target block 0 := by
            rcases shortens with fewer | ⟨other, more, isFirst, shorter⟩
            · exact .inl fewer
            · cases isFirst
              rcases shorter with mismatch | moves
              · rw [matches'] at mismatch
                cases mismatch
              · exact .inr moves
          obtain ⟨-, bounded⟩ := @findCompactPostingIntersection_le target block 0 (Nat.zero_le _)
          have adds := fun left => @loadPostings_adds target block cached _ left matches' rfl
          rw [skipCacheFilters_of_match matches']
          dsimp only
          rw [Nat.sub_zero]
          generalize findCompactPostingIntersection target block 0 = start at moved bounded adds ⊢
          rcases Nat.lt_or_ge remaining start with wraps | fits
          · rw [subtract32_of_lt wraps (by omega), if_neg (by omega)]
            have more := adds (remaining + 2 ^ 32 - start) (by omega) (by omega) (by omega)
            obtain ⟨-, counts, falls⟩ := @loadPostings_bounds target block block.length start
              (remaining + 2 ^ 32 - start) cached bounded (by omega) (by omega)
            generalize loadPostings target block block.length start (remaining + 2 ^ 32 - start)
              cached = out at more counts falls ⊢
            obtain ⟨stop, left, kept⟩ := out
            dsimp only at more counts falls ⊢
            by_cases full : left ≤ kept.length
            · rw [if_pos full]
              exact .inr ⟨by dsimp only; omega, more⟩
            · rw [if_neg full]
              obtain ⟨growsOn, countsOn⟩ := @loadMainCache_bounds target blocks left kept later
                (by omega) (by omega)
              exact .inr ⟨by omega, by omega⟩
          · rw [subtract32_of_le fits (by omega)]
            by_cases nothing : start ≠ 0 ∧ remaining - start = 0
            · rw [if_pos nothing]
              exact .inl ⟨Nat.lt_of_lt_of_le positive covered, rfl⟩
            · rw [if_neg nothing, loadPostings_full (by omega)]
              dsimp only
              rw [if_pos (by omega)]
              exact .inl ⟨by dsimp only; omega, rfl⟩

end Loads

section Chains

variable {target : ScanTarget} {fulls tail : List MainPage} {own foreign : List MainBlock}

theorem length_flatMap_passing_le (blocks : List MainBlock) :
    (blocks.flatMap (passing target)).length ≤ blocks.flatten.length := by
  induction blocks with
  | nil => exact le_refl _
  | cons block blocks inductionHypothesis =>
      have := @length_passing_le target block
      rw [List.flatMap_cons, List.flatten_cons, List.length_append, List.length_append]
      omega

theorem scanBlocks_zero (blocks : List MainBlock) : scanBlocks target blocks 0 = ([], 0) := by
  cases blocks <;> rfl

theorem scanPages_zero (pages : List MainPage) : scanPages target pages 0 = [] := by
  cases pages <;> rfl

theorem nextMain_zero (fuel : Nat) (pages : List MainPage) (postingIndex : Nat) :
    nextMain target fuel pages postingIndex 0 = [] := by
  cases fuel <;> cases pages <;> rfl

theorem scanBlocks_own {remaining later : Nat} {blocks : List MainBlock}
    (nonempty : ∀ block ∈ own, block ≠ []) (counted : remaining = own.flatten.length + later)
    (small : remaining < 2 ^ 32) :
    scanBlocks target (own ++ blocks) remaining =
      (own.flatMap (passing target) ++ (scanBlocks target blocks later).1,
        (scanBlocks target blocks later).2) := by
  induction own generalizing remaining with
  | nil => simp [counted]
  | cons block own inductionHypothesis =>
      have isNonempty := nonempty block List.mem_cons_self
      have := List.length_pos_iff.2 isNonempty
      rw [List.flatten_cons, List.length_append] at counted
      have rest := @inductionHypothesis (own.flatten.length + later)
        (fun other member => nonempty other (List.mem_cons_of_mem _ member)) rfl (by omega)
      rw [List.cons_append, scanBlocks, if_neg (by omega)]
      cases matches' : blockMayMatch target block 0 with
      | false =>
          have left : remaining - block.length = own.flatten.length + later := by omega
          rw [skipCacheFilters_of_mismatch isNonempty (by omega) matches', min_eq_left (by omega)]
          dsimp only
          rw [left, rest, List.flatMap_cons, passing_of_mismatch matches', List.nil_append]
      | true =>
          obtain ⟨-, bounded⟩ := @findCompactPostingIntersection_le target block 0 (Nat.zero_le _)
          have sameFilter := @filter_intersection target block
          rw [skipCacheFilters_of_match matches']
          dsimp only
          rw [subtract32_of_le (by omega) small, List.take_of_length_le (by
            rw [List.length_drop]
            omega)]
          have left : remaining - findCompactPostingIntersection target block 0 -
              (block.drop (findCompactPostingIntersection target block 0)).length =
                own.flatten.length + later := by
            rw [List.length_drop]
            omega
          rw [left, rest, sameFilter, List.flatMap_cons, passing_of_match matches',
            List.append_assoc]

theorem scanPages_own {remaining : Nat} (nonempty : ∀ block ∈ fulls.flatten ++ own, block ≠ [])
    (isOwn : 0 < own.flatten.length)
    (counted : remaining = (fulls.flatten ++ own).flatten.length) (small : remaining < 2 ^ 32) :
    scanPages target (fulls ++ (own ++ foreign) :: tail) remaining =
      (fulls.flatten ++ own).flatMap (passing target) := by
  induction fulls generalizing remaining with
  | nil =>
      simp only [List.flatten_nil, List.nil_append] at nonempty counted ⊢
      rw [scanPages, if_neg (by omega), @scanBlocks_own _ _ _ 0 _ nonempty (by omega) small,
        scanBlocks_zero]
      dsimp only
      rw [scanPages_zero, List.append_nil, List.append_nil]
  | cons page fulls inductionHypothesis =>
      simp only [List.flatten_cons, List.append_assoc, List.flatten_append, List.length_append,
        List.mem_append] at nonempty counted inductionHypothesis ⊢
      have scanned := @scanBlocks_own target page remaining
        (fulls.flatten.flatten.length + own.flatten.length) []
        (fun block member => nonempty block (.inl member)) counted small
      rw [List.append_nil] at scanned
      rw [List.cons_append, scanPages, if_neg (by omega), scanned]
      dsimp only [scanBlocks]
      rw [inductionHypothesis (fun block member => nonempty block (.inr member)) rfl (by omega),
        List.append_nil, ← List.flatMap_append]

/-- Pages that hold nothing but blocks of the run -/
theorem nextMain_fulls {fuel later : Nat} {rest : List MainPage}
    (nonempty : ∀ block ∈ fulls.flatten, block ≠ []) (more : 0 < later)
    (small : fulls.flatten.flatten.length + later < 2 ^ 32) :
    nextMain target (fulls.length + fuel) (fulls ++ rest) 0
        (fulls.flatten.flatten.length + later) =
      fulls.flatten.flatMap (passing target) ++ nextMain target fuel rest 0 later := by
  induction fulls with
  | nil => simp
  | cons page fulls inductionHypothesis =>
      simp only [List.flatten_cons, List.flatten_append, List.length_append,
        List.mem_append] at nonempty small ⊢
      have loaded := @loadMainCache_run target []
        (page.flatten.length + fulls.flatten.flatten.length + later) [] page
        (fulls.flatten.flatten.length + later) (fun block member => nonempty block (.inl member))
        (by omega) (by rw [List.length_nil]; omega) small
      rw [List.append_nil, List.nil_append] at loaded
      have isFuel : (page :: fulls).length + fuel = (fulls.length + fuel) + 1 := by
        rw [List.length_cons]
        omega
      rw [isFuel, List.cons_append, nextMain, if_neg (by omega), loaded]
      dsimp only [loadMainCache]
      rw [List.take_of_length_le (Nat.le_add_right _ _), Nat.add_sub_cancel_left,
        inductionHypothesis (fun block member => nonempty block (.inr member)) (by omega),
        List.flatMap_append, List.append_assoc]

variable (target) in
/-- After the last block of a run, the load goes on with a block of another run. -/
structure Overruns (before : List MainBlock) (last : MainBlock) (foreign : List MainBlock) :
    Prop where
  cached : before.flatMap (passing target) ≠ []
  skipped : blockMayMatch target last 0 = false
  shortens : ∃ other more, foreign = other :: more ∧ Shortens target other

variable {before : List MainBlock} {last : MainBlock}

/-- The load of the page on which a run ends -/
theorem loadMainCache_last (nonempty : ∀ block ∈ before ++ last :: foreign, block ≠ [])
    (small : (before ++ [last]).flatten.length < 2 ^ 32) :
    loadMainCache target (before ++ last :: foreign) 0 (before ++ [last]).flatten.length [] =
      loadMainCache target (last :: foreign) 0
        ((before.flatMap (passing target)).length + last.length)
        (before.flatMap (passing target)) := by
  have isNonempty := List.length_pos_iff.2 (nonempty last (by simp))
  rw [List.flatten_append, List.flatten_singleton, List.length_append] at small ⊢
  have loaded := @loadMainCache_run target (last :: foreign)
    (before.flatten.length + last.length) [] before last.length
    (fun block member => nonempty block (List.mem_append_left _ member)) isNonempty
    (by rw [List.length_nil]; omega) small
  rwa [List.nil_append] at loaded

theorem nextMain_last {fuel : Nat} (nonempty : ∀ block ∈ before ++ last :: foreign, block ≠ [])
    (small : (before ++ [last]).flatten.length < 2 ^ 32)
    (stays : ¬Overruns target before last foreign) :
    nextMain target (fuel + 1) ((before ++ last :: foreign) :: tail) 0
        (before ++ [last]).flatten.length =
      (before ++ [last]).flatMap (passing target) := by
  have isNonempty := nonempty last (by simp)
  have positive := List.length_pos_iff.2 isNonempty
  have counted : (before ++ [last]).flatten.length = before.flatten.length + last.length := by
    rw [List.flatten_append, List.flatten_singleton, List.length_append]
  have passed := @length_flatMap_passing_le target before
  -- Where the count is the length of the cache, what is cached is all that the scan still emits.
  suffices load : ∃ next, loadMainCache target (before ++ last :: foreign) 0
      (before ++ [last]).flatten.length [] =
        ⟨((before ++ [last]).flatMap (passing target)).length,
          (before ++ [last]).flatMap (passing target), next⟩ by
    obtain ⟨next, load⟩ := load
    rw [nextMain, if_neg (by omega), load]
    dsimp only
    rw [List.take_length, Nat.sub_self]
    rcases next with _ | ⟨blocks, postingIndex⟩
    · rw [nextMain_zero, List.append_nil]
    · dsimp only
      rw [nextMain_zero, List.append_nil]
  rw [loadMainCache_last nonempty small, List.flatMap_append, List.flatMap_singleton]
  cases matches' : blockMayMatch target last 0 with
  | true => exact ⟨none, loadMainCache_end matches' rfl (by omega)⟩
  | false =>
      rw [loadMainCache_end_skipped isNonempty matches' rfl, passing_of_mismatch matches',
        List.append_nil]
      by_cases empty : before.flatMap (passing target) = []
      · rw [if_pos empty, empty]
        exact ⟨none, rfl⟩
      · rw [if_neg empty]
        cases foreign with
        | nil => exact ⟨none, rfl⟩
        | cons other more =>
            exact ⟨_, loadMainCache_foreign (nonempty other (by simp))
              (fun shortens => stays ⟨empty, matches', other, more, rfl, shortens⟩) (by omega)⟩

theorem nextMain_last_overruns {fuel : Nat}
    (nonempty : ∀ block ∈ before ++ last :: foreign, block ≠ [])
    (room : (before ++ last :: foreign).flatten.length < 2 ^ 31)
    (overruns : Overruns target before last foreign) :
    nextMain target (fuel + 1) ((before ++ last :: foreign) :: tail) 0
        (before ++ [last]).flatten.length ≠
      (before ++ [last]).flatMap (passing target) := by
  obtain ⟨cached, skipped, shortens⟩ := overruns
  have isNonempty := nonempty last (by simp)
  have positive := List.length_pos_iff.2 isNonempty
  have counted : (before ++ [last]).flatten.length = before.flatten.length + last.length := by
    rw [List.flatten_append, List.flatten_singleton, List.length_append]
  have total : (before ++ last :: foreign).flatten.length =
      before.flatten.length + (last.length + foreign.flatten.length) := by
    rw [List.flatten_append, List.flatten_cons, List.length_append, List.length_append]
  have passed := @length_flatMap_passing_le target before
  have held := List.length_pos_iff.2 cached
  have outcome := @loadMainCache_overrun target foreign
    (before.flatMap (passing target)).length (before.flatMap (passing target))
    (fun block member => nonempty block (by simp [member])) held (le_refl _) (.inr shortens)
    (by omega)
  rw [nextMain, if_neg (by omega), loadMainCache_last nonempty (by omega),
    loadMainCache_end_skipped isNonempty skipped rfl, if_neg cached, List.flatMap_append,
    List.flatMap_singleton, passing_of_mismatch skipped, List.append_nil]
  generalize loadMainCache target foreign 0 (before.flatMap (passing target)).length
    (before.flatMap (passing target)) = load at outcome ⊢
  obtain ⟨remaining, kept, next⟩ := load
  dsimp only at outcome ⊢
  intro same
  have lengths := congrArg List.length same
  rcases outcome with ⟨short, unchanged⟩ | ⟨long, more⟩
  · have nothing : remaining - kept.length = 0 := by
      rw [unchanged]
      omega
    rw [nothing, unchanged, List.length_append, List.length_take] at lengths
    rcases next with _ | ⟨blocks, postingIndex⟩
    · dsimp only at lengths
      rw [nextMain_zero, List.length_nil] at lengths
      omega
    · dsimp only at lengths
      rw [nextMain_zero, List.length_nil] at lengths
      omega
  · rw [List.length_append, List.length_take] at lengths
    omega

/-- The pages that hold a run: whole pages, then the start of another one -/
theorem pages_split {chain : List MainPage} {own later : List MainBlock}
    (split : chain.flatten = own ++ later) (nonempty : own ≠ []) :
    ∃ fulls part foreign tail, chain = fulls ++ (part ++ foreign) :: tail ∧
      own = fulls.flatten ++ part ∧ part ≠ [] := by
  induction chain generalizing own with
  | nil => exact absurd (List.append_eq_nil_iff.1 split.symm).1 nonempty
  | cons page pages inductionHypothesis =>
      rw [List.flatten_cons] at split
      rcases List.append_eq_append_iff.1 split with ⟨rest, isOwn, isRest⟩ | ⟨foreign, isPage, -⟩
      · by_cases last : rest = []
        · exact ⟨[], page, [], pages, by simp, by simp [isOwn, last], fun empty => nonempty (by
            rw [isOwn, last, empty]
            rfl)⟩
        · obtain ⟨fulls, part, foreign, tail, isChain, isPart, some⟩ :=
            inductionHypothesis isRest last
          exact ⟨page :: fulls, part, foreign, tail, by rw [isChain, List.cons_append],
            by rw [isOwn, isPart, List.flatten_cons, List.append_assoc], some⟩
      · exact ⟨[], own, foreign, pages, by rw [isPage]; rfl, rfl, nonempty⟩

variable (target) in
/-- The last block of the run of so many postings is skipped, postings of the run on its page are
in the cache, and the filters take postings of the block after it away as well. -/
def CutsShort (chain : List MainPage) (count : Nat) : Prop :=
  ∃ (fulls : List MainPage) (before : List MainBlock) (last : MainBlock)
    (foreign : List MainBlock) (tail : List MainPage),
    chain = fulls ++ (before ++ last :: foreign) :: tail ∧
      (fulls.flatten ++ (before ++ [last])).flatten.length = count ∧
      Overruns target before last foreign

variable {chain : List MainPage}

/-- A scan of the pages of a chain, up to the page on which the run ends -/
theorem nextMain_split {fuel count : Nat} (isChain : chain = fulls ++ (before ++ last :: foreign) :: tail)
    (nonempty : ∀ block ∈ chain.flatten, block ≠ [])
    (counted : (fulls.flatten ++ (before ++ [last])).flatten.length = count)
    (small : count < 2 ^ 32) :
    nextMain target (fulls.length + fuel) chain 0 count =
        fulls.flatten.flatMap (passing target) ++
          nextMain target fuel ((before ++ last :: foreign) :: tail) 0
            (before ++ [last]).flatten.length ∧
      scanPages target chain count =
        fulls.flatten.flatMap (passing target) ++ (before ++ [last]).flatMap (passing target) := by
  subst isChain
  simp only [List.flatten_append, List.flatten_cons, List.mem_append] at nonempty
  have positive : 0 < (before ++ [last]).flatten.length := by
    have := List.length_pos_iff.2 (nonempty last (by simp))
    rw [List.flatten_append, List.flatten_singleton, List.length_append]
    omega
  have shape : before ++ last :: foreign = (before ++ [last]) ++ foreign := by simp
  constructor
  · rw [List.flatten_append, List.length_append] at counted
    rw [← counted, nextMain_fulls (fun block member => nonempty block (.inl member)) positive
      (by omega)]
  · have own : ∀ block ∈ fulls.flatten ++ (before ++ [last]), block ≠ [] := fun block member =>
      nonempty block (by
        rcases List.mem_append.1 member with full | part
        · exact .inl full
        · rcases List.mem_append.1 part with early | isLast
          · exact .inr (.inl (.inl early))
          · exact .inr (.inl (.inr (List.mem_cons.2 (.inl (List.mem_singleton.1 isLast))))))
    rw [shape, scanPages_own own positive counted.symm small, List.flatMap_append]

/-- The plain scan emits what passes of each block of the run. -/
theorem scanPages_eq {own later : List MainBlock} (isChain : chain.flatten = own ++ later)
    (isRun : own ≠ []) (nonempty : ∀ block ∈ chain.flatten, block ≠ [])
    (small : own.flatten.length < 2 ^ 32) :
    scanPages target chain own.flatten.length = own.flatMap (passing target) := by
  obtain ⟨fulls, part, foreign, tail, split, isOwn, some⟩ := pages_split isChain isRun
  rcases List.eq_nil_or_concat' part with empty | ⟨before, last, rfl⟩
  · exact absurd empty some
  rw [List.append_assoc, List.singleton_append] at split
  rw [(@nextMain_split target fulls tail foreign before last chain 0 own.flatten.length split
    nonempty (by rw [isOwn]) small).2, ← List.flatMap_append, ← isOwn]

theorem CutsShort.scanPages_ne_nil {count : Nat} (cut : CutsShort target chain count)
    (nonempty : ∀ block ∈ chain.flatten, block ≠ []) (small : count < 2 ^ 32) :
    scanPages target chain count ≠ [] := by
  obtain ⟨fulls, before, last, foreign, tail, split, counted, overruns⟩ := cut
  rw [(@nextMain_split target fulls tail foreign before last chain 0 count split nonempty counted
    small).2, List.flatMap_append]
  intro empty
  exact overruns.cached (List.append_eq_nil_iff.1 (List.append_eq_nil_iff.1 empty).2).1

/-- The cached scan of a run emits what the plain one does, unless it is cut short. -/
theorem nextMain_eq_iff {own later : List MainBlock} (isChain : chain.flatten = own ++ later)
    (isRun : own ≠ []) (nonempty : ∀ block ∈ chain.flatten, block ≠ [])
    (room : ∀ page ∈ chain, page.flatten.length < 2 ^ 31)
    (small : own.flatten.length < 2 ^ 32) :
    nextMain target (chain.length + 1) chain 0 own.flatten.length =
        scanPages target chain own.flatten.length ↔
      ¬CutsShort target chain own.flatten.length := by
  constructor
  · rintro same ⟨fulls, before, last, foreign, tail, split, counted, overruns⟩
    obtain ⟨cached, plain⟩ := @nextMain_split target fulls tail foreign before last chain
      (tail.length + 2) _ split nonempty counted small
    have fuel : chain.length + 1 = fulls.length + (tail.length + 2) := by
      rw [split, List.length_append, List.length_cons]
      omega
    rw [fuel, cached, plain] at same
    refine nextMain_last_overruns (fun block member => nonempty block ?_) (room _ ?_) overruns
      (List.append_cancel_left same)
    · rw [split, List.flatten_append, List.flatten_cons]
      exact List.mem_append_right _ (List.mem_append_left _ member)
    · rw [split]
      simp
  · intro whole
    obtain ⟨fulls, part, foreign, tail, split, isOwn, some⟩ := pages_split isChain isRun
    rcases List.eq_nil_or_concat' part with empty | ⟨before, last, rfl⟩
    · exact absurd empty some
    rw [List.append_assoc, List.singleton_append] at split
    obtain ⟨cached, plain⟩ := @nextMain_split target fulls tail foreign before last chain
      (tail.length + 2) own.flatten.length split nonempty (by rw [isOwn]) small
    have fuel : chain.length + 1 = fulls.length + (tail.length + 2) := by
      rw [split, List.length_append, List.length_cons]
      omega
    have part : (before ++ [last]).flatten.length < 2 ^ 32 := by
      rw [isOwn, List.flatten_append, List.length_append] at small
      omega
    rw [fuel, cached, plain, nextMain_last (fun block member => nonempty block ?_) part
      fun overruns => whole ⟨fulls, before, last, foreign, tail, split, by rw [isOwn], overruns⟩]
    rw [split, List.flatten_append, List.flatten_cons]
    exact List.mem_append_right _ (List.mem_append_left _ member)

end Chains

section Room

variable {geometry : Geometry}

/-- Blocks count their postings in 16 bits, and a page has 8112 bytes for its blocks. -/
structure Geometry.Bounded (geometry : Geometry) : Prop where
  block : ∀ compact count, geometry.blockFits compact count = true → count < 2 ^ 31
  page : ∀ page block, geometry.pageRoom page block = true →
    (page ++ [block]).flatten.length < 2 ^ 31

/-- What a block takes of a page: its size as `MAXALIGN` rounds it up, and a line pointer. -/
def mainRunItemSize (block : Block) : Nat :=
  (mainRunBlockSize (mainRunBlockCanCompact block).isSome block.length + 7) / 8 * 8 + 4

/-- The test of `PageGetExactFreeSpace` for a main page of 8112 usable bytes -/
def mainPageRoom (page : Page) (block : Block) : Bool :=
  ((page ++ [block]).map mainRunItemSize).sum ≤ 8112

theorem length_flatten_le_itemSizes (page : Page) :
    18 * page.flatten.length ≤ (page.map mainRunItemSize).sum := by
  induction page with
  | nil => exact Nat.le_refl _
  | cons block rest ih =>
      have least : 18 * block.length ≤ mainRunItemSize block := by
        unfold mainRunItemSize mainRunBlockSize
        split_ifs <;> omega
      rw [List.flatten_cons, List.length_append, List.map_cons, List.sum_cons]
      omega

/-- With the sizes of the disk, a page counts its postings without overflow. -/
theorem bounded_of_sizes {geometry : Geometry} (sizes : geometry.blockFits = mainRunBlockFits)
    (room : geometry.pageRoom = mainPageRoom) : geometry.Bounded where
  block compact count fits := by
    rw [sizes, mainRunBlockFits, Bool.and_eq_true, Bool.and_eq_true, decide_eq_true_eq] at fits
    omega
  page page block hasRoom := by
    rw [room, mainPageRoom, decide_eq_true_eq] at hasRoom
    have least := length_flatten_le_itemSizes (page ++ [block])
    omega

theorem takeChunk_bounded (bounded : geometry.Bounded) {compact : Bool}
    {edgeLabelId nextLabelId : Int} {count : Nat} {postings : List Posting} (few : count < 2 ^ 31) :
    count + (takeChunk geometry compact edgeLabelId nextLabelId count postings).1.length <
      2 ^ 31 := by
  induction postings generalizing count with
  | nil => simpa [takeChunk] using few
  | cons posting rest inductionHypothesis =>
      rw [takeChunk]
      split_ifs with taken
      · rw [Bool.and_eq_true, Bool.and_eq_true] at taken
        have := inductionHypothesis (bounded.block compact _ taken.1.1)
        dsimp only
        rw [List.length_cons]
        omega
      · exact few

theorem chunks_bounded (bounded : geometry.Bounded) {fuel : Nat} {postings : List Posting} :
    ∀ block ∈ chunks geometry fuel postings, block.length < 2 ^ 31 := by
  induction fuel generalizing postings with
  | zero => simp [chunks]
  | succ fuel inductionHypothesis =>
      cases postings with
      | nil => simp [chunks]
      | cons posting rest =>
          rw [chunks]
          intro block member
          rcases List.mem_cons.1 member with rfl | later
          · have := @takeChunk_bounded _ bounded
              (labelIdIsValid (getGraphidLabelId posting.edgeId) &&
                labelIdIsValid (getGraphidLabelId posting.nextVertexId))
              (getGraphidLabelId posting.edgeId) (getGraphidLabelId posting.nextVertexId) 1 rest
              (by decide)
            rw [List.length_cons]
            omega
          · exact inductionHypothesis block later

theorem appendBlocks_room (bounded : geometry.Bounded) {blocks : List Block} {pages : List Page}
    (few : ∀ block ∈ blocks, block.length < 2 ^ 31)
    (room : ∀ page ∈ pages, page.flatten.length < 2 ^ 31) :
    ∀ page ∈ blocks.foldl (appendMainBlock geometry) pages, page.flatten.length < 2 ^ 31 := by
  induction blocks generalizing pages with
  | nil => exact room
  | cons block blocks inductionHypothesis =>
      refine inductionHypothesis (fun other member => few other (List.mem_cons_of_mem _ member))
        fun page member => ?_
      have small := few block List.mem_cons_self
      have alone : ([block] : Page).flatten.length < 2 ^ 31 := by
        rwa [List.flatten_singleton]
      unfold appendMainBlock at member
      split at member
      · rw [List.mem_singleton.1 member]
        exact alone
      · split_ifs at member with hasRoom
        · rcases List.mem_append.1 member with early | last
          · exact room page (List.dropLast_subset _ early)
          · rw [List.mem_singleton.1 last]
            exact bounded.page _ _ hasRoom
        · rcases List.mem_append.1 member with early | last
          · exact room page early
          · rw [List.mem_singleton.1 last]
            exact alone

theorem buildMainRuns_room (bounded : geometry.Bounded) (postings : List Posting) :
    ∀ page ∈ (buildMainRuns geometry postings).pages, page.flatten.length < 2 ^ 31 := by
  suffices general : ∀ (runs : List (List Posting)) (state : BuildState),
      (∀ page ∈ state.pages, page.flatten.length < 2 ^ 31) →
      ∀ page ∈ (runs.foldl (Adjacency.buildRun geometry) state).pages,
        page.flatten.length < 2 ^ 31 from
    general (keyRuns postings) ⟨[], []⟩ (by simp)
  intro runs
  induction runs with
  | nil => exact fun _ room => room
  | cons run runs inductionHypothesis =>
      intro state room
      refine inductionHypothesis _ ?_
      have few := @chunks_bounded _ bounded run.length run
      unfold Adjacency.buildRun
      cases blocks : chunks geometry run.length run with
      | nil => exact room
      | cons first rest =>
          rw [blocks] at few
          exact @appendBlocks_room _ bounded (first :: rest) _ few room

end Room

section Index

variable (target : ScanTarget) (visible : MainPosting → Bool)

namespace Stored

variable (stored : Stored) (key : GraphId)

/-- The pages from the run of a key on, the first from the block the run starts at -/
def runChain : List MainPage :=
  match stored.mainIndex.findDirectoryEntry key with
  | none => []
  | some entry =>
      match stored.main.drop entry.firstBlkno with
      | [] => []
      | page :: pages => page.drop entry.firstOffnum :: pages

/-- What `age_adjacency_scan_posting_run` emits of the run of a key -/
def scanRun : List MainPosting :=
  (scanPages target (stored.runChain key) (stored.mainIndex.runCount key)).filter visible

/-- `age_adjacency_visible_payload_scan_begin_key`, then
`age_adjacency_visible_payload_scan_next_main` until it finds no more -/
def cachedRun : List MainPosting :=
  let chain := stored.runChain key
  let count := stored.mainIndex.runCount key
  if entryMatchesCompositeTarget target (chain.flatten.flatten.take count) then
    (nextMain target (chain.length + 1) chain 0 count).filter visible
  else []

end Stored

/-- The blocks that so many postings fill -/
def runBlocks : List MainBlock → Nat → List MainBlock
  | [], _ => []
  | block :: blocks, count =>
      if count = 0 then [] else block :: runBlocks blocks (count - block.length)

variable {target : ScanTarget} {geometry : Geometry}

theorem runBlocks_append {own later : List MainBlock}
    (nonempty : ∀ block ∈ own, block ≠ []) :
    runBlocks (own ++ later) own.flatten.length = own := by
  induction own with
  | nil => cases later <;> rfl
  | cons block own inductionHypothesis =>
      have := List.length_pos_iff.2 (nonempty block List.mem_cons_self)
      rw [List.cons_append, runBlocks, List.flatten_cons, List.length_append, if_neg (by omega),
        Nat.add_sub_cancel_left,
        inductionHypothesis fun other member => nonempty other (List.mem_cons_of_mem _ member)]

theorem runChain_flatten {stored : Stored} {key : GraphId} {entry : DirectoryEntry}
    (found : stored.mainIndex.findDirectoryEntry key = some entry) :
    (stored.runChain key).flatten =
      blocksFrom stored.main entry.firstBlkno entry.firstOffnum := by
  rw [Stored.runChain, found, blocksFrom]
  dsimp only
  rw [← List.drop_drop]
  cases from' : stored.main.drop entry.firstBlkno with
  | nil =>
      have none : stored.main[entry.firstBlkno]? = none :=
        List.getElem?_eq_none_iff.2 (List.drop_eq_nil_iff.1 from')
      simp [none]
  | cons page rest =>
      have here : stored.main[entry.firstBlkno]? = some page := by
        rw [← List.head?_drop, from']
        rfl
      simp [here]

/-- The main chain after inserts is the one that was built. -/
theorem run_inserts_main (built inserted : List Posting) :
    (Stored.run geometry built (inserted.map IndexOp.insert)).main =
      (buildMainRuns geometry built).pages.map (List.map (List.map Posting.main)) := by
  rw [run_main, compactPages_of_alive]
  intro posting _
  rw [survives, List.all_map, List.all_eq_true]
  exact fun _ _ => rfl

/-- The blocks of a run, on pages with room for them -/
theorem runChain_own (bounded : geometry.Bounded) {built inserted : List Posting} {key : GraphId}
    {entry : DirectoryEntry}
    (found : (Stored.run geometry built (inserted.map IndexOp.insert)).mainIndex.findDirectoryEntry
      key = some entry) :
    ∃ own later, ((Stored.run geometry built (inserted.map IndexOp.insert)).runChain key).flatten =
        own ++ later ∧ own ≠ [] ∧
      (∃ run ∈ keyRuns built, own.flatten.length = run.length ∧ entry.postingCount = run.length) ∧
      (∀ block ∈ own ++ later, block ≠ []) ∧
      ∀ page ∈ (Stored.run geometry built (inserted.map IndexOp.insert)).runChain key,
        page.flatten.length < 2 ^ 31 := by
  obtain ⟨runsBefore, run, runsAfter, runs, -, count, located⟩ := findDirectoryEntry_split found
  obtain ⟨own, later, split, isRun, -⟩ := located.own
  have isMember : run ∈ keyRuns built := by simp [runs]
  have main := @run_inserts_main geometry built inserted
  have flat := runChain_flatten found
  rw [main, blocksFrom_map, split, List.map_append] at flat
  have length : (own.map (List.map Posting.main)).flatten.length = run.length := by
    rw [← List.map_flatten, List.length_map, isRun]
  refine ⟨_, _, flat, fun empty => ?_, ⟨run, isMember, length, count⟩, ?_, ?_⟩
  · rw [empty] at length
    exact List.ne_nil_of_mem_splitBy isMember (List.length_eq_zero_iff.1 length.symm)
  · intro block member
    rw [← List.map_append, ← split] at member
    obtain ⟨source, inside, rfl⟩ := List.mem_map.1 member
    have onChain : source ∈ (buildMainRuns geometry built).pages.flatten := by
      rw [← blocks_split _ entry.firstBlkno entry.firstOffnum]
      exact List.mem_append_right _ inside
    rw [Ne, List.map_eq_nil_iff]
    exact (buildMainRuns_laid built).nonempty source onChain
  · have room : ∀ page ∈ (Stored.run geometry built (inserted.map IndexOp.insert)).main,
        page.flatten.length < 2 ^ 31 := by
      rw [main]
      intro page member
      obtain ⟨source, inside, rfl⟩ := List.mem_map.1 member
      rw [← List.map_flatten, List.length_map]
      exact buildMainRuns_room bounded built source inside
    intro page member
    rw [Stored.runChain, found] at member
    dsimp only at member
    split at member
    · cases member
    · rename_i first rest isDrop
      have sub : ∀ page ∈ first :: rest, page.flatten.length < 2 ^ 31 := fun page inside =>
        room page (List.drop_subset entry.firstBlkno _ (isDrop ▸ inside))
      rcases List.mem_cons.1 member with rfl | later
      · refine Nat.lt_of_le_of_lt ?_ (sub first List.mem_cons_self)
        exact ((List.drop_sublist _ _).flatten).length_le
      · exact sub page (List.mem_cons_of_mem _ later)

theorem filter_eq_iff {α : Type} {items others : List α} :
    (∀ test : α → Bool, items.filter test = others.filter test) ↔ items = others := by
  constructor
  · intro all
    simpa using all fun _ => true
  · rintro rfl _
    rfl

/-- The cached scan of a key emits what the plain one does, whatever is visible, if and only if
the directory entry speaks against no block that passes a posting, and the run is not cut short on
its last page. -/
theorem cachedRun_eq_scanRun_iff (bounded : geometry.Bounded) (built inserted : List Posting)
    (short : ∀ run ∈ keyRuns built, run.length ≤ 4294967295) (target : ScanTarget)
    (key : GraphId) :
    let stored := Stored.run geometry built (inserted.map IndexOp.insert)
    let chain := stored.runChain key
    let count := stored.mainIndex.runCount key
    (∀ visible, stored.cachedRun target visible key = stored.scanRun target visible key) ↔
      (entryMatchesCompositeTarget target (chain.flatten.flatten.take count) = true ∨
        ∀ block ∈ runBlocks chain.flatten count, passing target block = []) ∧
      ¬CutsShort target chain count := by
  intro stored chain count
  cases found : stored.mainIndex.findDirectoryEntry key with
  | none =>
      have isChain : chain = [] := by
        simp only [chain, Stored.runChain, found]
      have isCount : count = 0 := by
        simp [count, Index.runCount, found]
      constructor
      · intro _
        rw [isChain]
        refine ⟨.inr fun block member => absurd member (by simp [runBlocks]), ?_⟩
        rintro ⟨fulls, before, last, foreign, tail, split, -⟩
        simp at split
      · intro _ visible
        change (if _ then (nextMain target (chain.length + 1) chain 0 count).filter visible else []) =
          (scanPages target chain count).filter visible
        rw [isChain, isCount, nextMain_zero, scanPages_zero, List.filter_nil, ite_self]
  | some entry =>
      obtain ⟨own, later, flat, isRun, ⟨run, isMember, length, entryCount⟩, nonempty, room⟩ :=
        runChain_own bounded found
      have isCount : count = own.flatten.length := by
        rw [length, ← entryCount]
        simp [count, Index.runCount, found]
      have small : own.flatten.length < 2 ^ 32 := by
        have := short run isMember
        omega
      have same := @nextMain_eq_iff target chain own later flat isRun (flat ▸ nonempty) room small
      have blocks : runBlocks chain.flatten count = own := by
        rw [isCount, flat]
        exact runBlocks_append fun block member => nonempty block (List.mem_append_left _ member)
      have plain := @scanPages_eq target chain own later flat isRun (flat ▸ nonempty) small
      have nothing : own.flatMap (passing target) = [] ↔ ∀ block ∈ own, passing target block = [] :=
        List.flatMap_eq_nil_iff
      have scanned : ∀ visible, stored.scanRun target visible key =
          (scanPages target chain own.flatten.length).filter visible := by
        intro visible
        rw [← isCount]
        rfl
      rw [blocks, ← nothing, ← plain, isCount]
      cases admits : entryMatchesCompositeTarget target
        (chain.flatten.flatten.take own.flatten.length) with
      | true =>
          have cached : ∀ visible, stored.cachedRun target visible key =
              (nextMain target (chain.length + 1) chain 0 own.flatten.length).filter visible := by
            intro visible
            change (if entryMatchesCompositeTarget target (chain.flatten.flatten.take count) then
              (nextMain target (chain.length + 1) chain 0 count).filter visible else []) = _
            rw [isCount, admits, if_pos rfl]
          simp only [cached, scanned, filter_eq_iff, same, true_or, true_and]
      | false =>
          have cached : ∀ visible, stored.cachedRun target visible key = [].filter visible := by
            intro visible
            change (if entryMatchesCompositeTarget target (chain.flatten.flatten.take count) then
              (nextMain target (chain.length + 1) chain 0 count).filter visible else []) = _
            rw [isCount, admits, if_neg Bool.false_ne_true]
            rfl
          simp only [cached, scanned, filter_eq_iff, Bool.false_eq_true, false_or]
          constructor
          · intro empty
            exact ⟨empty.symm, fun cut => cut.scanPages_ne_nil (flat ▸ nonempty) small empty.symm⟩
          · exact fun both => both.1.symm

theorem length_le_of_keyRuns {built run : List Posting} (isRun : run ∈ keyRuns built) :
    run.length ≤ built.length := by
  have inside := (List.sublist_flatten_of_mem isRun).length_le
  rwa [(keyRuns_perm built).length_eq] at inside

/-- Pages for 300 postings -/
def smallGeometry : Geometry :=
  ⟨fun _ count => count ≤ 300, fun page block => (page ++ [block]).flatten.length ≤ 300,
    fun _ => true⟩

theorem smallGeometry_bounded : smallGeometry.Bounded :=
  ⟨fun _ _ fits => Nat.lt_of_le_of_lt (of_decide_eq_true fits) (by decide),
    fun _ _ room => Nat.lt_of_le_of_lt (of_decide_eq_true room) (by decide)⟩

/-- Vertex `1.1` has edges to a vertex of label 3 and one of label 4, and vertex `1.2` to the
latter. -/
def sharedPage : List Posting :=
  [⟨281474976710657, ⟨0, 1⟩, 1407374883553281, 844424930131969⟩,
    ⟨281474976710657, ⟨0, 2⟩, 1407374883553282, 1125899906842625⟩,
    ⟨281474976710658, ⟨0, 3⟩, 1407374883553283, 1125899906842625⟩]

/-- Only vertices of one label -/
def labelTarget (terminalLabelId : Int) : ScanTarget :=
  ⟨terminalLabelId, .ofRange none, none⟩

theorem buildMainRuns_sharedPage : buildMainRuns smallGeometry sharedPage =
    ⟨[sharedPage.map List.singleton], [⟨281474976710657, 0, 0, 2⟩, ⟨281474976710658, 0, 2, 1⟩]⟩ := by
  have runs : keyRuns sharedPage = [sharedPage.take 2, sharedPage.drop 2] := by
    rw [keyRuns, sortPostings, List.mergeSort_of_pairwise (by
      unfold sharedPage
      simp only [List.pairwise_cons]
      decide)]
    decide
  rw [buildMainRuns, runs]
  rfl

theorem cachedRun_eq_scanRun_unfiltered :
    let stored := Stored.run smallGeometry sharedPage (List.map IndexOp.insert [])
    ∀ visible, stored.cachedRun (labelTarget 0) visible 281474976710657 =
      stored.scanRun (labelTarget 0) visible 281474976710657 := by
  refine (cachedRun_eq_scanRun_iff smallGeometry_bounded sharedPage []
    (fun run isRun => le_trans (length_le_of_keyRuns isRun) (by decide)) (labelTarget 0)
    281474976710657).2 ⟨.inl ?_, ?_⟩
  · rw [Stored.runChain, Stored.mainIndex, run_inserts_main, run_directory,
      buildMainRuns_sharedPage]
    decide
  · rintro ⟨_, _, last, _, _, _, _, overruns⟩
    have skipped := overruns.skipped
    cases compact : compactNextLabelId last <;>
      simp [blockMayMatch, blockMatchesTerminalLabel, mayMatchVertexRange, mayMatchExactVertex,
        mayMatchCompressedVertex, mayMatchWideVertexBloom, blockMayMatchCompactPostings, labelTarget,
        VertexSetFilter.ofRange, VertexSetFilter.hasVertices, labelIdIsValid, compact] at skipped

/-- For the vertices of label 3, the block of the edge to label 4 is skipped with the other edge in
the cache; the block of `1.2`, skipped next, takes that edge from the count. -/
theorem cachedRun_loses_posting :
    let stored := Stored.run smallGeometry sharedPage (List.map IndexOp.insert [])
    (∀ visible, stored.cachedRun (labelTarget 3) visible 281474976710657 = []) ∧
      stored.scanRun (labelTarget 3) (fun _ => true) 281474976710657 =
        [⟨⟨0, 1⟩, 1407374883553281, 844424930131969⟩] ∧
      ¬∀ visible, stored.cachedRun (labelTarget 3) visible 281474976710657 =
        stored.scanRun (labelTarget 3) visible 281474976710657 := by
  intro stored
  have chain : stored.runChain 281474976710657 =
      [sharedPage.map fun posting => [posting.main]] := by
    rw [Stored.runChain, Stored.mainIndex, run_inserts_main, run_directory,
      buildMainRuns_sharedPage]
    rfl
  have count : stored.mainIndex.runCount 281474976710657 = 2 := by
    rw [Index.runCount, Stored.mainIndex, run_inserts_main, run_directory, buildMainRuns_sharedPage]
    rfl
  have cached : ∀ visible, stored.cachedRun (labelTarget 3) visible 281474976710657 = [] := by
    have lost : nextMain (labelTarget 3) 2 [sharedPage.map fun posting => [posting.main]] 0 2 =
        [] := by decide
    intro visible
    rw [Stored.cachedRun, chain, count]
    dsimp only [List.length_singleton]
    rw [lost, List.filter_nil, ite_self]
  have plain : stored.scanRun (labelTarget 3) (fun _ => true) 281474976710657 =
      [⟨⟨0, 1⟩, 1407374883553281, 844424930131969⟩] := by
    rw [Stored.scanRun, chain, count]
    decide
  refine ⟨cached, plain, fun same => ?_⟩
  have empty := same fun _ => true
  rw [cached, plain] at empty
  cases empty

end Index

end Age.Adjacency
