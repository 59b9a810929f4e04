import Age.Adjacency.Codec

/-!
# What a scan filters by

A scan may ask for a label of the vertices that edges lead to, and for a set of these vertices.
Directory entries and blocks of the main chain carry summaries of the next vertices of their
postings, from which a scan may pass over a whole run or a whole block.
-/

namespace Age.Adjacency

open Vle (getGraphidLabelId labelIdIsValid)

section Bloom

def vertexBloomMix (vertexId : GraphId) : UInt64 :=
  let hash := vertexId.toUInt64
  let mixed := (hash ^^^ (hash >>> 33)) * 0xff51afd7ed558ccd
  let mixed := (mixed ^^^ (mixed >>> 33)) * 0xc4ceb9fe1a85ec53
  mixed ^^^ (mixed >>> 33)

/-- `age_adjacency_vertex_bloom_add` -/
def vertexBloomAdd (bloom : UInt64) (vertexId : GraphId) : UInt64 :=
  let mixed := vertexBloomMix vertexId
  let bit : UInt64 := 1
  bloom ||| (bit <<< (mixed &&& 63)) ||| (bit <<< ((mixed >>> 6) &&& 63)) |||
    (bit <<< ((mixed >>> 12) &&& 63))

/-- `age_adjacency_vertex_bloom_may_contain` -/
def vertexBloomMayContain (bloom : UInt64) (vertexId : GraphId) : Bool :=
  bloom == 0 || (bloom &&& vertexBloomAdd 0 vertexId) == vertexBloomAdd 0 vertexId

/-- The words of a wider bloom are one number, the first word lowest. -/
def setBloomBit (bloom : Nat) (word bit : UInt64) : Nat :=
  bloom ||| 1 <<< (64 * word.toNat + bit.toNat)

/-- `age_adjacency_vertex_bloom256_add` -/
def vertexBloom256Add (bloom : Nat) (vertexId : GraphId) : Nat :=
  let mixed := vertexBloomMix vertexId
  setBloomBit (setBloomBit (setBloomBit bloom (mixed &&& 3) ((mixed >>> 2) &&& 63))
    ((mixed >>> 8) &&& 3) ((mixed >>> 10) &&& 63)) ((mixed >>> 16) &&& 3) ((mixed >>> 18) &&& 63)

/-- `age_adjacency_vertex_bloom256_may_contain` -/
def vertexBloom256MayContain (bloom : Nat) (vertexId : GraphId) : Bool :=
  bloom == 0 || (bloom &&& vertexBloom256Add 0 vertexId) == vertexBloom256Add 0 vertexId

/-- `age_adjacency_value_posting_bloom_add`, with eight words -/
def valuePostingBloomAdd (bloom : Nat) (vertexId : GraphId) : Nat :=
  ((List.range 6).foldl (fun (state : Nat × UInt64) step =>
    let mixed := state.2 + 0x9e3779b97f4a7c15 * UInt64.ofNat (step + 1)
    let mixed := (mixed ^^^ (mixed >>> 30)) * 0xbf58476d1ce4e5b9
    let mixed := (mixed ^^^ (mixed >>> 27)) * 0x94d049bb133111eb
    let mixed := mixed ^^^ (mixed >>> 31)
    (setBloomBit state.1 (mixed &&& 7) ((mixed >>> 8) &&& 63), mixed))
    (bloom, vertexId.toUInt64 ^^^ 0x7a6f4d2c9e3779b9)).1

/-- `age_adjacency_vertex_bloom256_intersects` and
`age_adjacency_value_posting_bloom_intersects` -/
def bloomIntersects (left right : Nat) : Bool :=
  (left &&& right) != 0 || left == 0 || right == 0

end Bloom

section Targets

/-- `AgeAdjacencyVertexSetFilter`; its range is one of its sorted vertices, and
`age_adjacency_vertex_set_filter_prepare_value_summary`, which runs on every filter that is set, sums
up sorted vertices only. -/
structure VertexSetFilter where
  /-- the hash table `vertex_ids` -/
  vertexIds : Option (List GraphId)
  hasSortedVertexIds : Bool
  /-- empty where there is no array -/
  sortedVertexIds : List GraphId
  hasRange : Bool
  minVertexId : GraphId
  maxVertexId : GraphId
  hasValueSummary : Bool
  within : hasRange = true → ∀ vertexId ∈ sortedVertexIds,
    minVertexId ≤ vertexId ∧ vertexId ≤ maxVertexId
  summed : hasValueSummary = true → hasSortedVertexIds = true ∧ sortedVertexIds ≠ []

/-- A filter without vertices, with a range or without one -/
def VertexSetFilter.ofRange (range : Option (GraphId × GraphId)) : VertexSetFilter where
  vertexIds := none
  hasSortedVertexIds := false
  sortedVertexIds := []
  hasRange := range.isSome
  minVertexId := (range.map Prod.fst).getD 0
  maxVertexId := (range.map Prod.snd).getD 0
  hasValueSummary := false
  within _ _ member := absurd member List.not_mem_nil
  summed hasValueSummary := absurd hasValueSummary Bool.false_ne_true

/-- The filters of an `AgeAdjacencyScanTarget` -/
structure ScanTarget where
  terminalLabelId : Int
  terminalVertexSetFilter : VertexSetFilter
  terminalVertexFilter : Option (GraphId → Bool)

/-- The binary search of `age_adjacency_vertex_set_sorted_contains` -/
def sortedContainsBetween (vertexIds : List GraphId) (vertexId : GraphId) (low high : Nat) : Bool :=
  if low < high then
    let mid := low + (high - low) / 2
    let candidate := vertexIds.getD mid 0
    if candidate == vertexId then true
    else if candidate < vertexId then sortedContainsBetween vertexIds vertexId (mid + 1) high
    else sortedContainsBetween vertexIds vertexId low mid
  else false
termination_by high - low

namespace VertexSetFilter

variable (filter : VertexSetFilter)

/-- `age_adjacency_vertex_set_sorted_contains` -/
def sortedContains (vertexId : GraphId) : Bool :=
  sortedContainsBetween filter.sortedVertexIds vertexId 0 filter.sortedVertexIds.length

/-- There are sorted vertices to compare a summary with. -/
def hasVertices : Bool := filter.hasSortedVertexIds && !filter.sortedVertexIds.isEmpty

variable {filter} in
theorem hasVertices_of_hasValueSummary (summed : filter.hasValueSummary = true) :
    filter.hasVertices = true := by
  obtain ⟨sorted, nonempty⟩ := filter.summed summed
  rw [hasVertices, sorted, Bool.true_and, Bool.not_eq_true', List.isEmpty_eq_false_iff]
  exact nonempty

/-- The summaries of `age_adjacency_vertex_set_filter_prepare_value_summary` -/
def valueBloom : UInt64 := filter.sortedVertexIds.foldl vertexBloomAdd 0

def valueBloomWide : Nat := filter.sortedVertexIds.foldl vertexBloom256Add 0

def valuePostingBloom : Nat := filter.sortedVertexIds.foldl valuePostingBloomAdd 0

end VertexSetFilter

namespace ScanTarget

variable (target : ScanTarget)

/-- `age_adjacency_posting_matches_terminal_label` -/
def matchesTerminalLabel (nextVertexId : GraphId) : Bool :=
  !labelIdIsValid target.terminalLabelId ||
    getGraphidLabelId nextVertexId == target.terminalLabelId

/-- `age_adjacency_posting_matches_terminal_vertex_filter` -/
def matchesTerminalVertexFilter (nextVertexId : GraphId) : Bool :=
  let filter := target.terminalVertexSetFilter
  if filter.vertexIds.isSome || filter.hasSortedVertexIds then
    if filter.hasRange && (decide (nextVertexId < filter.minVertexId) ||
        decide (filter.maxVertexId < nextVertexId)) then false
    else if filter.hasSortedVertexIds then filter.sortedContains nextVertexId
    else filter.vertexIds.any fun vertexIds => vertexIds.contains nextVertexId
  else
    match target.terminalVertexFilter with
    | none => true
    | some vertexFilter => vertexFilter nextVertexId

/-- `age_adjacency_posting_matches_cache_filters` -/
def accepts (posting : MainPosting) : Bool :=
  target.matchesTerminalLabel posting.nextVertexId &&
    target.matchesTerminalVertexFilter posting.nextVertexId

end ScanTarget

end Targets

section Summaries

/-- A list of distinct items with so many slots; `none` after an overflow. -/
def addDistinct {α : Type} [BEq α] (slots : Nat) (items : Option (List α)) (item : α) :
    Option (List α) :=
  items.bind fun items =>
    if items.contains item then some items
    else if slots ≤ items.length then none
    else some (items ++ [item])

variable (postings : List MainPosting) (filter : VertexSetFilter)

def minNextVertexId : GraphId :=
  postings.foldl (fun least posting =>
    if posting.nextVertexId < least then posting.nextVertexId else least)
    ((postings.head?.map MainPosting.nextVertexId).getD 0)

def maxNextVertexId : GraphId :=
  postings.foldl (fun greatest posting =>
    if greatest < posting.nextVertexId then posting.nextVertexId else greatest)
    ((postings.head?.map MainPosting.nextVertexId).getD 0)

/-- `age_adjacency_main_run_block_add_exact_vertex` -/
def exactNextVertexIds : Option (List GraphId) :=
  (postings.map MainPosting.nextVertexId).foldl (addDistinct 8) (some [])

/-- `age_adjacency_main_run_block_add_compressed_vertex` -/
def compressedNextEntries : Option (List Nat) :=
  (postings.map fun posting => getGraphidEntryId posting.nextVertexId).foldl (addDistinct 32)
    (some [])

def nextVertexBloomWide : Nat :=
  (postings.map MainPosting.nextVertexId).foldl vertexBloom256Add 0

def valuePostingBloom : Nat :=
  (postings.map MainPosting.nextVertexId).foldl valuePostingBloomAdd 0

/-- `age_adjacency_main_run_block_may_match_vertex_range`: two zeros are no range. -/
def mayMatchVertexRange : Bool :=
  !filter.hasRange || (minNextVertexId postings == 0 && maxNextVertexId postings == 0) ||
    (decide (minNextVertexId postings ≤ filter.maxVertexId) &&
      decide (filter.minVertexId ≤ maxNextVertexId postings))

/-- `age_adjacency_main_run_block_may_match_exact_vertex` -/
def mayMatchExactVertex : Bool :=
  !filter.hasVertices ||
    match exactNextVertexIds postings with
    | none => true
    | some vertexIds => vertexIds.isEmpty || filter.sortedVertexIds.any vertexIds.contains

/-- `age_adjacency_main_run_block_may_match_compressed_vertex` for vertices of one label -/
def mayMatchCompressedVertex (nextLabelId : Int) : Bool :=
  !filter.hasVertices ||
    match compressedNextEntries postings with
    | none => true
    | some entries => entries.isEmpty || filter.sortedVertexIds.any fun vertexId =>
        getGraphidLabelId vertexId == nextLabelId && entries.contains (getGraphidEntryId vertexId)

/-- `age_adjacency_main_run_block_may_match_vertex_bloom` -/
def mayMatchWideVertexBloom : Bool :=
  !filter.hasVertices ||
    filter.sortedVertexIds.any (vertexBloom256MayContain (nextVertexBloomWide postings))

end Summaries

section Blocks

/-- The label of all next vertices of a compact block -/
def compactNextLabelId (block : List MainPosting) : Option Int :=
  (mainRunBlockCanCompact (block.map fun posting => posting.withKey 0)).map Prod.snd

variable (target : ScanTarget) (block : List MainPosting)

/-- `age_adjacency_main_run_block_matches_terminal_label` -/
def blockMatchesTerminalLabel : Bool :=
  !labelIdIsValid target.terminalLabelId ||
    (compactNextLabelId block).all fun nextLabelId => nextLabelId == target.terminalLabelId

/-- `age_adjacency_main_run_block_may_match_compact_postings` -/
def blockMayMatchCompactPostings (postingIndex : Nat) : Bool :=
  let filter := target.terminalVertexSetFilter
  !filter.hasSortedVertexIds || (compactNextLabelId block).all fun nextLabelId =>
    !(filter.hasRange && ((makeGraphid nextLabelId 0).any (fun first => filter.maxVertexId < first) ||
      (makeGraphid nextLabelId 281474976710655).any fun last => last < filter.minVertexId)) &&
      (block.drop postingIndex).any fun posting => filter.sortedContains posting.nextVertexId

/-- No filter speaks against the block from a posting on. -/
def blockMayMatch (postingIndex : Nat) : Bool :=
  let filter := target.terminalVertexSetFilter
  blockMatchesTerminalLabel target block && mayMatchVertexRange block filter &&
    mayMatchExactVertex block filter &&
    (compactNextLabelId block).all (mayMatchCompressedVertex block filter) &&
    mayMatchWideVertexBloom block filter &&
    (!filter.hasValueSummary || bloomIntersects (valuePostingBloom block) filter.valuePostingBloom) &&
    blockMayMatchCompactPostings target block postingIndex

/-- `age_adjacency_main_run_block_skip_cache_filters` -/
def skipCacheFilters (postingIndex remaining : Nat) : Option Nat :=
  let skipped := min (block.length - postingIndex) remaining
  if skipped = 0 then none
  else if blockMayMatch target block postingIndex then none
  else some skipped

/-- `age_adjacency_main_run_block_find_compact_posting_intersection` -/
def findCompactPostingIntersection (postingIndex : Nat) : Nat :=
  if target.terminalVertexSetFilter.hasVertices && (compactNextLabelId block).isSome then
    postingIndex + ((block.drop postingIndex).takeWhile fun posting =>
      !target.terminalVertexSetFilter.sortedContains posting.nextVertexId).length
  else postingIndex

end Blocks

section Directory

/-- A slot of `next_vertex_bloom_label_id` with its blooms -/
structure LabelBloom where
  labelId : Int
  bloom : UInt64
  valuePostingBloom : Nat

/-- `age_adjacency_directory_entry_add_label_bloom`, with two slots -/
def addLabelBloom (slots : List LabelBloom) (vertexId : GraphId) : List LabelBloom :=
  let labelId := getGraphidLabelId vertexId
  if !labelIdIsValid labelId then slots
  else if slots.any fun slot => slot.labelId == labelId then
    slots.map fun slot =>
      if slot.labelId == labelId then
        ⟨labelId, vertexBloomAdd slot.bloom vertexId,
          valuePostingBloomAdd slot.valuePostingBloom vertexId⟩
      else slot
  else if slots.length < 2 then
    slots ++ [⟨labelId, vertexBloomAdd 0 vertexId, valuePostingBloomAdd 0 vertexId⟩]
  else slots

/-- `next_label_count`, with the label before -/
def countNextLabel (state : Nat × Int) (labelId : Int) : Nat × Int :=
  if labelIdIsValid labelId && labelId != state.2 then (state.1 + 1, labelId) else state

/-- `min_next_label_id` and `max_next_label_id` -/
def widenNextLabels (range : Int × Int) (labelId : Int) : Int × Int :=
  if labelIdIsValid labelId then
    (if !labelIdIsValid range.1 || labelId < range.1 then labelId else range.1,
      if !labelIdIsValid range.2 || range.2 < labelId then labelId else range.2)
  else range

variable (target : ScanTarget) (run : List MainPosting)

def nextLabelIds : List Int := run.map fun posting => getGraphidLabelId posting.nextVertexId

def nextLabelCount : Nat := ((nextLabelIds run).foldl countNextLabel (0, 0)).1

def nextLabelRange : Int × Int :=
  let first := (nextLabelIds run).headD 0
  (nextLabelIds run).foldl widenNextLabels (first, first)

def nextVertexBloom : UInt64 := (run.map MainPosting.nextVertexId).foldl vertexBloomAdd 0

def labelBlooms : List LabelBloom := (run.map MainPosting.nextVertexId).foldl addLabelBloom []

/-- The slot of the target's label -/
def terminalLabelBloom : Option LabelBloom :=
  if labelIdIsValid target.terminalLabelId then
    (labelBlooms run).find? fun slot => slot.labelId == target.terminalLabelId
  else none

/-- `age_adjacency_directory_entry_matches_terminal_label` -/
def entryMatchesTerminalLabel : Bool :=
  let (least, greatest) := nextLabelRange run
  !labelIdIsValid target.terminalLabelId || !labelIdIsValid least || !labelIdIsValid greatest ||
    (decide (least ≤ target.terminalLabelId) && decide (target.terminalLabelId ≤ greatest))

/-- `age_adjacency_directory_entry_may_match_vertex_set` -/
def entryMayMatchVertexSet : Bool :=
  let filter := target.terminalVertexSetFilter
  !filter.hasRange || (minNextVertexId run == 0 && maxNextVertexId run == 0) ||
    (mayMatchVertexRange run filter && mayMatchExactVertex run filter &&
      (!filter.hasVertices || nextVertexBloom run == 0 ||
        filter.sortedVertexIds.any (vertexBloomMayContain (nextVertexBloom run))))

/-- `age_adjacency_directory_entry_label_bloom_may_match` -/
def entryLabelBloomMayMatch : Bool :=
  let filter := target.terminalVertexSetFilter
  !filter.hasVertices || (terminalLabelBloom target run).all fun slot =>
    slot.bloom == 0 || filter.sortedVertexIds.any (vertexBloomMayContain slot.bloom)

/-- `age_adjacency_directory_entry_may_match_value_summary` -/
def entryMayMatchValueSummary : Bool :=
  let filter := target.terminalVertexSetFilter
  !filter.hasValueSummary ||
    ((nextVertexBloom run == 0 || (nextVertexBloom run &&& filter.valueBloom) != 0) &&
      bloomIntersects (nextVertexBloomWide run) filter.valueBloomWide)

/-- `age_adjacency_directory_entry_may_match_value_posting` -/
def entryMayMatchValuePosting : Bool :=
  let filter := target.terminalVertexSetFilter
  !filter.hasValueSummary ||
    match terminalLabelBloom target run with
    | some slot => bloomIntersects slot.valuePostingBloom filter.valuePostingBloom
    | none => nextLabelCount run != 1 ||
        bloomIntersects (valuePostingBloom run) filter.valuePostingBloom

/-- `age_adjacency_directory_entry_matches_composite_target`; the build puts the summaries of a run
in its entry. -/
def entryMatchesCompositeTarget : Bool :=
  entryMatchesTerminalLabel target run && entryMayMatchVertexSet target run &&
    entryLabelBloomMayMatch target run &&
    (nextLabelCount run != 1 || mayMatchCompressedVertex run target.terminalVertexSetFilter
      (nextLabelRange run).1) &&
    entryMayMatchValueSummary target run && entryMayMatchValuePosting target run &&
    mayMatchWideVertexBloom run target.terminalVertexSetFilter

end Directory

section Facts

variable {target : ScanTarget} {block : List MainPosting}

theorem mem_of_sortedContainsBetween {vertexIds : List GraphId} {vertexId : GraphId}
    {low high : Nat} (inside : high ≤ vertexIds.length)
    (contained : sortedContainsBetween vertexIds vertexId low high = true) :
    vertexId ∈ vertexIds := by
  induction low, high using sortedContainsBetween.induct vertexIds vertexId with
  | case1 low high order mid candidate found =>
      have bound : mid < vertexIds.length := by omega
      have here : vertexIds.getD mid 0 = vertexIds[mid] := by simp [bound]
      have same : vertexIds[mid] = vertexId := here ▸ eq_of_beq found
      exact same ▸ List.getElem_mem bound
  | case2 low high order mid candidate differs below inductionHypothesis =>
      rw [sortedContainsBetween, if_pos order] at contained
      dsimp only at contained
      rw [if_neg differs, if_pos below] at contained
      exact inductionHypothesis inside contained
  | case3 low high order mid candidate differs above inductionHypothesis =>
      rw [sortedContainsBetween, if_pos order] at contained
      dsimp only at contained
      rw [if_neg differs, if_neg above] at contained
      exact inductionHypothesis (by omega) contained
  | case4 low high order =>
      rw [sortedContainsBetween, if_neg order] at contained
      cases contained

/-- With a sorted set, a posting is accepted only for a vertex of the set. -/
theorem sortedContains_of_accepts {posting : MainPosting}
    (sorted : target.terminalVertexSetFilter.hasSortedVertexIds = true)
    (accepted : target.accepts posting = true) :
    target.terminalVertexSetFilter.sortedContains posting.nextVertexId = true := by
  rw [ScanTarget.accepts, Bool.and_eq_true] at accepted
  have passes := accepted.2
  simp only [ScanTarget.matchesTerminalVertexFilter, sorted, Bool.or_true, if_true] at passes
  split_ifs at passes
  exact passes

theorem findCompactPostingIntersection_le {postingIndex : Nat} (inside : postingIndex ≤ block.length) :
    postingIndex ≤ findCompactPostingIntersection target block postingIndex ∧
      findCompactPostingIntersection target block postingIndex ≤ block.length := by
  unfold findCompactPostingIntersection
  split_ifs
  · have := (List.takeWhile_prefix (l := block.drop postingIndex) fun posting =>
      !target.terminalVertexSetFilter.sortedContains posting.nextVertexId).length_le
    rw [List.length_drop] at this
    omega
  · exact ⟨le_refl _, inside⟩

/-- What the search for the next vertex of the set passes over is not accepted. -/
theorem filter_drop_intersection (postingIndex : Nat) :
    (block.drop (findCompactPostingIntersection target block postingIndex)).filter target.accepts =
      (block.drop postingIndex).filter target.accepts := by
  unfold findCompactPostingIntersection
  split_ifs with searched
  · rw [VertexSetFilter.hasVertices, Bool.and_eq_true, Bool.and_eq_true] at searched
    set passed := fun posting : MainPosting =>
      !target.terminalVertexSetFilter.sortedContains posting.nextVertexId with isPassed
    have whole := @List.takeWhile_append_dropWhile _ passed (block.drop postingIndex)
    have none : ((block.drop postingIndex).takeWhile passed).filter target.accepts = [] := by
      rw [List.filter_eq_nil_iff]
      intro posting member accepted
      have missing := List.mem_takeWhile_imp member
      simp [isPassed, sortedContains_of_accepts searched.1.1 accepted] at missing
    have dropped : (block.drop postingIndex).drop
        ((block.drop postingIndex).takeWhile passed).length =
          (block.drop postingIndex).dropWhile passed := by
      have := @List.drop_left _ ((block.drop postingIndex).takeWhile passed)
        ((block.drop postingIndex).dropWhile passed)
      rwa [whole] at this
    rw [← List.drop_drop, dropped]
    conv_rhs => rw [← whole, List.filter_append, none, List.nil_append]
  · rfl

/-- All next vertices of a compact block have its label. -/
theorem label_of_compactNextLabelId {nextLabelId : Int}
    (compact : compactNextLabelId block = some nextLabelId) {posting : MainPosting}
    (member : posting ∈ block) : getGraphidLabelId posting.nextVertexId = nextLabelId := by
  rw [compactNextLabelId, Option.map_eq_some_iff] at compact
  obtain ⟨labels, isCompact, rfl⟩ := compact
  exact ((mainRunBlockCanCompact_some isCompact).2.2 _ (List.mem_map_of_mem member)).2

/-- In a block that the filters do not pass over, a vertex of the sorted set is accepted. -/
theorem accepts_of_sortedContains (matching : blockMayMatch target block 0 = true)
    (searched : target.terminalVertexSetFilter.hasVertices = true) {nextLabelId : Int}
    (compact : compactNextLabelId block = some nextLabelId) {posting : MainPosting}
    (member : posting ∈ block)
    (contained : target.terminalVertexSetFilter.sortedContains posting.nextVertexId = true) :
    target.accepts posting = true := by
  rw [VertexSetFilter.hasVertices, Bool.and_eq_true] at searched
  have label : target.matchesTerminalLabel posting.nextVertexId = true := by
    rw [ScanTarget.matchesTerminalLabel, label_of_compactNextLabelId compact member]
    simp only [blockMayMatch, blockMatchesTerminalLabel, compact, Option.all_some,
      Bool.and_eq_true] at matching
    exact matching.1.1.1.1.1.1
  have vertex : target.matchesTerminalVertexFilter posting.nextVertexId = true := by
    have inSet := mem_of_sortedContainsBetween (le_refl _) contained
    simp only [ScanTarget.matchesTerminalVertexFilter, searched.1, Bool.or_true, if_true]
    split_ifs with outside
    · obtain ⟨ranged, outside⟩ := Bool.and_eq_true_iff.1 outside
      obtain ⟨least, greatest⟩ := target.terminalVertexSetFilter.within ranged _ inSet
      simp [Int64.not_lt.2 least, Int64.not_lt.2 greatest] at outside
    · exact contained
  rw [ScanTarget.accepts, label, vertex]
  rfl

/-- After a search that moves on, an accepted posting follows. -/
theorem accepts_at_intersection (matching : blockMayMatch target block 0 = true)
    (moves : 0 < findCompactPostingIntersection target block 0) :
    ∃ posting, block[findCompactPostingIntersection target block 0]? = some posting ∧
      target.accepts posting = true := by
  unfold findCompactPostingIntersection at moves ⊢
  split_ifs at moves ⊢ with searched
  case neg => exact absurd moves (Nat.lt_irrefl 0)
  rw [Bool.and_eq_true, Option.isSome_iff_exists] at searched
  obtain ⟨searched, nextLabelId, compact⟩ := searched
  rw [List.drop_zero, Nat.zero_add]
  set passed := fun posting : MainPosting =>
    !target.terminalVertexSetFilter.sortedContains posting.nextVertexId with isPassed
  have whole := @List.takeWhile_append_dropWhile _ passed block
  have stops := List.head?_dropWhile_not passed block
  cases left : block.dropWhile passed with
  | nil =>
      have sorted : target.terminalVertexSetFilter.hasSortedVertexIds = true := by
        rw [VertexSetFilter.hasVertices, Bool.and_eq_true] at searched
        exact searched.1
      simp only [blockMayMatch, blockMayMatchCompactPostings, sorted, compact, Option.all_some,
        Bool.not_true, Bool.false_or, List.drop_zero, Bool.and_eq_true, List.any_eq_true] at matching
      obtain ⟨posting, member, contained⟩ := matching.2.2
      have isLeft := List.dropWhile_eq_nil_iff.1 left posting member
      simp [isPassed, contained] at isLeft
  | cons posting rest =>
      rw [left] at whole stops
      have contained : target.terminalVertexSetFilter.sortedContains posting.nextVertexId = true := by
        simpa [isPassed] using stops
      have member : posting ∈ block := by
        rw [← whole]
        simp
      refine ⟨posting, ?_, accepts_of_sortedContains matching searched compact member contained⟩
      conv_lhs => rw [← whole]
      have taken := @List.getElem?_append_right _ (block.takeWhile passed) (posting :: rest) _
        (le_refl _)
      rw [whole] at taken ⊢
      rw [taken, Nat.sub_self]
      rfl

end Facts

end Age.Adjacency
