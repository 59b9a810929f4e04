import Age.Adjacency.Filters
import Age.Lib.BitUnion

/-!
# The summaries pass over nothing that is accepted

A block carries the range, some vertices, some entry ids and blooms of the next vertices of its
postings.  None of them speaks against a block with a posting that a scan accepts, and what the
search among the compact postings leaves out is not accepted either.
-/

namespace Age.Adjacency

open BitUnion
open Vle (getGraphidLabelId labelIdIsValid)

section Filters

/-- What holds of the filters of scans that go through postings: a range comes with a set of
vertices. -/
structure VertexSetFilter.Prepared (filter : VertexSetFilter) : Prop where
  range : filter.hasRange = true → filter.vertexIds.isSome = true ∨ filter.hasSortedVertexIds = true

/-- The filter of sorted vertices with the first and the last of them as its range, as
`prepare_age_wcoj_survivor_filter`, `set_adjacency_terminal_filter`, the matches of an exact and of a
shared source and the progressive join of `age_global_graph.c` set it -/
def sortedVertexSetFilter (vertexIds : List GraphId) (sorted : vertexIds.Pairwise (· ≤ ·))
    (hasPropertyFilter : Bool) : VertexSetFilter where
  vertexIds := none
  hasSortedVertexIds := true
  sortedVertexIds := vertexIds
  hasRange := true
  minVertexId := vertexIds.headD 0
  maxVertexId := vertexIds.getLastD 0
  hasValueSummary := hasPropertyFilter && !vertexIds.isEmpty
  within _ vertexId member := by
    have reflexive : Std.Refl fun a b : GraphId => a ≤ b := ⟨Int64.le_refl⟩
    have nonempty := List.ne_nil_of_mem member
    rw [List.headD_eq_head?_getD, List.head?_eq_some_head nonempty, List.getLastD_eq_getLast?,
      List.getLast?_eq_some_getLast nonempty]
    exact ⟨sorted.rel_head member, sorted.rel_getLast member⟩
  summed summed := by
    rw [Bool.and_eq_true, Bool.not_eq_true', List.isEmpty_eq_false_iff] at summed
    exact ⟨rfl, summed.2⟩

theorem sortedVertexSetFilter_prepared (vertexIds : List GraphId)
    (sorted : vertexIds.Pairwise (· ≤ ·)) (hasPropertyFilter : Bool) :
    (sortedVertexSetFilter vertexIds sorted hasPropertyFilter).Prepared :=
  ⟨fun _ => .inr rfl⟩

/-- `age_adjacency_match_terminal_property_prefilter_set` on an active lookup: the hash table of its
matches, and the sorted vertices of the property index where there are any -/
def prefilterSet (matchCache vertexIds : List GraphId) (range : Option (GraphId × GraphId))
    (within : ∀ least greatest, range = some (least, greatest) → ∀ vertexId ∈ vertexIds,
      least ≤ vertexId ∧ vertexId ≤ greatest) (hasPropertyFilter : Bool) : VertexSetFilter where
  vertexIds := some matchCache
  hasSortedVertexIds := !vertexIds.isEmpty
  sortedVertexIds := vertexIds
  hasRange := range.isSome
  minVertexId := (range.map Prod.fst).getD 0
  maxVertexId := (range.map Prod.snd).getD 0
  hasValueSummary := hasPropertyFilter && !vertexIds.isEmpty
  within ranged := by
    obtain ⟨⟨least, greatest⟩, rfl⟩ := Option.isSome_iff_exists.1 ranged
    exact within least greatest rfl
  summed summed := by
    obtain ⟨-, nonempty⟩ := Bool.and_eq_true_iff.1 summed
    refine ⟨nonempty, ?_⟩
    rintro rfl
    cases nonempty

theorem prefilterSet_prepared {matchCache vertexIds : List GraphId}
    {range : Option (GraphId × GraphId)}
    (within : ∀ least greatest, range = some (least, greatest) → ∀ vertexId ∈ vertexIds,
      least ≤ vertexId ∧ vertexId ≤ greatest) (hasPropertyFilter : Bool) :
    (prefilterSet matchCache vertexIds range within hasPropertyFilter).Prepared :=
  ⟨fun _ => .inl rfl⟩

variable {target : ScanTarget} {posting : MainPosting}

theorem mem_sortedVertexIds_of_accepts
    (sorted : target.terminalVertexSetFilter.hasSortedVertexIds = true)
    (accepted : target.accepts posting = true) :
    posting.nextVertexId ∈ target.terminalVertexSetFilter.sortedVertexIds :=
  mem_of_sortedContainsBetween (le_refl _) (sortedContains_of_accepts sorted accepted)

theorem mem_of_hasVertices (searched : target.terminalVertexSetFilter.hasVertices = true)
    (accepted : target.accepts posting = true) :
    posting.nextVertexId ∈ target.terminalVertexSetFilter.sortedVertexIds := by
  rw [VertexSetFilter.hasVertices, Bool.and_eq_true] at searched
  exact mem_sortedVertexIds_of_accepts searched.1 accepted

theorem inRange_of_accepts (prepared : target.terminalVertexSetFilter.Prepared)
    (ranged : target.terminalVertexSetFilter.hasRange = true)
    (accepted : target.accepts posting = true) :
    target.terminalVertexSetFilter.minVertexId ≤ posting.nextVertexId ∧
      posting.nextVertexId ≤ target.terminalVertexSetFilter.maxVertexId := by
  rw [ScanTarget.accepts, Bool.and_eq_true] at accepted
  have passes := accepted.2
  have hasSet : (target.terminalVertexSetFilter.vertexIds.isSome ||
      target.terminalVertexSetFilter.hasSortedVertexIds) = true := by
    rw [Bool.or_eq_true]
    exact prepared.range ranged
  simp only [ScanTarget.matchesTerminalVertexFilter, hasSet, ranged, if_true, Bool.true_and]
    at passes
  split_ifs at passes with outside
  all_goals
    simp only [Bool.or_eq_true, decide_eq_true_eq, not_or, Int64.not_lt] at outside
    exact outside

theorem label_of_accepts (valid : labelIdIsValid target.terminalLabelId = true)
    (accepted : target.accepts posting = true) :
    getGraphidLabelId posting.nextVertexId = target.terminalLabelId := by
  rw [ScanTarget.accepts, Bool.and_eq_true, ScanTarget.matchesTerminalLabel, valid] at accepted
  simpa using accepted.1

end Filters

section Blooms

theorem unites_vertexBloom256Add : Unites vertexBloom256Add (vertexBloom256Add 0) := by
  intro bloom vertexId
  simp only [vertexBloom256Add, setBloomBit, Nat.zero_or, Nat.or_assoc]

/-- The steps of a value posting bloom do not look at the bloom. -/
theorem valuePostingBloom_steps (steps : List Nat) (bloom : Nat) (hash : UInt64)
    (mix : UInt64 → Nat → UInt64) (word bit : UInt64 → UInt64) :
    (steps.foldl (fun (state : Nat × UInt64) step =>
        (setBloomBit state.1 (word (mix state.2 step)) (bit (mix state.2 step)), mix state.2 step))
        (bloom, hash)).1 =
      bloom ||| (steps.foldl (fun (state : Nat × UInt64) step =>
        (setBloomBit state.1 (word (mix state.2 step)) (bit (mix state.2 step)), mix state.2 step))
        (0, hash)).1 := by
  induction steps generalizing bloom hash with
  | nil => simp
  | cons step rest inductionHypothesis =>
      rw [List.foldl_cons, List.foldl_cons, inductionHypothesis,
        inductionHypothesis (setBloomBit 0 _ _)]
      simp only [setBloomBit, Nat.zero_or, Nat.or_assoc]

theorem unites_valuePostingBloomAdd : Unites valuePostingBloomAdd (valuePostingBloomAdd 0) := by
  intro bloom vertexId
  exact valuePostingBloom_steps (List.range 6) bloom (vertexId.toUInt64 ^^^ 0x7a6f4d2c9e3779b9)
    (fun hash step =>
      let mixed := hash + 0x9e3779b97f4a7c15 * UInt64.ofNat (step + 1)
      let mixed := (mixed ^^^ (mixed >>> 30)) * 0xbf58476d1ce4e5b9
      let mixed := (mixed ^^^ (mixed >>> 27)) * 0x94d049bb133111eb
      mixed ^^^ (mixed >>> 31))
    (fun mixed => mixed &&& 7) fun mixed => (mixed >>> 8) &&& 63

theorem setBloomBit_ne_zero (bloom : Nat) (word bit : UInt64) : setBloomBit bloom word bit ≠ 0 := by
  intro none
  rw [setBloomBit, Nat.or_eq_zero_iff, Nat.shiftLeft_eq, Nat.one_mul] at none
  exact absurd none.2 (Nat.two_pow_pos _).ne'

theorem valuePostingBloomAdd_ne_zero (vertexId : GraphId) : valuePostingBloomAdd 0 vertexId ≠ 0 := by
  rw [valuePostingBloomAdd, show List.range 6 = List.range 5 ++ [5] from rfl, List.foldl_concat]
  exact setBloomBit_ne_zero _ _ _

/-- A bloom of vertices may contain each of them. -/
theorem vertexBloom256MayContain_of_mem {vertexIds : List GraphId} {vertexId : GraphId}
    (member : vertexId ∈ vertexIds) :
    vertexBloom256MayContain (vertexIds.foldl vertexBloom256Add 0) vertexId = true := by
  rw [vertexBloom256MayContain, Bool.or_eq_true, beq_iff_eq, beq_iff_eq]
  exact .inr (and_eq_of_or_eq (unites_vertexBloom256Add.foldl_absorbs member 0))

/-- Two value posting blooms with a common vertex intersect. -/
theorem valuePostingBloom_intersects {left right : List GraphId} {vertexId : GraphId}
    (inLeft : vertexId ∈ left) (inRight : vertexId ∈ right) :
    bloomIntersects (left.foldl valuePostingBloomAdd 0) (right.foldl valuePostingBloomAdd 0) =
      true := by
  have common := and_ne_zero (unites_valuePostingBloomAdd.foldl_absorbs inLeft 0)
    (unites_valuePostingBloomAdd.foldl_absorbs inRight 0) (valuePostingBloomAdd_ne_zero vertexId)
  rw [bloomIntersects, Bool.or_eq_true, Bool.or_eq_true, bne_iff_ne]
  exact .inl (.inl common)

end Blooms

section Lists

/-- Unless the slots overflow, the list has every item that was added. -/
theorem mem_addDistinct {α : Type} [BEq α] [LawfulBEq α] {slots : Nat} (items : List α)
    {start : Option (List α)} {found : List α}
    (added : items.foldl (addDistinct slots) start = some found) :
    ∃ first, start = some first ∧ ∀ item, item ∈ found ↔ item ∈ first ∨ item ∈ items := by
  induction items generalizing start with
  | nil => exact ⟨found, added, fun item => by simp⟩
  | cons next rest inductionHypothesis =>
      obtain ⟨middle, isMiddle, members⟩ := inductionHypothesis added
      obtain ⟨first, rfl, step⟩ := Option.bind_eq_some_iff.1 isMiddle
      refine ⟨first, rfl, fun item => ?_⟩
      rw [members]
      split_ifs at step with present
      · obtain rfl := Option.some.inj step
        have isFirst : next ∈ first := by simpa using present
        simp only [List.mem_cons]
        constructor
        · exact fun either => either.imp_right .inr
        · rintro (inFirst | rfl | inRest)
          · exact .inl inFirst
          · exact .inl isFirst
          · exact .inr inRest
      · obtain rfl := Option.some.inj step
        simp [or_assoc]

variable {postings : List MainPosting} {posting : MainPosting}

theorem minNextVertexId_le (member : posting ∈ postings) :
    minNextVertexId postings ≤ posting.nextVertexId := by
  have fold (items : List MainPosting) (start : GraphId) :
      items.foldl (fun least posting =>
          if posting.nextVertexId < least then posting.nextVertexId else least) start ≤ start ∧
        ∀ posting ∈ items, items.foldl (fun least posting =>
          if posting.nextVertexId < least then posting.nextVertexId else least) start ≤
            posting.nextVertexId := by
    induction items generalizing start with
    | nil => exact ⟨Int64.le_refl _, nofun⟩
    | cons first rest inductionHypothesis =>
        obtain ⟨below, inRest⟩ := inductionHypothesis
          (if first.nextVertexId < start then first.nextVertexId else start)
        have both : (if first.nextVertexId < start then first.nextVertexId else start) ≤ start ∧
            (if first.nextVertexId < start then first.nextVertexId else start) ≤
              first.nextVertexId := by
          split_ifs with less
          · exact ⟨Int64.le_of_lt less, Int64.le_refl _⟩
          · exact ⟨Int64.le_refl _, Int64.not_lt.1 less⟩
        refine ⟨Int64.le_trans below both.1, fun posting member => ?_⟩
        rcases List.mem_cons.1 member with rfl | later
        · exact Int64.le_trans below both.2
        · exact inRest posting later
  exact (fold postings _).2 posting member

theorem le_maxNextVertexId (member : posting ∈ postings) :
    posting.nextVertexId ≤ maxNextVertexId postings := by
  have fold (items : List MainPosting) (start : GraphId) :
      start ≤ items.foldl (fun greatest posting =>
          if greatest < posting.nextVertexId then posting.nextVertexId else greatest) start ∧
        ∀ posting ∈ items, posting.nextVertexId ≤ items.foldl (fun greatest posting =>
          if greatest < posting.nextVertexId then posting.nextVertexId else greatest) start := by
    induction items generalizing start with
    | nil => exact ⟨Int64.le_refl _, nofun⟩
    | cons first rest inductionHypothesis =>
        obtain ⟨above, inRest⟩ := inductionHypothesis
          (if start < first.nextVertexId then first.nextVertexId else start)
        have both : start ≤ (if start < first.nextVertexId then first.nextVertexId else start) ∧
            first.nextVertexId ≤
              (if start < first.nextVertexId then first.nextVertexId else start) := by
          split_ifs with less
          · exact ⟨Int64.le_of_lt less, Int64.le_refl _⟩
          · exact ⟨Int64.le_refl _, Int64.not_lt.1 less⟩
        refine ⟨Int64.le_trans both.1 above, fun posting member => ?_⟩
        rcases List.mem_cons.1 member with rfl | later
        · exact Int64.le_trans both.2 above
        · exact inRest posting later
  exact (fold postings _).2 posting member

end Lists

section Summaries

variable {target : ScanTarget} {postings : List MainPosting} {posting : MainPosting}

theorem mayMatchVertexRange_of_accepts (prepared : target.terminalVertexSetFilter.Prepared)
    (member : posting ∈ postings) (accepted : target.accepts posting = true) :
    mayMatchVertexRange postings target.terminalVertexSetFilter = true := by
  rw [mayMatchVertexRange]
  cases ranged : target.terminalVertexSetFilter.hasRange with
  | false => rfl
  | true =>
      obtain ⟨least, greatest⟩ := inRange_of_accepts prepared ranged accepted
      simp [Int64.le_trans (minNextVertexId_le member) greatest,
        Int64.le_trans least (le_maxNextVertexId member)]

theorem mayMatchExactVertex_of_accepts (member : posting ∈ postings)
    (accepted : target.accepts posting = true) :
    mayMatchExactVertex postings target.terminalVertexSetFilter = true := by
  rw [mayMatchExactVertex]
  cases searched : target.terminalVertexSetFilter.hasVertices with
  | false => rfl
  | true =>
      rw [Bool.not_true, Bool.false_or]
      cases exact : exactNextVertexIds postings with
      | none => rfl
      | some vertexIds =>
          obtain ⟨first, isFirst, members⟩ := mem_addDistinct _ exact
          have inside : posting.nextVertexId ∈ vertexIds :=
            (members _).2 (.inr (List.mem_map_of_mem member))
          have inSet := mem_of_hasVertices searched accepted
          rw [Bool.or_eq_true, List.any_eq_true]
          exact .inr ⟨_, inSet, by simpa using inside⟩

/-- The compressed entry ids do not speak against an accepted vertex of their label. -/
theorem mayMatchCompressedVertex_of_accepts (member : posting ∈ postings) {nextLabelId : Int}
    (label : getGraphidLabelId posting.nextVertexId = nextLabelId)
    (accepted : target.accepts posting = true) :
    mayMatchCompressedVertex postings target.terminalVertexSetFilter nextLabelId = true := by
  rw [mayMatchCompressedVertex]
  cases searched : target.terminalVertexSetFilter.hasVertices with
  | false => rfl
  | true =>
      rw [Bool.not_true, Bool.false_or]
      cases compressed : compressedNextEntries postings with
      | none => rfl
      | some entries =>
          obtain ⟨first, isFirst, members⟩ := mem_addDistinct _ compressed
          have inside : getGraphidEntryId posting.nextVertexId ∈ entries :=
            (members _).2 (.inr (List.mem_map.2 ⟨posting, member, rfl⟩))
          have inSet := mem_of_hasVertices searched accepted
          rw [Bool.or_eq_true, List.any_eq_true]
          exact .inr ⟨_, inSet, by simpa [label] using inside⟩

theorem mayMatchWideVertexBloom_of_accepts (member : posting ∈ postings)
    (accepted : target.accepts posting = true) :
    mayMatchWideVertexBloom postings target.terminalVertexSetFilter = true := by
  rw [mayMatchWideVertexBloom]
  cases searched : target.terminalVertexSetFilter.hasVertices with
  | false => rfl
  | true =>
      rw [Bool.not_true, Bool.false_or, List.any_eq_true]
      exact ⟨_, mem_of_hasVertices searched accepted,
        vertexBloom256MayContain_of_mem (List.mem_map_of_mem member)⟩

theorem valuePosting_intersects_of_accepts
    (summed : target.terminalVertexSetFilter.hasValueSummary = true)
    (member : posting ∈ postings) (accepted : target.accepts posting = true) :
    bloomIntersects (valuePostingBloom postings)
      target.terminalVertexSetFilter.valuePostingBloom = true :=
  valuePostingBloom_intersects (List.mem_map_of_mem member)
    (mem_of_hasVertices (VertexSetFilter.hasVertices_of_hasValueSummary summed) accepted)

end Summaries

section Blocks

variable {target : ScanTarget} {block : List MainPosting} {posting : MainPosting}

theorem blockMatchesTerminalLabel_of_accepts (member : posting ∈ block)
    (accepted : target.accepts posting = true) : blockMatchesTerminalLabel target block = true := by
  rw [blockMatchesTerminalLabel]
  cases valid : labelIdIsValid target.terminalLabelId with
  | false => rfl
  | true =>
      rw [Bool.not_true, Bool.false_or, Option.all_eq_true]
      intro nextLabelId compact
      rw [beq_iff_eq, ← label_of_compactNextLabelId compact member, label_of_accepts valid accepted]

theorem toInt_eq_of_toUInt64 (gid : GraphId) :
    gid.toInt = if 2 * gid.toUInt64.toNat < 2 ^ 64 then (gid.toUInt64.toNat : Int)
      else (gid.toUInt64.toNat : Int) - 2 ^ 64 :=
  BitVec.toInt_eq_toNat_cond gid.toBitVec

/-- Ids of one label are in the order of their entry ids. -/
theorem makeGraphid_le {labelId : Int} {entryId : Nat} {made vertexId : GraphId}
    (isMade : makeGraphid labelId entryId = some made)
    (label : getGraphidLabelId vertexId = labelId) :
    (entryId ≤ getGraphidEntryId vertexId → made ≤ vertexId) ∧
      (getGraphidEntryId vertexId ≤ entryId → vertexId ≤ made) := by
  rw [makeGraphid] at isMade
  split_ifs at isMade with valid
  rw [Bool.and_eq_true, labelIdIsValid, Bool.and_eq_true, decide_eq_true_eq, decide_eq_true_eq,
    decide_eq_true_eq] at valid
  obtain rfl := Option.some.inj isMade
  have bound : entryId < 2 ^ 48 := by omega
  have parts : labelId.toNat <<< 48 ||| entryId % 2 ^ 48 = labelId.toNat * 2 ^ 48 + entryId := by
    rw [Nat.mod_eq_of_lt bound, ← Nat.shiftLeft_add_eq_or_of_lt bound, Nat.shiftLeft_eq]
  have whole : (labelId.toNat * 2 ^ 48 + entryId) % 2 ^ 64 = labelId.toNat * 2 ^ 48 + entryId :=
    Nat.mod_eq_of_lt (by omega)
  have small := vertexId.toUInt64.toNat_lt
  rw [getGraphidLabelId] at label
  rw [getGraphidEntryId, Int64.le_iff_toInt_le, Int64.le_iff_toInt_le, toInt_eq_of_toUInt64,
    toInt_eq_of_toUInt64 vertexId, parts, UInt64.toUInt64_toInt64, UInt64.toNat_ofNat',
    whole]
  constructor <;> intro ordered <;> split_ifs <;> omega

theorem blockMayMatchCompactPostings_of_accepts {postingIndex : Nat}
    (prepared : target.terminalVertexSetFilter.Prepared) (member : posting ∈ block.drop postingIndex)
    (accepted : target.accepts posting = true) :
    blockMayMatchCompactPostings target block postingIndex = true := by
  rw [blockMayMatchCompactPostings]
  cases sorted : target.terminalVertexSetFilter.hasSortedVertexIds with
  | false => rfl
  | true =>
      rw [Bool.not_true, Bool.false_or, Option.all_eq_true]
      intro nextLabelId compact
      have label := label_of_compactNextLabelId compact (List.mem_of_mem_drop member)
      rw [Bool.and_eq_true, List.any_eq_true]
      refine ⟨?_, posting, member, sortedContains_of_accepts sorted accepted⟩
      cases ranged : target.terminalVertexSetFilter.hasRange with
      | false => rfl
      | true =>
          obtain ⟨least, greatest⟩ := inRange_of_accepts prepared ranged accepted
          have entryBound := getGraphidEntryId_lt posting.nextVertexId
          rw [Bool.true_and, Bool.not_eq_true', Bool.or_eq_false_iff, Option.any_eq_false,
            Option.any_eq_false]
          constructor
          · intro first made
            have below := (makeGraphid_le made label).1 (Nat.zero_le _)
            simpa using Int64.le_trans below greatest
          · intro last made
            have above := (makeGraphid_le made label).2 (by omega)
            simpa using Int64.le_trans least above

/-- No summary of a block speaks against an accepted posting from the index on. -/
theorem blockMayMatch_of_accepts {postingIndex : Nat}
    (prepared : target.terminalVertexSetFilter.Prepared) (member : posting ∈ block.drop postingIndex)
    (accepted : target.accepts posting = true) : blockMayMatch target block postingIndex = true := by
  have inBlock := List.mem_of_mem_drop member
  have compressed : (compactNextLabelId block).all
      (mayMatchCompressedVertex block target.terminalVertexSetFilter) = true := by
    rw [Option.all_eq_true]
    intro nextLabelId compact
    exact mayMatchCompressedVertex_of_accepts inBlock
      (label_of_compactNextLabelId compact inBlock) accepted
  have summed : (!target.terminalVertexSetFilter.hasValueSummary ||
      bloomIntersects (valuePostingBloom block)
        target.terminalVertexSetFilter.valuePostingBloom) = true := by
    cases summed : target.terminalVertexSetFilter.hasValueSummary with
    | false => rfl
    | true => exact valuePosting_intersects_of_accepts summed inBlock accepted
  simp only [blockMayMatch, blockMatchesTerminalLabel_of_accepts inBlock accepted,
    mayMatchVertexRange_of_accepts prepared inBlock accepted,
    mayMatchExactVertex_of_accepts inBlock accepted, compressed,
    mayMatchWideVertexBloom_of_accepts inBlock accepted, summed,
    blockMayMatchCompactPostings_of_accepts prepared member accepted, Bool.and_true]

/-- What the search for the next vertex of the set leaves out is not accepted. -/
theorem not_accepts_before_intersection {postingIndex place : Nat} (onward : postingIndex ≤ place)
    (left : place < findCompactPostingIntersection target block postingIndex)
    (isPosting : block[place]? = some posting) : target.accepts posting = false := by
  unfold findCompactPostingIntersection at left
  split_ifs at left with searched
  · rw [VertexSetFilter.hasVertices, Bool.and_eq_true, Bool.and_eq_true] at searched
    have taken : posting ∈ (block.drop postingIndex).takeWhile fun posting =>
        !target.terminalVertexSetFilter.sortedContains posting.nextVertexId := by
      refine List.mem_of_getElem? (i := place - postingIndex) ?_
      rw [← List.getElem?_append_left (by omega), List.takeWhile_append_dropWhile,
        List.getElem?_drop, Nat.add_sub_cancel' onward, isPosting]
    have missing := List.mem_takeWhile_imp taken
    rw [Bool.eq_false_iff]
    intro accepted
    simp [sortedContains_of_accepts searched.1.1 accepted] at missing
  · omega

end Blocks

section Encoded

variable {target : ScanTarget}

/-- Whatever is skipped of an encoded block, from any position and for any filters, reads back as a
posting that the scan does not accept. -/
theorem skipCacheFilters_sound (prepared : target.terminalVertexSetFilter.Prepared)
    {postings : List Posting}
    (fits : mainRunBlockFits (mainRunBlockCanCompact postings).isSome postings.length = true)
    (tids : ∀ posting ∈ postings, posting.heapTid.InRange) (key : GraphId) (postingIndex : Nat) :
    (∀ remaining skipped,
      skipCacheFilters target (postings.map Posting.main) postingIndex remaining = some skipped →
        ∀ place posting, postingIndex ≤ place → place < postingIndex + skipped →
          (formMainRunBlock postings).getPosting place key = some posting →
            target.accepts posting.main = false) ∧
    ∀ place posting, postingIndex ≤ place →
      place < findCompactPostingIntersection target (postings.map Posting.main) postingIndex →
        (formMainRunBlock postings).getPosting place key = some posting →
          target.accepts posting.main = false := by
  have read {place : Nat} {posting : Posting}
      (isRead : (formMainRunBlock postings).getPosting place key = some posting) :
      (postings.map Posting.main)[place]? = some posting.main := by
    obtain ⟨count, reads⟩ := formMainRunBlock_getPosting fits tids key
    rcases Nat.lt_or_ge place postings.length with inRange | past
    · rw [reads place inRange] at isRead
      obtain rfl := Option.some.inj isRead
      rw [List.getElem?_map, List.getElem?_eq_getElem inRange]
      rfl
    · rw [MainRunBlock.getPosting, count, if_pos past] at isRead
      cases isRead
  constructor
  · intro remaining skipped skips place posting onward _ isRead
    rw [Bool.eq_false_iff]
    intro accepted
    have member : posting.main ∈ (postings.map Posting.main).drop postingIndex := by
      refine List.mem_of_getElem? (i := place - postingIndex) ?_
      rw [List.getElem?_drop, Nat.add_sub_cancel' onward]
      exact read isRead
    rw [skipCacheFilters, blockMayMatch_of_accepts prepared member accepted] at skips
    simp at skips
  · intro place posting onward left isRead
    exact not_accepts_before_intersection onward left (read isRead)

/-- A compact block is skipped for a vertex that has another entry id. -/
theorem skipCacheFilters_sound_vertex :
    let target : ScanTarget := ⟨0, ⟨none, true, [281474976710660], true, 281474976710660,
      281474976710660, false, by simp, nofun⟩, none⟩
    (skipCacheFilters target (sampleRun.map Posting.main) 0 2 = some 2) ∧
      ∀ place posting, 0 ≤ place → place < 0 + 2 →
        (formMainRunBlock sampleRun).getPosting place 281474976710657 = some posting →
          target.accepts posting.main = false := by
  intro target
  have prepared : target.terminalVertexSetFilter.Prepared := ⟨fun _ => .inr rfl⟩
  have tids : ∀ posting ∈ sampleRun, posting.heapTid.InRange := by
    unfold Tid.InRange
    decide
  have skips : skipCacheFilters target (sampleRun.map Posting.main) 0 2 = some 2 := by rfl
  exact ⟨skips, (skipCacheFilters_sound prepared (by rfl) tids 281474976710657 0).1 2 2 skips⟩

end Encoded

end Age.Adjacency
