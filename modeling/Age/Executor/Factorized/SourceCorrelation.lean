import Mathlib.Data.List.Sort
import Mathlib.Data.List.GetD
import Age.Executor.Factorized.FlatEnumerator
import Age.Executor.Factorized.NodeEnumerator
import Age.Lib.SortedKeys

/-!
# Source correlation of adjacency providers

Adjacency providers that read the same source rows sort them by key into bags, each on its own.  A
tuple of a group is a payload with a row of its bag; an index of the flat enumerator is a tuple.
The accept callback compares the keys and the offsets of two tuples, and not their rows.
-/

namespace Age.Executor.Factorized

section Definitions

/-- `qsort` with `compare_age_binding_source_rows`: the positions of the rows in the order of their
keys.  It does the same to the same keys. -/
structure SourceSort where
  order : List GraphId → List Nat
  perm : ∀ keys, (order keys).Perm (List.range keys.length)
  sorted : ∀ keys, (order keys).Pairwise fun first second =>
    (keys.getD first 0).toInt ≤ (keys.getD second 0).toInt

/-- `AgeSourceBag`: the rows of one key, which follow each other -/
structure SourceBag where
  key : GraphId
  firstRow : Nat
  rowCount : Nat
  deriving DecidableEq, Repr

/-- One turn of the loop over the sorted rows; the last bag comes first. -/
def addSourceRow (bags : List SourceBag) (row : GraphId × Nat) : List SourceBag :=
  match bags with
  | last :: earlier =>
      if last.key = row.1 then { last with rowCount := last.rowCount + 1 } :: earlier
      else ⟨row.1, row.2, 1⟩ :: last :: earlier
  | [] => [⟨row.1, row.2, 1⟩]

/-- The bags of sorted keys, as `age_binding_build_source_bags` has them -/
def sourceBagsOf (sortedKeys : List GraphId) : List SourceBag :=
  (sortedKeys.zipIdx.foldl addSourceRow []).reverse

inductive ProviderKind where
  | planStream
  | adjacency
  deriving DecidableEq, Repr

/-- `AgeWCOJPostingProvider`: the keys of the source rows that it reads, in the order in which it
reads them -/
structure PostingProvider where
  kind : ProviderKind
  sourceCorrelationGroup : Nat
  sourceRows : List GraphId

variable (sort : SourceSort)

namespace PostingProvider

variable (provider : PostingProvider)

/-- The rows after `qsort`, by where they were read -/
def sortedRows : List Nat := sort.order provider.sourceRows

/-- `age_binding_build_source_bags` -/
def sourceBags : List SourceBag :=
  sourceBagsOf ((provider.sortedRows sort).map fun row => provider.sourceRows.getD row 0)

end PostingProvider

/-- `AgeWCOJBatchPayload` -/
structure BatchPayload where
  edgeId : GraphId
  sourceBagIndex : Nat
  firstTuple : Nat
  deriving DecidableEq, Repr

/-- `append_age_wcoj_adjacency_group_payload`, with `age_binding_add_source_multiplicity` -/
def appendPayload (bags : List SourceBag) (group : List BatchPayload × Nat)
    (payload : GraphId × Nat) : Option (List BatchPayload × Nat) :=
  match bags[payload.2]? with
  | none => none
  | some bag =>
      if bag.rowCount = 0 ∨ pgInt32Max - bag.rowCount < group.2 then none
      else some (group.1 ++ [⟨payload.1, payload.2, group.2⟩], group.2 + bag.rowCount)

/-- A group of the tuples of an adjacency provider, with the payloads that were appended -/
structure AdjacencyGroup where
  provider : PostingProvider
  payloads : List BatchPayload
  count : Nat
  appended : ∃ given : List (GraphId × Nat),
    given.foldlM (appendPayload (provider.sourceBags sort)) ([], 0) = some (payloads, count)

/-- `AgeWCOJTupleGroup` -/
inductive TupleGroup where
  | rows (edgeIds : List (Option GraphId))
  | adjacency (group : AdjacencyGroup sort)

namespace AdjacencyGroup

variable {sort} (group : AdjacencyGroup sort)

/-- The first tuple of the payload is at `tupleIndex` or before. -/
def startsUpTo (payloads : List BatchPayload) (tupleIndex place : Nat) : Bool :=
  match payloads[place]? with
  | some payload => payload.firstTuple ≤ tupleIndex
  | none => false

/-- `get_age_wcoj_adjacency_group_payload`: the payload, its bag and the place of the row -/
def payloadOf (tupleIndex : Nat) : Option (BatchPayload × SourceBag × Nat) :=
  if group.count ≤ tupleIndex then none
  else
    match SortedKeys.bisect (startsUpTo group.payloads tupleIndex) group.payloads.length 0
      group.payloads.length with
    | 0 => none
    | payloadIndex + 1 =>
        match group.payloads[payloadIndex]? with
        | none => none
        | some entry =>
            match (group.provider.sourceBags sort)[entry.sourceBagIndex]? with
            | none => none
            | some bag =>
                if bag.rowCount ≤ tupleIndex - entry.firstTuple then none
                else some (entry, bag, bag.firstRow + (tupleIndex - entry.firstTuple))

/-- Where the provider has read the row of a tuple -/
def sourceRow (tupleIndex : Nat) : Option Nat :=
  (group.payloadOf tupleIndex).bind fun found =>
    (group.provider.sortedRows sort)[found.2.2]?

end AdjacencyGroup

namespace TupleGroup

variable {sort}

def count : TupleGroup sort → Nat
  | rows edgeIds => edgeIds.length
  | adjacency group => group.count

/-- `get_age_wcoj_group_edge_id` -/
def edgeId : TupleGroup sort → Nat → Option GraphId
  | rows edgeIds, tupleIndex => edgeIds[tupleIndex]?.join
  | adjacency group, tupleIndex => (group.payloadOf tupleIndex).map fun found => found.1.edgeId

/-- `age_wcoj_group_source_position`; the outer `none` is an error, the inner one a refusal. -/
def sourcePosition : TupleGroup sort → Nat → Option (Option (GraphId × Nat))
  | rows _, _ => some none
  | adjacency group, tupleIndex =>
      match group.payloadOf tupleIndex with
      | none => none
      | some (_, bag, sourceRowIndex) =>
          if sourceRowIndex < bag.firstRow ∨ bag.firstRow + bag.rowCount ≤ sourceRowIndex then none
          else some (some (bag.key, sourceRowIndex - bag.firstRow))

/-- Where the row of a tuple was read, for a group of an adjacency provider -/
def sourceRow : TupleGroup sort → Nat → Option Nat
  | rows _, _ => none
  | adjacency group, tupleIndex => group.sourceRow tupleIndex

end TupleGroup

/-- The providers and the tuple groups of `AgeWCOJJoinScanState`; an adjacency provider has a group
of its own payloads. -/
structure JoinState where
  arity : Nat
  positive : 0 < arity
  providers : Nat → PostingProvider
  groups : Nat → TupleGroup sort
  owned : ∀ source < arity, (providers source).kind = .adjacency →
    ∃ group, groups source = .adjacency group ∧ group.provider = providers source

namespace JoinState

variable {sort} (state : JoinState sort)

/-- The factors of a correlation group -/
def members (groupId : Nat) : List Nat :=
  (List.range state.arity).filter fun source =>
    (state.providers source).sourceCorrelationGroup = groupId

/-- A group of two or more providers, all of adjacency -/
def isAdjacencyGroup (groupId : Nat) : Bool :=
  ((state.members groupId).all fun source => (state.providers source).kind = .adjacency) &&
    2 ≤ (state.members groupId).length

def sourceCorrelationGroupCount : Nat :=
  (List.range state.arity).foldl
    (fun count source => max count (state.providers source).sourceCorrelationGroup) 0

/-- `initialize_wcoj_source_correlation_enforcement` -/
def sourceCorrelationEnforced : Bool :=
  (List.range state.sourceCorrelationGroupCount).any fun groupId =>
    state.isAdjacencyGroup (groupId + 1)

/-- `age_wcoj_source_correlation_group_is_enforced` -/
def groupIsEnforced (groupId : Nat) : Bool :=
  state.sourceCorrelationEnforced && 0 < groupId && state.isAdjacencyGroup groupId

/-- The loop over the other factors -/
def othersAgree (indexes : Nat → Int) (source groupId : Nat) (position : GraphId × Nat) :
    List Nat → Option Bool
  | [] => some true
  | other :: rest =>
      if other = source ∨ (state.providers other).sourceCorrelationGroup ≠ groupId ∨
          indexes other < 0 then
        othersAgree indexes source groupId position rest
      else
        match (state.groups other).sourcePosition (indexes other).toNat with
        | none => none
        | some otherPosition =>
            if otherPosition = some position then
              othersAgree indexes source groupId position rest
            else some false

/-- `age_wcoj_source_correlation_accept`; `none` is an error. -/
def sourceCorrelationAccept (indexes : Nat → Int) (source tupleIndex : Nat) : Option Bool :=
  let groupId := (state.providers source).sourceCorrelationGroup
  if !state.groupIsEnforced groupId then some true
  else
    match (state.groups source).sourcePosition tupleIndex with
    | none => none
    | some none => some false
    | some (some position) =>
        state.othersAgree indexes source groupId position (List.range state.arity)

/-- The factors that `collect_age_wcoj_group` enumerates, in some order; the edges are looked at
where uniqueness may refuse one. -/
def flatFactors (order : List Nat) (mayReject : Bool) (uniquenessGroups : Nat → Finset Nat) :
    FlatFactors where
  factorCount := state.arity
  logicalCounts source := (state.groups source).count
  enumerationOrder := order
  acceptCallback :=
    if state.sourceCorrelationEnforced then
      some fun indexes source tupleIndex =>
        state.sourceCorrelationAccept indexes source tupleIndex = some true
    else none
  edgeIdCallback :=
    if mayReject then some fun source tupleIndex => (state.groups source).edgeId tupleIndex
    else none
  uniquenessGroups := if mayReject then some uniquenessGroups else none

end JoinState

end Definitions

section Bags

/-- The bags of the keys up to a row; the last bag comes first. -/
structure Bagged (keys : List GraphId) (row : Nat) (bags : List SourceBag) : Prop where
  holds : ∀ bag ∈ bags, 0 < bag.rowCount ∧
    ∀ offset < bag.rowCount, keys[bag.firstRow + offset]? = some bag.key
  ordered : bags.Pairwise fun later earlier => earlier.key.toInt < later.key.toInt
  reached : ∀ last ∈ bags.head?, last.firstRow + last.rowCount = row

variable {keys : List GraphId} {row : Nat} {bags : List SourceBag} {key : GraphId}

theorem Bagged.add (sorted : keys.Pairwise fun first second => first.toInt ≤ second.toInt)
    (bagged : Bagged keys row bags) (isKey : keys[row]? = some key) :
    Bagged keys (row + 1) (addSourceRow bags (key, row)) := by
  have fresh : ∀ offset < 1, keys[row + offset]? = some key := by
    intro offset small
    obtain rfl : offset = 0 := by omega
    exact isKey
  cases bags with
  | nil =>
      refine ⟨?_, List.pairwise_singleton _ _, ?_⟩
      · intro bag isBag
        obtain rfl := List.mem_singleton.1 isBag
        exact ⟨Nat.one_pos, fresh⟩
      · rintro last isLast
        cases isLast
        rfl
  | cons last earlier =>
      obtain ⟨positive, holds⟩ := bagged.holds last List.mem_cons_self
      have reached := bagged.reached last rfl
      obtain ⟨earlierLess, ordered⟩ := List.pairwise_cons.1 bagged.ordered
      rw [addSourceRow]
      split_ifs with same
      · refine ⟨?_, List.pairwise_cons.2 ⟨earlierLess, ordered⟩, ?_⟩
        · intro bag isBag
          rcases List.mem_cons.1 isBag with rfl | isEarlier
          · refine ⟨Nat.succ_pos _, fun offset small => ?_⟩
            rcases Nat.lt_succ_iff_lt_or_eq.1 small with inside | rfl
            · exact holds offset inside
            · exact (congrArg (keys[·]?) reached).trans (isKey.trans (congrArg some same.symm))
          · exact bagged.holds bag (List.mem_cons_of_mem _ isEarlier)
        · rintro _ isLast
          cases isLast
          dsimp only
          omega
      · -- The key before this row is the one of the last bag.
        have before := holds (last.rowCount - 1) (by omega)
        obtain ⟨isBefore, atBefore⟩ := List.getElem?_eq_some_iff.1 before
        obtain ⟨isRow, atRow⟩ := List.getElem?_eq_some_iff.1 isKey
        have notGreater : last.key.toInt ≤ key.toInt := by
          have := List.pairwise_iff_getElem.1 sorted _ _ isBefore isRow (by omega)
          rwa [atBefore, atRow] at this
        have less : last.key.toInt < key.toInt :=
          lt_of_le_of_ne notGreater fun equal => same (Int64.toInt_inj.1 equal)
        refine ⟨?_, List.pairwise_cons.2 ⟨?_, bagged.ordered⟩, ?_⟩
        · intro bag isBag
          rcases List.mem_cons.1 isBag with rfl | isOld
          · exact ⟨Nat.one_pos, fresh⟩
          · exact bagged.holds bag isOld
        · intro bag isOld
          rcases List.mem_cons.1 isOld with rfl | isEarlier
          · exact less
          · exact (earlierLess bag isEarlier).trans less
        · rintro _ isLast
          cases isLast
          rfl

/-- The loop over the rows from one on -/
theorem Bagged.foldl (sorted : keys.Pairwise fun first second => first.toInt ≤ second.toInt)
    (rest : List GraphId) (isRest : keys.drop row = rest) (bagged : Bagged keys row bags) :
    ∃ stop, Bagged keys stop ((rest.zipIdx row).foldl addSourceRow bags) := by
  induction rest generalizing row bags with
  | nil => exact ⟨row, bagged⟩
  | cons key rest inductionHypothesis =>
      have isKey : keys[row]? = some key := by
        rw [← List.head?_drop, isRest]
        rfl
      have isLater : keys.drop (row + 1) = rest := by
        rw [← List.tail_drop, isRest]
        rfl
      exact inductionHypothesis isLater (bagged.add sorted isKey)

/-- Each bag has rows of its key only, and no two bags have one key. -/
theorem sourceBagsOf_spec (sorted : keys.Pairwise fun first second => first.toInt ≤ second.toInt) :
    (∀ bag ∈ sourceBagsOf keys, 0 < bag.rowCount ∧
      ∀ offset < bag.rowCount, keys[bag.firstRow + offset]? = some bag.key) ∧
    ∀ first ∈ sourceBagsOf keys, ∀ second ∈ sourceBagsOf keys, first.key = second.key →
      first = second := by
  have start : Bagged keys 0 [] := ⟨nofun, .nil, nofun⟩
  obtain ⟨stop, bagged⟩ := start.foldl sorted keys rfl
  constructor
  · intro bag isBag
    exact bagged.holds bag (List.mem_reverse.1 isBag)
  · intro first isFirst second isSecond same
    have distinct : (((keys.zipIdx 0).foldl addSourceRow []).map SourceBag.key).Nodup :=
      List.pairwise_map.2 (bagged.ordered.imp fun less equal => less.ne (congrArg _ equal.symm))
    exact List.inj_on_of_nodup_map distinct (List.mem_reverse.1 isFirst)
      (List.mem_reverse.1 isSecond) same

/-- The key and the offset in its bag say which of the sorted rows it is. -/
theorem position_eq_iff (sorted : keys.Pairwise fun first second => first.toInt ≤ second.toInt)
    {first second : SourceBag} (isFirst : first ∈ sourceBagsOf keys)
    (isSecond : second ∈ sourceBagsOf keys) {offset other : Nat}
    (inFirst : offset < first.rowCount) (inSecond : other < second.rowCount) :
    (first.key, offset) = (second.key, other) ↔
      first.firstRow + offset = second.firstRow + other := by
  obtain ⟨holds, distinct⟩ := sourceBagsOf_spec sorted
  constructor
  · intro same
    obtain ⟨sameKey, rfl⟩ := Prod.mk.inj same
    rw [distinct first isFirst second isSecond sameKey]
  · intro same
    have atFirst := (holds first isFirst).2 offset inFirst
    have atSecond := (holds second isSecond).2 other inSecond
    rw [same, atSecond] at atFirst
    obtain rfl := distinct second isSecond first isFirst (Option.some.inj atFirst)
    rw [Nat.add_left_cancel same]

end Bags

section Tuples

variable {bags : List SourceBag} {payloads : List BatchPayload} {start stop tupleIndex : Nat}

/-- The payloads take up the tuples from `start` to `stop`, one after the other. -/
def Tiles (bags : List SourceBag) (start stop : Nat) : List BatchPayload → Prop
  | [] => start = stop
  | payload :: rest =>
      payload.firstTuple = start ∧ ∃ bag, bags[payload.sourceBagIndex]? = some bag ∧
        0 < bag.rowCount ∧ Tiles bags (start + bag.rowCount) stop rest

theorem Tiles.append {payload : BatchPayload} {bag : SourceBag}
    (tiles : Tiles bags start stop payloads) (isFirst : payload.firstTuple = stop)
    (isBag : bags[payload.sourceBagIndex]? = some bag) (positive : 0 < bag.rowCount) :
    Tiles bags start (stop + bag.rowCount) (payloads ++ [payload]) := by
  induction payloads generalizing start with
  | nil =>
      obtain rfl : start = stop := tiles
      exact ⟨isFirst, bag, isBag, positive, rfl⟩
  | cons head rest inductionHypothesis =>
      obtain ⟨isStart, headBag, isHeadBag, headPositive, later⟩ := tiles
      exact ⟨isStart, headBag, isHeadBag, headPositive, inductionHypothesis later⟩

theorem appendPayload_tiles {group after : List BatchPayload × Nat} {given : GraphId × Nat}
    (tiles : Tiles bags 0 group.2 group.1)
    (appended : appendPayload bags group given = some after) :
    Tiles bags 0 after.2 after.1 := by
  unfold appendPayload at appended
  cases isBag : bags[given.2]? with
  | none => rw [isBag] at appended; cases appended
  | some bag =>
      rw [isBag] at appended
      dsimp only at appended
      split_ifs at appended with invalid
      cases appended
      exact tiles.append rfl isBag (by omega)

theorem AdjacencyGroup.tiles {sort : SourceSort} (group : AdjacencyGroup sort) :
    Tiles (group.provider.sourceBags sort) 0 group.count group.payloads := by
  obtain ⟨given, appended⟩ := group.appended
  have run (given : List (GraphId × Nat)) (before after : List BatchPayload × Nat)
      (tiles : Tiles (group.provider.sourceBags sort) 0 before.2 before.1)
      (appended : given.foldlM (appendPayload (group.provider.sourceBags sort)) before =
        some after) : Tiles (group.provider.sourceBags sort) 0 after.2 after.1 := by
    induction given generalizing before with
    | nil =>
        cases appended
        exact tiles
    | cons first rest inductionHypothesis =>
        rw [List.foldlM_cons, Option.bind_eq_bind, Option.bind_eq_some_iff] at appended
        obtain ⟨between, isFirst, isRest⟩ := appended
        exact inductionHypothesis between (appendPayload_tiles tiles isFirst) isRest
  exact run given ([], 0) (group.payloads, group.count) rfl appended

/-- Before its first tuple no payload starts. -/
theorem startsUpTo_of_lt (tiles : Tiles bags start stop payloads) (less : tupleIndex < start)
    (place : Nat) : AdjacencyGroup.startsUpTo payloads tupleIndex place = false := by
  induction payloads generalizing start place with
  | nil => rfl
  | cons head rest inductionHypothesis =>
      obtain ⟨isStart, bag, -, positive, later⟩ := tiles
      cases place with
      | zero =>
          rw [AdjacencyGroup.startsUpTo]
          simp only [List.getElem?_cons_zero, decide_eq_false_iff_not]
          omega
      | succ place => exact inductionHypothesis later (by omega) place

/-- The payload of a tuple is the last one that starts up to it. -/
theorem exists_payload (tiles : Tiles bags start stop payloads) (lower : start ≤ tupleIndex)
    (upper : tupleIndex < stop) :
    ∃ place payload bag, SortedKeys.IsBound (AdjacencyGroup.startsUpTo payloads tupleIndex)
        (place + 1) ∧ payloads[place]? = some payload ∧
      bags[payload.sourceBagIndex]? = some bag ∧ payload.firstTuple ≤ tupleIndex ∧
      tupleIndex < payload.firstTuple + bag.rowCount := by
  induction payloads generalizing start with
  | nil =>
      obtain rfl : start = stop := tiles
      omega
  | cons head rest inductionHypothesis =>
      obtain ⟨isStart, headBag, isHeadBag, positive, later⟩ := tiles
      have first : AdjacencyGroup.startsUpTo (head :: rest) tupleIndex 0 = true := by
        rw [AdjacencyGroup.startsUpTo]
        simp only [List.getElem?_cons_zero, decide_eq_true_eq]
        omega
      by_cases inside : tupleIndex < start + headBag.rowCount
      · refine ⟨0, head, headBag, fun place => ?_, rfl, isHeadBag, by omega, by omega⟩
        cases place with
        | zero => exact iff_of_true first Nat.one_pos
        | succ place =>
            have none := startsUpTo_of_lt later inside place
            exact iff_of_false (fun starts => by cases none.symm.trans starts) (by omega)
      · obtain ⟨place, payload, bag, isBound, found, rest⟩ := inductionHypothesis later (by omega)
        refine ⟨place + 1, payload, bag, fun other => ?_, found, rest⟩
        cases other with
        | zero => exact iff_of_true first (Nat.succ_pos _)
        | succ other => exact (isBound other).trans (Nat.succ_lt_succ_iff).symm

variable {sort : SourceSort} {group : AdjacencyGroup sort}

theorem AdjacencyGroup.payloadOf_eq (inside : tupleIndex < group.count) :
    ∃ entry bag, group.payloadOf tupleIndex =
        some (entry, bag, bag.firstRow + (tupleIndex - entry.firstTuple)) ∧
      bag ∈ group.provider.sourceBags sort ∧ tupleIndex - entry.firstTuple < bag.rowCount := by
  obtain ⟨place, entry, bag, isBound, found, isBag, lower, upper⟩ :=
    exists_payload group.tiles (Nat.zero_le _) inside
  have bounded := (List.getElem?_eq_some_iff.1 found).1
  refine ⟨entry, bag, ?_, List.mem_of_getElem? isBag, by omega⟩
  rw [payloadOf, if_neg (by omega), SortedKeys.bisect_eq isBound (Nat.zero_le _) (by omega)
    (by omega)]
  dsimp only
  rw [found]
  dsimp only
  rw [isBag]
  dsimp only
  rw [if_neg (by omega)]

end Tuples

section Positions

variable {sort : SourceSort} {first second : AdjacencyGroup sort} {tupleIndex other : Nat}

theorem sortedKeys_sorted (sort : SourceSort) (provider : PostingProvider) :
    ((provider.sortedRows sort).map fun row => provider.sourceRows.getD row 0).Pairwise
      fun first second => first.toInt ≤ second.toInt :=
  List.pairwise_map.2 (sort.sorted provider.sourceRows)

/-- A tuple has a key and an offset in its bag, and a row. -/
theorem exists_position (inside : tupleIndex < first.count) :
    ∃ bag ∈ first.provider.sourceBags sort, ∃ offset < bag.rowCount,
      (TupleGroup.adjacency first).sourcePosition tupleIndex = some (some (bag.key, offset)) ∧
      first.sourceRow tupleIndex = (first.provider.sortedRows sort)[bag.firstRow + offset]? ∧
      bag.firstRow + offset < (first.provider.sortedRows sort).length := by
  obtain ⟨entry, bag, isPayload, isBag, small⟩ := first.payloadOf_eq inside
  refine ⟨bag, isBag, _, small, ?_, ?_, ?_⟩
  · rw [TupleGroup.sourcePosition, isPayload]
    dsimp only
    rw [if_neg (by omega), Nat.add_sub_cancel_left]
  · rw [AdjacencyGroup.sourceRow, isPayload]
    rfl
  · obtain ⟨-, holds⟩ := (sourceBagsOf_spec (sortedKeys_sorted sort first.provider)).1 bag isBag
    have bounded := (List.getElem?_eq_some_iff.1 (holds _ small)).1
    rwa [List.length_map] at bounded

/-- Two tuples over one sequence of rows have one position where they have one row. -/
theorem sourcePosition_eq_iff (sameRows : first.provider.sourceRows = second.provider.sourceRows)
    (inFirst : tupleIndex < first.count) (inSecond : other < second.count) :
    (TupleGroup.adjacency first).sourcePosition tupleIndex =
        (TupleGroup.adjacency second).sourcePosition other ↔
      first.sourceRow tupleIndex = second.sourceRow other := by
  obtain ⟨bag, isBag, offset, small, isPosition, isRow, bounded⟩ := exists_position inFirst
  obtain ⟨otherBag, isOtherBag, otherOffset, otherSmall, isOther, isOtherRow, -⟩ :=
    exists_position inSecond
  have sameSorted : second.provider.sortedRows sort = first.provider.sortedRows sort :=
    congrArg sort.order sameRows.symm
  have sameBags : second.provider.sourceBags sort = first.provider.sourceBags sort := by
    rw [PostingProvider.sourceBags, PostingProvider.sourceBags, sameSorted, sameRows]
  have distinct : (first.provider.sortedRows sort).Nodup :=
    (sort.perm first.provider.sourceRows).nodup_iff.2 List.nodup_range
  rw [sameBags] at isOtherBag
  rw [isPosition, isOther, isRow, isOtherRow, sameSorted, Option.some.injEq, Option.some.injEq,
    position_eq_iff (sortedKeys_sorted sort first.provider) isBag isOtherBag small otherSmall,
    List.getElem?_inj bounded distinct]

end Positions

section Acceptance

namespace JoinState

variable {sort : SourceSort} {state : JoinState sort} {indexes : Nat → Int}
  {source groupId tupleIndex : Nat} {position : GraphId × Nat}

theorem mem_members : source ∈ state.members groupId ↔
    source < state.arity ∧ (state.providers source).sourceCorrelationGroup = groupId := by
  rw [members, List.mem_filter, List.mem_range, decide_eq_true_eq]

theorem exists_member (isAdjacency : state.isAdjacencyGroup groupId = true) :
    ∃ source, source ∈ state.members groupId := by
  rw [isAdjacencyGroup, Bool.and_eq_true, decide_eq_true_eq] at isAdjacency
  exact List.exists_mem_of_length_pos (by omega)

/-- A member has an adjacency group over the rows of its provider. -/
theorem exists_adjacency (isAdjacency : state.isAdjacencyGroup groupId = true)
    (isMember : source ∈ state.members groupId) :
    ∃ group, state.groups source = .adjacency group ∧
      group.provider = state.providers source := by
  rw [isAdjacencyGroup, Bool.and_eq_true, List.all_eq_true] at isAdjacency
  exact state.owned source (mem_members.1 isMember).1
    (of_decide_eq_true (isAdjacency.1 source isMember))

/-- The number of a group of factors is counted. -/
theorem le_sourceCorrelationGroupCount (inside : source < state.arity) :
    (state.providers source).sourceCorrelationGroup ≤ state.sourceCorrelationGroupCount := by
  have grows (sources : List Nat) (count : Nat) :
      count ≤ sources.foldl
          (fun count source => max count (state.providers source).sourceCorrelationGroup) count ∧
        ∀ source ∈ sources, (state.providers source).sourceCorrelationGroup ≤
          sources.foldl
            (fun count source => max count (state.providers source).sourceCorrelationGroup)
            count := by
    induction sources generalizing count with
    | nil => exact ⟨le_rfl, nofun⟩
    | cons head rest inductionHypothesis =>
        obtain ⟨larger, each⟩ := inductionHypothesis
          (max count (state.providers head).sourceCorrelationGroup)
        refine ⟨(le_max_left _ _).trans larger, fun source isSource => ?_⟩
        rcases List.mem_cons.1 isSource with rfl | isLater
        · exact (le_max_right _ _).trans larger
        · exact each source isLater
  exact (grows _ 0).2 source (List.mem_range.2 inside)

/-- The flag of the state never turns a group off. -/
theorem groupIsEnforced_iff :
    state.groupIsEnforced groupId = true ↔
      0 < groupId ∧ state.isAdjacencyGroup groupId = true := by
  rw [groupIsEnforced, Bool.and_eq_true, Bool.and_eq_true, decide_eq_true_eq]
  refine ⟨fun enforced => ⟨enforced.1.2, enforced.2⟩, fun ⟨positive, isAdjacency⟩ =>
    ⟨⟨?_, positive⟩, isAdjacency⟩⟩
  obtain ⟨source, isMember⟩ := exists_member isAdjacency
  obtain ⟨inside, rfl⟩ := mem_members.1 isMember
  rw [sourceCorrelationEnforced, List.any_eq_true]
  refine ⟨(state.providers source).sourceCorrelationGroup - 1, List.mem_range.2 ?_, ?_⟩
  · have := le_sourceCorrelationGroupCount inside
    omega
  · rwa [Nat.sub_add_cancel positive]

/-- The loop over the others finds no difference where each that has an index agrees. -/
theorem othersAgree_iff {others : List Nat} :
    state.othersAgree indexes source groupId position others = some true ↔
      ∀ other ∈ others, other ≠ source →
        (state.providers other).sourceCorrelationGroup = groupId → 0 ≤ indexes other →
        (state.groups other).sourcePosition (indexes other).toNat = some (some position) := by
  induction others with
  | nil => exact iff_of_true rfl nofun
  | cons other rest inductionHypothesis =>
      rw [othersAgree, List.forall_mem_cons]
      split_ifs with skipped
      · refine inductionHypothesis.trans (and_iff_right ?_).symm
        intro different isMember chosen
        rcases skipped with same | notMember | isFree
        · exact absurd same different
        · exact absurd isMember notMember
        · omega
      · simp only [not_or, not_not, not_lt] at skipped
        obtain ⟨different, isMember, chosen⟩ := skipped
        cases isOther : (state.groups other).sourcePosition (indexes other).toNat with
        | none =>
            refine iff_of_false nofun fun all => ?_
            cases all.1 different isMember chosen
        | some found =>
            dsimp only
            split_ifs with same
            · exact inductionHypothesis.trans (and_iff_right fun _ _ _ => congrArg some same).symm
            · refine iff_of_false nofun fun all => same ?_
              exact Option.some.inj (all.1 different isMember chosen)

/-- The tuples of a factor in a correlated group have positions. -/
theorem exists_sourcePosition (isAdjacency : state.isAdjacencyGroup groupId = true)
    (isMember : source ∈ state.members groupId)
    (inside : tupleIndex < (state.groups source).count) :
    ∃ position, (state.groups source).sourcePosition tupleIndex = some (some position) := by
  obtain ⟨group, isGroup, -⟩ := exists_adjacency isAdjacency isMember
  rw [isGroup] at inside ⊢
  obtain ⟨bag, -, offset, -, isPosition, -⟩ := exists_position inside
  exact ⟨_, isPosition⟩

/-- No index of a tuple makes the callback fail. -/
theorem othersAgree_isSome {others : List Nat} (inside : ∀ other ∈ others, other < state.arity)
    (isAdjacency : state.isAdjacencyGroup groupId = true)
    (indexed : ∀ other < state.arity, indexes other < (state.groups other).count) :
    (state.othersAgree indexes source groupId position others).isSome = true := by
  induction others with
  | nil => rfl
  | cons other rest inductionHypothesis =>
      obtain ⟨isFactor, later⟩ := List.forall_mem_cons.1 inside
      rw [othersAgree]
      split_ifs with skipped
      · exact inductionHypothesis later
      · simp only [not_or, not_not, not_lt] at skipped
        obtain ⟨different, isMember, chosen⟩ := skipped
        have bounded := indexed other isFactor
        obtain ⟨otherPosition, isPosition⟩ := exists_sourcePosition isAdjacency
          (mem_members.2 ⟨isFactor, isMember⟩)
          (show (indexes other).toNat < (state.groups other).count by omega)
        rw [isPosition]
        dsimp only
        split_ifs
        · exact inductionHypothesis later
        · rfl

theorem sourceCorrelationAccept_isSome (isFactor : source < state.arity)
    (inside : tupleIndex < (state.groups source).count)
    (indexed : ∀ other < state.arity, indexes other < (state.groups other).count) :
    (state.sourceCorrelationAccept indexes source tupleIndex).isSome = true := by
  rw [sourceCorrelationAccept]
  cases enforced : state.groupIsEnforced (state.providers source).sourceCorrelationGroup with
  | false => rfl
  | true =>
      obtain ⟨-, isAdjacency⟩ := groupIsEnforced_iff.1 enforced
      obtain ⟨position, isPosition⟩ :=
        exists_sourcePosition isAdjacency (mem_members.2 ⟨isFactor, rfl⟩) inside
      rw [isPosition]
      exact othersAgree_isSome (fun other => List.mem_range.1) isAdjacency indexed

/-- What an accepted index means, where the tuple of the factor has a position -/
theorem sourceCorrelationAccept_iff (isFactor : source < state.arity)
    (inside : tupleIndex < (state.groups source).count) :
    state.sourceCorrelationAccept indexes source tupleIndex = some true ↔
      (state.groupIsEnforced (state.providers source).sourceCorrelationGroup = true →
        ∀ other < state.arity, other ≠ source →
          (state.providers other).sourceCorrelationGroup =
            (state.providers source).sourceCorrelationGroup → 0 ≤ indexes other →
          (state.groups other).sourcePosition (indexes other).toNat =
            (state.groups source).sourcePosition tupleIndex) := by
  rw [sourceCorrelationAccept]
  cases enforced : state.groupIsEnforced (state.providers source).sourceCorrelationGroup with
  | false => exact iff_of_true rfl nofun
  | true =>
      obtain ⟨-, isAdjacency⟩ := groupIsEnforced_iff.1 enforced
      obtain ⟨position, isPosition⟩ :=
        exists_sourcePosition isAdjacency (mem_members.2 ⟨isFactor, rfl⟩) inside
      rw [isPosition]
      refine othersAgree_iff.trans ⟨fun all _ other isOther => ?_, fun all other isOther => ?_⟩
      · exact all other (List.mem_range.2 isOther)
      · exact all rfl other (List.mem_range.1 isOther)

/-- Two factors of one correlated group have picked one row. -/
def SameRow (state : JoinState sort) (w : Nat → Nat) (first second : Nat) : Prop :=
  ∀ groupId, 0 < groupId → state.isAdjacencyGroup groupId = true →
    first ∈ state.members groupId → second ∈ state.members groupId →
    (state.groups first).sourceRow (w first) = (state.groups second).sourceRow (w second)

theorem SameRow.symm {w : Nat → Nat} {first second : Nat} (same : state.SameRow w first second) :
    state.SameRow w second first :=
  fun groupId positive isAdjacency isSecond isFirst =>
    (same groupId positive isAdjacency isFirst isSecond).symm

/-- The members of each adjacency group read the same source rows. -/
def Correlated (state : JoinState sort) : Prop :=
  ∀ groupId, 0 < groupId → state.isAdjacencyGroup groupId = true →
    ∀ first ∈ state.members groupId, ∀ second ∈ state.members groupId,
      (state.providers first).sourceRows = (state.providers second).sourceRows

variable {w : Nat → Nat} {order : List Nat} {mayReject : Bool} {uniquenessGroups : Nat → Finset Nat}

/-- Two tuples have one position where their rows are the same. -/
theorem sameRow_iff (correlated : state.Correlated)
    (inside : ∀ factor < state.arity, w factor < (state.groups factor).count) {first second : Nat}
    (isFirst : first < state.arity) (isSecond : second < state.arity) :
    state.SameRow w first second ↔
      (state.groupIsEnforced (state.providers first).sourceCorrelationGroup = true →
        (state.providers second).sourceCorrelationGroup =
          (state.providers first).sourceCorrelationGroup →
        (state.groups second).sourcePosition (w second) =
          (state.groups first).sourcePosition (w first)) := by
  have positions (groupId : Nat) (positive : 0 < groupId)
      (isAdjacency : state.isAdjacencyGroup groupId = true)
      (firstMember : first ∈ state.members groupId)
      (secondMember : second ∈ state.members groupId) :
      (state.groups second).sourcePosition (w second) =
          (state.groups first).sourcePosition (w first) ↔
        (state.groups first).sourceRow (w first) = (state.groups second).sourceRow (w second) := by
    obtain ⟨firstGroup, isFirstGroup, firstOwned⟩ := exists_adjacency isAdjacency firstMember
    obtain ⟨secondGroup, isSecondGroup, secondOwned⟩ := exists_adjacency isAdjacency secondMember
    have inFirst := inside first isFirst
    have inSecond := inside second isSecond
    have sameRows := correlated groupId positive isAdjacency first firstMember second secondMember
    rw [← firstOwned, ← secondOwned] at sameRows
    rw [isFirstGroup] at inFirst ⊢
    rw [isSecondGroup] at inSecond ⊢
    exact eq_comm.trans (sourcePosition_eq_iff sameRows inFirst inSecond)
  constructor
  · intro same enforced sameGroup
    obtain ⟨positive, isAdjacency⟩ := groupIsEnforced_iff.1 enforced
    have firstMember : first ∈ state.members (state.providers first).sourceCorrelationGroup :=
      mem_members.2 ⟨isFirst, rfl⟩
    have secondMember := mem_members.2 ⟨isSecond, sameGroup⟩
    exact (positions _ positive isAdjacency firstMember secondMember).2
      (same _ positive isAdjacency firstMember secondMember)
  · intro same groupId positive isAdjacency firstMember secondMember
    refine (positions _ positive isAdjacency firstMember secondMember).1 ?_
    obtain ⟨-, rfl⟩ := mem_members.1 firstMember
    exact same (groupIsEnforced_iff.2 ⟨positive, isAdjacency⟩) (mem_members.1 secondMember).2

/-- Without an enforced group there is no callback, and it would accept. -/
theorem flatFactors_accepts :
    (state.flatFactors order mayReject uniquenessGroups).accepts indexes source tupleIndex = true ↔
      state.sourceCorrelationAccept indexes source tupleIndex = some true := by
  rw [FlatFactors.accepts, flatFactors]
  cases enforced : state.sourceCorrelationEnforced with
  | false =>
      refine iff_of_true rfl ?_
      rw [sourceCorrelationAccept, groupIsEnforced, enforced]
      rfl
  | true => exact decide_eq_true_iff

/-- The indexes that are left over from other choices do not count: an index is accepted where its
row is that of the factors before it. -/
theorem accepts_iff (correlated : state.Correlated)
    (ordered : (state.flatFactors order mayReject uniquenessGroups).Ordered)
    (inside : ∀ factor < state.arity, w factor < (state.groups factor).count) {depth : Nat}
    (isDepth : depth < state.arity) :
    (state.flatFactors order mayReject uniquenessGroups).accepts
        ((state.flatFactors order mayReject uniquenessGroups).prefixIndexes w depth)
        ((state.flatFactors order mayReject uniquenessGroups).factorAt depth)
        (w ((state.flatFactors order mayReject uniquenessGroups).factorAt depth)) = true ↔
      ∀ previous < depth, state.SameRow w
        ((state.flatFactors order mayReject uniquenessGroups).factorAt depth)
        ((state.flatFactors order mayReject uniquenessGroups).factorAt previous) := by
  set factors := state.flatFactors order mayReject uniquenessGroups
  have bounded (depth : Nat) (isDepth : depth < state.arity) :
      factors.factorAt depth < state.arity :=
    List.mem_range.1 (ordered.mem_iff.1 (List.mem_of_getElem? (ordered.getElem? isDepth)))
  have isFactor := bounded depth isDepth
  rw [flatFactors_accepts, sourceCorrelationAccept_iff isFactor (inside _ isFactor)]
  constructor
  · intro all previous before
    have isPrevious := before.trans isDepth
    refine (sameRow_iff correlated inside isFactor (bounded previous isPrevious)).2
      fun enforced sameGroup => ?_
    have taken : factors.factorAt previous ∈ factors.enumerationOrder.take (depth + 1) :=
      List.mem_of_getElem? ((List.getElem?_take_of_lt (by omega)).trans
        (ordered.getElem? isPrevious))
    have chosen : factors.prefixIndexes w depth (factors.factorAt previous) =
        w (factors.factorAt previous) := if_pos taken
    have different : factors.factorAt previous ≠ factors.factorAt depth := by
      intro same
      have isSame := ordered.getElem? isPrevious
      rw [same, ← ordered.getElem? isDepth] at isSame
      have length : factors.enumerationOrder.length = state.arity :=
        ordered.length_eq.trans List.length_range
      have := (List.getElem?_inj (by omega) ordered.nodup).1 isSame
      omega
    have agrees := all enforced _ (bounded previous isPrevious) different sameGroup
    rw [chosen] at agrees
    exact agrees (Int.natCast_nonneg _)
  · intro all enforced other isOther different sameGroup chosen
    have taken : other ∈ factors.enumerationOrder.take (depth + 1) := by
      by_contra outside
      rw [FlatFactors.prefixIndexes, if_neg outside] at chosen
      omega
    have isChosen : factors.prefixIndexes w depth other = w other := if_pos taken
    obtain ⟨previous, isPrevious⟩ := List.mem_iff_getElem?.1 taken
    have notLater : previous < depth + 1 := by
      have := (List.getElem?_eq_some_iff.1 isPrevious).1
      rw [List.length_take] at this
      omega
    rw [List.getElem?_take_of_lt notLater, ordered.getElem? (show previous < state.arity by omega)]
      at isPrevious
    obtain rfl := Option.some.inj isPrevious
    have before : previous < depth :=
      lt_of_le_of_ne (by omega) fun same => different (by rw [same])
    rw [isChosen]
    exact (sameRow_iff correlated inside isFactor isOther).1 (all previous before) enforced
      sameGroup

/-- The members of a group have one row, which each of their tuples has. -/
theorem forall_sameRow_iff
    (inside : ∀ factor < state.arity, w factor < (state.groups factor).count) :
    (∀ first < state.arity, ∀ second < state.arity, first ≠ second →
        state.SameRow w first second) ↔
      ∀ groupId, 0 < groupId → state.isAdjacencyGroup groupId = true →
        ∃ row, ∀ source ∈ state.members groupId,
          (state.groups source).sourceRow (w source) = some row := by
  constructor
  · intro same groupId positive isAdjacency
    obtain ⟨first, isFirst⟩ := exists_member isAdjacency
    obtain ⟨group, isGroup, -⟩ := exists_adjacency isAdjacency isFirst
    have inFirst := inside first (mem_members.1 isFirst).1
    rw [isGroup] at inFirst
    obtain ⟨bag, -, offset, -, -, isRow, bounded⟩ := exists_position inFirst
    rw [List.getElem?_eq_getElem bounded] at isRow
    obtain ⟨row, atFirst⟩ : ∃ row, (state.groups first).sourceRow (w first) = some row := by
      rw [isGroup]
      exact ⟨_, isRow⟩
    refine ⟨row, fun source isSource => ?_⟩
    by_cases isSame : source = first
    · rw [isSame]
      exact atFirst
    · exact (same source (mem_members.1 isSource).1 first (mem_members.1 isFirst).1 isSame groupId
        positive isAdjacency isSource isFirst).trans atFirst
  · intro rows first _ second _ _ groupId positive isAdjacency isFirst isSecond
    obtain ⟨row, each⟩ := rows groupId positive isAdjacency
    exact (each first isFirst).trans (each second isSecond).symm

/-- In any order of the factors the enumerator gives out, once each, the tuples of which the members
of every adjacency group have picked the same source row and uniqueness refuses none. -/
theorem sourceCorrelation_exact (state : JoinState sort) (correlated : state.Correlated)
    (order : List Nat) (isOrder : order.Perm (List.range state.arity)) (mayReject : Bool)
    (uniquenessGroups : Nat → Finset Nat) :
    (∃ vectors : List (List Int), vectors.Nodup ∧
      (∃ enough, ∀ calls fuel, enough ≤ calls → enough ≤ fuel →
        Odometer.outputs ((state.flatFactors order mayReject uniquenessGroups).next fuel)
          (state.flatFactors order mayReject uniquenessGroups).vectorOf calls beginFlatEnumerator =
            some vectors) ∧
      ∀ v, v ∈ vectors ↔
        ∃ w : Nat → Nat, v = ((List.range state.arity).map fun source => (w source : Int)) ∧
          (∀ source < state.arity, w source < (state.groups source).count) ∧
          (∀ first < state.arity, ∀ second < state.arity, first ≠ second →
            ¬(state.flatFactors order mayReject uniquenessGroups).Conflict w first second) ∧
          ∀ groupId, 0 < groupId → state.isAdjacencyGroup groupId = true →
            ∃ row, ∀ source ∈ state.members groupId,
              (state.groups source).sourceRow (w source) = some row) ∧
    ∀ (indexes : Nat → Int) (source tupleIndex : Nat), source < state.arity →
      tupleIndex < (state.groups source).count →
      (∀ other < state.arity, indexes other < (state.groups other).count) →
      (state.sourceCorrelationAccept indexes source tupleIndex).isSome = true := by
  have ordered : (state.flatFactors order mayReject uniquenessGroups).Ordered := isOrder
  refine ⟨⟨_, FlatFactors.nodup_vectors ordered, FlatFactors.outputs_eq ordered state.positive,
    fun v => (FlatFactors.mem_vectors ordered).trans (exists_congr fun w =>
      and_congr_right fun _ => ?_)⟩,
    fun indexes source tupleIndex => sourceCorrelationAccept_isSome⟩
  have inside := @FlatFactors.forall_factorAt _ ordered
    fun factor => w factor < (state.groups factor).count
  have unique := @FlatFactors.forall_conflict_iff _ ordered w
  have sameRow := @FlatFactors.forall_pairs_iff _ ordered (state.SameRow w)
    fun _ _ same => same.symm
  constructor
  · intro passes
    have small := inside.1 fun depth isDepth => (passes depth isDepth).1
    refine ⟨small, unique.1 fun depth isDepth => (passes depth isDepth).2.2, ?_⟩
    exact (forall_sameRow_iff small).1 (sameRow.1 fun depth isDepth =>
      (accepts_iff correlated ordered small isDepth).1 (passes depth isDepth).2.1)
  · rintro ⟨small, noConflict, rows⟩ depth isDepth
    exact ⟨inside.2 small depth isDepth,
      (accepts_iff correlated ordered small isDepth).2
        (sameRow.2 ((forall_sameRow_iff small).2 rows) depth isDepth),
      unique.2 noConflict depth isDepth⟩

/-- Insertion sort as `qsort` -/
def insertionSourceSort : SourceSort where
  order keys := (List.range keys.length).insertionSort fun first second =>
    (keys.getD first 0).toInt ≤ (keys.getD second 0).toInt
  perm keys := List.perm_insertionSort _ _
  sorted keys := by
    have : Std.Total fun first second : Nat =>
        (keys.getD first 0).toInt ≤ (keys.getD second 0).toInt := ⟨fun _ _ => le_total _ _⟩
    have : IsTrans Nat fun first second =>
        (keys.getD first 0).toInt ≤ (keys.getD second 0).toInt := ⟨fun _ _ _ => le_trans⟩
    exact List.pairwise_insertionSort _ _

/-- A provider of two rows with one key -/
def twoRows : PostingProvider := ⟨.adjacency, 1, [7, 7]⟩

/-- One payload over the two rows -/
def twoTuples : AdjacencyGroup insertionSourceSort where
  provider := twoRows
  payloads := [⟨3, 0, 0⟩]
  count := 2
  appended := ⟨[(3, 0)], by decide⟩

/-- Two providers of one group, over the same two rows -/
def twoProviders : JoinState insertionSourceSort where
  arity := 2
  positive := by decide
  providers _ := twoRows
  groups _ := .adjacency twoTuples
  owned _ _ _ := ⟨twoTuples, rfl, rfl⟩

theorem sourceCorrelation_twoProviders :
    twoProviders.Correlated ∧ [1, 0].Perm (List.range twoProviders.arity) ∧
      ∃ vectors : List (List Int), vectors.Nodup ∧ ∀ v, v ∈ vectors ↔
        ∃ w : Nat → Nat, v = ((List.range twoProviders.arity).map fun source => (w source : Int)) ∧
          (∀ source < twoProviders.arity, w source < (twoProviders.groups source).count) ∧
          (∀ first < twoProviders.arity, ∀ second < twoProviders.arity, first ≠ second →
            ¬(twoProviders.flatFactors [1, 0] false fun _ => ∅).Conflict w first second) ∧
          ∀ groupId, 0 < groupId → twoProviders.isAdjacencyGroup groupId = true →
            ∃ row, ∀ source ∈ twoProviders.members groupId,
              (twoProviders.groups source).sourceRow (w source) = some row := by
  have correlated : twoProviders.Correlated := fun _ _ _ _ _ _ _ => rfl
  have isOrder : [1, 0].Perm (List.range twoProviders.arity) := by decide
  obtain ⟨⟨vectors, distinct, -, exact⟩, -⟩ :=
    sourceCorrelation_exact twoProviders correlated [1, 0] isOrder false fun _ => ∅
  exact ⟨correlated, isOrder, vectors, distinct, exact⟩

end JoinState

end Acceptance

end Age.Executor.Factorized
