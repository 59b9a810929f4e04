import Age.Executor.WcojEngines

/-!
# Survivor blocks of the WCOJ join

With payloads in batches, a block of common keys is searched for ahead: the rows of the plan streams
are kept for each of them, and then the payloads of an adjacency provider are read once for the
whole block, sorted into a bucket for each key.  The groups are those of the join without blocks, up
to the order of the payloads in a bucket.
-/

namespace Age.Executor.WcojJoin

open SortedKeys CommonKeys
open scoped GenericJoin

section Code

/-- `AgeWCOJBatchPayload`: the row stands for the payload and its source bag. -/
structure BatchPayload (Row : Type) where
  survivorIndex : Nat
  row : Row

/-- An entry of the survivor block, with the groups of `batch_groups` -/
abbrev Survivor (Row : Type) : Type := GraphId × List (List Row)

variable {Row : Type} (keyOf : Row → Option GraphId)

/-- `plan_stream_buffer_group`: the loop of `plan_stream_materialize_group` once more -/
def planStreamBufferGroup (provider : Provider Row) (terminal : GraphId) :
    Except WcojError (List Row × Provider Row) :=
  planStreamMaterializeGroup keyOf provider terminal

/-- What `buffer_age_wcoj_survivor` does with one provider, which no longer `can_continue` at its
end -/
def bufferGroup (matchedKey : GraphId) (provider : Provider Row) :
    Except WcojError (Bool × List Row × Provider Row) :=
  if !provider.hasCurrent || provider.currentKey ≠ matchedKey then .error .lostSurvivor
  else
    match provider.kind with
    | .planStream => do
        let (group, provider) ← planStreamBufferGroup keyOf provider matchedKey
        if group.isEmpty then .error .noGroup
        else return (!provider.exhausted, group, provider)
    | .adjacency =>
        let (more, provider) := adjacencyNextDistinct keyOf provider
        .ok (more, [], provider)

/-- The loop of `buffer_age_wcoj_survivor` -/
def bufferAgeWcojSurvivor (matchedKey : GraphId) :
    List (Provider Row) → Except WcojError (Bool × List (List Row) × List (Provider Row))
  | [] => .ok (true, [], [])
  | provider :: rest => do
      let (canContinue, group, provider) ← bufferGroup keyOf matchedKey provider
      let (others, groups, rest) ← bufferAgeWcojSurvivor matchedKey rest
      return (canContinue && others, group :: groups, provider :: rest)

/-- The loop of `prepare_age_wcoj_survivor_block`: the block, whether the input is exhausted, and
the state.  A block is full by its capacity, or by the memory of its payloads. -/
def fillSurvivorBlock (alignFuel : Nat) (isFull : List (Survivor Row) → Bool) :
    (fuel : Nat) → (matchedKey : GraphId) → (block : List (Survivor Row)) → JoinState Row →
      Except WcojError (List (Survivor Row) × Bool × JoinState Row)
  | 0, _, _, _ => .error .outOfFuel
  | fuel + 1, matchedKey, block, state => do
      let (canContinue, groups, providers) ←
        bufferAgeWcojSurvivor keyOf matchedKey state.providers
      let block := block ++ [(matchedKey, groups)]
      let state := { state with providers := providers }
      if !canContinue then return (block, true, state)
      else if isFull block then return (block, false, state)
      else
        let (key, state) ← findNextAgeWcojSurvivor keyOf alignFuel state
        match key with
        | none => return (block, true, state)
        | some key => fillSurvivorBlock alignFuel isFull fuel key block state

/-- `prepare_age_wcoj_survivor_block` before the payloads are fetched -/
def prepareAgeWcojSurvivorBlock (alignFuel : Nat) (isFull : List (Survivor Row) → Bool)
    (fuel : Nat) (survivorInputExhausted : Bool) (state : JoinState Row) :
    Except WcojError (List (Survivor Row) × Bool × JoinState Row) :=
  if survivorInputExhausted then .ok ([], true, state)
  else do
    let (key, state) ← findNextAgeWcojSurvivor keyOf alignFuel state
    match key with
    | none => return ([], true, state)
    | some key => fillSurvivorBlock keyOf alignFuel isFull fuel key [] state

/-- `find_age_wcoj_survivor_index` -/
def findAgeWcojSurvivorIndex (survivorBlock : List GraphId) (terminal : GraphId) : Option Nat :=
  let low := bisect (before survivorBlock terminal) survivorBlock.length 0 survivorBlock.length
  if survivorBlock[low]? = some terminal then some low else none

/-- `compare_age_wcoj_batch_payloads`, with the index of the source bag and the edge id of a row -/
def batchPayloadLe (order : Row → Nat × GraphId) (left right : BatchPayload Row) : Bool :=
  if left.survivorIndex ≠ right.survivorIndex then left.survivorIndex < right.survivorIndex
  else if (order left.row).1 ≠ (order right.row).1 then (order left.row).1 < (order right.row).1
  else (order left.row).2 ≤ (order right.row).2

/-- The payloads that `prefetch_age_wcoj_adjacency_payloads` appends -/
def appendedPayloads (provider : Provider Row) (survivorBlock : List GraphId) :
    List (BatchPayload Row) :=
  provider.rows.filterMap fun row =>
    match (keyOf row).bind (findAgeWcojSurvivorIndex survivorBlock) with
    | none => none
    | some survivorIndex => if provider.localQual row then some ⟨survivorIndex, row⟩ else none

/-- The loop over the sorted payloads: `first_payload` and `payload_count` of each range -/
def recordPayloads : List (BatchPayload Row) → (payloadIndex : Nat) → List (Nat × Nat) →
    List (Nat × Nat)
  | [], _, ranges => ranges
  | entry :: rest, payloadIndex, ranges =>
      recordPayloads rest (payloadIndex + 1) (ranges.modify entry.survivorIndex fun range =>
        (if range.2 = 0 then payloadIndex else range.1, range.2 + 1))

/-- `prefetch_age_wcoj_adjacency_payloads`: the payloads and the ranges -/
def prefetchAgeWcojAdjacencyPayloads (order : Row → Nat × GraphId) (provider : Provider Row)
    (survivorBlock : List GraphId) : List (BatchPayload Row) × List (Nat × Nat) :=
  let payloads := (appendedPayloads keyOf provider survivorBlock).mergeSort (batchPayloadLe order)
  (payloads, recordPayloads payloads 0 (List.replicate survivorBlock.length (0, 0)))

/-- `load_age_wcoj_payload_bucket` of a bucket that is in memory -/
def loadAgeWcojPayloadBucket (batch : List (BatchPayload Row) × List (Nat × Nat))
    (survivorIndex : Nat) : List Row :=
  match batch.2[survivorIndex]? with
  | none => []
  | some (firstPayload, payloadCount) =>
      ((batch.1.drop firstPayload).take payloadCount).map BatchPayload.row

/-- What `materialize_group` takes from a survivor block -/
def blockGroup (order : Row → Nat × GraphId) (survivorBlock : List GraphId) (survivorIndex : Nat)
    (provider : Provider Row) (buffered : List Row) : List Row :=
  match provider.kind with
  | .planStream => buffered
  | .adjacency =>
      loadAgeWcojPayloadBucket
        (prefetchAgeWcojAdjacencyPayloads keyOf order provider survivorBlock) survivorIndex

/-- The groups that `collect_age_wcoj_group` takes from a survivor block -/
def blockGroups (order : Row → Nat × GraphId) (providers : List (Provider Row))
    (survivorBlock : List GraphId) (survivorIndex : Nat) (buffered : List (List Row)) :
    List (List Row) :=
  List.zipWith (blockGroup keyOf order survivorBlock survivorIndex) providers buffered

/-- The groups of a block, one survivor after the other -/
def groupsOfBlock (order : Row → Nat × GraphId) (providers : List (Provider Row))
    (block : List (Survivor Row)) : List (GraphId × List (List Row)) :=
  (block.mapIdx fun survivorIndex survivor =>
    (survivor.1, blockGroups keyOf order providers (block.map Prod.fst) survivorIndex survivor.2)).filter
      fun groups => groups.2.all (!·.isEmpty)

/-- The groups that `prepare_age_wcoj_group` prepares from survivor blocks until there is none -/
def ageWcojBlockGroups (order : Row → Nat × GraphId) (alignFuel : Nat)
    (isFull : List (Survivor Row) → Bool) :
    (fuel : Nat) → (survivorInputExhausted : Bool) → JoinState Row →
      Except WcojError (List (GraphId × List (List Row)))
  | 0, _, _ => .error .outOfFuel
  | fuel + 1, survivorInputExhausted, state => do
      let (block, survivorInputExhausted, state) ←
        prepareAgeWcojSurvivorBlock keyOf alignFuel isFull alignFuel survivorInputExhausted state
      if block.isEmpty then return []
      else
        let groups ← ageWcojBlockGroups order alignFuel isFull fuel survivorInputExhausted state
        return groupsOfBlock keyOf order state.providers block ++ groups

end Code

section Buckets

variable {Row : Type} {keyOf : Row → Option GraphId}

theorem findAgeWcojSurvivorIndex_spec {survivorBlock : List GraphId}
    (sorted : survivorBlock.Pairwise (· < ·)) {terminal : GraphId} {place : Nat} :
    findAgeWcojSurvivorIndex survivorBlock terminal = some place ↔
      survivorBlock[place]? = some terminal := by
  have sortedLe := le_of_lt_pairwise sorted
  have bound : bisect (before survivorBlock terminal) survivorBlock.length 0 survivorBlock.length =
      lowerBound survivorBlock terminal :=
    bisect_eq (isBound_lowerBound sortedLe) (Nat.zero_le _) lowerBound_le_length (Nat.sub_le _ _)
  rw [findAgeWcojSurvivorIndex, bound]
  constructor
  · intro found
    split_ifs at found with atBound
    rw [← Option.some.inj found, atBound]
  · intro found
    have atBound := (getElem?_lowerBound sortedLe).2 (List.mem_of_getElem? found)
    rw [if_pos atBound]
    obtain ⟨inside, isTerminal⟩ := List.getElem?_eq_some_iff.1 found
    obtain ⟨insideBound, isTerminalBound⟩ := List.getElem?_eq_some_iff.1 atBound
    apply congrArg some
    apply (List.Nodup.getElem_inj_iff sorted.nodup).1
    exact isTerminalBound.trans isTerminal.symm

theorem batchPayloadLe_trans (order : Row → Nat × GraphId) (first second third : BatchPayload Row)
    (left : batchPayloadLe order first second = true)
    (right : batchPayloadLe order second third = true) :
    batchPayloadLe order first third = true := by
  simp only [batchPayloadLe] at left right ⊢
  split_ifs at left right ⊢ <;> simp only [decide_eq_true_eq] at left right ⊢ <;>
    first | omega | exact left.trans right

theorem batchPayloadLe_total (order : Row → Nat × GraphId) (left right : BatchPayload Row) :
    (batchPayloadLe order left right || batchPayloadLe order right left) = true := by
  simp only [batchPayloadLe, Bool.or_eq_true]
  split_ifs <;> simp only [decide_eq_true_eq] <;> first | omega | exact le_total _ _

theorem index_le_of_batchPayloadLe {order : Row → Nat × GraphId} {left right : BatchPayload Row}
    (le : batchPayloadLe order left right = true) : left.survivorIndex ≤ right.survivorIndex := by
  rw [batchPayloadLe] at le
  split_ifs at le with differs
  · exact (of_decide_eq_true le).le
  · exact (not_not.1 differs).le
  · exact (not_not.1 differs).le

/-- The payloads of a survivor stand together. -/
theorem drop_take_bucket {payloads : List (BatchPayload Row)} {survivorIndex : Nat}
    (sorted : payloads.Pairwise fun left right => left.survivorIndex ≤ right.survivorIndex) :
    (payloads.drop (payloads.findIdx (·.survivorIndex = survivorIndex))).take
        (payloads.countP (·.survivorIndex = survivorIndex)) =
      payloads.filter (·.survivorIndex = survivorIndex) := by
  induction payloads with
  | nil => rfl
  | cons first rest inductionHypothesis =>
      obtain ⟨least, sortedRest⟩ := List.pairwise_cons.1 sorted
      by_cases here : first.survivorIndex = survivorIndex
      · rw [List.findIdx_cons, List.countP_cons_of_pos (by simpa using here),
          List.filter_cons_of_pos (by simpa using here)]
        simp only [here, decide_true, cond_true, List.drop_zero, List.take_succ_cons]
        apply congrArg (first :: ·)
        have ih := inductionHypothesis sortedRest
        -- The rest of the bucket begins at once.
        cases rest with
        | nil => rfl
        | cons second later =>
            by_cases next : second.survivorIndex = survivorIndex
            · rw [List.findIdx_cons] at ih
              simpa [next] using ih
            · have none : (second :: later).countP (·.survivorIndex = survivorIndex) = 0 := by
                rw [List.countP_eq_zero]
                intro entry inside isHere
                have isHere := of_decide_eq_true isHere
                have above := least second List.mem_cons_self
                rcases List.mem_cons.1 inside with rfl | inside
                · exact next isHere
                · have after := (List.pairwise_cons.1 sortedRest).1 entry inside
                  omega
              rw [none, List.take_zero, List.filter_eq_nil_iff.2 (List.countP_eq_zero.1 none)]
      · rw [List.findIdx_cons, List.countP_cons_of_neg (by simpa using here),
          List.filter_cons_of_neg (by simpa using here)]
        simp only [here, decide_false, cond_false, List.drop_succ_cons]
        exact inductionHypothesis sortedRest

/-- A range begins with the first payload of its survivor and counts them all. -/
theorem recordPayloads_spec {payloads : List (BatchPayload Row)} {payloadIndex survivorIndex : Nat}
    {ranges : List (Nat × Nat)} {range : Nat × Nat} (found : ranges[survivorIndex]? = some range) :
    (recordPayloads payloads payloadIndex ranges)[survivorIndex]? =
      some (if range.2 = 0 then
          (if payloads.countP (·.survivorIndex = survivorIndex) = 0 then range.1
            else payloadIndex + payloads.findIdx (·.survivorIndex = survivorIndex))
        else range.1, range.2 + payloads.countP (·.survivorIndex = survivorIndex)) := by
  induction payloads generalizing payloadIndex ranges range with
  | nil =>
      rw [recordPayloads, found]
      simp
  | cons first rest inductionHypothesis =>
      rw [recordPayloads]
      by_cases here : first.survivorIndex = survivorIndex
      · have next : (ranges.modify first.survivorIndex fun range =>
            (if range.2 = 0 then payloadIndex else range.1, range.2 + 1))[survivorIndex]? =
              some (if range.2 = 0 then payloadIndex else range.1, range.2 + 1) := by
          rw [List.getElem?_modify, found]
          exact congrArg some (if_pos here)
        rw [inductionHypothesis next, if_neg (Nat.succ_ne_zero _),
          List.countP_cons_of_pos (by simpa using here), if_neg (Nat.succ_ne_zero _),
          List.findIdx_cons]
        simp only [here, decide_true, cond_true, Nat.add_zero]
        rw [Nat.add_assoc, Nat.add_comm 1]
      · have next : (ranges.modify first.survivorIndex fun range =>
            (if range.2 = 0 then payloadIndex else range.1, range.2 + 1))[survivorIndex]? =
              some range := by
          rw [List.getElem?_modify, found]
          exact congrArg some (if_neg here)
        rw [inductionHypothesis next, List.countP_cons_of_neg (by simpa using here),
          List.findIdx_cons]
        simp only [here, decide_false, cond_false]
        rw [Nat.add_assoc, Nat.add_comm 1]

theorem appendedPayloads_bucket {provider : Provider Row} (kind : provider.kind = .adjacency)
    {survivorBlock : List GraphId} (sorted : survivorBlock.Pairwise (· < ·)) {survivorIndex : Nat}
    {key : GraphId} (found : survivorBlock[survivorIndex]? = some key) :
    ((appendedPayloads keyOf provider survivorBlock).filter
        (·.survivorIndex = survivorIndex)).map BatchPayload.row = provider.group keyOf key := by
  rw [appendedPayloads, Provider.group, kind]
  induction provider.rows with
  | nil => rfl
  | cons row rest inductionHypothesis =>
      have isIndex : (keyOf row).bind (findAgeWcojSurvivorIndex survivorBlock) =
          some survivorIndex ↔ keyOf row = some key := by
        rw [Option.bind_eq_some_iff]
        constructor
        · rintro ⟨terminal, isTerminal, atIndex⟩
          rw [findAgeWcojSurvivorIndex_spec sorted, found] at atIndex
          rw [isTerminal, atIndex]
        · intro isKey
          exact ⟨key, isKey, (findAgeWcojSurvivorIndex_spec sorted).2 found⟩
      rw [List.filterMap_cons, List.filter_cons, ← inductionHypothesis]
      cases index : (keyOf row).bind (findAgeWcojSurvivorIndex survivorBlock) with
      | none =>
          have other : keyOf row ≠ some key := fun isKey => by
            rw [isIndex.2 isKey] at index
            cases index
          simp [other]
      | some place =>
          by_cases same : place = survivorIndex
          · have isKey := isIndex.1 (same ▸ index)
            by_cases passes : provider.localQual row = true
            · simp [passes, isKey, same]
            · simp [passes]
          · have other : keyOf row ≠ some key := fun isKey => by
              rw [isIndex.2 isKey] at index
              exact same (Option.some.inj index).symm
            by_cases passes : provider.localQual row = true
            · simp [passes, other, same]
            · simp [passes]

/-- The bucket of a survivor holds the rows of its group. -/
theorem loadAgeWcojPayloadBucket_perm {provider : Provider Row} (kind : provider.kind = .adjacency)
    (order : Row → Nat × GraphId) {survivorBlock : List GraphId}
    (sorted : survivorBlock.Pairwise (· < ·)) {survivorIndex : Nat} {key : GraphId}
    (found : survivorBlock[survivorIndex]? = some key) :
    (loadAgeWcojPayloadBucket (prefetchAgeWcojAdjacencyPayloads keyOf order provider survivorBlock)
      survivorIndex).Perm (provider.group keyOf key) := by
  have inside : survivorIndex < survivorBlock.length := (List.getElem?_eq_some_iff.1 found).1
  have start : (List.replicate survivorBlock.length (0, 0))[survivorIndex]? = some (0, 0) := by
    rw [List.getElem?_replicate, if_pos inside]
  rw [loadAgeWcojPayloadBucket, prefetchAgeWcojAdjacencyPayloads]
  dsimp only
  generalize payloadsAre : (appendedPayloads keyOf provider survivorBlock).mergeSort
    (batchPayloadLe order) = payloads
  have perm : payloads.Perm (appendedPayloads keyOf provider survivorBlock) := by
    rw [← payloadsAre]
    exact List.mergeSort_perm _ _
  have sortedPayloads : payloads.Pairwise fun left right =>
      left.survivorIndex ≤ right.survivorIndex := by
    rw [← payloadsAre]
    exact (List.pairwise_mergeSort (batchPayloadLe_trans order) (batchPayloadLe_total order) _).imp
      fun le => index_le_of_batchPayloadLe le
  rw [recordPayloads_spec start, if_pos rfl, Nat.zero_add, Nat.zero_add,
    ← appendedPayloads_bucket kind sorted found]
  dsimp only
  have bucket : (payloads.drop (if payloads.countP (·.survivorIndex = survivorIndex) = 0 then 0
      else payloads.findIdx (·.survivorIndex = survivorIndex))).take
        (payloads.countP (·.survivorIndex = survivorIndex)) =
      payloads.filter (·.survivorIndex = survivorIndex) := by
    split_ifs with none
    · rw [none, List.take_zero, List.filter_eq_nil_iff.2 (List.countP_eq_zero.1 none)]
    · exact drop_take_bucket sortedPayloads
  rw [bucket]
  exact (perm.filter _).map _

end Buckets

section Blocks

variable {Row : Type} {keyOf : Row → Option GraphId}

theorem StreamReached.exhausted_eq {provider next : Provider Row} {keys : List GraphId}
    (reached : StreamReached keyOf provider next keys) : next.exhausted = keys.isEmpty := by
  cases keys with
  | nil => exact reached.ended rfl
  | cons key rest =>
      cases exhausted : next.exhausted with
      | false => rfl
      | true =>
          have none := (reached.stands.exhausted exhausted).1
          rw [reached.hasCurrent] at none
          cases none

/-- The rows that are kept for a survivor -/
def bufferedGroup (keyOf : Row → Option GraphId) (key : GraphId) (provider : Provider Row) :
    List Row :=
  if provider.kind = .planStream then provider.group keyOf key else []

theorem bufferGroup_spec {provider : Provider Row} {keys : List GraphId} {key : GraphId}
    (cursor : Cursor keyOf provider keys) (head : keys.head? = some key) :
    ∃ next, bufferGroup keyOf key provider =
        .ok (!keys.tail.isEmpty, bufferedGroup keyOf key provider, next) ∧
      Stands keyOf next keys.tail ∧ SameSource provider next := by
  have atKey : provider.currentKey = key := by
    have same := cursor.head
    rw [head] at same
    exact (Option.some.inj same).symm
  rw [bufferGroup, if_neg (by simp [cursor.current, atKey])]
  cases cursor.stands with
  | planStream stream =>
      obtain ⟨next, ran, reached⟩ := planStreamMaterializeGroup_spec stream head
      have group : (provider.rows.filter fun row => keyOf row = some key) =
          bufferedGroup keyOf key provider := by
        simp [bufferedGroup, Provider.group, stream.kind]
      have isKey := List.mem_of_mem_head? head
      have some : (provider.rows.filter fun row => keyOf row = some key) ≠ [] := by
        rw [← stream.groups key isKey]
        rw [stream.keys, mem_distinct] at isKey
        obtain ⟨row, inside, hasKey⟩ := List.mem_filterMap.1 isKey
        exact List.ne_nil_of_mem (List.mem_filter.2 ⟨inside, decide_eq_true hasKey⟩)
      rw [stream.kind]
      refine ⟨next, ?_, .planStream reached.stands, reached.source⟩
      rw [← reached.exhausted_eq, ← group]
      change (planStreamMaterializeGroup keyOf provider key >>= _) = _
      rw [ran]
      exact if_neg (by simpa [List.isEmpty_iff] using some)
  | adjacency adjacency =>
      obtain ⟨next, ran, reached⟩ := adjacencyNextDistinct_spec adjacency
      rw [adjacency.kind]
      refine ⟨next, ?_, .adjacency reached.stands, reached.source⟩
      have none : bufferedGroup keyOf key provider = [] := by
        rw [bufferedGroup, adjacency.kind]
        rfl
      rw [none]
      change (match adjacencyNextDistinct keyOf provider with
        | (more, provider) => Except.ok (more, [], provider)) = _
      rw [ran]

theorem bufferAgeWcojSurvivor_spec {providers : List (Provider Row)}
    {cursors : List (List GraphId)} {key : GraphId} (allAt : AllAt keyOf providers cursors)
    (heads : ∀ keys ∈ cursors, keys.head? = some key) :
    ∃ canContinue next, bufferAgeWcojSurvivor keyOf key providers =
        .ok (canContinue, providers.map (bufferedGroup keyOf key), next) ∧
      AllStand keyOf next (cursors.map List.tail) ∧
      next.map Provider.source = providers.map Provider.source ∧
      (canContinue = false → [] ∈ cursors.map List.tail) := by
  induction allAt with
  | nil =>
      refine ⟨true, [], rfl, .nil, rfl, ?_⟩
      intro impossible
      cases impossible
  | @cons provider keys _ _ cursor _ inductionHypothesis =>
      obtain ⟨head, headsLater⟩ := List.forall_mem_cons.1 heads
      obtain ⟨next, ran, stands, source⟩ := bufferGroup_spec cursor head
      obtain ⟨others, rest, ranOthers, standOthers, sources, ends⟩ :=
        inductionHypothesis headsLater
      refine ⟨!keys.tail.isEmpty && others, next :: rest, ?_, .cons stands standOthers, ?_, ?_⟩
      · rw [bufferAgeWcojSurvivor, ran]
        change (bufferAgeWcojSurvivor keyOf key _ >>= _) = _
        rw [ranOthers]
        rfl
      · rw [List.map_cons, List.map_cons, sources, source.source_eq]
      · intro stops
        rw [List.map_cons]
        cases tail : keys.tail with
        | nil => exact List.mem_cons_self
        | cons first later =>
            rw [tail] at stops
            exact List.mem_cons_of_mem _ (ends stops)

theorem bufferedGroup_sources {providers next : List (Provider Row)}
    (sources : next.map Provider.source = providers.map Provider.source) (key : GraphId) :
    next.map (bufferedGroup keyOf key) = providers.map (bufferedGroup keyOf key) := by
  induction providers generalizing next with
  | nil => rw [List.map_eq_nil_iff.1 sources]
  | cons provider rest inductionHypothesis =>
      cases next with
      | nil => cases sources
      | cons first others =>
          obtain ⟨here, later⟩ := List.cons.inj sources
          have kind : first.kind = provider.kind := congrArg Prod.fst here
          rw [List.map_cons, List.map_cons, inductionHypothesis later, bufferedGroup, bufferedGroup,
            kind, group_of_source here]

/-- A block has been filled with the next survivors. -/
structure BlockFilled (keyOf : Row → Option GraphId) (state : JoinState Row)
    (cursors : List (List GraphId)) (block : List (Survivor Row)) (exhausted : Bool)
    (next : JoinState Row) (ahead : List (List GraphId)) : Prop where
  keys : commonKeys cursors = block.map Prod.fst ++ commonKeys ahead
  buffered : ∀ survivor ∈ block,
    survivor.2 = state.providers.map (bufferedGroup keyOf survivor.1)
  sources : next.providers.map Provider.source = state.providers.map Provider.source
  ended : exhausted = true → commonKeys ahead = []
  going : exhausted = false → Before keyOf next ahead ∧ total ahead < total cursors

theorem commonKeys_of_nil_mem {cursors : List (List GraphId)} (empty : [] ∈ cursors) :
    commonKeys cursors = [] := by
  apply commonKeys_of_none
  intro key common
  cases common [] empty

theorem fillSurvivorBlock_spec {alignFuel fuel : Nat} {isFull : List (Survivor Row) → Bool}
    {original state : JoinState Row} {start cursors : List (List GraphId)} {key : GraphId}
    {block : List (Survivor Row)} (before : Before keyOf original start)
    (carries : Carries original state)
    (sources : state.providers.map Provider.source = original.providers.map Provider.source)
    (allAt : AllAt keyOf state.providers cursors) (agree : Agree cursors key)
    (enoughAlign : total cursors < alignFuel) (enough : total cursors < fuel) :
    ∃ more exhausted next ahead, fillSurvivorBlock keyOf alignFuel isFull fuel key block state =
        .ok (block ++ more, exhausted, next) ∧ more ≠ [] ∧
      BlockFilled keyOf original cursors more exhausted next ahead := by
  induction fuel generalizing state cursors key block with
  | zero => exact absurd enough (Nat.not_lt_zero _)
  | succ fuel inductionHypothesis =>
      have sorted := allAt.stand.sorted
      obtain ⟨canContinue, providers, ran, stand, sourcesNext, stops⟩ :=
        bufferAgeWcojSurvivor_spec allAt agree.2
      have sourcesAll := sourcesNext.trans sources
      have isFirst := agree.commonKeys_eq sorted
      have fewer := total_tails_lt agree
      have beforeNext : Before keyOf { state with providers := providers }
          (cursors.map List.tail) := before.next carries stand sourcesAll
      have buffered : state.providers.map (bufferedGroup keyOf key) =
          original.providers.map (bufferedGroup keyOf key) := bufferedGroup_sources sources key
      rw [fillSurvivorBlock, ran, buffered]
      generalize survivorIs : ((key, original.providers.map (bufferedGroup keyOf key)) :
        Survivor Row) = survivor
      have isBuffered : ∀ other ∈ [survivor],
          other.2 = original.providers.map (bufferedGroup keyOf other.1) := by
        intro other inside
        rw [List.mem_singleton.1 inside, ← survivorIs]
      have keys : commonKeys cursors =
          [survivor].map Prod.fst ++ commonKeys (cursors.map List.tail) := by
        rw [isFirst, ← survivorIs]
        rfl
      cases continues : canContinue with
      | false =>
          refine ⟨[survivor], true, { state with providers := providers }, cursors.map List.tail, ?_,
            List.cons_ne_nil _ _, keys, isBuffered, sourcesAll, fun _ => commonKeys_of_nil_mem (stops continues), ?_⟩
          · rw [← survivorIs]
            rfl
          · intro impossible
            cases impossible
      | true =>
          change ∃ more exhausted next ahead, (if isFull (block ++ [(key, _)]) then _ else _) = _ ∧ _
          rw [survivorIs]
          by_cases full : isFull (block ++ [survivor]) = true
          · rw [if_pos full]
            refine ⟨[survivor], false, { state with providers := providers }, cursors.map List.tail,
              rfl, List.cons_ne_nil _ _, keys, isBuffered, sourcesAll, ?_, fun _ => ⟨beforeNext, fewer⟩⟩
            intro impossible
            cases impossible
          · rw [if_neg full]
            obtain ⟨nextKey, next, ranFind, found, carriesNext⟩ :=
              findNextAgeWcojSurvivor_spec beforeNext (fewer.trans enoughAlign)
            rw [ranFind]
            cases found with
            | none noneCommon sourcesFound =>
                refine ⟨[survivor], true, next, cursors.map List.tail, rfl, List.cons_ne_nil _ _,
                  keys, isBuffered, sourcesFound.trans sourcesAll,
                  fun _ => commonKeys_of_none noneCommon, ?_⟩
                intro impossible
                cases impossible
            | @key nextKey _ after advance agreeNext allAtNext sourcesFound =>
                have less := (total_le advance.sublists).trans_lt fewer
                obtain ⟨more, exhausted, last, ahead, ranOn, -, filled⟩ :=
                  @inductionHypothesis next after nextKey (block ++ [survivor])
                    ⟨carriesNext.sourceOrder.trans carries.sourceOrder, carriesNext.notAuto,
                      carriesNext.setupDone⟩ (sourcesFound.trans sourcesAll) allAtNext agreeNext
                    (by omega) (by omega)
                refine ⟨survivor :: more, exhausted, last, ahead, ?_, List.cons_ne_nil _ _, ?_, ?_,
                  filled.sources, filled.ended, ?_⟩
                · rw [List.append_assoc] at ranOn
                  exact ranOn
                · rw [keys, ← advance.commonKeys_eq beforeNext.stand.sorted, filled.keys]
                  rfl
                · exact List.forall_mem_cons.2 ⟨isBuffered survivor List.mem_cons_self,
                    filled.buffered⟩
                · intro going
                  obtain ⟨beforeLast, lessLast⟩ := filled.going going
                  exact ⟨beforeLast, lessLast.trans less⟩

theorem prepareAgeWcojSurvivorBlock_spec {alignFuel fuel : Nat}
    {isFull : List (Survivor Row) → Bool} {state : JoinState Row} {cursors : List (List GraphId)}
    (before : Before keyOf state cursors) (enoughAlign : total cursors < alignFuel)
    (enough : total cursors < fuel) :
    ∃ block exhausted next ahead,
      prepareAgeWcojSurvivorBlock keyOf alignFuel isFull fuel false state =
        .ok (block, exhausted, next) ∧
      (block = [] ∧ commonKeys cursors = [] ∨
        block ≠ [] ∧ BlockFilled keyOf state cursors block exhausted next ahead) := by
  obtain ⟨key, next, ran, found, carries⟩ := findNextAgeWcojSurvivor_spec before enoughAlign
  rw [prepareAgeWcojSurvivorBlock, if_neg Bool.false_ne_true, ran]
  cases found with
  | none noneCommon =>
      exact ⟨[], true, next, [], rfl, .inl ⟨rfl, commonKeys_of_none noneCommon⟩⟩
  | @key key _ after advance agree allAt sources =>
      have fewer := total_le advance.sublists
      obtain ⟨block, exhausted, last, ahead, filled, nonempty, spec⟩ :=
        @fillSurvivorBlock_spec _ _ alignFuel fuel isFull _ _ _ _ key [] before carries sources allAt
          agree (by omega) (by omega)
      refine ⟨block, exhausted, last, ahead, filled, .inr ⟨nonempty, ?_, spec.buffered,
        spec.sources, spec.ended, ?_⟩⟩
      · rw [← advance.commonKeys_eq before.stand.sorted]
        exact spec.keys
      · intro going
        obtain ⟨beforeLast, less⟩ := spec.going going
        exact ⟨beforeLast, less.trans_le fewer⟩

/-- The same key, and the same rows at each provider in any order -/
def SameGroups (left right : GraphId × List (List Row)) : Prop :=
  left.1 = right.1 ∧ List.Forall₂ List.Perm left.2 right.2

theorem SameGroups.nonempty_eq {left right : GraphId × List (List Row)}
    (same : SameGroups left right) :
    left.2.all (!·.isEmpty) = right.2.all (!·.isEmpty) := by
  obtain ⟨leftKey, leftGroups⟩ := left
  obtain ⟨rightKey, rightGroups⟩ := right
  have perms : List.Forall₂ List.Perm leftGroups rightGroups := same.2
  clear same
  induction perms with
  | nil => rfl
  | cons perm _ inductionHypothesis =>
      dsimp only at inductionHypothesis ⊢
      rw [List.all_cons, List.all_cons, inductionHypothesis, perm.isEmpty_eq]

theorem blockGroup_perm (order : Row → Nat × GraphId) {survivorBlock : List GraphId}
    (sorted : survivorBlock.Pairwise (· < ·)) {survivorIndex : Nat} {key : GraphId}
    (found : survivorBlock[survivorIndex]? = some key) (provider : Provider Row) :
    (blockGroup keyOf order survivorBlock survivorIndex provider
      (bufferedGroup keyOf key provider)).Perm (provider.group keyOf key) := by
  rw [blockGroup, bufferedGroup]
  cases kind : provider.kind with
  | planStream =>
      rw [if_pos rfl]
  | adjacency => exact loadAgeWcojPayloadBucket_perm kind order sorted found

/-- The groups of a survivor in a block are those of its key. -/
theorem blockGroups_spec (order : Row → Nat × GraphId) {providers next : List (Provider Row)}
    (sources : next.map Provider.source = providers.map Provider.source)
    {survivorBlock : List GraphId} (sorted : survivorBlock.Pairwise (· < ·)) {survivorIndex : Nat}
    {key : GraphId} (found : survivorBlock[survivorIndex]? = some key) :
    List.Forall₂ List.Perm
      (blockGroups keyOf order next survivorBlock survivorIndex
        (providers.map (bufferedGroup keyOf key)))
      (groupsOf keyOf providers key).2 := by
  rw [← bufferedGroup_sources sources, ← groupsOf_sources sources]
  clear sources
  induction next with
  | nil => exact .nil
  | cons provider rest inductionHypothesis =>
      exact .cons (blockGroup_perm order sorted found provider) inductionHypothesis

theorem groupsOfBlock_spec (order : Row → Nat × GraphId) {providers next : List (Provider Row)}
    (sources : next.map Provider.source = providers.map Provider.source)
    {block : List (Survivor Row)} (sorted : (block.map Prod.fst).Pairwise (· < ·))
    (buffered : ∀ survivor ∈ block, survivor.2 = providers.map (bufferedGroup keyOf survivor.1)) :
    List.Forall₂ SameGroups (groupsOfBlock keyOf order next block)
      (nonemptyGroups keyOf providers (block.map Prod.fst)) := by
  rw [groupsOfBlock, nonemptyGroups]
  generalize keysAre : block.map Prod.fst = keys at sorted ⊢
  -- The block is followed from its survivors that are left.
  have follows (before rest : List (Survivor Row)) (isBlock : before ++ rest = block) :
      List.Forall₂ SameGroups
        ((rest.mapIdx fun survivorIndex survivor => (survivor.1,
          blockGroups keyOf order next keys (survivorIndex + before.length) survivor.2)).filter
            fun groups => groups.2.all (!·.isEmpty))
        (((rest.map Prod.fst).map (groupsOf keyOf providers)).filter
            fun groups => groups.2.all (!·.isEmpty)) := by
    induction rest generalizing before with
    | nil => exact .nil
    | cons survivor rest inductionHypothesis =>
        have later := inductionHypothesis (before ++ [survivor])
          (by rw [List.append_assoc]; exact isBlock)
        have inside : survivor ∈ block := by
          rw [← isBlock]
          exact List.mem_append_right _ List.mem_cons_self
        have found : keys[before.length]? = some survivor.1 := by
          rw [← keysAre, ← isBlock]
          simp
        have here : SameGroups
            (survivor.1, blockGroups keyOf order next keys (0 + before.length) survivor.2)
            (groupsOf keyOf providers survivor.1) := by
          refine ⟨rfl, ?_⟩
          rw [Nat.zero_add, buffered survivor inside]
          exact blockGroups_spec order sources sorted found
        rw [List.mapIdx_cons, List.map_cons, List.map_cons, List.filter_cons, List.filter_cons,
          here.nonempty_eq]
        have shifted : (fun survivorIndex (other : Survivor Row) => (other.1,
            blockGroups keyOf order next keys (survivorIndex + 1 + before.length) other.2)) =
            fun survivorIndex (other : Survivor Row) => (other.1,
              blockGroups keyOf order next keys (survivorIndex + (before ++ [survivor]).length)
                other.2) := by
          funext survivorIndex other
          rw [List.length_append, List.length_singleton, Nat.add_assoc, Nat.add_comm 1]
        rw [← shifted] at later
        split_ifs
        · exact .cons here later
        · exact later
  have whole := follows [] block rfl
  rw [keysAre] at whole
  exact whole

theorem nonemptyGroups_append (providers : List (Provider Row)) (left right : List GraphId) :
    nonemptyGroups keyOf providers (left ++ right) =
      nonemptyGroups keyOf providers left ++ nonemptyGroups keyOf providers right := by
  rw [nonemptyGroups, List.map_append, List.filter_append]
  rfl

theorem forall₂_append {relation : α → β → Prop} {left left' : List α} {right right' : List β}
    (first : List.Forall₂ relation left right) (second : List.Forall₂ relation left' right') :
    List.Forall₂ relation (left ++ left') (right ++ right') := by
  induction first with
  | nil => exact second
  | cons here _ inductionHypothesis => exact .cons here inductionHypothesis

theorem ageWcojBlockGroups_exhausted (order : Row → Nat × GraphId) (alignFuel fuel : Nat)
    (isFull : List (Survivor Row) → Bool) (state : JoinState Row) :
    ageWcojBlockGroups keyOf order alignFuel isFull (fuel + 1) true state = .ok [] :=
  rfl

theorem ageWcojBlockGroups_spec (order : Row → Nat × GraphId) {alignFuel fuel : Nat}
    (isFull : List (Survivor Row) → Bool) {state : JoinState Row} {cursors : List (List GraphId)}
    (before : Before keyOf state cursors) (enoughAlign : total cursors < alignFuel)
    (enough : total cursors + 1 < fuel) :
    ∃ groups, ageWcojBlockGroups keyOf order alignFuel isFull fuel false state = .ok groups ∧
      List.Forall₂ SameGroups groups
        (nonemptyGroups keyOf state.providers (commonKeys cursors)) := by
  induction fuel generalizing state cursors with
  | zero => exact absurd enough (Nat.not_lt_zero _)
  | succ fuel inductionHypothesis =>
      obtain ⟨block, exhausted, next, ahead, ran, ⟨none, noKeys⟩ | ⟨nonempty, filled⟩⟩ :=
        @prepareAgeWcojSurvivorBlock_spec _ _ alignFuel alignFuel isFull _ _ before enoughAlign
          enoughAlign
      · rw [ageWcojBlockGroups, ran, none, noKeys]
        exact ⟨[], rfl, .nil⟩
      · have notEmpty : block.isEmpty = false := by
          rw [List.isEmpty_eq_false_iff]
          exact nonempty
        have sortedAll := commonKeys_sorted before.stand.sorted
        rw [filled.keys] at sortedAll
        have here := groupsOfBlock_spec order filled.sources (List.pairwise_append.1 sortedAll).1
          filled.buffered
        rw [ageWcojBlockGroups, ran]
        change ∃ groups, (if block.isEmpty then _ else _) = _ ∧ _
        rw [notEmpty, if_neg Bool.false_ne_true, filled.keys, nonemptyGroups_append]
        obtain ⟨later, ranLater, same⟩ : ∃ groups,
            ageWcojBlockGroups keyOf order alignFuel isFull fuel exhausted next = .ok groups ∧
            List.Forall₂ SameGroups groups
              (nonemptyGroups keyOf state.providers (commonKeys ahead)) := by
          cases ends : exhausted with
          | true =>
              obtain ⟨less, fuelIs⟩ := Nat.exists_eq_succ_of_ne_zero (by omega : fuel ≠ 0)
              rw [fuelIs, ageWcojBlockGroups_exhausted, filled.ended ends]
              exact ⟨[], rfl, .nil⟩
          | false =>
              obtain ⟨beforeNext, fewer⟩ := filled.going ends
              obtain ⟨groups, ranOn, same⟩ :=
                inductionHypothesis beforeNext (by omega) (by omega)
              rw [nonemptyGroups_sources filled.sources] at same
              exact ⟨groups, ranOn, same⟩
        rw [ranLater]
        exact ⟨_, rfl, forall₂_append here same⟩

/-- Survivor blocks of any sizes leave the groups as they are without blocks, up to the order of the
rows within a bucket of payloads. -/
theorem ageWcojBlockGroups_rescan {alignFuel fuel : Nat} (keyOf : Row → Option GraphId)
    (order : Row → Nat × GraphId) (isFull : List (Survivor Row) → Bool)
    (greater : Nat → Nat → Bool) (state : JoinState Row) (nonempty : state.providers ≠ [])
    (sourceOrder : state.sourceOrder = orderSources greater state.providers.length)
    (planned : state.plannedEngine ≠ .auto)
    (inOrder : ∀ provider ∈ state.providers, provider.InOrder keyOf)
    (enoughAlign : total (state.providers.map (Provider.allKeys keyOf)) < alignFuel)
    (enough : total (state.providers.map (Provider.allKeys keyOf)) + 1 < fuel) :
    ∃ groups plain,
      ageWcojBlockGroups keyOf order alignFuel isFull fuel false (rescanAgeWcojJoinScan state) =
        .ok groups ∧
      ageWcojGroups keyOf alignFuel fuel (rescanAgeWcojJoinScan state) = .ok plain ∧
      List.Forall₂ SameGroups groups plain := by
  have before := rescan_before nonempty sourceOrder planned inOrder
  obtain ⟨groups, ran, same⟩ := ageWcojBlockGroups_spec order isFull before enoughAlign enough
  exact ⟨groups, _, ran, ageWcojGroups_spec before enoughAlign (Nat.lt_of_succ_lt enough), same⟩

/-- Blocks of one survivor each -/
theorem ageWcojBlockGroups_rescan_single : ∃ groups plain,
    ageWcojBlockGroups (fun row => some row.1) (fun row => (row.2, row.1)) 9 (fun _ => true) 9 false
        (rescanAgeWcojJoinScan (twoSources .auto .leapfrog)) = .ok groups ∧
      ageWcojGroups (fun row => some row.1) 9 9
        (rescanAgeWcojJoinScan (twoSources .auto .leapfrog)) = .ok plain ∧
      List.Forall₂ SameGroups groups plain := by
  have short := twoSources_total .auto .leapfrog
  have groups := @ageWcojBlockGroups_rescan _ 9 9 (fun row => some row.1)
    (fun row => (row.2, row.1)) (fun _ => true) (fun _ _ => true) (twoSources .auto .leapfrog)
    (List.cons_ne_nil _ _) rfl (by decide) (twoSources_inOrder _ _) (by rw [short]; decide)
    (by rw [short]; decide)
  exact groups

end Blocks

end Age.Executor.WcojJoin
