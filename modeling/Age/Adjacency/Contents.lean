import Mathlib.Data.Finset.Max
import Age.Adjacency.Maintenance

/-!
# What an adjacency index holds

`age_adjacency_scan_payload` trusts the directory: it reads as many postings as
the build counted, from the place where the build put the run.  Bulk delete
moves blocks and shortens runs, so the scan of a key may go on into the runs
after it.
-/

namespace Age.Adjacency

open Vle (getGraphidLabelId labelIdIsValid)

def MainPosting.withKey (posting : MainPosting) (key : GraphId) : Posting :=
  ⟨key, posting.heapTid, posting.edgeId, posting.nextVertexId⟩

/-- `age_adjacency_scan_posting_run` -/
def Stored.scanPostingRun (stored : Stored) (key : GraphId) : List Posting :=
  (serialMain (fun _ => true) (stored.mainIndex.runCount key)
    (stored.mainIndex.runPages key)).map fun posting => posting.withKey key

/-- `age_adjacency_scan_payload`; `none` when a delta posting cannot be read -/
def Stored.scanPayload (stored : Stored) (key : GraphId) : Option (List Posting) :=
  (stored.scanDelta key).map fun delta => stored.scanPostingRun key ++ delta

section KeyRuns

theorem keyRuns_key {postings run : List Posting} (member : run ∈ keyRuns postings)
    {posting : Posting} (inside : posting ∈ run) : posting.key = runKey run := by
  have chain := List.isChain_of_mem_splitBy member
  cases run with
  | nil => cases inside
  | cons first rest =>
      have same : (first :: rest).Pairwise fun a b => a.key = b.key := by
        have equal : (first :: rest).IsChain fun a b => a.key = b.key :=
          chain.imp fun a b isSame => eq_of_beq isSame
        have : IsTrans Posting fun a b => a.key = b.key := ⟨fun _ _ _ => Eq.trans⟩
        exact equal.pairwise
      rcases List.mem_cons.mp inside with rfl | later
      · rfl
      · exact (List.rel_of_pairwise_cons same later).symm

theorem sortPostings_pairwise (postings : List Posting) :
    (sortPostings postings).Pairwise fun a b => a.key.toInt ≤ b.key.toInt := by
  have sorted := List.pairwise_mergeSort
    (fun a b c (first : decide (sortKey a ≤ sortKey b) = true)
      (second : decide (sortKey b ≤ sortKey c) = true) =>
        decide_eq_true ((of_decide_eq_true first).trans (of_decide_eq_true second)))
    (fun a b => by
      rw [Bool.or_eq_true, decide_eq_true_eq, decide_eq_true_eq]
      exact le_total (sortKey a) (sortKey b)) postings
  refine sorted.imp fun {a b} ordered => ?_
  have below := Prod.Lex.le_iff.mp (of_decide_eq_true ordered)
  rcases below with less | ⟨same, -⟩
  · exact Int.le_of_lt less
  · exact Int.le_of_eq same

/-- The runs come in the order of their keys. -/
theorem keyRuns_increasing (postings : List Posting) :
    (keyRuns postings).Pairwise fun run later => (runKey run).toInt < (runKey later).toInt := by
  have sorted : (keyRuns postings).flatten.Pairwise fun a b => a.key.toInt ≤ b.key.toInt := by
    rw [keyRuns, List.flatten_splitBy]
    exact sortPostings_pairwise postings
  have across := (List.pairwise_flatten.mp sorted).2
  have neighbours := List.isChain_getLast_head_splitBy (fun a b : Posting => a.key == b.key)
    (sortPostings postings)
  have : IsTrans (List Posting) fun run later => (runKey run).toInt < (runKey later).toInt :=
    ⟨fun _ _ _ => Int.lt_trans⟩
  refine List.IsChain.pairwise ?_
  refine (List.isChain_iff_getElem.mpr fun place bound => ?_)
  have ordered := List.pairwise_iff_getElem.mp across place (place + 1) (by omega) bound (by omega)
  obtain ⟨someRun, someLater, differ⟩ := List.isChain_iff_getElem.mp neighbours place bound
  have last := List.getLast_mem someRun
  have head := List.head_mem someLater
  have atMost := ordered _ last _ head
  rw [keyRuns_key (List.getElem_mem _) last, keyRuns_key (List.getElem_mem _) head] at atMost
  rw [keyRuns_key (List.getElem_mem _) last, keyRuns_key (List.getElem_mem _) head,
    beq_eq_false_iff_ne, Ne, ← Int64.toInt_inj] at differ
  exact lt_of_le_of_ne atMost differ

/-- The postings of a run are the postings of its key. -/
theorem keyRuns_split {built run : List Posting} {runsBefore runsAfter : List (List Posting)}
    (split : keyRuns built = runsBefore ++ run :: runsAfter) :
    (∀ posting ∈ runsBefore.flatten, posting.key.toInt < (runKey run).toInt) ∧
    (∀ posting ∈ run, posting.key = runKey run) ∧
    ∀ posting ∈ runsAfter.flatten, (runKey run).toInt < posting.key.toInt := by
  have increasing := keyRuns_increasing built
  have keyed : ∀ other ∈ keyRuns built, ∀ posting ∈ other, posting.key = runKey other :=
    fun other member posting inside => keyRuns_key member inside
  rw [split] at increasing keyed
  obtain ⟨-, onward, across⟩ := List.pairwise_append.mp increasing
  refine ⟨fun posting member => ?_, fun posting member => ?_, fun posting member => ?_⟩
  · obtain ⟨other, isRun, inside⟩ := List.mem_flatten.mp member
    rw [keyed other (List.mem_append_left _ isRun) posting inside]
    exact across other isRun run List.mem_cons_self
  · exact keyed run (List.mem_append_right _ List.mem_cons_self) posting member
  · obtain ⟨other, isRun, inside⟩ := List.mem_flatten.mp member
    rw [keyed other (List.mem_append_right _ (List.mem_cons_of_mem _ isRun)) posting inside]
    exact List.rel_of_pairwise_cons onward isRun

end KeyRuns

section MainScan

variable {geometry : Geometry} {alive : Posting → Bool}

theorem compactPages_flatten (pages : List Page) :
    (pages.map (compactPage alive)).flatten = compactPage alive pages.flatten := by
  induction pages with
  | nil => rfl
  | cons page rest inductionHypothesis =>
      rw [List.map_cons, List.flatten_cons, inductionHypothesis, List.flatten_cons,
        compactPage_append]

/-- A place before which nothing dies stays where it is. -/
theorem blocksFrom_of_alive {pages : List Page} {blkno offnum : Nat} {page : Page}
    (here : pages[blkno]? = some page) (valid : offnum ≤ page.length)
    (nonempty : ∀ block ∈ pages.flatten, block ≠ [])
    (all : ∀ posting ∈ (blocksBefore pages blkno offnum).flatten, alive posting = true) :
    blocksFrom (pages.map (compactPage alive)) blkno offnum =
      compactPage alive (blocksFrom pages blkno offnum) := by
  have onPage : page ∈ pages := List.mem_of_getElem? here
  have kept : compactPage alive (page.take offnum) = page.take offnum := by
    refine compactPage_of_alive (fun block member => ?_) fun posting member => ?_
    · exact nonempty block (List.mem_flatten_of_mem onPage (List.mem_of_mem_take member))
    · refine all posting ?_
      rw [blocksBefore, here, List.flatten_append]
      exact List.mem_append_right _ member
  have split : compactPage alive page =
      page.take offnum ++ compactPage alive (page.drop offnum) := by
    rw [← kept, ← compactPage_append, List.take_append_drop]
  rw [blocksFrom, blocksFrom, List.getElem?_map, here, Option.map_some, Option.getD_some,
    Option.getD_some, ← List.map_drop, compactPages_flatten, compactPage_append, split,
    List.drop_left' (List.length_take_of_le valid)]

/-- From a place after which everything dies, nothing is left to read. -/
theorem blocksFrom_of_dead {pages : List Page} {blkno offnum : Nat}
    (all : ∀ posting ∈ (blocksFrom pages blkno offnum).flatten, alive posting = false) :
    blocksFrom (pages.map (compactPage alive)) blkno offnum = [] := by
  rw [blocksFrom] at all ⊢
  simp only [List.flatten_append, List.mem_append] at all
  rw [← List.map_drop, compactPages_flatten,
    compactPage_of_dead fun posting member => all posting (.inr member), List.append_nil,
    List.getElem?_map]
  cases here : pages[blkno]? with
  | none => exact List.drop_nil
  | some page =>
      rw [here] at all
      have split : compactPage alive page = compactPage alive (page.take offnum) := by
        have rest := @compactPage_of_dead _ alive (page.drop offnum)
          fun posting member => all posting (.inl member)
        conv_lhs => rw [← List.take_append_drop offnum page, compactPage_append, rest,
          List.append_nil]
      rw [Option.map_some, Option.getD_some, split, List.drop_eq_nil_iff]
      calc (compactPage alive (page.take offnum)).length
          ≤ ((page.take offnum).map (List.filter alive)).length := List.length_filter_le _ _
        _ ≤ offnum := by
          rw [List.length_map]
          exact List.length_take_le _ _

variable {built : List Posting} {ops : List IndexOp} {key : GraphId}

theorem findDirectoryEntry_split {entry : DirectoryEntry}
    (found : (Stored.run geometry built ops).mainIndex.findDirectoryEntry key = some entry) :
    ∃ runsBefore run runsAfter, keyRuns built = runsBefore ++ run :: runsAfter ∧
      runKey run = key ∧ entry.postingCount = run.length ∧
      Located (buildMainRuns geometry built).pages entry runsBefore.flatten run
        runsAfter.flatten := by
  obtain ⟨place, run, isRun, isKey, count, located⟩ :=
    findDirectoryEntry_built (run_directory built ops) found
  obtain ⟨bound, rfl⟩ := List.getElem?_eq_some_iff.mp isRun
  refine ⟨_, _, _, ?_, isKey, count, located⟩
  rw [← List.drop_eq_getElem_cons bound, List.take_append_drop]

/-- A key without an entry has no posting in the build. -/
theorem findDirectoryEntry_none
    (missing : (Stored.run geometry built ops).mainIndex.findDirectoryEntry key = none) :
    ∀ posting ∈ built, posting.key ≠ key := by
  intro posting member isKey
  obtain ⟨run, isRun, inside⟩ :=
    List.mem_flatten.mp ((keyRuns_perm built).mem_iff.mpr member)
  have listed : key ∈ (buildMainRuns geometry built).directory.map DirectoryEntry.key := by
    rw [(buildMainRuns_laid built).keys, ← isKey, keyRuns_key isRun inside]
    exact List.mem_map_of_mem isRun
  obtain ⟨entry, isEntry, hasKey⟩ := List.mem_map.mp listed
  rw [Index.findDirectoryEntry, List.find?_eq_none] at missing
  have same : (Stored.run geometry built ops).mainIndex.directory = _ := run_directory built ops
  rw [same] at missing
  exact missing entry isEntry (by rw [hasKey]; exact beq_self_eq_true key)

theorem scanPostingRun_eq {entry : DirectoryEntry}
    (found : (Stored.run geometry built ops).mainIndex.findDirectoryEntry key = some entry) :
    (Stored.run geometry built ops).scanPostingRun key =
      ((blocksFrom ((buildMainRuns geometry built).pages.map
        (compactPage fun posting => survives ops posting.heapTid)) entry.firstBlkno
          entry.firstOffnum).flatten.take entry.postingCount).map
            fun posting => posting.main.withKey key := by
  have count : (Stored.run geometry built ops).mainIndex.runCount key = entry.postingCount := by
    rw [Index.runCount, found]
    rfl
  have chain : (Stored.run geometry built ops).mainIndex.main = _ := run_main built ops
  rw [Stored.scanPostingRun, KeyScan.serialMain_eq, List.filter_true, count,
    runPages_flatten found, chain, blocksFrom_map, ← List.map_flatten, ← List.map_take,
    List.map_map]
  rfl

end MainScan

section DeltaScan

variable {geometry : Geometry}

/-- The label ids from which the delta chain makes graph ids again. -/
def Posting.labelsValid (posting : Posting) : Bool :=
  labelIdIsValid (getGraphidLabelId posting.key) &&
    labelIdIsValid (getGraphidLabelId posting.edgeId) &&
    labelIdIsValid (getGraphidLabelId posting.nextVertexId)

/-- A page of the delta chain stands for these postings. -/
structure StoredDeltaPage.Holds (page : StoredDeltaPage) (postings : List Posting) : Prop where
  forms : page.postings = postings.map Posting.formDelta
  labels : ∀ posting ∈ postings, page.sameLabels posting = true
  range : ∀ posting ∈ postings, page.minKey ≤ posting.key ∧ posting.key ≤ page.maxKey

namespace StoredDeltaPage

variable {page : StoredDeltaPage} {postings : List Posting}

theorem getPosting_formDelta {posting : Posting} (labels : page.sameLabels posting = true) :
    page.getPosting posting.formDelta =
      if posting.labelsValid then some posting else none := by
  simp only [sameLabels, Bool.and_eq_true, beq_iff_eq] at labels
  obtain ⟨⟨key, edge⟩, next⟩ := labels
  rw [getPosting, key, edge, next]
  simp only [Posting.formDelta, makeGraphid_parts, Posting.labelsValid]
  by_cases keyValid : labelIdIsValid (getGraphidLabelId posting.key) = true <;>
    by_cases edgeValid : labelIdIsValid (getGraphidLabelId posting.edgeId) = true <;>
    by_cases nextValid : labelIdIsValid (getGraphidLabelId posting.nextVertexId) = true <;>
    simp [keyValid, edgeValid, nextValid]

theorem Holds.append (holds : page.Holds postings) {posting : Posting}
    (fits : postings = [] ∨ page.sameLabels posting = true) :
    (page.append posting).Holds (postings ++ [posting]) := by
  have empty : page.postings.isEmpty = postings.isEmpty := by
    rw [holds.forms, List.isEmpty_map]
  rw [StoredDeltaPage.append, empty]
  by_cases first : postings = []
  · subst first
    rw [List.isEmpty_nil, if_pos rfl]
    refine ⟨rfl, fun other member => ?_, fun other member => ?_⟩
    · rw [List.mem_singleton.mp member]
      simp [sameLabels]
    · rw [List.mem_singleton.mp member]
      exact ⟨Int64.le_refl _, Int64.le_refl _⟩
  · have shared := fits.resolve_left first
    rw [List.isEmpty_eq_false_iff.mpr first, if_neg Bool.false_ne_true]
    refine ⟨by simp [holds.forms], fun other member => ?_, fun other member => ?_⟩
    · rcases List.mem_append.mp member with old | new
      · exact holds.labels other old
      · rw [List.mem_singleton.mp new]
        exact shared
    · simp only [Int64.le_iff_toInt_le, Int64.lt_iff_toInt_lt]
      rcases List.mem_append.mp member with old | new
      · obtain ⟨low, high⟩ := holds.range other old
        rw [Int64.le_iff_toInt_le] at low high
        split_ifs <;> omega
      · rw [List.mem_singleton.mp new]
        split_ifs <;> omega

theorem holds_init (posting : Posting) : (init.append posting).Holds [posting] :=
  Holds.append ⟨rfl, by simp, by simp⟩ (.inl rfl)

theorem Holds.filter (holds : page.Holds postings) (dead : Tid → Bool) :
    Holds { page with postings := page.postings.filter fun posting => !dead posting.heapTid }
      (postings.filter fun posting => !dead posting.heapTid) := by
  refine ⟨?_, fun posting member => holds.labels posting (List.mem_of_mem_filter member),
    fun posting member => holds.range posting (List.mem_of_mem_filter member)⟩
  dsimp only
  rw [holds.forms, List.filter_map]
  rfl

theorem Holds.mayContainKey (holds : page.Holds postings) {posting : Posting}
    (member : posting ∈ postings) : page.mayContainKey posting.key = true := by
  obtain ⟨low, high⟩ := holds.range posting member
  have some : page.postings.isEmpty = false := by
    rw [holds.forms, List.isEmpty_map, List.isEmpty_eq_false_iff]
    exact List.ne_nil_of_mem member
  simp [StoredDeltaPage.mayContainKey, some, low, high]

theorem Holds.scan (holds : page.Holds postings)
    (valid : ∀ posting ∈ postings, posting.labelsValid = true) (key : GraphId) :
    page.scan key = some (postings.filter fun posting => posting.key == key) := by
  have read : page.postings.mapM page.getPosting = some postings := by
    have each : ∀ posting ∈ postings, page.getPosting posting.formDelta = some posting := by
      intro posting member
      rw [getPosting_formDelta (holds.labels posting member), valid posting member]
      rfl
    rw [holds.forms]
    clear holds valid
    induction postings with
    | nil => rfl
    | cons posting rest inductionHypothesis =>
        rw [List.map_cons, List.mapM_cons, each posting List.mem_cons_self,
          inductionHypothesis fun other member => each other (List.mem_cons_of_mem _ member)]
        rfl
  rw [StoredDeltaPage.scan, read]
  split_ifs with may
  · rfl
  · have none : postings.filter (fun posting => posting.key == key) = [] := by
      rw [List.filter_eq_nil_iff]
      intro posting member isKey
      rw [← eq_of_beq isKey] at may
      exact may (holds.mayContainKey member)
    rw [none]

/-- A posting with an invalid label makes its page unreadable. -/
theorem Holds.scan_invalid (holds : page.Holds postings) {posting : Posting}
    (member : posting ∈ postings) (invalid : posting.labelsValid = false) :
    page.scan posting.key = none := by
  rw [StoredDeltaPage.scan, if_pos (holds.mayContainKey member), Option.map_eq_none_iff]
  have unread : page.getPosting posting.formDelta = none := by
    rw [getPosting_formDelta (holds.labels posting member), invalid]
    rfl
  rw [holds.forms]
  clear holds invalid
  induction postings with
  | nil => cases member
  | cons first rest inductionHypothesis =>
      rw [List.map_cons, List.mapM_cons]
      rcases List.mem_cons.mp member with rfl | later
      · rw [unread]
        rfl
      · rw [inductionHypothesis later]
        cases page.getPosting first.formDelta <;> rfl

end StoredDeltaPage

/-- The delta chain holds what was inserted and not deleted, in order. -/
def HoldsAll (pages : List StoredDeltaPage) (postings : List Posting) : Prop :=
  ∃ held : List (StoredDeltaPage × List Posting), pages = held.map Prod.fst ∧
    (∀ pair ∈ held, pair.1.Holds pair.2) ∧ held.flatMap Prod.snd = postings

theorem HoldsAll.appendDelta {pages : List StoredDeltaPage} {postings : List Posting}
    (holds : HoldsAll pages postings) (posting : Posting) :
    HoldsAll (Adjacency.appendDelta geometry pages posting) (postings ++ [posting]) := by
  obtain ⟨held, rfl, each, rfl⟩ := holds
  have fresh : HoldsAll (held.map Prod.fst ++ [StoredDeltaPage.init.append posting])
      (held.flatMap Prod.snd ++ [posting]) := by
    refine ⟨held ++ [(StoredDeltaPage.init.append posting, [posting])], by simp, ?_, by simp⟩
    intro pair member
    rcases List.mem_append.mp member with old | new
    · exact each pair old
    · rw [List.mem_singleton.mp new]
      exact StoredDeltaPage.holds_init posting
  induction held using List.reverseRecOn with
  | nil => exact fresh
  | append_singleton init last _ =>
      obtain ⟨page, onPage⟩ := last
      have lastHolds : page.Holds onPage := each (page, onPage) (by simp)
      rw [Adjacency.appendDelta]
      simp only [List.map_append, List.map_cons, List.map_nil, List.getLast?_concat,
        List.dropLast_concat] at fresh ⊢
      split_ifs with isFull
      · exact fresh
      · refine ⟨init ++ [(page.append posting, onPage ++ [posting])], by simp, ?_, by simp⟩
        intro pair member
        rcases List.mem_append.mp member with old | new
        · exact each pair (List.mem_append_left _ old)
        · rw [List.mem_singleton.mp new]
          refine lastHolds.append ?_
          simp only [Bool.or_eq_true, Bool.and_eq_true, Bool.not_eq_true', not_or, not_and,
            Bool.not_eq_false] at isFull
          by_cases empty : onPage = []
          · exact .inl empty
          · refine .inr (isFull.2 ?_)
            rw [lastHolds.forms, List.isEmpty_map, List.isEmpty_eq_false_iff]
            exact empty

theorem HoldsAll.filter {pages : List StoredDeltaPage} {postings : List Posting}
    (holds : HoldsAll pages postings) (dead : Tid → Bool) :
    HoldsAll (pages.map fun page =>
        { page with postings := page.postings.filter fun posting => !dead posting.heapTid })
      (postings.filter fun posting => !dead posting.heapTid) := by
  obtain ⟨held, rfl, each, rfl⟩ := holds
  refine ⟨held.map fun pair =>
    ({ pair.1 with postings := pair.1.postings.filter fun posting => !dead posting.heapTid },
      pair.2.filter fun posting => !dead posting.heapTid), ?_, fun pair member => ?_, ?_⟩
  · rw [List.map_map, List.map_map]
    rfl
  · obtain ⟨old, isHeld, rfl⟩ := List.mem_map.mp member
    exact (each old isHeld).filter dead
  · rw [List.flatMap_map, List.filter_flatMap]

theorem run_delta (built : List Posting) (ops : List IndexOp) :
    HoldsAll (Stored.run geometry built ops).delta (contents [] ops) := by
  induction ops using List.reverseRecOn with
  | nil => exact ⟨[], rfl, by simp, rfl⟩
  | append_singleton ops op inductionHypothesis =>
      rw [Stored.run, contents, List.foldl_concat, List.foldl_concat]
      cases op with
      | insert posting => exact inductionHypothesis.appendDelta posting
      | bulkDelete dead => exact inductionHypothesis.filter dead

theorem HoldsAll.scanDelta {stored : Stored} {postings : List Posting}
    (holds : HoldsAll stored.delta postings)
    (valid : ∀ posting ∈ postings, posting.labelsValid = true) (key : GraphId) :
    stored.scanDelta key = some (postings.filter fun posting => posting.key == key) := by
  obtain ⟨held, pages, each, rfl⟩ := holds
  rw [Stored.scanDelta, pages]
  clear pages
  suffices read : (held.map Prod.fst).mapM (StoredDeltaPage.scan · key) =
      some (held.map fun pair => pair.2.filter fun posting => posting.key == key) by
    rw [read, Option.map_some, List.filter_flatMap, List.flatMap]
  induction held with
  | nil => rfl
  | cons pair rest inductionHypothesis =>
      have here := (each pair List.mem_cons_self).scan
        (fun posting member => valid posting (List.mem_flatMap.mpr
          ⟨pair, List.mem_cons_self, member⟩)) key
      rw [List.map_cons, List.mapM_cons, here, inductionHypothesis
        (fun other member => each other (List.mem_cons_of_mem _ member))
        (fun posting member => valid posting (by
          rw [List.flatMap_cons]
          exact List.mem_append_right _ member))]
      rfl

theorem HoldsAll.scanDelta_invalid {stored : Stored} {postings : List Posting}
    (holds : HoldsAll stored.delta postings) {posting : Posting} (member : posting ∈ postings)
    (invalid : posting.labelsValid = false) : stored.scanDelta posting.key = none := by
  obtain ⟨held, pages, each, rfl⟩ := holds
  rw [Stored.scanDelta, pages, Option.map_eq_none_iff]
  clear pages
  induction held with
  | nil => cases member
  | cons pair rest inductionHypothesis =>
      rw [List.map_cons, List.mapM_cons]
      rw [List.flatMap_cons] at member
      rcases List.mem_append.mp member with here | later
      · rw [(each pair List.mem_cons_self).scan_invalid here invalid]
        rfl
      · rw [inductionHypothesis (fun other inside => each other (List.mem_cons_of_mem _ inside))
          later]
        cases pair.1.scan posting.key <;> rfl

end DeltaScan

section Exact

variable {geometry : Geometry} {built : List Posting} {ops : List IndexOp} {key : GraphId}

/-- Bulk deletes take the postings of the build from the greatest keys down: once one is
gone, so is every one of a greater key. -/
def DeletedFromTheEnd (built : List Posting) (ops : List IndexOp) : Prop :=
  ∀ gone ∈ built, survives ops gone.heapTid = false →
    ∀ posting ∈ built, gone.key.toInt < posting.key.toInt → survives ops posting.heapTid = false

theorem contents_eq (built : List Posting) (ops : List IndexOp) :
    contents built ops =
      (built.filter fun posting => survives ops posting.heapTid) ++ contents [] ops := by
  induction ops using List.reverseRecOn with
  | nil => simp [contents, survives]
  | append_singleton ops op inductionHypothesis =>
      have last (start : List Posting) :
          contents start (ops ++ [op]) = contentsStep (contents start ops) op := by
        rw [contents, List.foldl_concat]
        rfl
      rw [last, last, inductionHypothesis]
      cases op with
      | insert posting => simp [contentsStep, survives]
      | bulkDelete dead =>
          rw [contentsStep, contentsStep, List.filter_append, List.filter_filter]
          congr 2
          funext posting
          simp [survives, Bool.and_comm]

/-- The postings of the build that a scan ought to return are what is left of the run. -/
theorem built_filter_key {runsBefore runsAfter : List (List Posting)} {run : List Posting}
    (split : keyRuns built = runsBefore ++ run :: runsAfter) (isKey : runKey run = key)
    (alive : Posting → Bool) :
    ((built.filter alive).filter fun posting => posting.key == key).Perm (run.filter alive) := by
  obtain ⟨below, own, above⟩ := keyRuns_split split
  rw [isKey] at below own above
  have others {postings : List Posting}
      (differ : ∀ posting ∈ postings, posting.key.toInt ≠ key.toInt) :
      (postings.filter alive).filter (fun posting => posting.key == key) = [] := by
    rw [List.filter_eq_nil_iff]
    intro posting member same
    refine differ posting (List.mem_of_mem_filter member) ?_
    rw [eq_of_beq same]
  have mine : (run.filter alive).filter (fun posting => posting.key == key) = run.filter alive := by
    rw [List.filter_eq_self]
    intro posting member
    rw [own posting (List.mem_of_mem_filter member)]
    exact beq_self_eq_true key
  refine ((((keyRuns_perm built).filter alive).filter _).symm).trans (List.Perm.of_eq ?_)
  rw [split, List.flatten_append, List.flatten_cons, List.filter_append, List.filter_append,
    List.filter_append, List.filter_append, mine,
    others fun posting member => Int.ne_of_lt (below posting member),
    others fun posting member => Int.ne_of_gt (above posting member), List.nil_append,
    List.append_nil]

theorem withKey_main {postings : List Posting} (own : ∀ posting ∈ postings, posting.key = key) :
    postings.map (fun posting => posting.main.withKey key) = postings := by
  refine (List.map_congr_left fun posting member => ?_).trans (List.map_id postings)
  rw [← own posting member]
  rfl

/-- A run that no dead posting precedes is scanned from its start. -/
theorem scanPostingRun_of_alive {entry : DirectoryEntry}
    {runsBefore runsAfter : List (List Posting)} {run : List Posting}
    (found : (Stored.run geometry built ops).mainIndex.findDirectoryEntry key = some entry)
    (count : entry.postingCount = run.length)
    (located : Located (buildMainRuns geometry built).pages entry runsBefore.flatten run
      runsAfter.flatten)
    (alive : ∀ posting ∈ runsBefore.flatten, survives ops posting.heapTid = true) :
    (Stored.run geometry built ops).scanPostingRun key =
      (((run ++ runsAfter.flatten).filter fun posting =>
        survives ops posting.heapTid).take run.length).map
          fun posting => posting.main.withKey key := by
  obtain ⟨page, here, valid⟩ := located.page
  obtain ⟨own, later, blocks, isRun, isAfter⟩ := located.own
  rw [scanPostingRun_eq found, count, blocksFrom_of_alive here valid
    (buildMainRuns_laid built).nonempty (by rw [located.before]; exact alive),
    compactPage_flatten, blocks, List.flatten_append, isRun, isAfter]

theorem scanPostingRun_perm (ends : DeletedFromTheEnd built ops) (key : GraphId) :
    ((Stored.run geometry built ops).scanPostingRun key).Perm
      ((built.filter fun posting => survives ops posting.heapTid).filter
        fun posting => posting.key == key) := by
  cases found : (Stored.run geometry built ops).mainIndex.findDirectoryEntry key with
  | none =>
      have nothing : (Stored.run geometry built ops).scanPostingRun key = [] := by
        rw [Stored.scanPostingRun, KeyScan.serialMain_eq, Index.runCount, found]
        rfl
      rw [nothing, List.filter_eq_nil_iff.mpr]
      intro posting member isKey
      exact findDirectoryEntry_none found posting (List.mem_of_mem_filter member)
        (eq_of_beq isKey)
  | some entry =>
      obtain ⟨runsBefore, run, runsAfter, split, isKey, count, located⟩ :=
        findDirectoryEntry_split found
      refine List.Perm.trans (List.Perm.of_eq ?_) (built_filter_key split isKey _).symm
      obtain ⟨below, own, above⟩ := keyRuns_split split
      rw [isKey] at below own above
      have inBuilt {posting : Posting}
          (member : posting ∈ runsBefore.flatten ++ (run ++ runsAfter.flatten)) :
          posting ∈ built := by
        rw [← List.flatten_cons, ← List.flatten_append, ← split] at member
        exact (keyRuns_perm built).mem_iff.mp member
      have ownPart (postings : List Posting) (inside : ∀ posting ∈ postings, posting ∈ run) :
          postings.map (fun posting => posting.main.withKey key) = postings :=
        withKey_main fun posting member => own posting (inside posting member)
      by_cases alive : ∀ posting ∈ runsBefore.flatten, survives ops posting.heapTid = true
      · rw [scanPostingRun_of_alive found count located alive, List.filter_append]
        by_cases whole : ∀ posting ∈ run, survives ops posting.heapTid = true
        · rw [List.filter_eq_self.mpr whole, List.take_left, ownPart run fun _ member => member]
        · -- the run is shorter now, but nothing is left after it
          push Not at whole
          obtain ⟨gone, inRun, isGone⟩ := whole
          have rest : runsAfter.flatten.filter (fun posting => survives ops posting.heapTid) =
              [] := by
            rw [List.filter_eq_nil_iff]
            intro posting member
            rw [ends gone (inBuilt (by simp [inRun])) (Bool.eq_false_iff.mpr isGone) posting
              (inBuilt (List.mem_append_right _ (List.mem_append_right _ member)))
              (by rw [own gone inRun]; exact above posting member)]
            exact Bool.false_ne_true
          rw [rest, List.append_nil, List.take_of_length_le (List.length_filter_le _ _),
            ownPart _ fun _ member => List.mem_of_mem_filter member]
      · push Not at alive
        obtain ⟨gone, before, isGone⟩ := alive
        have dead : ∀ posting ∈ run ++ runsAfter.flatten,
            survives ops posting.heapTid = false := by
          intro posting member
          refine ends gone (inBuilt (List.mem_append_left _ before))
            (Bool.eq_false_iff.mpr isGone) posting (inBuilt (List.mem_append_right _ member)) ?_
          rcases List.mem_append.mp member with inRun | inAfter
          · rw [own posting inRun]
            exact below gone before
          · exact Int.lt_trans (below gone before) (above posting inAfter)
        obtain ⟨mine, later, blocks, isRun, isAfter⟩ := located.own
        rw [scanPostingRun_eq found, blocksFrom_of_dead (by
          rw [blocks, List.flatten_append, isRun, isAfter]
          exact dead), List.filter_eq_nil_iff.mpr fun posting member => by
            rw [dead posting (List.mem_append_left _ member)]
            exact Bool.false_ne_true, List.flatten_nil, List.take_nil]
        rfl

/-- Deletes from the middle of the keys let some scan read postings of other keys. -/
theorem deletedFromTheEnd_of_length
    (exact : ∀ key, ((Stored.run geometry built ops).scanPostingRun key).length =
      ((built.filter fun posting => survives ops posting.heapTid).filter
        fun posting => posting.key == key).length) : DeletedFromTheEnd built ops := by
  intro gone inBuilt isGone posting member greater
  by_contra remains
  -- the least key that lost a posting
  obtain ⟨least, isLeast, minimal⟩ := Finset.exists_min_image
    (built.filter fun posting => !survives ops posting.heapTid).toFinset
    (fun posting => posting.key.toInt) ⟨gone, by simp [inBuilt, isGone]⟩
  simp only [List.mem_toFinset, List.mem_filter, Bool.not_eq_true'] at isLeast minimal
  obtain ⟨leastBuilt, leastGone⟩ := isLeast
  have before := minimal gone ⟨inBuilt, isGone⟩
  cases found : (Stored.run geometry built ops).mainIndex.findDirectoryEntry least.key with
  | none => exact findDirectoryEntry_none found least leastBuilt rfl
  | some entry =>
      obtain ⟨runsBefore, run, runsAfter, split, isKey, count, located⟩ :=
        findDirectoryEntry_split found
      obtain ⟨below, own, above⟩ := keyRuns_split split
      rw [isKey] at below own above
      have place {other : Posting} : other ∈ built ↔
          other ∈ runsBefore.flatten ∨ other ∈ run ∨ other ∈ runsAfter.flatten := by
        rw [← (keyRuns_perm built).mem_iff, split, List.flatten_append, List.flatten_cons,
          List.mem_append, List.mem_append]
      have alive : ∀ other ∈ runsBefore.flatten, survives ops other.heapTid = true := by
        intro other isBefore
        by_contra dead
        have atLeast := minimal other ⟨place.mpr (.inl isBefore), Bool.eq_false_iff.mpr dead⟩
        exact absurd (below other isBefore) (Int.not_lt.mpr atLeast)
      have lost : least ∈ run := by
        rcases place.mp leastBuilt with isBefore | inRun | isAfter
        · exact absurd (below least isBefore) (Int.lt_irrefl _)
        · exact inRun
        · exact absurd (above least isAfter) (Int.lt_irrefl _)
      have later : posting ∈ runsAfter.flatten := by
        rcases place.mp member with isBefore | inRun | isAfter
        · have early := below posting isBefore
          omega
        · rw [own posting inRun] at greater
          omega
        · exact isAfter
      have shorter : (run.filter fun other => survives ops other.heapTid).length <
          run.length := by
        refine List.length_filter_lt_length_iff_exists.mpr ⟨least, lost, ?_⟩
        rw [leastGone]
        exact Bool.false_ne_true
      have more : 0 < (runsAfter.flatten.filter fun other => survives ops other.heapTid).length :=
        List.length_pos_of_mem (List.mem_filter.mpr ⟨later, Bool.not_eq_false _ |>.mp remains⟩)
      have lengths := exact least.key
      rw [scanPostingRun_of_alive found count located alive,
        (built_filter_key split isKey _).length_eq, List.length_map, List.length_take,
        List.filter_append, List.length_append] at lengths
      omega

/-- After a build, inserts and bulk deletes, the scan of every key returns the postings
of the key exactly when every inserted posting that is left can be read back and the
bulk deletes took the built postings from the greatest keys down. -/
theorem scanPayload_exact (geometry : Geometry) (built : List Posting) (ops : List IndexOp) :
    (∀ key, ∃ emitted, (Stored.run geometry built ops).scanPayload key = some emitted ∧
      emitted.Perm ((contents built ops).filter fun posting => posting.key == key)) ↔
    (∀ posting ∈ contents [] ops, posting.labelsValid = true) ∧ DeletedFromTheEnd built ops := by
  have delta := @run_delta geometry built ops
  constructor
  · intro exact
    have valid : ∀ posting ∈ contents [] ops, posting.labelsValid = true := by
      intro posting member
      by_contra invalid
      obtain ⟨emitted, scanned, -⟩ := exact posting.key
      rw [Stored.scanPayload, delta.scanDelta_invalid member (Bool.eq_false_iff.mpr invalid)]
        at scanned
      cases scanned
    refine ⟨valid, @deletedFromTheEnd_of_length geometry _ _ fun key => ?_⟩
    obtain ⟨emitted, scanned, same⟩ := exact key
    rw [Stored.scanPayload, delta.scanDelta valid key] at scanned
    cases scanned
    have lengths := same.length_eq
    rw [contents_eq built, List.filter_append, List.length_append, List.length_append] at lengths
    exact Nat.add_right_cancel lengths
  · rintro ⟨valid, ends⟩ key
    refine ⟨_, by rw [Stored.scanPayload, delta.scanDelta valid key]; rfl, ?_⟩
    rw [contents_eq built, List.filter_append]
    exact (scanPostingRun_perm ends key).append_right _

/-- Vacuum removes the first edge; its key reads the second one instead. -/
theorem scanPayload_reads_next_run :
    ¬ ∃ emitted, (Stored.run roomyGeometry [thereEdge, backEdge]
        [.bulkDelete fun tid => tid == thereEdge.heapTid]).scanPayload thereEdge.key =
          some emitted ∧
      emitted.Perm ((contents [thereEdge, backEdge]
        [.bulkDelete fun tid => tid == thereEdge.heapTid]).filter
          fun posting => posting.key == thereEdge.key) := by
  rw [Stored.run, Stored.build, buildMainRuns_twoKeys]
  decide

end Exact

end Age.Adjacency
