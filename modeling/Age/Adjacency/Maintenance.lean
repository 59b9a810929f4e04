import Age.Adjacency.Build

/-!
# An adjacency index over its life

An index is built once, takes inserts on its delta chain and loses postings to
`age_adjacency_bulk_delete`.  The directory is written by the build only, and
`age_adjacency_count_visible_payloads` answers from it while the metapage says
that its counts are exact.
-/

namespace Age.Adjacency

open Vle (getGraphidLabelId labelIdIsValid)

section GraphIds

def getGraphidEntryId (gid : GraphId) : Nat := gid.toUInt64.toNat % 2 ^ 48

/-- `make_graphid`; `none` when it raises an error -/
def makeGraphid (labelId : Int) (entryId : Nat) : Option GraphId :=
  if labelIdIsValid labelId && decide (entryId ≤ 281474976710655) then
    some (UInt64.ofNat (labelId.toNat <<< 48 ||| entryId % 2 ^ 48)).toInt64
  else none

theorem makeGraphid_parts (gid : GraphId) :
    makeGraphid (getGraphidLabelId gid) (getGraphidEntryId gid) =
      if labelIdIsValid (getGraphidLabelId gid) then some gid else none := by
  have bound : getGraphidEntryId gid < 2 ^ 48 := Nat.mod_lt _ (by decide)
  have small : getGraphidEntryId gid ≤ 281474976710655 := by omega
  have label : (getGraphidLabelId gid).toNat = gid.toUInt64.toNat / 2 ^ 48 := by
    rw [getGraphidLabelId]
    omega
  have whole : (getGraphidLabelId gid).toNat <<< 48 ||| getGraphidEntryId gid % 2 ^ 48 =
      gid.toUInt64.toNat := by
    rw [Nat.mod_eq_of_lt bound, ← Nat.shiftLeft_add_eq_or_of_lt bound, label,
      Nat.shiftLeft_eq, getGraphidEntryId]
    omega
  rw [makeGraphid, whole, decide_eq_true small, Bool.and_true, UInt64.ofNat_toNat]
  rfl

end GraphIds

section DeltaPages

/-- `AgeAdjacencyDeltaCompactPostingData` -/
structure DeltaCompactPosting where
  keyEntryId : Nat
  heapTid : Tid
  edgeEntryId : Nat
  nextEntryId : Nat
  deriving DecidableEq, Repr

/-- A delta page; its postings share the label ids of the page. -/
structure StoredDeltaPage where
  keyLabelId : Int
  edgeLabelId : Int
  nextLabelId : Int
  minKey : GraphId
  maxKey : GraphId
  postings : List DeltaCompactPosting
  deriving DecidableEq, Repr

/-- `age_adjacency_form_delta_posting` -/
def Posting.formDelta (posting : Posting) : DeltaCompactPosting :=
  ⟨getGraphidEntryId posting.key, posting.heapTid, getGraphidEntryId posting.edgeId,
    getGraphidEntryId posting.nextVertexId⟩

namespace StoredDeltaPage

variable (page : StoredDeltaPage)

/-- `age_adjacency_delta_posting_get_posting` -/
def getPosting (delta : DeltaCompactPosting) : Option Posting := do
  let key ← makeGraphid page.keyLabelId delta.keyEntryId
  let edgeId ← makeGraphid page.edgeLabelId delta.edgeEntryId
  let nextVertexId ← makeGraphid page.nextLabelId delta.nextEntryId
  return ⟨key, delta.heapTid, edgeId, nextVertexId⟩

/-- `age_adjacency_delta_page_may_contain_key` -/
def mayContainKey (key : GraphId) : Bool :=
  !page.postings.isEmpty && page.minKey ≤ key && key ≤ page.maxKey

/-- The postings of a key; `none` when one of the page cannot be read. -/
def scan (key : GraphId) : Option (List Posting) :=
  if page.mayContainKey key then
    (page.postings.mapM page.getPosting).map (List.filter fun posting => posting.key == key)
  else some []

def sameLabels (posting : Posting) : Bool :=
  page.keyLabelId == getGraphidLabelId posting.key &&
    page.edgeLabelId == getGraphidLabelId posting.edgeId &&
    page.nextLabelId == getGraphidLabelId posting.nextVertexId

/-- The page after `age_adjacency_append_item`: an empty page takes the labels and
the key of the posting. -/
def append (posting : Posting) : StoredDeltaPage :=
  if page.postings.isEmpty then
    ⟨getGraphidLabelId posting.key, getGraphidLabelId posting.edgeId,
      getGraphidLabelId posting.nextVertexId, posting.key, posting.key, [posting.formDelta]⟩
  else
    { page with
      minKey := if page.minKey < posting.key then page.minKey else posting.key
      maxKey := if posting.key < page.maxKey then page.maxKey else posting.key
      postings := page.postings ++ [posting.formDelta] }

/-- `age_adjacency_init_page` -/
def init : StoredDeltaPage := ⟨0, 0, 0, 0, 0, []⟩

end StoredDeltaPage

/-- `age_adjacency_append_item` on the delta chain -/
def appendDelta (geometry : Geometry) (pages : List StoredDeltaPage) (posting : Posting) :
    List StoredDeltaPage :=
  match pages.getLast? with
  | none => [StoredDeltaPage.init.append posting]
  | some last =>
      if !geometry.deltaRoom last.postings.length ||
          (!last.postings.isEmpty && !last.sameLabels posting) then
        pages ++ [StoredDeltaPage.init.append posting]
      else pages.dropLast ++ [last.append posting]

end DeltaPages

section Stored

/-- The pages of an index and what its metapage counts. -/
structure Stored where
  main : List (List (List MainPosting))
  directory : List DirectoryEntry
  delta : List StoredDeltaPage
  countsExact : Bool
  postings : Nat
  deltaPostings : Nat

/-- What bulk delete leaves of the blocks of a page; a block that gets empty is
deleted, and the offsets of the blocks after it go down. -/
def compactPage {α : Type} (alive : α → Bool) (page : List (List α)) : List (List α) :=
  (page.map (List.filter alive)).filter fun block => !block.isEmpty

inductive IndexOp where
  | insert (posting : Posting)
  | bulkDelete (dead : Tid → Bool)

namespace Stored

variable (geometry : Geometry) (stored : Stored)

/-- `age_adjacency_build` -/
def build (postings : List Posting) : Stored where
  main := (buildMainRuns geometry postings).pages.map (List.map (List.map Posting.main))
  directory := (buildMainRuns geometry postings).directory
  delta := []
  countsExact := true
  postings := postings.length
  deltaPostings := 0

/-- `age_adjacency_insert` -/
def insert (posting : Posting) : Stored :=
  { stored with
    delta := appendDelta geometry stored.delta posting
    countsExact := false
    postings := stored.postings + 1
    deltaPostings := stored.deltaPostings + 1 }

def removedMain (dead : Tid → Bool) : Nat :=
  stored.main.flatten.flatten.countP fun posting => dead posting.heapTid

def removedDelta (dead : Tid → Bool) : Nat :=
  (stored.delta.flatMap StoredDeltaPage.postings).countP fun posting => dead posting.heapTid

/-- `age_adjacency_bulk_delete` -/
def bulkDelete (dead : Tid → Bool) : Stored where
  main := stored.main.map (compactPage fun posting => !dead posting.heapTid)
  directory := stored.directory
  delta := stored.delta.map fun page =>
    { page with postings := page.postings.filter fun posting => !dead posting.heapTid }
  countsExact := stored.countsExact &&
    stored.removedMain dead == 0 && stored.removedDelta dead == 0
  postings := stored.postings - stored.removedMain dead - stored.removedDelta dead
  deltaPostings := stored.deltaPostings - stored.removedDelta dead

def step : IndexOp → Stored
  | .insert posting => stored.insert geometry posting
  | .bulkDelete dead => stored.bulkDelete dead

/-- One build, then inserts and bulk deletes. -/
def run (built : List Posting) (ops : List IndexOp) : Stored :=
  ops.foldl (step geometry) (build geometry built)

def mainIndex : Index := ⟨stored.main, stored.directory, []⟩

/-- The delta chain as `age_adjacency_scan_payload` reads it. -/
def scanDelta (key : GraphId) : Option (List Posting) :=
  (stored.delta.mapM (StoredDeltaPage.scan · key)).map List.flatten

end Stored

/-- What an index ought to hold. -/
def contentsStep (contents : List Posting) : IndexOp → List Posting
  | .insert posting => contents ++ [posting]
  | .bulkDelete dead => contents.filter fun posting => !dead posting.heapTid

def contents (built : List Posting) (ops : List IndexOp) : List Posting :=
  ops.foldl contentsStep built

end Stored

section Compaction

variable {α β : Type} {alive : α → Bool} {page : List (List α)}

theorem compactPage_of_alive (nonempty : ∀ block ∈ page, block ≠ [])
    (all : ∀ posting ∈ page.flatten, alive posting = true) : compactPage alive page = page := by
  have same : page.map (List.filter alive) = page := by
    refine (List.map_congr_left fun block member => ?_).trans (List.map_id page)
    exact List.filter_eq_self.mpr fun posting inside =>
      all posting (List.mem_flatten_of_mem member inside)
  rw [compactPage, same, List.filter_eq_self]
  intro block member
  simpa using nonempty block member

theorem compactPage_map (alive : β → Bool) (f : α → β) (page : List (List α)) :
    compactPage alive (page.map (List.map f)) =
      (compactPage (fun posting => alive (f posting)) page).map (List.map f) := by
  induction page with
  | nil => rfl
  | cons block rest inductionHypothesis =>
      simp only [compactPage, List.map_cons, List.filter_map, List.filter_cons] at inductionHypothesis ⊢
      simp only [List.isEmpty_map, Function.comp_def] at inductionHypothesis ⊢
      split_ifs <;> simp [List.filter_map, Function.comp_def]

theorem compactPage_compactPage (first second : α → Bool) (page : List (List α)) :
    compactPage second (compactPage first page) =
      compactPage (fun posting => first posting && second posting) page := by
  induction page with
  | nil => rfl
  | cons block rest inductionHypothesis =>
      have twice : (block.filter first).filter second =
          block.filter fun posting => first posting && second posting := by
        rw [List.filter_filter]
        exact List.filter_congr fun posting _ => Bool.and_comm _ _
      simp only [compactPage, List.map_cons, List.filter_cons] at inductionHypothesis ⊢
      by_cases gone : block.filter first = []
      · have goneToo : block.filter (fun posting => first posting && second posting) = [] := by
          rw [← twice, gone]
          rfl
        simpa [gone, goneToo] using inductionHypothesis
      · simp only [List.isEmpty_eq_false_iff.mpr gone, Bool.not_false, if_true, List.map_cons,
          List.filter_cons, twice, inductionHypothesis]

theorem compactPage_append (page more : List (List α)) :
    compactPage alive (page ++ more) = compactPage alive page ++ compactPage alive more := by
  rw [compactPage, List.map_append, List.filter_append]
  rfl

theorem compactPage_flatten : (compactPage alive page).flatten = page.flatten.filter alive := by
  rw [compactPage, List.flatten_filter_not_isEmpty, List.filter_flatten]

theorem compactPage_of_dead (all : ∀ posting ∈ page.flatten, alive posting = false) :
    compactPage alive page = [] := by
  rw [compactPage, List.filter_eq_nil_iff]
  intro block member
  obtain ⟨whole, inPage, rfl⟩ := List.mem_map.mp member
  rw [List.filter_eq_nil_iff.mpr fun posting inside => by
    simp [all posting (List.mem_flatten_of_mem inPage inside)]]
  simp

end Compaction

section MainChain

variable {geometry : Geometry}

/-- No bulk delete of a run reports the TID dead. -/
def survives (ops : List IndexOp) (tid : Tid) : Bool :=
  ops.all fun
    | .insert _ => true
    | .bulkDelete dead => !dead tid

theorem keyRuns_perm (postings : List Posting) : (keyRuns postings).flatten.Perm postings := by
  rw [keyRuns, List.flatten_splitBy]
  exact List.mergeSort_perm _ _

theorem compactPages_of_alive {built : List Posting} {alive : Posting → Bool}
    (all : ∀ posting ∈ built, alive posting = true) :
    (buildMainRuns geometry built).pages.map (compactPage alive) =
      (buildMainRuns geometry built).pages := by
  have laid := @buildMainRuns_laid geometry built
  refine (List.map_congr_left fun page onChain => ?_).trans (List.map_id _)
  refine compactPage_of_alive (fun block inside =>
    laid.nonempty block (List.mem_flatten_of_mem onChain inside)) fun posting inside => ?_
  obtain ⟨block, onPage, inBlock⟩ := List.mem_flatten.mp inside
  refine all posting ((keyRuns_perm built).mem_iff.mp ?_)
  rw [← laid.all]
  exact List.mem_flatten_of_mem (List.mem_flatten_of_mem onChain onPage) inBlock

theorem run_directory (built : List Posting) (ops : List IndexOp) :
    (Stored.run geometry built ops).directory = (buildMainRuns geometry built).directory := by
  induction ops using List.reverseRecOn with
  | nil => rfl
  | append_singleton ops op inductionHypothesis =>
      rw [Stored.run, List.foldl_concat]
      cases op with
      | insert posting => exact inductionHypothesis
      | bulkDelete dead => exact inductionHypothesis

/-- The main chain holds the built postings that no bulk delete reported, each on
the page the build put it on. -/
theorem run_main (built : List Posting) (ops : List IndexOp) :
    (Stored.run geometry built ops).main =
      ((buildMainRuns geometry built).pages.map
        (compactPage fun posting => survives ops posting.heapTid)).map
        (List.map (List.map Posting.main)) := by
  induction ops using List.reverseRecOn with
  | nil =>
      have whole := @compactPages_of_alive geometry built
        (fun posting => survives [] posting.heapTid) fun _ _ => rfl
      rw [whole]
      rfl
  | append_singleton ops op inductionHypothesis =>
      rw [Stored.run, List.foldl_concat]
      cases op with
      | insert posting =>
          refine inductionHypothesis.trans ?_
          simp [survives]
      | bulkDelete dead =>
          change (Stored.run geometry built ops).main.map _ = _
          rw [inductionHypothesis, List.map_map, List.map_map, List.map_map]
          refine List.map_congr_left fun page _ => ?_
          simp only [Function.comp_apply, compactPage_map, compactPage_compactPage]
          simp [survives, Posting.main]

/-- While the counts are exact, the index is as it was built. -/
theorem run_countsExact (built : List Posting) (ops : List IndexOp)
    (exact : (Stored.run geometry built ops).countsExact = true) :
    contents built ops = built ∧ ∀ posting ∈ built, survives ops posting.heapTid = true := by
  induction ops using List.reverseRecOn with
  | nil => exact ⟨rfl, fun _ _ => rfl⟩
  | append_singleton ops op inductionHypothesis =>
      have chain := @run_main geometry built ops
      rw [Stored.run, List.foldl_concat] at exact
      cases op with
      | insert posting => cases exact
      | bulkDelete dead =>
          change ((Stored.run geometry built ops).countsExact &&
            (Stored.run geometry built ops).removedMain dead == 0 && _) = true at exact
          rw [Bool.and_eq_true, Bool.and_eq_true, beq_iff_eq] at exact
          obtain ⟨⟨before, noneRemoved⟩, -⟩ := exact
          obtain ⟨same, alive⟩ := inductionHypothesis before
          have kept : ∀ posting ∈ built, dead posting.heapTid = false := by
            intro posting member
            rw [Stored.removedMain, List.countP_eq_zero] at noneRemoved
            have stored : posting.main ∈ (Stored.run geometry built ops).main.flatten.flatten := by
              rw [chain, ← List.map_flatten, ← List.map_flatten]
              refine List.mem_map_of_mem ?_
              rw [compactPages_of_alive alive, (buildMainRuns_laid built).all]
              exact (keyRuns_perm built).mem_iff.mpr member
            simpa [Posting.main] using noneRemoved _ stored
          refine ⟨?_, fun posting member => ?_⟩
          · rw [contents, List.foldl_concat]
            change (contents built ops).filter _ = built
            rw [same, List.filter_eq_self]
            intro posting member
            rw [kept posting member]
            rfl
          · have both := alive posting member
            have now := kept posting member
            simp only [survives, List.all_append] at both ⊢
            simp [both, now]

end MainChain

section TwoKeys

/-- Pages with room for two blocks of one posting. -/
def roomyGeometry : Geometry := ⟨fun _ count => count ≤ 300, fun _ _ => true, fun _ => true⟩

/-- Two edges between the vertices `1.1` and `1.2`, one each way. -/
def thereEdge : Posting := ⟨281474976710657, ⟨0, 1⟩, 844424930131969, 281474976710658⟩

def backEdge : Posting := ⟨281474976710658, ⟨0, 2⟩, 844424930131970, 281474976710657⟩

theorem buildMainRuns_twoKeys : buildMainRuns roomyGeometry [thereEdge, backEdge] =
    ⟨[[[thereEdge], [backEdge]]], [⟨thereEdge.key, 0, 0, 1⟩, ⟨backEdge.key, 0, 1, 1⟩]⟩ := by
  have runs : keyRuns [thereEdge, backEdge] = [[thereEdge], [backEdge]] := by
    rw [keyRuns, sortPostings, List.mergeSort_of_pairwise (by
      simp only [List.pairwise_pair]
      decide)]
    decide
  rw [buildMainRuns, runs]
  rfl

end TwoKeys

section Count

/-- The edge heap as scans see it. -/
structure Heap (Snapshot : Type) where
  blocks : Nat
  /-- the visibility map -/
  allVisible : Nat → Bool
  isMvcc : Snapshot → Bool
  /-- `table_tuple_fetch_row_version` finds the version at the TID -/
  fetchRowVersion : Tid → Snapshot → Bool

inductive CountMode where
  | visibleScan
  | directorySummary
  deriving DecidableEq, Repr

variable {Snapshot : Type} (heap : Heap Snapshot) (snapshot : Snapshot)

/-- `age_adjacency_posting_visible_payload` without terminal filters -/
def Heap.visible (fetchProperties : Bool) (posting : MainPosting) : Bool :=
  !fetchProperties && heap.allVisible posting.heapTid.block ||
    heap.fetchRowVersion posting.heapTid snapshot

/-- `visibilitymap_count` -/
def Heap.countAllVisible : Nat := (List.range heap.blocks).countP heap.allVisible

namespace Stored

variable (stored : Stored) (key : GraphId)

/-- The payloads of `age_adjacency_visible_payload_scan_next` for a key. -/
def visiblePayloadScan (fetchProperties : Bool) : Option (List MainPosting) :=
  (stored.scanDelta key).map fun delta =>
    serialMain (heap.visible snapshot fetchProperties) (stored.mainIndex.runCount key)
        (stored.mainIndex.runPages key) ++
      (delta.map Posting.main).filter (heap.visible snapshot fetchProperties)

def summarySafe : Bool :=
  heap.isMvcc snapshot && stored.countsExact && stored.deltaPostings == 0 &&
    stored.delta.isEmpty && heap.countAllVisible == heap.blocks

/-- `age_adjacency_count_visible_payloads` -/
def countVisiblePayloads : Option (Nat × CountMode) :=
  if stored.summarySafe heap snapshot then
    some (stored.mainIndex.runCount key, .directorySummary)
  else
    (stored.visiblePayloadScan heap snapshot key false).map fun payloads =>
      (payloads.length, .visibleScan)

end Stored

section Summary

variable {heap snapshot} {geometry : Geometry}

theorem runPages_flatten {index : Index} {key : GraphId} {entry : DirectoryEntry}
    (found : index.findDirectoryEntry key = some entry) :
    (index.runPages key).flatten =
      (blocksFrom index.main entry.firstBlkno entry.firstOffnum).flatten := by
  rw [Index.runPages, found, blocksFrom]
  dsimp only
  rw [← List.drop_drop]
  cases from' : index.main.drop entry.firstBlkno with
  | nil =>
      have none : index.main[entry.firstBlkno]? = none := by
        rw [List.getElem?_eq_none_iff]
        exact List.drop_eq_nil_iff.mp from'
      simp [none]
  | cons page rest =>
      have here : index.main[entry.firstBlkno]? = some page := by
        rw [← List.head?_drop, from']
        rfl
      simp [here, List.flatten_flatten]

theorem blocksFrom_map {α β : Type} (f : α → β) (pages : List (List (List α)))
    (blkno offnum : Nat) :
    blocksFrom (pages.map (List.map (List.map f))) blkno offnum =
      (blocksFrom pages blkno offnum).map (List.map f) := by
  rw [blocksFrom, blocksFrom, List.getElem?_map, List.map_append, List.map_drop, List.map_flatten,
    List.map_drop]
  cases pages[blkno]? <;> rfl

/-- The directory finds an entry by the run that it stands for. -/
theorem findDirectoryEntry_built {built : List Posting} {index : Index}
    (directory : index.directory = (buildMainRuns geometry built).directory) {key : GraphId}
    {entry : DirectoryEntry} (found : index.findDirectoryEntry key = some entry) :
    ∃ (place : Nat) (run : List Posting), (keyRuns built)[place]? = some run ∧
      runKey run = key ∧ entry.postingCount = run.length ∧
      Located (buildMainRuns geometry built).pages entry ((keyRuns built).take place).flatten run
        ((keyRuns built).drop (place + 1)).flatten := by
  have laid := @buildMainRuns_laid geometry built
  rw [Index.findDirectoryEntry, directory] at found
  obtain ⟨isKey, before, after, split, -⟩ := List.find?_eq_some_iff_append.mp found
  have place : (buildMainRuns geometry built).directory[before.length]? = some entry := by
    rw [split]
    simp
  have keys := congrArg (fun keys => keys[before.length]?) laid.keys
  rw [List.getElem?_map, place, List.getElem?_map] at keys
  obtain ⟨run, isRun, keyed⟩ := Option.map_eq_some_iff.mp keys.symm
  obtain ⟨count, located⟩ := laid.located before.length entry run place isRun
  exact ⟨before.length, run, isRun, by rw [keyed]; exact eq_of_beq isKey, count, located⟩

theorem allVisible_of_safe {stored : Stored} (safe : stored.summarySafe heap snapshot = true)
    {block : Nat} (inside : block < heap.blocks) : heap.allVisible block = true := by
  rw [Stored.summarySafe, Bool.and_eq_true, beq_iff_eq, Heap.countAllVisible] at safe
  have all : (List.range heap.blocks).countP heap.allVisible = (List.range heap.blocks).length := by
    rw [safe.2, List.length_range]
  exact List.countP_eq_length.mp all block (List.mem_range.mpr inside)

/-- An answer from the directory is the number of payloads that the scan of the key
returns.  The heap pages are those the index's TIDs lie on, and a set bit of the
visibility map means that the tuple there is visible. -/
theorem countVisiblePayloads_summary (built : List Posting) (ops : List IndexOp)
    (heap : Heap Snapshot) (snapshot : Snapshot) (key : GraphId) (fetchProperties : Bool)
    (count : Nat)
    (inHeap : ∀ posting ∈ contents built ops, posting.heapTid.block < heap.blocks)
    (bits : fetchProperties = true → ∀ posting ∈ contents built ops,
      heap.allVisible posting.heapTid.block = true →
        heap.fetchRowVersion posting.heapTid snapshot = true)
    (answer : (Stored.run geometry built ops).countVisiblePayloads heap snapshot key =
      some (count, .directorySummary)) :
    ((Stored.run geometry built ops).visiblePayloadScan heap snapshot key fetchProperties).map
      List.length = some count := by
  rw [Stored.countVisiblePayloads] at answer
  split_ifs at answer with safe
  · have allVisible := @allVisible_of_safe _ _ _ _ safe
    rw [Stored.summarySafe] at safe
    simp only [Bool.and_eq_true, List.isEmpty_iff] at safe
    obtain ⟨⟨⟨⟨-, exact⟩, -⟩, noDelta⟩, -⟩ := safe
    obtain ⟨same, alive⟩ := run_countsExact built ops exact
    rw [same] at inHeap bits
    have visible : ∀ posting ∈ built, heap.visible snapshot fetchProperties posting.main = true := by
      intro posting member
      have marked := allVisible (inHeap posting member)
      cases fetchProperties with
      | false => simp [Heap.visible, Posting.main, marked]
      | true => simp [Heap.visible, Posting.main, bits rfl posting member marked]
    have counted : (Stored.run geometry built ops).mainIndex.runCount key = count := by
      cases answer
      rfl
    rw [Stored.visiblePayloadScan, Stored.scanDelta, noDelta, counted, KeyScan.serialMain_eq]
    suffices main : (((((Stored.run geometry built ops).mainIndex.runPages key).flatten.take
        count).filter (heap.visible snapshot fetchProperties))).length = count by
      simpa using main
    cases found : (Stored.run geometry built ops).mainIndex.findDirectoryEntry key with
    | none =>
        rw [Index.runCount, found] at counted
        rw [← counted]
        rfl
    | some entry =>
        obtain ⟨place, run, isRun, -, length, located⟩ :=
          findDirectoryEntry_built (run_directory built ops) found
        have isCount : count = run.length := by
          rw [Index.runCount, found] at counted
          exact counted.symm.trans length
        obtain ⟨own, later, split, isOwn, -⟩ := located.own
        have chain : (Stored.run geometry built ops).mainIndex.main =
            (buildMainRuns geometry built).pages.map (List.map (List.map Posting.main)) := by
          refine (run_main built ops).trans ?_
          rw [compactPages_of_alive alive]
        rw [runPages_flatten found, chain, blocksFrom_map, split, ← List.map_flatten,
          List.flatten_append, isOwn, List.map_append, isCount,
          List.take_left' (List.length_map _), List.filter_eq_self.mpr, List.length_map]
        intro posting member
        obtain ⟨full, inRun, rfl⟩ := List.mem_map.mp member
        refine visible full ((keyRuns_perm built).mem_iff.mp ?_)
        exact List.mem_flatten_of_mem (List.mem_of_getElem? isRun) inRun
  · obtain ⟨payloads, -, impossible⟩ := Option.map_eq_some_iff.mp answer
    cases impossible

theorem countVisiblePayloads_summary_vacuumed :
    let heap : Heap Nat := ⟨1, fun _ => true, fun _ => true, fun _ _ => true⟩
    let stored := Stored.run roomyGeometry [thereEdge, backEdge] [.bulkDelete fun _ => false]
    stored.countVisiblePayloads heap 0 thereEdge.key = some (1, .directorySummary) ∧
      (stored.visiblePayloadScan heap 0 thereEdge.key false).map List.length = some 1 := by
  intro heap stored
  have answer : stored.countVisiblePayloads heap 0 thereEdge.key =
      some (1, .directorySummary) := by
    change (Stored.run roomyGeometry [thereEdge, backEdge]
      [.bulkDelete fun _ => false]).countVisiblePayloads _ _ _ = _
    rw [Stored.run, Stored.build, buildMainRuns_twoKeys]
    decide
  exact ⟨answer, countVisiblePayloads_summary [thereEdge, backEdge] [.bulkDelete fun _ => false]
    heap 0 thereEdge.key false 1 (by decide) (fun impossible => by cases impossible) answer⟩

end Summary

end Count

end Age.Adjacency
