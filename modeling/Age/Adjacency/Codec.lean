import Age.Adjacency.Contents
import Age.Lib.Bytes

/-!
# How postings are stored

A block of the main chain has the compact form if its postings share valid label ids, which then
stand once in the block; otherwise it has the full form.  An item of the delta chain always is
compact, with the label ids of its page.
-/

namespace Age.Adjacency

open Lib
open Vle (getGraphidLabelId labelIdIsValid)

section Fields

/-- `ItemPointerData`: the high and the low half of the block number, then the offset. -/
def Tid.image (tid : Tid) : Bytes :=
  encodeLE 2 (tid.block / 2 ^ 16) ++ encodeLE 2 (tid.block % 2 ^ 16) ++ encodeLE 2 tid.offset

def readTid (memory : Bytes) (offset : Nat) : Tid :=
  ⟨readLE 2 memory offset * 2 ^ 16 + readLE 2 memory (offset + 2), readLE 2 memory (offset + 4)⟩

/-- Block numbers have 32 bits and offsets 16. -/
def Tid.InRange (tid : Tid) : Prop := tid.block < 2 ^ 32 ∧ tid.offset < 2 ^ 16

/-- `age_adjacency_store_entry_id48` -/
def storeEntryId48 (entryId : Nat) : Bytes := encodeLE 6 entryId

/-- `age_adjacency_load_entry_id48` -/
def loadEntryId48 (memory : Bytes) (offset : Nat) : Nat := readLE 6 memory offset

theorem getGraphidEntryId_lt (gid : GraphId) : getGraphidEntryId gid < 256 ^ 6 :=
  Nat.mod_lt _ (by decide)

@[simp]
theorem length_image (tid : Tid) : tid.image.length = 6 := by simp [Tid.image]

@[simp]
theorem length_storeEntryId48 (entryId : Nat) : (storeEntryId48 entryId).length = 6 :=
  length_encodeLE 6 entryId

theorem readTid_image {tid : Tid} (inRange : tid.InRange) (before after : Bytes) :
    readTid (before ++ tid.image ++ after) before.length = tid := by
  obtain ⟨block, offset⟩ := tid
  obtain ⟨blockFits, offsetFits⟩ := inRange
  dsimp only at blockFits offsetFits
  have high := readLE_append (w := 2) (n := block / 2 ^ 16) before
    (encodeLE 2 (block % 2 ^ 16) ++ encodeLE 2 offset ++ after) (by omega)
  have low := readLE_append (w := 2) (n := block % 2 ^ 16) (before ++ encodeLE 2 (block / 2 ^ 16))
    (encodeLE 2 offset ++ after) (by omega)
  have posid := readLE_append (w := 2) (n := offset)
    (before ++ encodeLE 2 (block / 2 ^ 16) ++ encodeLE 2 (block % 2 ^ 16)) after (by omega)
  simp only [List.length_append, length_encodeLE, List.append_assoc] at high low posid
  simp only [readTid, Tid.image, List.append_assoc, high, low, posid, Tid.mk.injEq, and_true]
  omega

theorem loadEntryId48_store (gid : GraphId) (before after : Bytes) :
    loadEntryId48 (before ++ storeEntryId48 (getGraphidEntryId gid) ++ after) before.length =
      getGraphidEntryId gid :=
  readLE_append before after (getGraphidEntryId_lt gid)

end Fields

section Blocks

/-- `AgeAdjacencyMainRunBlockData`, without its filters -/
structure MainRunBlock where
  postingCount : Nat
  /-- `AGE_ADJACENCY_MAIN_BLOCK_COMPACT` is set in `flags`. -/
  compact : Bool
  edgeLabelId : Int
  nextLabelId : Int
  data : Bytes

/-- `age_adjacency_main_run_block_can_compact`, with the label ids that it gives out -/
def mainRunBlockCanCompact : List Posting → Option (Int × Int)
  | [] => none
  | first :: rest =>
      let edgeLabelId := getGraphidLabelId first.edgeId
      let nextLabelId := getGraphidLabelId first.nextVertexId
      if !labelIdIsValid edgeLabelId || !labelIdIsValid nextLabelId then none
      else if rest.any fun posting => getGraphidLabelId posting.edgeId != edgeLabelId ||
          getGraphidLabelId posting.nextVertexId != nextLabelId then none
      else some (edgeLabelId, nextLabelId)

/-- `age_adjacency_main_run_block_size`: a header of 384 bytes, then 18 or 24 bytes a posting -/
def mainRunBlockSize (compact : Bool) (postingCount : Nat) : Nat :=
  384 + (if compact then 18 else 24) * postingCount

/-- `age_adjacency_main_run_block_fits`: a page has 8112 usable bytes, and `MAXALIGN` rounds up to
eight. -/
def mainRunBlockFits (compact : Bool) (postingCount : Nat) : Bool :=
  postingCount != 0 && postingCount ≤ 65535 &&
    (mainRunBlockSize compact postingCount + 7) / 8 * 8 + 4 ≤ 8112

/-- `AgeAdjacencyMainCompactPostingData` -/
def Posting.compactImage (posting : Posting) : Bytes :=
  posting.heapTid.image ++ storeEntryId48 (getGraphidEntryId posting.edgeId) ++
    storeEntryId48 (getGraphidEntryId posting.nextVertexId)

/-- `AgeAdjacencyMainPostingData`, with two bytes of padding after the TID -/
def Posting.fullImage (posting : Posting) : Bytes :=
  posting.heapTid.image ++ [0, 0] ++ encodeLE 8 posting.edgeId.toUInt64.toNat ++
    encodeLE 8 posting.nextVertexId.toUInt64.toNat

/-- The block of `age_adjacency_append_main_run_block`. -/
def formMainRunBlock (postings : List Posting) : MainRunBlock :=
  match mainRunBlockCanCompact postings with
  | some (edgeLabelId, nextLabelId) =>
      ⟨postings.length % 2 ^ 16, true, edgeLabelId, nextLabelId,
        postings.flatMap Posting.compactImage⟩
  | none => ⟨postings.length % 2 ^ 16, false, 0, 0, postings.flatMap Posting.fullImage⟩

/-- `age_adjacency_main_run_block_get_posting`; `none` when `make_graphid` raises an error or the
index is past the last posting. -/
def MainRunBlock.getPosting (block : MainRunBlock) (postingIndex : Nat) (key : GraphId) :
    Option Posting :=
  if block.postingCount ≤ postingIndex then none
  else if block.compact then do
    let item := block.data.drop (18 * postingIndex)
    let edgeId ← makeGraphid block.edgeLabelId (loadEntryId48 item 6)
    let nextVertexId ← makeGraphid block.nextLabelId (loadEntryId48 item 12)
    return ⟨key, readTid item 0, edgeId, nextVertexId⟩
  else
    let item := block.data.drop (24 * postingIndex)
    some ⟨key, readTid item 0, (UInt64.ofNat (readLE 8 item 8)).toInt64,
      (UInt64.ofNat (readLE 8 item 16)).toInt64⟩

/-- Items of one size are found by their index. -/
theorem drop_flatMap {α : Type*} {image : α → Bytes} {size : Nat}
    (sizes : ∀ item, (image item).length = size) {items : List α} {index : Nat}
    (inRange : index < items.length) :
    (items.flatMap image).drop (size * index) =
      image items[index] ++ (items.drop (index + 1)).flatMap image := by
  have before : ((items.take index).flatMap image).length = size * index := by
    rw [List.length_flatMap, List.map_congr_left fun item _ => sizes item, List.map_const',
      List.sum_replicate, List.length_take_of_le (Nat.le_of_lt inRange), smul_eq_mul, Nat.mul_comm]
  conv_lhs => rw [← List.take_append_drop index items, List.flatMap_append]
  rw [List.drop_left' before, List.drop_eq_getElem_cons inRange, List.flatMap_cons]

@[simp]
theorem length_compactImage (posting : Posting) : posting.compactImage.length = 18 := by
  simp [Posting.compactImage]

@[simp]
theorem length_fullImage (posting : Posting) : posting.fullImage.length = 24 := by
  simp [Posting.fullImage]

theorem toInt64_ofNat_toNat (gid : GraphId) : (UInt64.ofNat gid.toUInt64.toNat).toInt64 = gid := by
  rw [UInt64.ofNat_toNat]
  rfl

/-- All postings of a compact block have its label ids. -/
theorem mainRunBlockCanCompact_some {postings : List Posting} {edgeLabelId nextLabelId : Int}
    (compact : mainRunBlockCanCompact postings = some (edgeLabelId, nextLabelId)) :
    labelIdIsValid edgeLabelId = true ∧ labelIdIsValid nextLabelId = true ∧
      ∀ posting ∈ postings, getGraphidLabelId posting.edgeId = edgeLabelId ∧
        getGraphidLabelId posting.nextVertexId = nextLabelId := by
  cases postings with
  | nil => cases compact
  | cons first rest =>
      rw [mainRunBlockCanCompact] at compact
      split_ifs at compact with invalid differ
      cases compact
      simp only [Bool.or_eq_true, Bool.not_eq_true', not_or, Bool.not_eq_false] at invalid
      refine ⟨invalid.1, invalid.2, fun posting inside => ?_⟩
      rcases List.mem_cons.1 inside with rfl | later
      · exact ⟨rfl, rfl⟩
      · have same := fun different => differ (List.any_eq_true.2 ⟨posting, later, different⟩)
        simpa [not_or] using same

theorem makeGraphid_getGraphidEntryId {gid : GraphId} {labelId : Int}
    (valid : labelIdIsValid labelId = true) (isLabel : getGraphidLabelId gid = labelId) :
    makeGraphid labelId (getGraphidEntryId gid) = some gid := by
  rw [← isLabel, makeGraphid_parts, isLabel, if_pos valid]

theorem readCompact {posting : Posting} (inRange : posting.heapTid.InRange) (rest : Bytes) :
    readTid (posting.compactImage ++ rest) 0 = posting.heapTid ∧
      loadEntryId48 (posting.compactImage ++ rest) 6 = getGraphidEntryId posting.edgeId ∧
      loadEntryId48 (posting.compactImage ++ rest) 12 = getGraphidEntryId posting.nextVertexId := by
  have tid := readTid_image inRange [] (storeEntryId48 (getGraphidEntryId posting.edgeId) ++
    storeEntryId48 (getGraphidEntryId posting.nextVertexId) ++ rest)
  have edge := loadEntryId48_store posting.edgeId posting.heapTid.image
    (storeEntryId48 (getGraphidEntryId posting.nextVertexId) ++ rest)
  have next := loadEntryId48_store posting.nextVertexId
    (posting.heapTid.image ++ storeEntryId48 (getGraphidEntryId posting.edgeId)) rest
  simp only [List.length_append, length_image, length_storeEntryId48, List.nil_append,
    List.length_nil, List.append_assoc] at tid edge next
  simp only [Posting.compactImage, List.append_assoc]
  exact ⟨tid, edge, next⟩

theorem readFull {posting : Posting} (inRange : posting.heapTid.InRange) (rest : Bytes) :
    readTid (posting.fullImage ++ rest) 0 = posting.heapTid ∧
      readLE 8 (posting.fullImage ++ rest) 8 = posting.edgeId.toUInt64.toNat ∧
      readLE 8 (posting.fullImage ++ rest) 16 = posting.nextVertexId.toUInt64.toNat := by
  have tid := readTid_image inRange [] ([0, 0] ++ encodeLE 8 posting.edgeId.toUInt64.toNat ++
    encodeLE 8 posting.nextVertexId.toUInt64.toNat ++ rest)
  have edge := readLE_append (w := 8) (posting.heapTid.image ++ [0, 0])
    (encodeLE 8 posting.nextVertexId.toUInt64.toNat ++ rest) posting.edgeId.toUInt64.toNat_lt
  have next := readLE_append (w := 8) (posting.heapTid.image ++ [0, 0] ++
    encodeLE 8 posting.edgeId.toUInt64.toNat) rest posting.nextVertexId.toUInt64.toNat_lt
  simp only [List.length_append, length_image, length_encodeLE, List.nil_append, List.length_nil,
    List.length_cons, List.append_assoc] at tid edge next
  simp only [Posting.fullImage, List.append_assoc]
  exact ⟨tid, edge, next⟩

/-- Every posting of a block that fits on a page is read as it was put there. -/
theorem formMainRunBlock_getPosting {postings : List Posting}
    (fits : mainRunBlockFits (mainRunBlockCanCompact postings).isSome postings.length = true)
    (tids : ∀ posting ∈ postings, posting.heapTid.InRange) (key : GraphId) :
    (formMainRunBlock postings).postingCount = postings.length ∧
      ∀ index (_ : index < postings.length), (formMainRunBlock postings).getPosting index key =
        some { postings[index] with key := key } := by
  simp only [mainRunBlockFits, Bool.and_eq_true, decide_eq_true_eq] at fits
  have small : postings.length % 2 ^ 16 = postings.length := by omega
  unfold formMainRunBlock
  split
  · rename_i edgeLabelId nextLabelId compact
    obtain ⟨edgeValid, nextValid, labels⟩ := mainRunBlockCanCompact_some compact
    refine ⟨small, fun index inRange => ?_⟩
    obtain ⟨edgeLabel, nextLabel⟩ := labels _ (List.getElem_mem inRange)
    obtain ⟨tid, edge, next⟩ := readCompact (tids _ (List.getElem_mem inRange))
      ((postings.drop (index + 1)).flatMap Posting.compactImage)
    rw [MainRunBlock.getPosting, small, if_neg (Nat.not_le.2 inRange), if_pos rfl]
    dsimp only
    rw [drop_flatMap length_compactImage inRange, tid, edge, next,
      makeGraphid_getGraphidEntryId edgeValid edgeLabel,
      makeGraphid_getGraphidEntryId nextValid nextLabel]
    rfl
  · refine ⟨small, fun index inRange => ?_⟩
    obtain ⟨tid, edge, next⟩ := readFull (tids _ (List.getElem_mem inRange))
      ((postings.drop (index + 1)).flatMap Posting.fullImage)
    rw [MainRunBlock.getPosting, small, if_neg (Nat.not_le.2 inRange), if_neg Bool.false_ne_true]
    dsimp only
    rw [drop_flatMap length_fullImage inRange, tid, edge, next, toInt64_ofNat_toNat,
      toInt64_ofNat_toNat]

/-- The build's choice of a form is the block's own. -/
theorem isSome_canCompact {first : Posting} {rest : List Posting}
    (labels : ∀ posting ∈ rest, getGraphidLabelId posting.edgeId = getGraphidLabelId first.edgeId ∧
      getGraphidLabelId posting.nextVertexId = getGraphidLabelId first.nextVertexId) :
    (mainRunBlockCanCompact (first :: rest)).isSome =
      (labelIdIsValid (getGraphidLabelId first.edgeId) &&
        labelIdIsValid (getGraphidLabelId first.nextVertexId)) := by
  have same : (rest.any fun posting =>
      getGraphidLabelId posting.edgeId != getGraphidLabelId first.edgeId ||
        getGraphidLabelId posting.nextVertexId != getGraphidLabelId first.nextVertexId) = false := by
    rw [List.any_eq_false]
    intro posting inside
    obtain ⟨edge, next⟩ := labels posting inside
    simp [edge, next]
  rw [mainRunBlockCanCompact, same]
  cases labelIdIsValid (getGraphidLabelId first.edgeId) <;>
    cases labelIdIsValid (getGraphidLabelId first.nextVertexId) <;> rfl

theorem takeChunk_fits {geometry : Geometry} (sizes : geometry.blockFits = mainRunBlockFits)
    {compact : Bool} {edgeLabelId nextLabelId : Int} {count : Nat} {postings : List Posting}
    (fits : mainRunBlockFits compact count = true) :
    mainRunBlockFits compact
        (count + (takeChunk geometry compact edgeLabelId nextLabelId count postings).1.length) =
      true ∧
    ∀ posting ∈ (takeChunk geometry compact edgeLabelId nextLabelId count postings).1,
      getGraphidLabelId posting.edgeId = edgeLabelId ∧
        getGraphidLabelId posting.nextVertexId = nextLabelId := by
  induction postings generalizing count with
  | nil => exact ⟨fits, List.forall_mem_nil _⟩
  | cons posting rest ih =>
      rw [takeChunk]
      split_ifs with takes
      · simp only [Bool.and_eq_true, beq_iff_eq, sizes] at takes
        obtain ⟨⟨more, edge⟩, next⟩ := takes
        obtain ⟨all, labels⟩ := ih more
        refine ⟨?_, fun other inside => ?_⟩
        · rw [List.length_cons, Nat.add_comm _ 1, ← Nat.add_assoc]
          exact all
        · rcases List.mem_cons.1 inside with rfl | later
          · exact ⟨edge, next⟩
          · exact labels other later
      · exact ⟨fits, List.forall_mem_nil _⟩

/-- The blocks of the build fit on a page in the form that they take. -/
theorem chunks_fit {geometry : Geometry} (sizes : geometry.blockFits = mainRunBlockFits)
    {fuel : Nat} {postings : List Posting} :
    ∀ block ∈ chunks geometry fuel postings,
      mainRunBlockFits (mainRunBlockCanCompact block).isSome block.length = true := by
  induction fuel generalizing postings with
  | zero => exact nofun
  | succ fuel ih =>
      cases postings with
      | nil => exact nofun
      | cons first rest =>
          have single (compact : Bool) : mainRunBlockFits compact 1 = true := by
            cases compact <;> rfl
          obtain ⟨fits, labels⟩ := @takeChunk_fits geometry sizes
            (labelIdIsValid (getGraphidLabelId first.edgeId) &&
              labelIdIsValid (getGraphidLabelId first.nextVertexId))
            (getGraphidLabelId first.edgeId) (getGraphidLabelId first.nextVertexId) 1 rest (single _)
          intro block inside
          rw [chunks] at inside
          rcases List.mem_cons.1 inside with rfl | later
          · rw [isSome_canCompact labels, List.length_cons, Nat.add_comm]
            exact fits
          · exact ih block later

/-- Every position of every block that the build cuts a run into is read as the posting there. -/
theorem chunks_getPosting {geometry : Geometry} (sizes : geometry.blockFits = mainRunBlockFits)
    {run : List Posting} (tids : ∀ posting ∈ run, posting.heapTid.InRange) (key : GraphId) :
    ∀ block ∈ chunks geometry run.length run,
      (formMainRunBlock block).postingCount = block.length ∧
        ∀ index (_ : index < block.length), (formMainRunBlock block).getPosting index key =
          some { block[index] with key := key } := by
  intro block inside
  refine formMainRunBlock_getPosting (chunks_fit sizes block inside) (fun posting isPosting => ?_) key
  refine tids posting ?_
  rw [← @chunks_flatten geometry run.length run (Nat.le_refl _)]
  exact List.mem_flatten_of_mem inside isPosting

/-- A run of the edges 3.1 and 3.2 from vertex 1.1, which go into one compact block -/
def sampleRun : List Posting :=
  [⟨281474976710657, ⟨70000, 1⟩, 844424930131969, 281474976710658⟩,
    ⟨281474976710657, ⟨70000, 2⟩, 844424930131970, 281474976710659⟩]

def pageGeometry : Geometry := ⟨mainRunBlockFits, fun _ _ => true, fun _ => true⟩

theorem chunks_getPosting_compact :
    chunks pageGeometry sampleRun.length sampleRun = [sampleRun] ∧
      (formMainRunBlock sampleRun).compact = true ∧
      (formMainRunBlock sampleRun).getPosting 1 281474976710657 = sampleRun[1]? := by
  have cut : chunks pageGeometry sampleRun.length sampleRun = [sampleRun] := by rfl
  have tids : ∀ posting ∈ sampleRun, posting.heapTid.InRange := by
    unfold Tid.InRange
    decide
  have block : sampleRun ∈ chunks pageGeometry sampleRun.length sampleRun :=
    cut ▸ List.mem_singleton_self _
  exact ⟨cut, by rfl, (chunks_getPosting rfl tids 281474976710657 sampleRun block).2 1 (by decide)⟩

end Blocks

section DeltaItems

/-- `AgeAdjacencyDeltaCompactPostingData` as it is laid out, in 24 bytes -/
def DeltaCompactPosting.image (delta : DeltaCompactPosting) : Bytes :=
  storeEntryId48 delta.keyEntryId ++ delta.heapTid.image ++ storeEntryId48 delta.edgeEntryId ++
    storeEntryId48 delta.nextEntryId

def readDelta (item : Bytes) : DeltaCompactPosting :=
  ⟨loadEntryId48 item 0, readTid item 6, loadEntryId48 item 12, loadEntryId48 item 18⟩

/-- The delta chain read back: each item of each page; `none` when one of them cannot be read. -/
def readDeltaPages (pages : List StoredDeltaPage) : Option (List Posting) :=
  (pages.mapM fun page : StoredDeltaPage => (page.postings.map DeltaCompactPosting.image).mapM fun item =>
    page.getPosting (readDelta item)).map List.flatten

theorem readDelta_image {posting : Posting} (inRange : posting.heapTid.InRange) :
    readDelta posting.formDelta.image = posting.formDelta := by
  have key := loadEntryId48_store posting.key [] (posting.heapTid.image ++
    storeEntryId48 (getGraphidEntryId posting.edgeId) ++
    storeEntryId48 (getGraphidEntryId posting.nextVertexId))
  have tid := readTid_image inRange (storeEntryId48 (getGraphidEntryId posting.key))
    (storeEntryId48 (getGraphidEntryId posting.edgeId) ++
      storeEntryId48 (getGraphidEntryId posting.nextVertexId))
  have edge := loadEntryId48_store posting.edgeId
    (storeEntryId48 (getGraphidEntryId posting.key) ++ posting.heapTid.image)
    (storeEntryId48 (getGraphidEntryId posting.nextVertexId))
  have next := loadEntryId48_store posting.nextVertexId
    (storeEntryId48 (getGraphidEntryId posting.key) ++ posting.heapTid.image ++
      storeEntryId48 (getGraphidEntryId posting.edgeId)) []
  simp only [List.length_append, length_image, length_storeEntryId48, List.nil_append,
    List.length_nil, List.append_nil, List.append_assoc] at key tid edge next
  simp only [readDelta, DeltaCompactPosting.image, Posting.formDelta, List.append_assoc, key, tid,
    edge, next]

/-- A page is read back if all of its postings have valid labels. -/
theorem StoredDeltaPage.Holds.read {page : StoredDeltaPage} {postings : List Posting}
    (holds : page.Holds postings) (tids : ∀ posting ∈ postings, posting.heapTid.InRange) :
    ((page.postings.map DeltaCompactPosting.image).mapM fun item =>
        page.getPosting (readDelta item)) =
      if ∀ posting ∈ postings, posting.labelsValid = true then some postings else none := by
  have each : ∀ posting ∈ postings,
      page.getPosting (readDelta posting.formDelta.image) =
        if posting.labelsValid then some posting else none := by
    intro posting inside
    rw [readDelta_image (tids posting inside), getPosting_formDelta (holds.labels posting inside)]
  rw [holds.forms]
  clear holds tids
  induction postings with
  | nil => rfl
  | cons posting rest ih =>
      rw [List.map_cons, List.map_cons, List.mapM_cons, each posting List.mem_cons_self,
        ih fun other inside => each other (List.mem_cons_of_mem _ inside)]
      simp only [List.forall_mem_cons]
      by_cases here : posting.labelsValid = true
      · by_cases later : ∀ other ∈ rest, other.labelsValid = true
        · rw [if_pos here, if_pos later, if_pos ⟨here, later⟩]
          rfl
        · rw [if_pos here, if_neg later, if_neg fun both => later both.2]
          rfl
      · have invalid : ¬(posting.labelsValid = true ∧
            ∀ other ∈ rest, other.labelsValid = true) := fun both => here both.1
        rw [if_neg here, if_neg invalid]
        rfl

/-- The whole chain is. -/
theorem HoldsAll.read {pages : List StoredDeltaPage} {postings : List Posting}
    (holds : HoldsAll pages postings) (tids : ∀ posting ∈ postings, posting.heapTid.InRange) :
    readDeltaPages pages =
      if ∀ posting ∈ postings, posting.labelsValid = true then some postings else none := by
  obtain ⟨held, rfl, each, rfl⟩ := holds
  induction held with
  | nil =>
      rw [if_pos fun _ inside => nomatch inside]
      rfl
  | cons pair rest ih =>
      rw [List.flatMap_cons] at tids ⊢
      have here := (each pair List.mem_cons_self).read fun posting inside =>
        tids posting (List.mem_append_left _ inside)
      have later := ih (fun other inside => each other (List.mem_cons_of_mem _ inside))
        fun posting inside => tids posting (List.mem_append_right _ inside)
      rw [readDeltaPages] at later ⊢
      rw [List.map_cons, List.mapM_cons, here]
      simp only [List.forall_mem_append]
      by_cases valid : ∀ posting ∈ pair.2, posting.labelsValid = true
      · rw [if_pos valid]
        by_cases others : ∀ posting ∈ rest.flatMap Prod.snd, posting.labelsValid = true
        · rw [if_pos others] at later
          obtain ⟨lists, read, joined⟩ := Option.map_eq_some_iff.1 later
          rw [if_pos ⟨valid, others⟩]
          simp only [read, bind, Option.bind, pure, Option.map_some, List.flatten_cons, joined]
        · rw [if_neg others, Option.map_eq_none_iff] at later
          rw [if_neg fun both => others both.2]
          simp only [later, bind, Option.bind, Option.map_none]
      · rw [if_neg valid, if_neg fun both => valid both.1]
        rfl

/-- What was inserted is read back exactly if all of its labels are valid; in any case a page has
postings of its own labels only. -/
theorem insert_readDeltaPages (geometry : Geometry) (built inserted : List Posting)
    (tids : ∀ posting ∈ inserted, posting.heapTid.InRange) :
    (readDeltaPages (Stored.run geometry built (inserted.map IndexOp.insert)).delta =
          some inserted ∧
        HoldsAll (Stored.run geometry built (inserted.map IndexOp.insert)).delta inserted) ↔
      ∀ posting ∈ inserted, posting.labelsValid = true := by
  have all : contents [] (inserted.map IndexOp.insert) = inserted := by
    suffices general : ∀ start, contents start (inserted.map IndexOp.insert) = start ++ inserted from
      general []
    clear tids
    induction inserted with
    | nil => exact fun start => (List.append_nil start).symm
    | cons posting rest ih =>
        intro start
        rw [List.map_cons, contents, List.foldl_cons]
        refine (ih _).trans ?_
        rw [contentsStep, List.append_assoc]
        rfl
  have holds := @run_delta geometry built (inserted.map IndexOp.insert)
  rw [all] at holds
  rw [holds.read tids]
  constructor
  · rintro ⟨read, _⟩
    by_contra invalid
    rw [if_neg invalid] at read
    cases read
  · intro valid
    exact ⟨if_pos valid, holds⟩

theorem insert_readDeltaPages_labels :
    (∀ posting ∈ sampleRun, posting.heapTid.InRange) ∧
      readDeltaPages (Stored.run pageGeometry [] (sampleRun.map IndexOp.insert)).delta =
        some sampleRun := by
  have tids : ∀ posting ∈ sampleRun, posting.heapTid.InRange := by
    unfold Tid.InRange
    decide
  exact ⟨tids, ((insert_readDeltaPages pageGeometry [] sampleRun tids).2 (by decide)).1⟩

/-- An edge id without a label is taken, and its page cannot be read any more. -/
theorem not_insert_readDeltaPages :
    let inserted : List Posting := [⟨281474976710657, ⟨0, 1⟩, 5, 281474976710658⟩]
    let delta := (Stored.run pageGeometry [] (inserted.map IndexOp.insert)).delta
    readDeltaPages delta = none ∧ ¬(readDeltaPages delta = some inserted ∧ HoldsAll delta inserted) := by
  intro inserted delta
  have unread : readDeltaPages delta = none := by rfl
  refine ⟨unread, fun both => ?_⟩
  rw [unread] at both
  cases both.1

end DeltaItems

end Age.Adjacency
