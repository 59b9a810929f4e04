import Mathlib.Data.List.SplitBy
import Mathlib.Data.Prod.Lex
import Age.Vle.Traversal
import Age.Adjacency.ParallelScan

/-!
# Building an adjacency index

`age_adjacency_build_main_runs`: postings are sorted, the run of each key is cut
into blocks, the blocks are appended to the pages of the main chain, and the
directory notes where each run starts and how long it is.
-/

namespace Age.Adjacency

open Vle (getGraphidLabelId labelIdIsValid)

abbrev Block := List Posting
abbrev Page := List Block

/-- The sizes that decide where postings go. -/
structure Geometry where
  /-- `age_adjacency_main_run_block_fits` for compact and full blocks -/
  blockFits : Bool → Nat → Bool
  /-- enough exact free space on a main page -/
  pageRoom : Page → Block → Bool
  /-- enough exact free space on a delta page, by its number of postings -/
  deltaRoom : Nat → Bool

section Sorting

/-- `age_adjacency_compare_postings` -/
def sortKey (posting : Posting) : Int ×ₗ Int ×ₗ Int ×ₗ Nat ×ₗ Nat :=
  toLex (posting.key.toInt, toLex (getGraphidLabelId posting.nextVertexId,
    toLex (getGraphidLabelId posting.edgeId,
      toLex (posting.heapTid.block, posting.heapTid.offset))))

def sortPostings (postings : List Posting) : List Posting :=
  postings.mergeSort fun a b => decide (sortKey a ≤ sortKey b)

/-- The runs of the sorted postings, one for each key. -/
def keyRuns (postings : List Posting) : List (List Posting) :=
  (sortPostings postings).splitBy fun a b => a.key == b.key

end Sorting

section Chunks

variable (geometry : Geometry)

/-- The rest of a block: postings with the labels of its first one, while they fit. -/
def takeChunk (compact : Bool) (edgeLabelId nextLabelId : Int) :
    Nat → List Posting → List Posting × List Posting
  | _, [] => ([], [])
  | count, posting :: rest =>
      if geometry.blockFits compact (count + 1) &&
          getGraphidLabelId posting.edgeId == edgeLabelId &&
          getGraphidLabelId posting.nextVertexId == nextLabelId then
        let (chunk, left) := takeChunk compact edgeLabelId nextLabelId (count + 1) rest
        (posting :: chunk, left)
      else ([], posting :: rest)

/-- The blocks of a run; each takes a posting, so the run's length is fuel enough. -/
def chunks : Nat → List Posting → List Block
  | 0, _ => []
  | _, [] => []
  | fuel + 1, posting :: rest =>
      let edgeLabelId := getGraphidLabelId posting.edgeId
      let nextLabelId := getGraphidLabelId posting.nextVertexId
      let compact := labelIdIsValid edgeLabelId && labelIdIsValid nextLabelId
      let (chunk, left) := takeChunk geometry compact edgeLabelId nextLabelId 1 rest
      (posting :: chunk) :: chunks fuel left

variable {geometry}

theorem takeChunk_append (compact : Bool) (edgeLabelId nextLabelId : Int) (count : Nat)
    (postings : List Posting) :
    (takeChunk geometry compact edgeLabelId nextLabelId count postings).1 ++
      (takeChunk geometry compact edgeLabelId nextLabelId count postings).2 = postings := by
  induction postings generalizing count with
  | nil => rfl
  | cons posting rest inductionHypothesis =>
      rw [takeChunk]
      split_ifs
      · simp [inductionHypothesis]
      · rfl

theorem chunks_flatten {fuel : Nat} {postings : List Posting} (enough : postings.length ≤ fuel) :
    (chunks geometry fuel postings).flatten = postings := by
  induction fuel generalizing postings with
  | zero =>
      rw [List.length_eq_zero_iff.mp (Nat.le_zero.mp enough)]
      rfl
  | succ fuel inductionHypothesis =>
      cases postings with
      | nil => rfl
      | cons posting rest =>
          have split := @takeChunk_append geometry
            (labelIdIsValid (getGraphidLabelId posting.edgeId) &&
              labelIdIsValid (getGraphidLabelId posting.nextVertexId))
            (getGraphidLabelId posting.edgeId) (getGraphidLabelId posting.nextVertexId) 1 rest
          rw [chunks]
          generalize takeChunk geometry _ _ _ 1 rest = parts at split ⊢
          obtain ⟨chunk, left⟩ := parts
          dsimp only at split ⊢
          rw [List.length_cons] at enough
          have shorter : left.length ≤ fuel := by
            have lengths := congrArg List.length split
            rw [List.length_append] at lengths
            omega
          rw [List.flatten_cons, inductionHypothesis shorter, List.cons_append, split]

theorem chunks_nonempty {fuel : Nat} {postings : List Posting} :
    ∀ block ∈ chunks geometry fuel postings, block ≠ [] := by
  induction fuel generalizing postings with
  | zero => simp [chunks]
  | succ fuel inductionHypothesis =>
      cases postings with
      | nil => simp [chunks]
      | cons posting rest =>
          rw [chunks]
          intro block member
          rcases List.mem_cons.mp member with rfl | later
          · simp
          · exact inductionHypothesis block later

end Chunks

section Pages

variable (geometry : Geometry)

/-- `age_adjacency_append_item` on the main chain -/
def appendMainBlock (pages : List Page) (block : Block) : List Page :=
  match pages.getLast? with
  | none => [[block]]
  | some last =>
      if geometry.pageRoom last block then pages.dropLast ++ [last ++ [block]]
      else pages ++ [[block]]

/-- The blocks of the chain before a position, and from it on. -/
def blocksBefore {α : Type} (pages : List (List (List α))) (blkno offnum : Nat) :
    List (List α) :=
  (pages.take blkno).flatten ++ (pages[blkno]?.getD []).take offnum

def blocksFrom {α : Type} (pages : List (List (List α))) (blkno offnum : Nat) :
    List (List α) :=
  (pages[blkno]?.getD []).drop offnum ++ (pages.drop (blkno + 1)).flatten

theorem blocks_split {α : Type} (pages : List (List (List α))) (blkno offnum : Nat) :
    blocksBefore pages blkno offnum ++ blocksFrom pages blkno offnum = pages.flatten := by
  have whole : pages[blkno]?.getD [] ++ (pages.drop (blkno + 1)).flatten =
      (pages.drop blkno).flatten := by
    by_cases inside : blkno < pages.length
    · rw [List.getElem?_eq_getElem inside, Option.getD_some, List.drop_eq_getElem_cons inside,
        List.flatten_cons]
    · have outside : pages.length ≤ blkno := Nat.not_lt.mp inside
      rw [List.getElem?_eq_none outside, List.drop_of_length_le outside,
        List.drop_of_length_le (Nat.le_succ_of_le outside)]
      rfl
  rw [blocksBefore, blocksFrom, List.append_assoc, ← List.append_assoc (List.take _ _),
    List.take_append_drop, whole, ← List.flatten_append, List.take_append_drop]

variable {geometry}

theorem appendMainBlock_flatten (pages : List Page) (block : Block) :
    (appendMainBlock geometry pages block).flatten = pages.flatten ++ [block] := by
  unfold appendMainBlock
  cases last : pages.getLast? with
  | none =>
      rw [List.getLast?_eq_none_iff] at last
      simp [last]
  | some page =>
      obtain ⟨init, rfl⟩ := List.getLast?_eq_some_iff.mp last
      dsimp only
      split_ifs <;> simp

/-- A position stays where it is when a block is appended. -/
theorem appendMainBlock_from {pages : List Page} {blkno offnum : Nat} {page : Page}
    (inside : pages[blkno]? = some page) (valid : offnum ≤ page.length) (block : Block) :
    (∃ later, (appendMainBlock geometry pages block)[blkno]? = some later ∧
      offnum ≤ later.length) ∧
    blocksBefore (appendMainBlock geometry pages block) blkno offnum =
      blocksBefore pages blkno offnum ∧
    blocksFrom (appendMainBlock geometry pages block) blkno offnum =
      blocksFrom pages blkno offnum ++ [block] := by
  have before : blocksBefore (appendMainBlock geometry pages block) blkno offnum =
      blocksBefore pages blkno offnum ∧ ∃ later,
        (appendMainBlock geometry pages block)[blkno]? = some later ∧ offnum ≤ later.length := by
    obtain ⟨bound, rfl⟩ := List.getElem?_eq_some_iff.mp inside
    unfold appendMainBlock
    cases last : pages.getLast? with
    | none =>
        rw [List.getLast?_eq_none_iff] at last
        simp [last] at bound
    | some lastPage =>
        obtain ⟨init, rfl⟩ := List.getLast?_eq_some_iff.mp last
        rw [List.length_append, List.length_singleton] at bound
        dsimp only
        rw [List.dropLast_concat, blocksBefore, blocksBefore]
        rcases Nat.lt_or_eq_of_le (Nat.le_of_lt_succ bound) with early | rfl
        · have same (more : List Page) : (init ++ more)[blkno]? = some init[blkno] := by
            rw [List.getElem?_append_left early, List.getElem?_eq_getElem early]
          rw [List.getElem_append_left early] at valid
          split_ifs <;> simp only [same, List.append_assoc,
            List.take_append_of_le_length (Nat.le_of_lt early), true_and] <;>
            exact ⟨_, rfl, valid⟩
        · simp only [List.getElem_concat_length] at valid
          have shorter : (lastPage ++ [block]).take offnum = lastPage.take offnum :=
            List.take_append_of_le_length valid
          split_ifs
          · simp [shorter]
            omega
          · simp
            exact valid
  obtain ⟨sameBefore, later⟩ := before
  refine ⟨later, sameBefore, ?_⟩
  have total := blocks_split (appendMainBlock geometry pages block) blkno offnum
  rw [appendMainBlock_flatten, ← blocks_split pages blkno offnum, sameBefore,
    List.append_assoc] at total
  exact List.append_cancel_left total

theorem appendBlocks_flatten (pages : List Page) (blocks : List Block) :
    (blocks.foldl (appendMainBlock geometry) pages).flatten = pages.flatten ++ blocks := by
  induction blocks generalizing pages with
  | nil => simp
  | cons block rest inductionHypothesis =>
      rw [List.foldl_cons, inductionHypothesis, appendMainBlock_flatten, List.append_assoc]
      rfl

theorem appendBlocks_from {pages : List Page} {blkno offnum : Nat} {page : Page}
    (inside : pages[blkno]? = some page) (valid : offnum ≤ page.length) (blocks : List Block) :
    (∃ later, (blocks.foldl (appendMainBlock geometry) pages)[blkno]? = some later ∧
      offnum ≤ later.length) ∧
    blocksBefore (blocks.foldl (appendMainBlock geometry) pages) blkno offnum =
      blocksBefore pages blkno offnum ∧
    blocksFrom (blocks.foldl (appendMainBlock geometry) pages) blkno offnum =
      blocksFrom pages blkno offnum ++ blocks := by
  induction blocks generalizing pages page with
  | nil => exact ⟨⟨page, inside, valid⟩, rfl, (List.append_nil _).symm⟩
  | cons block rest inductionHypothesis =>
      obtain ⟨⟨later, insideLater, validLater⟩, sameBefore, more⟩ :=
        @appendMainBlock_from geometry _ _ _ _ inside valid block
      obtain ⟨last, before, after⟩ := inductionHypothesis insideLater validLater
      refine ⟨last, before.trans sameBefore, ?_⟩
      rw [List.foldl_cons, after, more, List.append_assoc]
      rfl

/-- Where the last block of the chain stands. -/
def lastBlkno (pages : List Page) : Nat := pages.length - 1

def lastOffnum (pages : List Page) : Nat := (pages.getLast?.getD []).length - 1

theorem appendMainBlock_inserted (pages : List Page) (block : Block) :
    (∃ page, (appendMainBlock geometry pages block)[
        lastBlkno (appendMainBlock geometry pages block)]? = some page ∧
      lastOffnum (appendMainBlock geometry pages block) ≤ page.length) ∧
    blocksBefore (appendMainBlock geometry pages block)
      (lastBlkno (appendMainBlock geometry pages block))
      (lastOffnum (appendMainBlock geometry pages block)) = pages.flatten ∧
    blocksFrom (appendMainBlock geometry pages block)
      (lastBlkno (appendMainBlock geometry pages block))
      (lastOffnum (appendMainBlock geometry pages block)) = [block] := by
  unfold appendMainBlock
  cases last : pages.getLast? with
  | none =>
      rw [List.getLast?_eq_none_iff] at last
      simp [last, lastBlkno, lastOffnum, blocksBefore, blocksFrom]
  | some lastPage =>
      obtain ⟨init, rfl⟩ := List.getLast?_eq_some_iff.mp last
      dsimp only
      split_ifs
      · simp [lastBlkno, lastOffnum, blocksBefore, blocksFrom]
      · -- a page of its own
        generalize init ++ [lastPage] = pages
        simp [lastBlkno, lastOffnum, blocksBefore, blocksFrom]

end Pages

section Runs

variable (geometry : Geometry)

/-- `AgeAdjacencyBuildState` with the main chain that is written from it. -/
structure BuildState where
  pages : List Page
  directory : List DirectoryEntry

def runKey (run : List Posting) : GraphId := (run.head?.map Posting.key).getD 0

def buildRun (state : BuildState) (run : List Posting) : BuildState :=
  match chunks geometry run.length run with
  | [] => state
  | first :: rest =>
      let started := appendMainBlock geometry state.pages first
      { pages := rest.foldl (appendMainBlock geometry) started
        directory := state.directory ++
          [⟨runKey run, lastBlkno started, lastOffnum started, run.length⟩] }

/-- `age_adjacency_build_main_runs` -/
def buildMainRuns (postings : List Posting) : BuildState :=
  (keyRuns postings).foldl (buildRun geometry) ⟨[], []⟩

/-- An entry points at the blocks of its run. -/
structure Located (pages : List Page) (entry : DirectoryEntry)
    (before run after : List Posting) : Prop where
  page : ∃ page, pages[entry.firstBlkno]? = some page ∧ entry.firstOffnum ≤ page.length
  before : (blocksBefore pages entry.firstBlkno entry.firstOffnum).flatten = before
  own : ∃ own later, blocksFrom pages entry.firstBlkno entry.firstOffnum = own ++ later ∧
    own.flatten = run ∧ later.flatten = after

/-- The chain holds the runs one after the other, and the directory their starts. -/
structure Laid (state : BuildState) (runs : List (List Posting)) : Prop where
  nonempty : ∀ block ∈ state.pages.flatten, block ≠ []
  all : state.pages.flatten.flatten = runs.flatten
  keys : state.directory.map DirectoryEntry.key = runs.map runKey
  located : ∀ (place : Nat) entry run, state.directory[place]? = some entry →
    runs[place]? = some run → entry.postingCount = run.length ∧
      Located state.pages entry (runs.take place).flatten run (runs.drop (place + 1)).flatten

variable {geometry}

theorem Located.append {pages : List Page} {entry : DirectoryEntry}
    {before run after : List Posting} (located : Located pages entry before run after)
    (blocks : List Block) :
    Located (blocks.foldl (appendMainBlock geometry) pages) entry before run
      (after ++ blocks.flatten) := by
  obtain ⟨page, inside, valid⟩ := located.page
  obtain ⟨own, later, split, isRun, isAfter⟩ := located.own
  obtain ⟨stays, sameBefore, more⟩ := @appendBlocks_from geometry _ _ _ _ inside valid blocks
  refine ⟨stays, by rw [sameBefore]; exact located.before, own, later ++ blocks, ?_, isRun, ?_⟩
  · rw [more, split, List.append_assoc]
  · rw [List.flatten_append, isAfter]

theorem Laid.buildRun {state : BuildState} {runs : List (List Posting)} (laid : Laid state runs)
    {run : List Posting} (nonempty : run ≠ []) :
    Laid (Adjacency.buildRun geometry state run) (runs ++ [run]) := by
  have whole := @chunks_flatten geometry run.length run (Nat.le_refl _)
  have blocksNonempty := @chunks_nonempty geometry run.length run
  unfold Adjacency.buildRun
  cases blocks : chunks geometry run.length run with
  | nil =>
      rw [blocks] at whole
      exact absurd whole.symm nonempty
  | cons first rest =>
      rw [blocks] at whole blocksNonempty
      dsimp only
      have appended : rest.foldl (appendMainBlock geometry)
          (appendMainBlock geometry state.pages first) =
          (first :: rest).foldl (appendMainBlock geometry) state.pages := rfl
      have sameLength : state.directory.length = runs.length := by
        have lengths := congrArg List.length laid.keys
        simpa using lengths
      refine ⟨?_, ?_, ?_, ?_⟩
      · rw [appended, appendBlocks_flatten]
        intro block member
        rcases List.mem_append.mp member with old | new
        · exact laid.nonempty block old
        · exact blocksNonempty block new
      · rw [appended, appendBlocks_flatten, List.flatten_append, laid.all, whole,
          List.flatten_append, List.flatten_singleton]
      · rw [List.map_append, laid.keys, List.map_append]
        rfl
      · intro place entry other found isRun
        by_cases old : place < runs.length
        · rw [List.getElem?_append_left (sameLength ▸ old)] at found
          rw [List.getElem?_append_left old] at isRun
          obtain ⟨count, located⟩ := laid.located place entry other found isRun
          refine ⟨count, ?_⟩
          have more := @Located.append geometry _ _ _ _ _ located (first :: rest)
          rw [whole] at more
          rw [List.take_append_of_le_length (Nat.le_of_lt old),
            List.drop_append_of_le_length old, List.flatten_append, List.flatten_singleton]
          exact more
        · have bound := (List.getElem?_eq_some_iff.mp isRun).1
          rw [List.length_append, List.length_singleton] at bound
          have here : place = runs.length := by omega
          subst here
          rw [List.getElem?_append_right (Nat.le_of_eq sameLength), sameLength, Nat.sub_self] at found
          rw [List.getElem?_append_right (Nat.le_refl _), Nat.sub_self] at isRun
          cases found
          cases isRun
          refine ⟨rfl, ?_⟩
          obtain ⟨⟨page, inside, valid⟩, before, from'⟩ :=
            @appendMainBlock_inserted geometry state.pages first
          obtain ⟨stays, sameBefore, more⟩ := @appendBlocks_from geometry _ _ _ _ inside valid rest
          refine ⟨stays, ?_, first :: rest, [], ?_, whole, ?_⟩
          · rw [sameBefore, before, laid.all, List.take_left]
          · rw [more, from', List.append_nil]
            rfl
          · rw [List.drop_eq_nil_of_le (by simp)]

theorem buildMainRuns_laid (postings : List Posting) :
    Laid (buildMainRuns geometry postings) (keyRuns postings) := by
  suffices general : ∀ (todo done : List (List Posting)) (state : BuildState),
      (∀ run ∈ todo, run ≠ []) → Laid state done →
      Laid (todo.foldl (Adjacency.buildRun geometry) state) (done ++ todo) by
    refine general (keyRuns postings) [] ⟨[], []⟩ (fun run member => ?_) ?_
    · exact List.ne_nil_of_mem_splitBy member
    · exact ⟨by simp, rfl, rfl, by simp⟩
  intro todo
  induction todo with
  | nil =>
      intro done state _ laid
      simpa using laid
  | cons run rest inductionHypothesis =>
      intro done state nonempty laid
      have next := inductionHypothesis (done ++ [run]) (Adjacency.buildRun geometry state run)
        (fun other member => nonempty other (List.mem_cons_of_mem _ member))
        (laid.buildRun (nonempty run List.mem_cons_self))
      simpa using next

end Runs

end Age.Adjacency
