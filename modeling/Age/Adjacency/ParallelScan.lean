import Age.Lib.Tickets
import Age.Adjacency.Visibility

/-!
# Workers that share the scan of a key

`age_adjacency_visible_payload_scan_next` with claim cursors: the pages of the
main chain are claimed one by one, the postings of the delta chain in chunks.
-/

namespace Age.Adjacency

open Tickets

/-- `AgeAdjacencyMainPosting`: blocks of the main chain do not hold their key. -/
structure MainPosting where
  heapTid : Tid
  edgeId : GraphId
  nextVertexId : GraphId
  deriving DecidableEq, Repr

def Posting.main (posting : Posting) : MainPosting :=
  ⟨posting.heapTid, posting.edgeId, posting.nextVertexId⟩

structure DirectoryEntry where
  key : GraphId
  firstBlkno : Nat
  firstOffnum : Nat
  postingCount : Nat
  deriving DecidableEq, Repr

structure DeltaPage where
  minKey : GraphId
  maxKey : GraphId
  postings : List Posting
  deriving DecidableEq, Repr

/-- `age_adjacency_delta_page_may_contain_key` -/
def DeltaPage.mayContainKey (page : DeltaPage) (key : GraphId) : Bool :=
  !page.postings.isEmpty && page.minKey ≤ key && key ≤ page.maxKey

/-- The main chain is a list of pages of blocks; `firstBlkno` counts its pages
and `firstOffnum` the blocks of a page. -/
structure Index where
  main : List (List (List MainPosting))
  directory : List DirectoryEntry
  delta : List DeltaPage
  deriving DecidableEq, Repr

namespace Index

variable (index : Index) (key : GraphId)

def findDirectoryEntry : Option DirectoryEntry :=
  index.directory.find? fun entry => entry.key == key

/-- `main_remaining` after `begin_key` -/
def runCount : Nat :=
  ((index.findDirectoryEntry key).map DirectoryEntry.postingCount).getD 0

/-- The pages from the run of a key on, the first from the block the run starts at. -/
def runPages : List (List MainPosting) :=
  match index.findDirectoryEntry key with
  | none => []
  | some entry =>
      match index.main.drop entry.firstBlkno with
      | [] => []
      | page :: rest => (page.drop entry.firstOffnum).flatten :: rest.map List.flatten

/-- The postings of a key on the delta chain. -/
def deltaPostings : List MainPosting :=
  index.delta.flatMap fun page =>
    if page.mayContainKey key then
      (page.postings.filter fun posting => posting.key == key).map Posting.main
    else []

end Index

section Worker

variable (visible : MainPosting → Bool)

/-- `age_adjacency_visible_payload_scan_next_main` without a claim cursor. -/
def serialMain : Nat → List (List MainPosting) → List MainPosting
  | _, [] => []
  | remaining, page :: rest =>
      if remaining = 0 then []
      else (page.take remaining).filter visible ++
        serialMain (remaining - (page.take remaining).length) rest

/-- `age_adjacency_visible_payload_scan_next_main` with one: a page that another
worker owns is stepped over by its link alone.  `none` when the worker waits for
its next fetch-and-add. -/
def claimedMain : Nat → Claim → List Nat → Nat → List (List MainPosting) →
    Option (List MainPosting)
  | _, _, _, _, [] => some []
  | pageIndex, claim, tickets, remaining, page :: rest =>
      if remaining = 0 then some []
      else
        match claimUntil 1 pageIndex claim tickets with
        | none => none
        | some (claim, tickets) =>
            if claim.start ≤ pageIndex then
              (claimedMain (pageIndex + 1) claim tickets
                (remaining - (page.take remaining).length) rest).map fun later =>
                  (page.take remaining).filter visible ++ later
            else claimedMain (pageIndex + 1) claim tickets remaining rest

/-- `age_adjacency_visible_payload_scan_next_delta` with chunk claims
(`age_adjacency_visible_payload_scan_accept_slice`). -/
def claimedDelta (chunkSize : Nat) : Nat → Claim → List Nat → List MainPosting →
    Option (List MainPosting)
  | _, _, _, [] => some []
  | ordinal, claim, tickets, posting :: rest =>
      match claimUntil chunkSize ordinal claim tickets with
      | none => none
      | some (claim, tickets) =>
          (claimedDelta chunkSize (ordinal + 1) claim tickets rest).map fun later =>
            (if claim.start ≤ ordinal && visible posting then [posting] else []) ++ later

end Worker

/-- One key of one index, as all workers scan it. -/
structure KeyScan where
  index : Index
  key : GraphId
  visible : MainPosting → Bool
  chunkSize : Nat

namespace KeyScan

variable (scan : KeyScan)

/-- `Max(chunk_size, 1)` -/
def claimChunk : Nat := max scan.chunkSize 1

def serial : List MainPosting :=
  serialMain scan.visible (scan.index.runCount scan.key) (scan.index.runPages scan.key) ++
    (scan.index.deltaPostings scan.key).filter scan.visible

def mainOutput (tickets : List Nat) : Option (List MainPosting) :=
  claimedMain scan.visible 0 ⟨0, 0⟩ tickets (scan.index.runCount scan.key)
    (scan.index.runPages scan.key)

def deltaOutput (tickets : List Nat) : Option (List MainPosting) :=
  claimedDelta scan.visible scan.claimChunk 0 ⟨0, 0⟩ tickets (scan.index.deltaPostings scan.key)

/-- What a worker has returned once it waits for no more claims. -/
def output (worker : List Nat × List Nat) : Option (List MainPosting) :=
  match scan.mainOutput worker.1, scan.deltaOutput worker.2 with
  | some main, some delta => some (main ++ delta)
  | _, _ => none

/-- The two shared cursors, and the claims that each worker got from them.
Between two fetch-and-adds a worker depends on nothing but its claims. -/
structure Shared where
  mainCursor : Nat
  deltaCursor : Nat
  workers : List (List Nat × List Nat)

/-- A worker runs on to its next fetch-and-add and does it. -/
def fetchAdd (shared : Shared) (worker : Nat) : Shared :=
  match shared.workers[worker]? with
  | none => shared
  | some (main, delta) =>
      if (scan.mainOutput main).isNone then
        { shared with
          mainCursor := shared.mainCursor + 1
          workers := shared.workers.set worker (main ++ [shared.mainCursor], delta) }
      else if (scan.deltaOutput delta).isNone then
        { shared with
          deltaCursor := shared.deltaCursor + scan.claimChunk
          workers := shared.workers.set worker (main, delta ++ [shared.deltaCursor]) }
      else shared

def interleave (workers : Nat) (schedule : List Nat) : Shared :=
  schedule.foldl scan.fetchAdd ⟨0, 0, List.replicate workers ([], [])⟩

/-- No posting of the main chain after the run stands on a page after the run's
first. -/
def EndsOnFirstPage : Prop :=
  (scan.index.runPages scan.key).tail.flatten.length ≤
    scan.index.runCount scan.key - ((scan.index.runPages scan.key).headD []).length

end KeyScan

section Claims

variable {visible : MainPosting → Bool} {pageIndex : Nat} {claim : Claim} {tickets : List Nat}

theorem emitted_nothing {α : Type} {owns : Nat → Bool} {items : List (List α)} {ordinal : Nat}
    (nothing : ∀ item ∈ items, item = []) : emitted owns ordinal items = [] := by
  induction items generalizing ordinal with
  | nil => rfl
  | cons item rest inductionHypothesis =>
      rw [emitted, nothing item List.mem_cons_self, ite_self, List.nil_append]
      exact inductionHypothesis fun other member => nothing other (List.mem_cons_of_mem _ member)

/-- An item comes before the end of a range that the worker holds or will hold. -/
def Reaches (size : Nat) (claim : Claim) (tickets : List Nat) (ordinal : Nat) : Prop :=
  ordinal < claim.stop ∨ ∃ ticket ∈ tickets, ordinal < ticket + size

theorem Reaches.of_next {size ordinal : Nat} {next : Claim} {left : List Nat}
    (source : next = claim ∨ ∃ ticket ∈ tickets, next = ⟨ticket, ticket + size⟩)
    (kept : ∀ ticket ∈ left, ticket ∈ tickets) (reaches : Reaches size next left ordinal) :
    Reaches size claim tickets ordinal := by
  rcases reaches with inNext | ⟨ticket, member, inside⟩
  · rcases source with rfl | ⟨ticket, member, rfl⟩
    · exact .inl inNext
    · exact .inr ⟨ticket, member, inNext⟩
  · exact .inr ⟨ticket, kept ticket member, inside⟩

/-- One page: a worker emits it if one of its ranges has it, and goes on. -/
theorem claimedMain_step {remaining : Nat} {page : List MainPosting}
    {rest : List (List MainPosting)} {out : List MainPosting}
    (ahead : Ahead 1 pageIndex claim tickets) (more : remaining ≠ 0)
    (run : claimedMain visible pageIndex claim tickets remaining (page :: rest) = some out) :
    ∃ next left later, Ahead 1 (pageIndex + 1) next left ∧
      claimedMain visible (pageIndex + 1) next left
        (if covers 1 claim tickets pageIndex then remaining - (page.take remaining).length
          else remaining) rest = some later ∧
      out = (if covers 1 claim tickets pageIndex then (page.take remaining).filter visible
        else []) ++ later ∧
      (∀ other, pageIndex < other → covers 1 next left other = covers 1 claim tickets other) ∧
      Reaches 1 claim tickets pageIndex ∧
      ∀ other, Reaches 1 next left other → Reaches 1 claim tickets other := by
  rw [claimedMain, if_neg more] at run
  cases taken : claimUntil 1 pageIndex claim tickets with
  | none => simp [taken] at run
  | some held =>
      obtain ⟨next, left⟩ := held
      obtain ⟨aheadNext, beyond, owns, same, source, kept⟩ := ahead.claimUntil Nat.one_pos taken
      simp only [taken] at run
      rw [← owns]
      have reach (other : Nat) (reaches : Reaches 1 next left other) :
          Reaches 1 claim tickets other := reaches.of_next source kept
      split_ifs at run with isOwner
      · obtain ⟨later, restRun, rfl⟩ := Option.map_eq_some_iff.mp run
        exact ⟨next, left, later, aheadNext, by simpa [isOwner] using restRun, by simp [isOwner],
          same, reach _ (.inl beyond), reach⟩
      · exact ⟨next, left, out, aheadNext, by simpa [isOwner] using run, by simp [isOwner], same,
          reach _ (.inl beyond), reach⟩

/-- While the run lasts to the end of the chain, a worker emits the pages it owns. -/
theorem claimedMain_roomy {remaining : Nat} {pages : List (List MainPosting)}
    {out : List MainPosting} (ahead : Ahead 1 pageIndex claim tickets)
    (roomy : pages.flatten.length ≤ remaining)
    (run : claimedMain visible pageIndex claim tickets remaining pages = some out) :
    out = emitted (covers 1 claim tickets) pageIndex (pages.map (List.filter visible)) ∧
      ∀ (place : Nat) page, pages[place]? = some page → page ≠ [] →
        Reaches 1 claim tickets (pageIndex + place) := by
  induction pages generalizing pageIndex claim tickets remaining out with
  | nil =>
      cases run
      exact ⟨rfl, by simp⟩
  | cons page rest inductionHypothesis =>
      by_cases exhausted : remaining = 0
      · have none : ∀ other ∈ page :: rest, other = [] := by
          rw [exhausted, Nat.le_zero, List.length_eq_zero_iff, List.flatten_eq_nil_iff] at roomy
          exact roomy
        rw [claimedMain, if_pos exhausted] at run
        cases run
        refine ⟨(emitted_nothing fun item member => ?_).symm, fun place other found nonempty => ?_⟩
        · obtain ⟨other, isPage, rfl⟩ := List.mem_map.mp member
          rw [none other isPage]
          rfl
        · exact absurd (none other (List.mem_of_getElem? found)) nonempty
      · obtain ⟨next, left, later, aheadNext, restRun, rfl, same, here, reach⟩ :=
          claimedMain_step ahead exhausted run
        rw [List.flatten_cons, List.length_append] at roomy
        have whole : page.take remaining = page := List.take_of_length_le (by omega)
        rw [whole] at restRun ⊢
        have facts := inductionHypothesis aheadNext (by split_ifs <;> omega) restRun
        refine ⟨?_, fun place other found nonempty => ?_⟩
        · rw [List.map_cons, emitted, facts.1,
            emitted_congr fun other (bound : pageIndex + 1 ≤ other) => same other (by omega)]
        · cases place with
          | zero => exact here
          | succ place =>
              have there := reach _ (facts.2 place other found nonempty)
              rwa [show pageIndex + 1 + place = pageIndex + (place + 1) by omega] at there

/-- The pages of a run that ends on its first page or at the end of the chain. -/
theorem claimedMain_run {remaining : Nat} {first : List MainPosting}
    {rest : List (List MainPosting)} {out : List MainPosting}
    (ahead : Ahead 1 pageIndex claim tickets)
    (ends : rest.flatten.length ≤ remaining - first.length)
    (run : claimedMain visible pageIndex claim tickets remaining (first :: rest) = some out) :
    out = emitted (covers 1 claim tickets) pageIndex
        (((first.take remaining) :: rest).map (List.filter visible)) ∧
      ∀ (place : Nat) page, ((first.take remaining) :: rest)[place]? = some page → page ≠ [] →
        Reaches 1 claim tickets (pageIndex + place) := by
  by_cases exhausted : remaining = 0
  · subst exhausted
    have roomy : ((first.take 0) :: rest).flatten.length ≤ 0 := by
      rw [Nat.zero_sub] at ends
      simpa using ends
    refine claimedMain_roomy ahead roomy ?_
    rw [claimedMain, if_pos rfl] at run ⊢
    exact run
  · obtain ⟨next, left, later, aheadNext, restRun, rfl, same, here, reach⟩ :=
      claimedMain_step ahead exhausted run
    have bound : (first.take remaining).length ≤ first.length := by
      rw [List.length_take]
      omega
    have facts := claimedMain_roomy aheadNext (by split_ifs <;> omega) restRun
    refine ⟨?_, fun place other found nonempty => ?_⟩
    · rw [List.map_cons, emitted, facts.1,
        emitted_congr fun other (bound : pageIndex + 1 ≤ other) => same other (by omega)]
    · cases place with
      | zero => exact here
      | succ place =>
          have there := reach _ (facts.2 place other found nonempty)
          rwa [show pageIndex + 1 + place = pageIndex + (place + 1) by omega] at there

/-- A worker that gets every range scans like one without claims. -/
theorem claimedMain_alone {remaining : Nat} {pages : List (List MainPosting)}
    {out : List MainPosting} (ahead : Ahead 1 pageIndex claim tickets)
    (all : ∀ ordinal, pageIndex ≤ ordinal → Reaches 1 claim tickets ordinal →
      covers 1 claim tickets ordinal = true)
    (run : claimedMain visible pageIndex claim tickets remaining pages = some out) :
    out = serialMain visible remaining pages := by
  induction pages generalizing pageIndex claim tickets remaining out with
  | nil =>
      cases run
      rfl
  | cons page rest inductionHypothesis =>
      by_cases exhausted : remaining = 0
      · rw [claimedMain, if_pos exhausted] at run
        cases run
        rw [serialMain, if_pos exhausted]
      · obtain ⟨next, left, later, aheadNext, restRun, rfl, same, here, reach⟩ :=
          claimedMain_step ahead exhausted run
        rw [all pageIndex (Nat.le_refl _) here, if_pos rfl] at restRun
        rw [all pageIndex (Nat.le_refl _) here, if_pos rfl, serialMain, if_neg exhausted]
        rw [inductionHypothesis aheadNext (fun ordinal bound reaches => ?_) restRun]
        rw [same ordinal (by omega)]
        exact all ordinal (by omega) (reach ordinal reaches)

theorem claimedDelta_emits {chunkSize ordinal : Nat} {postings out : List MainPosting}
    (positive : 0 < chunkSize) (ahead : Ahead chunkSize ordinal claim tickets)
    (run : claimedDelta visible chunkSize ordinal claim tickets postings = some out) :
    out = emitted (covers chunkSize claim tickets) ordinal
        (postings.map fun posting => if visible posting then [posting] else []) ∧
      ∀ place < postings.length, Reaches chunkSize claim tickets (ordinal + place) := by
  induction postings generalizing ordinal claim tickets out with
  | nil =>
      cases run
      exact ⟨rfl, by simp⟩
  | cons posting rest inductionHypothesis =>
      rw [claimedDelta] at run
      cases taken : claimUntil chunkSize ordinal claim tickets with
      | none => simp [taken] at run
      | some held =>
          obtain ⟨next, left⟩ := held
          obtain ⟨aheadNext, beyond, owns, same, source, kept⟩ := ahead.claimUntil positive taken
          simp only [taken, owns] at run
          obtain ⟨later, restRun, rfl⟩ := Option.map_eq_some_iff.mp run
          have facts := inductionHypothesis aheadNext restRun
          refine ⟨?_, fun place bound => ?_⟩
          · rw [List.map_cons, emitted, facts.1,
              emitted_congr fun other (bound : ordinal + 1 ≤ other) => same other (by omega)]
            cases covers chunkSize claim tickets ordinal <;> cases visible posting <;> simp
          · cases place with
            | zero => exact Reaches.of_next source kept (.inl beyond)
            | succ place =>
                have there := Reaches.of_next source kept
                  (facts.2 place (by simpa using bound))
                rwa [show ordinal + 1 + place = ordinal + (place + 1) by omega] at there

end Claims

namespace KeyScan

variable {scan : KeyScan}

/-- The claims of the workers are shares of the two cursors. -/
structure Fair (scan : KeyScan) (shared : Shared) : Prop where
  main : Shares 1 shared.mainCursor (shared.workers.map Prod.fst)
  delta : Shares scan.claimChunk shared.deltaCursor (shared.workers.map Prod.snd)

theorem claimChunk_pos : 0 < scan.claimChunk := by
  rw [claimChunk]
  omega

theorem Fair.fetchAdd {shared : Shared} (fair : scan.Fair shared) (worker : Nat) :
    scan.Fair (scan.fetchAdd shared worker) := by
  unfold KeyScan.fetchAdd
  cases found : shared.workers[worker]? with
  | none => exact fair
  | some claims =>
      obtain ⟨main, delta⟩ := claims
      obtain ⟨inside, here⟩ := List.getElem?_eq_some_iff.mp found
      have sameMain : (shared.workers.map Prod.fst).set worker main =
          shared.workers.map Prod.fst := by
        have bound : worker < (shared.workers.map Prod.fst).length := by simpa using inside
        have value : main = (shared.workers.map Prod.fst)[worker] := by simp [here]
        rw [value, List.set_getElem_self]
      have sameDelta : (shared.workers.map Prod.snd).set worker delta =
          shared.workers.map Prod.snd := by
        have bound : worker < (shared.workers.map Prod.snd).length := by simpa using inside
        have value : delta = (shared.workers.map Prod.snd)[worker] := by simp [here]
        rw [value, List.set_getElem_self]
      dsimp only
      split_ifs
      · refine ⟨?_, ?_⟩
        · have given := @Shares.give _ _ _ fair.main worker (by simpa using inside)
          simpa [List.map_set, here] using given
        · rw [List.map_set, sameDelta]
          exact fair.delta
      · refine ⟨?_, ?_⟩
        · rw [List.map_set, sameMain]
          exact fair.main
        · have given := @Shares.give _ _ _ fair.delta worker (by simpa using inside)
          simpa [List.map_set, here] using given
      · exact fair

theorem interleave_fair (workers : Nat) (schedule : List Nat) :
    scan.Fair (scan.interleave workers schedule) := by
  have start : scan.Fair ⟨0, 0, List.replicate workers ([], [])⟩ := by
    constructor <;> simpa using Shares.none workers
  unfold interleave
  generalize (⟨0, 0, List.replicate workers ([], [])⟩ : Shared) = shared at start ⊢
  induction schedule generalizing shared with
  | nil => exact start
  | cons worker rest inductionHypothesis => exact inductionHypothesis _ (start.fetchAdd worker)

theorem fetchAdd_length (shared : Shared) (worker : Nat) :
    (scan.fetchAdd shared worker).workers.length = shared.workers.length := by
  unfold KeyScan.fetchAdd
  split
  · rfl
  · split_ifs <;> simp

theorem interleave_length (workers : Nat) (schedule : List Nat) :
    (scan.interleave workers schedule).workers.length = workers := by
  unfold interleave
  have start : (⟨0, 0, List.replicate workers ([], [])⟩ : Shared).workers.length = workers := by
    simp
  generalize (⟨0, 0, List.replicate workers ([], [])⟩ : Shared) = shared at start ⊢
  induction schedule generalizing shared with
  | nil => exact start
  | cons worker rest inductionHypothesis =>
      exact inductionHypothesis _ ((fetchAdd_length shared worker).trans start)

theorem covers_start (size : Nat) (tickets : List Nat) :
    covers size ⟨0, 0⟩ tickets = ticketCovers size tickets := by
  funext ordinal
  simp [covers]

theorem reaches_lt {size next ordinal : Nat} {tickets : List Nat}
    (below : ∀ ticket ∈ tickets, ticket + size ≤ next)
    (reaches : Reaches size ⟨0, 0⟩ tickets ordinal) : ordinal < next := by
  rcases reaches with inside | ⟨ticket, member, inside⟩
  · exact absurd inside (Nat.not_lt_zero _)
  · have bound := below ticket member
    omega

/-- Shares in items that a worker emits item by item make up all items. -/
theorem shares_perm {α : Type} {size next : Nat} {workers : List (List Nat)}
    (shares : Shares size next workers) {items : List (List α)}
    (reached : ∀ (place : Nat) item, items[place]? = some item → item ≠ [] → place < next) :
    (workers.flatMap fun tickets => emitted (ticketCovers size tickets) 0 items).Perm
      items.flatten := by
  refine emitted_perm fun place item found nonempty => ?_
  rw [Nat.zero_add]
  exact shares.one place (reached place item found nonempty)

theorem serialMain_eq (visible : MainPosting → Bool) (remaining : Nat)
    (pages : List (List MainPosting)) :
    serialMain visible remaining pages = (pages.flatten.take remaining).filter visible := by
  induction pages generalizing remaining with
  | nil => simp [serialMain]
  | cons page rest inductionHypothesis =>
      rw [serialMain]
      split_ifs with exhausted
      · simp [exhausted]
      · rw [inductionHypothesis, List.flatten_cons, List.take_append, List.filter_append]
        congr 3
        rw [List.length_take]
        omega

/-- The main postings of the workers together. -/
theorem main_perm {shared : Shared} (fair : scan.Fair shared)
    (nonempty : shared.workers ≠ [])
    (meets : shared.workers.length ≤ 1 ∨ scan.EndsOnFirstPage)
    {outs : List Nat × List Nat → List MainPosting}
    (finished : ∀ worker ∈ shared.workers, scan.mainOutput worker.1 = some (outs worker)) :
    (shared.workers.flatMap outs).Perm
      (serialMain scan.visible (scan.index.runCount scan.key) (scan.index.runPages scan.key)) := by
  have tickets {worker : List Nat × List Nat} (member : worker ∈ shared.workers) :
      worker.1 ∈ shared.workers.map Prod.fst := List.mem_map_of_mem member
  rcases meets with single | ends
  · obtain ⟨worker, only⟩ : ∃ worker, shared.workers = [worker] := by
      rw [← List.length_eq_one_iff]
      have positive := List.length_pos_iff.mpr nonempty
      omega
    have member : worker ∈ shared.workers := by simp [only]
    have out := claimedMain_alone (fair.main.ahead (tickets member)) (fun ordinal _ reaches => by
      rw [covers_start]
      have bound := reaches_lt (fair.main.below _ (tickets member)) reaches
      have one := fair.main.one ordinal bound
      simpa [only] using one) (finished worker member)
    rw [only, List.flatMap_cons, List.flatMap_nil, List.append_nil, out]
  · unfold mainOutput at finished
    unfold EndsOnFirstPage at ends
    cases pages : scan.index.runPages scan.key with
    | nil =>
        have none : shared.workers.flatMap outs = [] := by
          rw [List.flatMap_eq_nil_iff]
          intro worker member
          have out := finished worker member
          rw [pages, claimedMain] at out
          exact (Option.some.inj out).symm
        rw [none]
        rfl
    | cons first rest =>
        rw [pages, List.headD_cons, List.tail_cons] at ends
        have emits (worker : List Nat × List Nat) (member : worker ∈ shared.workers) :=
          claimedMain_run (fair.main.ahead (tickets member)) ends (pages ▸ finished worker member)
        have outputs : shared.workers.flatMap outs =
            (shared.workers.map Prod.fst).flatMap fun tickets =>
              emitted (ticketCovers 1 tickets) 0
                (((first.take (scan.index.runCount scan.key)) :: rest).map
                  (List.filter scan.visible)) := by
          rw [List.flatMap_map]
          refine List.flatMap_congr fun worker member => ?_
          rw [(emits worker member).1, covers_start]
        have serial : serialMain scan.visible (scan.index.runCount scan.key) (first :: rest) =
            (((first.take (scan.index.runCount scan.key)) :: rest).map
              (List.filter scan.visible)).flatten := by
          rw [serialMain_eq, List.flatten_cons, List.take_append,
            List.take_of_length_le ends, List.filter_append, List.map_cons, List.flatten_cons,
            List.filter_flatten]
        rw [outputs, serial]
        refine shares_perm fair.main fun place item found someItem => ?_
        obtain ⟨worker, member⟩ := List.exists_mem_of_ne_nil _ nonempty
        rw [List.getElem?_map, Option.map_eq_some_iff] at found
        obtain ⟨page, here, rfl⟩ := found
        have reaches := (emits worker member).2 place page here (by
          rintro rfl
          exact someItem rfl)
        rw [Nat.zero_add] at reaches
        exact reaches_lt (fair.main.below _ (tickets member)) reaches

theorem delta_perm {shared : Shared} (fair : scan.Fair shared)
    (nonempty : shared.workers ≠ [])
    {outs : List Nat × List Nat → List MainPosting}
    (finished : ∀ worker ∈ shared.workers, scan.deltaOutput worker.2 = some (outs worker)) :
    (shared.workers.flatMap outs).Perm
      ((scan.index.deltaPostings scan.key).filter scan.visible) := by
  have tickets {worker : List Nat × List Nat} (member : worker ∈ shared.workers) :
      worker.2 ∈ shared.workers.map Prod.snd := List.mem_map_of_mem member
  have emits (worker : List Nat × List Nat) (member : worker ∈ shared.workers) :=
    claimedDelta_emits claimChunk_pos (fair.delta.ahead (tickets member)) (finished worker member)
  have outputs : shared.workers.flatMap outs =
      (shared.workers.map Prod.snd).flatMap fun tickets =>
        emitted (ticketCovers scan.claimChunk tickets) 0
          ((scan.index.deltaPostings scan.key).map fun posting =>
            if scan.visible posting then [posting] else []) := by
    rw [List.flatMap_map]
    refine List.flatMap_congr fun worker member => ?_
    rw [(emits worker member).1, covers_start]
  have serial : (scan.index.deltaPostings scan.key).filter scan.visible =
      ((scan.index.deltaPostings scan.key).map fun posting =>
        if scan.visible posting then [posting] else []).flatten := by
    induction scan.index.deltaPostings scan.key with
    | nil => rfl
    | cons posting rest inductionHypothesis =>
        cases seen : scan.visible posting <;> simp [seen, inductionHypothesis]
  rw [outputs, serial]
  refine shares_perm fair.delta fun place item found _ => ?_
  obtain ⟨worker, member⟩ := List.exists_mem_of_ne_nil _ nonempty
  have inside := (List.getElem?_eq_some_iff.mp found).1
  rw [List.length_map] at inside
  have reaches := (emits worker member).2 place inside
  rw [Nat.zero_add] at reaches
  exact reaches_lt (fair.delta.below _ (tickets member)) reaches

/-- Whatever the interleaving, once all workers are done their outputs together
are those of a serial scan, if there is one worker or if nothing of the main
chain follows the run on a page after its first. -/
theorem interleave_partitions (scan : KeyScan) (workers : Nat) (positive : 0 < workers)
    (meets : workers ≤ 1 ∨ scan.EndsOnFirstPage) (schedule : List Nat)
    (finished : ∀ worker ∈ (scan.interleave workers schedule).workers,
      (scan.output worker).isSome = true) :
    ((scan.interleave workers schedule).workers.flatMap fun worker =>
      (scan.output worker).getD []).Perm scan.serial := by
  have fair := @interleave_fair scan workers schedule
  have length := @interleave_length scan workers schedule
  generalize scan.interleave workers schedule = shared at finished fair length ⊢
  rw [← length] at meets
  have nonempty : shared.workers ≠ [] := by
    rw [← List.length_pos_iff]
    omega
  have both (worker : List Nat × List Nat) (member : worker ∈ shared.workers) :
      scan.mainOutput worker.1 = some ((scan.mainOutput worker.1).getD []) ∧
        scan.deltaOutput worker.2 = some ((scan.deltaOutput worker.2).getD []) ∧
        (scan.output worker).getD [] =
          (scan.mainOutput worker.1).getD [] ++ (scan.deltaOutput worker.2).getD [] := by
    have done := finished worker member
    unfold output at done ⊢
    cases main : scan.mainOutput worker.1 with
    | none => simp [main] at done
    | some mainOut => cases delta : scan.deltaOutput worker.2 with
      | none => simp [main, delta] at done
      | some deltaOut => simp
  have joined : (shared.workers.flatMap fun worker => (scan.output worker).getD []) =
      shared.workers.flatMap fun worker =>
        (scan.mainOutput worker.1).getD [] ++ (scan.deltaOutput worker.2).getD [] :=
    List.flatMap_congr fun worker member => (both worker member).2.2
  rw [joined]
  refine (List.flatMap_append_perm shared.workers _ _).symm.trans ?_
  exact (main_perm fair nonempty meets fun worker member => (both worker member).1).append
    (delta_perm fair nonempty fun worker member => (both worker member).2.1)

/-- Two keys with a posting each, on a page of its own. -/
def twoPages : Index where
  main := [[[⟨⟨0, 1⟩, 1407374883553281, 844424930131970⟩]],
    [[⟨⟨0, 2⟩, 1407374883553282, 844424930131971⟩]]]
  directory := [⟨844424930131969, 0, 0, 1⟩, ⟨844424930131970, 1, 0, 1⟩]
  delta := [⟨844424930131969, 844424930131970, [
    ⟨844424930131969, ⟨0, 3⟩, 1407374883553283, 844424930131972⟩,
    ⟨844424930131970, ⟨0, 4⟩, 1407374883553284, 844424930131973⟩,
    ⟨844424930131969, ⟨0, 5⟩, 1407374883553285, 844424930131974⟩]⟩]

/-- The worker that does not own the page of the first key goes on to the page
of the second with its count untouched. -/
theorem interleave_reads_next_key :
    ¬ ((∀ worker ∈ (interleave ⟨twoPages, 844424930131969, fun _ => true, 1⟩ 2
          [0, 1, 0, 1, 0, 1]).workers,
        (output ⟨twoPages, 844424930131969, fun _ => true, 1⟩ worker).isSome = true) →
      ((interleave ⟨twoPages, 844424930131969, fun _ => true, 1⟩ 2
          [0, 1, 0, 1, 0, 1]).workers.flatMap
        fun worker => (output ⟨twoPages, 844424930131969, fun _ => true, 1⟩ worker).getD []).Perm
          (serial ⟨twoPages, 844424930131969, fun _ => true, 1⟩)) := by
  intro partitions
  have lengths := (partitions (by decide)).length_eq
  revert lengths
  decide

/-- The second key is the last of the chain. -/
theorem interleave_partitions_last :
    ((interleave ⟨twoPages, 844424930131970, fun _ => true, 1⟩ 2 [0, 1, 0, 1, 0]).workers.flatMap
      fun worker => (output ⟨twoPages, 844424930131970, fun _ => true, 1⟩ worker).getD []).Perm
        (serial ⟨twoPages, 844424930131970, fun _ => true, 1⟩) :=
  interleave_partitions ⟨twoPages, 844424930131970, fun _ => true, 1⟩ 2 (by decide)
    (.inr (by unfold EndsOnFirstPage; decide)) [0, 1, 0, 1, 0] (by decide)

end KeyScan

end Age.Adjacency
