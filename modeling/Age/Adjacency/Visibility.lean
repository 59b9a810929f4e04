import Mathlib.Data.List.Perm.Basic
import Mathlib.Data.List.Nodup
import Mathlib.Data.List.Dedup

/-!
# Which edges an adjacency scan sees

The edge heap as line pointers with HOT chains, an index over it that is built,
takes postings and loses dead ones, and `age_adjacency_posting_visible_payload`,
which asks the visibility map or fetches the version at the very TID of the
posting.  An index that keeps its postings in a list stands for all that an
index over the heap ought to hold.
-/

namespace Age.Adjacency

abbrev GraphId := Int64

structure Tid where
  block : Nat
  offset : Nat
  deriving DecidableEq, Repr

/-- A row version of an edge; `key` and `nextVertexId` are its indexed columns.
A HOT update links to the new version and makes it heap-only. -/
structure Version where
  key : GraphId
  edgeId : GraphId
  nextVertexId : GraphId
  properties : Nat
  xmin : Nat
  xmax : Option Nat
  heapOnly : Bool
  next : Option Tid
  deriving DecidableEq, Repr

inductive LinePointer where
  | normal (version : Version)
  | redirect (target : Tid)
  deriving DecidableEq, Repr

/-- `AgeAdjacencyPostingData` -/
structure Posting where
  key : GraphId
  heapTid : Tid
  edgeId : GraphId
  nextVertexId : GraphId
  deriving DecidableEq, Repr

/-- `AgeAdjacencyPayload` -/
structure Payload where
  heapTid : Tid
  edgeId : GraphId
  nextVertexId : GraphId
  properties : Option Nat
  deriving DecidableEq, Repr

/-- What the heap asks of an index, where `dead` tells the TIDs that a vacuum takes away. -/
class IndexAm (Index : Type) where
  build : List Posting → Index
  insert : Index → Posting → Index
  bulkDelete : Index → (dead : Tid → Bool) → Index

/-- An index that holds what it is given. -/
instance : IndexAm (List Posting) where
  build postings := postings
  insert postings posting := postings ++ [posting]
  bulkDelete postings dead := postings.filter fun posting => !dead posting.heapTid

/-- Transactions commit one after the other, at the times `1, 2, ..., now`.
Snapshots before `horizon` are gone. -/
structure Database (Index : Type) where
  now : Nat
  horizon : Nat
  lines : List (Tid × LinePointer)
  allVisible : List Nat
  index : Option Index

def Database.init {Index : Type} : Database Index := ⟨0, 0, [], [], none⟩

section Snapshot

variable {Index : Type}

/-- The version is visible to the snapshot of a time. -/
def Version.visibleTo (version : Version) (snapshot : Nat) : Bool :=
  version.xmin ≤ snapshot && version.xmax.all fun deleted => snapshot < deleted

/-- No snapshot from the horizon on sees the version. -/
def Version.deadTo (version : Version) (horizon : Nat) : Bool :=
  version.xmax.any fun deleted => deleted ≤ horizon

/-- What a caller reads of an edge. -/
structure Row where
  edgeId : GraphId
  nextVertexId : GraphId
  properties : Option Nat
  deriving DecidableEq, Repr

def Payload.row (payload : Payload) : Row :=
  ⟨payload.edgeId, payload.nextVertexId, payload.properties⟩

def Version.row (version : Version) (fetchProperties : Bool) : Row :=
  ⟨version.edgeId, version.nextVertexId, if fetchProperties then some version.properties else none⟩

/-- `table_tuple_fetch_row_version` -/
def fetchRowVersion (lines : List (Tid × LinePointer)) (tid : Tid) (snapshot : Nat) :
    Option Version :=
  match lines.lookup tid with
  | some (.normal version) => if version.visibleTo snapshot then some version else none
  | _ => none

/-- `age_adjacency_posting_visible_payload` without terminal filters -/
def Database.postingVisiblePayload (database : Database Index) (fetchProperties : Bool)
    (snapshot : Nat) (posting : Posting) : Option Payload :=
  if !fetchProperties && database.allVisible.contains posting.heapTid.block then
    some ⟨posting.heapTid, posting.edgeId, posting.nextVertexId, none⟩
  else
    (fetchRowVersion database.lines posting.heapTid snapshot).map fun version =>
      ⟨posting.heapTid, posting.edgeId, posting.nextVertexId,
        if fetchProperties then some version.properties else none⟩

/-- The edges that a snapshot sees at an endpoint. -/
def Database.visibleRows (database : Database Index) (fetchProperties : Bool) (snapshot : Nat)
    (key : GraphId) : List Row :=
  database.lines.filterMap fun line =>
    match line.2 with
    | .normal version =>
        if version.key == key && version.visibleTo snapshot then
          some (version.row fetchProperties)
        else none
    | .redirect _ => none

end Snapshot

section History

inductive HistoryStep where
  | insert (tid : Tid) (key edgeId nextVertexId : GraphId) (properties : Nat)
  | update (tid newTid : Tid) (properties : Nat) (hot : Bool)
  | delete (tid : Tid)
  | release (horizon : Nat)
  | vacuum
  | build
  deriving DecidableEq, Repr

def Version.posting (version : Version) (tid : Tid) : Posting :=
  ⟨version.key, tid, version.edgeId, version.nextVertexId⟩

/-- The first member of a chain that some snapshot may see. -/
def firstLive (lines : List (Tid × LinePointer)) (horizon : Nat) : Nat → Tid → Option Tid
  | 0, _ => none
  | fuel + 1, tid =>
      match lines.lookup tid with
      | none => none
      | some (.redirect target) => firstLive lines horizon fuel target
      | some (.normal version) =>
          if version.deadTo horizon then version.next.bind (firstLive lines horizon fuel)
          else some tid

def chainReaches (lines : List (Tid × LinePointer)) (target : Tid) : Nat → Tid → Bool
  | 0, _ => false
  | fuel + 1, tid =>
      tid == target ||
        match lines.lookup tid with
        | none => false
        | some (.redirect next) => chainReaches lines target fuel next
        | some (.normal version) => version.next.any (chainReaches lines target fuel)

/-- The line pointer that the chain of a heap-only version starts at. -/
def rootTid (lines : List (Tid × LinePointer)) (tid : Tid) : Tid :=
  let isRoot (line : Tid × LinePointer) : Bool :=
    match line.2 with
    | .normal version => !version.heapOnly
    | .redirect _ => true
  ((lines.find? fun line => isRoot line && chainReaches lines tid lines.length line.1).map
    Prod.fst).getD tid

/-- Pruning: a dead root of a live chain becomes a redirect, other dead versions go. -/
def vacuumLine (lines : List (Tid × LinePointer)) (horizon : Nat)
    (line : Tid × LinePointer) : Option (Tid × LinePointer) :=
  let redirected (target : Option Tid) : Option (Tid × LinePointer) :=
    (target.bind (firstLive lines horizon lines.length)).map fun live => (line.1, .redirect live)
  match line.2 with
  | .normal version =>
      if !version.deadTo horizon then some line
      else if version.heapOnly then none
      else redirected version.next
  | .redirect target => redirected (some target)

def allVisibleLine (horizon : Nat) (line : Tid × LinePointer) : Bool :=
  match line.2 with
  | .normal version => version.xmin ≤ horizon && version.xmax.isNone
  | .redirect _ => true

namespace Database

variable {Index : Type} [IndexAm Index] (database : Database Index)

/-- A changed page is no longer known to be all visible. -/
def clearAllVisible (tid : Tid) : List Nat :=
  database.allVisible.filter fun block => block != tid.block

def setLine (tid : Tid) (version : Version) : List (Tid × LinePointer) :=
  database.lines.map fun line => if line.1 = tid then (tid, .normal version) else line

def insert (tid : Tid) (version : Version) : Option (Database Index) :=
  if (database.lines.lookup tid).isSome then none
  else some { database with
    now := database.now + 1
    lines := database.lines ++ [(tid, .normal version)]
    allVisible := database.clearAllVisible tid
    index := database.index.map fun index => IndexAm.insert index (version.posting tid) }

/-- A version that no transaction has deleted. -/
def aliveAt (tid : Tid) : Option Version :=
  match database.lines.lookup tid with
  | some (.normal version) => if version.xmax.isNone then some version else none
  | _ => none

def delete (tid : Tid) : Option (Database Index) :=
  (database.aliveAt tid).map fun version => { database with
    now := database.now + 1
    lines := database.setLine tid { version with xmax := some (database.now + 1) }
    allVisible := database.clearAllVisible tid }

/-- An update of properties alone.  A HOT update needs room on the page and adds
no index entry. -/
def update (tid newTid : Tid) (properties : Nat) (hot : Bool) : Option (Database Index) :=
  match database.aliveAt tid with
  | none => none
  | some version =>
      if (database.lines.lookup newTid).isSome || (hot && newTid.block != tid.block) then none
      else
        let newVersion : Version :=
          ⟨version.key, version.edgeId, version.nextVertexId, properties, database.now + 1, none,
            hot, none⟩
        some { database with
          now := database.now + 1
          lines := database.setLine tid { version with
            xmax := some (database.now + 1)
            next := if hot then some newTid else none } ++ [(newTid, .normal newVersion)]
          allVisible := (database.clearAllVisible tid).filter fun block => block != newTid.block
          index := if hot then database.index
            else database.index.map fun index =>
              IndexAm.insert index (newVersion.posting newTid) }

/-- Dead versions and their index entries go, and pages whose versions all
snapshots see are marked. -/
def vacuum : Database Index :=
  let lines := database.lines.filterMap (vacuumLine database.lines database.horizon)
  { database with
    lines := lines
    index := database.index.map fun index =>
      IndexAm.bulkDelete index fun tid => (lines.lookup tid).isNone
    allVisible := ((lines.map fun line => line.1.block).dedup).filter fun block =>
      lines.all fun line => line.1.block != block || allVisibleLine database.horizon line }

/-- `age_adjacency_build_callback`: versions that are not alive are left out. -/
def build : Database Index :=
  { database with
    index := some (IndexAm.build (database.lines.filterMap fun line =>
      match line.2 with
      | .normal version =>
          if version.xmax.isNone then some (version.posting (rootTid database.lines line.1))
          else none
      | .redirect _ => none)) }

def step : HistoryStep → Option (Database Index)
  | .insert tid key edgeId nextVertexId properties =>
      database.insert tid ⟨key, edgeId, nextVertexId, properties, database.now + 1, none, false,
        none⟩
  | .update tid newTid properties hot => database.update tid newTid properties hot
  | .delete tid => database.delete tid
  | .release horizon =>
      if database.horizon ≤ horizon && horizon ≤ database.now then
        some { database with horizon := horizon }
      else none
  | .vacuum => some database.vacuum
  | .build => some database.build

def run : Database Index → List HistoryStep → Option (Database Index)
  | database, [] => some database
  | database, step :: rest => (database.step step).bind (run · rest)

/-- No HOT update, and no build while a snapshot is held that still sees a
deleted version. -/
def Meets : HistoryStep → Prop
  | .update _ _ _ hot => hot = false
  | .build => ∀ tid version, (tid, LinePointer.normal version) ∈ database.lines →
      version.xmax.isSome = true → version.deadTo database.horizon = true
  | _ => True

def MeetsAll : Database Index → List HistoryStep → Prop
  | _, [] => True
  | database, step :: rest =>
      database.Meets step ∧ ∀ next, database.step step = some next → MeetsAll next rest

end Database

end History

section Invariant

theorem lookup_eq_some {α β : Type} [DecidableEq α] {entries : List (α × β)}
    (distinct : (entries.map Prod.fst).Nodup) {a : α} {b : β} :
    entries.lookup a = some b ↔ (a, b) ∈ entries := by
  induction entries with
  | nil => simp
  | cons entry rest inductionHypothesis =>
      obtain ⟨first, second⟩ := entry
      rw [List.map_cons, List.nodup_cons] at distinct
      rw [List.lookup_cons, List.mem_cons, Prod.mk.injEq]
      by_cases same : a = first
      · subst same
        have absent : (a, b) ∉ rest := fun member =>
          distinct.1 (List.mem_map.mpr ⟨(a, b), member, rfl⟩)
        simp [absent, eq_comm]
      · have apart : (a == first) = false := beq_eq_false_iff_ne.mpr same
        rw [apart]
        simp [same, inductionHypothesis distinct.2]

theorem lookup_eq_none {α β : Type} [DecidableEq α] {entries : List (α × β)} {a : α} :
    entries.lookup a = none ↔ a ∉ entries.map Prod.fst := by
  induction entries with
  | nil => simp
  | cons entry rest inductionHypothesis =>
      obtain ⟨first, second⟩ := entry
      rw [List.lookup_cons, List.map_cons, List.mem_cons]
      by_cases same : a = first
      · simp [same]
      · have apart : (a == first) = false := beq_eq_false_iff_ne.mpr same
        rw [apart]
        simp only [inductionHypothesis, same, false_or]

theorem filterMap_map_sublist {α β γ : Type} {f : α → Option β} {g : β → γ} {h : α → γ}
    (same : ∀ a b, f a = some b → g b = h a) {entries : List α} :
    ((entries.filterMap f).map g).Sublist (entries.map h) := by
  induction entries with
  | nil => exact .slnil
  | cons entry rest inductionHypothesis =>
      cases value : f entry with
      | none =>
          rw [List.filterMap_cons_none value]
          exact inductionHypothesis.cons _
      | some b =>
          rw [List.filterMap_cons_some value, List.map_cons, List.map_cons, same entry b value]
          exact inductionHypothesis.cons_cons _

namespace Database

/-- The index has one posting for each version that a snapshot may see, and none
that stands for another version. -/
structure Indexed (database : Database (List Posting)) (postings : List Posting) : Prop where
  distinct : (postings.map Posting.heapTid).Nodup
  sound : ∀ posting ∈ postings, ∃ version,
    (posting.heapTid, LinePointer.normal version) ∈ database.lines ∧
      posting = version.posting posting.heapTid
  complete : ∀ tid version, (tid, LinePointer.normal version) ∈ database.lines →
    version.deadTo database.horizon = false → version.posting tid ∈ postings

/-- What holds of a database without HOT chains. -/
structure Plain (database : Database (List Posting)) : Prop where
  distinct : (database.lines.map Prod.fst).Nodup
  noChain : ∀ tid line, (tid, line) ∈ database.lines →
    ∃ version, line = .normal version ∧ version.heapOnly = false ∧ version.next = none
  marked : ∀ tid version, (tid, LinePointer.normal version) ∈ database.lines →
    tid.block ∈ database.allVisible → version.xmin ≤ database.horizon ∧ version.xmax = none
  indexed : ∀ postings, database.index = some postings → database.Indexed postings

variable {database : Database (List Posting)}

theorem Plain.normal (plain : database.Plain) {tid : Tid} {version : Version}
    (inside : (tid, LinePointer.normal version) ∈ database.lines) :
    version.heapOnly = false ∧ version.next = none := by
  obtain ⟨_, same, facts⟩ := plain.noChain tid _ inside
  cases same
  exact facts

/-- A new version on a free line pointer. -/
theorem Plain.add (plain : database.Plain) {tid : Tid} {version : Version} {now : Nat}
    (free : database.lines.lookup tid = none) (root : version.heapOnly = false)
    (noNext : version.next = none) {allVisible : List Nat}
    (cleared : ∀ block ∈ allVisible, block ∈ database.allVisible ∧ block ≠ tid.block) :
    ({ database with
      now := now
      lines := database.lines ++ [(tid, .normal version)]
      allVisible := allVisible
      index := database.index.map fun postings => postings ++ [version.posting tid] } :
        Database (List Posting)).Plain := by
  have fresh := lookup_eq_none.mp free
  have split {other : Tid} {line : LinePointer}
      (inside : (other, line) ∈ database.lines ++ [(tid, .normal version)]) :
      (other, line) ∈ database.lines ∨ (other = tid ∧ line = .normal version) := by
    simpa using inside
  refine ⟨?_, fun other line inside => ?_, fun other old inside block => ?_,
    fun postings found => ?_⟩
  · rw [List.map_append, List.map_singleton, List.nodup_append]
    refine ⟨plain.distinct, List.nodup_singleton _, fun a inA b inB => ?_⟩
    rw [List.mem_singleton.mp inB]
    rintro rfl
    exact fresh inA
  · rcases split inside with before | ⟨-, rfl⟩
    · exact plain.noChain other line before
    · exact ⟨version, rfl, root, noNext⟩
  · obtain ⟨wasMarked, otherBlock⟩ := cleared _ block
    rcases split inside with before | ⟨rfl, -⟩
    · exact plain.marked other old before wasMarked
    · exact absurd rfl otherBlock
  · cases index : database.index with
    | none => simp [index] at found
    | some before =>
        simp only [index, Option.map_some, Option.some.injEq] at found
        subst found
        have indexed := plain.indexed before index
        refine ⟨?_, fun posting member => ?_, fun other old inside alive => ?_⟩
        · rw [List.map_append, List.map_singleton, List.nodup_append]
          refine ⟨indexed.distinct, List.nodup_singleton _, fun a inA b inB => ?_⟩
          rw [List.mem_singleton.mp inB]
          intro equal
          obtain ⟨posting, member, here⟩ := List.mem_map.mp inA
          obtain ⟨old, inside, -⟩ := indexed.sound posting member
          have same : posting.heapTid = tid := here.trans equal
          exact fresh (same ▸ List.mem_map_of_mem inside)
        · rcases List.mem_append.mp member with before | new
          · obtain ⟨old, inside, same⟩ := indexed.sound posting before
            exact ⟨old, List.mem_append_left _ inside, same⟩
          · rw [List.mem_singleton.mp new]
            exact ⟨version, List.mem_append_right _ (List.mem_singleton.mpr rfl), rfl⟩
        · rcases split inside with before | ⟨rfl, same⟩
          · exact List.mem_append_left _ (indexed.complete other old before alive)
          · cases same
            exact List.mem_append_right _ (List.mem_singleton.mpr rfl)

theorem mem_setLine {tid other : Tid} {version : Version} {line : LinePointer}
    (inside : (other, line) ∈ database.setLine tid version) :
    (other ≠ tid ∧ (other, line) ∈ database.lines) ∨ (other = tid ∧ line = .normal version) := by
  obtain ⟨⟨old, oldLine⟩, member, same⟩ := List.mem_map.mp inside
  dsimp only at same
  split_ifs at same with here
  · cases same
    exact .inr ⟨rfl, rfl⟩
  · cases same
    exact .inl ⟨here, member⟩

theorem setLine_fst (tid : Tid) (version : Version) :
    (database.setLine tid version).map Prod.fst = database.lines.map Prod.fst := by
  rw [setLine, List.map_map]
  refine List.map_congr_left fun line _ => ?_
  simp only [Function.comp_apply]
  split_ifs with here
  · exact here.symm
  · rfl

/-- A version that was alive is deleted. -/
theorem Plain.setDeleted (plain : database.Plain) {tid : Tid} {old version : Version} {now : Nat}
    (inside : (tid, LinePointer.normal old) ∈ database.lines) (alive : old.xmax = none)
    (same : version.posting tid = old.posting tid) (root : version.heapOnly = false)
    (noNext : version.next = none) {allVisible : List Nat}
    (cleared : ∀ block ∈ allVisible, block ∈ database.allVisible ∧ block ≠ tid.block) :
    ({ database with
      now := now
      lines := database.setLine tid version
      allVisible := allVisible } : Database (List Posting)).Plain := by
  have there : (tid, LinePointer.normal version) ∈ database.setLine tid version :=
    List.mem_map.mpr ⟨_, inside, by simp⟩
  have kept {other : Tid} {line : LinePointer} (before : (other, line) ∈ database.lines)
      (apart : other ≠ tid) : (other, line) ∈ database.setLine tid version :=
    List.mem_map.mpr ⟨_, before, by simp [apart]⟩
  refine ⟨by rw [setLine_fst]; exact plain.distinct, fun other line member => ?_,
    fun other changed member block => ?_, fun postings found => ?_⟩
  · rcases mem_setLine member with ⟨-, before⟩ | ⟨-, rfl⟩
    · exact plain.noChain other line before
    · exact ⟨version, rfl, root, noNext⟩
  · obtain ⟨wasMarked, otherBlock⟩ := cleared _ block
    rcases mem_setLine member with ⟨-, before⟩ | ⟨rfl, -⟩
    · exact plain.marked other changed before wasMarked
    · exact absurd rfl otherBlock
  · have indexed := plain.indexed postings found
    refine ⟨indexed.distinct, fun posting member => ?_, fun other changed member alive' => ?_⟩
    · obtain ⟨found, before, samePosting⟩ := indexed.sound posting member
      by_cases here : posting.heapTid = tid
      · rw [here] at before samePosting ⊢
        have unique : found = old := by
          have one := (lookup_eq_some plain.distinct).mpr before
          rw [(lookup_eq_some plain.distinct).mpr inside] at one
          cases one
          rfl
        exact ⟨version, there, by rw [samePosting, unique, same]⟩
      · exact ⟨found, kept before here, samePosting⟩
    · rcases mem_setLine member with ⟨-, before⟩ | ⟨rfl, isVersion⟩
      · exact indexed.complete other changed before alive'
      · cases isVersion
        rw [same]
        exact indexed.complete other old inside (by simp [Version.deadTo, alive])

theorem Plain.vacuumLines (plain : database.Plain) :
    database.lines.filterMap (vacuumLine database.lines database.horizon) =
      database.lines.filter fun line =>
        match line.2 with
        | .normal version => !version.deadTo database.horizon
        | .redirect _ => true := by
  rw [← List.filterMap_eq_filter]
  refine List.filterMap_congr fun line member => ?_
  obtain ⟨tid, pointer⟩ := line
  obtain ⟨version, rfl, root, noNext⟩ := plain.noChain tid pointer member
  cases dead : version.deadTo database.horizon <;>
    simp [vacuumLine, dead, root, noNext, Option.guard]

theorem Plain.mem_vacuum (plain : database.Plain) {tid : Tid} {line : LinePointer} :
    (tid, line) ∈ database.vacuum.lines ↔ ∃ version, line = .normal version ∧
      (tid, LinePointer.normal version) ∈ database.lines ∧
      version.deadTo database.horizon = false := by
  have lines : database.vacuum.lines =
      database.lines.filterMap (vacuumLine database.lines database.horizon) := rfl
  rw [lines, plain.vacuumLines, List.mem_filter]
  constructor
  · rintro ⟨member, kept⟩
    obtain ⟨version, rfl, -⟩ := plain.noChain tid line member
    exact ⟨version, rfl, member, by simpa using kept⟩
  · rintro ⟨version, rfl, member, alive⟩
    exact ⟨member, by simp [alive]⟩

theorem Plain.vacuum (plain : database.Plain) : database.vacuum.Plain := by
  have distinct : (database.vacuum.lines.map Prod.fst).Nodup := by
    have lines : database.vacuum.lines =
        database.lines.filterMap (vacuumLine database.lines database.horizon) := rfl
    rw [lines, plain.vacuumLines]
    exact plain.distinct.sublist (List.filter_sublist.map Prod.fst)
  refine ⟨distinct, fun tid line member => ?_, fun tid version member block => ?_,
    fun postings found => ?_⟩
  · obtain ⟨version, rfl, before, -⟩ := plain.mem_vacuum.mp member
    exact plain.noChain tid _ before
  · have marked : ∀ line ∈ database.vacuum.lines,
        line.1.block ≠ tid.block ∨ allVisibleLine database.horizon line = true := by
      have all : (database.vacuum.lines.all fun line =>
          line.1.block != tid.block || allVisibleLine database.horizon line) = true :=
        (List.mem_filter.mp block).2
      intro line inside
      have here := List.all_eq_true.mp all line inside
      rwa [Bool.or_eq_true, bne_iff_ne] at here
    have seen := (marked _ member).resolve_left (by simp)
    have facts : version.xmin ≤ database.horizon ∧ version.xmax = none := by
      simpa [allVisibleLine] using seen
    exact facts
  · cases index : database.index with
    | none => simp [Database.vacuum, index] at found
    | some before =>
        have filtered : postings = before.filter fun posting =>
            (database.vacuum.lines.lookup posting.heapTid).isSome := by
          simp only [Database.vacuum, index, Option.map_some, Option.some.injEq] at found
          rw [← found]
          refine List.filter_congr fun posting _ => ?_
          rw [Option.not_isNone]
          rfl
        subst filtered
        have indexed := plain.indexed before index
        refine ⟨indexed.distinct.sublist (List.filter_sublist.map _), fun posting member => ?_,
          fun tid version member alive => ?_⟩
        · rw [List.mem_filter, Option.isSome_iff_exists] at member
          obtain ⟨old, inside, same⟩ := indexed.sound posting member.1
          obtain ⟨line, isThere⟩ := member.2
          obtain ⟨version, rfl, still, alive⟩ :=
            plain.mem_vacuum.mp ((lookup_eq_some distinct).mp isThere)
          have unique : version = old := by
            have one := (lookup_eq_some plain.distinct).mpr still
            rw [(lookup_eq_some plain.distinct).mpr inside] at one
            cases one
            rfl
          exact ⟨old, plain.mem_vacuum.mpr ⟨old, rfl, inside, unique ▸ alive⟩, same⟩
        · obtain ⟨same, isVersion, inside, -⟩ := plain.mem_vacuum.mp member
          cases isVersion
          rw [List.mem_filter]
          refine ⟨indexed.complete tid version inside alive, ?_⟩
          have isThere := (lookup_eq_some distinct).mpr member
          rw [show (version.posting tid).heapTid = tid from rfl, isThere]
          rfl

theorem Plain.rootTid (plain : database.Plain) (tid : Tid) :
    rootTid database.lines tid = tid := by
  unfold Adjacency.rootTid
  cases found : database.lines.find? fun line =>
      (match line.2 with
        | .normal version => !version.heapOnly
        | .redirect _ => true) && chainReaches database.lines tid database.lines.length line.1 with
  | none => simp only [found, Option.map_none, Option.getD_none]
  | some line =>
      have member := List.mem_of_find?_eq_some found
      have reaches := List.find?_some found
      obtain ⟨root, pointer⟩ := line
      obtain ⟨version, rfl, -, noNext⟩ := plain.noChain root pointer member
      have here := (lookup_eq_some plain.distinct).mpr member
      have same : root = tid := by
        cases fuel : database.lines.length with
        | zero => simp [fuel, chainReaches] at reaches
        | succ rest =>
            simp only [fuel, chainReaches, here, noNext, Option.any_none, Bool.or_false,
              Bool.and_eq_true, beq_iff_eq] at reaches
            exact reaches.2
      simp only [found, Option.map_some, Option.getD_some, same]

theorem Plain.build (plain : database.Plain) (meets : database.Meets .build) :
    database.build.Plain := by
  refine ⟨plain.distinct, plain.noChain, plain.marked, fun postings found => ?_⟩
  have built : postings = database.lines.filterMap fun line =>
      match line.2 with
      | .normal version => if version.xmax.isNone then some (version.posting line.1) else none
      | .redirect _ => none := by
    simp only [Database.build, Option.some.injEq] at found
    rw [← found]
    refine List.filterMap_congr fun line _ => ?_
    rw [plain.rootTid]
  have mem {posting : Posting} : posting ∈ postings ↔ ∃ tid version,
      (tid, LinePointer.normal version) ∈ database.lines ∧ version.xmax = none ∧
        posting = version.posting tid := by
    rw [built, List.mem_filterMap]
    constructor
    · rintro ⟨⟨tid, line⟩, member, here⟩
      obtain ⟨version, rfl, -⟩ := plain.noChain tid line member
      simp only [Option.ite_none_right_eq_some, Option.some.injEq, Option.isNone_iff_eq_none] at here
      exact ⟨tid, version, member, here.1, here.2.symm⟩
    · rintro ⟨tid, version, member, alive, rfl⟩
      exact ⟨_, member, by simp [alive]⟩
  refine ⟨?_, fun posting member => ?_, fun tid version member alive => ?_⟩
  · rw [built]
    refine plain.distinct.sublist (filterMap_map_sublist fun line posting here => ?_)
    split at here
    · split_ifs at here
      cases here
      rfl
    · cases here
  · obtain ⟨tid, version, inside, -, rfl⟩ := mem.mp member
    exact ⟨version, inside, rfl⟩
  · refine mem.mpr ⟨tid, version, member, ?_, rfl⟩
    cases deleted : version.xmax with
    | none => rfl
    | some time =>
        have dead := meets tid version member (by simp [deleted])
        have alive' : version.deadTo database.horizon = false := alive
        rw [alive'] at dead
        cases dead

theorem mem_of_aliveAt (plain : database.Plain) {tid : Tid} {version : Version}
    (alive : database.aliveAt tid = some version) :
    (tid, LinePointer.normal version) ∈ database.lines ∧ version.xmax = none := by
  unfold aliveAt at alive
  split at alive
  · rename_i found here
    split_ifs at alive with isNone
    cases alive
    exact ⟨(lookup_eq_some plain.distinct).mp here, by simpa using isNone⟩
  · cases alive

theorem deadTo_mono {version : Version} {low high : Nat} (order : low ≤ high)
    (alive : version.deadTo high = false) : version.deadTo low = false := by
  unfold Version.deadTo at alive ⊢
  cases deleted : version.xmax with
  | none => rfl
  | some time =>
      rw [deleted] at alive
      simp only [Option.any_some, decide_eq_false_iff_not] at alive ⊢
      omega

theorem Plain.step (plain : database.Plain) {step : HistoryStep} (meets : database.Meets step)
    {next : Database (List Posting)} (run : database.step step = some next) : next.Plain := by
  have cleared (tid : Tid) (block : Nat) (member : block ∈ database.clearAllVisible tid) :
      block ∈ database.allVisible ∧ block ≠ tid.block := by
    simpa [clearAllVisible] using member
  cases step with
  | insert tid key edgeId nextVertexId properties =>
      simp only [Database.step, Database.insert] at run
      split_ifs at run with taken
      cases run
      rw [Bool.not_eq_true, Option.isSome_eq_false_iff, Option.isNone_iff_eq_none] at taken
      exact plain.add taken rfl rfl (cleared tid)
  | update tid newTid properties hot =>
      cases (meets : hot = false)
      simp only [Database.step, Database.update] at run
      cases alive : database.aliveAt tid with
      | none => simp [alive] at run
      | some version =>
          simp only [alive, Bool.false_and, Bool.or_false, Bool.false_eq_true, if_false] at run
          split_ifs at run with taken
          rw [Bool.not_eq_true, Option.isSome_eq_false_iff, Option.isNone_iff_eq_none] at taken
          obtain ⟨inside, notDeleted⟩ := mem_of_aliveAt plain alive
          cases run
          have deleted := @Plain.setDeleted _ plain tid version
            { version with xmax := some (database.now + 1), next := none } (database.now + 1)
            inside notDeleted rfl (plain.normal inside).1 rfl _ (cleared tid)
          refine deleted.add ?_ rfl rfl ?_
          · rw [lookup_eq_none] at taken ⊢
            rw [setLine_fst]
            exact taken
          · intro block member
            simpa using member
  | delete tid =>
      simp only [Database.step, Database.delete, Option.map_eq_some_iff] at run
      obtain ⟨version, alive, rfl⟩ := run
      obtain ⟨inside, notDeleted⟩ := mem_of_aliveAt plain alive
      exact @Plain.setDeleted _ plain tid version { version with xmax := some (database.now + 1) }
        (database.now + 1) inside notDeleted rfl (plain.normal inside).1 (plain.normal inside).2 _
        (cleared tid)
  | release horizon =>
      simp only [Database.step] at run
      split_ifs at run with order
      simp only [Bool.and_eq_true, decide_eq_true_eq] at order
      cases run
      refine ⟨plain.distinct, plain.noChain, fun tid version member block => ?_,
        fun postings found => ?_⟩
      · obtain ⟨old, alive⟩ := plain.marked tid version member block
        exact ⟨Nat.le_trans old order.1, alive⟩
      · have indexed := plain.indexed postings found
        exact ⟨indexed.distinct, indexed.sound, fun tid version member alive =>
          indexed.complete tid version member (deadTo_mono order.1 alive)⟩
  | vacuum =>
      cases run
      exact plain.vacuum
  | build =>
      cases run
      exact plain.build meets

theorem Plain.run (plain : database.Plain) {steps : List HistoryStep}
    (meets : database.MeetsAll steps) {final : Database (List Posting)}
    (history : database.run steps = some final) : final.Plain := by
  induction steps generalizing database with
  | nil =>
      cases history
      exact plain
  | cons step rest inductionHypothesis =>
      obtain ⟨next, one, others⟩ := Option.bind_eq_some_iff.mp history
      exact inductionHypothesis (plain.step meets.1 one) (meets.2 next one) others

theorem plain_init : (Database.init : Database (List Posting)).Plain :=
  ⟨List.nodup_nil, by simp [Database.init], by simp [Database.init], by simp [Database.init]⟩

end Database

end Invariant

section Complete

namespace Database

variable {database : Database (List Posting)}

/-- The row of a line pointer, if a snapshot sees its version at an endpoint. -/
def rowAt {Index : Type} (database : Database Index) (fetchProperties : Bool) (snapshot : Nat) (key : GraphId)
    (tid : Tid) : Option Row :=
  match database.lines.lookup tid with
  | some (.normal version) =>
      if version.key == key && version.visibleTo snapshot then some (version.row fetchProperties)
      else none
  | _ => none

theorem Plain.visibleRows (plain : database.Plain) (fetchProperties : Bool) (snapshot : Nat)
    (key : GraphId) : database.visibleRows fetchProperties snapshot key =
      (database.lines.map Prod.fst).filterMap
        (database.rowAt fetchProperties snapshot key) := by
  rw [List.filterMap_map]
  refine List.filterMap_congr fun line member => ?_
  obtain ⟨tid, pointer⟩ := line
  simp only [Function.comp_apply, rowAt, (lookup_eq_some plain.distinct).mpr member]
  cases pointer <;> rfl

theorem visibleTo_of_marked {version : Version} {horizon snapshot : Nat}
    (old : version.xmin ≤ horizon) (alive : version.xmax = none) (held : horizon ≤ snapshot) :
    version.visibleTo snapshot = true := by
  simp only [Version.visibleTo, alive, Option.all_none, Bool.and_true, decide_eq_true_eq]
  exact Nat.le_trans old held

theorem deadTo_of_visibleTo {version : Version} {horizon snapshot : Nat}
    (visible : version.visibleTo snapshot = true) (held : horizon ≤ snapshot) :
    version.deadTo horizon = false := by
  unfold Version.visibleTo at visible
  unfold Version.deadTo
  cases deleted : version.xmax with
  | none => rfl
  | some time =>
      rw [deleted] at visible
      simp only [Option.all_some, Bool.and_eq_true, decide_eq_true_eq] at visible
      simp only [Option.any_some, decide_eq_false_iff_not]
      omega

/-- A posting of the key is emitted exactly if the snapshot sees its version. -/
theorem Plain.posting_row (plain : database.Plain) {postings : List Posting}
    (index : database.index = some postings) {posting : Posting} (member : posting ∈ postings)
    (fetchProperties : Bool) {snapshot : Nat} (held : database.horizon ≤ snapshot)
    (key : GraphId) :
    (if posting.key == key then
      (database.postingVisiblePayload fetchProperties snapshot posting).map Payload.row
      else none) = database.rowAt fetchProperties snapshot key posting.heapTid := by
  obtain ⟨version, inside, same⟩ := (plain.indexed postings index).sound posting member
  have found := (lookup_eq_some plain.distinct).mpr inside
  have sameKey : posting.key = version.key := congrArg Posting.key same
  have sameEdge : posting.edgeId = version.edgeId := congrArg Posting.edgeId same
  have sameNext : posting.nextVertexId = version.nextVertexId := congrArg Posting.nextVertexId same
  unfold postingVisiblePayload rowAt fetchRowVersion
  rw [found, sameKey]
  by_cases isKey : (version.key == key) = true
  · rw [if_pos isKey]
    simp only [isKey, Bool.true_and]
    by_cases marked : (!fetchProperties &&
        database.allVisible.contains posting.heapTid.block) = true
    · rw [if_pos marked]
      simp only [Bool.and_eq_true, Bool.not_eq_true', List.contains_iff_mem] at marked
      obtain ⟨old, alive⟩ := plain.marked _ version inside marked.2
      rw [if_pos (visibleTo_of_marked old alive held)]
      simp [Payload.row, Version.row, sameEdge, sameNext, marked.1]
    · rw [if_neg marked]
      cases visible : version.visibleTo snapshot with
      | true => simp [Payload.row, Version.row, sameEdge, sameNext]
      | false => simp
  · rw [if_neg isKey]
    simp at isKey
    simp [isKey]

/-- Two duplicate-free lists agree wherever a function has a value. -/
theorem filterMap_perm {α β : Type} {as bs : List α} {f : α → Option β} (distinctA : as.Nodup)
    (distinctB : bs.Nodup) (same : ∀ a, (f a).isSome = true → (a ∈ as ↔ a ∈ bs)) :
    (as.filterMap f).Perm (bs.filterMap f) := by
  have only (entries : List α) :
      entries.filterMap f = (entries.filter fun a => (f a).isSome).filterMap f := by
    rw [List.filterMap_filter]
    refine List.filterMap_congr fun a _ => ?_
    cases f a <;> rfl
  rw [only as, only bs]
  refine List.Perm.filterMap f ?_
  rw [List.perm_ext_iff_of_nodup (distinctA.filter _) (distinctB.filter _)]
  intro a
  simp only [List.mem_filter]
  constructor
  · rintro ⟨member, value⟩
    exact ⟨(same a value).mp member, value⟩
  · rintro ⟨member, value⟩
    exact ⟨(same a value).mpr member, value⟩

/-- The postings of a key give out the edges that a snapshot sees at the key. -/
theorem Plain.scan_perm (plain : database.Plain) {postings : List Posting}
    (index : database.index = some postings) (fetchProperties : Bool) {snapshot : Nat}
    (held : database.horizon ≤ snapshot) (key : GraphId) :
    (((postings.filter fun posting => posting.key == key).filterMap
      (database.postingVisiblePayload fetchProperties snapshot)).map Payload.row).Perm
        (database.visibleRows fetchProperties snapshot key) := by
  have indexed := plain.indexed postings index
  have rows : ((postings.filter fun posting => posting.key == key).filterMap
      (database.postingVisiblePayload fetchProperties snapshot)).map Payload.row =
        (postings.map Posting.heapTid).filterMap
          (database.rowAt fetchProperties snapshot key) := by
    rw [List.map_filterMap, List.filterMap_filter, List.filterMap_map]
    exact List.filterMap_congr fun posting member =>
      plain.posting_row index member fetchProperties held key
  rw [rows, plain.visibleRows]
  refine filterMap_perm indexed.distinct plain.distinct fun tid value => ?_
  constructor
  · intro member
    obtain ⟨posting, inside, rfl⟩ := List.mem_map.mp member
    obtain ⟨version, there, -⟩ := indexed.sound posting inside
    exact List.mem_map_of_mem there
  · intro member
    obtain ⟨⟨other, line⟩, inside, rfl⟩ := List.mem_map.mp member
    obtain ⟨version, rfl, -⟩ := plain.noChain other line inside
    simp only [rowAt, (lookup_eq_some plain.distinct).mpr inside] at value
    split_ifs at value with seen
    · rw [Bool.and_eq_true] at seen
      have posted := indexed.complete other version inside (deadTo_of_visibleTo seen.2 held)
      exact List.mem_map.mpr ⟨_, posted, rfl⟩
    · cases value

end Database

end Complete

end Age.Adjacency
