import Mathlib.Data.List.Induction
import Mathlib.Logic.Function.Basic
import Age.Adjacency.Visibility
import Age.Graph.VersionCounter

/-!
# The edges of a loaded graph

The load scans the edge labels one after another, each of them a heap relation of its own.  An edge
gets the next dense index, and it can be found by its id and by its heap TID.
-/

namespace Age.Graph.EdgeLoad

open Adjacency (Tid GraphId)

section Tables

structure EdgeRow where
  tid : Tid
  edgeId : GraphId
  startVertexId : GraphId
  endVertexId : GraphId
  deriving DecidableEq

structure EdgeTable where
  relation : Oid
  rows : List EdgeRow

/-- A row with the relation that it comes from -/
structure ScannedEdge where
  relation : Oid
  row : EdgeRow
  deriving DecidableEq

/-- What the loops of `load_edge_hashtable` scan, for one label or for all -/
def scannedEdges (scope : Option Oid) (tables : List EdgeTable) : List ScannedEdge :=
  (tables.filter fun table => scope.all fun edgeLabelOid => table.relation = edgeLabelOid).flatMap
    fun table => table.rows.map (⟨table.relation, ·⟩)

end Tables

section Context

/-- `edge_entry` -/
structure EdgeEntry where
  edgeId : GraphId
  tid : Tid
  startVertexId : GraphId
  endVertexId : GraphId
  edgeLabelTableOid : Oid
  edgeIndex : Nat
  deriving DecidableEq

/-- The hash tables of a `GRAPH_global_context` for edges -/
structure EdgeHash where
  edges : List EdgeEntry
  numLoadedEdges : Nat
  tids : Tid → Option EdgeEntry

def EdgeHash.empty : EdgeHash := ⟨[], 0, fun _ => none⟩

def ScannedEdge.entry (edge : ScannedEdge) (edgeIndex : Nat) : EdgeEntry :=
  ⟨edge.row.edgeId, edge.row.tid, edge.row.startVertexId, edge.row.endVertexId, edge.relation,
    edgeIndex⟩

/-- `insert_edge_entry`; `none` for an id that has come before -/
def insertEdgeEntry (hash : EdgeHash) (edge : ScannedEdge) : Option (EdgeHash × EdgeEntry) :=
  if hash.edges.any fun entry => entry.edgeId = edge.row.edgeId then none
  else
    let entry := edge.entry hash.numLoadedEdges
    some ({ hash with
      edges := hash.edges ++ [entry], numLoadedEdges := hash.numLoadedEdges + 1 }, entry)

variable {State : Type} (insert : State → EdgeEntry → State)

/-- One row of `load_edge_hashtable`.  What is done with an edge that is no duplicate depends on the
load: it is linked to its vertices, or its endpoints are collected. -/
def loadEdgeRow (loaded : EdgeHash × State) (edge : ScannedEdge) : EdgeHash × State :=
  match insertEdgeEntry loaded.1 edge with
  | none => loaded
  | some (hash, entry) =>
      ({ hash with tids := Function.update hash.tids entry.tid (some entry) },
        insert loaded.2 entry)

/-- `load_edge_hashtable` -/
def loadEdgeHashtable (scanned : List ScannedEdge) (start : State) : EdgeHash × State :=
  scanned.foldl (loadEdgeRow insert) (EdgeHash.empty, start)

end Context

section Loaded

/-- The rows that bring an edge id for the first time, in the order of the scan -/
def firstRows (scanned : List ScannedEdge) : List ScannedEdge :=
  scanned.foldl (fun found edge =>
    if found.any fun other => other.row.edgeId = edge.row.edgeId then found else found ++ [edge]) []

/-- The entries of rows, with their dense indexes -/
def entries (rows : List ScannedEdge) : List EdgeEntry :=
  rows.mapIdx fun index row => row.entry index

variable {State : Type} {insert : State → EdgeEntry → State}

theorem entries_concat (rows : List ScannedEdge) (row : ScannedEdge) :
    entries (rows ++ [row]) = entries rows ++ [row.entry rows.length] := by
  rw [entries, List.mapIdx_concat]
  rfl

theorem length_entries (rows : List ScannedEdge) : (entries rows).length = rows.length :=
  List.length_mapIdx

theorem any_entries (rows : List ScannedEdge) (edgeId : GraphId) :
    ((entries rows).any fun entry => entry.edgeId = edgeId) =
      rows.any fun row => row.row.edgeId = edgeId := by
  induction rows using List.reverseRecOn with
  | nil => rfl
  | append_singleton rows row inductionHypothesis =>
      rw [entries_concat, List.any_append, List.any_append, inductionHypothesis]
      rfl

/-- The hash tables after the rows that came first -/
structure EdgeHash.Loaded (rows : List ScannedEdge) (hash : EdgeHash) : Prop where
  edges : hash.edges = entries rows
  counted : hash.numLoadedEdges = rows.length
  tids : ∀ tid, hash.tids tid = (entries rows).reverse.find? fun entry => entry.tid = tid

theorem EdgeHash.Loaded.concat {rows : List ScannedEdge} {hash : EdgeHash}
    (loaded : hash.Loaded rows) (row : ScannedEdge) :
    EdgeHash.Loaded (rows ++ [row])
      ⟨hash.edges ++ [row.entry hash.numLoadedEdges], hash.numLoadedEdges + 1,
        Function.update hash.tids row.row.tid (some (row.entry hash.numLoadedEdges))⟩ := by
  refine ⟨?_, ?_, fun tid => ?_⟩
  · rw [entries_concat, loaded.edges, loaded.counted]
  · rw [List.length_append, List.length_singleton, loaded.counted]
  · rw [entries_concat, List.reverse_append, List.reverse_singleton, List.singleton_append,
      ← loaded.counted]
    dsimp only
    by_cases same : tid = row.row.tid
    · subst same
      rw [Function.update_self]
      simp [ScannedEdge.entry]
    · have other : ¬ row.row.tid = tid := Ne.symm same
      rw [Function.update_of_ne same, loaded.tids]
      simp [ScannedEdge.entry, other]

theorem loadEdgeRow_foldl (scanned : List ScannedEdge) {found : List ScannedEdge} {hash : EdgeHash}
    (loaded : hash.Loaded found) {start state : State}
    (used : state = (entries found).foldl insert start) :
    (scanned.foldl (loadEdgeRow insert) (hash, state)).1.Loaded (scanned.foldl (fun found edge =>
        if found.any fun other => other.row.edgeId = edge.row.edgeId then found
        else found ++ [edge]) found) ∧
      (scanned.foldl (loadEdgeRow insert) (hash, state)).2 = (entries (scanned.foldl
        (fun found edge => if found.any fun other => other.row.edgeId = edge.row.edgeId then found
          else found ++ [edge]) found)).foldl insert start := by
  induction scanned generalizing found hash state with
  | nil => exact ⟨loaded, used⟩
  | cons edge rest inductionHypothesis =>
      rw [List.foldl_cons, List.foldl_cons, loadEdgeRow, insertEdgeEntry, loaded.edges, any_entries]
      split_ifs with duplicate
      · exact inductionHypothesis loaded used
      · rw [← loaded.edges]
        refine inductionHypothesis (loaded.concat edge) ?_
        rw [entries_concat, List.foldl_concat, ← used, ← loaded.counted]

/-- The load keeps the first row of each id, numbers them, and does with each what it does. -/
theorem loadEdgeHashtable_spec (scanned : List ScannedEdge) (start : State) :
    (loadEdgeHashtable insert scanned start).1.Loaded (firstRows scanned) ∧
      (loadEdgeHashtable insert scanned start).2 =
        (entries (firstRows scanned)).foldl insert start :=
  loadEdgeRow_foldl scanned ⟨rfl, rfl, fun _ => rfl⟩ rfl

theorem sublist_firstRows (scanned : List ScannedEdge) : (firstRows scanned).Sublist scanned := by
  induction scanned using List.reverseRecOn with
  | nil => exact List.Sublist.refl _
  | append_singleton scanned edge inductionHypothesis =>
      rw [firstRows, List.foldl_concat]
      split_ifs
      · exact inductionHypothesis.trans (List.sublist_append_left _ _)
      · exact inductionHypothesis.append (List.Sublist.refl _)

theorem nodup_firstRows (scanned : List ScannedEdge) :
    ((firstRows scanned).map fun edge => edge.row.edgeId).Nodup := by
  induction scanned using List.reverseRecOn with
  | nil => exact List.nodup_nil
  | append_singleton scanned edge inductionHypothesis =>
      rw [firstRows, List.foldl_concat]
      split_ifs with duplicate
      · exact inductionHypothesis
      · rw [List.map_append, List.map_singleton]
        refine List.nodup_append.2 ⟨inductionHypothesis, List.nodup_singleton _,
          fun edgeId isFound other isEdge same => duplicate ?_⟩
        obtain ⟨found, isRow, rfl⟩ := List.mem_map.1 isFound
        rw [List.any_eq_true]
        exact ⟨found, isRow, decide_eq_true (same.trans (List.mem_singleton.1 isEdge))⟩

/-- Every id of a scanned row is loaded. -/
theorem exists_firstRows {scanned : List ScannedEdge} {edge : ScannedEdge}
    (isScanned : edge ∈ scanned) :
    ∃ first ∈ firstRows scanned, first.row.edgeId = edge.row.edgeId := by
  induction scanned using List.reverseRecOn with
  | nil => cases isScanned
  | append_singleton scanned last inductionHypothesis =>
      rw [firstRows, List.foldl_concat]
      rcases List.mem_append.1 isScanned with before | isLast
      · obtain ⟨first, isFirst, same⟩ := inductionHypothesis before
        split_ifs
        · exact ⟨first, isFirst, same⟩
        · exact ⟨first, List.mem_append_left _ isFirst, same⟩
      · rw [List.mem_singleton.1 isLast]
        split_ifs with duplicate
        · obtain ⟨first, isFirst, same⟩ := List.any_eq_true.1 duplicate
          exact ⟨first, isFirst, of_decide_eq_true same⟩
        · exact ⟨last, List.mem_append_right _ List.mem_cons_self, rfl⟩

theorem mem_entries {rows : List ScannedEdge} {entry : EdgeEntry}
    (isEntry : entry ∈ entries rows) :
    ∃ row ∈ rows, ∃ index, entry = row.entry index := by
  obtain ⟨index, inside, rfl⟩ := List.mem_mapIdx.1 isEntry
  exact ⟨_, List.getElem_mem inside, index, rfl⟩

theorem exists_entry {rows : List ScannedEdge} {row : ScannedEdge} (isRow : row ∈ rows) :
    ∃ index, row.entry index ∈ entries rows := by
  obtain ⟨index, inside, rfl⟩ := List.getElem_of_mem isRow
  exact ⟨index, List.mem_mapIdx.2 ⟨index, inside, rfl⟩⟩

/-- The dense indexes fill an initial range. -/
theorem entries_edgeIndex (rows : List ScannedEdge) :
    (entries rows).map EdgeEntry.edgeIndex = List.range rows.length := by
  induction rows using List.reverseRecOn with
  | nil => rfl
  | append_singleton rows row inductionHypothesis =>
      rw [entries_concat, List.map_append, inductionHypothesis, List.length_append,
        List.length_singleton, List.range_succ]
      rfl

theorem entries_edgeId (rows : List ScannedEdge) :
    (entries rows).map EdgeEntry.edgeId = rows.map fun row => row.row.edgeId := by
  induction rows using List.reverseRecOn with
  | nil => rfl
  | append_singleton rows row inductionHypothesis =>
      rw [entries_concat, List.map_append, inductionHypothesis, List.map_append]
      rfl

/-- The row that an entry was made of -/
def EdgeEntry.scanned (entry : EdgeEntry) : ScannedEdge :=
  ⟨entry.edgeLabelTableOid, entry.tid, entry.edgeId, entry.startVertexId, entry.endVertexId⟩

theorem entries_scanned (rows : List ScannedEdge) :
    (entries rows).map EdgeEntry.scanned = rows := by
  induction rows using List.reverseRecOn with
  | nil => rfl
  | append_singleton rows row inductionHypothesis =>
      rw [entries_concat, List.map_append, inductionHypothesis]
      rfl

end Loaded

end Age.Graph.EdgeLoad
