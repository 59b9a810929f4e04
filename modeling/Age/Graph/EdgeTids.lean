import Age.Graph.EdgeLoad

/-!
# Edges by their heap TID

The table of TIDs has one entry for a TID, whichever relation it is of.  So an edge is found under
its TID as long as no relation that is scanned later has an edge with the same one.
-/

namespace Age.Graph.EdgeLoad

open Adjacency (Tid GraphId)

section Lookup

/-- The edge metadata of a load, or of a request for one -/
structure EdgeLoadScope where
  edgeMetadata : Bool
  edgePropertyMetadata : Bool
  edgeLabelOid : Option Oid

/-- `graph_context_satisfies_edge_load` -/
def graphContextSatisfiesEdgeLoad (loaded request : EdgeLoadScope) : Bool :=
  if request.edgeMetadata && !loaded.edgeMetadata then false
  else if request.edgePropertyMetadata && !loaded.edgePropertyMetadata then false
  else
    match loaded.edgeLabelOid, request.edgeLabelOid with
    | none, _ => true
    | some _, none => false
    | some loadedOid, some edgeLabelOid => loadedOid = edgeLabelOid

/-- The edge tables of a context after `load_GRAPH_global_hashtables` -/
def loadedEdges (tables : List EdgeTable) (loaded : EdgeLoadScope) : EdgeHash :=
  if loaded.edgeMetadata then
    (loadEdgeHashtable (fun (_ : Unit) _ => ()) (scannedEdges loaded.edgeLabelOid tables) ()).1
  else .empty

/-- `get_edge_entry_vle_fields_by_tid` -/
def getEdgeEntryVleFieldsByTid (hash : EdgeHash) (tid : Tid) : Option EdgeEntry := hash.tids tid

/-- `init_age_adjacency_payload_candidate` up to the check of the entry that was found -/
def payloadCandidateEdge (hash : EdgeHash) (edgeLabelOid : Oid) (heapTid : Tid)
    (edgeId : GraphId) : Option EdgeEntry :=
  match getEdgeEntryVleFieldsByTid hash heapTid with
  | none => none
  | some entry =>
      if entry.edgeId ≠ edgeId ∨ entry.edgeLabelTableOid ≠ edgeLabelOid then none else some entry

end Lookup

section Found

variable {tables : List EdgeTable} {rows : List ScannedEdge} {edge : ScannedEdge}
  {loaded request : EdgeLoadScope} {label : Oid}

/-- The edge is loaded, and no edge that is loaded after it has the same TID. -/
def LastOfTid (rows : List ScannedEdge) (edge : ScannedEdge) : Prop :=
  ∃ before after, rows = before ++ edge :: after ∧
    ∀ other ∈ after, other.row.tid ≠ edge.row.tid

theorem mem_scannedEdges {scope : Option Oid} :
    edge ∈ scannedEdges scope tables ↔ edge ∈ scannedEdges none tables ∧
      ∀ edgeLabelOid, scope = some edgeLabelOid → edge.relation = edgeLabelOid := by
  simp only [scannedEdges, List.mem_flatMap, List.mem_filter, List.mem_map, Option.all_none,
    and_true, Option.all_eq_true, decide_eq_true_eq]
  constructor
  · rintro ⟨table, ⟨isTable, inScope⟩, row, isRow, rfl⟩
    exact ⟨⟨table, isTable, row, isRow, rfl⟩, inScope⟩
  · rintro ⟨⟨table, isTable, row, isRow, rfl⟩, inScope⟩
    exact ⟨table, ⟨isTable, inScope⟩, row, isRow, rfl⟩

/-- A context that serves a request for a label, or for all, has scanned the label. -/
theorem scanned_of_satisfies (satisfies : graphContextSatisfiesEdgeLoad loaded request = true)
    (wants : request.edgeMetadata = true)
    (asks : request.edgeLabelOid = none ∨ request.edgeLabelOid = some label)
    (visible : edge ∈ scannedEdges (some label) tables) :
    loaded.edgeMetadata = true ∧ edge ∈ scannedEdges loaded.edgeLabelOid tables := by
  rw [graphContextSatisfiesEdgeLoad, wants, Bool.true_and] at satisfies
  split_ifs at satisfies with unloaded
  rw [Bool.not_eq_true', Bool.not_eq_false] at unloaded
  refine ⟨unloaded, ?_⟩
  rw [mem_scannedEdges] at visible ⊢
  refine ⟨visible.1, fun edgeLabelOid scope => ?_⟩
  rw [scope] at satisfies
  rcases asks with all | one
  · rw [all] at satisfies
    cases satisfies
  · rw [one] at satisfies
    exact (visible.2 label rfl).trans (of_decide_eq_true satisfies).symm

/-- What is found under a TID is the last edge with it. -/
theorem find?_entries {tid : Tid} {entry : EdgeEntry}
    (found : (entries rows).reverse.find? (fun entry => entry.tid = tid) = some entry) :
    entry.tid = tid ∧ LastOfTid rows entry.scanned := by
  obtain ⟨isTid, later, earlier, split, misses⟩ := List.find?_eq_some_iff_append.1 found
  have atTid : entry.tid = tid := of_decide_eq_true isTid
  have inOrder := congrArg List.reverse split
  rw [List.reverse_reverse, List.reverse_append, List.reverse_cons, List.append_assoc,
    List.singleton_append] at inOrder
  refine ⟨atTid, earlier.reverse.map EdgeEntry.scanned, later.reverse.map EdgeEntry.scanned, ?_,
    fun other isOther same => ?_⟩
  · rw [← entries_scanned rows, inOrder, List.map_append, List.map_cons]
  · obtain ⟨missed, isMissed, rfl⟩ := List.mem_map.1 isOther
    have misses := misses missed (List.mem_reverse.1 isMissed)
    rw [Bool.not_eq_true', decide_eq_false_iff_not] at misses
    exact misses (same.trans atTid)

theorem find?_of_lastOfTid (last : LastOfTid rows edge) :
    ∃ index, (entries rows).reverse.find? (fun entry => entry.tid = edge.row.tid) =
      some (edge.entry index) := by
  obtain ⟨before, after, rfl, misses⟩ := last
  refine ⟨before.length, ?_⟩
  rw [entries, List.mapIdx_append, List.mapIdx_cons, List.reverse_append, List.reverse_cons,
    List.append_assoc, List.find?_append, List.singleton_append,
    List.find?_cons_of_pos (by rw [Nat.zero_add]; exact decide_eq_true rfl), Nat.zero_add]
  rw [List.find?_eq_none.2, Option.none_or]
  intro entry isEntry
  obtain ⟨index, inside, rfl⟩ := List.mem_mapIdx.1 (List.mem_reverse.1 isEntry)
  rw [decide_eq_true_eq]
  exact misses _ (List.getElem_mem inside)

/-- An edge of a label is found by its TID, and a candidate for it is kept, exactly if it is the last
loaded edge with this TID. -/
theorem getEdgeEntryVleFieldsByTid_iff (tables : List EdgeTable) (loaded request : EdgeLoadScope)
    (label : Oid) (edge : ScannedEdge)
    (heaps : ((scannedEdges none tables).map fun edge => (edge.relation, edge.row.tid)).Nodup)
    (satisfies : graphContextSatisfiesEdgeLoad loaded request = true)
    (wants : request.edgeMetadata = true)
    (asks : request.edgeLabelOid = none ∨ request.edgeLabelOid = some label)
    (visible : edge ∈ scannedEdges (some label) tables) :
    ((∃ index, getEdgeEntryVleFieldsByTid (loadedEdges tables loaded) edge.row.tid =
        some (edge.entry index)) ↔
      LastOfTid (firstRows (scannedEdges loaded.edgeLabelOid tables)) edge) ∧
    ((payloadCandidateEdge (loadedEdges tables loaded) label edge.row.tid
        edge.row.edgeId).isSome = true ↔
      LastOfTid (firstRows (scannedEdges loaded.edgeLabelOid tables)) edge) := by
  obtain ⟨isLoaded, _⟩ := scanned_of_satisfies satisfies wants asks visible
  obtain ⟨isEdge, ofLabel⟩ := mem_scannedEdges.1 visible
  have tids : getEdgeEntryVleFieldsByTid (loadedEdges tables loaded) edge.row.tid =
      (entries (firstRows (scannedEdges loaded.edgeLabelOid tables))).reverse.find?
        fun entry => entry.tid = edge.row.tid := by
    rw [getEdgeEntryVleFieldsByTid, loadedEdges, if_pos isLoaded]
    exact (loadEdgeHashtable_spec _ ()).1.tids _
  rw [payloadCandidateEdge, tids]
  refine ⟨⟨?_, find?_of_lastOfTid⟩, ?_, ?_⟩
  · rintro ⟨index, found⟩
    exact (find?_entries found).2
  · intro kept
    cases found : (entries (firstRows (scannedEdges loaded.edgeLabelOid tables))).reverse.find?
        (fun entry => entry.tid = edge.row.tid) with
    | none =>
        rw [found] at kept
        cases kept
    | some entry =>
        rw [found] at kept
        dsimp only at kept
        split_ifs at kept with other
        · cases kept
        · rw [not_or, not_not, not_not] at other
          obtain ⟨isTid, last⟩ := find?_entries found
          -- the heap of the label has one row at the TID
          have isScanned : entry.scanned ∈ scannedEdges none tables := by
            obtain ⟨before, after, split, _⟩ := last
            have isFirst : entry.scanned ∈ firstRows (scannedEdges loaded.edgeLabelOid tables) := by
              rw [split]
              exact List.mem_append_right _ List.mem_cons_self
            exact (mem_scannedEdges.1 ((sublist_firstRows _).subset isFirst)).1
          have same : entry.scanned = edge :=
            List.inj_on_of_nodup_map heaps isScanned isEdge
              (Prod.ext (other.2.trans (ofLabel label rfl).symm) isTid)
          exact same ▸ last
  · intro last
    obtain ⟨index, found⟩ := find?_of_lastOfTid last
    rw [found]
    dsimp only
    rw [if_neg]
    · rfl
    · rintro (differs | differs)
      · exact differs rfl
      · exact differs (ofLabel label rfl)

/-- Two edge labels whose first rows stand at the same place of their relations -/
def twoRelations : List EdgeTable :=
  [⟨1, [⟨⟨0, 1⟩, 844424930131969, 5, 6⟩]⟩, ⟨2, [⟨⟨0, 1⟩, 1125899906842625, 6, 7⟩]⟩]

def allEdges : EdgeLoadScope := ⟨true, false, none⟩

def firstEdge : ScannedEdge := ⟨1, ⟨0, 1⟩, 844424930131969, 5, 6⟩

theorem getEdgeEntryVleFieldsByTid_other :
    ¬ ∃ index, getEdgeEntryVleFieldsByTid (loadedEdges twoRelations allEdges) firstEdge.row.tid =
      some (firstEdge.entry index) := by
  rintro ⟨index, found⟩
  have other : getEdgeEntryVleFieldsByTid (loadedEdges twoRelations allEdges) firstEdge.row.tid =
      some ⟨1125899906842625, ⟨0, 1⟩, 6, 7, 2, 1⟩ := by rfl
  rw [other] at found
  have same : (1125899906842625 : GraphId) = 844424930131969 :=
    congrArg EdgeEntry.edgeId (Option.some.inj found)
  exact absurd same (by decide)

theorem getEdgeEntryVleFieldsByTid_iff_one :
    ((∃ index, getEdgeEntryVleFieldsByTid (loadedEdges twoRelations ⟨true, false, some 1⟩)
        firstEdge.row.tid = some (firstEdge.entry index)) ↔
      LastOfTid (firstRows (scannedEdges (some 1) twoRelations)) firstEdge) ∧
    ((payloadCandidateEdge (loadedEdges twoRelations ⟨true, false, some 1⟩) 1 firstEdge.row.tid
        firstEdge.row.edgeId).isSome = true ↔
      LastOfTid (firstRows (scannedEdges (some 1) twoRelations)) firstEdge) :=
  getEdgeEntryVleFieldsByTid_iff twoRelations ⟨true, false, some 1⟩ ⟨true, false, some 1⟩ 1
    firstEdge (by decide) (by decide) rfl (.inr rfl) (by decide)

end Found

end Age.Graph.EdgeLoad
