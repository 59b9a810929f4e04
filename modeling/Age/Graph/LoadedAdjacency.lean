import Mathlib.Data.List.Perm.Subperm
import Age.Graph.EdgeLoad
import Age.Vle.Traversal

/-!
# The adjacency lists of a loaded graph

Every loaded edge is entered in the lists of its vertices, those of all labels and those of its own
one.  The outgoing lists of the start vertex get the edge before the end vertex is looked at.
-/

namespace Age.Graph.EdgeLoad

open Adjacency (Tid GraphId)
open Vle (getGraphidLabelId)

section Vertices

/-- The lists of a `vertex_entry` -/
inductive AdjKind where
  | out
  | into
  | self
  deriving DecidableEq

/-- `GraphEdgeAdjEntry` -/
structure AdjEntry where
  edgeId : GraphId
  nextVertexId : GraphId
  edgeIndex : Nat
  deriving DecidableEq

/-- The lists of a vertex in all labels, and by label -/
structure VertexEntry where
  adjEdges : AdjKind → List AdjEntry
  edgesByLabel : AdjKind → List (Oid × List AdjEntry)

def VertexEntry.empty : VertexEntry := ⟨fun _ => [], fun _ => []⟩

/-- `vertex_hashtable` -/
abbrev VertexHash := GraphId → Option VertexEntry

/-- `insert_vertex_entry`, which leaves a duplicate out -/
def insertVertexEntry (vertices : VertexHash) (vertexId : GraphId) : VertexHash :=
  match vertices vertexId with
  | some _ => vertices
  | none => Function.update vertices vertexId (some .empty)

structure VertexTable where
  labelId : Int
  ids : List GraphId

/-- The scan of `load_vertex_hashtable` with a filter: it ends when all the vertices that are needed
have come. -/
def scanNeeded (keeps : GraphId → Bool) : Nat → List GraphId → List GraphId
  | _, [] => []
  | needed, vertexId :: rest =>
      if keeps vertexId then
        if needed = 1 then [vertexId] else vertexId :: scanNeeded keeps (needed - 1) rest
      else scanNeeded keeps needed rest

/-- `load_vertex_tuple`: the vertex is in the range of those that are needed, and in the filter. -/
def keepsVertex (needed filter : List GraphId) (vertexId : GraphId) : Bool :=
  !((needed.all fun other => vertexId < other) || needed.all fun other => other < vertexId) &&
    filter.contains vertexId

/-- What `load_vertex_hashtable` reads of a table -/
def VertexTable.scan (table : VertexTable) (vertexFilter : Option (List GraphId)) : List GraphId :=
  match vertexFilter with
  | none => table.ids
  | some filter =>
      -- the label filter has the labels of the vertices in the filter
      let needed := filter.filter fun vertexId => getGraphidLabelId vertexId = table.labelId
      if needed = [] then [] else scanNeeded (keepsVertex needed filter) needed.length table.ids

/-- `load_vertex_hashtable` -/
def loadVertexHashtable (tables : List VertexTable) (vertexFilter : Option (List GraphId)) :
    VertexHash :=
  (tables.flatMap fun table => table.scan vertexFilter).foldl insertVertexEntry fun _ => none

end Vertices

section Link

/-- The loop of `append_labeled_vertex_edge` -/
def appendToLabel (edgeLabelTableOid : Oid) (adj : AdjEntry) :
    List (Oid × List AdjEntry) → Option (List (Oid × List AdjEntry))
  | [] => none
  | (label, adjEdges) :: rest =>
      if label = edgeLabelTableOid then some ((label, adjEdges ++ [adj]) :: rest)
      else (appendToLabel edgeLabelTableOid adj rest).map ((label, adjEdges) :: ·)

/-- `append_labeled_vertex_edge` -/
def appendLabeledVertexEdge (head : List (Oid × List AdjEntry)) (edgeLabelTableOid : Oid)
    (adj : AdjEntry) : List (Oid × List AdjEntry) :=
  (appendToLabel edgeLabelTableOid adj head).getD ((edgeLabelTableOid, [adj]) :: head)

/-- `get_labeled_vertex_adj_edges` -/
def getLabeledVertexAdjEdges (head : List (Oid × List AdjEntry)) (edgeLabelTableOid : Oid) :
    List AdjEntry :=
  ((head.find? fun entry => entry.1 = edgeLabelTableOid).map (·.2)).getD []

/-- An edge in the list of one end with the other end as the next vertex -/
def adjEntry (kind : AdjKind) (edge : EdgeEntry) : AdjEntry :=
  ⟨edge.edgeId, match kind with
    | .out => edge.endVertexId
    | .into | .self => edge.startVertexId, edge.edgeIndex⟩

/-- Appends an edge to the lists of one kind. -/
def VertexEntry.append (entry : VertexEntry) (kind : AdjKind) (edge : EdgeEntry) : VertexEntry where
  adjEdges := Function.update entry.adjEdges kind (entry.adjEdges kind ++ [adjEntry kind edge])
  edgesByLabel := Function.update entry.edgesByLabel kind
    (appendLabeledVertexEdge (entry.edgesByLabel kind) edge.edgeLabelTableOid (adjEntry kind edge))

def appendEdge (vertices : VertexHash) (vertexId : GraphId) (kind : AdjKind) (edge : EdgeEntry) :
    VertexHash :=
  Function.update vertices vertexId ((vertices vertexId).map fun entry => entry.append kind edge)

/-- `insert_vertex_edge` -/
def insertVertexEdge (vertices : VertexHash) (edge : EdgeEntry) : VertexHash :=
  let isSelfloop := edge.startVertexId = edge.endVertexId
  let startFound := (vertices edge.startVertexId).isSome
  let endFound := (vertices edge.endVertexId).isSome
  if startFound ∧ isSelfloop then appendEdge vertices edge.startVertexId .self edge
  else
    let linked := if startFound then appendEdge vertices edge.startVertexId .out edge else vertices
    if startFound ∧ endFound then appendEdge linked edge.endVertexId .into edge else linked

/-- The edges of a load and the vertices that they are linked to -/
structure LoadedGraph where
  hash : EdgeHash
  vertices : VertexHash

/-- `load_GRAPH_global_hashtables` with the rows of vertices and edges.  A label that has its two
adjacency indexes is not linked; `order` is that of the edge table. -/
def loadGlobalHashtables (vertexTables : List VertexTable) (edgeTables : List EdgeTable)
    (scope : Option Oid) (adjacencyIndexCandidateSource : Bool)
    (order : List EdgeEntry → List EdgeEntry) : LoadedGraph :=
  match scope with
  | none =>
      let (hash, vertices) := loadEdgeHashtable insertVertexEdge (scannedEdges none edgeTables)
        (loadVertexHashtable vertexTables none)
      ⟨hash, vertices⟩
  | some edgeLabelOid =>
      let (hash, endpoints) := loadEdgeHashtable
        (fun endpoints edge => endpoints.insert edge.startVertexId |>.insert edge.endVertexId)
        (scannedEdges (some edgeLabelOid) edgeTables) ([] : List GraphId)
      let vertices := loadVertexHashtable vertexTables
        (if endpoints = [] then none else some endpoints)
      ⟨hash, if adjacencyIndexCandidateSource then vertices
        else (order hash.edges).foldl insertVertexEdge vertices⟩

end Link

section Labels

variable {head : List (Oid × List AdjEntry)} {label : Oid} {adj : AdjEntry}

theorem appendToLabel_eq_none (missing : appendToLabel label adj head = none) :
    label ∉ head.map (·.1) := by
  induction head with
  | nil => exact List.not_mem_nil
  | cons first rest inductionHypothesis =>
      obtain ⟨other, adjEdges⟩ := first
      rw [appendToLabel] at missing
      split_ifs at missing with same
      rw [List.map_cons, List.mem_cons, not_or]
      exact ⟨Ne.symm same, inductionHypothesis (Option.map_eq_none_iff.1 missing)⟩

theorem appendToLabel_spec {appended : List (Oid × List AdjEntry)}
    (found : appendToLabel label adj head = some appended) :
    appended.map (·.1) = head.map (·.1) ∧ ∀ other, getLabeledVertexAdjEdges appended other =
      getLabeledVertexAdjEdges head other ++ if label = other then [adj] else [] := by
  induction head generalizing appended with
  | nil => cases found
  | cons first rest inductionHypothesis =>
      obtain ⟨here, adjEdges⟩ := first
      rw [appendToLabel] at found
      split_ifs at found with same
      · obtain rfl := Option.some.inj found
        refine ⟨rfl, fun other => ?_⟩
        rw [getLabeledVertexAdjEdges, getLabeledVertexAdjEdges, List.find?_cons, List.find?_cons]
        by_cases isOther : here = other
        · simp [isOther, same ▸ isOther]
        · simp [isOther, same ▸ isOther]
      · obtain ⟨later, isLater, rfl⟩ := Option.map_eq_some_iff.1 found
        obtain ⟨keys, lists⟩ := inductionHypothesis isLater
        refine ⟨by rw [List.map_cons, List.map_cons, keys], fun other => ?_⟩
        have inRest := lists other
        rw [getLabeledVertexAdjEdges, getLabeledVertexAdjEdges] at inRest ⊢
        rw [List.find?_cons, List.find?_cons]
        by_cases isOther : here = other
        · have differs : ¬ label = other := fun isLabel => same (isOther.trans isLabel.symm)
          simp [isOther, differs]
        · simpa [isOther] using inRest

/-- The list of the label of an edge gets the edge, and each label keeps one list. -/
theorem appendLabeledVertexEdge_spec (distinct : (head.map (·.1)).Nodup) :
    ((appendLabeledVertexEdge head label adj).map (·.1)).Nodup ∧
      ∀ other, getLabeledVertexAdjEdges (appendLabeledVertexEdge head label adj) other =
        getLabeledVertexAdjEdges head other ++ if label = other then [adj] else [] := by
  rw [appendLabeledVertexEdge]
  cases found : appendToLabel label adj head with
  | some appended =>
      obtain ⟨keys, lists⟩ := appendToLabel_spec found
      refine ⟨?_, lists⟩
      rw [Option.getD_some, keys]
      exact distinct
  | none =>
      have missing := appendToLabel_eq_none found
      refine ⟨List.nodup_cons.2 ⟨missing, distinct⟩, fun other => ?_⟩
      rw [Option.getD_none, getLabeledVertexAdjEdges, List.find?_cons]
      by_cases isOther : label = other
      · have absent : head.find? (fun entry => entry.1 = other) = none := by
          rw [List.find?_eq_none]
          intro entry isEntry same
          rw [decide_eq_true_eq] at same
          exact missing (List.mem_map.2 ⟨entry, isEntry, same.trans isOther.symm⟩)
        simp [isOther, getLabeledVertexAdjEdges, absent]
      · simp [isOther, getLabeledVertexAdjEdges]

end Labels

section Scan

variable {ids filter : List GraphId} {keeps : GraphId → Bool} {tables : List VertexTable}

/-- The scan finds all vertices that pass, if there are no more than are needed. -/
theorem scanNeeded_eq {needed : Nat} (positive : 0 < needed)
    (enough : (ids.filter keeps).length ≤ needed) :
    scanNeeded keeps needed ids = ids.filter keeps := by
  induction ids generalizing needed with
  | nil => rfl
  | cons vertexId rest inductionHypothesis =>
      rw [scanNeeded, List.filter_cons]
      rw [List.filter_cons] at enough
      split_ifs with kept last
      · rw [if_pos kept, List.length_cons, last] at enough
        rw [List.length_eq_zero_iff.1 (by omega : (rest.filter keeps).length = 0)]
      · rw [if_pos kept, List.length_cons] at enough
        rw [inductionHypothesis (by omega) (by omega)]
      · rw [if_neg kept] at enough
        exact inductionHypothesis positive enough

/-- A label table has each id once, and only ids of its label. -/
structure VertexTable.Keyed (table : VertexTable) : Prop where
  distinct : table.ids.Nodup
  label : ∀ vertexId ∈ table.ids, getGraphidLabelId vertexId = table.labelId

theorem mem_scan {table : VertexTable} (keyed : table.Keyed) {vertexId : GraphId} :
    vertexId ∈ table.scan (some filter) ↔ vertexId ∈ table.ids ∧ vertexId ∈ filter := by
  rw [VertexTable.scan]
  generalize isNeeded : filter.filter (fun vertexId => getGraphidLabelId vertexId = table.labelId) =
    needed
  have members (vertexId : GraphId) : vertexId ∈ needed ↔
      vertexId ∈ filter ∧ getGraphidLabelId vertexId = table.labelId := by
    rw [← isNeeded, List.mem_filter, decide_eq_true_eq]
  have kept (vertexId : GraphId) (isId : vertexId ∈ table.ids) :
      keepsVertex needed filter vertexId = true ↔ vertexId ∈ filter := by
    rw [keepsVertex, Bool.and_eq_true, List.contains_iff_mem]
    refine ⟨fun both => both.2, fun inFilter => ⟨?_, inFilter⟩⟩
    have isNeeded := (members vertexId).2 ⟨inFilter, keyed.label vertexId isId⟩
    rw [Bool.not_eq_true', Bool.or_eq_false_iff, List.all_eq_false, List.all_eq_false]
    exact ⟨⟨vertexId, isNeeded, by simp⟩, ⟨vertexId, isNeeded, by simp⟩⟩
  split_ifs with none
  · refine iff_of_false List.not_mem_nil fun both => ?_
    have isNeeded := (members vertexId).2 ⟨both.2, keyed.label vertexId both.1⟩
    rw [none] at isNeeded
    exact List.not_mem_nil isNeeded
  · have enough : (table.ids.filter (keepsVertex needed filter)).length ≤ needed.length := by
      refine ((keyed.distinct.filter _).subperm fun vertexId isKept => ?_).length_le
      obtain ⟨isId, passes⟩ := List.mem_filter.1 isKept
      exact (members vertexId).2 ⟨(kept vertexId isId).1 passes, keyed.label vertexId isId⟩
    rw [scanNeeded_eq (List.length_pos_iff.2 none) enough, List.mem_filter]
    exact and_congr_right fun isId => kept vertexId isId

theorem insertVertexEntry_foldl (vertices : VertexHash) (vertexId : GraphId) :
    ids.foldl insertVertexEntry vertices vertexId =
      (vertices vertexId).or (if vertexId ∈ ids then some .empty else none) := by
  induction ids generalizing vertices with
  | nil => simp
  | cons first rest inductionHypothesis =>
      rw [List.foldl_cons, inductionHypothesis, insertVertexEntry]
      cases found : vertices first with
      | some entry =>
          dsimp only
          by_cases same : vertexId = first
          · rw [same, found, Option.some_or, Option.some_or]
          · simp [same]
      | none =>
          dsimp only
          by_cases same : vertexId = first
          · simp [same, found]
          · simp [same]

/-- The graph has a row of the vertex. -/
def vertexExists (tables : List VertexTable) (vertexId : GraphId) : Bool :=
  (tables.flatMap VertexTable.ids).contains vertexId

theorem vertexExists_iff {vertexId : GraphId} :
    vertexExists tables vertexId = true ↔ ∃ table ∈ tables, vertexId ∈ table.ids := by
  rw [vertexExists, List.contains_iff_mem, List.mem_flatMap]

theorem loadVertexHashtable_none (vertexId : GraphId) :
    loadVertexHashtable tables none vertexId =
      if vertexExists tables vertexId = true then some .empty else none := by
  rw [loadVertexHashtable, insertVertexEntry_foldl, Option.none_or]
  refine if_congr ?_ rfl rfl
  rw [vertexExists_iff, List.mem_flatMap]
  rfl

theorem loadVertexHashtable_some (keyed : ∀ table ∈ tables, table.Keyed) (vertexId : GraphId) :
    loadVertexHashtable tables (some filter) vertexId =
      if vertexExists tables vertexId = true ∧ vertexId ∈ filter then some .empty else none := by
  rw [loadVertexHashtable, insertVertexEntry_foldl, Option.none_or]
  refine if_congr ?_ rfl rfl
  rw [vertexExists_iff, List.mem_flatMap]
  constructor
  · rintro ⟨table, isTable, isScanned⟩
    obtain ⟨isId, inFilter⟩ := (mem_scan (keyed table isTable)).1 isScanned
    exact ⟨⟨table, isTable, isId⟩, inFilter⟩
  · rintro ⟨⟨table, isTable, isId⟩, inFilter⟩
    exact ⟨table, isTable, (mem_scan (keyed table isTable)).2 ⟨isId, inFilter⟩⟩

end Scan

section Linked

variable {exist : GraphId → Bool} {done : List EdgeEntry} {vertices : VertexHash}
  {entry : VertexEntry} {edges : AdjKind → List EdgeEntry}

/-- Where an edge is entered, of the vertices that are there -/
def placed (exist : GraphId → Bool) (kind : AdjKind) (vertexId : GraphId) (edge : EdgeEntry) :
    Bool :=
  match kind with
  | .self => edge.startVertexId = edge.endVertexId && edge.startVertexId = vertexId
  | .out => edge.startVertexId ≠ edge.endVertexId && edge.startVertexId = vertexId
  | .into => edge.startVertexId ≠ edge.endVertexId && edge.endVertexId = vertexId &&
      exist edge.startVertexId

/-- The lists of a vertex have these edges, each label in one list. -/
structure VertexEntry.Lists (entry : VertexEntry) (edges : AdjKind → List EdgeEntry) : Prop where
  adjEdges : ∀ kind, entry.adjEdges kind = (edges kind).map (adjEntry kind)
  labels : ∀ kind, ((entry.edgesByLabel kind).map (·.1)).Nodup
  byLabel : ∀ kind label, getLabeledVertexAdjEdges (entry.edgesByLabel kind) label =
    ((edges kind).filter fun edge => edge.edgeLabelTableOid = label).map (adjEntry kind)

theorem VertexEntry.Lists.append (lists : entry.Lists edges) (kind : AdjKind) (edge : EdgeEntry) :
    (entry.append kind edge).Lists (Function.update edges kind (edges kind ++ [edge])) := by
  have labelled := @appendLabeledVertexEdge_spec _ edge.edgeLabelTableOid (adjEntry kind edge)
    (lists.labels kind)
  refine ⟨fun other => ?_, fun other => ?_, fun other label => ?_⟩
  · rw [VertexEntry.append]
    dsimp only
    by_cases same : other = kind
    · subst same
      rw [Function.update_self, Function.update_self, lists.adjEdges, List.map_append]
      rfl
    · rw [Function.update_of_ne same, Function.update_of_ne same, lists.adjEdges]
  · rw [VertexEntry.append]
    dsimp only
    by_cases same : other = kind
    · subst same
      rw [Function.update_self]
      exact labelled.1
    · rw [Function.update_of_ne same]
      exact lists.labels other
  · rw [VertexEntry.append]
    dsimp only
    by_cases same : other = kind
    · subst same
      rw [Function.update_self, Function.update_self, labelled.2, lists.byLabel, List.filter_append,
        List.map_append, List.filter_singleton]
      congr 1
      by_cases isLabel : edge.edgeLabelTableOid = label
      · simp [isLabel]
      · simp [isLabel]
    · rw [Function.update_of_ne same, Function.update_of_ne same, lists.byLabel]

/-- The vertices have the edges that have been linked. -/
structure Linked (exist : GraphId → Bool) (done : List EdgeEntry) (vertices : VertexHash) :
    Prop where
  found : ∀ vertexId, (vertices vertexId).isSome = exist vertexId
  lists : ∀ vertexId entry, vertices vertexId = some entry →
    entry.Lists fun kind => done.filter (placed exist kind vertexId)

theorem isSome_appendEdge (vertexId other : GraphId) (kind : AdjKind) (edge : EdgeEntry) :
    (appendEdge vertices vertexId kind edge other).isSome = (vertices other).isSome := by
  rw [appendEdge]
  by_cases same : other = vertexId
  · rw [same, Function.update_self, Option.isSome_map]
  · rw [Function.update_of_ne same]

/-- One edge more among the edges that have been placed -/
theorem placed_concat {vertexId : GraphId} {kind : AdjKind} {edge : EdgeEntry}
    (here : placed exist kind vertexId edge = true)
    (elsewhere : ∀ other, other ≠ kind → placed exist other vertexId edge = false) :
    (fun kind => (done ++ [edge]).filter (placed exist kind vertexId)) =
      Function.update (fun kind => done.filter (placed exist kind vertexId)) kind
        (done.filter (placed exist kind vertexId) ++ [edge]) := by
  funext other
  by_cases same : other = kind
  · rw [same, Function.update_self, List.filter_append, List.filter_cons_of_pos here,
      List.filter_nil]
  · rw [Function.update_of_ne same, List.filter_append,
      List.filter_cons_of_neg (by rw [elsewhere other same]; exact Bool.false_ne_true),
      List.filter_nil, List.append_nil]

theorem placed_append_of_not {vertexId : GraphId} {edge : EdgeEntry}
    (nowhere : ∀ kind, placed exist kind vertexId edge = false) :
    (fun kind => (done ++ [edge]).filter (placed exist kind vertexId)) =
      fun kind => done.filter (placed exist kind vertexId) := by
  funext kind
  rw [List.filter_append,
    List.filter_cons_of_neg (by rw [nowhere kind]; exact Bool.false_ne_true), List.filter_nil,
    List.append_nil]

theorem Linked.append (linked : Linked exist done vertices) {edge : EdgeEntry}
    {after : VertexHash}
    (step : ∀ vertexId entry, vertices vertexId = some entry →
      (∃ kind, placed exist kind vertexId edge = true ∧
        (∀ other, other ≠ kind → placed exist other vertexId edge = false) ∧
          after vertexId = some (entry.append kind edge)) ∨
      (∀ kind, placed exist kind vertexId edge = false) ∧ after vertexId = some entry)
    (missing : ∀ vertexId, vertices vertexId = none → after vertexId = none) :
    Linked exist (done ++ [edge]) after := by
  refine ⟨fun vertexId => ?_, fun vertexId entry isEntry => ?_⟩
  · rw [← linked.found]
    cases before : vertices vertexId with
    | none => rw [missing vertexId before]
    | some entry =>
        rcases step vertexId entry before with ⟨kind, _, _, isAfter⟩ | ⟨_, isAfter⟩
        · rw [isAfter, Option.isSome_some, Option.isSome_some]
        · rw [isAfter]
  · cases before : vertices vertexId with
    | none =>
        rw [missing vertexId before] at isEntry
        cases isEntry
    | some previous =>
        have lists := linked.lists vertexId previous before
        rcases step vertexId previous before with ⟨kind, here, elsewhere, isAfter⟩ | ⟨nowhere, isAfter⟩
        · obtain rfl := Option.some.inj (isAfter.symm.trans isEntry)
          rw [placed_concat here elsewhere]
          exact lists.append kind edge
        · obtain rfl := Option.some.inj (isAfter.symm.trans isEntry)
          rw [placed_append_of_not nowhere]
          exact lists

theorem appendEdge_self {vertexId : GraphId} (isEntry : vertices vertexId = some entry)
    (kind : AdjKind) (edge : EdgeEntry) :
    appendEdge vertices vertexId kind edge vertexId = some (entry.append kind edge) := by
  rw [appendEdge, Function.update_self, isEntry, Option.map_some]

theorem appendEdge_of_ne {vertexId other : GraphId} (differs : other ≠ vertexId) (kind : AdjKind)
    (edge : EdgeEntry) : appendEdge vertices vertexId kind edge other = vertices other :=
  Function.update_of_ne differs _ _

/-- `insert_vertex_edge` enters an edge where it is placed, and nowhere else. -/
theorem Linked.insertVertexEdge (linked : Linked exist done vertices) (edge : EdgeEntry) :
    Linked exist (done ++ [edge]) (insertVertexEdge vertices edge) := by
  refine linked.append (fun vertexId entry isEntry => ?_) fun vertexId isNone => ?_
  · have present : exist vertexId = true := by
      rw [← linked.found, isEntry]
      rfl
    rw [EdgeLoad.insertVertexEdge]
    dsimp only
    rw [linked.found, linked.found]
    by_cases startFound : exist edge.startVertexId = true
    · by_cases selfLoop : edge.startVertexId = edge.endVertexId
      · rw [if_pos ⟨startFound, selfLoop⟩]
        by_cases here : vertexId = edge.startVertexId
        · subst here
          refine .inl ⟨.self, by simp [placed, selfLoop], fun other differs => ?_,
            appendEdge_self isEntry _ _⟩
          cases other with
          | self => exact absurd rfl differs
          | out => simp [placed, selfLoop]
          | into => simp [placed, selfLoop]
        · refine .inr ⟨fun kind => ?_, (appendEdge_of_ne here _ _).trans isEntry⟩
          cases kind with
          | self => simp [placed, Ne.symm here]
          | out => simp [placed, selfLoop]
          | into => simp [placed, selfLoop]
      · rw [if_neg fun both => selfLoop both.2, if_pos startFound]
        by_cases isStart : vertexId = edge.startVertexId
        · subst isStart
          have atStart := appendEdge_self isEntry .out edge
          refine .inl ⟨.out, by simp [placed, selfLoop], fun other differs => ?_, ?_⟩
          · cases other with
            | self => simp [placed, selfLoop]
            | out => exact absurd rfl differs
            | into => simp [placed, Ne.symm selfLoop]
          · split_ifs
            · exact (appendEdge_of_ne selfLoop _ _).trans atStart
            · exact atStart
        · have atOther := (appendEdge_of_ne isStart .out edge).trans isEntry
          by_cases isEnd : vertexId = edge.endVertexId
          · subst isEnd
            rw [if_pos ⟨startFound, present⟩]
            refine .inl ⟨.into, by simp [placed, selfLoop, startFound], fun other differs => ?_,
              appendEdge_self atOther _ _⟩
            cases other with
            | self => simp [placed, selfLoop]
            | out => simp [placed, selfLoop]
            | into => exact absurd rfl differs
          · refine .inr ⟨fun kind => ?_, ?_⟩
            · cases kind with
              | self => simp [placed, selfLoop]
              | out => simp [placed, Ne.symm isStart]
              | into => simp [placed, Ne.symm isEnd]
            · split_ifs
              · exact (appendEdge_of_ne isEnd _ _).trans atOther
              · exact atOther
    · rw [if_neg fun both => startFound both.1, if_neg startFound, if_neg fun both => startFound both.1]
      have differs : edge.startVertexId ≠ vertexId := by
        rintro rfl
        exact startFound present
      refine .inr ⟨fun kind => ?_, isEntry⟩
      cases kind with
      | self => simp [placed, differs]
      | out => simp [placed, differs]
      | into => simp [placed, startFound]
  · have unfound : (EdgeLoad.insertVertexEdge vertices edge vertexId).isSome =
        (vertices vertexId).isSome := by
      rw [EdgeLoad.insertVertexEdge]
      dsimp only
      split_ifs <;> simp only [isSome_appendEdge]
    rw [isNone] at unfound
    exact Option.not_isSome_iff_eq_none.1 (by rw [unfound]; exact Bool.false_ne_true)

theorem Linked.foldl (edges : List EdgeEntry) (linked : Linked exist done vertices) :
    Linked exist (done ++ edges) (edges.foldl EdgeLoad.insertVertexEdge vertices) := by
  induction edges generalizing done vertices with
  | nil => rwa [List.append_nil]
  | cons edge rest inductionHypothesis =>
      rw [List.append_cons]
      exact inductionHypothesis (linked.insertVertexEdge edge)

theorem linked_nil (found : ∀ vertexId, vertices vertexId =
    if exist vertexId = true then some .empty else none) : Linked exist [] vertices := by
  refine ⟨fun vertexId => ?_, fun vertexId entry isEntry => ?_⟩
  · rw [found]
    cases exist vertexId <;> rfl
  · rw [found] at isEntry
    split_ifs at isEntry
    obtain rfl := Option.some.inj isEntry
    exact ⟨fun _ => rfl, fun _ => List.nodup_nil, fun _ _ => rfl⟩

end Linked

section Invariant

variable {exist : GraphId → Bool} {scanned : List ScannedEdge} {graph : LoadedGraph}

/-- The list in which an edge with both ends belongs -/
def occurs (exist : GraphId → Bool) (kind : AdjKind) (vertexId : GraphId) (edge : EdgeEntry) :
    Bool :=
  exist edge.startVertexId && exist edge.endVertexId &&
    match kind with
    | .self => edge.startVertexId = edge.endVertexId && edge.startVertexId = vertexId
    | .out => edge.startVertexId ≠ edge.endVertexId && edge.startVertexId = vertexId
    | .into => edge.startVertexId ≠ edge.endVertexId && edge.endVertexId = vertexId

/-- Every scanned edge is loaded once, with a dense index, and the lists of the vertices have each
edge with both ends once where it belongs, in all labels and in its own, and nothing else. -/
structure AdjacencyInvariant (exist : GraphId → Bool) (scanned : List ScannedEdge)
    (graph : LoadedGraph) : Prop where
  loaded : ∀ edge ∈ scanned, ∃ entry ∈ graph.hash.edges, entry.edgeId = edge.row.edgeId
  sound : ∀ entry ∈ graph.hash.edges, entry.scanned ∈ scanned
  distinct : (graph.hash.edges.map EdgeEntry.edgeId).Nodup
  indexes : graph.hash.edges.map EdgeEntry.edgeIndex = List.range graph.hash.edges.length
  ends : ∀ entry ∈ graph.hash.edges, (exist entry.startVertexId = true →
    (graph.vertices entry.startVertexId).isSome = true) ∧ (exist entry.endVertexId = true →
      (graph.vertices entry.endVertexId).isSome = true)
  existing : ∀ vertexId, (graph.vertices vertexId).isSome = true → exist vertexId = true
  lists : ∀ vertexId entry, graph.vertices vertexId = some entry → ∀ kind,
    (entry.adjEdges kind).Perm
        ((graph.hash.edges.filter (occurs exist kind vertexId)).map (adjEntry kind)) ∧
      ((entry.edgesByLabel kind).map (·.1)).Nodup ∧
        ∀ label, (getLabeledVertexAdjEdges (entry.edgesByLabel kind) label).Perm
          (((graph.hash.edges.filter (occurs exist kind vertexId)).filter fun edge =>
            edge.edgeLabelTableOid = label).map (adjEntry kind))

/-- An edge that is loaded with a start vertex has an end vertex.  Where nothing is linked, no edge
that is loaded has both. -/
def EndsWithStarts (exist : GraphId → Bool) (scanned : List ScannedEdge) (isLinked : Bool) : Prop :=
  ∀ edge ∈ firstRows scanned, exist edge.row.startVertexId = true →
    exist edge.row.endVertexId = isLinked

variable {present : GraphId → Bool} {done : List EdgeEntry}

theorem exists_of_occurs {kind : AdjKind} {vertexId : GraphId} {edge : EdgeEntry}
    (isOccurring : occurs exist kind vertexId edge = true) :
    exist edge.startVertexId = true ∧ exist edge.endVertexId = true := by
  cases kind <;>
  · rw [occurs, Bool.and_eq_true, Bool.and_eq_true] at isOccurring
    exact isOccurring.1

/-- The vertices that were loaded, as far as the edges need them -/
structure Presents (present exist : GraphId → Bool) (edges : List EdgeEntry) : Prop where
  existing : ∀ vertexId, present vertexId = true → exist vertexId = true
  ends : ∀ edge ∈ edges, present edge.startVertexId = exist edge.startVertexId ∧
    present edge.endVertexId = exist edge.endVertexId

theorem placed_eq_occurs {edges : List EdgeEntry} (presents : Presents present exist edges)
    {edge : EdgeEntry} (isEdge : edge ∈ edges) {vertexId : GraphId}
    (isPresent : present vertexId = true) (kind : AdjKind)
    (both : exist edge.startVertexId = true → exist edge.endVertexId = true) :
    placed present kind vertexId edge = occurs exist kind vertexId edge := by
  have exists' := presents.existing vertexId isPresent
  obtain ⟨start, _⟩ := presents.ends edge isEdge
  cases kind with
  | self =>
      by_cases here : edge.startVertexId = edge.endVertexId ∧ edge.startVertexId = vertexId
      · simp [placed, occurs, ← here.1, here.2, exists']
      · rw [not_and] at here
        by_cases selfLoop : edge.startVertexId = edge.endVertexId
        · simp [placed, occurs, here selfLoop]
        · simp [placed, occurs, selfLoop]
  | out =>
      by_cases here : edge.startVertexId = vertexId
      · have startExists : exist edge.startVertexId = true := here ▸ exists'
        simp [placed, occurs, here, here ▸ startExists, both startExists]
      · simp [placed, occurs, here]
  | into =>
      by_cases here : edge.endVertexId = vertexId
      · simp [placed, occurs, here, exists', start, Bool.and_comm]
      · simp [placed, occurs, here]

theorem endsWithStarts_iff {isLinked : Bool} :
    EndsWithStarts exist scanned isLinked ↔ ∀ edge ∈ entries (firstRows scanned),
      exist edge.startVertexId = true → exist edge.endVertexId = isLinked := by
  constructor
  · intro ends edge isEdge
    obtain ⟨row, isRow, index, rfl⟩ := mem_entries isEdge
    exact ends row isRow
  · intro ends row isRow
    obtain ⟨index, isEdge⟩ := exists_entry isRow
    exact ends _ isEdge

/-- What the hash tables give, once the lists are as they should be. -/
theorem invariant_of_lists (isHash : graph.hash.edges = entries (firstRows scanned))
    (found : ∀ vertexId, (graph.vertices vertexId).isSome = present vertexId)
    (presents : Presents present exist graph.hash.edges)
    (lists : ∀ vertexId entry, graph.vertices vertexId = some entry → ∀ kind,
      (entry.adjEdges kind).Perm
          ((graph.hash.edges.filter (occurs exist kind vertexId)).map (adjEntry kind)) ∧
        ((entry.edgesByLabel kind).map (·.1)).Nodup ∧
          ∀ label, (getLabeledVertexAdjEdges (entry.edgesByLabel kind) label).Perm
            (((graph.hash.edges.filter (occurs exist kind vertexId)).filter fun edge =>
              edge.edgeLabelTableOid = label).map (adjEntry kind))) :
    AdjacencyInvariant exist scanned graph := by
  refine ⟨fun edge isScanned => ?_, fun entry isEntry => ?_, ?_, ?_, fun entry isEntry => ?_,
    fun vertexId isSome => presents.existing vertexId (found vertexId ▸ isSome), lists⟩
  · obtain ⟨first, isFirst, same⟩ := exists_firstRows isScanned
    obtain ⟨index, isEntry⟩ := exists_entry isFirst
    exact ⟨_, isHash ▸ isEntry, same⟩
  · rw [isHash] at isEntry
    obtain ⟨row, isRow, index, rfl⟩ := mem_entries isEntry
    exact (sublist_firstRows scanned).subset isRow
  · rw [isHash, entries_edgeId]
    exact nodup_firstRows scanned
  · rw [isHash, entries_edgeIndex, length_entries]
  · obtain ⟨start, final⟩ := presents.ends entry isEntry
    rw [found, found, start, final]
    exact ⟨id, id⟩

/-- Where the edges are linked, the lists are right if no edge has a start vertex only. -/
theorem invariant_linked_iff (isHash : graph.hash.edges = entries (firstRows scanned))
    (linked : Linked present done graph.vertices) (perm : done.Perm graph.hash.edges)
    (presents : Presents present exist graph.hash.edges) :
    AdjacencyInvariant exist scanned graph ↔ EndsWithStarts exist scanned true := by
  rw [endsWithStarts_iff, ← isHash]
  constructor
  · intro invariant edge isEdge startExists
    by_contra noEnd
    obtain ⟨start, isStart⟩ := Option.isSome_iff_exists.1
      ((invariant.ends edge isEdge).1 startExists)
    have differs : edge.startVertexId ≠ edge.endVertexId := fun same => noEnd (same ▸ startExists)
    have entered : adjEntry .out edge ∈ start.adjEdges .out := by
      rw [(linked.lists _ start isStart).adjEdges .out]
      refine List.mem_map_of_mem (List.mem_filter.2 ⟨perm.mem_iff.2 isEdge, ?_⟩)
      simp [placed, differs]
    obtain ⟨other, isOther, same⟩ := List.mem_map.1
      ((invariant.lists _ start isStart .out).1.mem_iff.1 entered)
    obtain ⟨otherEdge, occursOther⟩ := List.mem_filter.1 isOther
    obtain rfl := List.inj_on_of_nodup_map invariant.distinct otherEdge isEdge
      (congrArg AdjEntry.edgeId same)
    exact noEnd (exists_of_occurs occursOther).2
  · intro ends
    refine invariant_of_lists isHash linked.found presents fun vertexId entry isEntry kind => ?_
    have isPresent : present vertexId = true := by
      rw [← linked.found, isEntry]
      rfl
    have same : graph.hash.edges.filter (occurs exist kind vertexId) =
        graph.hash.edges.filter (placed present kind vertexId) :=
      List.filter_congr fun edge isEdge =>
        (placed_eq_occurs presents isEdge isPresent kind (ends edge isEdge)).symm
    have lists := linked.lists vertexId entry isEntry
    rw [same]
    refine ⟨?_, lists.labels kind, fun label => ?_⟩
    · rw [lists.adjEdges]
      exact (perm.filter _).map _
    · rw [lists.byLabel]
      exact ((perm.filter _).filter _).map _

/-- Where they are not, all lists are empty, as they should be if no edge has both ends. -/
theorem invariant_unlinked_iff (isHash : graph.hash.edges = entries (firstRows scanned))
    (unlinked : Linked present [] graph.vertices)
    (presents : Presents present exist graph.hash.edges) :
    AdjacencyInvariant exist scanned graph ↔ EndsWithStarts exist scanned false := by
  rw [endsWithStarts_iff, ← isHash]
  constructor
  · intro invariant edge isEdge startExists
    by_contra hasEnd
    rw [Bool.not_eq_false] at hasEnd
    obtain ⟨start, isStart⟩ := Option.isSome_iff_exists.1
      ((invariant.ends edge isEdge).1 startExists)
    have nothing (kind : AdjKind) :
        graph.hash.edges.filter (occurs exist kind edge.startVertexId) = [] := by
      have empty := (invariant.lists _ start isStart kind).1
      rw [(unlinked.lists _ start isStart).adjEdges kind] at empty
      exact List.map_eq_nil_iff.1 empty.symm.eq_nil
    by_cases selfLoop : edge.startVertexId = edge.endVertexId
    · refine List.filter_eq_nil_iff.1 (nothing .self) edge isEdge ?_
      simp [occurs, hasEnd, selfLoop]
    · refine List.filter_eq_nil_iff.1 (nothing .out) edge isEdge ?_
      simp [occurs, startExists, hasEnd, selfLoop]
  · intro ends
    refine invariant_of_lists isHash unlinked.found presents fun vertexId entry isEntry kind => ?_
    have nothing : graph.hash.edges.filter (occurs exist kind vertexId) = [] := by
      rw [List.filter_eq_nil_iff]
      intro edge isEdge isOccurring
      obtain ⟨startExists, endExists⟩ := exists_of_occurs isOccurring
      rw [ends edge isEdge startExists] at endExists
      exact Bool.false_ne_true endExists
    have lists := unlinked.lists vertexId entry isEntry
    rw [nothing]
    refine ⟨?_, lists.labels kind, fun label => ?_⟩
    · rw [lists.adjEdges]
      rfl
    · rw [lists.byLabel]
      rfl

theorem mem_endpoints {edges : List EdgeEntry} {start : List GraphId} {vertexId : GraphId} :
    vertexId ∈ edges.foldl (fun endpoints edge =>
      endpoints.insert edge.startVertexId |>.insert edge.endVertexId) start ↔
      vertexId ∈ start ∨ ∃ edge ∈ edges,
        vertexId = edge.startVertexId ∨ vertexId = edge.endVertexId := by
  induction edges generalizing start with
  | nil => simp
  | cons first rest inductionHypothesis =>
      rw [List.foldl_cons, inductionHypothesis, List.mem_insert_iff, List.mem_insert_iff]
      simp only [List.mem_cons, exists_eq_or_imp]
      generalize (∃ edge, edge ∈ rest ∧ (vertexId = edge.startVertexId ∨
        vertexId = edge.endVertexId)) = later
      tauto

/-- A load of all labels or of one has every edge with both ends in their lists and nothing else in
them, exactly if no edge has a start vertex only.  One that leaves the lists to the indexes of its
label has them empty. -/
theorem loadGlobalHashtables_invariant_iff (vertexTables : List VertexTable)
    (edgeTables : List EdgeTable) (scope : Option Oid) (adjacencyIndexCandidateSource : Bool)
    (order : List EdgeEntry → List EdgeEntry) (keyed : ∀ table ∈ vertexTables, table.Keyed)
    (isOrder : ∀ edges, (order edges).Perm edges) :
    AdjacencyInvariant (vertexExists vertexTables) (scannedEdges scope edgeTables)
        (loadGlobalHashtables vertexTables edgeTables scope adjacencyIndexCandidateSource order) ↔
      EndsWithStarts (vertexExists vertexTables) (scannedEdges scope edgeTables)
        (scope.isNone || !adjacencyIndexCandidateSource) := by
  cases scope with
  | none =>
      obtain ⟨loaded, vertices⟩ := @loadEdgeHashtable_spec _ insertVertexEdge
        (scannedEdges none edgeTables) (loadVertexHashtable vertexTables none)
      have linked := (linked_nil (@loadVertexHashtable_none vertexTables)).foldl
        (entries (firstRows (scannedEdges none edgeTables)))
      rw [← vertices, List.nil_append, ← loaded.edges] at linked
      exact invariant_linked_iff loaded.edges linked (List.Perm.refl _)
        ⟨fun _ isPresent => isPresent, fun _ _ => ⟨rfl, rfl⟩⟩
  | some edgeLabelOid =>
      rw [Option.isNone_some, Bool.false_or, loadGlobalHashtables]
      dsimp only
      generalize isLoaded : loadEdgeHashtable (fun endpoints edge =>
        List.insert (EdgeEntry.endVertexId edge) (List.insert edge.startVertexId endpoints))
        (scannedEdges (some edgeLabelOid) edgeTables) ([] : List GraphId) = load
      obtain ⟨loaded, endpoints⟩ := @loadEdgeHashtable_spec _ (fun endpoints edge =>
        List.insert (EdgeEntry.endVertexId edge) (List.insert edge.startVertexId endpoints))
        (scannedEdges (some edgeLabelOid) edgeTables) ([] : List GraphId)
      rw [isLoaded] at loaded endpoints
      have isEndpoint {edge : EdgeEntry} (isEdge : edge ∈ load.1.edges) :
          edge.startVertexId ∈ load.2 ∧ edge.endVertexId ∈ load.2 := by
        rw [endpoints, mem_endpoints, mem_endpoints, ← loaded.edges]
        exact ⟨.inr ⟨edge, isEdge, .inl rfl⟩, .inr ⟨edge, isEdge, .inr rfl⟩⟩
      -- without an edge there is no filter
      obtain ⟨present, found, presents⟩ : ∃ present : GraphId → Bool,
          (∀ vertexId, loadVertexHashtable vertexTables
            (if load.2 = [] then none else some load.2) vertexId =
              if present vertexId = true then some .empty else none) ∧
            Presents present (vertexExists vertexTables) load.1.edges := by
        split_ifs with none
        · refine ⟨_, loadVertexHashtable_none, fun _ isPresent => isPresent, fun edge isEdge => ?_⟩
          have isEnd := (isEndpoint isEdge).1
          rw [none] at isEnd
          cases isEnd
        · refine ⟨fun vertexId => vertexExists vertexTables vertexId && load.2.contains vertexId,
            fun vertexId => ?_, fun vertexId both => (Bool.and_eq_true_iff.1 both).1,
            fun edge isEdge => ?_⟩
          · rw [loadVertexHashtable_some keyed]
            refine if_congr ?_ rfl rfl
            rw [Bool.and_eq_true, List.contains_iff_mem]
          · obtain ⟨isStart, isEnd⟩ := isEndpoint isEdge
            rw [List.contains_iff_mem.2 isStart, List.contains_iff_mem.2 isEnd, Bool.and_true,
              Bool.and_true]
            exact ⟨rfl, rfl⟩
      have unlinked := linked_nil found
      cases adjacencyIndexCandidateSource with
      | true => exact invariant_unlinked_iff loaded.edges unlinked presents
      | false =>
          have linked := unlinked.foldl (order load.1.edges)
          rw [List.nil_append] at linked
          exact invariant_linked_iff loaded.edges linked (isOrder _) presents

/-- One edge from a vertex that is there to one that is not -/
def danglingEdge : List EdgeTable :=
  [⟨1, [⟨⟨0, 1⟩, 1407374883553281, 844424930131973, 844424930131974⟩]⟩]

def onlyStart : List VertexTable := [⟨3, [844424930131973]⟩]

theorem loadGlobalHashtables_dangling :
    ¬ AdjacencyInvariant (vertexExists onlyStart) (scannedEdges none danglingEdge)
      (loadGlobalHashtables onlyStart danglingEdge none false id) := by
  intro invariant
  have entered :
      (loadGlobalHashtables onlyStart danglingEdge none false id).vertices 844424930131973 =
      some ⟨Function.update (fun _ => []) .out [⟨1407374883553281, 844424930131974, 0⟩],
        Function.update (fun _ => []) .out
          [(1, [⟨1407374883553281, 844424930131974, 0⟩])]⟩ := by rfl
  have isOut := (invariant.lists 844424930131973 _ entered .out).1.length_eq
  revert isOut
  decide

theorem loadGlobalHashtables_invariant_iff_one :
    AdjacencyInvariant (vertexExists onlyStart) (scannedEdges (some 1) danglingEdge)
        (loadGlobalHashtables onlyStart danglingEdge (some 1) false id) ↔
      EndsWithStarts (vertexExists onlyStart) (scannedEdges (some 1) danglingEdge) true :=
  loadGlobalHashtables_invariant_iff onlyStart danglingEdge (some 1) false id
    (fun table isTable => by
      rw [List.mem_singleton.1 isTable]
      refine ⟨List.nodup_singleton _, fun vertexId isIn => ?_⟩
      rw [List.mem_singleton.1 isIn]
      rfl) fun _ => List.Perm.refl _

end Invariant

end Age.Graph.EdgeLoad
