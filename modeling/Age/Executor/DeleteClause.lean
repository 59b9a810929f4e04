import Age.Executor.SetClause
import Age.Vle.Traversal

/-!
# The DELETE clause

`process_delete_list` deletes the entities of each input row, and
`check_for_connected_edges` looks at the end of the clause for edges of the
vertices that were deleted.  Both keep a tuple slot for each table in
`index_cache`.  Locks, privileges and row security play no part.
-/

namespace Age.Executor

open Vle (getGraphidLabelId)

section Graph

/-- A tuple of an edge table. -/
structure EdgeTuple where
  id : GraphId
  startId : GraphId
  endId : GraphId
  deriving DecidableEq

/-- The label that the id of the edge names. -/
def EdgeTuple.labelId (edge : EdgeTuple) : Int :=
  getGraphidLabelId edge.id

inductive LabelKind where
  | vertex | edge
  deriving DecidableEq

/-- `ag_label`: the kind of each label, and `get_all_edge_labels_per_graph`. -/
structure LabelCatalog where
  kind : Int → Option LabelKind
  edgeLabels : List Int
  edgeLabels_nodup : edgeLabels.Nodup
  mem_edgeLabels : ∀ label, label ∈ edgeLabels ↔ kind label = some .edge

/-- The tuples of the label tables.  The table of a label holds the entities whose id
names it. -/
structure LabelTables (catalog : LabelCatalog) where
  vertices : List GraphId
  edges : List EdgeTuple
  vertices_nodup : vertices.Nodup
  edgeIds_nodup : (edges.map EdgeTuple.id).Nodup
  vertexKind : ∀ id ∈ vertices, catalog.kind (getGraphidLabelId id) = some .vertex
  edgeKind : ∀ edge ∈ edges, catalog.kind edge.labelId = some .edge
  endpoints : ∀ edge ∈ edges, edge.startId ∈ vertices ∧ edge.endId ∈ vertices

/-- What `find_usable_btree_index_for_attr` finds for the table of a label. -/
structure LabelIndexes where
  idIndex : Bool
  startIdIndex : Bool
  endIdIndex : Bool

end Graph

section Rows

/-- The value at the position of a delete item. -/
inductive DeleteItem where
  | null
  | vertex (id : GraphId)
  | edge (id : GraphId)
  | other
  deriving DecidableEq

inductive DeleteError where
  /-- `DELETE clause can only delete vertices and edges` -/
  | canOnlyDeleteVerticesAndEdges
  /-- `label id %d does not exist` -/
  | labelIdDoesNotExist (labelId : Int)
  /-- `Cannot delete a vertex that has edge(s). Delete the edge(s) first, or try DETACH
  DELETE.` -/
  | cannotDeleteVertexThatHasEdges
  /-- `trying to store a heap tuple into wrong type of slot` -/
  | wrongTypeOfSlot
  deriving DecidableEq

/-- `table_slot_create` makes `TTSOpsBufferHeapTuple`, `ExecInitExtraTupleSlot` is asked
for `TTSOpsHeapTuple`. -/
inductive SlotOps where
  | bufferHeapTuple | heapTuple
  deriving DecidableEq

structure DeleteState where
  vertices : List GraphId
  edges : List EdgeTuple
  vertexIdHtab : List GraphId
  slot : Int → Option SlotOps

/-- The scan by id and `delete_entity` on the tuple it finds. -/
def DeleteState.deleteById (kind : LabelKind) (id : GraphId) (state : DeleteState) :
    DeleteState × Bool :=
  match kind with
  | .vertex => ({ state with vertices := state.vertices.erase id }, state.vertices.contains id)
  | .edge =>
      match state.edges.find? fun edge => edge.id = id with
      | some edge => ({ state with edges := state.edges.erase edge }, true)
      | none => (state, false)

/-- The slot of the table, created for an index scan when there is none. -/
def DeleteState.indexSlot (label : Int) (state : DeleteState) : DeleteState :=
  { state with
    slot := Function.update state.slot label ((state.slot label).or (some .bufferHeapTuple)) }

variable (catalog : LabelCatalog) (indexes : Int → LabelIndexes)

/-- The body of the loop in `process_delete_list`, after `extract_entity`. -/
def processEntity (entityType : LabelKind) (id : GraphId) (state : DeleteState) :
    Except DeleteError DeleteState :=
  let labelId := getGraphidLabelId id
  match catalog.kind labelId with
  | none => .error (.labelIdDoesNotExist labelId)
  | some kind =>
      let opened := if (indexes labelId).idIndex then state.indexSlot labelId else state
      match opened.deleteById kind id with
      | (rest, deleted) =>
          if entityType = .vertex ∧ deleted then
            .ok { rest with vertexIdHtab := rest.vertexIdHtab.insert id }
          else .ok rest

def processDeleteItem (state : DeleteState) : DeleteItem → Except DeleteError DeleteState
  | .null => .ok state
  | .other => .error .canOnlyDeleteVerticesAndEdges
  | .vertex id => processEntity catalog indexes .vertex id state
  | .edge id => processEntity catalog indexes .edge id state

/-- `process_delete_list` -/
def processDeleteList (state : DeleteState) (row : List DeleteItem) :
    Except DeleteError DeleteState :=
  row.foldlM (processDeleteItem catalog indexes) state

end Rows

section ConnectedEdges

variable (indexes : Int → LabelIndexes) (detach : Bool) (htab : List GraphId)

/-- The tuples of one scan: a connected edge is deleted, or it is the error. -/
def deleteFoundEdges (connected : EdgeTuple → Bool) :
    List EdgeTuple → List EdgeTuple → Except DeleteError (List EdgeTuple)
  | [], edges => .ok edges
  | tuple :: rest, edges =>
      if connected tuple then
        if detach then deleteFoundEdges connected rest (edges.erase tuple)
        else .error .cannotDeleteVertexThatHasEdges
      else deleteFoundEdges connected rest edges

/-- `process_edges_by_index`: a scan for each id of the hash table.  Pass two skips the
edges that pass one has dealt with. -/
def processEdgesByIndex (attr : EdgeTuple → GraphId) (isPassTwo : Bool) (label : Int) :
    List GraphId → List EdgeTuple → Except DeleteError (List EdgeTuple)
  | [], edges => .ok edges
  | vid :: vids, edges => do
      let edges ← deleteFoundEdges detach
        (fun tuple => !(isPassTwo && htab.contains tuple.startId))
        (edges.filter fun tuple => tuple.labelId = label ∧ attr tuple = vid) edges
      processEdgesByIndex attr isPassTwo label vids edges

/-- The edge has an end in the hash table. -/
def connectedToDeleted (tuple : EdgeTuple) : Bool :=
  htab.contains tuple.startId || htab.contains tuple.endId

/-- The table scan of `check_for_connected_edges`.  `ExecStoreHeapTuple` takes the slot of
a heap tuple only, so that the first tuple is the error for any other. -/
def scanEdgeTable (ops : SlotOps) (found edges : List EdgeTuple) :
    Except DeleteError (List EdgeTuple) :=
  if found ≠ [] ∧ ops ≠ .heapTuple then .error .wrongTypeOfSlot
  else deleteFoundEdges detach (connectedToDeleted htab) found edges

/-- One label of `check_for_connected_edges`, with the slot that the rows have left in the
entry of its table. -/
def checkEdgeLabel (slot : Int → Option SlotOps) (edges : List EdgeTuple) (label : Int) :
    Except DeleteError (List EdgeTuple) :=
  if (indexes label).startIdIndex && (indexes label).endIdIndex then do
    let edges ←
      processEdgesByIndex detach htab EdgeTuple.startId false label htab edges
    processEdgesByIndex detach htab EdgeTuple.endId true label htab edges
  else
    scanEdgeTable detach htab ((slot label).getD .heapTuple)
      (edges.filter fun tuple => tuple.labelId = label) edges

/-- `check_for_connected_edges` -/
def checkForConnectedEdges (edgeLabels : List Int) (slot : Int → Option SlotOps)
    (edges : List EdgeTuple) : Except DeleteError (List EdgeTuple) :=
  if htab = [] then .ok edges
  else edgeLabels.foldlM (checkEdgeLabel indexes detach htab slot) edges

end ConnectedEdges

/-- The clause: `exec_cypher_delete` for each row, then `end_cypher_delete`. -/
def cypherDelete (catalog : LabelCatalog) (indexes : Int → LabelIndexes) (detach : Bool)
    (tables : LabelTables catalog) (rows : List (List DeleteItem)) :
    Except DeleteError (List GraphId × List EdgeTuple) := do
  let state ← rows.foldlM (processDeleteList catalog indexes)
    ⟨tables.vertices, tables.edges, [], fun _ => none⟩
  let edges ← checkForConnectedEdges indexes detach state.vertexIdHtab catalog.edgeLabels
    state.slot state.edges
  return (state.vertices, edges)

section ConnectedEdgesFacts

variable {indexes : Int → LabelIndexes} {detach : Bool} {htab : List GraphId}

/-- What a check of some edges leaves: all but the edges that are hit, unless there is one
and it may not be deleted. -/
def deleteHits (detach : Bool) (hit : EdgeTuple → Bool) (edges : List EdgeTuple) :
    Except DeleteError (List EdgeTuple) :=
  if detach || !edges.any hit then .ok (edges.filter fun tuple => !hit tuple)
  else .error .cannotDeleteVertexThatHasEdges

theorem deleteHits_none {hit : EdgeTuple → Bool} {edges : List EdgeTuple}
    (unhit : ∀ tuple ∈ edges, hit tuple = false) : deleteHits detach hit edges = .ok edges := by
  have noHit : edges.any hit = false := by
    simpa using unhit
  have all : edges.filter (fun tuple => !hit tuple) = edges :=
    List.filter_eq_self.2 fun tuple tupleMem => by simp [unhit tuple tupleMem]
  simp [deleteHits, noHit, all]

theorem deleteHits_congr {hit hit' : EdgeTuple → Bool} {edges : List EdgeTuple}
    (same : ∀ tuple ∈ edges, hit tuple = hit' tuple) :
    deleteHits detach hit edges = deleteHits detach hit' edges := by
  have sameAny : edges.any hit = edges.any hit' := by
    rw [Bool.eq_iff_iff, List.any_eq_true, List.any_eq_true]
    exact exists_congr fun tuple => and_congr_right fun tupleMem => by
      rw [same tuple tupleMem]
  have sameFilter : edges.filter (fun tuple => !hit tuple) =
      edges.filter fun tuple => !hit' tuple :=
    List.filter_congr fun tuple tupleMem => by rw [same tuple tupleMem]
  rw [deleteHits, deleteHits, sameAny, sameFilter]

/-- Two checks one after the other are one check. -/
theorem deleteHits_bind (first second : EdgeTuple → Bool) (edges : List EdgeTuple) :
    (deleteHits detach first edges >>= fun rest => deleteHits detach second rest) =
      deleteHits detach (fun tuple => first tuple || second tuple) edges := by
  cases detach with
  | true =>
      simp only [deleteHits, Bool.true_or, if_true]
      change Except.ok _ = _
      rw [List.filter_filter]
      congr 1
      exact List.filter_congr fun tuple _ => by
        cases first tuple <;> cases second tuple <;> rfl
  | false =>
      cases firstHit : edges.any first with
      | true =>
          have eitherHit : edges.any (fun tuple => first tuple || second tuple) = true := by
            obtain ⟨tuple, tupleMem, hit⟩ := List.any_eq_true.1 firstHit
            exact List.any_eq_true.2 ⟨tuple, tupleMem, by rw [hit, Bool.true_or]⟩
          simp only [deleteHits, firstHit, eitherHit]
          rfl
      | false =>
          have unhit : ∀ tuple ∈ edges, first tuple = false := by
            simpa using firstHit
          rw [deleteHits_none unhit]
          change deleteHits false second edges = _
          exact deleteHits_congr fun tuple tupleMem => by
            rw [unhit tuple tupleMem, Bool.false_or]

theorem deleteFoundEdges_eq (connected : EdgeTuple → Bool) {found edges : List EdgeTuple}
    (distinct : edges.Nodup) (foundDistinct : found.Nodup)
    (foundMem : ∀ tuple ∈ found, tuple ∈ edges) :
    deleteFoundEdges detach connected found edges =
      deleteHits detach (fun tuple => found.contains tuple && connected tuple) edges := by
  induction found generalizing edges with
  | nil => exact (deleteHits_none fun _ _ => rfl).symm
  | cons tuple rest hypothesis =>
      obtain ⟨tupleOut, restDistinct⟩ := List.nodup_cons.1 foundDistinct
      have here : tuple ∈ edges := foundMem tuple List.mem_cons_self
      unfold deleteFoundEdges
      cases hit : connected tuple with
      | true =>
          by_cases allowed : detach = true
          · rw [if_pos rfl, if_pos allowed, hypothesis (distinct.erase tuple) restDistinct]
            · simp only [deleteHits, allowed, Bool.true_or, if_true]
              rw [distinct.erase_eq_filter, List.filter_filter]
              congr 1
              refine List.filter_congr fun other _ => ?_
              by_cases same : other = tuple
              · subst same
                simp [hit]
              · simp [same]
            · intro other otherMem
              exact distinct.mem_erase_iff.2 ⟨fun same => tupleOut (same ▸ otherMem),
                foundMem other (List.mem_cons_of_mem _ otherMem)⟩
          · have anyHit : edges.any (fun other =>
                (tuple :: rest).contains other && connected other) = true :=
              List.any_eq_true.2 ⟨tuple, here, by simp [hit]⟩
            rw [if_pos rfl, if_neg allowed]
            unfold deleteHits
            rw [anyHit, Bool.not_true, Bool.or_false, if_neg allowed]
      | false =>
          rw [if_neg Bool.false_ne_true, hypothesis distinct restDistinct
            fun other otherMem => foundMem other (List.mem_cons_of_mem _ otherMem)]
          refine deleteHits_congr fun other _ => ?_
          by_cases same : other = tuple
          · subst same
            simp [hit]
          · simp [same]

/-- What comes after a check depends on the edges that the check leaves. -/
theorem deleteHits_bind_congr {hit : EdgeTuple → Bool} {edges : List EdgeTuple}
    {first second : List EdgeTuple → Except DeleteError (List EdgeTuple)}
    (distinct : edges.Nodup) (same : ∀ rest : List EdgeTuple, rest.Nodup →
      (∀ tuple ∈ rest, tuple ∈ edges) → first rest = second rest) :
    (deleteHits detach hit edges >>= first) = (deleteHits detach hit edges >>= second) := by
  unfold deleteHits
  split
  · exact same _ (distinct.filter _) fun tuple tupleMem => List.mem_of_mem_filter tupleMem
  · rfl

theorem processEdgesByIndex_eq (attr : EdgeTuple → GraphId) (isPassTwo : Bool) (label : Int)
    {vids : List GraphId} {edges : List EdgeTuple} (distinct : edges.Nodup) :
    processEdgesByIndex detach htab attr isPassTwo label vids edges =
      deleteHits detach (fun tuple => decide (tuple.labelId = label) &&
        vids.contains (attr tuple) && !(isPassTwo && htab.contains tuple.startId)) edges := by
  induction vids generalizing edges with
  | nil => exact (deleteHits_none fun _ _ => by simp).symm
  | cons vid vids hypothesis =>
      unfold processEdgesByIndex
      rw [deleteFoundEdges_eq _ distinct (distinct.filter _)
          fun tuple found => List.mem_of_mem_filter found,
        deleteHits_bind_congr distinct fun rest restDistinct _ => hypothesis restDistinct,
        deleteHits_bind]
      refine deleteHits_congr fun tuple tupleMem => ?_
      have scanned : (edges.filter fun tuple => decide (tuple.labelId = label ∧
          attr tuple = vid)).contains tuple =
            (decide (tuple.labelId = label) && decide (attr tuple = vid)) := by
        rw [Bool.eq_iff_iff]
        simp [tupleMem]
      rw [scanned, List.contains_cons]
      generalize decide (tuple.labelId = label) = ofLabel
      generalize vids.contains (attr tuple) = later
      have beq : (attr tuple == vid) = decide (attr tuple = vid) := by
        rw [Bool.eq_iff_iff]
        simp
      rw [beq]
      generalize decide (attr tuple = vid) = now
      generalize (isPassTwo && htab.contains tuple.startId) = skipped
      cases ofLabel <;> cases later <;> cases now <;> cases skipped <;> rfl

/-- The table scan of the label is asked to fill the slot of an index scan. -/
def slotMisused (indexes : Int → LabelIndexes) (slot : Int → Option SlotOps) (label : Int) :
    Bool :=
  !((indexes label).startIdIndex && (indexes label).endIdIndex) &&
    decide (slot label = some .bufferHeapTuple)

theorem checkEdgeLabel_misused {slot : Int → Option SlotOps} {label : Int}
    {edges : List EdgeTuple} (misused : slotMisused indexes slot label = true)
    (seen : ∃ tuple ∈ edges, tuple.labelId = label) :
    checkEdgeLabel indexes detach htab slot edges label = .error .wrongTypeOfSlot := by
  obtain ⟨tuple, tupleMem, ofLabel⟩ := seen
  simp only [slotMisused, Bool.and_eq_true, Bool.not_eq_true', decide_eq_true_eq] at misused
  have found : (edges.filter fun tuple => decide (tuple.labelId = label)) ≠ [] :=
    List.ne_nil_of_mem (List.mem_filter.2 ⟨tupleMem, decide_eq_true ofLabel⟩)
  unfold checkEdgeLabel scanEdgeTable
  rw [if_neg (by rw [misused.1]; exact Bool.false_ne_true), misused.2,
    if_pos ⟨found, by decide⟩]

theorem checkEdgeLabel_eq {slot : Int → Option SlotOps} {label : Int} {edges : List EdgeTuple}
    (distinct : edges.Nodup)
    (usable : slotMisused indexes slot label = false ∨ ∀ tuple ∈ edges, tuple.labelId ≠ label) :
    checkEdgeLabel indexes detach htab slot edges label =
      deleteHits detach
        (fun tuple => decide (tuple.labelId = label) && connectedToDeleted htab tuple)
        edges := by
  unfold checkEdgeLabel
  split
  case isTrue both =>
    rw [processEdgesByIndex_eq _ _ _ distinct,
      deleteHits_bind_congr distinct fun rest restDistinct _ =>
        processEdgesByIndex_eq _ _ _ restDistinct,
      deleteHits_bind]
    refine deleteHits_congr fun tuple _ => ?_
    unfold connectedToDeleted
    cases decide (tuple.labelId = label) <;> cases htab.contains tuple.startId <;>
      cases htab.contains tuple.endId <;> rfl
  case isFalse missing =>
    have fits : ¬((edges.filter fun tuple => decide (tuple.labelId = label)) ≠ [] ∧
        (slot label).getD .heapTuple ≠ .heapTuple) := by
      rintro ⟨found, other⟩
      rcases usable with usable | usable
      · simp only [slotMisused, missing, Bool.not_false, Bool.true_and,
          decide_eq_false_iff_not] at usable
        cases kind : slot label with
        | none => exact other (by rw [kind]; rfl)
        | some ops =>
            cases ops with
            | bufferHeapTuple => exact usable kind
            | heapTuple => exact other (by rw [kind]; rfl)
      · exact found (List.filter_eq_nil_iff.2 fun tuple tupleMem => by
          simpa using usable tuple tupleMem)
    unfold scanEdgeTable
    rw [if_neg fits, deleteFoundEdges_eq _ distinct (distinct.filter _)
      fun tuple found => List.mem_of_mem_filter found]
    refine deleteHits_congr fun tuple tupleMem => ?_
    have scanned : (edges.filter fun tuple => decide (tuple.labelId = label)).contains tuple =
        decide (tuple.labelId = label) := by
      rw [Bool.eq_iff_iff]
      simp [tupleMem]
    rw [scanned]

/-- The check of every label.  An edge of a label whose slot is misused is an error,
whatever its ends are. -/
theorem checkEdgeLabels_eq {slot : Int → Option SlotOps} {labels : List Int}
    {edges : List EdgeTuple} (distinct : edges.Nodup) (labelsDistinct : labels.Nodup)
    (usable : ∀ label ∈ labels, slotMisused indexes slot label = false ∨
      ∀ tuple ∈ edges, tuple.labelId ≠ label) :
    labels.foldlM (checkEdgeLabel indexes detach htab slot) edges =
      deleteHits detach
        (fun tuple => labels.contains tuple.labelId && connectedToDeleted htab tuple)
        edges := by
  induction labels generalizing edges with
  | nil => exact (deleteHits_none fun _ _ => by simp).symm
  | cons label labels hypothesis =>
      rw [List.foldlM_cons, checkEdgeLabel_eq distinct (usable label List.mem_cons_self),
        deleteHits_bind_congr distinct fun rest restDistinct restMem =>
          hypothesis restDistinct (List.nodup_cons.1 labelsDistinct).2 fun other otherMem =>
            (usable other (List.mem_cons_of_mem _ otherMem)).imp_right fun unseen tuple tupleMem =>
              unseen tuple (restMem tuple tupleMem),
        deleteHits_bind]
      refine deleteHits_congr fun tuple _ => ?_
      have member : (label :: labels).contains tuple.labelId =
          (decide (tuple.labelId = label) || labels.contains tuple.labelId) := by
        rw [Bool.eq_iff_iff]
        simp
      rw [member]
      cases decide (tuple.labelId = label) <;> cases labels.contains tuple.labelId <;>
        cases connectedToDeleted htab tuple <;> rfl

/-- With a misused slot and an edge of its label the clause fails. -/
theorem checkEdgeLabels_misused {slot : Int → Option SlotOps} {labels : List Int} {label : Int}
    {edges : List EdgeTuple} (distinct : edges.Nodup) (labelsDistinct : labels.Nodup)
    (labelMem : label ∈ labels) (misused : slotMisused indexes slot label = true)
    (seen : ∃ tuple ∈ edges, tuple.labelId = label) :
    ∃ error, labels.foldlM (checkEdgeLabel indexes detach htab slot) edges = .error error := by
  induction labels generalizing edges with
  | nil => exact nomatch labelMem
  | cons head labels hypothesis =>
      rw [List.foldlM_cons]
      by_cases clash : slotMisused indexes slot head = true ∧
          ∃ tuple ∈ edges, tuple.labelId = head
      · rw [checkEdgeLabel_misused clash.1 clash.2]
        exact ⟨_, rfl⟩
      · have later : label ∈ labels := by
          rcases List.mem_cons.1 labelMem with same | later
          · exact (clash (same ▸ ⟨misused, seen⟩)).elim
          · exact later
        have other : label ≠ head := fun same =>
          (List.nodup_cons.1 labelsDistinct).1 (same ▸ later)
        have usable : slotMisused indexes slot head = false ∨
            ∀ tuple ∈ edges, tuple.labelId ≠ head := by
          by_cases headMisused : slotMisused indexes slot head = true
          · exact Or.inr fun tuple tupleMem ofHead =>
              clash ⟨headMisused, tuple, tupleMem, ofHead⟩
          · exact Or.inl (by simpa using headMisused)
        rw [checkEdgeLabel_eq distinct usable]
        unfold deleteHits
        split
        · obtain ⟨tuple, tupleMem, ofLabel⟩ := seen
          refine hypothesis (distinct.filter _) (List.nodup_cons.1 labelsDistinct).2 later
            ⟨tuple, List.mem_filter.2 ⟨tupleMem, ?_⟩, ofLabel⟩
          simp [ofLabel, other]
        · exact ⟨_, rfl⟩

end ConnectedEdgesFacts

section RowFacts

variable {catalog : LabelCatalog} {indexes : Int → LabelIndexes}

/-- The label that the id of the item names. -/
def DeleteItem.labelId? : DeleteItem → Option Int
  | .vertex id | .edge id => some (getGraphidLabelId id)
  | .null | .other => none

/-- The item is NULL, or an entity of a label of its kind. -/
def DeleteItem.WellTyped (catalog : LabelCatalog) : DeleteItem → Prop
  | .null => True
  | .vertex id => catalog.kind (getGraphidLabelId id) = some .vertex
  | .edge id => catalog.kind (getGraphidLabelId id) = some .edge
  | .other => False

/-- The table of the label is scanned by its id index for one of the items. -/
def scannedById (indexes : Int → LabelIndexes) (items : List DeleteItem) (label : Int) : Bool :=
  (indexes label).idIndex && items.any fun item => item.labelId? = some label

/-- What the items do to the tables and to what the end of the clause reads. -/
structure DeletedBy (indexes : Int → LabelIndexes) (items : List DeleteItem)
    (before after : DeleteState) : Prop where
  vertices : after.vertices = before.vertices.filter fun id => !items.contains (.vertex id)
  edges : after.edges = before.edges.filter fun edge => !items.contains (.edge edge.id)
  vertexIdHtab : ∀ id, id ∈ after.vertexIdHtab ↔
    id ∈ before.vertexIdHtab ∨ id ∈ before.vertices ∧ .vertex id ∈ items
  slot : ∀ label, after.slot label =
    (before.slot label).or
      (if scannedById indexes items label then some .bufferHeapTuple else none)

theorem DeletedBy.refl (state : DeleteState) : DeletedBy indexes [] state state where
  vertices := by simp
  edges := by simp
  vertexIdHtab id := by simp
  slot label := by simp [scannedById]

theorem DeletedBy.trans {first second : List DeleteItem} {before between after : DeleteState}
    (one : DeletedBy indexes first before between) (two : DeletedBy indexes second between after) :
    DeletedBy indexes (first ++ second) before after where
  vertices := by
    rw [two.vertices, one.vertices, List.filter_filter]
    exact List.filter_congr fun id _ => by simp [Bool.and_comm]
  edges := by
    rw [two.edges, one.edges, List.filter_filter]
    exact List.filter_congr fun edge _ => by simp [Bool.and_comm]
  vertexIdHtab id := by
    rw [two.vertexIdHtab, one.vertexIdHtab, one.vertices, List.mem_filter, List.mem_append]
    by_cases listed : DeleteItem.vertex id ∈ first
    · simp [listed]
    · simp [listed]
  slot label := by
    rw [two.slot, one.slot]
    unfold scannedById
    rw [List.any_append]
    cases before.slot label <;> cases (indexes label).idIndex <;>
      cases first.any (fun item => decide (item.labelId? = some label)) <;>
      cases second.any (fun item => decide (item.labelId? = some label)) <;> rfl

/-- The tables hold no entity twice. -/
structure DeleteState.Distinct (state : DeleteState) : Prop where
  vertices : state.vertices.Nodup
  edgeIds : (state.edges.map EdgeTuple.id).Nodup

theorem DeletedBy.distinct {items : List DeleteItem} {before after : DeleteState}
    (done : DeletedBy indexes items before after) (distinct : before.Distinct) :
    after.Distinct where
  vertices := done.vertices ▸ distinct.vertices.filter _
  edgeIds := by
    rw [done.edges]
    exact distinct.edgeIds.sublist (List.filter_sublist.map _)

theorem opened_slot (state : DeleteState) (item : DeleteItem) {id : GraphId}
    (names : item.labelId? = some (getGraphidLabelId id)) (label : Int) :
    (if (indexes (getGraphidLabelId id)).idIndex then state.indexSlot (getGraphidLabelId id)
      else state).slot label =
      (state.slot label).or
        (if scannedById indexes [item] label then some .bufferHeapTuple else none) := by
  unfold scannedById
  rw [List.any_cons, List.any_nil, Bool.or_false, names]
  by_cases same : label = getGraphidLabelId id
  · subst same
    cases (indexes (getGraphidLabelId id)).idIndex with
    | true => simp [DeleteState.indexSlot]
    | false => simp
  · have other : ¬some (getGraphidLabelId id) = some label := fun eq =>
      same (Option.some.inj eq).symm
    cases (indexes (getGraphidLabelId id)).idIndex with
    | true => simp [DeleteState.indexSlot, Function.update_of_ne same, other]
    | false => simp [other]

theorem opened_tables (state : DeleteState) (label : Int) (used : Bool) :
    (if used = true then state.indexSlot label else state).vertices = state.vertices ∧
    (if used = true then state.indexSlot label else state).edges = state.edges ∧
    (if used = true then state.indexSlot label else state).vertexIdHtab = state.vertexIdHtab := by
  cases used <;> exact ⟨rfl, rfl, rfl⟩

theorem processVertex_deletes {state : DeleteState} {id : GraphId} (distinct : state.Distinct)
    (typed : catalog.kind (getGraphidLabelId id) = some .vertex) :
    ∃ after, processEntity catalog indexes .vertex id state = .ok after ∧
      DeletedBy indexes [.vertex id] state after := by
  obtain ⟨sameVertices, sameEdges, sameHtab⟩ := opened_tables state (getGraphidLabelId id)
    (indexes (getGraphidLabelId id)).idIndex
  have slots := @opened_slot indexes state (.vertex id) id rfl
  revert sameVertices sameEdges sameHtab slots
  unfold processEntity
  dsimp only
  rw [typed]
  generalize (if (indexes (getGraphidLabelId id)).idIndex = true then
    state.indexSlot (getGraphidLabelId id) else state) = opened
  intro sameVertices sameEdges sameHtab slots
  have erased : opened.vertices.erase id =
      state.vertices.filter fun other => !List.contains [DeleteItem.vertex id] (.vertex other) := by
    rw [sameVertices, distinct.vertices.erase_eq_filter]
    exact List.filter_congr fun other _ => by
      by_cases same : other = id <;> simp [same]
  have kept : opened.edges =
      state.edges.filter fun edge => !List.contains [DeleteItem.vertex id] (.edge edge.id) := by
    rw [sameEdges]
    exact (List.filter_eq_self.2 fun edge _ => by simp).symm
  by_cases present : id ∈ opened.vertices
  · refine ⟨_, if_pos ⟨rfl, List.contains_iff_mem.2 present⟩, erased, kept, fun other => ?_, slots⟩
    rw [sameVertices] at present
    change other ∈ opened.vertexIdHtab.insert id ↔ _
    rw [List.mem_insert_iff, sameHtab, List.mem_singleton, DeleteItem.vertex.injEq]
    constructor
    · rintro (rfl | old)
      · exact Or.inr ⟨present, rfl⟩
      · exact Or.inl old
    · rintro (old | ⟨_, rfl⟩)
      · exact Or.inr old
      · exact Or.inl rfl
  · refine ⟨_, if_neg fun found => present (List.contains_iff_mem.1 found.2), erased, kept,
      fun other => ?_, slots⟩
    rw [sameVertices] at present
    change other ∈ opened.vertexIdHtab ↔ _
    rw [sameHtab, List.mem_singleton, DeleteItem.vertex.injEq]
    constructor
    · exact Or.inl
    · rintro (old | ⟨here, rfl⟩)
      · exact old
      · exact (present here).elim

theorem processEdge_deletes {state : DeleteState} {id : GraphId} (distinct : state.Distinct)
    (typed : catalog.kind (getGraphidLabelId id) = some .edge) :
    ∃ after, processEntity catalog indexes .edge id state = .ok after ∧
      DeletedBy indexes [.edge id] state after := by
  obtain ⟨sameVertices, sameEdges, sameHtab⟩ := opened_tables state (getGraphidLabelId id)
    (indexes (getGraphidLabelId id)).idIndex
  have slots := @opened_slot indexes state (.edge id) id rfl
  revert sameVertices sameEdges sameHtab slots
  unfold processEntity
  dsimp only
  rw [typed]
  generalize (if (indexes (getGraphidLabelId id)).idIndex = true then
    state.indexSlot (getGraphidLabelId id) else state) = opened
  intro sameVertices sameEdges sameHtab slots
  have kept : opened.vertices =
      state.vertices.filter fun other => !List.contains [DeleteItem.edge id] (.vertex other) := by
    rw [sameVertices]
    exact (List.filter_eq_self.2 fun other _ => by simp).symm
  have htab : ∀ other, other ∈ opened.vertexIdHtab ↔ other ∈ state.vertexIdHtab ∨
      other ∈ state.vertices ∧ DeleteItem.vertex other ∈ [DeleteItem.edge id] := fun other => by
    rw [sameHtab]
    simp
  unfold DeleteState.deleteById
  dsimp only
  cases found : opened.edges.find? (fun edge => decide (edge.id = id)) with
  | some edge =>
      rw [sameEdges] at found
      have ofId : edge.id = id := by simpa using List.find?_some found
      have edgeMem : edge ∈ state.edges := List.mem_of_find?_eq_some found
      simp only [reduceCtorEq, false_and, if_false]
      refine ⟨_, rfl, kept, ?_, htab, slots⟩
      change opened.edges.erase edge = _
      rw [sameEdges, distinct.edgeIds.of_map.erase_eq_filter]
      refine List.filter_congr fun other otherMem => ?_
      have same : other = edge ↔ other.id = id :=
        ⟨fun eq => eq ▸ ofId, fun eq =>
          List.inj_on_of_nodup_map distinct.edgeIds otherMem edgeMem (eq.trans ofId.symm)⟩
      by_cases eq : other = edge
      · have idEq := same.1 eq
        subst eq
        simp [idEq]
      · have idNe : other.id ≠ id := fun idEq => eq (same.2 idEq)
        simp [eq, idNe]
  | none =>
      rw [sameEdges] at found
      simp only [reduceCtorEq, false_and, if_false]
      refine ⟨_, rfl, kept, ?_, htab, slots⟩
      rw [sameEdges]
      refine (List.filter_eq_self.2 fun edge edgeMem => ?_).symm
      have idNe : edge.id ≠ id := by simpa using List.find?_eq_none.1 found edge edgeMem
      simp [idNe]

theorem processDeleteItem_deletes {state : DeleteState} {item : DeleteItem}
    (distinct : state.Distinct) (typed : item.WellTyped catalog) :
    ∃ after, processDeleteItem catalog indexes state item = .ok after ∧
      DeletedBy indexes [item] state after := by
  cases item with
  | null =>
      refine ⟨state, rfl, ?_, ?_, fun id => ?_, fun label => ?_⟩
      · simp
      · simp
      · simp
      · simp [scannedById, DeleteItem.labelId?]
  | vertex id => exact processVertex_deletes distinct typed
  | edge id => exact processEdge_deletes distinct typed
  | other => exact typed.elim

theorem processDeleteList_deletes {row : List DeleteItem} {state : DeleteState}
    (distinct : state.Distinct) (typed : ∀ item ∈ row, item.WellTyped catalog) :
    ∃ after, processDeleteList catalog indexes state row = .ok after ∧
      DeletedBy indexes row state after := by
  unfold processDeleteList
  induction row generalizing state with
  | nil => exact ⟨state, rfl, .refl state⟩
  | cons item row hypothesis =>
      obtain ⟨between, ran, one⟩ := @processDeleteItem_deletes catalog indexes _ _ distinct
        (typed item List.mem_cons_self)
      obtain ⟨after, rest, two⟩ := hypothesis (one.distinct distinct)
        fun other otherMem => typed other (List.mem_cons_of_mem _ otherMem)
      refine ⟨after, ?_, one.trans two⟩
      rw [List.foldlM_cons, ran]
      exact rest

theorem deleteRows_deletes {rows : List (List DeleteItem)} {state : DeleteState}
    (distinct : state.Distinct) (typed : ∀ row ∈ rows, ∀ item ∈ row, item.WellTyped catalog) :
    ∃ after, rows.foldlM (processDeleteList catalog indexes) state = .ok after ∧
      DeletedBy indexes rows.flatten state after := by
  induction rows generalizing state with
  | nil => exact ⟨state, rfl, .refl state⟩
  | cons row rows hypothesis =>
      obtain ⟨between, ran, one⟩ := @processDeleteList_deletes catalog indexes _ _ distinct
        (typed row List.mem_cons_self)
      obtain ⟨after, rest, two⟩ := hypothesis (one.distinct distinct)
        fun other otherMem => typed other (List.mem_cons_of_mem _ otherMem)
      refine ⟨after, ?_, one.trans two⟩
      rw [List.foldlM_cons, ran]
      exact rest

end RowFacts

section Clause

variable {catalog : LabelCatalog} (indexes : Int → LabelIndexes) (detach : Bool)
variable (tables : LabelTables catalog) (rows : List (List DeleteItem))

def listed (item : DeleteItem) : Bool :=
  rows.flatten.contains item

/-- The edge has a listed end. -/
def incident (edge : EdgeTuple) : Bool :=
  listed rows (.vertex edge.startId) || listed rows (.vertex edge.endId)

/-- What the clause is there for: the listed entities are gone, and with `DETACH` the edges
of listed vertices too; without it such an edge that is not listed is an error. -/
def expectedDelete : Option (List GraphId × List EdgeTuple) :=
  if detach || !tables.edges.any fun edge =>
      incident rows edge && !listed rows (.edge edge.id) then
    some (tables.vertices.filter fun id => !listed rows (.vertex id),
      tables.edges.filter fun edge => !incident rows edge && !listed rows (.edge edge.id))
  else none

/-- A vertex is deleted, and an edge table without both endpoint indexes, from which the
rows have picked edges by its id index, is to be scanned with an edge left in it. -/
def SlotClash : Prop :=
  (∃ id ∈ tables.vertices, listed rows (.vertex id) = true) ∧
    ∃ id, listed rows (.edge id) = true ∧
      (indexes (getGraphidLabelId id)).idIndex = true ∧
      ((indexes (getGraphidLabelId id)).startIdIndex &&
        (indexes (getGraphidLabelId id)).endIdIndex) = false ∧
      ∃ edge ∈ tables.edges, edge.labelId = getGraphidLabelId id ∧
        listed rows (.edge edge.id) = false

variable {indexes detach tables rows}

theorem expectedDelete_eq_none :
    expectedDelete detach tables rows = none ↔
      detach = false ∧ ∃ edge ∈ tables.edges,
        incident rows edge = true ∧ listed rows (.edge edge.id) = false := by
  unfold expectedDelete
  cases detach <;> simp

theorem mem_listed {item : DeleteItem} : listed rows item = true ↔ item ∈ rows.flatten :=
  List.contains_iff_mem

/-- The first state of the rows. -/
def LabelTables.start (tables : LabelTables catalog) : DeleteState :=
  ⟨tables.vertices, tables.edges, [], fun _ => none⟩

theorem LabelTables.start_distinct : tables.start.Distinct :=
  ⟨tables.vertices_nodup, tables.edgeIds_nodup⟩

section AfterRows

variable {after : DeleteState} (done : DeletedBy indexes rows.flatten tables.start after)

include done

theorem mem_vertexIdHtab (id : GraphId) :
    id ∈ after.vertexIdHtab ↔ id ∈ tables.vertices ∧ listed rows (.vertex id) = true := by
  rw [done.vertexIdHtab, mem_listed]
  exact or_iff_right List.not_mem_nil

theorem mem_edges_after {edge : EdgeTuple} :
    edge ∈ after.edges ↔ edge ∈ tables.edges ∧ listed rows (.edge edge.id) = false := by
  rw [done.edges, List.mem_filter]
  simp [LabelTables.start, listed]

theorem connectedToDeleted_eq {edge : EdgeTuple} (edgeMem : edge ∈ tables.edges) :
    connectedToDeleted after.vertexIdHtab edge = incident rows edge := by
  obtain ⟨startMem, endMem⟩ := tables.endpoints edge edgeMem
  rw [Bool.eq_iff_iff]
  simp only [connectedToDeleted, incident, Bool.or_eq_true, List.contains_iff_mem,
    mem_vertexIdHtab done, startMem, endMem, true_and]

theorem slot_after (label : Int) :
    after.slot label =
      if scannedById indexes rows.flatten label then some .bufferHeapTuple else none := by
  rw [done.slot]
  rfl

/-- The rows leave an unusable slot where they have picked edges by the id index. -/
theorem slotMisused_after (typed : ∀ row ∈ rows, ∀ item ∈ row, item.WellTyped catalog)
    {label : Int} (ofEdges : catalog.kind label = some .edge) :
    slotMisused indexes after.slot label = true ↔
      ∃ id, listed rows (.edge id) = true ∧ getGraphidLabelId id = label ∧
        (indexes label).idIndex = true ∧
        ((indexes label).startIdIndex && (indexes label).endIdIndex) = false := by
  have scanned : scannedById indexes rows.flatten label = true ↔
      (indexes label).idIndex = true ∧
        ∃ id, listed rows (.edge id) = true ∧ getGraphidLabelId id = label := by
    rw [scannedById, Bool.and_eq_true, List.any_eq_true]
    refine and_congr_right fun _ => ⟨?_, ?_⟩
    · rintro ⟨item, itemMem, names⟩
      obtain ⟨row, rowMem, inRow⟩ := List.mem_flatten.1 itemMem
      have itemTyped := typed row rowMem item inRow
      cases item with
      | null => simp [DeleteItem.labelId?] at names
      | other => exact itemTyped.elim
      | vertex id =>
          have same : getGraphidLabelId id = label := by
            simpa [DeleteItem.labelId?] using names
          change catalog.kind _ = _ at itemTyped
          rw [same, ofEdges] at itemTyped
          exact nomatch itemTyped
      | edge id =>
          exact ⟨id, mem_listed.2 itemMem, by simpa [DeleteItem.labelId?] using names⟩
    · rintro ⟨id, idListed, same⟩
      exact ⟨.edge id, mem_listed.1 idListed, by simp [DeleteItem.labelId?, same]⟩
  rw [slotMisused, Bool.and_eq_true, Bool.not_eq_true', slot_after done, decide_eq_true_eq]
  constructor
  · rintro ⟨missing, created⟩
    split at created
    case isTrue byId =>
      obtain ⟨hasIndex, id, idListed, same⟩ := scanned.1 byId
      exact ⟨id, idListed, same, hasIndex, missing⟩
    case isFalse => exact nomatch created
  · rintro ⟨id, idListed, same, hasIndex, missing⟩
    exact ⟨missing, if_pos (scanned.2 ⟨hasIndex, id, idListed, same⟩)⟩

/-- The check of the edges does what the clause is there for, where no slot is misused. -/
theorem deleteHits_after :
    (deleteHits detach (fun tuple => catalog.edgeLabels.contains tuple.labelId &&
      connectedToDeleted after.vertexIdHtab tuple) after.edges >>= fun edges =>
        Except.ok (after.vertices, edges)).toOption = expectedDelete detach tables rows := by
  have hit : ∀ edge ∈ after.edges, (catalog.edgeLabels.contains edge.labelId &&
      connectedToDeleted after.vertexIdHtab edge) = incident rows edge := fun edge edgeMem => by
    have old := ((mem_edges_after done).1 edgeMem).1
    rw [connectedToDeleted_eq done old, List.contains_iff_mem.2
      ((catalog.mem_edgeLabels _).2 (tables.edgeKind edge old)), Bool.true_and]
  have anyHit : after.edges.any (incident rows) = tables.edges.any fun edge =>
      incident rows edge && !listed rows (.edge edge.id) := by
    rw [Bool.eq_iff_iff, List.any_eq_true, List.any_eq_true]
    refine exists_congr fun edge => ?_
    rw [mem_edges_after done, Bool.and_eq_true, Bool.not_eq_true']
    exact ⟨fun ⟨⟨old, unlisted⟩, connected⟩ => ⟨old, connected, unlisted⟩,
      fun ⟨old, connected, unlisted⟩ => ⟨⟨old, unlisted⟩, connected⟩⟩
  rw [deleteHits_congr hit]
  unfold deleteHits expectedDelete
  rw [anyHit]
  split
  · change some (after.vertices, after.edges.filter fun edge => !incident rows edge) = _
    rw [done.vertices, done.edges, List.filter_filter]
    rfl
  · rfl

end AfterRows

/-- The clause after its rows. -/
theorem cypherDelete_after {after : DeleteState}
    (ran : rows.foldlM (processDeleteList catalog indexes) tables.start = .ok after) :
    cypherDelete catalog indexes detach tables rows =
      (checkForConnectedEdges indexes detach after.vertexIdHtab catalog.edgeLabels after.slot
        after.edges >>= fun edges => Except.ok (after.vertices, edges)) := by
  unfold cypherDelete
  change (rows.foldlM (processDeleteList catalog indexes) tables.start >>= _) = _
  rw [ran]
  rfl

theorem incident_none (tables : LabelTables catalog)
    (unlisted : ∀ id ∈ tables.vertices, listed rows (.vertex id) = false) :
    ∀ edge ∈ tables.edges, incident rows edge = false := fun edge edgeMem => by
  obtain ⟨startMem, endMem⟩ := tables.endpoints edge edgeMem
  rw [incident, unlisted _ startMem, unlisted _ endMem, Bool.or_false]

/-- Rows without a vertex to delete need no check. -/
theorem cypherDelete_noVertex {after : DeleteState}
    (done : DeletedBy indexes rows.flatten tables.start after)
    (ran : rows.foldlM (processDeleteList catalog indexes) tables.start = .ok after)
    (noVertex : after.vertexIdHtab = []) :
    (cypherDelete catalog indexes detach tables rows).toOption =
        expectedDelete detach tables rows ∧ ¬SlotClash indexes tables rows := by
  have unlisted : ∀ id ∈ tables.vertices, listed rows (.vertex id) = false := fun id idMem =>
    Bool.eq_false_iff.2 fun idListed => by
      have inHtab := (mem_vertexIdHtab done id).2 ⟨idMem, idListed⟩
      rw [noVertex] at inHtab
      exact List.not_mem_nil inHtab
  have noIncident := incident_none tables unlisted
  refine ⟨?_, fun ⟨⟨id, idMem, idListed⟩, _⟩ => by
    rw [unlisted id idMem] at idListed
    exact Bool.false_ne_true idListed⟩
  have noHit : (tables.edges.any fun edge =>
      incident rows edge && !listed rows (.edge edge.id)) = false :=
    List.any_eq_false.2 fun edge edgeMem => by simp [noIncident edge edgeMem]
  rw [cypherDelete_after ran, checkForConnectedEdges, if_pos noVertex, expectedDelete, noHit,
    Bool.not_false, Bool.or_true, if_pos rfl]
  change some (after.vertices, after.edges) = _
  rw [done.vertices, done.edges]
  congr 2
  exact List.filter_congr fun edge edgeMem => by
    rw [noIncident edge edgeMem, Bool.not_false, Bool.true_and]
    rfl

/-- The clause does what it is there for, except that an edge table whose slot was made
for an index scan by the rows cannot be scanned at the end. -/
theorem cypherDelete_exact (catalog : LabelCatalog) (indexes : Int → LabelIndexes)
    (detach : Bool) (tables : LabelTables catalog) (rows : List (List DeleteItem))
    (typed : ∀ row ∈ rows, ∀ item ∈ row, item.WellTyped catalog) :
    (cypherDelete catalog indexes detach tables rows).toOption =
        expectedDelete detach tables rows ↔
      ¬SlotClash indexes tables rows ∨ detach = false ∧ ∃ edge ∈ tables.edges,
        incident rows edge = true ∧ listed rows (.edge edge.id) = false := by
  obtain ⟨after, ran, done⟩ := @deleteRows_deletes catalog indexes rows _ tables.start_distinct typed
  by_cases noVertex : after.vertexIdHtab = []
  · obtain ⟨meets, noClash⟩ := @cypherDelete_noVertex catalog indexes detach tables rows after done ran noVertex
    exact iff_of_true meets (Or.inl noClash)
  obtain ⟨vertex, vertexMem⟩ := List.exists_mem_of_ne_nil _ noVertex
  have vertexListed := (mem_vertexIdHtab done vertex).1 vertexMem
  have distinct : after.edges.Nodup := (done.distinct tables.start_distinct).edgeIds.of_map
  rw [cypherDelete_after ran, checkForConnectedEdges, if_neg noVertex]
  by_cases clash : SlotClash indexes tables rows
  · obtain ⟨_, id, idListed, hasIndex, missing, edge, edgeMem, ofLabel, unlisted⟩ := clash
    have ofEdges : catalog.kind (getGraphidLabelId id) = some .edge :=
      ofLabel ▸ tables.edgeKind edge edgeMem
    obtain ⟨error, failed⟩ := @checkEdgeLabels_misused indexes detach
      after.vertexIdHtab _ _ _ _ distinct catalog.edgeLabels_nodup
      ((catalog.mem_edgeLabels _).2 ofEdges)
      ((slotMisused_after done typed ofEdges).2 ⟨id, idListed, rfl, hasIndex, missing⟩)
      ⟨edge, (mem_edges_after done).2 ⟨edgeMem, unlisted⟩, ofLabel⟩
    rw [failed, or_iff_right (not_not_intro ⟨⟨vertex, vertexListed⟩, id, idListed, hasIndex,
      missing, edge, edgeMem, ofLabel, unlisted⟩), ← expectedDelete_eq_none]
    exact eq_comm
  · have usable : ∀ label ∈ catalog.edgeLabels, slotMisused indexes after.slot label = false ∨
        ∀ edge ∈ after.edges, edge.labelId ≠ label := fun label labelMem => by
      by_cases misused : slotMisused indexes after.slot label = true
      · obtain ⟨id, idListed, rfl, hasIndex, missing⟩ :=
          (slotMisused_after done typed ((catalog.mem_edgeLabels _).1 labelMem)).1 misused
        refine Or.inr fun edge edgeMem ofLabel => clash ⟨⟨vertex, vertexListed⟩, id, idListed,
          hasIndex, missing, edge, ((mem_edges_after done).1 edgeMem).1, ofLabel,
          ((mem_edges_after done).1 edgeMem).2⟩
      · exact Or.inl (Bool.eq_false_of_not_eq_true misused)
    rw [checkEdgeLabels_eq distinct catalog.edgeLabels_nodup usable,
      deleteHits_after done]
    exact iff_of_true rfl (Or.inl clash)

end Clause

section Example

/-- One vertex label and one edge label. -/
def knowsCatalog : LabelCatalog where
  kind label := if label == 3 then some .vertex else if label == 4 then some .edge else none
  edgeLabels := [4]
  edgeLabels_nodup := by decide
  mem_edgeLabels label := by
    by_cases vertex : label = 3
    · subst vertex
      decide
    · by_cases edge : label = 4
      · subst edge
        decide
      · simp [vertex, edge]

theorem knows_kind : knowsCatalog.kind (getGraphidLabelId 844424930131969) = some .vertex ∧
    knowsCatalog.kind (getGraphidLabelId 844424930131970) = some .vertex ∧
    knowsCatalog.kind (getGraphidLabelId 1125899906842625) = some .edge := by
  refine ⟨?_, ?_, ?_⟩ <;> decide +kernel

/-- Two vertices, an edge from the first to the second and one from the second to itself. -/
def knowsTables : LabelTables knowsCatalog where
  vertices := [844424930131969, 844424930131970]
  edges := [⟨1125899906842625, 844424930131969, 844424930131970⟩,
    ⟨1125899906842626, 844424930131970, 844424930131970⟩]
  vertices_nodup := by decide +kernel
  edgeIds_nodup := by decide +kernel
  vertexKind := fun id idMem => by
    rcases List.mem_pair.1 idMem with rfl | rfl
    · exact knows_kind.1
    · exact knows_kind.2.1
  edgeKind := by decide +kernel
  endpoints := by decide +kernel

/-- `MATCH (a)-[e]->(b) DELETE e, a`, and `b` at a position that is NULL. -/
def knowsRows : List (List DeleteItem) :=
  [[.edge 1125899906842625, .vertex 844424930131969, .null]]

theorem knowsRows_wellTyped : ∀ row ∈ knowsRows, ∀ item ∈ row, item.WellTyped knowsCatalog := by
  intro row rowMem item itemMem
  rw [knowsRows, List.mem_singleton] at rowMem
  subst rowMem
  rcases List.mem_cons.1 itemMem with rfl | itemMem
  · exact knows_kind.2.2
  rcases List.mem_cons.1 itemMem with rfl | itemMem
  · exact knows_kind.1
  rcases List.mem_cons.1 itemMem with rfl | itemMem
  · exact trivial
  · exact nomatch itemMem

theorem cypherDelete_exact_allIndexes :
    (∀ row ∈ knowsRows, ∀ item ∈ row, item.WellTyped knowsCatalog) ∧
      (cypherDelete knowsCatalog (fun _ => ⟨true, true, true⟩) true knowsTables
        knowsRows).toOption = expectedDelete true knowsTables knowsRows :=
  ⟨knowsRows_wellTyped,
    (cypherDelete_exact _ _ _ _ _ knowsRows_wellTyped).2 (Or.inl fun clash => by
      obtain ⟨_, _, _, _, missing, _⟩ := clash
      exact Bool.noConfusion missing)⟩

/-- With an index on the id of the edges alone the clause fails. -/
theorem cypherDelete_idIndex_fails :
    (∀ row ∈ knowsRows, ∀ item ∈ row, item.WellTyped knowsCatalog) ∧
      cypherDelete knowsCatalog (fun _ => ⟨true, false, false⟩) true knowsTables knowsRows =
        .error .wrongTypeOfSlot ∧
      expectedDelete true knowsTables knowsRows =
        some ([844424930131970], [⟨1125899906842626, 844424930131970, 844424930131970⟩]) :=
  ⟨knowsRows_wellTyped, by decide +kernel, by decide +kernel⟩

end Example

end Age.Executor
