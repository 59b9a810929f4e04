import Age.Adjacency.Contents

/-!
# What an adjacency scan sees of the pages

The visible-payload scan over the pages of an index.  The steps of the heap build
the index, insert into it and bulk delete from it; the record of these calls is
what the pages and the list of postings have in common.
-/

namespace Age.Adjacency

section Index

/-- An index on its pages -/
structure StoredIndex (geometry : Geometry) where
  stored : Stored

instance (geometry : Geometry) : IndexAm (StoredIndex geometry) where
  build postings := ⟨.build geometry postings⟩
  insert index posting := ⟨index.stored.insert geometry posting⟩
  bulkDelete index dead := ⟨index.stored.bulkDelete dead⟩

/-- The build of an index and its calls since -/
structure IndexLife where
  built : List Posting
  ops : List IndexOp

instance : IndexAm IndexLife where
  build postings := ⟨postings, []⟩
  insert life posting := ⟨life.built, life.ops ++ [.insert posting]⟩
  bulkDelete life dead := ⟨life.built, life.ops ++ [.bulkDelete dead]⟩

/-- The inserted postings that are left can be read back, and the bulk deletes took the built ones
from the greatest keys down. -/
def IndexLife.Meets (life : IndexLife) : Prop :=
  (∀ posting ∈ contents [] life.ops, posting.labelsValid = true) ∧
    DeletedFromTheEnd life.built life.ops

def IndexLife.postings (life : IndexLife) : List Posting := contents life.built life.ops

def IndexLife.pages (geometry : Geometry) (life : IndexLife) : StoredIndex geometry :=
  ⟨.run geometry life.built life.ops⟩

/-- A view of an index keeps up with it. -/
structure IndexView {Index View : Type} [IndexAm Index] [IndexAm View] (view : Index → View) :
    Prop where
  build : ∀ postings, view (IndexAm.build postings) = IndexAm.build postings
  insert : ∀ index posting,
    view (IndexAm.insert index posting) = IndexAm.insert (view index) posting
  bulkDelete : ∀ index dead,
    view (IndexAm.bulkDelete index dead) = IndexAm.bulkDelete (view index) dead

theorem indexView_postings : IndexView IndexLife.postings where
  build _ := rfl
  insert _ _ := List.foldl_concat _ _ _ _
  bulkDelete _ _ := List.foldl_concat _ _ _ _

theorem indexView_pages (geometry : Geometry) : IndexView (IndexLife.pages geometry) where
  build _ := rfl
  insert _ _ := congrArg StoredIndex.mk (List.foldl_concat _ _ _ _)
  bulkDelete _ _ := congrArg StoredIndex.mk (List.foldl_concat _ _ _ _)

end Index

namespace Database

section Views

variable {Index View : Type} [IndexAm Index] [IndexAm View] {view : Index → View}

def mapIndex (view : Index → View) (database : Database Index) : Database View :=
  ⟨database.now, database.horizon, database.lines, database.allVisible,
    database.index.map view⟩

/-- A step does to the view what it does to the index. -/
theorem step_mapIndex (isView : IndexView view) (database : Database Index) (step : HistoryStep) :
    (database.mapIndex view).step step = (database.step step).map (mapIndex view) := by
  cases step with
  | insert tid key edgeId nextVertexId properties =>
      by_cases taken : (database.lines.lookup tid).isSome = true
      · simp [Database.step, Database.insert, mapIndex, taken]
      · simp [Database.step, Database.insert, mapIndex, clearAllVisible, taken, isView.insert,
          Function.comp_def]
  | update tid newTid properties hot =>
      cases alive : database.aliveAt tid with
      | none =>
          have same : (database.mapIndex view).aliveAt tid = none := alive
          simp [Database.step, Database.update, alive, same]
      | some version =>
          have same : (database.mapIndex view).aliveAt tid = some version := alive
          have lines : (database.mapIndex view).lines = database.lines := rfl
          simp only [Database.step, Database.update, alive, same, lines]
          by_cases taken : ((database.lines.lookup newTid).isSome ||
            (hot && newTid.block != tid.block)) = true
          · rw [if_pos taken, if_pos taken]
            rfl
          · rw [if_neg taken, if_neg taken]
            cases hot <;> simp [mapIndex, clearAllVisible, setLine, isView.insert,
              Function.comp_def]
  | delete tid =>
      have same : (database.mapIndex view).aliveAt tid = database.aliveAt tid := rfl
      simp only [Database.step, Database.delete, same, Option.map_map]
      rfl
  | release horizon =>
      simp only [Database.step, mapIndex, apply_ite (Option.map (mapIndex view))]
      rfl
  | vacuum =>
      simp [Database.step, Database.vacuum, mapIndex, isView.bulkDelete, Function.comp_def]
  | build => simp [Database.step, Database.build, mapIndex, isView.build]

theorem run_mapIndex (isView : IndexView view) (steps : List HistoryStep)
    (database : Database Index) :
    (database.mapIndex view).run steps = (database.run steps).map (mapIndex view) := by
  induction steps generalizing database with
  | nil => rfl
  | cons step rest inductionHypothesis =>
      rw [run, run, step_mapIndex isView]
      cases database.step step with
      | none => rfl
      | some next => exact inductionHypothesis next

theorem meetsAll_mapIndex (isView : IndexView view) {steps : List HistoryStep}
    {database : Database Index} (meets : database.MeetsAll steps) :
    (database.mapIndex view).MeetsAll steps := by
  induction steps generalizing database with
  | nil => trivial
  | cons step rest inductionHypothesis =>
      refine ⟨?_, fun next isNext => ?_⟩
      · have first := meets.1
        cases step <;> exact first
      · rw [step_mapIndex isView, Option.map_eq_some_iff] at isNext
        obtain ⟨before, isBefore, rfl⟩ := isNext
        exact inductionHypothesis (meets.2 before isBefore)

end Views

section Scan

variable {geometry : Geometry}

/-- `age_adjacency_visible_payload_scan_next` until it has no payload left; `none` when a delta
posting cannot be read -/
def visiblePayloadScan (database : Database (StoredIndex geometry)) (fetchProperties : Bool)
    (snapshot : Nat) (key : GraphId) : Option (List Payload) :=
  (database.index.bind fun index => index.stored.scanPayload key).map fun postings =>
    postings.filterMap (database.postingVisiblePayload fetchProperties snapshot)

/-- After every history without HOT updates in which no index was built over a version that a held
snapshot still sees deleted, where the pages hold what was asked of the index, a scan returns the
edges that the snapshot sees at the key, each once. -/
theorem visiblePayloadScan_complete (steps : List HistoryStep) (record : Database IndexLife)
    (meets : (Database.init : Database IndexLife).MeetsAll steps)
    (history : Database.init.run steps = some record) (life : IndexLife)
    (isLife : record.index = some life) (kept : life.Meets) :
    ∃ final : Database (StoredIndex geometry), Database.init.run steps = some final ∧
      ∀ (fetchProperties : Bool) (snapshot : Nat), final.horizon ≤ snapshot → ∀ key : GraphId,
        ∃ payloads, final.visiblePayloadScan fetchProperties snapshot key = some payloads ∧
          (payloads.map Payload.row).Perm (final.visibleRows fetchProperties snapshot key) := by
  refine ⟨record.mapIndex (IndexLife.pages geometry), ?_, fun fetchProperties snapshot held key => ?_⟩
  · have same := run_mapIndex (indexView_pages geometry) steps Database.init
    rw [history] at same
    exact same
  · have listed := run_mapIndex indexView_postings steps Database.init
    rw [history] at listed
    have plain := plain_init.run (meetsAll_mapIndex indexView_postings meets) listed
    obtain ⟨emitted, scanned, perm⟩ := (scanPayload_exact geometry life.built life.ops).mpr kept key
    have scan := plain.scan_perm (congrArg (Option.map IndexLife.postings) isLife) fetchProperties
      held key
    refine ⟨emitted.filterMap (record.postingVisiblePayload fetchProperties snapshot), ?_,
      ((perm.filterMap _).map _).trans scan⟩
    rw [visiblePayloadScan, mapIndex, isLife]
    dsimp only [Option.map_some, Option.bind_some]
    rw [show (life.pages geometry).stored = Stored.run geometry life.built life.ops from rfl,
      scanned]
    rfl

/-- The edge of the first vertex is inserted after the build. -/
def insertedEdge : List HistoryStep :=
  [.build, .insert thereEdge.heapTid thereEdge.key thereEdge.edgeId thereEdge.nextVertexId 0]

def insertedLife : IndexLife := ⟨[], [.insert thereEdge]⟩

theorem insertedLife_meets : insertedLife.Meets := by
  refine ⟨fun posting member => ?_, fun gone member => ?_⟩
  · rw [List.mem_singleton.mp member]
    decide
  · cases member

/-- Every snapshot sees the edge as the pages and the heap have it. -/
theorem visiblePayloadScan_complete_insert :
    ∃ final : Database (StoredIndex roomyGeometry), Database.init.run insertedEdge = some final ∧
      ∀ (fetchProperties : Bool) (snapshot : Nat), final.horizon ≤ snapshot → ∀ key : GraphId,
        ∃ payloads, final.visiblePayloadScan fetchProperties snapshot key = some payloads ∧
          (payloads.map Payload.row).Perm (final.visibleRows fetchProperties snapshot key) := by
  refine visiblePayloadScan_complete insertedEdge _ ?_ rfl insertedLife rfl insertedLife_meets
  · refine ⟨fun tid version member => by simp [Database.init] at member, fun next _ => ?_⟩
    exact ⟨trivial, fun _ _ => trivial⟩

/-- After a HOT update the visible version stands behind the indexed TID. -/
theorem visiblePayloadScan_misses_hot :
    ¬ ∀ final : Database (StoredIndex roomyGeometry),
      Database.init.run (insertedEdge ++ [.update thereEdge.heapTid ⟨0, 2⟩ 5 true]) = some final →
        ∃ payloads, final.visiblePayloadScan false 2 thereEdge.key = some payloads ∧
          (payloads.map Payload.row).Perm (final.visibleRows false 2 thereEdge.key) := by
  intro complete
  obtain ⟨payloads, scanned, perm⟩ := complete _ rfl
  -- The index gives out the posting of the root.
  obtain ⟨emitted, isScan, isPosting⟩ := (scanPayload_exact roomyGeometry insertedLife.built
    insertedLife.ops).mpr insertedLife_meets thereEdge.key
  have only : (contents insertedLife.built insertedLife.ops).filter
      (fun posting => posting.key == thereEdge.key) = [thereEdge] := by decide
  rw [only, List.perm_singleton] at isPosting
  subst isPosting
  have same := (congrArg (Option.map (List.filterMap (Database.postingVisiblePayload _ false 2)))
    isScan).symm.trans scanned
  rw [← Option.some.inj same] at perm
  exact absurd perm.length_eq (by decide)

end Scan

end Database

end Age.Adjacency
