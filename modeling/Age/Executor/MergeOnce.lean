import Age.Executor.MergeClause

/-!
# MERGE creates each path once

The first row of the rows with equal paths creates the path, and the later ones are bound to it,
unless a vertex of the path is one that the path creates in another place: such a vertex is read
from the row before it has been created.
-/

namespace Age.Executor.MergeClause

section Instances

variable {Image : Type}

/-- The lateral join has found no path for the row: what the path creates is NULL in it. -/
structure Unmatched (path : TargetPath) (row : MergeRow Image) : Prop where
  check : checkPath path row = true
  created : ∀ node ∈ path.nodes, node.insertEntity = true → row.values node.tuplePosition = .null

/-- The variable of the node is one that the path creates. -/
def Repeats (path : TargetPath) (node : TargetNode) : Prop :=
  ∃ new ∈ path.nodes, new.insertEntity = true ∧ new.tuplePosition = node.tuplePosition

/-- A vertex of the path is one that the path creates in another place. -/
def RefersBack (path : TargetPath) : Prop :=
  ∃ node ∈ path.nodes, node.insertEntity = false ∧ Repeats path node

/-- The node's variable is a vertex that is there. -/
def Usable (row : MergeRow Image) (node : TargetNode) : Prop :=
  ∃ id, row.values node.tuplePosition = .vertex id ∧
    (node.safeToSkipExistenceCheck || row.entityExists id) = true

/-- The vertices that are bound by an earlier clause are there. -/
def BoundVertices (path : TargetPath) (row : MergeRow Image) : Prop :=
  ∀ node ∈ path.nodes, node.insertEntity = false → ¬ Repeats path node → Usable row node

/-- Two rows instantiate the path alike: the same vertices where it is bound, and the same images of
properties or NULL where it is new.  Labels and directions are those of the path. -/
def SamePath (path : TargetPath) (row other : MergeRow Image) : Prop :=
  ∀ node ∈ path.nodes,
    if node.insertEntity then row.props node.propExpr = other.props node.propExpr
    else row.values node.tuplePosition = other.values node.tuplePosition

/-- An entry without what is filled in later -/
def PathEntry.blank (entry : PathEntry Image) : PathEntry Image :=
  if entry.actual then entry else { entry with id := none, startId := none, endId := none }

def SlotValue.vertexId : SlotValue → GraphId
  | .vertex id => id
  | .null | .other => 0

variable (datumImageHash : Image → UInt32)

/-- The entry of a node in a row that has its vertices -/
def prebuilt (row : MergeRow Image) (node : TargetNode) : PathEntry Image :=
  if node.insertEntity then newEntry datumImageHash node (row.props node.propExpr)
  else actualEntry node (row.values node.tuplePosition).vertexId

/-- The path of a row, as it is prebuilt -/
def instanceOf (path : TargetPath) (row : MergeRow Image) : List (PathEntry Image) :=
  path.nodes.map (prebuilt datumImageHash row)

end Instances

section Prebuild

variable {Image : Type} {datumImageHash : Image → UInt32} {row other : MergeRow Image}
  {node : TargetNode} {nodes : List TargetNode} {path : TargetPath}

theorem prebuildEntry_eq (usable : node.insertEntity = false → Usable row node) :
    prebuildEntry datumImageHash row node = .ok (prebuilt datumImageHash row node) := by
  rw [prebuildEntry, prebuilt]
  cases isNew : node.insertEntity with
  | true => rfl
  | false =>
      obtain ⟨id, isVertex, exist⟩ := usable isNew
      rw [if_neg Bool.false_ne_true, if_neg Bool.false_ne_true, isVertex]
      dsimp only
      rw [if_pos exist]
      rfl

theorem prebuildPath_eq (usable : ∀ node ∈ nodes, node.insertEntity = false → Usable row node) :
    prebuildPath datumImageHash row nodes = .ok (nodes.map (prebuilt datumImageHash row)) := by
  induction nodes with
  | nil => rfl
  | cons node rest inductionHypothesis =>
      rw [prebuildPath, prebuildEntry_eq (usable node List.mem_cons_self),
        inductionHypothesis fun other isIn => usable other (List.mem_cons_of_mem _ isIn)]
      rfl

/-- A vertex that is NULL in the row ends the clause. -/
theorem prebuildPath_null (isIn : node ∈ nodes) (isRead : node.insertEntity = false)
    (isNull : row.values node.tuplePosition = .null) :
    ∃ error, prebuildPath datumImageHash row nodes = .error error := by
  induction nodes with
  | nil => exact absurd isIn List.not_mem_nil
  | cons first rest inductionHypothesis =>
      rw [prebuildPath]
      cases built : prebuildEntry datumImageHash row first with
      | error error => exact ⟨error, rfl⟩
      | ok entry =>
          rcases List.mem_cons.1 isIn with rfl | isIn
          · rw [prebuildEntry, if_neg (by rw [isRead]; exact Bool.false_ne_true), isNull] at built
            exact nomatch built
          · obtain ⟨error, isError⟩ := inductionHypothesis isIn
            rw [isError]
            exact ⟨error, rfl⟩

theorem prebuilt_node : (prebuilt datumImageHash row node).node = node := by
  rw [prebuilt]
  split_ifs <;> rfl

theorem prebuilt_actual : (prebuilt datumImageHash row node).actual = !node.insertEntity := by
  rw [prebuilt]
  cases node.insertEntity <;> rfl

theorem blank_prebuilt :
    (prebuilt datumImageHash row node).blank = prebuilt datumImageHash row node := by
  rw [PathEntry.blank, prebuilt_actual, prebuilt]
  cases node.insertEntity <;> rfl

theorem instanceOf_eq_iff (usable : ∀ node ∈ path.nodes, node.insertEntity = false → Usable row node)
    (otherUsable : ∀ node ∈ path.nodes, node.insertEntity = false → Usable other node) :
    instanceOf datumImageHash path row = instanceOf datumImageHash path other ↔
      SamePath path row other := by
  rw [instanceOf, instanceOf, List.map_inj_left]
  refine forall₂_congr fun node isIn => ?_
  rw [prebuilt, prebuilt]
  cases isNew : node.insertEntity with
  | true =>
      rw [if_pos rfl, if_pos rfl, if_pos rfl]
      constructor
      · intro same
        exact congrArg PathEntry.prop same
      · intro same
        rw [same]
  | false =>
      obtain ⟨id, isVertex, -⟩ := usable node isIn isNew
      obtain ⟨otherId, isOther, -⟩ := otherUsable node isIn isNew
      rw [if_neg Bool.false_ne_true, if_neg Bool.false_ne_true, if_neg Bool.false_ne_true, isVertex,
        isOther]
      constructor
      · intro same
        exact congrArg SlotValue.vertex (Option.some.inj (congrArg PathEntry.id same))
      · intro same
        rw [same]

end Prebuild

section Compare

variable {Image : Type} {datumImageHash : Image → UInt32}
  {row other : MergeRow Image} {node : TargetNode} {nodes : List TargetNode}

theorem hashEntry_blank (hash : UInt32) (entry : PathEntry Image) :
    hashEntry hash entry.blank = hashEntry hash entry := by
  rw [PathEntry.blank]
  cases isActual : entry.actual with
  | true => rfl
  | false => simp only [Bool.false_eq_true, if_false, hashEntry, isActual]

/-- The hash of a path stays what it was before the path got its ids. -/
theorem hashPathEntries_blank (path : List (PathEntry Image)) :
    hashPathEntries (path.map PathEntry.blank) = hashPathEntries path := by
  rw [hashPathEntries, hashPathEntries, List.foldl_map]
  simp only [hashEntry_blank]

variable [DecidableEq Image]

theorem compareEntry_blank (lhs rhs : PathEntry Image) :
    compareEntry lhs rhs.blank = compareEntry lhs rhs := by
  rw [PathEntry.blank]
  cases isActual : rhs.actual with
  | true => rfl
  | false =>
      rw [if_neg Bool.false_ne_true, compareEntry, compareEntry, isActual]
      cases lhs.actual <;> rfl

theorem compare2Paths_blank (lhs rhs : List (PathEntry Image)) :
    compare2Paths lhs (rhs.map PathEntry.blank) = compare2Paths lhs rhs := by
  induction lhs generalizing rhs with
  | nil => rfl
  | cons entry lhs inductionHypothesis =>
      cases rhs with
      | nil => rfl
      | cons other rhs =>
          have tail := inductionHypothesis rhs
          rw [compare2Paths, compare2Paths] at tail ⊢
          rw [List.map_cons, List.zip_cons_cons, List.zip_cons_cons, List.all_cons, List.all_cons,
            tail, compareEntry_blank]

theorem compareEntry_prebuilt :
    compareEntry (prebuilt datumImageHash row node) (prebuilt datumImageHash other node) = true ↔
      prebuilt datumImageHash row node = prebuilt datumImageHash other node := by
  rw [prebuilt, prebuilt]
  cases node.insertEntity with
  | true =>
      rw [if_pos rfl, if_pos rfl, compareEntry, if_neg (fun both => nomatch both.2),
        if_neg (fun differ => differ rfl), if_neg (fun differ => differ rfl)]
      dsimp only [newEntry]
      cases row.props node.propExpr <;> cases other.props node.propExpr <;> simp
      exact and_comm
  | false =>
      rw [if_neg Bool.false_ne_true, if_neg Bool.false_ne_true, compareEntry, if_pos ⟨rfl, rfl⟩,
        decide_eq_true_eq]
      constructor
      · intro same
        rw [Option.some.inj same]
      · intro same
        rw [same]

theorem compare2Paths_prebuilt :
    compare2Paths (nodes.map (prebuilt datumImageHash row))
        (nodes.map (prebuilt datumImageHash other)) = true ↔
      nodes.map (prebuilt datumImageHash row) = nodes.map (prebuilt datumImageHash other) := by
  induction nodes with
  | nil => exact ⟨fun _ => rfl, fun _ => rfl⟩
  | cons node rest inductionHypothesis =>
      rw [compare2Paths] at inductionHypothesis ⊢
      rw [List.map_cons, List.map_cons, List.zip_cons_cons, List.all_cons, Bool.and_eq_true,
        compareEntry_prebuilt, inductionHypothesis, List.cons.injEq]

end Compare

section Process

variable {Image : Type} {datumImageHash : Image → UInt32}
  {nextGraphid : Nat → UInt32 → GraphId} {row : MergeRow Image} {node : TargetNode}
  {nodes : List TargetNode} {path : TargetPath} {inserting : Inserting Image}

/-- The tuples that the new entities of a path have in their tables -/
def newTuples (path : List (PathEntry Image)) : List (EntityTuple Image) :=
  (path.filter fun entry => !entry.actual).map PathEntry.tuple

theorem mergeRest_found (prevVertexId : Option GraphId) (entries : List (PathEntry Image))
    (inserting : Inserting Image) :
    mergeRest nextGraphid false prevVertexId entries inserting = (entries, inserting) := by
  induction prevVertexId, entries, inserting using mergeRest.induct nextGraphid false with
  | case1 prevVertexId edge vertex rest inserting next inductionHypothesis =>
      have isNext : mergeVertexEntry nextGraphid false vertex inserting = (vertex, inserting) := by
        rw [mergeVertexEntry, Bool.and_false]
        rfl
      rw [show next = (vertex, inserting) from isNext] at inductionHypothesis
      rw [mergeRest, isNext]
      dsimp only at inductionHypothesis ⊢
      rw [inductionHypothesis]
      rfl
  | case2 prevVertexId entries inserting short => rw [mergeRest]; exact short

/-- A path that is found is left as it is, and nothing is inserted. -/
theorem processPath_found (path : List (PathEntry Image)) (evaluated : Nat) :
    processPath nextGraphid false path evaluated = (path, ⟨evaluated, []⟩) := by
  cases path with
  | nil => rfl
  | cons first rest =>
      have isFirst : mergeVertexEntry nextGraphid false first ⟨evaluated, []⟩ =
          (first, ⟨evaluated, []⟩) := by
        rw [mergeVertexEntry, Bool.and_false]
        rfl
      rw [processPath, isFirst, mergeRest_found]

theorem mergeVertexEntry_spec :
    (mergeVertexEntry nextGraphid true (prebuilt datumImageHash row node) inserting).1.blank =
        prebuilt datumImageHash row node ∧
      (mergeVertexEntry nextGraphid true (prebuilt datumImageHash row node) inserting).2.tuples =
        inserting.tuples ++ newTuples
          [(mergeVertexEntry nextGraphid true (prebuilt datumImageHash row node) inserting).1] ∧
      (mergeVertexEntry nextGraphid true (prebuilt datumImageHash row node)
        inserting).1.id.isSome = true := by
  rw [mergeVertexEntry, prebuilt_node, Bool.and_true]
  cases isNew : node.insertEntity with
  | true =>
      rw [if_pos rfl, prebuilt, if_pos isNew]
      exact ⟨rfl, rfl, rfl⟩
  | false =>
      rw [if_neg Bool.false_ne_true]
      refine ⟨blank_prebuilt, ?_, ?_⟩
      · rw [newTuples, List.filter_cons_of_neg (by rw [prebuilt_actual, isNew]; decide)]
        exact (List.append_nil _).symm
      · rw [prebuilt, isNew]
        rfl

theorem mergeEdgeEntry_spec (isNew : node.insertEntity = true) (prevId nextId : Option GraphId) :
    (mergeEdgeEntry nextGraphid true prevId nextId (prebuilt datumImageHash row node)
        inserting).1.blank = prebuilt datumImageHash row node ∧
      (mergeEdgeEntry nextGraphid true prevId nextId (prebuilt datumImageHash row node)
        inserting).2.tuples = inserting.tuples ++ newTuples
          [(mergeEdgeEntry nextGraphid true prevId nextId (prebuilt datumImageHash row node)
            inserting).1] ∧
      (mergeEdgeEntry nextGraphid true prevId nextId (prebuilt datumImageHash row node)
        inserting).1.id.isSome = true := by
  rw [mergeEdgeEntry, if_pos rfl, prebuilt, if_pos isNew]
  exact ⟨rfl, rfl, rfl⟩

theorem newTuples_cons (entry : PathEntry Image) (path : List (PathEntry Image)) :
    newTuples (entry :: path) = newTuples [entry] ++ newTuples path := by
  rw [newTuples, newTuples, newTuples, ← List.map_append, ← List.filter_append]
  rfl

/-- A path that is created keeps its labels, directions and properties, and its new entities are
inserted, each of them once. -/
theorem mergeRest_created (steps : StepsOf nodes) (prevVertexId : Option GraphId)
    (inserting : Inserting Image) :
    (mergeRest nextGraphid true prevVertexId (nodes.map (prebuilt datumImageHash row))
        inserting).1.map PathEntry.blank = nodes.map (prebuilt datumImageHash row) ∧
      ∃ tuples, (mergeRest nextGraphid true prevVertexId (nodes.map (prebuilt datumImageHash row))
          inserting).2.tuples = inserting.tuples ++ tuples ∧
        tuples.Perm (newTuples (mergeRest nextGraphid true prevVertexId
          (nodes.map (prebuilt datumImageHash row)) inserting).1) ∧
        ∀ entry ∈ (mergeRest nextGraphid true prevVertexId
          (nodes.map (prebuilt datumImageHash row)) inserting).1, entry.id.isSome = true := by
  induction nodes using StepsOf.induct generalizing prevVertexId inserting with
  | case1 =>
      have isNil : mergeRest nextGraphid true prevVertexId ([] : List (PathEntry Image)) inserting =
          ([], inserting) := rfl
      rw [List.map_nil, isNil]
      exact ⟨rfl, [], (List.append_nil _).symm, List.Perm.refl _, fun entry isIn =>
        absurd isIn List.not_mem_nil⟩
  | case2 => exact steps.elim
  | case3 edge vertex rest inductionHypothesis =>
      obtain ⟨isNew, steps⟩ := steps
      rw [List.map_cons, List.map_cons, mergeRest]
      dsimp only
      obtain ⟨nextBlank, nextTuples, nextId⟩ :=
        @mergeVertexEntry_spec _ datumImageHash nextGraphid row vertex inserting
      generalize mergeVertexEntry nextGraphid true (prebuilt datumImageHash row vertex) inserting =
        next at nextBlank nextTuples nextId
      obtain ⟨restBlank, tuples, restTuples, perm, restIds⟩ :=
        inductionHypothesis steps next.1.id next.2
      generalize mergeRest nextGraphid true next.1.id (rest.map (prebuilt datumImageHash row))
        next.2 = after at restBlank restTuples perm restIds
      obtain ⟨edgeBlank, edgeTuples, edgeId⟩ := @mergeEdgeEntry_spec _ datumImageHash nextGraphid row edge
        after.2 isNew prevVertexId next.1.id
      generalize mergeEdgeEntry nextGraphid true prevVertexId next.1.id
        (prebuilt datumImageHash row edge) after.2 = made at edgeBlank edgeTuples edgeId
      refine ⟨?_, newTuples [next.1] ++ tuples ++ newTuples [made.1], ?_, ?_, ?_⟩
      · rw [List.map_cons, List.map_cons, edgeBlank, nextBlank, restBlank]
      · rw [edgeTuples, restTuples, nextTuples, List.append_assoc, List.append_assoc,
          List.append_assoc]
      · rw [newTuples_cons made.1 (next.1 :: after.1), newTuples_cons next.1 after.1]
        exact List.perm_append_comm.trans
          (List.Perm.append_left _ (List.Perm.append_left _ perm))
      · exact List.forall_mem_cons.2 ⟨edgeId, List.forall_mem_cons.2 ⟨nextId, restIds⟩⟩

theorem processPath_created (evaluated : Nat) :
    (processPath nextGraphid true (instanceOf datumImageHash path row) evaluated).1.map
        PathEntry.blank = instanceOf datumImageHash path row ∧
      (processPath nextGraphid true (instanceOf datumImageHash path row) evaluated).2.tuples.Perm
        (newTuples (processPath nextGraphid true (instanceOf datumImageHash path row)
          evaluated).1) ∧
      ∀ entry ∈ (processPath nextGraphid true (instanceOf datumImageHash path row) evaluated).1,
        entry.id.isSome = true := by
  rw [instanceOf, TargetPath.nodes, List.map_cons, processPath]
  dsimp only
  obtain ⟨firstBlank, firstTuples, firstId⟩ :=
    @mergeVertexEntry_spec _ datumImageHash nextGraphid row path.first ⟨evaluated, []⟩
  generalize mergeVertexEntry nextGraphid true (prebuilt datumImageHash row path.first)
    ⟨evaluated, []⟩ = first at firstBlank firstTuples firstId
  obtain ⟨restBlank, tuples, restTuples, perm, restIds⟩ := @mergeRest_created _ datumImageHash
    nextGraphid row path.rest path.steps first.1.id first.2
  refine ⟨?_, ?_, List.forall_mem_cons.2 ⟨firstId, restIds⟩⟩
  · rw [List.map_cons, firstBlank, restBlank]
  · rw [restTuples, firstTuples, List.nil_append, newTuples_cons first.1 (mergeRest _ _ _ _ _).1]
    exact List.Perm.append_left _ perm

end Process

section Cache

variable {Image : Type} [DecidableEq Image] {datumImageHash : Image → UInt32}
  {row : MergeRow Image} {path : TargetPath} {state : MergeState Image}
  {created : CreatedPath Image}

/-- The search through all created paths, without hashes -/
def linearSearch (state : MergeState Image) (path : List (PathEntry Image)) :
    Option (CreatedPath Image) :=
  state.createdPathsList.find? fun created => compare2Paths path created.entry

variable (datumImageHash path state) in
/-- The buckets hold the created paths, each with its hash. -/
structure Cached : Prop where
  buckets : match state.createdPathsHash with
    | none => state.createdPathsList = []
    | some buckets => ∀ hash, buckets hash =
        state.createdPathsList.filter fun created => created.pathHash = hash
  hashes : ∀ created ∈ state.createdPathsList, created.pathHash = hashPathEntries created.entry
  instances : ∀ created ∈ state.createdPathsList,
    ∃ row, created.entry.map PathEntry.blank = instanceOf datumImageHash path row

theorem compare_created
    (isInstance : ∃ other, created.entry.map PathEntry.blank = instanceOf datumImageHash path other) :
    compare2Paths (instanceOf datumImageHash path row) created.entry = true ↔
      created.entry.map PathEntry.blank = instanceOf datumImageHash path row := by
  obtain ⟨other, isOther⟩ := isInstance
  rw [← compare2Paths_blank, isOther, instanceOf, instanceOf, compare2Paths_prebuilt]
  exact eq_comm

/-- The lookup by the hash finds what the search through all created paths finds. -/
theorem findDuplicatePath_eq (cached : Cached datumImageHash path state) :
    findDuplicatePath state (instanceOf datumImageHash path row)
        (hashPathEntries (instanceOf datumImageHash path row)) =
      linearSearch state (instanceOf datumImageHash path row) := by
  have sameHash : ∀ created ∈ state.createdPathsList,
      compare2Paths (instanceOf datumImageHash path row) created.entry = true →
        created.pathHash = hashPathEntries (instanceOf datumImageHash path row) := by
    intro created isIn same
    rw [cached.hashes created isIn, ← hashPathEntries_blank,
      (compare_created (cached.instances created isIn)).1 same]
  have isBuckets := cached.buckets
  rw [findDuplicatePath, linearSearch]
  cases isTable : state.createdPathsHash with
  | none =>
      rw [isTable] at isBuckets
      dsimp only at isBuckets
      rw [isBuckets]
      rfl
  | some buckets =>
      rw [isTable] at isBuckets
      dsimp only at isBuckets ⊢
      cases isList : state.createdPathsList with
      | nil => rfl
      | cons newest older =>
          rw [if_neg (by simp), isBuckets, ← isList, List.find?_filter]
          refine List.find?_congr fun created isIn => ?_
          have hash := sameHash created isIn
          cases same : compare2Paths (instanceOf datumImageHash path row) created.entry with
          | false => simp
          | true => simp [hash same]

theorem mem_of_linearSearch (cached : Cached datumImageHash path state)
    (found : linearSearch state (instanceOf datumImageHash path row) = some created) :
    created ∈ state.createdPathsList ∧
      created.entry.map PathEntry.blank = instanceOf datumImageHash path row := by
  rw [linearSearch] at found
  have isIn := List.mem_of_find?_eq_some found
  have same := List.find?_some found
  exact ⟨isIn, (compare_created (cached.instances created isIn)).1 same⟩

omit [DecidableEq Image] in
theorem Cached.remember (cached : Cached datumImageHash path state)
    {entries : List (PathEntry Image)}
    (isInstance : entries.map PathEntry.blank = instanceOf datumImageHash path row)
    (evaluated : Nat) :
    Cached datumImageHash path
      { rememberCreatedPath state entries (hashPathEntries (instanceOf datumImageHash path row)) with
        evaluated := evaluated } := by
  constructor
  · intro hash
    have isBuckets := cached.buckets
    have old : (state.createdPathsHash.getD fun _ => []) hash =
        state.createdPathsList.filter fun created => created.pathHash = hash := by
      cases isTable : state.createdPathsHash with
      | none =>
          rw [isTable] at isBuckets
          dsimp only at isBuckets
          rw [isBuckets]
          rfl
      | some buckets =>
          rw [isTable] at isBuckets
          exact isBuckets hash
    rw [rememberCreatedPath]
    dsimp only
    by_cases same : hash = hashPathEntries (instanceOf datumImageHash path row)
    · rw [← same, Function.update_self, List.filter_cons_of_pos (by simp), old]
    · rw [Function.update_of_ne same, List.filter_cons_of_neg (by simpa using Ne.symm same), old]
  · intro created isIn
    rcases List.mem_cons.1 isIn with rfl | isIn
    · rw [← hashPathEntries_blank entries, isInstance]
    · exact cached.hashes created isIn
  · intro created isIn
    rcases List.mem_cons.1 isIn with rfl | isIn
    · exact ⟨row, isInstance⟩
    · exact cached.instances created isIn

end Cache

section Run

variable {Image : Type} {datumImageHash : Image → UInt32}
  {nextGraphid : Nat → UInt32 → GraphId} {path : TargetPath}
  {done : List (MergeRow Image)} {outcomes : List (Option (Outcome Image))}
  {state : MergeState Image} {row : MergeRow Image}

/-- The row that creates its path inserts each new entity once and is bound to them. -/
structure Creates (datumImageHash : Image → UInt32) (path : TargetPath) (row : MergeRow Image)
    (outcome : Outcome Image) : Prop where
  bound : outcome.bound.map PathEntry.blank = instanceOf datumImageHash path row
  inserted : outcome.inserted.Perm (newTuples outcome.bound)
  ids : ∀ entry ∈ outcome.bound, entry.id.isSome = true

/-- The first row of the rows with equal paths creates the path, and the later ones insert nothing
and are bound to the same ids. -/
structure MergesOnce (datumImageHash : Image → UInt32) (path : TargetPath)
    (rows : List (MergeRow Image)) (outcomes : List (Option (Outcome Image))) : Prop where
  length : outcomes.length = rows.length
  first : ∀ (place : Nat) row, rows[place]? = some row →
    (∀ (before : Nat) other, before < place → rows[before]? = some other → ¬ SamePath path other row) →
      ∃ outcome, outcomes[place]? = some (some outcome) ∧ Creates datumImageHash path row outcome
  later : ∀ (place : Nat) row (before : Nat) other, rows[place]? = some row → before < place →
    rows[before]? = some other → SamePath path other row →
      ∃ earlier, outcomes[before]? = some (some earlier) ∧
        outcomes[place]? = some (some ⟨earlier.bound, []⟩)

/-- All vertices that are read from the row are there. -/
def Ready (path : TargetPath) (row : MergeRow Image) : Prop :=
  ∀ node ∈ path.nodes, node.insertEntity = false → Usable row node

theorem ready_of_bound (bound : BoundVertices path row) (noReference : ¬ RefersBack path) :
    Ready path row := by
  intro node isIn isRead
  apply bound node isIn isRead
  intro repeats
  exact noReference ⟨node, isIn, isRead, repeats⟩

/-- The cache after some rows -/
structure RunInv (datumImageHash : Image → UInt32) (path : TargetPath)
    (done : List (MergeRow Image)) (outcomes : List (Option (Outcome Image)))
    (state : MergeState Image) : Prop where
  cached : Cached datumImageHash path state
  ready : ∀ row ∈ done, Ready path row
  once : MergesOnce datumImageHash path done outcomes
  known : ∀ (place : Nat) row, done[place]? = some row → ∃ outcome, outcomes[place]? = some (some outcome) ∧
    outcome.bound.map PathEntry.blank = instanceOf datumImageHash path row ∧
      ∃ created ∈ state.createdPathsList, created.entry = outcome.bound
  created : ∀ created ∈ state.createdPathsList, ∃ row ∈ done,
    created.entry.map PathEntry.blank = instanceOf datumImageHash path row
  unique : ∀ created ∈ state.createdPathsList, ∀ other ∈ state.createdPathsList,
    created.entry.map PathEntry.blank = other.entry.map PathEntry.blank →
      created.entry = other.entry

theorem getElem?_concat_iff {α : Type} {list : List α} {last elem : α} {place : Nat} :
    (list ++ [last])[place]? = some elem ↔
      list[place]? = some elem ∨ place = list.length ∧ last = elem := by
  grind

theorem MergesOnce.concat (once : MergesOnce datumImageHash path done outcomes)
    {outcome : Outcome Image}
    (first : (∀ other ∈ done, ¬ SamePath path other row) → Creates datumImageHash path row outcome)
    (later : ∀ (before : Nat) other, done[before]? = some other → SamePath path other row →
      ∃ earlier, outcomes[before]? = some (some earlier) ∧ outcome = ⟨earlier.bound, []⟩) :
    MergesOnce datumImageHash path (done ++ [row]) (outcomes ++ [some outcome]) := by
  constructor
  · rw [List.length_append, List.length_append, once.length]
    rfl
  · intro place other isRow fresh
    rcases getElem?_concat_iff.1 isRow with isRow | ⟨rfl, rfl⟩
    · obtain ⟨outcome, isOutcome, creates⟩ := once.first place other isRow
        fun before earlierRow isBefore isEarlier =>
          fresh before earlierRow isBefore (getElem?_concat_iff.2 (.inl isEarlier))
      exact ⟨outcome, getElem?_concat_iff.2 (.inl isOutcome), creates⟩
    · refine ⟨outcome, getElem?_concat_iff.2 (.inr ⟨once.length.symm, rfl⟩), ?_⟩
      apply first
      intro earlierRow isIn
      obtain ⟨before, isBefore, rfl⟩ := List.mem_iff_getElem.1 isIn
      apply fresh before _ isBefore
      exact getElem?_concat_iff.2 (.inl (List.getElem?_eq_getElem isBefore))
  · intro place other before earlierRow isRow isBefore isEarlier same
    have inDone : done[before]? = some earlierRow := by
      rcases getElem?_concat_iff.1 isEarlier with isEarlier | ⟨rfl, -⟩
      · exact isEarlier
      · rcases getElem?_concat_iff.1 isRow with isRow | ⟨rfl, -⟩
        · have inside := (List.getElem?_eq_some_iff.1 isRow).1
          omega
        · omega
    rcases getElem?_concat_iff.1 isRow with isRow | ⟨rfl, rfl⟩
    · obtain ⟨earlier, isFirst, isLater⟩ :=
        once.later place other before earlierRow isRow isBefore inDone same
      exact ⟨earlier, getElem?_concat_iff.2 (.inl isFirst), getElem?_concat_iff.2 (.inl isLater)⟩
    · obtain ⟨earlier, isFirst, rfl⟩ := later before earlierRow inDone same
      exact ⟨earlier, getElem?_concat_iff.2 (.inl isFirst),
        getElem?_concat_iff.2 (.inr ⟨once.length.symm, rfl⟩)⟩

theorem runInv_start : RunInv datumImageHash path [] [] .start := by
  refine ⟨⟨rfl, ?_, ?_⟩, ?_, ⟨rfl, ?_, ?_⟩, ?_, ?_, ?_⟩
  all_goals exact nofun

theorem RunInv.ready_concat (inv : RunInv datumImageHash path done outcomes state)
    (ready : Ready path row) : ∀ other ∈ done ++ [row], Ready path other :=
  List.forall_mem_append.2 ⟨inv.ready, List.forall_mem_singleton.2 ready⟩

/-- An earlier row with the same path has been bound to the entry of the cache. -/
theorem RunInv.known_same (inv : RunInv datumImageHash path done outcomes state)
    (ready : Ready path row) {before : Nat} {other : MergeRow Image}
    (isBefore : done[before]? = some other) (same : SamePath path other row) :
    ∃ earlier, outcomes[before]? = some (some earlier) ∧
      ∃ kept ∈ state.createdPathsList, kept.entry = earlier.bound ∧
        kept.entry.map PathEntry.blank = instanceOf datumImageHash path row := by
  obtain ⟨earlier, isEarlier, isBound, kept, isKept, keptBound⟩ := inv.known before other isBefore
  have otherReady := inv.ready other (List.mem_of_getElem? isBefore)
  refine ⟨earlier, isEarlier, kept, isKept, keptBound, ?_⟩
  rw [keptBound, isBound]
  exact (instanceOf_eq_iff otherReady ready).2 same

/-- A row with a path that is in the cache is bound to it. -/
theorem RunInv.found (inv : RunInv datumImageHash path done outcomes state) (ready : Ready path row)
    {created : CreatedPath Image} (isIn : created ∈ state.createdPathsList)
    (isInstance : created.entry.map PathEntry.blank = instanceOf datumImageHash path row)
    (evaluated : Nat) :
    RunInv datumImageHash path (done ++ [row]) (outcomes ++ [some ⟨created.entry, []⟩])
      { state with evaluated := evaluated } := by
  obtain ⟨buckets, hashes, instances⟩ := inv.cached
  refine ⟨⟨buckets, hashes, instances⟩, inv.ready_concat ready, inv.once.concat ?_ ?_,
    fun place other isRow => ?_, fun other isOther => ?_, inv.unique⟩
  · intro fresh
    obtain ⟨earlier, inDone, isEarlier⟩ := inv.created created isIn
    rw [isInstance] at isEarlier
    exact absurd ((instanceOf_eq_iff (inv.ready earlier inDone) ready).1 isEarlier.symm)
      (fresh earlier inDone)
  · intro before other isBefore same
    obtain ⟨earlier, isEarlier, kept, isKept, keptBound, sameInstance⟩ :=
      inv.known_same ready isBefore same
    refine ⟨earlier, isEarlier, ?_⟩
    rw [← keptBound, inv.unique created isIn kept isKept (isInstance.trans sameInstance.symm)]
  · rcases getElem?_concat_iff.1 isRow with isRow | ⟨rfl, rfl⟩
    · obtain ⟨outcome, isOutcome, isBound, kept⟩ := inv.known place other isRow
      exact ⟨outcome, getElem?_concat_iff.2 (.inl isOutcome), isBound, kept⟩
    · exact ⟨⟨created.entry, []⟩, getElem?_concat_iff.2 (.inr ⟨inv.once.length.symm, rfl⟩),
        isInstance, created, isIn, rfl⟩
  · obtain ⟨earlier, inDone, isEarlier⟩ := inv.created other isOther
    exact ⟨earlier, List.mem_append_left _ inDone, isEarlier⟩

/-- A row with a path that is not in the cache creates it. -/
theorem RunInv.made (inv : RunInv datumImageHash path done outcomes state) (ready : Ready path row)
    (isNew : ∀ created ∈ state.createdPathsList,
      created.entry.map PathEntry.blank ≠ instanceOf datumImageHash path row)
    {outcome : Outcome Image} (creates : Creates datumImageHash path row outcome)
    (evaluated : Nat) :
    RunInv datumImageHash path (done ++ [row]) (outcomes ++ [some outcome])
      { rememberCreatedPath state outcome.bound
          (hashPathEntries (instanceOf datumImageHash path row)) with evaluated := evaluated } := by
  refine ⟨inv.cached.remember creates.bound evaluated, inv.ready_concat ready,
    inv.once.concat (fun _ => creates) ?_, fun place other isRow => ?_, fun other isOther => ?_,
    fun kept isKept other isOther same => ?_⟩
  · intro before other isBefore same
    obtain ⟨-, -, kept, isKept, -, sameInstance⟩ := inv.known_same ready isBefore same
    exact absurd sameInstance (isNew kept isKept)
  · rcases getElem?_concat_iff.1 isRow with isRow | ⟨rfl, rfl⟩
    · obtain ⟨earlier, isEarlier, isBound, kept, isKept, keptBound⟩ := inv.known place other isRow
      exact ⟨earlier, getElem?_concat_iff.2 (.inl isEarlier), isBound, kept,
        List.mem_cons_of_mem _ isKept, keptBound⟩
    · exact ⟨outcome, getElem?_concat_iff.2 (.inr ⟨inv.once.length.symm, rfl⟩), creates.bound, _,
        List.mem_cons_self, rfl⟩
  · rcases List.mem_cons.1 isOther with rfl | isOther
    · exact ⟨row, List.mem_append_right _ (List.mem_singleton_self _), creates.bound⟩
    · obtain ⟨earlier, inDone, isEarlier⟩ := inv.created other isOther
      exact ⟨earlier, List.mem_append_left _ inDone, isEarlier⟩
  · rcases List.mem_cons.1 isKept with rfl | isKept <;>
      rcases List.mem_cons.1 isOther with rfl | isOther
    · rfl
    · exact absurd (same.symm.trans creates.bound) (isNew other isOther)
    · exact absurd (same.trans creates.bound) (isNew kept isKept)
    · exact inv.unique kept isKept other isOther same

variable [DecidableEq Image]

theorem RunInv.mergeRow (inv : RunInv datumImageHash path done outcomes state)
    (unmatched : checkPath path row = true) (ready : Ready path row) :
    ∃ outcome next, mergeRow datumImageHash nextGraphid path state row = .ok (some outcome, next) ∧
      RunInv datumImageHash path (done ++ [row]) (outcomes ++ [some outcome]) next := by
  rw [MergeClause.mergeRow, if_pos unmatched, prebuildPath_eq ready, ← instanceOf]
  dsimp only [Except.map]
  rw [findDuplicatePath_eq inv.cached]
  cases found : linearSearch state (instanceOf datumImageHash path row) with
  | some created =>
      obtain ⟨isIn, isInstance⟩ := mem_of_linearSearch inv.cached found
      dsimp only
      rw [processPath_found]
      exact ⟨_, _, rfl, inv.found ready isIn isInstance state.evaluated⟩
  | none =>
      obtain ⟨isBound, inserted, ids⟩ :=
        @processPath_created _ datumImageHash nextGraphid row path state.evaluated
      refine ⟨_, _, rfl, inv.made ready (fun created isIn isInstance => ?_)
        ⟨isBound, inserted, ids⟩ _⟩
      have differs := List.find?_eq_none.1 found created isIn
      exact differs ((compare_created (inv.cached.instances created isIn)).2 isInstance)

theorem RunInv.execCypherMerge {rows : List (MergeRow Image)}
    (inv : RunInv datumImageHash path done outcomes state)
    (unmatched : ∀ row ∈ rows, checkPath path row = true) (ready : ∀ row ∈ rows, Ready path row) :
    ∃ more final, execCypherMerge datumImageHash nextGraphid path rows state = .ok (more, final) ∧
      RunInv datumImageHash path (done ++ rows) (outcomes ++ more) final := by
  induction rows generalizing done outcomes state with
  | nil =>
      refine ⟨[], state, rfl, ?_⟩
      rw [List.append_nil, List.append_nil]
      exact inv
  | cons row rest inductionHypothesis =>
      obtain ⟨outcome, next, isRow, invNext⟩ : ∃ outcome next,
          MergeClause.mergeRow datumImageHash nextGraphid path state row =
              .ok (some outcome, next) ∧
            RunInv datumImageHash path (done ++ [row]) (outcomes ++ [some outcome]) next :=
        inv.mergeRow (unmatched row List.mem_cons_self) (ready row List.mem_cons_self)
      obtain ⟨more, final, isRest, invFinal⟩ := inductionHypothesis invNext
        (fun other isIn => unmatched other (List.mem_cons_of_mem _ isIn))
        (fun other isIn => ready other (List.mem_cons_of_mem _ isIn))
      refine ⟨some outcome :: more, final, ?_, ?_⟩
      · rw [MergeClause.execCypherMerge, isRow]
        change (MergeClause.execCypherMerge datumImageHash nextGraphid path rest next).map _ = _
        rw [isRest]
        rfl
      · rw [List.append_cons, List.append_cons outcomes]
        exact invFinal

end Run

section Once

variable {Image : Type} [DecidableEq Image]

/-- Every row gives what `MergesOnce` says, and before every row the lookup by the hash finds what
the search through all created paths finds. -/
structure CreatesPathsOnce (datumImageHash : Image → UInt32) (nextGraphid : Nat → UInt32 → GraphId)
    (path : TargetPath) (rows : List (MergeRow Image)) : Prop where
  run : ∃ outcomes final, execCypherMerge datumImageHash nextGraphid path rows .start =
    .ok (outcomes, final) ∧ MergesOnce datumImageHash path rows outcomes
  lookups : ∀ before row after, rows = before ++ row :: after →
    ∃ outcomes state, execCypherMerge datumImageHash nextGraphid path before .start =
        .ok (outcomes, state) ∧
      findDuplicatePath state (instanceOf datumImageHash path row)
          (hashPathEntries (instanceOf datumImageHash path row)) =
        linearSearch state (instanceOf datumImageHash path row)

variable {datumImageHash : Image → UInt32} {nextGraphid : Nat → UInt32 → GraphId}
  {path : TargetPath} {rows : List (MergeRow Image)} {row : MergeRow Image}

theorem createsPathsOnce_of_ready (unmatched : ∀ row ∈ rows, checkPath path row = true)
    (ready : ∀ row ∈ rows, Ready path row) :
    CreatesPathsOnce datumImageHash nextGraphid path rows := by
  constructor
  · obtain ⟨outcomes, final, isRun, inv⟩ : ∃ outcomes final,
        execCypherMerge datumImageHash nextGraphid path rows .start = .ok (outcomes, final) ∧
          RunInv datumImageHash path ([] ++ rows) ([] ++ outcomes) final :=
      runInv_start.execCypherMerge unmatched ready
    exact ⟨outcomes, final, isRun, inv.once⟩
  · intro before row after isRows
    have isBefore : ∀ other ∈ before, other ∈ rows := by
      intro other isIn
      rw [isRows]
      exact List.mem_append_left _ isIn
    obtain ⟨outcomes, state, isRun, inv⟩ : ∃ outcomes state,
        execCypherMerge datumImageHash nextGraphid path before .start = .ok (outcomes, state) ∧
          RunInv datumImageHash path ([] ++ before) ([] ++ outcomes) state :=
      runInv_start.execCypherMerge (fun other isIn => unmatched other (isBefore other isIn))
        (fun other isIn => ready other (isBefore other isIn))
    exact ⟨outcomes, state, isRun, findDuplicatePath_eq inv.cached⟩

/-- A vertex that refers back is NULL when the path is prebuilt. -/
theorem mergeRow_refersBack (state : MergeState Image) (unmatched : Unmatched path row)
    (refersBack : RefersBack path) :
    ∃ error, mergeRow datumImageHash nextGraphid path state row = .error error := by
  obtain ⟨node, isIn, isRead, new, newIn, isNew, samePosition⟩ := refersBack
  have isNull := unmatched.created new newIn isNew
  rw [samePosition] at isNull
  obtain ⟨error, isError⟩ := @prebuildPath_null _ datumImageHash row node _ isIn isRead isNull
  rw [mergeRow, if_pos unmatched.check, isError]
  exact ⟨error, rfl⟩

/-- MERGE creates each path once just when there is no row or no vertex of the path is one that the
path creates in another place. -/
theorem createsPathsOnce_iff (datumImageHash : Image → UInt32) (nextGraphid : Nat → UInt32 → GraphId)
    (path : TargetPath) (rows : List (MergeRow Image)) (unmatched : ∀ row ∈ rows, Unmatched path row)
    (bound : ∀ row ∈ rows, BoundVertices path row) :
    CreatesPathsOnce datumImageHash nextGraphid path rows ↔ rows = [] ∨ ¬ RefersBack path := by
  constructor
  · intro once
    cases rows with
    | nil =>
        left
        rfl
    | cons row rest =>
        right
        intro refersBack
        obtain ⟨outcomes, final, isRun, -⟩ := once.run
        obtain ⟨error, isError⟩ := @mergeRow_refersBack _ _ datumImageHash nextGraphid path row
          .start (unmatched row List.mem_cons_self) refersBack
        rw [execCypherMerge, isError] at isRun
        exact nomatch isRun
  · rintro (rfl | noReference)
    · exact createsPathsOnce_of_ready nofun nofun
    · apply createsPathsOnce_of_ready
      · intro row isIn
        exact (unmatched row isIn).check
      · intro row isIn
        exact ready_of_bound (bound row isIn) noReference

/-- `MERGE (n)-[:e]->(n)` with a new `n` -/
def selfLoop : TargetPath where
  first := ⟨true, false, false, .none, 1, 1, "n", 0⟩
  rest := [⟨true, false, false, .right, 2, 2, "e", 1⟩, ⟨false, false, true, .none, 1, 1, "n", 0⟩]
  steps := ⟨rfl, trivial⟩

def unmatchedRow : MergeRow Nat := ⟨fun _ => .null, fun _ => none, fun _ => true⟩

theorem createsPathsOnce_selfLoop :
    Unmatched selfLoop unmatchedRow ∧ BoundVertices selfLoop unmatchedRow ∧
      ¬ CreatesPathsOnce (fun _ => 0) (fun place _ => Int64.ofNat place) selfLoop
        [unmatchedRow] := by
  refine ⟨⟨rfl, fun _ _ _ => rfl⟩, fun node isIn isRead noRepeat => ?_, fun once => ?_⟩
  · refine absurd ⟨selfLoop.first, List.mem_cons_self, rfl, ?_⟩ noRepeat
    have positions : ∀ node ∈ selfLoop.nodes, node.insertEntity = false →
        selfLoop.first.tuplePosition = node.tuplePosition := by decide
    exact positions node isIn isRead
  · obtain ⟨outcomes, final, isRun, -⟩ := once.run
    have isError : execCypherMerge (fun _ => 0) (fun place _ => Int64.ofNat place) selfLoop
        [unmatchedRow] .start = .error (.isNull "n") := rfl
    rw [isError] at isRun
    exact nomatch isRun

/-- `MERGE (a)-[:e]->(b)` with a bound `a` -/
def boundStart : TargetPath where
  first := ⟨false, true, false, .none, 0, 1, "a", 0⟩
  rest := [⟨true, false, false, .right, 2, 2, "e", 1⟩, ⟨true, false, false, .none, 1, 3, "b", 2⟩]
  steps := ⟨rfl, trivial⟩

def boundRow : MergeRow Nat :=
  ⟨fun position => if position = 1 then .vertex 5 else .null, fun _ => none, fun _ => true⟩

theorem createsPathsOnce_iff_boundStart :
    CreatesPathsOnce (fun _ => 0) (fun place _ => Int64.ofNat place) boundStart
        (List.replicate 2 boundRow) ↔
      List.replicate 2 boundRow = [] ∨ ¬ RefersBack boundStart :=
  createsPathsOnce_iff (fun _ => 0) (fun place _ => Int64.ofNat place) boundStart
    (List.replicate 2 boundRow)
    (fun row isIn => by
      rw [List.eq_of_mem_replicate isIn]
      have positions : ∀ node ∈ boundStart.nodes, node.insertEntity = true →
          node.tuplePosition ≠ 1 := by decide
      exact ⟨rfl, fun node isNode isNew => if_neg (positions node isNode isNew)⟩)
    fun row isIn node isNode isRead _ => by
      rw [List.eq_of_mem_replicate isIn]
      have positions : ∀ node ∈ boundStart.nodes, node.insertEntity = false →
          node.tuplePosition = 1 := by decide
      exact ⟨5, if_pos (positions node isNode isRead), by rw [boundRow, Bool.or_true]⟩

end Once

end Age.Executor.MergeClause
