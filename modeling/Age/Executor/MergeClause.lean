import Mathlib.Data.List.Perm.Basic
import Mathlib.Tactic.SplitIfs
import Age.Executor.SetClause
import Age.Vle.SourceLayout

/-!
# The MERGE clause after another clause

A row for which the lateral join has found no path instantiates the path.  Paths that have been
created are kept with their hashes, so that a later row with an equal path gets the same entities.
-/

namespace Age.Executor.MergeClause

section Path

/-- A value of the scan tuple, as far as a vertex is read from it -/
inductive SlotValue where
  | null
  | vertex (id : GraphId)
  | other
  deriving DecidableEq

/-- `cypher_target_node`; `propExpr` numbers the property expressions of the path. -/
structure TargetNode where
  insertEntity : Bool
  mergeExists : Bool
  safeToSkipExistenceCheck : Bool
  dir : Vle.RelDir
  relid : UInt32
  tuplePosition : Nat
  variableName : String
  propExpr : Nat
  deriving DecidableEq

/-- What follows a vertex in a path: an edge, which MERGE always creates, and a vertex, in turn -/
def StepsOf : List TargetNode → Prop
  | [] => True
  | [_] => False
  | edge :: _ :: rest => edge.insertEntity = true ∧ StepsOf rest

/-- `target_nodes` of the path -/
structure TargetPath where
  first : TargetNode
  rest : List TargetNode
  steps : StepsOf rest

def TargetPath.nodes (path : TargetPath) : List TargetNode := path.first :: path.rest

/-- A row of the lateral join: the scan tuple, the images of the properties, where `none` is NULL,
and the vertices that `entity_exists_with_cache` finds -/
structure MergeRow (Image : Type) where
  values : Nat → SlotValue
  props : Nat → Option Image
  entityExists : GraphId → Bool

inductive MergeError where
  | isNull (variableName : String)
  | notVertex
  | deleted (variableName : String)

def MergeError.message : MergeError → String
  | .isNull variableName => "Existing variable " ++ variableName ++ " cannot be NULL in MERGE clause"
  | .notVertex => "agtype must resolve to a vertex"
  | .deleted variableName => "vertex assigned to variable " ++ variableName ++ " was deleted"

/-- `path_entry`, with the target node at its place.  What `palloc` leaves unset is `none` where it
is filled in later, and zero where it is never read. -/
structure PathEntry (Image : Type) where
  node : TargetNode
  actual : Bool
  id : Option GraphId
  startId : Option GraphId
  endId : Option GraphId
  direction : Vle.RelDir
  label : UInt32
  prop : Option Image
  dih : UInt32
  deriving DecidableEq

end Path

section Code

variable {Image : Type} [DecidableEq Image] (datumImageHash : Image → UInt32)
  (nextGraphid : Nat → UInt32 → GraphId)

/-- `check_path` -/
def checkPath (path : TargetPath) (row : MergeRow Image) : Bool :=
  path.nodes.any fun node =>
    (node.tuplePosition ≠ 0 || !node.mergeExists) && row.values node.tuplePosition = .null

/-- An entity of `prebuild_path` that the path creates -/
def newEntry (node : TargetNode) (prop : Option Image) : PathEntry Image :=
  ⟨node, false, none, none, none, node.dir, node.relid, prop,
    match prop with
    | none => 0
    | some image => datumImageHash image⟩

/-- An entity of `prebuild_path` that is there -/
def actualEntry (node : TargetNode) (id : GraphId) : PathEntry Image :=
  ⟨node, true, some id, none, none, .none, 0, none, 0⟩

/-- An entity of `prebuild_path` -/
def prebuildEntry (row : MergeRow Image) (node : TargetNode) :
    Except MergeError (PathEntry Image) :=
  if node.insertEntity then .ok (newEntry datumImageHash node (row.props node.propExpr))
  else
    match row.values node.tuplePosition with
    | .null => .error (.isNull node.variableName)
    | .other => .error .notVertex
    | .vertex id =>
        if node.safeToSkipExistenceCheck || row.entityExists id then .ok (actualEntry node id)
        else .error (.deleted node.variableName)

/-- `prebuild_path` -/
def prebuildPath (row : MergeRow Image) :
    List TargetNode → Except MergeError (List (PathEntry Image))
  | [] => .ok []
  | node :: rest =>
      (prebuildEntry datumImageHash row node).bind fun entry =>
        (prebuildPath row rest).map fun entries => entry :: entries

/-- `PATH_HASH_COMBINE` -/
def pathHashCombine (hash value : UInt32) : UInt32 := (hash ^^^ value) * 16777619

/-- The value of `cypher_rel_dir` as it is hashed -/
def hashedDirection : Vle.RelDir → UInt32
  | .none => 0
  | .left => 0xFFFFFFFF
  | .right => 1

def hashEntry (hash : UInt32) (entry : PathEntry Image) : UInt32 :=
  let hash := pathHashCombine hash (if entry.actual then 1 else 0)
  if entry.actual then
    let id := entry.id.getD 0
    pathHashCombine (pathHashCombine hash id.toUInt64.toUInt32) (id >>> 32).toUInt64.toUInt32
  else
    let hash := pathHashCombine hash entry.label
    let hash := pathHashCombine hash (hashedDirection entry.direction)
    let hash := pathHashCombine hash (if entry.prop.isNone then 1 else 0)
    if entry.prop.isNone then hash else pathHashCombine hash entry.dih

/-- `hash_path_entries` -/
def hashPathEntries (path : List (PathEntry Image)) : UInt32 := path.foldl hashEntry 2166136261

/-- One turn of `compare_2_paths`; images are equal when `datum_image_eq` says so. -/
def compareEntry (lhs rhs : PathEntry Image) : Bool :=
  if lhs.actual = rhs.actual ∧ lhs.actual = true then lhs.id = rhs.id
  else if lhs.label ≠ rhs.label then false
  else if lhs.direction ≠ rhs.direction then false
  else if lhs.prop.isNone ≠ rhs.prop.isNone then false
  else if lhs.prop.isNone then true
  else if lhs.dih ≠ rhs.dih then false
  else lhs.prop = rhs.prop

/-- `compare_2_paths` -/
def compare2Paths (lhs rhs : List (PathEntry Image)) : Bool :=
  (lhs.zip rhs).all fun entries => compareEntry entries.1 entries.2

/-- `created_path` -/
structure CreatedPath (Image : Type) where
  entry : List (PathEntry Image)
  pathHash : UInt32

/-- The cache of created paths, newest first, with its buckets, and the count of ids that
`id_expr` has given -/
structure MergeState (Image : Type) where
  createdPathsList : List (CreatedPath Image)
  createdPathsHash : Option (UInt32 → List (CreatedPath Image))
  evaluated : Nat

def MergeState.start : MergeState Image := ⟨[], none, 0⟩

/-- `find_duplicate_path` -/
def findDuplicatePath (state : MergeState Image) (path : List (PathEntry Image))
    (pathHash : UInt32) : Option (CreatedPath Image) :=
  if state.createdPathsList.isEmpty then none
  else
    match state.createdPathsHash with
    | some buckets => (buckets pathHash).find? fun created => compare2Paths path created.entry
    | none =>
        state.createdPathsList.find? fun created =>
          created.pathHash = pathHash && compare2Paths path created.entry

/-- `remember_created_path` -/
def rememberCreatedPath (state : MergeState Image) (path : List (PathEntry Image))
    (pathHash : UInt32) : MergeState Image :=
  let newPath : CreatedPath Image := ⟨path, pathHash⟩
  let buckets := state.createdPathsHash.getD fun _ => []
  { state with
    createdPathsList := newPath :: state.createdPathsList
    createdPathsHash := some (Function.update buckets pathHash (newPath :: buckets pathHash)) }

/-- A tuple of a label's table -/
structure EntityTuple (Image : Type) where
  relid : UInt32
  id : Option GraphId
  startId : Option GraphId
  endId : Option GraphId
  prop : Option Image
  deriving DecidableEq

def PathEntry.tuple (entry : PathEntry Image) : EntityTuple Image :=
  ⟨entry.label, entry.id, entry.startId, entry.endId, entry.prop⟩

/-- The count of ids, and the tuples that the row has inserted -/
structure Inserting (Image : Type) where
  evaluated : Nat
  tuples : List (EntityTuple Image)

/-- `insert_entity_tuple` of an entity that has got its id -/
def Inserting.insert (inserting : Inserting Image) (entry : PathEntry Image) : Inserting Image :=
  ⟨inserting.evaluated + 1, inserting.tuples ++ [entry.tuple]⟩

/-- `merge_vertex` up to the edge that follows -/
def mergeVertexEntry (shouldInsert : Bool) (entry : PathEntry Image)
    (inserting : Inserting Image) : PathEntry Image × Inserting Image :=
  if entry.node.insertEntity && shouldInsert then
    let entry := { entry with id := some (nextGraphid inserting.evaluated entry.node.relid) }
    (entry, inserting.insert entry)
  else (entry, inserting)

/-- `merge_edge` after the vertex that follows -/
def mergeEdgeEntry (shouldInsert : Bool) (prevVertexId nextVertexId : Option GraphId)
    (entry : PathEntry Image) (inserting : Inserting Image) :
    PathEntry Image × Inserting Image :=
  if shouldInsert then
    let entry := { entry with
      id := some (nextGraphid inserting.evaluated entry.node.relid)
      startId := if entry.node.dir = .left then nextVertexId else prevVertexId
      endId := if entry.node.dir = .left then prevVertexId else nextVertexId }
    (entry, inserting.insert entry)
  else (entry, inserting)

/-- `merge_edge` and `merge_vertex` by turns: an edge is made after all that follows it, as it needs
the id of the next vertex. -/
def mergeRest (shouldInsert : Bool) :
    Option GraphId → List (PathEntry Image) → Inserting Image →
      List (PathEntry Image) × Inserting Image
  | prevVertexId, edge :: vertex :: rest, inserting =>
      let next := mergeVertexEntry nextGraphid shouldInsert vertex inserting
      let after := mergeRest shouldInsert next.1.id rest next.2
      let made := mergeEdgeEntry nextGraphid shouldInsert prevVertexId next.1.id edge after.2
      (made.1 :: next.1 :: after.1, made.2)
  | _, entries, inserting => (entries, inserting)

/-- `process_path` -/
def processPath (shouldInsert : Bool) (path : List (PathEntry Image)) (evaluated : Nat) :
    List (PathEntry Image) × Inserting Image :=
  match path with
  | [] => ([], ⟨evaluated, []⟩)
  | first :: rest =>
      let vertex := mergeVertexEntry nextGraphid shouldInsert first ⟨evaluated, []⟩
      let after := mergeRest nextGraphid shouldInsert vertex.1.id rest vertex.2
      (vertex.1 :: after.1, after.2)

/-- What a row is bound to, with the ids, start ids and end ids, and what it has inserted -/
structure Outcome (Image : Type) where
  bound : List (PathEntry Image)
  inserted : List (EntityTuple Image)

/-- One row of `exec_cypher_merge`.  The array of a created path is shared, so the cache has it with
what `process_path` fills in. -/
def mergeRow (path : TargetPath) (state : MergeState Image) (row : MergeRow Image) :
    Except MergeError (Option (Outcome Image) × MergeState Image) :=
  if checkPath path row then
    (prebuildPath datumImageHash row path.nodes).map fun prebuilt =>
      let pathHash := hashPathEntries prebuilt
      match findDuplicatePath state prebuilt pathHash with
      | some found =>
          let processed := processPath nextGraphid false found.entry state.evaluated
          (some ⟨processed.1, processed.2.tuples⟩,
            { state with evaluated := processed.2.evaluated })
      | none =>
          let processed := processPath nextGraphid true prebuilt state.evaluated
          (some ⟨processed.1, processed.2.tuples⟩,
            { rememberCreatedPath state processed.1 pathHash with
              evaluated := processed.2.evaluated })
  else .ok (none, state)

/-- `exec_cypher_merge` with a previous clause -/
def execCypherMerge (path : TargetPath) :
    List (MergeRow Image) → MergeState Image →
      Except MergeError (List (Option (Outcome Image)) × MergeState Image)
  | [], state => .ok ([], state)
  | row :: rest, state =>
      (mergeRow datumImageHash nextGraphid path state row).bind fun merged =>
        (execCypherMerge path rest merged.2).map fun outcomes =>
          (merged.1 :: outcomes.1, outcomes.2)

end Code

end Age.Executor.MergeClause
