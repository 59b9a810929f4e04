import Mathlib.Logic.Function.Basic
import Age.Graph.VersionCounter

/-!
# Cached graph contexts

Backends load a graph under a snapshot and keep what they loaded.
`is_ggctx_invalid` compares the version at the load with the version now.  The
version moves when a mutation is made; what snapshots see of it moves when the
transaction commits.
-/

namespace Age.Graph

abbrev Xid := Nat

abbrev Backend := Nat

section Heap

variable {Row : Type}

inductive Change (Row : Type) where
  | insert (row : Row)
  | delete (row : Row)

structure LogEntry (Row : Type) where
  xid : Xid
  cid : Nat
  graphOid : Oid
  change : Change Row

def Change.inserted : Change Row → Option Row
  | .insert row => some row
  | .delete _ => none

def Change.deleted : Change Row → Option Row
  | .insert _ => none
  | .delete row => some row

/-- The changes of a graph that a snapshot sees. -/
def seenChanges (log : List (LogEntry Row)) (graphOid : Oid) (sees : LogEntry Row → Bool) :
    List (Change Row) :=
  (log.filter fun entry => entry.graphOid == graphOid && sees entry).map LogEntry.change

/-- `load_GRAPH_global_hashtables` -/
def loadGraph [DecidableEq Row] (log : List (LogEntry Row)) (graphOid : Oid)
    (sees : LogEntry Row → Bool) : List Row :=
  let changes := seenChanges log graphOid sees
  (changes.filterMap Change.inserted).filter fun row =>
    !(changes.filterMap Change.deleted).contains row

theorem loadGraph_congr [DecidableEq Row] {log : List (LogEntry Row)} {graphOid : Oid}
    {sees other : LogEntry Row → Bool}
    (same : ∀ entry ∈ log, entry.graphOid = graphOid → sees entry = other entry) :
    loadGraph log graphOid sees = loadGraph log graphOid other := by
  have seen : seenChanges log graphOid sees = seenChanges log graphOid other := by
    refine congrArg (List.map LogEntry.change) (List.filter_congr fun entry member => ?_)
    by_cases mine : entry.graphOid = graphOid
    · rw [same entry member mine]
    · rw [beq_eq_false_iff_ne.mpr mine, Bool.false_and, Bool.false_and]
  rw [loadGraph, loadGraph, seen]

/-- Changes of other graphs do not matter. -/
theorem loadGraph_append [DecidableEq Row] {log more : List (LogEntry Row)} {graphOid : Oid}
    (sees : LogEntry Row → Bool) (others : ∀ entry ∈ more, entry.graphOid ≠ graphOid) :
    loadGraph (log ++ more) graphOid sees = loadGraph log graphOid sees := by
  have none : more.filter (fun entry => entry.graphOid == graphOid && sees entry) = [] := by
    rw [List.filter_eq_nil_iff]
    intro entry member
    simp [others entry member]
  have seen : seenChanges (log ++ more) graphOid sees = seenChanges log graphOid sees := by
    rw [seenChanges, List.filter_append, none, List.append_nil]
    rfl
  rw [loadGraph, loadGraph, seen]

end Heap

section Backends

structure Snapshot where
  xmin : Xid
  xmax : Xid
  /-- the command that its transaction was at -/
  curcid : Nat
  /-- the transactions whose changes it sees -/
  seen : List Xid

/-- A transaction gets its id when it first writes.  Open portals keep their snapshots. -/
structure Transaction where
  xid : Option Xid
  snapshot : Option Snapshot
  portals : List Snapshot
  curcid : Nat

def Transaction.snapshots (transaction : Transaction) : List Snapshot :=
  transaction.snapshot.toList ++ transaction.portals

/-- What a transaction sees: the transactions of its snapshot, and of its own changes those
of earlier commands. -/
def Snapshot.sees {Row : Type} (snapshot : Snapshot) (transaction : Transaction)
    (entry : LogEntry Row) : Bool :=
  snapshot.seen.contains entry.xid ||
    transaction.xid == some entry.xid && entry.cid < snapshot.curcid

variable (Row : Type)

/-- `GRAPH_global_context` -/
structure Context where
  graphOid : Oid
  graphVersion : Nat
  xmin : Xid
  xmax : Xid
  curcid : Nat
  rows : List Row

structure BackendState where
  transaction : Option Transaction
  contexts : List (Context Row)

structure Cluster where
  nextXid : Xid
  latestCompletedXid : Xid
  committed : List Xid
  running : List Xid
  log : List (LogEntry Row)
  versions : GraphVersionState
  /-- graphs dropped by running transactions, under an exclusive lock -/
  dropping : List (Oid × Xid)
  dropped : List Oid
  backends : Backend → BackendState Row

/-- A cluster where each change so far was made by the transaction `0`. -/
def Cluster.start (rows : List (Oid × Row)) : Cluster Row where
  nextXid := 1
  latestCompletedXid := 0
  committed := [0]
  running := []
  log := rows.map fun row => ⟨0, 0, row.1, .insert row.2⟩
  versions := []
  dropping := []
  dropped := []
  backends _ := ⟨none, []⟩

inductive ClusterEvent where
  | begin (backend : Backend)
  | takeSnapshot (backend : Backend)
  /-- a later command under the snapshot of an earlier one, as in repeatable read -/
  | keepSnapshot (backend : Backend)
  | openPortal (backend : Backend)
  | fetchPortal (backend : Backend) (place : Nat)
  | mutate (backend : Backend) (graphOid : Oid) (changes : List (Change Row))
  | query (backend : Backend) (graphOid : Oid)
  | dropGraph (backend : Backend) (graphOid : Oid)
  | commit (backend : Backend)
  | abort (backend : Backend)

end Backends

section Contexts

variable {Row : Type}

/-- `is_ggctx_invalid` in shared-version mode -/
def isGgctxInvalid (versions : GraphVersionState) (snapshot : Snapshot)
    (context : Context Row) : Bool :=
  if 0 < getGraphVersion versions context.graphOid then
    context.graphVersion != getGraphVersion versions context.graphOid
  else
    context.xmin != snapshot.xmin || context.xmax != snapshot.xmax ||
      context.curcid != snapshot.curcid

/-- The contexts that `manage_GRAPH_global_contexts` does not free. -/
def validContexts (versions : GraphVersionState) (snapshot : Snapshot)
    (contexts : List (Context Row)) : List (Context Row) :=
  contexts.filter fun context => !isGgctxInvalid versions snapshot context

def findContext (versions : GraphVersionState) (snapshot : Snapshot)
    (contexts : List (Context Row)) (graphOid : Oid) : Option (Context Row) :=
  (validContexts versions snapshot contexts).find? fun context =>
    context.graphOid == graphOid

end Contexts

namespace Cluster

variable {Row : Type} [DecidableEq Row] (ageMaxGraphs : Nat) (cluster : Cluster Row)

def available (graphOid : Oid) : Prop :=
  graphOid ≠ 0 ∧ graphOid ∉ cluster.dropped ∧ graphOid ∉ cluster.dropping.map Prod.fst

instance (graphOid : Oid) : Decidable (cluster.available graphOid) :=
  inferInstanceAs (Decidable (_ ∧ _ ∧ _))

def setBackend (backend : Backend) (state : BackendState Row) : Cluster Row :=
  { cluster with backends := Function.update cluster.backends backend state }

omit [DecidableEq Row] in
theorem setBackend_self (backend : Backend) (state : BackendState Row) :
    (cluster.setBackend backend state).backends backend = state :=
  Function.update_self ..

omit [DecidableEq Row] in
theorem setBackend_of_ne {backend other : Backend} (differ : other ≠ backend)
    (state : BackendState Row) :
    (cluster.setBackend backend state).backends other = cluster.backends other :=
  Function.update_of_ne differ ..

/-- `GetSnapshotData` -/
def snapshotData (curcid : Nat) : Snapshot where
  xmin := cluster.running.foldl min (cluster.latestCompletedXid + 1)
  xmax := cluster.latestCompletedXid + 1
  curcid
  seen := cluster.committed

/-- The transaction of a backend with an id. -/
def assignXid (transaction : Transaction) : Cluster Row × Xid :=
  match transaction.xid with
  | some xid => (cluster, xid)
  | none =>
      ({ cluster with
          nextXid := cluster.nextXid + 1
          running := cluster.nextXid :: cluster.running }, cluster.nextXid)

def endTransaction (backend : Backend) (transaction : Transaction) : Cluster Row :=
  let cluster := match transaction.xid with
    | some xid =>
        { cluster with
          latestCompletedXid := max cluster.latestCompletedXid xid
          running := cluster.running.filter (· != xid)
          dropping := cluster.dropping.filter fun drop => drop.2 != xid }
    | none => cluster
  cluster.setBackend backend ⟨none, (cluster.backends backend).contexts⟩

/-- The context of a query: one that is kept and valid, or a new one. -/
def queryContext (transaction : Transaction) (snapshot : Snapshot)
    (contexts : List (Context Row)) (graphOid : Oid) : Context Row :=
  match findContext cluster.versions snapshot contexts graphOid with
  | some context => context
  | none =>
      { graphOid
        graphVersion := getGraphVersion cluster.versions graphOid
        xmin := snapshot.xmin
        xmax := snapshot.xmax
        curcid := snapshot.curcid
        rows := loadGraph cluster.log graphOid (snapshot.sees transaction) }

def step : ClusterEvent Row → Option (Cluster Row)
  | .begin backend =>
      match (cluster.backends backend).transaction with
      | some _ => none
      | none =>
          some (cluster.setBackend backend
            ⟨some ⟨none, none, [], 0⟩, (cluster.backends backend).contexts⟩)
  | .takeSnapshot backend => do
      let transaction ← (cluster.backends backend).transaction
      return cluster.setBackend backend
        ⟨some { transaction with snapshot := some (cluster.snapshotData transaction.curcid) },
          (cluster.backends backend).contexts⟩
  | .keepSnapshot backend => do
      let transaction ← (cluster.backends backend).transaction
      let snapshot ← transaction.snapshot
      return cluster.setBackend backend
        ⟨some { transaction with snapshot := some { snapshot with curcid := transaction.curcid } },
          (cluster.backends backend).contexts⟩
  | .openPortal backend => do
      let transaction ← (cluster.backends backend).transaction
      let snapshot ← transaction.snapshot
      return cluster.setBackend backend
        ⟨some { transaction with portals := snapshot :: transaction.portals },
          (cluster.backends backend).contexts⟩
  | .fetchPortal backend place => do
      let transaction ← (cluster.backends backend).transaction
      let snapshot ← transaction.portals[place]?
      return cluster.setBackend backend
        ⟨some { transaction with snapshot := some snapshot }, (cluster.backends backend).contexts⟩
  | .mutate backend graphOid changes => do
      let transaction ← (cluster.backends backend).transaction
      if cluster.available graphOid then
        let (assigned, xid) := cluster.assignXid transaction
        let changed : Cluster Row := { assigned with
          log := assigned.log ++ changes.map fun change =>
            ⟨xid, transaction.curcid, graphOid, change⟩
          versions := incrementGraphVersion ageMaxGraphs assigned.versions graphOid }
        return changed.setBackend backend
          ⟨some ⟨some xid, transaction.snapshot, transaction.portals, transaction.curcid + 1⟩,
            (cluster.backends backend).contexts⟩
      else none
  | .query backend graphOid => do
      let transaction ← (cluster.backends backend).transaction
      let snapshot ← transaction.snapshot
      if cluster.available graphOid then
        let contexts := (cluster.backends backend).contexts
        let kept := validContexts cluster.versions snapshot contexts
        match findContext cluster.versions snapshot contexts graphOid with
        | some _ => return cluster.setBackend backend ⟨some transaction, kept⟩
        | none =>
            return cluster.setBackend backend ⟨some transaction,
              cluster.queryContext transaction snapshot contexts graphOid :: kept⟩
      else none
  | .dropGraph backend graphOid => do
      let transaction ← (cluster.backends backend).transaction
      -- the lock waits for the other writers of the graph
      if cluster.available graphOid ∧ ∀ entry ∈ cluster.log, entry.graphOid = graphOid →
          entry.xid ∈ cluster.running → transaction.xid = some entry.xid then
        let (assigned, xid) := cluster.assignXid transaction
        let removed : Cluster Row := { assigned with
          versions := removeGraphVersion assigned.versions graphOid
          dropping := (graphOid, xid) :: assigned.dropping }
        return removed.setBackend backend
          ⟨some ⟨some xid, transaction.snapshot, transaction.portals, transaction.curcid + 1⟩,
            (cluster.backends backend).contexts⟩
      else none
  | .commit backend => do
      let transaction ← (cluster.backends backend).transaction
      let ended := cluster.endTransaction backend transaction
      match transaction.xid with
      | some xid =>
          return { ended with
            committed := xid :: cluster.committed
            dropped := ((cluster.dropping.filter fun drop => drop.2 == xid).map Prod.fst) ++
              cluster.dropped }
      | none => return ended
  | .abort backend => do
      let transaction ← (cluster.backends backend).transaction
      return cluster.endTransaction backend transaction

def run (events : List (ClusterEvent Row)) : Option (Cluster Row) :=
  events.foldlM (step ageMaxGraphs) cluster

/-- What a query sees, and what a fresh load under its snapshot would give. -/
def queryRows (backend : Backend) (graphOid : Oid) : Option (List Row × List Row) := do
  let transaction ← (cluster.backends backend).transaction
  let snapshot ← transaction.snapshot
  if cluster.available graphOid then
    return ((cluster.queryContext transaction snapshot (cluster.backends backend).contexts
      graphOid).rows, loadGraph cluster.log graphOid (snapshot.sees transaction))
  else none

end Cluster

section Condition

variable {Row : Type} [DecidableEq Row] (ageMaxGraphs : Nat) (cluster : Cluster Row)

/-- A backend holds a context of a graph with the version of now. -/
def Cluster.HoldsCurrent (backend : Backend) (graphOid : Oid) : Prop :=
  ∃ context ∈ (cluster.backends backend).contexts, context.graphOid = graphOid ∧
    context.graphVersion = getGraphVersion cluster.versions graphOid

/-- The transaction of a backend made changes to a graph. -/
def Cluster.Changed (backend : Backend) (graphOid : Oid) : Prop :=
  ∃ transaction xid, (cluster.backends backend).transaction = some transaction ∧
    transaction.xid = some xid ∧ ∃ entry ∈ cluster.log, entry.xid = xid ∧
      entry.graphOid = graphOid

/-- A snapshot sees all committed changes of a graph and all changes of its own transaction. -/
def Cluster.UpToDate (transaction : Transaction) (snapshot : Snapshot) (graphOid : Oid) : Prop :=
  ∀ entry ∈ cluster.log, entry.graphOid = graphOid →
    (entry.xid ∈ cluster.committed → entry.xid ∈ snapshot.seen) ∧
      (transaction.xid = some entry.xid → entry.cid < snapshot.curcid)

instance (transaction : Transaction) (snapshot : Snapshot) (graphOid : Oid) :
    Decidable (cluster.UpToDate transaction snapshot graphOid) :=
  inferInstanceAs (Decidable (∀ entry ∈ cluster.log, _))

/-- The steps after which cached contexts can still be trusted. -/
def Cluster.Meets : ClusterEvent Row → Prop
  | .begin _ | .takeSnapshot _ | .keepSnapshot _ | .openPortal _ | .dropGraph _ _ => True
  | .fetchPortal backend place =>
      ∀ transaction snapshot, (cluster.backends backend).transaction = some transaction →
        transaction.portals[place]? = some snapshot →
        ∀ graphOid, cluster.available graphOid → cluster.HoldsCurrent backend graphOid →
          cluster.UpToDate transaction snapshot graphOid
  | .mutate _ graphOid _ => hasRoom ageMaxGraphs cluster.versions graphOid = true
  | .query backend graphOid =>
      ∀ transaction snapshot, (cluster.backends backend).transaction = some transaction →
        transaction.snapshot = some snapshot →
        findContext cluster.versions snapshot (cluster.backends backend).contexts graphOid = none →
        cluster.UpToDate transaction snapshot graphOid
  | .commit backend =>
      ∀ graphOid, cluster.available graphOid → cluster.Changed backend graphOid →
        ∀ other, other ≠ backend → ¬ cluster.HoldsCurrent other graphOid
  | .abort backend =>
      (∀ graphOid, cluster.available graphOid → cluster.Changed backend graphOid →
        ¬ cluster.HoldsCurrent backend graphOid) ∧
      ∀ transaction xid graphOid, (cluster.backends backend).transaction = some transaction →
        transaction.xid = some xid → (graphOid, xid) ∈ cluster.dropping →
        ∀ other, ∀ context ∈ (cluster.backends other).contexts, context.graphOid ≠ graphOid

def Cluster.MeetsAll : Cluster Row → List (ClusterEvent Row) → Prop
  | _, [] => True
  | cluster, event :: rest =>
      cluster.Meets ageMaxGraphs event ∧
        ∀ next, cluster.step ageMaxGraphs event = some next → next.MeetsAll rest

end Condition

section Invariant

variable {Row : Type} [DecidableEq Row] {ageMaxGraphs : Nat} {cluster : Cluster Row}

/-- The running transaction of a backend. -/
def Cluster.owner (cluster : Cluster Row) (backend : Backend) : Option Xid :=
  (cluster.backends backend).transaction.bind Transaction.xid

omit [DecidableEq Row] in
theorem Cluster.owner_of_running {cluster : Cluster Row} {backend : Backend}
    {transaction : Transaction}
    (running : (cluster.backends backend).transaction = some transaction) :
    cluster.owner backend = transaction.xid := by
  rw [owner, running]
  rfl

/-- What the next snapshot of a backend sees. -/
def Cluster.seesNow (cluster : Cluster Row) (backend : Backend) (entry : LogEntry Row) : Bool :=
  cluster.committed.contains entry.xid || cluster.owner backend == some entry.xid

/-- A context of a backend that passes for the current one is the current one. -/
structure Cluster.Current (cluster : Cluster Row) (backend : Backend) (context : Context Row) :
    Prop where
  rows : context.rows = loadGraph cluster.log context.graphOid (cluster.seesNow backend)
  snapshot : ∀ transaction snapshot, (cluster.backends backend).transaction = some transaction →
    transaction.snapshot = some snapshot →
      cluster.UpToDate transaction snapshot context.graphOid

structure Cluster.Inv (cluster : Cluster Row) : Prop where
  unique : UniqueEntries cluster.versions
  logged : ∀ entry ∈ cluster.log, entry.xid < cluster.nextXid
  ended : ∀ xid ∈ cluster.committed, xid < cluster.nextXid
  started : ∀ xid ∈ cluster.running, xid < cluster.nextXid
  owned : ∀ backend xid, cluster.owner backend = some xid →
    xid ∈ cluster.running ∧ xid ∉ cluster.committed
  distinct : ∀ backend other xid, cluster.owner backend = some xid →
    cluster.owner other = some xid → backend = other
  /-- The changes of a transaction were made by its earlier commands. -/
  stamped : ∀ backend transaction, (cluster.backends backend).transaction = some transaction →
    ∀ entry ∈ cluster.log, transaction.xid = some entry.xid → entry.cid < transaction.curcid
  seen : ∀ backend transaction, (cluster.backends backend).transaction = some transaction →
    ∀ snapshot ∈ transaction.snapshots, ∀ xid ∈ snapshot.seen, xid ∈ cluster.committed
  locked : ∀ drop ∈ cluster.dropping, ∀ entry ∈ cluster.log, entry.graphOid = drop.1 →
    entry.xid ∈ cluster.running → entry.xid = drop.2
  /-- A graph without a version has no change of a running transaction. -/
  quiet : ∀ graphOid, cluster.available graphOid →
    getGraphVersion cluster.versions graphOid = 0 →
      ∀ entry ∈ cluster.log, entry.graphOid = graphOid → entry.xid ∉ cluster.running
  versions : ∀ graphOid, cluster.available graphOid → ∀ backend,
    ∀ context ∈ (cluster.backends backend).contexts, context.graphOid = graphOid →
      context.graphVersion ≤ getGraphVersion cluster.versions graphOid ∧
      (context.graphVersion = getGraphVersion cluster.versions graphOid →
        cluster.Current backend context)

/-- A context that `is_ggctx_invalid` lets pass has the version of now. -/
theorem Cluster.Inv.version_of_valid (inv : cluster.Inv) {backend : Backend} {snapshot : Snapshot}
    {context : Context Row}
    (member : context ∈ (cluster.backends backend).contexts)
    (available : cluster.available context.graphOid)
    (valid : isGgctxInvalid cluster.versions snapshot context = false) :
    cluster.Current backend context := by
  obtain ⟨bound, current⟩ := inv.versions _ available backend context member rfl
  refine current ?_
  rw [isGgctxInvalid] at valid
  split_ifs at valid with tracked
  · exact of_not_not (bne_iff_ne.not.mp (Bool.eq_false_iff.mp valid))
  · omega

/-- A snapshot that is up to date sees what a snapshot of now would. -/
theorem Cluster.Inv.sees_of_upToDate (inv : cluster.Inv) {backend : Backend}
    {transaction : Transaction} {snapshot : Snapshot} {graphOid : Oid}
    (running : (cluster.backends backend).transaction = some transaction)
    (isSnapshot : transaction.snapshot = some snapshot)
    (upToDate : cluster.UpToDate transaction snapshot graphOid) {entry : LogEntry Row}
    (logged : entry ∈ cluster.log) (mine : entry.graphOid = graphOid) :
    snapshot.sees transaction entry =
      (cluster.committed.contains entry.xid || transaction.xid == some entry.xid) := by
  obtain ⟨committed, own⟩ := upToDate entry logged mine
  have active : snapshot ∈ transaction.snapshots := by simp [Transaction.snapshots, isSnapshot]
  rw [Snapshot.sees, Bool.eq_iff_iff]
  simp only [Bool.or_eq_true, Bool.and_eq_true, List.contains_iff_mem, beq_iff_eq,
    decide_eq_true_eq]
  exact or_congr ⟨inv.seen backend transaction running snapshot active entry.xid, committed⟩
    (and_iff_left_of_imp own)

/-- A query that finds a context sees what a fresh load would give. -/
theorem Cluster.Inv.queryRows (inv : cluster.Inv) {backend : Backend} {graphOid : Oid}
    {used fresh : List Row} (query : cluster.queryRows backend graphOid = some (used, fresh)) :
    used = fresh := by
  rw [Cluster.queryRows] at query
  cases isTransaction : (cluster.backends backend).transaction with
  | none => simp [isTransaction] at query
  | some transaction =>
      cases isSnapshot : transaction.snapshot with
      | none => simp [isTransaction, isSnapshot] at query
      | some snapshot =>
          simp only [isTransaction, isSnapshot, Option.bind_eq_bind, Option.bind_some] at query
          split_ifs at query with available
          simp only [Option.pure_def, Option.some.injEq, Prod.mk.injEq] at query
          obtain ⟨rfl, rfl⟩ := query
          rw [queryContext]
          cases found : findContext cluster.versions snapshot (cluster.backends backend).contexts
              graphOid with
          | none => rfl
          | some context =>
              obtain ⟨member, valid⟩ := List.mem_filter.mp (List.mem_of_find?_eq_some found)
              have isGraph := eq_of_beq
                (List.find?_some (p := fun kept : Context Row => kept.graphOid == graphOid) found)
              subst isGraph
              obtain ⟨rows, sees⟩ := inv.version_of_valid member available
                (Bool.not_eq_true' _ ▸ valid)
              dsimp only
              rw [rows]
              refine loadGraph_congr fun entry logged mine => ?_
              have upToDate := sees transaction snapshot isTransaction isSnapshot
              rw [inv.sees_of_upToDate isTransaction isSnapshot upToDate logged mine, seesNow,
                owner, isTransaction]
              rfl

section Steps

/-- What a backend sees with another transaction. -/
def Cluster.seesWith (cluster : Cluster Row) (transaction : Option Transaction)
    (entry : LogEntry Row) : Bool :=
  cluster.committed.contains entry.xid || transaction.bind Transaction.xid == some entry.xid

/-- A backend may get a transaction and contexts that fit the rest of the cluster. -/
theorem Cluster.Inv.setBackend (inv : cluster.Inv) {backend : Backend}
    {transaction : Option Transaction} {contexts : List (Context Row)}
    (owned : ∀ xid, transaction.bind Transaction.xid = some xid →
      xid ∈ cluster.running ∧ xid ∉ cluster.committed ∧
        ∀ other, other ≠ backend → cluster.owner other ≠ some xid)
    (stamped : ∀ now, transaction = some now → ∀ entry ∈ cluster.log,
      now.xid = some entry.xid → entry.cid < now.curcid)
    (seen : ∀ now, transaction = some now → ∀ snapshot ∈ now.snapshots,
      ∀ xid ∈ snapshot.seen, xid ∈ cluster.committed)
    (current : ∀ graphOid, cluster.available graphOid → ∀ context ∈ contexts,
      context.graphOid = graphOid →
        context.graphVersion ≤ getGraphVersion cluster.versions graphOid ∧
        (context.graphVersion = getGraphVersion cluster.versions graphOid →
          context.rows = loadGraph cluster.log graphOid (cluster.seesWith transaction) ∧
          ∀ now snapshot, transaction = some now → now.snapshot = some snapshot →
            cluster.UpToDate now snapshot graphOid)) :
    (cluster.setBackend backend ⟨transaction, contexts⟩).Inv := by
  have mine : (cluster.setBackend backend ⟨transaction, contexts⟩).owner backend =
      transaction.bind Transaction.xid := by
    rw [owner, setBackend_self]
  have others {other : Backend} (differ : other ≠ backend) :
      (cluster.setBackend backend ⟨transaction, contexts⟩).owner other = cluster.owner other := by
    rw [owner, setBackend_of_ne cluster differ]
    rfl
  refine { unique := inv.unique, logged := inv.logged, ended := inv.ended,
           started := inv.started, locked := inv.locked, quiet := inv.quiet,
           owned := ?_, distinct := ?_, stamped := ?_, seen := ?_, versions := ?_ }
  · intro other xid isOwner
    by_cases same : other = backend
    · subst same
      exact ⟨(owned xid (mine ▸ isOwner)).1, (owned xid (mine ▸ isOwner)).2.1⟩
    · exact inv.owned other xid (others same ▸ isOwner)
  · intro first second xid isFirst isSecond
    by_cases firstIs : first = backend <;> by_cases secondIs : second = backend
    · rw [firstIs, secondIs]
    · subst firstIs
      exact absurd (others secondIs ▸ isSecond) ((owned xid (mine ▸ isFirst)).2.2 second secondIs)
    · subst secondIs
      exact absurd (others firstIs ▸ isFirst) ((owned xid (mine ▸ isSecond)).2.2 first firstIs)
    · exact inv.distinct first second xid (others firstIs ▸ isFirst) (others secondIs ▸ isSecond)
  · intro other now isNow
    by_cases same : other = backend
    · subst same
      rw [setBackend_self] at isNow
      exact stamped now isNow
    · rw [setBackend_of_ne cluster same] at isNow
      exact inv.stamped other now isNow
  · intro other now isNow
    by_cases same : other = backend
    · subst same
      rw [setBackend_self] at isNow
      exact seen now isNow
    · rw [setBackend_of_ne cluster same] at isNow
      exact inv.seen other now isNow
  · intro graphOid available other context member isGraph
    by_cases same : other = backend
    · subst same
      rw [setBackend_self] at member
      obtain ⟨bound, fits⟩ := current graphOid available context member isGraph
      refine ⟨bound, fun version => ?_⟩
      obtain ⟨rows, sees⟩ := fits version
      subst isGraph
      refine ⟨?_, fun now snapshot isNow => ?_⟩
      · rw [rows]
        refine loadGraph_congr fun entry _ _ => ?_
        rw [seesNow, mine]
        rfl
      · rw [setBackend_self] at isNow
        exact sees now snapshot isNow
    · rw [setBackend_of_ne cluster same] at member
      obtain ⟨bound, fits⟩ := inv.versions graphOid available other context member isGraph
      refine ⟨bound, fun version => ?_⟩
      obtain ⟨rows, sees⟩ := fits version
      refine ⟨?_, fun now snapshot isNow => ?_⟩
      · rw [rows]
        refine loadGraph_congr fun entry _ _ => ?_
        rw [seesNow, seesNow, others same]
        rfl
      · rw [setBackend_of_ne cluster same] at isNow
        exact sees now snapshot isNow

/-- Where a backend holds a current context, its snapshot is up to date. -/
theorem Cluster.Inv.upToDate_of_holds (inv : cluster.Inv) {backend : Backend}
    {transaction : Transaction} {snapshot : Snapshot}
    (running : (cluster.backends backend).transaction = some transaction)
    (isSnapshot : transaction.snapshot = some snapshot) {graphOid : Oid}
    (available : cluster.available graphOid) (holds : cluster.HoldsCurrent backend graphOid) :
    cluster.UpToDate transaction snapshot graphOid := by
  obtain ⟨context, member, rfl, version⟩ := holds
  obtain ⟨-, current⟩ := inv.versions _ available backend context member rfl
  exact (current version).snapshot transaction snapshot running isSnapshot

/-- The facts about the contexts that a backend holds, for `Inv.setBackend`. -/
theorem Cluster.Inv.contextsOf (inv : cluster.Inv) {backend : Backend}
    {transaction : Option Transaction}
    (sees : ∀ entry ∈ cluster.log, cluster.seesWith transaction entry =
      cluster.seesNow backend entry)
    (snapshots : ∀ now snapshot, transaction = some now → now.snapshot = some snapshot →
      ∀ graphOid, cluster.available graphOid → cluster.HoldsCurrent backend graphOid →
        cluster.UpToDate now snapshot graphOid) :
    ∀ graphOid, cluster.available graphOid → ∀ context ∈ (cluster.backends backend).contexts,
      context.graphOid = graphOid →
        context.graphVersion ≤ getGraphVersion cluster.versions graphOid ∧
        (context.graphVersion = getGraphVersion cluster.versions graphOid →
          context.rows = loadGraph cluster.log graphOid (cluster.seesWith transaction) ∧
          ∀ now snapshot, transaction = some now → now.snapshot = some snapshot →
            cluster.UpToDate now snapshot graphOid) := by
  intro graphOid available context member isGraph
  obtain ⟨bound, current⟩ := inv.versions graphOid available backend context member isGraph
  refine ⟨bound, fun version => ⟨?_, fun now snapshot isNow isSnapshot =>
    snapshots now snapshot isNow isSnapshot graphOid available ⟨context, member, isGraph, version⟩⟩⟩
  rw [(current version).rows, isGraph]
  exact loadGraph_congr fun entry logged _ => (sees entry logged).symm

/-- A backend may get another record of its transaction. -/
theorem Cluster.Inv.setTransaction (inv : cluster.Inv) {backend : Backend}
    {transaction : Option Transaction}
    (sameOwner : transaction.bind Transaction.xid = cluster.owner backend)
    (stamped : ∀ now, transaction = some now → ∀ entry ∈ cluster.log,
      now.xid = some entry.xid → entry.cid < now.curcid)
    (seen : ∀ now, transaction = some now → ∀ snapshot ∈ now.snapshots,
      ∀ xid ∈ snapshot.seen, xid ∈ cluster.committed)
    (snapshots : ∀ now snapshot, transaction = some now → now.snapshot = some snapshot →
      ∀ graphOid, cluster.available graphOid → cluster.HoldsCurrent backend graphOid →
        cluster.UpToDate now snapshot graphOid) :
    (cluster.setBackend backend ⟨transaction, (cluster.backends backend).contexts⟩).Inv := by
  refine inv.setBackend (fun xid isOwner => ?_) stamped seen
    (inv.contextsOf (fun entry _ => by rw [seesWith, sameOwner]; rfl) snapshots)
  rw [sameOwner] at isOwner
  obtain ⟨running, notCommitted⟩ := inv.owned backend xid isOwner
  exact ⟨running, notCommitted, fun other differ isOther =>
    differ (inv.distinct other backend xid isOther isOwner)⟩

/-- A transaction may get another snapshot that is up to date. -/
theorem Cluster.Inv.setSnapshot (inv : cluster.Inv) {backend : Backend} {transaction : Transaction}
    (running : (cluster.backends backend).transaction = some transaction) {snapshot : Snapshot}
    {portals : List Snapshot} (seen : ∀ other ∈ snapshot :: portals, ∀ xid ∈ other.seen,
      xid ∈ cluster.committed)
    (upToDate : ∀ graphOid, cluster.available graphOid → cluster.HoldsCurrent backend graphOid →
      cluster.UpToDate transaction snapshot graphOid) :
    (cluster.setBackend backend
      ⟨some ⟨transaction.xid, some snapshot, portals, transaction.curcid⟩,
        (cluster.backends backend).contexts⟩).Inv := by
  refine inv.setTransaction (owner_of_running running).symm (fun now isNow => ?_)
    (fun now isNow other isTaken => ?_) fun now taken isNow isTaken graphOid available holds => ?_
  · cases isNow
    exact inv.stamped backend transaction running
  · cases isNow
    exact seen other isTaken
  · cases isNow
    cases isTaken
    exact upToDate graphOid available holds

/-- A new transaction id is running. -/
theorem Cluster.Inv.newXid (inv : cluster.Inv) :
    ({ cluster with
        nextXid := cluster.nextXid + 1
        running := cluster.nextXid :: cluster.running } : Cluster Row).Inv := by
  have old {entry : LogEntry Row} (logged : entry ∈ cluster.log)
      (running : entry.xid ∈ cluster.nextXid :: cluster.running) : entry.xid ∈ cluster.running := by
    rcases List.mem_cons.mp running with isNew | old
    · exact absurd isNew (Nat.ne_of_lt (inv.logged entry logged))
    · exact old
  refine { unique := inv.unique, distinct := inv.distinct, stamped := inv.stamped,
           seen := inv.seen,
           logged := fun entry logged => Nat.lt_succ_of_lt (inv.logged entry logged),
           ended := fun xid committed => Nat.lt_succ_of_lt (inv.ended xid committed),
           started := ?_, owned := ?_, locked := ?_, quiet := ?_, versions := ?_ }
  · intro xid running
    rcases List.mem_cons.mp running with rfl | before
    · exact Nat.lt_succ_self _
    · exact Nat.lt_succ_of_lt (inv.started xid before)
  · intro backend xid isOwner
    obtain ⟨running, notCommitted⟩ := inv.owned backend xid isOwner
    exact ⟨List.mem_cons_of_mem _ running, notCommitted⟩
  · intro drop isDrop entry logged mine running
    exact inv.locked drop isDrop entry logged mine (old logged running)
  · intro graphOid available untracked entry logged mine running
    exact inv.quiet graphOid available untracked entry logged mine (old logged running)
  · intro graphOid available backend context member isGraph
    obtain ⟨bound, current⟩ := inv.versions graphOid available backend context member isGraph
    exact ⟨bound, fun version => ⟨(current version).rows, (current version).snapshot⟩⟩

theorem Cluster.Inv.assignXid (inv : cluster.Inv) {backend : Backend} {transaction : Transaction}
    (running : (cluster.backends backend).transaction = some transaction) :
    (((cluster.assignXid transaction).1).setBackend backend
      ⟨some ⟨some (cluster.assignXid transaction).2, transaction.snapshot, transaction.portals,
          transaction.curcid + 1⟩, (cluster.backends backend).contexts⟩).Inv := by
  cases hasXid : transaction.xid with
  | some xid =>
      rw [Cluster.assignXid, hasXid]
      refine inv.setTransaction (hasXid.symm.trans (owner_of_running running).symm)
        (fun now isNow entry logged own => ?_) (fun now isNow => ?_)
        fun now snapshot isNow isSnapshot graphOid available holds => ?_
      · cases isNow
        exact Nat.lt_succ_of_lt
          (inv.stamped backend transaction running entry logged (hasXid.trans own))
      · cases isNow
        exact inv.seen backend transaction running
      · cases isNow
        have upToDate := inv.upToDate_of_holds running isSnapshot available holds
        rw [UpToDate, hasXid] at upToDate
        exact upToDate
  | none =>
      rw [Cluster.assignXid, hasXid]
      have next := inv.newXid
      have noOwner := (owner_of_running running).trans hasXid
      have unused {entry : LogEntry Row} (logged : entry ∈ cluster.log) :
          some cluster.nextXid ≠ some entry.xid := fun same =>
        Nat.ne_of_gt (inv.logged entry logged) (Option.some.inj same)
      refine next.setBackend (fun xid isNew => ?_) (fun now isNow entry logged own => ?_)
        (fun now isNow => ?_) (next.contextsOf (fun entry logged => ?_)
          fun now snapshot isNow isSnapshot graphOid available holds entry logged mine => ?_)
      · cases isNew
        refine ⟨List.mem_cons_self, fun committed => ?_, fun other _ isOther => ?_⟩
        · exact Nat.lt_irrefl _ (inv.ended _ committed)
        · exact Nat.lt_irrefl _ (inv.started _ (inv.owned other _ isOther).1)
      · cases isNow
        exact absurd own (unused logged)
      · cases isNow
        exact inv.seen backend transaction running
      · have notOwner : (({ cluster with
            nextXid := cluster.nextXid + 1
            running := cluster.nextXid :: cluster.running } : Cluster Row).owner backend ==
              some entry.xid) = false := by
          change (cluster.owner backend == some entry.xid) = false
          rw [noOwner]
          rfl
        rw [seesWith, seesNow, notOwner]
        exact congrArg _ (beq_eq_false_iff_ne.mpr (unused logged))
      · cases isNow
        exact ⟨(inv.upToDate_of_holds running isSnapshot available holds entry logged mine).1,
          fun own => absurd own (unused logged)⟩

omit [DecidableEq Row] in
theorem Cluster.assignXid_fields (cluster : Cluster Row) (transaction : Transaction) :
    (cluster.assignXid transaction).1.log = cluster.log ∧
    (cluster.assignXid transaction).1.versions = cluster.versions ∧
    (cluster.assignXid transaction).1.dropped = cluster.dropped ∧
    (cluster.assignXid transaction).1.dropping = cluster.dropping ∧
    ∀ xid ∈ (cluster.assignXid transaction).1.running, xid ∈ cluster.running ∨
      xid = cluster.nextXid ∧ transaction.xid = none := by
  rw [assignXid]
  cases hasXid : transaction.xid with
  | some xid => exact ⟨rfl, rfl, rfl, rfl, fun other running => .inl running⟩
  | none =>
      refine ⟨rfl, rfl, rfl, rfl, fun other running => ?_⟩
      rcases List.mem_cons.mp running with isNew | old
      · exact .inr ⟨isNew, rfl⟩
      · exact .inl old

/-- The owner of an id changes an available graph. -/
theorem Cluster.Inv.change (inv : cluster.Inv) {graphOid : Oid} {xid : Xid} {cid : Nat}
    (running : xid ∈ cluster.running)
    (earlier : ∀ backend transaction, (cluster.backends backend).transaction = some transaction →
      transaction.xid = some xid → cid < transaction.curcid) (available : cluster.available graphOid)
    (room : hasRoom ageMaxGraphs cluster.versions graphOid = true) (changes : List (Change Row)) :
    ({ cluster with
        log := cluster.log ++ changes.map fun change => ⟨xid, cid, graphOid, change⟩
        versions := incrementGraphVersion ageMaxGraphs cluster.versions graphOid } :
          Cluster Row).Inv := by
  have added {entry : LogEntry Row}
      (new : entry ∈ changes.map fun change => (⟨xid, cid, graphOid, change⟩ : LogEntry Row)) :
      entry.xid = xid ∧ entry.graphOid = graphOid ∧ entry.cid = cid := by
    obtain ⟨change, -, rfl⟩ := List.mem_map.mp new
    exact ⟨rfl, rfl, rfl⟩
  have counted := getGraphVersion_increment room
  refine { unique := inv.unique.incrementGraphVersion, ended := inv.ended,
           started := inv.started, owned := inv.owned, distinct := inv.distinct,
           seen := inv.seen, logged := ?_, stamped := ?_, locked := ?_, quiet := ?_,
           versions := ?_ }
  · intro entry logged
    rcases List.mem_append.mp logged with old | new
    · exact inv.logged entry old
    · rw [(added new).1]
      exact inv.started xid running
  · intro backend transaction isNow entry logged own
    rcases List.mem_append.mp logged with old | new
    · exact inv.stamped backend transaction isNow entry old own
    · rw [(added new).1] at own
      rw [(added new).2.2]
      exact earlier backend transaction isNow own
  · intro drop isDrop entry logged mine stillRunning
    rcases List.mem_append.mp logged with old | new
    · exact inv.locked drop isDrop entry old mine stillRunning
    · rw [(added new).2.1] at mine
      exact absurd (List.mem_map.mpr ⟨drop, isDrop, mine.symm⟩) available.2.2
  · intro other otherAvailable untracked entry logged mine
    have differ : other ≠ graphOid := by
      rintro rfl
      rw [counted] at untracked
      exact Nat.succ_ne_zero _ untracked
    rw [getGraphVersion_increment_other differ otherAvailable.1] at untracked
    rcases List.mem_append.mp logged with old | new
    · exact inv.quiet other otherAvailable untracked entry old mine
    · exact absurd (mine.symm.trans (added new).2.1) differ
  · intro other otherAvailable backend context member isGraph
    obtain ⟨bound, current⟩ := inv.versions other otherAvailable backend context member isGraph
    by_cases same : other = graphOid
    · subst same
      rw [counted]
      exact ⟨Nat.le_succ_of_le bound, fun version => absurd version (by omega)⟩
    · rw [getGraphVersion_increment_other same otherAvailable.1]
      refine ⟨bound, fun version => ?_⟩
      obtain ⟨rows, sees⟩ := current version
      refine ⟨?_, fun now snapshot isNow isSnapshot entry logged mine => ?_⟩
      · rw [rows]
        refine (loadGraph_append _ fun entry new => ?_).symm
        rw [(added new).2.1, isGraph]
        exact Ne.symm same
      · rcases List.mem_append.mp logged with old | new
        · exact sees now snapshot isNow isSnapshot entry old mine
        · exact absurd ((isGraph.symm.trans mine.symm).trans (added new).2.1) same

/-- The owner of an id drops a graph that no other running transaction changed. -/
theorem Cluster.Inv.dropGraph (inv : cluster.Inv) {graphOid : Oid} {xid : Xid}
    (alone : ∀ entry ∈ cluster.log, entry.graphOid = graphOid → entry.xid ∈ cluster.running →
      entry.xid = xid) :
    ({ cluster with
        versions := removeGraphVersion cluster.versions graphOid
        dropping := (graphOid, xid) :: cluster.dropping } : Cluster Row).Inv := by
  have before {other : Oid} (available : Cluster.available { cluster with
        versions := removeGraphVersion cluster.versions graphOid
        dropping := (graphOid, xid) :: cluster.dropping } other) :
      cluster.available other ∧ other ≠ graphOid := by
    obtain ⟨nonzero, kept, unlocked⟩ := available
    rw [List.map_cons, List.mem_cons, not_or] at unlocked
    exact ⟨⟨nonzero, kept, unlocked.2⟩, unlocked.1⟩
  refine { unique := inv.unique.removeGraphVersion, ended := inv.ended, started := inv.started,
           owned := inv.owned, distinct := inv.distinct, stamped := inv.stamped,
           seen := inv.seen, logged := inv.logged,
           locked := ?_, quiet := ?_, versions := ?_ }
  · intro drop isDrop entry logged mine running
    rcases List.mem_cons.mp isDrop with rfl | old
    · exact alone entry logged mine running
    · exact inv.locked drop old entry logged mine running
  · intro other available untracked
    obtain ⟨wasAvailable, differ⟩ := before available
    rw [getGraphVersion_remove_other differ wasAvailable.1] at untracked
    exact inv.quiet other wasAvailable untracked
  · intro other available backend context member isGraph
    obtain ⟨wasAvailable, differ⟩ := before available
    rw [getGraphVersion_remove_other differ wasAvailable.1]
    obtain ⟨bound, current⟩ := inv.versions other wasAvailable backend context member isGraph
    exact ⟨bound, fun version => ⟨(current version).rows, (current version).snapshot⟩⟩

theorem Cluster.Inv.query (inv : cluster.Inv) {backend : Backend} {transaction : Transaction}
    {snapshot : Snapshot} (running : (cluster.backends backend).transaction = some transaction)
    (isSnapshot : transaction.snapshot = some snapshot) {graphOid : Oid}
    {contexts : List (Context Row)}
    (source : ∀ context ∈ contexts, context ∈ (cluster.backends backend).contexts ∨
      context = cluster.queryContext transaction snapshot (cluster.backends backend).contexts
        graphOid ∧
      findContext cluster.versions snapshot (cluster.backends backend).contexts graphOid = none)
    (upToDate :
      findContext cluster.versions snapshot (cluster.backends backend).contexts graphOid = none →
        cluster.UpToDate transaction snapshot graphOid) :
    (cluster.setBackend backend ⟨some transaction, contexts⟩).Inv := by
  have isOwner := (owner_of_running running).symm
  refine inv.setBackend (fun xid hasXid => ?_) (fun now isNow => ?_) (fun now isNow => ?_) ?_
  · have owns : cluster.owner backend = some xid := isOwner.symm.trans hasXid
    obtain ⟨isRunning, notCommitted⟩ := inv.owned backend xid owns
    exact ⟨isRunning, notCommitted, fun other differ isOther =>
      differ (inv.distinct other backend xid isOther owns)⟩
  · cases isNow
    exact inv.stamped backend transaction running
  · cases isNow
    exact inv.seen backend transaction running
  · intro other available context member isGraph
    rcases source context member with old | ⟨isNew, missing⟩
    · exact inv.contextsOf (fun entry _ => by rw [seesWith, Option.bind_some, isOwner]; rfl)
        (fun now taken isNow isTaken graphOid available holds => by
          cases isNow
          exact inv.upToDate_of_holds running isTaken available holds)
        other available context old isGraph
    · rw [queryContext, missing] at isNew
      subst isNew
      dsimp only at isGraph
      subst isGraph
      refine ⟨Nat.le_refl _, fun _ => ⟨?_, fun now taken isNow isTaken => ?_⟩⟩
      · exact loadGraph_congr fun entry logged mine =>
          inv.sees_of_upToDate running isSnapshot (upToDate missing) logged mine
      · cases isNow
        rw [isSnapshot] at isTaken
        cases isTaken
        exact upToDate missing

section End

/-- What the end of a transaction with an id does. -/
structure Cluster.Ends (cluster next : Cluster Row) (backend : Backend) (xid : Xid)
    (commits : Bool) : Prop where
  nextXid : next.nextXid = cluster.nextXid
  committed : ∀ other, other ∈ next.committed ↔
    other ∈ cluster.committed ∨ commits = true ∧ other = xid
  running : next.running = cluster.running.filter (· != xid)
  log : next.log = cluster.log
  versions : next.versions = cluster.versions
  dropping : next.dropping = cluster.dropping.filter fun drop => drop.2 != xid
  dropped : ∀ graphOid, graphOid ∈ next.dropped ↔
    graphOid ∈ cluster.dropped ∨ commits = true ∧ (graphOid, xid) ∈ cluster.dropping
  self : next.backends backend = ⟨none, (cluster.backends backend).contexts⟩
  others : ∀ other, other ≠ backend → next.backends other = cluster.backends other

omit [DecidableEq Row] in
theorem Cluster.ends_abort (cluster : Cluster Row) (backend : Backend) {transaction : Transaction}
    {xid : Xid} (hasXid : transaction.xid = some xid) :
    cluster.Ends (cluster.endTransaction backend transaction) backend xid false := by
  simp only [endTransaction, hasXid]
  refine { nextXid := rfl, running := rfl, log := rfl, versions := rfl, dropping := rfl,
           self := setBackend_self _ backend _,
           others := fun other differ => setBackend_of_ne _ differ _,
           committed := fun other => ?_, dropped := fun graphOid => ?_ }
  · simp [setBackend]
  · simp [setBackend]

omit [DecidableEq Row] in
theorem Cluster.ends_commit (cluster : Cluster Row) (backend : Backend) {transaction : Transaction}
    {xid : Xid} (hasXid : transaction.xid = some xid) :
    cluster.Ends { cluster.endTransaction backend transaction with
        committed := xid :: cluster.committed
        dropped := ((cluster.dropping.filter fun drop => drop.2 == xid).map Prod.fst) ++
          cluster.dropped } backend xid true := by
  simp only [endTransaction, hasXid]
  refine { nextXid := rfl, running := rfl, log := rfl, versions := rfl, dropping := rfl,
           self := setBackend_self _ backend _,
           others := fun other differ => setBackend_of_ne _ differ _,
           committed := fun other => ?_, dropped := fun graphOid => ?_ }
  · rw [List.mem_cons, or_comm]
    simp
  · simp [or_comm]

variable {next : Cluster Row} {backend : Backend} {xid : Xid} {commits : Bool}

omit [DecidableEq Row] in
theorem Cluster.Ends.available (ends : cluster.Ends next backend xid commits) {graphOid : Oid}
    (available : next.available graphOid) :
    cluster.available graphOid ∨ commits = false ∧ (graphOid, xid) ∈ cluster.dropping := by
  obtain ⟨nonzero, kept, unlocked⟩ := available
  rw [ends.dropped, not_or] at kept
  by_cases locked : graphOid ∈ cluster.dropping.map Prod.fst
  · obtain ⟨⟨other, owner⟩, isDrop, rfl⟩ := List.mem_map.mp locked
    have isOwn : owner = xid := by
      by_contra differ
      refine unlocked (List.mem_map.mpr ⟨(other, owner), ?_, rfl⟩)
      rw [ends.dropping]
      exact List.mem_filter.mpr ⟨isDrop, bne_iff_ne.mpr differ⟩
    subst isOwn
    refine .inr ⟨?_, isDrop⟩
    by_contra isCommit
    exact kept.2 ⟨Bool.not_eq_false _ |>.mp isCommit, isDrop⟩
  · exact .inl ⟨nonzero, kept.1, locked⟩

/-- A backend sees of a log what it saw, but for the entries of the transaction: its own when it
aborts, those of the other backends when it commits. -/
theorem Cluster.Ends.seesNow (ends : cluster.Ends next backend xid commits)
    (owns : cluster.owner backend = some xid) {other : Backend} {entry : LogEntry Row}
    (unchanged : other = backend ∧ commits = false ∨ other ≠ backend ∧ commits = true →
      entry.xid ≠ xid) : cluster.seesNow other entry = next.seesNow other entry := by
  have contains : next.committed.contains entry.xid =
      (cluster.committed.contains entry.xid || commits && entry.xid == xid) := by
    rw [Bool.eq_iff_iff, List.contains_iff_mem, ends.committed]
    simp
  rw [Cluster.seesNow, Cluster.seesNow, contains]
  by_cases same : other = backend
  · subst same
    have noOwner : next.owner other = none := by
      rw [owner, ends.self]
      rfl
    rw [owns, noOwner]
    cases isCommit : commits with
    | true =>
        rw [Bool.true_and, show (none == some entry.xid) = false from rfl, Bool.or_false]
        congr 1
        rw [Bool.eq_iff_iff, beq_iff_eq, beq_iff_eq, Option.some.injEq]
        exact eq_comm
    | false =>
        have notOwn : (some xid == some entry.xid) = false := by
          rw [beq_eq_false_iff_ne, Ne, Option.some.injEq]
          exact Ne.symm (unchanged (.inl ⟨rfl, isCommit⟩))
        simp [notOwn]
  · have sameOwner : next.owner other = cluster.owner other := by
      rw [owner, ends.others other same]
      rfl
    rw [sameOwner]
    cases isCommit : commits with
    | true =>
        rw [beq_eq_false_iff_ne.mpr (unchanged (.inr ⟨same, isCommit⟩)), Bool.and_false,
          Bool.or_false]
    | false => rw [Bool.false_and, Bool.or_false]

theorem Cluster.Inv.ends (inv : cluster.Inv) (ends : cluster.Ends next backend xid commits)
    (owns : cluster.owner backend = some xid)
    (othersStale : commits = true → ∀ entry ∈ cluster.log, entry.xid = xid →
      cluster.available entry.graphOid → ∀ other, other ≠ backend →
        ¬ cluster.HoldsCurrent other entry.graphOid)
    (ownStale : commits = false → ∀ entry ∈ cluster.log, entry.xid = xid →
      cluster.available entry.graphOid → ¬ cluster.HoldsCurrent backend entry.graphOid)
    (noContext : commits = false → ∀ graphOid, (graphOid, xid) ∈ cluster.dropping →
      ∀ other, ∀ context ∈ (cluster.backends other).contexts, context.graphOid ≠ graphOid) :
    next.Inv := by
  have noOwner : next.owner backend = none := by
    rw [owner, ends.self]
    rfl
  have owners {other : Backend} (differ : other ≠ backend) :
      next.owner other = cluster.owner other := by
    rw [owner, ends.others other differ]
    rfl
  have ownerCases {other : Backend} {id : Xid} (isOwner : next.owner other = some id) :
      other ≠ backend ∧ cluster.owner other = some id ∧ id ≠ xid := by
    have differ : other ≠ backend := by
      rintro rfl
      rw [noOwner] at isOwner
      cases isOwner
    rw [owners differ] at isOwner
    refine ⟨differ, isOwner, ?_⟩
    rintro rfl
    exact differ (inv.distinct other backend _ isOwner owns)
  have wasRunning {id : Xid} (running : id ∈ next.running) : id ∈ cluster.running ∧ id ≠ xid := by
    rw [ends.running, List.mem_filter, bne_iff_ne] at running
    exact running
  refine { unique := ends.versions ▸ inv.unique, logged := ?_, ended := ?_, started := ?_,
           owned := ?_, distinct := ?_, stamped := ?_, seen := ?_, locked := ?_, quiet := ?_,
           versions := ?_ }
  · rw [ends.log, ends.nextXid]
    exact inv.logged
  · intro other committed
    rw [ends.nextXid]
    rcases (ends.committed other).mp committed with before | ⟨-, rfl⟩
    · exact inv.ended other before
    · exact inv.started _ (inv.owned backend _ owns).1
  · intro other running
    rw [ends.nextXid]
    exact inv.started other (wasRunning running).1
  · intro other id isOwner
    obtain ⟨-, before, differ⟩ := ownerCases isOwner
    obtain ⟨running, notCommitted⟩ := inv.owned other id before
    refine ⟨?_, fun committed => ?_⟩
    · rw [ends.running]
      exact List.mem_filter.mpr ⟨running, bne_iff_ne.mpr differ⟩
    · rcases (ends.committed id).mp committed with early | ⟨-, isOwn⟩
      · exact notCommitted early
      · exact differ isOwn
  · intro first second id isFirst isSecond
    exact inv.distinct first second id (ownerCases isFirst).2.1 (ownerCases isSecond).2.1
  · intro other now isNow entry logged own
    rw [ends.log] at logged
    by_cases same : other = backend
    · subst same
      rw [ends.self] at isNow
      cases isNow
    · rw [ends.others other same] at isNow
      exact inv.stamped other now isNow entry logged own
  · intro other now isNow snapshot isTaken id inSeen
    refine (ends.committed id).mpr (.inl ?_)
    by_cases same : other = backend
    · subst same
      rw [ends.self] at isNow
      cases isNow
    · rw [ends.others other same] at isNow
      exact inv.seen other now isNow snapshot isTaken id inSeen
  · intro drop isDrop entry logged mine running
    rw [ends.dropping] at isDrop
    rw [ends.log] at logged
    exact inv.locked drop (List.mem_of_mem_filter isDrop) entry logged mine (wasRunning running).1
  · intro graphOid available untracked entry logged mine running
    rw [ends.versions] at untracked
    rw [ends.log] at logged
    rcases ends.available available with before | ⟨-, isDrop⟩
    · exact inv.quiet graphOid before untracked entry logged mine (wasRunning running).1
    · exact (wasRunning running).2 (inv.locked _ isDrop entry logged mine (wasRunning running).1)
  · intro graphOid available other context member isGraph
    rw [ends.versions]
    have held : context ∈ (cluster.backends other).contexts := by
      by_cases same : other = backend
      · subst same
        rw [ends.self] at member
        exact member
      · rw [ends.others other same] at member
        exact member
    rcases ends.available available with before | ⟨aborts, isDrop⟩
    · obtain ⟨bound, current⟩ := inv.versions graphOid before other context held isGraph
      refine ⟨bound, fun version => ?_⟩
      obtain ⟨rows, sees⟩ := current version
      have holds : cluster.HoldsCurrent other graphOid := ⟨context, held, isGraph, version⟩
      have unchanged (stale : other = backend ∧ commits = false ∨
          other ≠ backend ∧ commits = true) :
          ∀ entry ∈ cluster.log, entry.graphOid = graphOid → entry.xid ≠ xid := by
        intro entry logged mine isXid
        subst mine
        rcases stale with ⟨rfl, aborts⟩ | ⟨differ, isCommit⟩
        · exact ownStale aborts entry logged isXid before holds
        · exact othersStale isCommit entry logged isXid before other differ holds
      refine ⟨?_, fun now snapshot isNow isSnapshot entry logged mine => ?_⟩
      · rw [rows, ends.log]
        exact loadGraph_congr fun entry logged mine => ends.seesNow owns fun stale =>
          unchanged stale entry logged (mine.trans isGraph)
      · by_cases same : other = backend
        · subst same
          rw [ends.self] at isNow
          cases isNow
        · rw [ends.others other same] at isNow
          rw [ends.log] at logged
          obtain ⟨before, own⟩ := sees now snapshot isNow isSnapshot entry logged mine
          refine ⟨fun committed => ?_, own⟩
          rcases (ends.committed entry.xid).mp committed with early | ⟨isCommit, isXid⟩
          · exact before early
          · exact absurd isXid (unchanged (.inr ⟨same, isCommit⟩) entry logged
              (mine.trans isGraph))
    · exact absurd isGraph (noContext aborts graphOid isDrop other context held)

end End

/-- A transaction without an id ends. -/
theorem Cluster.Inv.endReadOnly (inv : cluster.Inv) {backend : Backend} {transaction : Transaction}
    (running : (cluster.backends backend).transaction = some transaction)
    (noXid : transaction.xid = none) :
    (cluster.setBackend backend ⟨none, (cluster.backends backend).contexts⟩).Inv := by
  refine inv.setTransaction ((owner_of_running running).trans noXid).symm
    (fun now isNow => ?_) (fun now isNow => ?_) fun now snapshot isNow => ?_
  · cases isNow
  · cases isNow
  · cases isNow

theorem Cluster.Inv.step (inv : cluster.Inv) {event : ClusterEvent Row} {next : Cluster Row}
    (meets : cluster.Meets ageMaxGraphs event)
    (stepped : cluster.step ageMaxGraphs event = some next) : next.Inv := by
  cases event with
  | begin backend =>
      rw [Cluster.step] at stepped
      cases running : (cluster.backends backend).transaction with
      | some transaction => simp [running] at stepped
      | none =>
          simp only [running, Option.some.injEq] at stepped
          subst stepped
          refine inv.setTransaction (by rw [owner, running]; rfl) (fun now isNow entry _ own => ?_)
            (fun now isNow snapshot isTaken => ?_) fun now snapshot isNow isTaken => ?_
          · cases isNow
            cases own
          · cases isNow
            cases isTaken
          · cases isNow
            cases isTaken
  | takeSnapshot backend =>
      rw [Cluster.step] at stepped
      obtain ⟨transaction, running, rest⟩ := Option.bind_eq_some_iff.mp stepped
      cases rest
      refine inv.setSnapshot running (fun other isTaken => ?_) fun graphOid _ _ entry logged _ => ?_
      · rcases List.mem_cons.mp isTaken with rfl | old
        · exact fun xid inSeen => inSeen
        · exact inv.seen backend transaction running other (List.mem_append_right _ old)
      · exact ⟨id, inv.stamped backend transaction running entry logged⟩
  | keepSnapshot backend =>
      rw [Cluster.step] at stepped
      obtain ⟨transaction, running, rest⟩ := Option.bind_eq_some_iff.mp stepped
      obtain ⟨snapshot, isSnapshot, rest⟩ := Option.bind_eq_some_iff.mp rest
      cases rest
      have seen := inv.seen backend transaction running
      rw [Transaction.snapshots, isSnapshot] at seen
      refine inv.setSnapshot running (fun other isTaken => ?_)
        fun graphOid available holds entry logged mine => ?_
      · rcases List.mem_cons.mp isTaken with rfl | old
        · exact seen snapshot List.mem_cons_self
        · exact seen other (List.mem_cons_of_mem _ old)
      · exact ⟨(inv.upToDate_of_holds running isSnapshot available holds entry logged mine).1,
          inv.stamped backend transaction running entry logged⟩
  | openPortal backend =>
      rw [Cluster.step] at stepped
      obtain ⟨transaction, running, rest⟩ := Option.bind_eq_some_iff.mp stepped
      obtain ⟨snapshot, isSnapshot, rest⟩ := Option.bind_eq_some_iff.mp rest
      cases rest
      have seen := inv.seen backend transaction running
      rw [Transaction.snapshots, isSnapshot] at seen
      rw [isSnapshot]
      refine inv.setSnapshot running (fun other isTaken => ?_)
        fun graphOid available holds => inv.upToDate_of_holds running isSnapshot available holds
      rcases List.mem_cons.mp isTaken with rfl | old
      · exact seen other List.mem_cons_self
      · exact seen other old
  | fetchPortal backend place =>
      rw [Cluster.step] at stepped
      obtain ⟨transaction, running, rest⟩ := Option.bind_eq_some_iff.mp stepped
      obtain ⟨snapshot, isPortal, rest⟩ := Option.bind_eq_some_iff.mp rest
      cases rest
      refine inv.setSnapshot running (fun other isTaken => ?_)
        (meets transaction snapshot running isPortal)
      have portal : other ∈ transaction.portals := by
        rcases List.mem_cons.mp isTaken with rfl | old
        · exact List.mem_of_getElem? isPortal
        · exact old
      exact inv.seen backend transaction running other (List.mem_append_right _ portal)
  | mutate backend graphOid changes =>
      rw [Cluster.step] at stepped
      obtain ⟨transaction, running, rest⟩ := Option.bind_eq_some_iff.mp stepped
      split_ifs at rest with available
      cases rest
      have assigned := inv.assignXid running
      obtain ⟨-, sameVersions, sameDropped, sameDropping, -⟩ :=
        cluster.assignXid_fields transaction
      have owns := assigned.owned backend (cluster.assignXid transaction).2 (by
        rw [owner, setBackend_self]
        rfl)
      refine assigned.change owns.1 (fun other now isNow own => ?_) ?_ ?_ changes
      · have mine : other = backend := by
          refine assigned.distinct other backend _ ?_ (by rw [owner, setBackend_self]; rfl)
          rw [owner, isNow]
          exact own
        subst mine
        rw [setBackend_self] at isNow
        cases isNow
        exact Nat.lt_succ_self _
      · exact ⟨available.1, sameDropped ▸ available.2.1, sameDropping ▸ available.2.2⟩
      · change hasRoom ageMaxGraphs (cluster.assignXid transaction).1.versions graphOid = true
        rw [sameVersions]
        exact meets
  | query backend graphOid =>
      rw [Cluster.step] at stepped
      obtain ⟨transaction, running, rest⟩ := Option.bind_eq_some_iff.mp stepped
      obtain ⟨snapshot, isSnapshot, rest⟩ := Option.bind_eq_some_iff.mp rest
      split_ifs at rest with available
      have upToDate := meets transaction snapshot running isSnapshot
      cases found : findContext cluster.versions snapshot (cluster.backends backend).contexts
          graphOid with
      | some context =>
          simp only [found] at rest
          cases rest
          exact inv.query running isSnapshot
            (fun context kept => .inl (List.mem_of_mem_filter kept)) upToDate
      | none =>
          simp only [found] at rest
          cases rest
          refine inv.query running isSnapshot (fun context member => ?_) upToDate
          rcases List.mem_cons.mp member with isNew | kept
          · exact .inr ⟨isNew, found⟩
          · exact .inl (List.mem_of_mem_filter kept)
  | dropGraph backend graphOid =>
      rw [Cluster.step] at stepped
      obtain ⟨transaction, running, rest⟩ := Option.bind_eq_some_iff.mp stepped
      split_ifs at rest with allowed
      cases rest
      refine (inv.assignXid running).dropGraph
        fun entry logged mine isRunning => ?_
      obtain ⟨sameLog, -, -, -, ids⟩ := cluster.assignXid_fields transaction
      change entry ∈ (cluster.assignXid transaction).1.log at logged
      rw [sameLog] at logged
      rcases ids entry.xid isRunning with old | ⟨isNew, -⟩
      · have isOwn := allowed.2 entry logged mine old
        simp only [isOwn]
      · exact absurd isNew (Nat.ne_of_lt (inv.logged entry logged))
  | commit backend =>
      rw [Cluster.step] at stepped
      obtain ⟨transaction, running, rest⟩ := Option.bind_eq_some_iff.mp stepped
      cases hasXid : transaction.xid with
      | none =>
          simp only [hasXid, endTransaction] at rest
          cases rest
          exact inv.endReadOnly running hasXid
      | some xid =>
          simp only [hasXid] at rest
          cases rest
          have owns := (owner_of_running running).trans hasXid
          refine inv.ends (cluster.ends_commit backend hasXid) owns ?_
            (fun impossible => by cases impossible) (fun impossible => by cases impossible)
          intro _ entry logged isXid available
          exact meets _ available ⟨transaction, xid, running, hasXid, entry, logged, isXid, rfl⟩
  | abort backend =>
      rw [Cluster.step] at stepped
      obtain ⟨transaction, running, rest⟩ := Option.bind_eq_some_iff.mp stepped
      obtain ⟨ownStale, noContext⟩ := meets
      cases hasXid : transaction.xid with
      | none =>
          simp only [endTransaction, hasXid] at rest
          cases rest
          exact inv.endReadOnly running hasXid
      | some xid =>
          cases rest
          have owns := (owner_of_running running).trans hasXid
          refine inv.ends (cluster.ends_abort backend hasXid) owns
            (fun impossible => by cases impossible) ?_ fun _ graphOid isDrop =>
              noContext transaction xid graphOid running hasXid isDrop
          intro _ entry logged isXid available
          exact ownStale _ available
            ⟨transaction, xid, running, hasXid, entry, logged, isXid, rfl⟩

theorem Cluster.Inv.run (inv : cluster.Inv) {events : List (ClusterEvent Row)}
    (meets : cluster.MeetsAll ageMaxGraphs events) {final : Cluster Row}
    (ran : cluster.run ageMaxGraphs events = some final) : final.Inv := by
  induction events generalizing cluster with
  | nil =>
      cases ran
      exact inv
  | cons event rest inductionHypothesis =>
      rw [Cluster.run, List.foldlM_cons] at ran
      obtain ⟨next, stepped, later⟩ := Option.bind_eq_some_iff.mp ran
      exact inductionHypothesis (inv.step meets.1 stepped) (meets.2 next stepped) later

omit [DecidableEq Row] in
theorem Cluster.inv_start [DecidableEq Row] (rows : List (Oid × Row)) :
    (Cluster.start Row rows).Inv := by
  have early {entry : LogEntry Row} (logged : entry ∈ (Cluster.start Row rows).log) :
      entry.xid = 0 := by
    obtain ⟨row, -, rfl⟩ := List.mem_map.mp logged
    rfl
  refine { unique := List.Pairwise.nil, logged := fun entry logged => ?_, ended := ?_,
           started := ?_, owned := ?_, distinct := ?_, stamped := ?_, seen := ?_, locked := ?_,
           quiet := ?_, versions := ?_ }
  · rw [early logged]
    exact Nat.one_pos
  · intro xid committed
    rw [List.mem_singleton.mp committed]
    exact Nat.one_pos
  · intro xid running
    cases running
  · intro backend xid isOwner
    cases isOwner
  · intro backend other xid isOwner
    cases isOwner
  · intro backend transaction isNow
    cases isNow
  · intro backend transaction isNow
    cases isNow
  · intro drop isDrop
    cases isDrop
  · intro graphOid _ _ entry _ _ running
    cases running
  · intro graphOid _ backend context member
    cases member

end Steps

/-- While the steps meet the condition, every query of every backend sees the graph as a
fresh load under its own snapshot would. -/
theorem Cluster.queryRows_fresh (rows : List (Oid × Row)) (events : List (ClusterEvent Row))
    (meets : (Cluster.start Row rows).MeetsAll ageMaxGraphs events)
    (ran : (Cluster.start Row rows).run ageMaxGraphs events = some cluster) (backend : Backend)
    (graphOid : Oid) (used fresh : List Row)
    (query : cluster.queryRows backend graphOid = some (used, fresh)) : used = fresh :=
  ((Cluster.inv_start rows).run meets ran).queryRows query

/-- A transaction reads its own changes through a context that it keeps. -/
theorem Cluster.queryRows_fresh_own :
    ∃ cluster : Cluster Nat, (Cluster.start Nat [(1, 5)]).run 64
        [.begin 0, .mutate 0 1 [.insert 8], .takeSnapshot 0, .query 0 1] = some cluster ∧
      cluster.queryRows 0 1 = some ([5, 8], [5, 8]) ∧ ([5, 8] : List Nat) = [5, 8] := by
  refine ⟨_, rfl, rfl, ?_⟩
  refine @Cluster.queryRows_fresh Nat _ 64 _ [(1, 5)]
    [.begin 0, .mutate 0 1 [.insert 8], .takeSnapshot 0, .query 0 1] ?_ rfl 0 1 _ _ rfl
  refine ⟨trivial, fun _ stepped => ?_⟩
  cases stepped
  refine ⟨rfl, fun _ stepped => ?_⟩
  cases stepped
  refine ⟨trivial, fun _ stepped => ?_⟩
  cases stepped
  refine ⟨?_, fun _ _ => trivial⟩
  intro transaction snapshot running isSnapshot _
  cases running
  cases isSnapshot
  decide

/-- A backend loads the graph between a mutation and its commit, and keeps what it loaded. -/
theorem Cluster.queryRows_stale :
    ¬ ∀ cluster : Cluster Nat, (Cluster.start Nat []).run 64
        [.begin 0, .mutate 0 1 [.insert 8], .begin 1, .takeSnapshot 1, .query 1 1, .commit 0,
          .takeSnapshot 1] = some cluster →
      ∀ used fresh, cluster.queryRows 1 1 = some (used, fresh) → used = fresh := by
  intro coherent
  have same := coherent _ rfl [] [8] rfl
  cases same

end Invariant

end Age.Graph
