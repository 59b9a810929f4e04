import Age.Vle.RootChoice

/-!
# The cached context of a grammar node

`build_vle_local_context_for_input` keeps the local context of a grammar node for
the next call, which changes some fields of its root and keeps the numbers and flags
of its edges.  The graph does not change, so that the global context stays valid;
contexts of other grammar nodes may push it out of the cache.
-/

namespace Age.Vle

/-- A call: its vertex arguments, whether all rows are taken, and whether the context was
pushed out before it. -/
structure VleCall where
  startId : Option GraphId
  endId : Option GraphId
  drained : Bool
  purged : Bool

variable {Entry : Type} {graph : VleGraph} (sources : VleSources graph Entry)
  (pattern : VlePattern)

/-- The root when the rows of a call have been taken: the vertex list has ended, unless the
path function leaves it alone. -/
def Root.drained (root : Root) : Root :=
  if root.pathFunction = .pathsBetween ∨ root.pathFunction = .pathsFrom then root
  else
    { root with
      startVertexId := (root.startVertexId :: root.nextVertex).getLast (List.cons_ne_nil _ _)
      nextVertex := [] }

section Reuse

variable (graph)

end Reuse

section Kept

variable (graph)

/-- What the root of a context keeps of the call that has built it. -/
structure KeptRoot (builtBy : VleCall) (root : Root) : Prop where
  between : ∀ startId endId, builtBy.startId = some startId → builtBy.endId = some endId →
    root.pathFunction = .pathsBetween ∧ root.reversePathsTo = false ∧
      root.reverseOutputPath = prefersEnd graph pattern startId endId ∧
      root.direction =
        if prefersEnd graph pattern startId endId then pattern.direction.reversed
        else pattern.direction
  startOnly : builtBy.startId.isSome = true → builtBy.endId = none →
    root.pathFunction = .pathsFrom ∧ root.reversePathsTo = false ∧
      root.reverseOutputPath = false ∧ root.direction = pattern.direction
  endOnly : builtBy.startId = none → builtBy.endId.isSome = true →
    root.pathFunction = .pathsTo ∧ root.reversePathsTo = true ∧
      root.reverseOutputPath = true ∧ root.direction = pattern.direction.reversed ∧
      root.nextVertex = []
  neither : builtBy.startId = none → builtBy.endId = none →
    root.pathFunction = .pathsAll ∧ root.reversePathsTo = false ∧
      root.reverseOutputPath = false ∧ root.direction = pattern.direction ∧
      root.nextVertex = []
  loaded : graph.vertices = [] → pattern.skipsVertexMetadata = true ∧
    (builtBy.startId.isSome || builtBy.endId.isSome) = true

variable {graph pattern sources}

/-- A root that differs in its vertices alone keeps the same. -/
theorem KeptRoot.congr {builtBy : VleCall} {root other : Root}
    (kept : KeptRoot graph pattern builtBy root) (pathFunction : other.pathFunction = root.pathFunction)
    (reversePathsTo : other.reversePathsTo = root.reversePathsTo)
    (reverseOutputPath : other.reverseOutputPath = root.reverseOutputPath)
    (direction : other.direction = root.direction)
    (nextVertex : root.nextVertex = [] → other.nextVertex = []) :
    KeptRoot graph pattern builtBy other where
  between startId endId start ends := by
    rw [pathFunction, reversePathsTo, reverseOutputPath, direction]
    exact kept.between startId endId start ends
  startOnly start ends := by
    rw [pathFunction, reversePathsTo, reverseOutputPath, direction]
    exact kept.startOnly start ends
  endOnly start ends := by
    obtain ⟨function, toEnd, backwards, reversed, last⟩ := kept.endOnly start ends
    exact ⟨pathFunction.trans function, reversePathsTo.trans toEnd,
      reverseOutputPath.trans backwards, direction.trans reversed, nextVertex last⟩
  neither start ends := by
    obtain ⟨function, toEnd, backwards, reversed, last⟩ := kept.neither start ends
    exact ⟨pathFunction.trans function, reversePathsTo.trans toEnd,
      reverseOutputPath.trans backwards, direction.trans reversed, nextVertex last⟩
  loaded := kept.loaded

theorem KeptRoot.drained {builtBy : VleCall} {root : Root}
    (kept : KeptRoot graph pattern builtBy root) : KeptRoot graph pattern builtBy root.drained := by
  unfold Root.drained
  split
  · exact kept
  · exact kept.congr rfl rfl rfl rfl fun _ => rfl

/-- What a refresh leaves as it was. -/
theorem KeptRoot.refreshed {builtBy : VleCall} {root other : Root} {startId endId : Option GraphId}
    (kept : KeptRoot graph pattern builtBy root)
    (refreshed : initRootFromRefresh root startId endId = some other) :
    KeptRoot graph pattern builtBy other := by
  obtain ⟨function, start, ends, direction, next, toEnd, backwards⟩ := root
  cases startId with
  | some startId =>
      cases endId <;> cases toEnd <;> cases backwards <;> cases refreshed <;>
        exact kept.congr rfl rfl rfl rfl fun last => by first | exact last | rfl
  | none =>
      cases toEnd with
      | true =>
          cases endId <;> cases backwards <;> cases refreshed <;>
            exact kept.congr rfl rfl rfl rfl fun last => by first | exact last | rfl
      | false =>
          cases next with
          | nil => exact nomatch refreshed
          | cons vertexId rest =>
              cases endId <;> cases backwards <;> cases refreshed <;>
                exact kept.congr rfl rfl rfl rfl fun last => nomatch last

/-- Two searches that ask for the same find the same. -/
structure SameSearchRoot (root other : Root) : Prop where
  once : SearchesOnce root
  otherOnce : SearchesOnce other
  between : root.pathFunction = .pathsBetween ↔ other.pathFunction = .pathsBetween
  required : requiresTerminal root = requiresTerminal other
  start : root.startVertexId = other.startVertexId
  endVertex : root.endVertexId = other.endVertexId
  direction : root.direction = other.direction
  reverseOutputPath : root.reverseOutputPath = other.reverseOutputPath

theorem SameSearchRoot.isContainer {root other : Root} (same : SameSearchRoot root other)
    (container : List GraphId) :
    IsContainer graph pattern root container ↔ IsContainer graph pattern other container := by
  have zero : hasZeroBoundStart pattern root root.startVertexId =
      hasZeroBoundStart pattern other other.startVertexId := by
    have isBetween : (root.pathFunction != .pathsBetween) =
        (other.pathFunction != .pathsBetween) := by
      rw [Bool.eq_iff_iff]
      simp [same.between]
    simp only [hasZeroBoundStart, shouldEmitZeroBound, isBetween, same.start, same.endVertex]
  have found (walk : List WalkStep) : IsFound graph pattern root root.startVertexId walk ↔
      IsFound graph pattern other other.startVertexId walk := by
    rw [same.start]
    constructor
    · intro isFound
      exact ⟨isFound.nonempty, same.direction ▸ isFound.isTrail, isFound.distinct,
        isFound.inRange, isFound.labels,
        fun required => same.endVertex ▸ isFound.terminal (same.required.trans required),
        fun valid forwards => isFound.endpoint valid (same.reverseOutputPath.trans forwards)⟩
    · intro isFound
      exact ⟨isFound.nonempty, same.direction.symm ▸ isFound.isTrail, isFound.distinct,
        isFound.inRange, isFound.labels,
        fun required => same.endVertex.symm ▸
          isFound.terminal (same.required.symm.trans required),
        fun valid forwards => isFound.endpoint valid (same.reverseOutputPath.symm.trans forwards)⟩
  unfold IsContainer IsContainerFrom
  rw [zero, same.start]
  refine or_congr Iff.rfl (exists_congr fun walk => ?_)
  have isFound := found walk
  rw [same.start] at isFound
  rw [isFound, walkContainer, walkContainer, same.reverseOutputPath]

section Setup

variable {startId endId : GraphId}
variable (loads : graph.vertices = [] → pattern.skipsVertexMetadata = true)
include loads

end Setup

end Kept

section Runs

variable {graph : VleGraph} {sources : VleSources graph Entry} {pattern : VlePattern}

/-- A call that has built a context, and the root that the context then has. -/
structure Built where
  builtBy : VleCall
  root : Root

/-- The root is kept from the call, and its searches have one numbering. -/
structure Built.Kept (built : Built) (sources : VleSources graph Entry) (pattern : VlePattern) :
    Prop where
  root : KeptRoot graph pattern built.builtBy built.root
  numbering : sources.OneNumbering built.root.direction

end Runs

section Example

end Example

end Age.Vle
