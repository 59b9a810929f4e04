import Age.Agtype.InOperator
import Age.Vle.RootChoice

/-!
# Edge uniqueness

`_ag_enforce_edge_uniqueness` filters the matches in which an edge stands twice.  Its arguments are
ids of edges and path containers in any order; two arguments are often compared without the hash
table.
-/

namespace Age.Vle.EdgeUniqueness

open Age.Agtype

section Definitions

/-- `EDGE_UNIQUENESS_NESTED_SCAN_LIMIT` -/
def edgeUniquenessNestedScanLimit : Nat := 64

/-- An argument by its type, and an agtype by what its root is -/
inductive EdgeArgument where
  | null
  | otherType
  /-- `INT8OID` or `GRAPHIDOID` -/
  | graphId (gid : Int64)
  | vlePath (container : VlePathContainer)
  | scalar (value : AgtypeValue)
  /-- An array or an object -/
  | nonScalar

inductive UniquenessError where
  /-- `_ag_enforce_edge_uniqueness argument %d must not be NULL` -/
  | isNull (i : Nat)
  /-- `_ag_enforce_edge_uniqueness argument %d must be AGTYPE, INT8, or GRAPHIDOID` -/
  | wrongType (i : Nat)
  /-- `_ag_enforce_edge_uniqueness parameter %d must resolve to an agtype integer` -/
  | notInteger (i : Nat)
  /-- `_ag_enforce_edge_uniqueness invalid parameter type %d` -/
  | invalidType (i : Nat)
  deriving DecidableEq, Repr

def verifyArguments : (i : Nat) → List EdgeArgument → Except UniquenessError Unit
  | _, [] => .ok ()
  | i, .null :: _ => .error (.isNull i)
  | i, .otherType :: _ => .error (.wrongType i)
  | i, _ :: args => verifyArguments (i + 1) args

/-- The edges of a container, at every second place of its array -/
def pathEdgeIds (vpc : VlePathContainer) : List Int64 :=
  (List.range vpc.edgeCount).map fun i => vpc.graphidArray[i * 2 + 1]?.getD 0

/-- `get_edge_uniqueness_vle_arg` -/
def getEdgeUniquenessVleArg : EdgeArgument → Option VlePathContainer
  | .vlePath container => some container
  | _ => none

/-- `get_edge_uniqueness_fixed_edge_id` -/
def getEdgeUniquenessFixedEdgeId (argno : Nat) :
    EdgeArgument → Except UniquenessError (Option Int64)
  | .graphId gid => .ok (some gid)
  | .scalar (.integer gid) => .ok (some gid)
  | .scalar _ => .error (.notInteger argno)
  | _ => .ok none

/-- A path against one edge; `argno` is the place of the edge. -/
def tryEnforcePathAndEdge (path : EdgeArgument) (argno : Nat) (edge : EdgeArgument) :
    Except UniquenessError (Option Bool) :=
  match getEdgeUniquenessVleArg path with
  | none => .ok none
  | some vpc => do
      let edgeId ← getEdgeUniquenessFixedEdgeId argno edge
      return edgeId.map fun edgeId => !vpc.containsEdgeId edgeId

/-- `try_enforce_one_vle_one_edge_uniqueness` -/
def tryEnforceOneVleOneEdgeUniqueness : List EdgeArgument → Except UniquenessError (Option Bool)
  | [left, right] => do
      match ← tryEnforcePathAndEdge left 1 right with
      | some result => return some result
      | none => tryEnforcePathAndEdge right 0 left
  | _ => .ok none

/-- `vle_paths_have_common_edge`: the shorter path is the outer one. -/
def vlePathsHaveCommonEdge (left right : VlePathContainer) : Bool :=
  let outer := if left.edgeCount > right.edgeCount then right else left
  let inner := if left.edgeCount > right.edgeCount then left else right
  (List.range outer.edgeCount).any fun i => (List.range inner.edgeCount).any fun j =>
    outer.graphidArray[i * 2 + 1]?.getD 0 == inner.graphidArray[j * 2 + 1]?.getD 0

/-- `try_enforce_two_vle_uniqueness` -/
def tryEnforceTwoVleUniqueness : List EdgeArgument → Option Bool
  | [left, right] => do
      let leftVpc ← getEdgeUniquenessVleArg left
      let rightVpc ← getEdgeUniquenessVleArg right
      if leftVpc.edgeCount = 0 ∨ rightVpc.edgeCount = 0 then some true
      else if leftVpc.edgeCount * rightVpc.edgeCount > edgeUniquenessNestedScanLimit then none
      else some (!vlePathsHaveCommonEdge leftVpc rightVpc)
  | _ => none

def estimatedEdges : List EdgeArgument → Nat
  | [] => 0
  | .vlePath container :: args => container.graphidArray.length / 2 + estimatedEdges args
  | _ :: args => 1 + estimatedEdges args

/-- The ids of one argument that go into the hash table -/
def argumentEdges (i : Nat) : EdgeArgument → Except UniquenessError (List Int64)
  | .graphId gid => .ok [gid]
  | .vlePath container => .ok (pathEdgeIds container)
  | .scalar (.integer gid) => .ok [gid]
  | .scalar _ => .error (.notInteger i)
  | _ => .error (.invalidType i)

/-- `hash_search` with `HASH_ENTER` for one id after the other; `none` where one is found -/
def insertEdges : (existsHash edgeIds : List Int64) → Option (List Int64)
  | existsHash, [] => some existsHash
  | existsHash, edgeId :: edgeIds =>
      if edgeId ∈ existsHash then none else insertEdges (edgeId :: existsHash) edgeIds

def insertArguments : (i : Nat) → (existsHash : List Int64) → List EdgeArgument →
    Except UniquenessError Bool
  | _, _, [] => .ok true
  | i, existsHash, argument :: args => do
      let edgeIds ← argumentEdges i argument
      match insertEdges existsHash edgeIds with
      | none => return false
      | some existsHash => insertArguments (i + 1) existsHash args

/-- `_ag_enforce_edge_uniqueness` -/
def agEnforceEdgeUniqueness (args : List EdgeArgument) : Except UniquenessError Bool := do
  verifyArguments 0 args
  match ← tryEnforceOneVleOneEdgeUniqueness args with
  | some result => return result
  | none =>
      match tryEnforceTwoVleUniqueness args with
      | some result => return result
      | none => if estimatedEdges args < 2 then return true else insertArguments 0 [] args

/-- `_ag_enforce_edge_uniqueness2` -/
def agEnforceEdgeUniqueness2 (gid1 gid2 : Int64) : Bool :=
  if gid1 = gid2 then false else true

/-- `_ag_enforce_edge_uniqueness3` -/
def agEnforceEdgeUniqueness3 (gid1 gid2 gid3 : Int64) : Bool :=
  if gid1 = gid2 ∨ gid1 = gid3 ∨ gid2 = gid3 then false else true

/-- `_ag_enforce_edge_uniqueness4` -/
def agEnforceEdgeUniqueness4 (gid1 gid2 gid3 gid4 : Int64) : Bool :=
  if gid1 = gid2 ∨ gid1 = gid3 ∨ gid1 = gid4 ∨ gid2 = gid3 ∨ gid2 = gid4 ∨ gid3 = gid4 then false
  else true

/-- The edges that an argument stands for -/
def EdgeArgument.edgeIds : EdgeArgument → List Int64
  | .graphId gid => [gid]
  | .vlePath container => pathEdgeIds container
  | .scalar (.integer gid) => [gid]
  | _ => []

/-- What is wrong with the argument at a place -/
def EdgeArgument.problem (i : Nat) : EdgeArgument → Option UniquenessError
  | .null => some (.isNull i)
  | .otherType => some (.wrongType i)
  | .graphId _ | .vlePath _ | .scalar (.integer _) => none
  | .scalar _ => some (.notInteger i)
  | .nonScalar => some (.invalidType i)

/-- The answer is whether no edge stands twice in all arguments together, and an error names an
argument that stands for no edges; `i` is the place of the first of the arguments. -/
def Enforced (i : Nat) (args : List EdgeArgument) (existsHash : List Int64) :
    Except UniquenessError Bool → Prop
  | .ok unique => unique = true ↔ ((args.flatMap EdgeArgument.edgeIds).reverse ++ existsHash).Nodup
  | .error error => ∃ (place : Nat) (argument : EdgeArgument), args[place]? = some argument ∧
      argument.problem (i + place) = some error

end Definitions

section Containers

variable {left right vpc : VlePathContainer} {edgeId : Int64}

theorem containsEdgeId_iff_mem : vpc.containsEdgeId edgeId = true ↔ edgeId ∈ pathEdgeIds vpc := by
  rw [VlePathContainer.containsEdgeId_iff, pathEdgeIds, List.mem_map]
  constructor
  · rintro ⟨i, inside, found⟩
    exact ⟨i, List.mem_range.2 inside, found⟩
  · rintro ⟨i, inside, found⟩
    exact ⟨i, List.mem_range.1 inside, found⟩

theorem length_pathEdgeIds (vpc : VlePathContainer) : (pathEdgeIds vpc).length = vpc.edgeCount := by
  rw [pathEdgeIds, List.length_map, List.length_range]

theorem vlePathsHaveCommonEdge_iff : vlePathsHaveCommonEdge left right = true ↔
    ∃ edgeId ∈ pathEdgeIds left, edgeId ∈ pathEdgeIds right := by
  have nested : ∀ outer inner : VlePathContainer,
      ((List.range outer.edgeCount).any fun i => (List.range inner.edgeCount).any fun j =>
        outer.graphidArray[i * 2 + 1]?.getD 0 == inner.graphidArray[j * 2 + 1]?.getD 0) = true ↔
      ∃ edgeId ∈ pathEdgeIds outer, edgeId ∈ pathEdgeIds inner := by
    intro outer inner
    simp only [List.any_eq_true, beq_iff_eq, pathEdgeIds, List.mem_map]
    constructor
    · rintro ⟨i, isOuter, j, isInner, same⟩
      exact ⟨_, ⟨i, isOuter, rfl⟩, j, isInner, same.symm⟩
    · rintro ⟨edgeId, ⟨i, isOuter, rfl⟩, j, isInner, same⟩
      exact ⟨i, isOuter, j, isInner, same.symm⟩
  rw [vlePathsHaveCommonEdge]
  by_cases longer : left.edgeCount > right.edgeCount
  · simp only [if_pos longer]
    rw [nested]
    constructor
    · rintro ⟨edgeId, inRight, inLeft⟩
      exact ⟨edgeId, inLeft, inRight⟩
    · rintro ⟨edgeId, inLeft, inRight⟩
      exact ⟨edgeId, inRight, inLeft⟩
  · simp only [if_neg longer]
    exact nested left right

end Containers

section Outcomes

variable {args : List EdgeArgument} {argument : EdgeArgument} {existsHash : List Int64}

theorem Enforced.cons {i : Nat} {result : Except UniquenessError Bool}
    (enforced : Enforced (i + 1) args (argument.edgeIds.reverse ++ existsHash) result) :
    Enforced i (argument :: args) existsHash result := by
  cases result with
  | ok unique =>
      rw [Enforced] at enforced ⊢
      rw [enforced, List.flatMap_cons, List.reverse_append, List.append_assoc]
  | error error =>
      obtain ⟨place, wrong, here, problem⟩ := enforced
      refine ⟨place + 1, wrong, here, ?_⟩
      rw [← Nat.add_assoc, Nat.add_right_comm]
      exact problem

/-- No NULL, and one of the types -/
def EdgeArgument.Typed (argument : EdgeArgument) : Prop :=
  argument ≠ .null ∧ argument ≠ .otherType

theorem verifyArguments_spec (i : Nat) (args : List EdgeArgument) (existsHash : List Int64) :
    (verifyArguments i args = .ok () ∧ ∀ argument ∈ args, argument.Typed) ∨
      ∃ error, verifyArguments i args = .error error ∧
        Enforced i args existsHash (.error error) := by
  induction args generalizing i existsHash with
  | nil => exact .inl ⟨rfl, List.forall_mem_nil _⟩
  | cons argument args inductionHypothesis =>
      have later (typed : argument.Typed) :
          (verifyArguments (i + 1) args = .ok () ∧
            ∀ other ∈ argument :: args, other.Typed) ∨
          ∃ error, verifyArguments (i + 1) args = .error error ∧
            Enforced i (argument :: args) existsHash (.error error) := by
        rcases inductionHypothesis (i + 1) (argument.edgeIds.reverse ++ existsHash) with
          ⟨verified, typedLater⟩ | ⟨error, raised, enforced⟩
        · exact .inl ⟨verified, List.forall_mem_cons.2 ⟨typed, typedLater⟩⟩
        · exact .inr ⟨error, raised, enforced.cons⟩
      cases argument with
      | null => exact .inr ⟨_, rfl, 0, .null, rfl, rfl⟩
      | otherType => exact .inr ⟨_, rfl, 0, .otherType, rfl, rfl⟩
      | graphId _ => exact later ⟨EdgeArgument.noConfusion, EdgeArgument.noConfusion⟩
      | vlePath _ => exact later ⟨EdgeArgument.noConfusion, EdgeArgument.noConfusion⟩
      | scalar _ => exact later ⟨EdgeArgument.noConfusion, EdgeArgument.noConfusion⟩
      | nonScalar => exact later ⟨EdgeArgument.noConfusion, EdgeArgument.noConfusion⟩

/-- All ids go in, unless one of them is there already. -/
theorem insertEdges_eq {edgeIds : List Int64} (distinct : existsHash.Nodup) :
    insertEdges existsHash edgeIds =
      if (edgeIds.reverse ++ existsHash).Nodup then some (edgeIds.reverse ++ existsHash)
      else none := by
  induction edgeIds generalizing existsHash with
  | nil => exact (if_pos distinct).symm
  | cons edgeId edgeIds inductionHypothesis =>
      have rotated : (edgeId :: edgeIds).reverse ++ existsHash =
          edgeIds.reverse ++ edgeId :: existsHash := by
        rw [List.reverse_cons, List.append_assoc, List.singleton_append]
      rw [insertEdges, rotated]
      by_cases isThere : edgeId ∈ existsHash
      · rw [if_pos isThere, if_neg]
        intro distinctAll
        exact (List.nodup_cons.1 (List.nodup_append.1 distinctAll).2.1).1 isThere
      · rw [if_neg isThere]
        exact inductionHypothesis (List.nodup_cons.2 ⟨isThere, distinct⟩)

theorem argumentEdges_spec (i : Nat) (typed : argument.Typed) :
    argumentEdges i argument = .ok argument.edgeIds ∨
      ∃ error, argumentEdges i argument = .error error ∧ argument.problem i = some error := by
  cases argument with
  | null => exact absurd rfl typed.1
  | otherType => exact absurd rfl typed.2
  | graphId _ => exact .inl rfl
  | vlePath _ => exact .inl rfl
  | nonScalar => exact .inr ⟨_, rfl, rfl⟩
  | scalar value =>
      cases value with
      | integer _ => exact .inl rfl
      | _ => exact .inr ⟨_, rfl, rfl⟩

theorem insertArguments_spec (i : Nat) (typed : ∀ argument ∈ args, argument.Typed)
    (distinct : existsHash.Nodup) :
    Enforced i args existsHash (insertArguments i existsHash args) := by
  induction args generalizing i existsHash with
  | nil => exact iff_of_true rfl distinct
  | cons argument args inductionHypothesis =>
      obtain ⟨typedHere, typedLater⟩ := List.forall_mem_cons.1 typed
      rw [insertArguments]
      rcases argumentEdges_spec i typedHere with read | ⟨error, raised, problem⟩
      · rw [read]
        change Enforced i (argument :: args) existsHash
          (match insertEdges existsHash argument.edgeIds with
          | none => .ok false
          | some existsHash => insertArguments (i + 1) existsHash args)
        rw [insertEdges_eq distinct]
        by_cases fits : (argument.edgeIds.reverse ++ existsHash).Nodup
        · rw [if_pos fits]
          exact (inductionHypothesis (i + 1) typedLater fits).cons
        · rw [if_neg fits]
          apply iff_of_false Bool.false_ne_true
          rw [List.flatMap_cons, List.reverse_append, List.append_assoc]
          intro distinctAll
          exact fits (List.nodup_append.1 distinctAll).2.1
      · rw [raised]
        exact ⟨0, argument, rfl, problem⟩

/-- What a comparison of two arguments without the hash table finds -/
def Compared (left right : EdgeArgument) (unique : Bool) : Prop :=
  unique = true ↔ (left.edgeIds ++ right.edgeIds).Nodup

theorem Compared.swap {left right : EdgeArgument} {unique : Bool}
    (compared : Compared left right unique) : Compared right left unique := by
  rw [Compared] at compared ⊢
  rw [compared, List.nodup_append_comm]

theorem compared_edge {vpc : VlePathContainer} {edge : EdgeArgument} {edgeId : Int64}
    (simple : (pathEdgeIds vpc).Nodup) (isEdge : edge.edgeIds = [edgeId]) :
    Compared (.vlePath vpc) edge (!vpc.containsEdgeId edgeId) := by
  rw [Compared, isEdge, Bool.not_eq_true', ← Bool.not_eq_true, containsEdgeId_iff_mem,
    EdgeArgument.edgeIds, List.nodup_append]
  constructor
  · intro absent
    refine ⟨simple, List.nodup_singleton edgeId, ?_⟩
    intro other inside last isLast same
    rw [List.mem_singleton.1 isLast] at same
    exact absent (same ▸ inside)
  · rintro ⟨-, -, apart⟩ inside
    exact apart edgeId inside edgeId List.mem_cons_self rfl

theorem tryEnforcePathAndEdge_spec {path edge : EdgeArgument} (argno : Nat)
    (simple : path.edgeIds.Nodup) :
    tryEnforcePathAndEdge path argno edge = .ok none ∨
      (∃ unique, tryEnforcePathAndEdge path argno edge = .ok (some unique) ∧
        Compared path edge unique) ∨
      ∃ error, tryEnforcePathAndEdge path argno edge = .error error ∧
        edge.problem argno = some error := by
  cases path with
  | vlePath vpc =>
      cases edge with
      | graphId gid => exact .inr (.inl ⟨_, rfl, compared_edge simple rfl⟩)
      | scalar value =>
          cases value with
          | integer edgeId => exact .inr (.inl ⟨_, rfl, compared_edge simple rfl⟩)
          | _ => exact .inr (.inr ⟨_, rfl, rfl⟩)
      | _ => exact .inl rfl
  | _ => exact .inl rfl

theorem tryEnforceOneVleOneEdgeUniqueness_spec {left right : EdgeArgument}
    (simpleLeft : left.edgeIds.Nodup) (simpleRight : right.edgeIds.Nodup) :
    tryEnforceOneVleOneEdgeUniqueness [left, right] = .ok none ∨
      (∃ unique, tryEnforceOneVleOneEdgeUniqueness [left, right] = .ok (some unique) ∧
        Compared left right unique) ∨
      ∃ error, tryEnforceOneVleOneEdgeUniqueness [left, right] = .error error ∧
        Enforced 0 [left, right] [] (.error error) := by
  rw [tryEnforceOneVleOneEdgeUniqueness]
  rcases @tryEnforcePathAndEdge_spec _ right 1 simpleLeft with
    nothing | ⟨unique, found, compared⟩ | ⟨error, raised, problem⟩
  · rw [nothing]
    rcases @tryEnforcePathAndEdge_spec _ left 0 simpleRight with
      nothing | ⟨unique, found, compared⟩ | ⟨error, raised, problem⟩
    · exact .inl nothing
    · exact .inr (.inl ⟨unique, found, compared.swap⟩)
    · exact .inr (.inr ⟨error, raised, 0, left, rfl, problem⟩)
  · rw [found]
    exact .inr (.inl ⟨unique, rfl, compared⟩)
  · rw [raised]
    exact .inr (.inr ⟨error, rfl, 1, right, rfl, problem⟩)

theorem tryEnforceTwoVleUniqueness_spec {left right : EdgeArgument} {unique : Bool}
    (simpleLeft : left.edgeIds.Nodup) (simpleRight : right.edgeIds.Nodup)
    (found : tryEnforceTwoVleUniqueness [left, right] = some unique) :
    Compared left right unique := by
  rw [tryEnforceTwoVleUniqueness] at found
  obtain ⟨leftVpc, isLeft, foundLeft⟩ := Option.bind_eq_some_iff.1 found
  obtain ⟨rightVpc, isRight, answer⟩ := Option.bind_eq_some_iff.1 foundLeft
  cases left with
  | vlePath left =>
      cases right with
      | vlePath right =>
          cases isLeft
          cases isRight
          rw [Compared]
          split_ifs at answer with empty large
          · cases answer
            apply iff_of_true rfl
            rcases empty with empty | empty
            · rw [← length_pathEdgeIds, List.length_eq_zero_iff] at empty
              rw [EdgeArgument.edgeIds, empty]
              exact simpleRight
            · rw [← length_pathEdgeIds, List.length_eq_zero_iff] at empty
              rw [EdgeArgument.edgeIds, EdgeArgument.edgeIds, empty, List.append_nil]
              exact simpleLeft
          · cases answer
            rw [Bool.not_eq_true', ← Bool.not_eq_true, vlePathsHaveCommonEdge_iff,
              List.nodup_append]
            constructor
            · intro apart
              refine ⟨simpleLeft, simpleRight, ?_⟩
              intro edgeId inLeft other inRight same
              exact apart ⟨edgeId, inLeft, same ▸ inRight⟩
            · rintro ⟨-, -, apart⟩ ⟨edgeId, inLeft, inRight⟩
              exact apart edgeId inLeft edgeId inRight rfl
      | _ => cases isRight
  | _ => cases isLeft

theorem length_edgeIds_le (args : List EdgeArgument) :
    (args.flatMap EdgeArgument.edgeIds).length ≤ estimatedEdges args := by
  induction args with
  | nil => exact Nat.le_refl 0
  | cons argument args inductionHypothesis =>
      rw [List.flatMap_cons, List.length_append]
      have fixed (atMostOne : argument.edgeIds.length ≤ 1) :
          argument.edgeIds.length + (args.flatMap EdgeArgument.edgeIds).length ≤
            1 + estimatedEdges args :=
        Nat.add_le_add atMostOne inductionHypothesis
      cases argument with
      | vlePath container =>
          have few : (pathEdgeIds container).length ≤ container.graphidArray.length / 2 := by
            rw [length_pathEdgeIds, VlePathContainer.edgeCount]
            omega
          exact Nat.add_le_add few inductionHypothesis
      | graphId _ => exact fixed (Nat.le_refl 1)
      | scalar value =>
          cases value with
          | integer _ => exact fixed (Nat.le_refl 1)
          | _ => exact fixed (Nat.zero_le 1)
      | _ => exact fixed (Nat.zero_le 1)

end Outcomes

section Results

variable {args : List EdgeArgument}

theorem simple_edgeIds {argument : EdgeArgument}
    (simple : ∀ container, argument = .vlePath container → (pathEdgeIds container).Nodup) :
    argument.edgeIds.Nodup := by
  cases argument with
  | vlePath container => exact simple container rfl
  | graphId gid => exact List.nodup_singleton gid
  | scalar value =>
      cases value with
      | integer edgeId => exact List.nodup_singleton edgeId
      | _ => exact List.nodup_nil
  | _ => exact List.nodup_nil

theorem Compared.enforced {left right : EdgeArgument} {unique : Bool}
    (compared : Compared left right unique) : Enforced 0 [left, right] [] (.ok unique) := by
  rw [Enforced, List.append_nil, List.nodup_reverse, List.flatMap_cons, List.flatMap_singleton]
  exact compared

/-- What goes into the hash table, or is not worth one -/
theorem hashed_spec (typed : ∀ argument ∈ args, argument.Typed) :
    Enforced 0 args []
      (if estimatedEdges args < 2 then .ok true else insertArguments 0 [] args) := by
  split_ifs with few
  · apply iff_of_true rfl
    have short := length_edgeIds_le args
    rw [List.append_nil, List.nodup_reverse]
    cases edges : args.flatMap EdgeArgument.edgeIds with
    | nil => exact List.nodup_nil
    | cons edgeId others =>
        rw [edges, List.length_cons] at short
        have alone : others = [] := List.length_eq_zero_iff.1 (by omega)
        rw [alone]
        exact List.nodup_singleton edgeId
  · exact insertArguments_spec 0 typed List.nodup_nil

theorem agEnforceEdgeUniqueness_enforced
    (simple : ∀ container, .vlePath container ∈ args → (pathEdgeIds container).Nodup) :
    Enforced 0 args [] (agEnforceEdgeUniqueness args) := by
  rw [agEnforceEdgeUniqueness]
  rcases verifyArguments_spec 0 args [] with ⟨verified, typed⟩ | ⟨error, raised, enforced⟩
  case inr =>
    rw [raised]
    exact enforced
  rw [verified]
  match args, simple, typed with
  | [left, right], simple, typed =>
      have simpleLeft : left.edgeIds.Nodup := simple_edgeIds fun container isPath =>
        simple container (isPath ▸ List.mem_cons_self)
      have simpleRight : right.edgeIds.Nodup := simple_edgeIds fun container isPath =>
        simple container (isPath ▸ List.mem_cons_of_mem _ List.mem_cons_self)
      rcases tryEnforceOneVleOneEdgeUniqueness_spec simpleLeft simpleRight with
        nothing | ⟨unique, found, compared⟩ | ⟨error, raised, enforced⟩
      · simp only [nothing]
        cases found : tryEnforceTwoVleUniqueness [left, right] with
        | none => exact hashed_spec typed
        | some unique =>
            exact (tryEnforceTwoVleUniqueness_spec simpleLeft simpleRight found).enforced
      · simp only [found]
        exact compared.enforced
      · simp only [raised]
        exact enforced
  | [], _, typed => exact hashed_spec typed
  | [_], _, typed => exact hashed_spec typed
  | _ :: _ :: _ :: _, _, typed => exact hashed_spec typed

theorem answer_of_resolved
    (simple : ∀ container, .vlePath container ∈ args → (pathEdgeIds container).Nodup)
    (resolved : ∀ argument ∈ args, ∀ i, argument.problem i = none) :
    agEnforceEdgeUniqueness args = .ok (decide (args.flatMap EdgeArgument.edgeIds).Nodup) := by
  have enforced := agEnforceEdgeUniqueness_enforced simple
  cases answer : agEnforceEdgeUniqueness args with
  | ok unique =>
      rw [answer, Enforced, List.append_nil, List.nodup_reverse] at enforced
      exact congrArg Except.ok (Bool.eq_iff_iff.2 (enforced.trans decide_eq_true_iff.symm))
  | error error =>
      rw [answer] at enforced
      obtain ⟨place, argument, here, problem⟩ := enforced
      rw [resolved argument (List.mem_of_getElem? here)] at problem
      cases problem

/-- With or without the hash table, the answer is whether no edge stands twice; an error is that of
an argument that stands for no edges. -/
theorem agEnforceEdgeUniqueness_spec (args : List EdgeArgument)
    (simple : ∀ container, .vlePath container ∈ args → (pathEdgeIds container).Nodup) :
    ((∀ argument ∈ args, ∀ i, argument.problem i = none) →
      agEnforceEdgeUniqueness args = .ok (decide (args.flatMap EdgeArgument.edgeIds).Nodup)) ∧
    (∀ unique, agEnforceEdgeUniqueness args = .ok unique →
      (unique = true ↔ (args.flatMap EdgeArgument.edgeIds).Nodup)) ∧
    ∀ error, agEnforceEdgeUniqueness args = .error error →
      ∃ (i : Nat) (argument : EdgeArgument),
        args[i]? = some argument ∧ argument.problem i = some error := by
  have enforced := agEnforceEdgeUniqueness_enforced simple
  refine ⟨answer_of_resolved simple, ?_, ?_⟩
  · intro unique answer
    rw [answer, Enforced, List.append_nil, List.nodup_reverse] at enforced
    exact enforced
  · intro error raised
    rw [raised] at enforced
    obtain ⟨i, argument, here, problem⟩ := enforced
    rw [Nat.zero_add] at problem
    exact ⟨i, argument, here, problem⟩

/-- A path of two edges, and one of these edges -/
theorem agEnforceEdgeUniqueness_spec_path :
    ∃ container : VlePathContainer, container.graphidArray =
        [844424930131969, 1407374883553281, 844424930131970, 1407374883553282,
        844424930131971] ∧
      agEnforceEdgeUniqueness [.vlePath container, .graphId 1407374883553282] = .ok false := by
  let container : VlePathContainer :=
    ⟨[844424930131969, 1407374883553281, 844424930131970, 1407374883553282, 844424930131971], rfl⟩
  have simple : ∀ other,
      .vlePath other ∈ [EdgeArgument.vlePath container, .graphId 1407374883553282] →
      (pathEdgeIds other).Nodup := by
    intro other inside
    rcases List.mem_cons.1 inside with isPath | isEdge
    · cases isPath
      decide
    · cases List.mem_singleton.1 isEdge
  have resolved : ∀ argument ∈ [EdgeArgument.vlePath container, .graphId 1407374883553282], ∀ i,
      argument.problem i = none := by
    intro argument inside i
    rcases List.mem_cons.1 inside with rfl | isEdge
    · rfl
    · rw [List.mem_singleton.1 isEdge]
      rfl
  have repeated : ¬([EdgeArgument.vlePath container, .graphId 1407374883553282].flatMap
      EdgeArgument.edgeIds).Nodup := by
    decide
  have answer := (agEnforceEdgeUniqueness_spec _ simple).1 resolved
  rw [decide_eq_false repeated] at answer
  exact ⟨container, rfl, answer⟩

theorem answer_of_graphIds (gids : List Int64) :
    agEnforceEdgeUniqueness (gids.map .graphId) = .ok (decide gids.Nodup) := by
  have edges : (gids.map EdgeArgument.graphId).flatMap EdgeArgument.edgeIds = gids := by
    rw [List.flatMap_map]
    exact List.flatMap_singleton' gids
  rw [answer_of_resolved, edges]
  · intro container inside
    obtain ⟨gid, -, impossible⟩ := List.mem_map.1 inside
    cases impossible
  · intro argument inside i
    obtain ⟨gid, -, rfl⟩ := List.mem_map.1 inside
    rfl

theorem decide_eq_unless {p q : Prop} [Decidable p] [Decidable q] (opposite : p ↔ ¬q) :
    decide p = if q then false else true := by
  by_cases holds : q
  · rw [if_pos holds, decide_eq_false (not_not.2 holds ∘ opposite.1)]
  · rw [if_neg holds, decide_eq_true (opposite.2 holds)]

/-- The forms for two, three and four edges are the general one. -/
theorem agEnforceEdgeUniqueness_fixed (gid1 gid2 gid3 gid4 : Int64) :
    agEnforceEdgeUniqueness [.graphId gid1, .graphId gid2] =
        .ok (agEnforceEdgeUniqueness2 gid1 gid2) ∧
      agEnforceEdgeUniqueness [.graphId gid1, .graphId gid2, .graphId gid3] =
        .ok (agEnforceEdgeUniqueness3 gid1 gid2 gid3) ∧
      agEnforceEdgeUniqueness [.graphId gid1, .graphId gid2, .graphId gid3, .graphId gid4] =
        .ok (agEnforceEdgeUniqueness4 gid1 gid2 gid3 gid4) := by
  refine ⟨(answer_of_graphIds [gid1, gid2]).trans (congrArg Except.ok (decide_eq_unless ?_)),
    (answer_of_graphIds [gid1, gid2, gid3]).trans (congrArg Except.ok (decide_eq_unless ?_)),
    (answer_of_graphIds [gid1, gid2, gid3, gid4]).trans
      (congrArg Except.ok (decide_eq_unless ?_))⟩ <;>
    simp only [List.nodup_cons, List.mem_cons, List.not_mem_nil, List.nodup_nil, or_false,
      not_false_eq_true, and_true, not_or, and_assoc]

end Results

section Searches

theorem length_graphidArray (startId : GraphId) (walk : List WalkStep) :
    (graphidArray startId walk).length = 2 * walk.length + 1 := by
  induction walk generalizing startId with
  | nil => rfl
  | cons step walk inductionHypothesis =>
      have later := inductionHypothesis step.nextVertexId
      unfold graphidArray at later ⊢
      rw [List.length_cons] at later
      rw [List.flatMap_cons, List.length_cons, List.length_append, List.length_cons,
        List.length_singleton, List.length_cons]
      omega

theorem getElem?_graphidArray {startId : GraphId} {walk : List WalkStep} {place : Nat}
    {step : WalkStep} (here : walk[place]? = some step) :
    (graphidArray startId walk)[place * 2 + 1]? = some step.edgeId := by
  induction walk generalizing startId place with
  | nil => cases here
  | cons first walk inductionHypothesis =>
      cases place with
      | zero =>
          cases here
          rfl
      | succ place =>
          have later := @inductionHypothesis first.nextVertexId place here
          rw [show (place + 1) * 2 + 1 = place * 2 + 1 + 2 by omega]
          exact later

/-- The edges of a container are those of the walk. -/
theorem pathEdgeIds_graphidArray {vpc : VlePathContainer} {startId : GraphId}
    {walk : List WalkStep} (isArray : vpc.graphidArray = graphidArray startId walk) :
    pathEdgeIds vpc = walk.map WalkStep.edgeId := by
  have count : vpc.edgeCount = walk.length := by
    rw [VlePathContainer.edgeCount, isArray, length_graphidArray]
    omega
  apply List.ext_getElem?
  intro place
  rw [pathEdgeIds, isArray, count, List.getElem?_map, List.getElem?_map]
  cases here : walk[place]? with
  | none =>
      have beyond := List.getElem?_eq_none_iff.1 here
      rw [List.getElem?_eq_none (by rw [List.length_range]; exact beyond)]
      rfl
  | some step =>
      have inside := (List.getElem?_eq_some_iff.1 here).1
      rw [List.getElem?_range inside, Option.map_some, getElem?_graphidArray here]
      rfl

/-- The array of a container in which no edge stands twice -/
def IsSimpleArray (array : List GraphId) : Prop :=
  ∃ odd : array.length % 2 = 1, (pathEdgeIds ⟨array, odd⟩).Nodup

theorem graphidArray_simple {walk : List WalkStep} (startId : GraphId)
    (distinct : (walk.map WalkStep.edgeId).Nodup) : IsSimpleArray (graphidArray startId walk) := by
  refine ⟨?_, ?_⟩
  · rw [length_graphidArray]
    omega
  · rw [pathEdgeIds_graphidArray rfl]
    exact distinct

theorem walkContainer_simple {graph : VleGraph} {pattern : VlePattern} {root : Root}
    {startId : GraphId} {walk : List WalkStep} (isFound : IsFound graph pattern root startId walk) :
    IsSimpleArray (walkContainer root startId walk) := by
  rw [walkContainer]
  split_ifs with reversed
  · rw [← graphidArray_reverseWalk]
    apply graphidArray_simple
    rw [reverseWalk_edgeIds]
    exact List.nodup_reverse.2 isFound.distinct
  · exact graphidArray_simple startId isFound.distinct

theorem containerFrom_simple {graph : VleGraph} {pattern : VlePattern} {root : Root}
    {startId : GraphId} {array : List GraphId}
    (isContainer : IsContainerFrom graph pattern root startId array) : IsSimpleArray array := by
  rcases isContainer with ⟨-, rfl⟩ | ⟨walk, isFound, rfl⟩
  · exact @graphidArray_simple [] startId List.nodup_nil
  · exact walkContainer_simple isFound

/-- All paths that a context puts out, from whatever vertices it starts, in whatever direction
and whatever it has searched before, are containers without an edge that stands twice. -/
theorem iteratePaths_simple {Entry : Type} {graph : VleGraph} (sources : VleSources graph Entry)
    (pattern : VlePattern) (root : Root) (numbering : sources.OneNumbering root.direction) :
    ∃ enough, ∀ fuel, enough ≤ fuel → ∀ edgeState, sources.Fresh edgeState →
      ∃ containers after, iteratePaths sources pattern root fuel edgeState =
          .ok (some (containers, after)) ∧ sources.Fresh after ∧
        ∀ array ∈ containers, IsSimpleArray array := by
  obtain ⟨enough, search⟩ := @iterateStarts_ok _ _ sources pattern root numbering
    root.startVertexId root.nextVertex
  refine ⟨enough, fun fuel bound edgeState fresh => ?_⟩
  obtain ⟨containers, after, ran, later, members⟩ := search fuel bound edgeState fresh
  refine ⟨containers, after, ran, later, fun array inside => ?_⟩
  obtain ⟨start, isContainer⟩ := members array inside
  exact containerFrom_simple isContainer

/-- The root of all paths of the example graph -/
def allRoot : Root :=
  ⟨.pathsAll, 844424930131969, 0, .right, forkGraph.vertices.tail, false, false⟩

theorem iteratePaths_simple_fork :
    (packedSources forkGraph).OneNumbering allRoot.direction ∧
      (packedSources forkGraph).Fresh (packedSources forkGraph).newEdgeState ∧
      ∃ enough, ∀ fuel, enough ≤ fuel → ∀ edgeState, (packedSources forkGraph).Fresh edgeState →
        ∃ containers after, iteratePaths (packedSources forkGraph) twoHops allRoot fuel edgeState =
            .ok (some (containers, after)) ∧ (packedSources forkGraph).Fresh after ∧
          ∀ array ∈ containers, IsSimpleArray array :=
  ⟨packedSources_oneNumbering _ _, (packedSources forkGraph).fresh_new,
    iteratePaths_simple (packedSources forkGraph) twoHops allRoot
      (packedSources_oneNumbering _ _)⟩

end Searches

end Age.Vle.EdgeUniqueness
