import Mathlib.Data.List.NodupEquivFin
import Age.Executor.SetClause
import Age.Lib.Odometer

/-!
# The flat enumerator of factorized bindings

The enumerator goes through the index vectors of some factors, the smallest factor first.  A
callback may refuse an index, and two factors of one uniqueness group do not take the same edge.
The enumerator keeps an index for each factor and, for each depth, the edge that was selected.
-/

namespace Age.Executor.Factorized

open Odometer

section Definitions

/-- The callbacks and the factors of `AgeBindingFlatEnumerator`.  The callback that accepts an
index may read the indexes of all factors from its state; a missing callback is `none`. -/
structure FlatFactors where
  factorCount : Nat
  logicalCounts : Nat → Nat
  enumerationOrder : List Nat
  acceptCallback : Option ((Nat → Int) → Nat → Nat → Bool)
  edgeIdCallback : Option (Nat → Nat → Option GraphId)
  uniquenessGroups : Option (Nat → Finset Nat)

/-- What the calls change: the index of each factor, and for each depth the selected edge -/
structure FlatEnumerator where
  indexes : Nat → Int
  selectedEdgeIds : Nat → Option GraphId
  active : Bool
  started : Bool

namespace FlatFactors

variable (factors : FlatFactors)

/-- The factor at a depth of the enumeration order -/
def factorAt (depth : Nat) : Nat := factors.enumerationOrder[depth]?.getD 0

/-- The callback accepts, or there is none. -/
def accepts (indexes : Nat → Int) (factor index : Nat) : Bool :=
  match factors.acceptCallback with
  | some accept => accept indexes factor index
  | none => true

def edgeId (factor index : Nat) : Option GraphId :=
  match factors.edgeIdCallback with
  | some edgeId => edgeId factor index
  | none => none

/-- `bms_overlap` of the groups of two factors -/
def overlap (first second : Nat) : Bool :=
  match factors.uniquenessGroups with
  | some groups => (groups first ∩ groups second).Nonempty
  | none => false

/-- An earlier depth has selected the edge, for a factor of the same group. -/
def conflicts (selectedEdgeIds : Nat → Option GraphId) (depth factor : Nat) :
    Option GraphId → Bool
  | none => false
  | some edgeId => (List.range depth).any fun previousDepth =>
      selectedEdgeIds previousDepth = some edgeId &&
        factors.overlap factor (factors.factorAt previousDepth)

/-- The loop over the indexes of a factor, up to the first that is taken -/
def tryIndexes (depth : Nat) : (turns tupleIndex : Nat) → FlatEnumerator →
    Bool × FlatEnumerator
  | 0, _, state => (false, state)
  | turns + 1, tupleIndex, state =>
      let factor := factors.factorAt depth
      let state := { state with indexes := Function.update state.indexes factor tupleIndex }
      if !factors.accepts state.indexes factor tupleIndex then
        tryIndexes depth turns (tupleIndex + 1) state
      else
        let edgeId := factors.edgeId factor tupleIndex
        if factors.conflicts state.selectedEdgeIds depth factor edgeId then
          tryIndexes depth turns (tupleIndex + 1) state
        else
          (true, { state with
            selectedEdgeIds := Function.update state.selectedEdgeIds depth edgeId })

/-- One turn of the loop over the depths -/
def turn (depth : Nat) (state : FlatEnumerator) : Turn FlatEnumerator :=
  let factor := factors.factorAt depth
  let tupleIndex := (state.indexes factor + 1).toNat
  let state := { state with selectedEdgeIds := Function.update state.selectedEdgeIds depth none }
  match factors.tryIndexes depth (factors.logicalCounts factor - tupleIndex) tupleIndex state with
  | (true, state) =>
      if depth + 1 = factors.factorCount then .emit state
      else
        .goto (depth + 1) { state with
          indexes := Function.update state.indexes (factors.factorAt (depth + 1)) (-1)
          selectedEdgeIds := Function.update state.selectedEdgeIds (depth + 1) none }
  | (false, state) =>
      let state := { state with
        indexes := Function.update state.indexes factor (-1)
        selectedEdgeIds := Function.update state.selectedEdgeIds depth none }
      match depth with
      | 0 => .finish { state with active := false, started := false }
      | depth + 1 => .goto depth state

/-- `age_binding_flat_enumerator_next` -/
def next (fuel : Nat) (state : FlatEnumerator) : Option (Bool × FlatEnumerator) :=
  if !state.active then some (false, state)
  else
    let depth := if state.started then factors.factorCount - 1 else 0
    call factors.turn fuel depth { state with started := true }

/-- The index vector that a caller reads after a call, by factor -/
def vectorOf (state : FlatEnumerator) : List Int :=
  (List.range factors.factorCount).map state.indexes

end FlatFactors

/-- One step of the sort of the factors: the selected one goes before those that are larger. -/
def insertFactor (logicalCounts : Nat → Nat) (selected : Nat) : List Nat → List Nat
  | [] => [selected]
  | previous :: rest =>
      if logicalCounts previous > logicalCounts selected then
        previous :: insertFactor logicalCounts selected rest
      else selected :: previous :: rest

/-- The order of the enumeration, the smallest factor first; it is built from its end. -/
def smallestFirst (logicalCounts : Nat → Nat) (factorCount : Nat) : List Nat :=
  ((List.range factorCount).foldl (fun order factor => insertFactor logicalCounts factor order)
    []).reverse

/-- The state after `age_binding_begin_flat_enumerator` -/
def beginFlatEnumerator : FlatEnumerator where
  indexes := fun _ => -1
  selectedEdgeIds := fun _ => none
  active := true
  started := false

end Definitions

section Order

variable {logicalCounts : Nat → Nat}

theorem insertFactor_perm (selected : Nat) (order : List Nat) :
    (insertFactor logicalCounts selected order).Perm (selected :: order) := by
  induction order with
  | nil => exact .refl _
  | cons previous rest inductionHypothesis =>
      rw [insertFactor]
      split_ifs
      · exact (inductionHypothesis.cons previous).trans (.swap _ _ _)
      · exact .refl _

/-- The sort moves the factors only. -/
theorem smallestFirst_perm (factorCount : Nat) :
    (smallestFirst logicalCounts factorCount).Perm (List.range factorCount) := by
  have moved (left order : List Nat) :
      (left.foldl (fun order factor => insertFactor logicalCounts factor order) order).Perm
        (left ++ order) := by
    induction left generalizing order with
    | nil => exact .refl _
    | cons factor rest inductionHypothesis =>
        exact (inductionHypothesis _).trans
          (((insertFactor_perm factor order).append_left rest).trans List.perm_middle)
  refine (List.reverse_perm _).trans ((moved _ _).trans ?_)
  rw [List.append_nil]

end Order

section Prefixes

/-- The indexes of the first factors of an order; the others have none. -/
def indexesOf (order chosen : List Nat) (factor : Nat) : Int :=
  match (order.zip chosen).lookup factor with
  | some index => index
  | none => -1

variable {order chosen : List Nat}

theorem indexesOf_nil (order : List Nat) : indexesOf order [] = fun _ => -1 := by
  funext factor
  rw [indexesOf, List.zip_nil_right, List.lookup_nil]

theorem lookup_zip_append {factor : Nat} (distinct : order.Nodup)
    (isFactor : order[chosen.length]? = some factor) (index other : Nat) :
    (order.zip (chosen ++ [index])).lookup other =
      if other = factor then some index else (order.zip chosen).lookup other := by
  induction chosen generalizing order with
  | nil =>
      cases order with
      | nil => cases isFactor
      | cons first rest =>
          obtain isFirst : first = factor := Option.some.inj isFactor
          rw [isFirst]
          by_cases same : other = factor
          · simp [same]
          · rw [if_neg same]
            simp [List.lookup_cons, beq_false_of_ne same]
  | cons head chosen inductionHypothesis =>
      cases order with
      | nil => cases isFactor
      | cons first rest =>
          obtain ⟨fresh, distinctRest⟩ := List.nodup_cons.1 distinct
          rw [List.length_cons, List.getElem?_cons_succ] at isFactor
          have later := inductionHypothesis distinctRest isFactor
          rw [List.cons_append, List.zip_cons_cons, List.zip_cons_cons, List.lookup_cons,
            List.lookup_cons, later]
          by_cases same : other = first
          · subst same
            have different : other ≠ factor := fun isSame =>
              fresh (isSame ▸ List.mem_of_getElem? isFactor)
            simp [different]
          · rw [beq_false_of_ne same]

/-- One more factor has an index. -/
theorem indexesOf_append {factor : Nat} (distinct : order.Nodup)
    (isFactor : order[chosen.length]? = some factor) (index : Nat) :
    indexesOf order (chosen ++ [index]) =
      Function.update (indexesOf order chosen) factor index := by
  funext other
  rw [indexesOf, lookup_zip_append distinct isFactor]
  by_cases same : other = factor
  · subst same
    rw [if_pos rfl, Function.update_self]
  · rw [if_neg same, Function.update_of_ne same]
    rfl

/-- The next factor has no index yet. -/
theorem indexesOf_next {factor : Nat} (distinct : order.Nodup)
    (isFactor : order[chosen.length]? = some factor) : indexesOf order chosen factor = -1 := by
  have looked : (order.zip chosen).lookup factor = none := by
    induction chosen generalizing order with
    | nil => rw [List.zip_nil_right, List.lookup_nil]
    | cons head chosen inductionHypothesis =>
        cases order with
        | nil => cases isFactor
        | cons first rest =>
            obtain ⟨fresh, distinctRest⟩ := List.nodup_cons.1 distinct
            rw [List.length_cons, List.getElem?_cons_succ] at isFactor
            have different : factor ≠ first := fun isSame =>
              fresh (isSame ▸ List.mem_of_getElem? isFactor)
            rw [List.zip_cons_cons, List.lookup_cons, beq_false_of_ne different]
            exact inductionHypothesis distinctRest isFactor
  rw [indexesOf, looked]

/-- The factors of the order that are left out of the prefix have no index. -/
theorem indexesOf_take (order : List Nat) (w : Nat → Nat) (length factor : Nat) :
    indexesOf order ((order.map w).take length) factor =
      if factor ∈ order.take length then (w factor : Int) else -1 := by
  have looked : (order.zip ((order.map w).take length)).lookup factor =
      if factor ∈ order.take length then some (w factor) else none := by
    induction order generalizing length with
    | nil => simp
    | cons first rest inductionHypothesis =>
        cases length with
        | zero => simp
        | succ length =>
            rw [List.map_cons, List.take_succ_cons, List.take_succ_cons, List.zip_cons_cons,
              List.lookup_cons, inductionHypothesis]
            by_cases same : factor = first
            · simp [same]
            · rw [beq_false_of_ne same]
              simp [same]
  rw [indexesOf, looked]
  split_ifs <;> rfl

/-- A choice for each factor of the order is a function of the factor. -/
theorem exists_map_of_length (distinct : order.Nodup) {choice : List Nat}
    (length : choice.length = order.length) : ∃ w : Nat → Nat, choice = order.map w := by
  induction order generalizing choice with
  | nil => exact ⟨fun _ => 0, List.length_eq_zero_iff.1 length⟩
  | cons first rest inductionHypothesis =>
      cases choice with
      | nil => cases length
      | cons index later =>
          obtain ⟨fresh, distinctRest⟩ := List.nodup_cons.1 distinct
          obtain ⟨w, rfl⟩ := inductionHypothesis distinctRest (Nat.succ.inj length)
          refine ⟨Function.update w first index, ?_⟩
          rw [List.map_cons, Function.update_self]
          refine congrArg _ (List.map_congr_left fun factor inside => ?_)
          rw [Function.update_of_ne fun same : factor = first => fresh (same ▸ inside)]

end Prefixes

section Turns

variable {factors : FlatFactors} {chosen : List Nat} {index nextIndex : Nat}

namespace FlatFactors

/-- The edges that the chosen indexes have selected -/
def selectedOf (factors : FlatFactors) (chosen : List Nat) (depth : Nat) : Option GraphId :=
  (chosen[depth]?).bind fun index => factors.edgeId (factors.factorAt depth) index

/-- An index of the next factor goes with those that are chosen. -/
def fits (factors : FlatFactors) (chosen : List Nat) (index : Nat) : Bool :=
  let factor := factors.factorAt chosen.length
  factors.accepts (indexesOf factors.enumerationOrder (chosen ++ [index])) factor index &&
    !factors.conflicts (factors.selectedOf chosen) chosen.length factor
      (factors.edgeId factor index)

/-- The number of indexes at a depth -/
def countAt (factors : FlatFactors) (depth : Nat) : Nat :=
  factors.logicalCounts (factors.factorAt depth)

theorem conflicts_congr {first second : Nat → Option GraphId} {depth factor : Nat}
    (same : ∀ previous < depth, first previous = second previous) (edgeId : Option GraphId) :
    factors.conflicts first depth factor edgeId = factors.conflicts second depth factor edgeId := by
  cases edgeId with
  | none => rfl
  | some edgeId =>
      rw [conflicts, conflicts, Bool.eq_iff_iff, List.any_eq_true, List.any_eq_true]
      refine exists_congr fun previous => and_congr_right fun inside => ?_
      rw [same previous (List.mem_range.1 inside)]

/-- The enumerator stands before an index of a factor, with indexes for those before it. -/
structure Stands (factors : FlatFactors) (state : FlatEnumerator) (chosen : List Nat)
    (nextIndex : Nat) : Prop where
  inside : chosen.length < factors.factorCount
  indexes : state.indexes = Function.update (indexesOf factors.enumerationOrder chosen)
    (factors.factorAt chosen.length) ((nextIndex : Int) - 1)
  selected : ∀ depth < chosen.length, state.selectedEdgeIds depth = factors.selectedOf chosen depth

/-- What the loop over the indexes of a factor finds -/
theorem tryIndexes_spec (turns : Nat) {state : FlatEnumerator}
    (isBase : ∀ index : Nat, Function.update state.indexes (factors.factorAt chosen.length) index =
      indexesOf factors.enumerationOrder (chosen ++ [index]))
    (selected : ∀ depth < chosen.length,
      state.selectedEdgeIds depth = factors.selectedOf chosen depth)
    (rest : turns = factors.countAt chosen.length - nextIndex) :
    ∃ after, factors.tryIndexes chosen.length turns nextIndex state =
        ((firstFrom factors.countAt factors.fits chosen nextIndex).isSome, after) ∧
      after.active = state.active ∧ after.started = state.started ∧
      (∀ value, Function.update after.indexes (factors.factorAt chosen.length) value =
        Function.update state.indexes (factors.factorAt chosen.length) value) ∧
      (∀ depth < chosen.length,
        after.selectedEdgeIds depth = factors.selectedOf chosen depth) ∧
      ∀ index, firstFrom factors.countAt factors.fits chosen nextIndex = some index →
        after.indexes = indexesOf factors.enumerationOrder (chosen ++ [index]) ∧
        after.selectedEdgeIds chosen.length =
          factors.edgeId (factors.factorAt chosen.length) index := by
  induction turns generalizing nextIndex state with
  | zero =>
      have none := @firstFrom_none factors.countAt factors.fits chosen nextIndex (by omega)
      rw [none]
      exact ⟨state, rfl, rfl, rfl, fun _ => rfl, selected, nofun⟩
  | succ turns inductionHypothesis =>
      rw [firstFrom_succ (by omega)]
      have here := isBase nextIndex
      have conflicting := @conflicts_congr factors _ _ _ (factors.factorAt chosen.length) selected
        (factors.edgeId (factors.factorAt chosen.length) nextIndex)
      -- A refused index is forgotten when the next one is tried.
      have later := @inductionHypothesis (nextIndex + 1)
        { state with indexes := indexesOf factors.enumerationOrder (chosen ++ [nextIndex]) }
        (fun index => by rw [← here, Function.update_idem]; exact isBase index) selected (by omega)
      obtain ⟨after, tried, active, started, unchanged, selected', found⟩ := later
      have unchanged' (value : Int) :
          Function.update after.indexes (factors.factorAt chosen.length) value =
            Function.update state.indexes (factors.factorAt chosen.length) value := by
        rw [unchanged, ← here, Function.update_idem]
      rw [tryIndexes]
      simp only [here, conflicting]
      cases accepted : factors.accepts
        (indexesOf factors.enumerationOrder (chosen ++ [nextIndex]))
        (factors.factorAt chosen.length) nextIndex with
      | false =>
          have notFits : factors.fits chosen nextIndex = false := by simp [fits, accepted]
          rw [notFits, if_neg Bool.false_ne_true]
          exact ⟨after, tried, active, started, unchanged', selected', found⟩
      | true =>
          cases isConflict : factors.conflicts (factors.selectedOf chosen) chosen.length
            (factors.factorAt chosen.length)
            (factors.edgeId (factors.factorAt chosen.length) nextIndex) with
          | true =>
              have notFits : factors.fits chosen nextIndex = false := by
                simp [fits, accepted, isConflict]
              rw [notFits, if_neg Bool.false_ne_true]
              exact ⟨after, tried, active, started, unchanged', selected', found⟩
          | false =>
              have isFit : factors.fits chosen nextIndex = true := by
                simp [fits, accepted, isConflict]
              rw [isFit, if_pos rfl]
              refine ⟨_, rfl, rfl, rfl, fun value => ?_, fun depth before => ?_, ?_⟩
              · dsimp only
                rw [← here, Function.update_idem]
              · dsimp only
                rw [Function.update_of_ne (Nat.ne_of_lt before)]
                exact selected depth before
              · rintro index isIndex
                cases Option.some.inj isIndex
                exact ⟨rfl, Function.update_self _ _ _⟩

/-- The order has every factor once. -/
def Ordered (factors : FlatFactors) : Prop :=
  factors.enumerationOrder.Perm (List.range factors.factorCount)

variable (ordered : factors.Ordered)

include ordered

theorem Ordered.nodup : factors.enumerationOrder.Nodup :=
  ordered.nodup_iff.2 List.nodup_range

theorem Ordered.getElem? {depth : Nat} (inside : depth < factors.factorCount) :
    factors.enumerationOrder[depth]? = some (factors.factorAt depth) := by
  have length := ordered.length_eq
  rw [List.length_range] at length
  rw [factorAt, List.getElem?_eq_getElem (by omega)]
  rfl

omit ordered in
theorem selectedOf_append {depth : Nat} (before : depth < chosen.length) :
    factors.selectedOf (chosen ++ [index]) depth = factors.selectedOf chosen depth := by
  rw [selectedOf, selectedOf, List.getElem?_append_left before]

omit ordered in
theorem selectedOf_last :
    factors.selectedOf (chosen ++ [index]) chosen.length =
      factors.edgeId (factors.factorAt chosen.length) index := by
  rw [selectedOf, List.getElem?_concat_length]
  rfl

/-- The loop of a turn, from the state where it stands -/
theorem tryIndexes_of_stands {state : FlatEnumerator}
    (stands : factors.Stands state chosen nextIndex) :
    (state.indexes (factors.factorAt chosen.length) + 1).toNat = nextIndex ∧
    ∃ after, factors.tryIndexes chosen.length (factors.countAt chosen.length - nextIndex) nextIndex
        { state with selectedEdgeIds := Function.update state.selectedEdgeIds chosen.length none } =
          ((firstFrom factors.countAt factors.fits chosen nextIndex).isSome, after) ∧
      after.active = state.active ∧ after.started = state.started ∧
      Function.update after.indexes (factors.factorAt chosen.length) (-1) =
        indexesOf factors.enumerationOrder chosen ∧
      (∀ depth < chosen.length, after.selectedEdgeIds depth = factors.selectedOf chosen depth) ∧
      ∀ index, firstFrom factors.countAt factors.fits chosen nextIndex = some index →
        after.indexes = indexesOf factors.enumerationOrder (chosen ++ [index]) ∧
        after.selectedEdgeIds chosen.length =
          factors.edgeId (factors.factorAt chosen.length) index := by
  have isFactor := ordered.getElem? stands.inside
  obtain ⟨after, tried, active, started, unchanged, selected, found⟩ :=
    @tryIndexes_spec factors chosen nextIndex (factors.countAt chosen.length - nextIndex)
      { state with selectedEdgeIds := Function.update state.selectedEdgeIds chosen.length none }
      (fun index => by
        rw [stands.indexes, Function.update_idem, indexesOf_append ordered.nodup isFactor])
      (fun depth before => by
        dsimp only
        rw [Function.update_of_ne (Nat.ne_of_lt before)]
        exact stands.selected depth before) rfl
  refine ⟨?_, after, tried, active, started, ?_, selected, found⟩
  · rw [stands.indexes, Function.update_self]
    omega
  · rw [unchanged]
    dsimp only
    rw [stands.indexes, Function.update_idem, ← indexesOf_next ordered.nodup isFactor,
      Function.update_eq_self]

/-- The indexes of the factors in the order of the factors -/
def vectorAt (factors : FlatFactors) (chosen : List Nat) : List Int :=
  (List.range factors.factorCount).map (indexesOf factors.enumerationOrder chosen)

/-- A turn does what the enumeration does. -/
theorem turn_lawful : Lawful factors.turn factors.vectorOf factors.factorCount factors.countAt
    factors.fits factors.vectorAt factors.Stands where
  deeper {state chosen nextIndex index} stands isFirst notLast := by
    obtain ⟨isNext, after, tried, -, -, -, selected, found⟩ :=
      tryIndexes_of_stands ordered stands
    obtain ⟨indexes, edgeId⟩ := found index isFirst
    rw [isFirst, Option.isSome_some] at tried
    have turned : factors.turn chosen.length state = .goto (chosen.length + 1) { after with
        indexes := Function.update after.indexes (factors.factorAt (chosen.length + 1)) (-1)
        selectedEdgeIds := Function.update after.selectedEdgeIds (chosen.length + 1) none } := by
      simp only [turn, isNext]
      rw [← countAt, tried]
      exact if_neg (Nat.ne_of_lt notLast)
    refine ⟨_, turned, by rwa [List.length_append, List.length_singleton], ?_, ?_⟩
    · rw [List.length_append, List.length_singleton]
      dsimp only
      rw [indexes]
      rfl
    · intro depth before
      rw [List.length_append, List.length_singleton] at before
      dsimp only
      rw [Function.update_of_ne (Nat.ne_of_lt before)]
      rcases Nat.lt_succ_iff_lt_or_eq.1 before with earlier | rfl
      · rw [selectedOf_append earlier]
        exact selected depth earlier
      · rw [selectedOf_last]
        exact edgeId
  full {state chosen nextIndex index} stands isFirst last := by
    obtain ⟨isNext, after, tried, -, -, -, selected, found⟩ :=
      tryIndexes_of_stands ordered stands
    obtain ⟨indexes, edgeId⟩ := found index isFirst
    rw [isFirst, Option.isSome_some] at tried
    have turned : factors.turn chosen.length state = .emit after := by
      simp only [turn, isNext]
      rw [← countAt, tried]
      exact if_pos last
    refine ⟨after, turned, ⟨stands.inside, ?_, selected⟩, ?_⟩
    · rw [indexes, indexesOf_append ordered.nodup (ordered.getElem? stands.inside)]
      push_cast
      rw [Int.add_sub_cancel]
    · rw [vectorOf, vectorAt, indexes]
  back {state chosen last nextIndex} stands isNone := by
    obtain ⟨isNext, after, tried, -, -, unchanged, selected, -⟩ :=
      tryIndexes_of_stands ordered stands
    rw [isNone, Option.isSome_none] at tried
    have inside := stands.inside
    rw [List.length_append, List.length_singleton] at inside isNext tried unchanged selected ⊢
    have turned : factors.turn (chosen.length + 1) state = .goto chosen.length { after with
        indexes := Function.update after.indexes (factors.factorAt (chosen.length + 1)) (-1)
        selectedEdgeIds := Function.update after.selectedEdgeIds (chosen.length + 1) none } := by
      simp only [turn, isNext]
      rw [← countAt, tried]
    refine ⟨_, turned, by omega, ?_, ?_⟩
    · dsimp only
      rw [unchanged, indexesOf_append ordered.nodup (ordered.getElem? (by omega))]
      push_cast
      rw [Int.add_sub_cancel]
    · intro depth before
      dsimp only
      rw [Function.update_of_ne (by omega), selected depth (by omega), selectedOf_append before]
  out {state nextIndex} stands isNone := by
    obtain ⟨isNext, after, tried, -⟩ := tryIndexes_of_stands ordered stands
    rw [isNone, Option.isSome_none] at tried
    rw [List.length_nil] at isNext tried
    have turned : factors.turn 0 state = .finish { after with
        indexes := Function.update after.indexes (factors.factorAt 0) (-1)
        selectedEdgeIds := Function.update after.selectedEdgeIds 0 none
        active := false
        started := false } := by
      simp only [turn, isNext]
      rw [← countAt, tried]
    exact ⟨_, turned⟩

omit ordered in
/-- The flags of an enumeration that goes on -/
def Awake (state : FlatEnumerator) : Prop := state.active = true ∧ state.started = true

omit ordered in
theorem tryIndexes_flags {depth turns tupleIndex : Nat} {state : FlatEnumerator} :
    (factors.tryIndexes depth turns tupleIndex state).2.active = state.active ∧
      (factors.tryIndexes depth turns tupleIndex state).2.started = state.started := by
  induction turns generalizing tupleIndex state with
  | zero => exact ⟨rfl, rfl⟩
  | succ turns inductionHypothesis =>
      rw [tryIndexes]
      dsimp only
      split_ifs
      · exact inductionHypothesis
      · exact inductionHypothesis
      · exact ⟨rfl, rfl⟩

omit ordered in
theorem turn_keeps : Keeps factors.turn Awake := by
  intro depth state awake
  have flags := @tryIndexes_flags factors depth
    (factors.logicalCounts (factors.factorAt depth) -
      (state.indexes (factors.factorAt depth) + 1).toNat)
    (state.indexes (factors.factorAt depth) + 1).toNat
    { state with selectedEdgeIds := Function.update state.selectedEdgeIds depth none }
  simp only [turn]
  rcases isTried : factors.tryIndexes depth _ _ _ with ⟨_ | _, after⟩ <;> rw [isTried] at flags
  · cases depth with
    | zero => trivial
    | succ depth => exact ⟨flags.1.trans awake.1, flags.2.trans awake.2⟩
  · dsimp only
    split_ifs
    · exact ⟨flags.1.trans awake.1, flags.2.trans awake.2⟩
    · exact ⟨flags.1.trans awake.1, flags.2.trans awake.2⟩

/-- The calls give out the vectors of the tree of fitting indexes. -/
theorem outputs_eq (positive : 0 < factors.factorCount) :
    ∃ enough, ∀ calls fuel, enough ≤ calls → enough ≤ fuel →
      outputs (factors.next fuel) factors.vectorOf calls beginFlatEnumerator =
        some ((Backtrack.leaves (options factors.countAt factors.fits) some factors.factorCount
          []).map factors.vectorAt) := by
  refine outputs_complete (turn_lawful ordered) positive turn_keeps ?_
    (⟨rfl, rfl⟩ : Awake { beginFlatEnumerator with started := true }) (fun _ => rfl) ?_
  · rintro state ⟨active, started⟩ fuel
    obtain ⟨indexes, selected, _, _⟩ := state
    cases active
    cases started
    rfl
  · refine ⟨positive, ?_, nofun⟩
    rw [indexesOf_nil]
    exact (Function.update_eq_self _ _).symm

omit ordered

/-- Two factors of one group have the same edge. -/
def Conflict (factors : FlatFactors) (w : Nat → Nat) (first second : Nat) : Prop :=
  ∃ edgeId, factors.edgeId first (w first) = some edgeId ∧
    factors.edgeId second (w second) = some edgeId ∧ factors.overlap first second = true

theorem Conflict.symm {w : Nat → Nat} {first second : Nat}
    (conflict : factors.Conflict w first second) : factors.Conflict w second first := by
  obtain ⟨edgeId, isFirst, isSecond, overlap⟩ := conflict
  refine ⟨edgeId, isSecond, isFirst, ?_⟩
  unfold FlatFactors.overlap at overlap ⊢
  cases isGroups : factors.uniquenessGroups with
  | none => rw [isGroups] at overlap; cases overlap
  | some groups =>
      rw [isGroups] at overlap
      dsimp only at overlap ⊢
      rwa [Finset.inter_comm]

/-- The indexes of the factors up to a depth -/
def prefixIndexes (factors : FlatFactors) (w : Nat → Nat) (depth factor : Nat) : Int :=
  if factor ∈ factors.enumerationOrder.take (depth + 1) then w factor else -1

include ordered

/-- An index goes with those before it when it is accepted and conflicts with none of them. -/
theorem fits_iff {w : Nat → Nat} {depth : Nat} (inside : depth < factors.factorCount) :
    factors.fits ((factors.enumerationOrder.map w).take depth) (w (factors.factorAt depth)) = true ↔
      factors.accepts (factors.prefixIndexes w depth) (factors.factorAt depth)
          (w (factors.factorAt depth)) = true ∧
        ∀ previous < depth, ¬factors.Conflict w (factors.factorAt depth)
          (factors.factorAt previous) := by
  have isFactor := ordered.getElem? inside
  have length : ((factors.enumerationOrder.map w).take depth).length = depth := by
    have count := ordered.length_eq
    rw [List.length_range] at count
    rw [List.length_take, List.length_map]
    omega
  have indexes : indexesOf factors.enumerationOrder
      ((factors.enumerationOrder.map w).take depth ++ [w (factors.factorAt depth)]) =
        factors.prefixIndexes w depth := by
    have longer : (factors.enumerationOrder.map w).take depth ++ [w (factors.factorAt depth)] =
        (factors.enumerationOrder.map w).take (depth + 1) := by
      rw [List.take_add_one, List.getElem?_map, isFactor]
      rfl
    rw [longer]
    funext factor
    exact indexesOf_take _ w _ factor
  have selected : ∀ previous < depth,
      factors.selectedOf ((factors.enumerationOrder.map w).take depth) previous =
        factors.edgeId (factors.factorAt previous) (w (factors.factorAt previous)) := by
    intro previous before
    rw [selectedOf, List.getElem?_take_of_lt before, List.getElem?_map,
      ordered.getElem? (before.trans inside)]
    rfl
  rw [fits, length, indexes, conflicts_congr selected, Bool.and_eq_true, Bool.not_eq_true']
  refine and_congr_right fun _ => ?_
  cases isEdge : factors.edgeId (factors.factorAt depth) (w (factors.factorAt depth)) with
  | none =>
      refine iff_of_true rfl fun previous _ ⟨edgeId, impossible, _⟩ => ?_
      rw [isEdge] at impossible
      cases impossible
  | some edgeId =>
      rw [conflicts, List.any_eq_false]
      constructor
      · rintro none previous before ⟨other, isOther, isPrevious, overlap⟩
        rw [isEdge] at isOther
        cases isOther
        refine none previous (List.mem_range.2 before) ?_
        rw [isPrevious, overlap]
        simp
      · intro none previous isBefore both
        rw [Bool.and_eq_true, decide_eq_true_eq] at both
        exact none previous (List.mem_range.1 isBefore) ⟨edgeId, isEdge, both.1, both.2⟩

theorem vectorAt_map (w : Nat → Nat) :
    factors.vectorAt (factors.enumerationOrder.map w) =
      (List.range factors.factorCount).map fun factor => (w factor : Int) := by
  refine List.map_congr_left fun factor inside => ?_
  have whole := indexesOf_take factors.enumerationOrder w factors.enumerationOrder.length factor
  rw [List.take_of_length_le (by rw [List.length_map]), List.take_length,
    if_pos (ordered.mem_iff.2 inside)] at whole
  exact whole

theorem mem_vectors {v : List Int} :
    v ∈ (Backtrack.leaves (options factors.countAt factors.fits) some factors.factorCount []).map
        factors.vectorAt ↔
      ∃ w : Nat → Nat, v = ((List.range factors.factorCount).map fun factor => (w factor : Int)) ∧
        ∀ depth < factors.factorCount,
          w (factors.factorAt depth) < factors.logicalCounts (factors.factorAt depth) ∧
          factors.accepts (factors.prefixIndexes w depth) (factors.factorAt depth)
            (w (factors.factorAt depth)) = true ∧
          ∀ previous < depth, ¬factors.Conflict w (factors.factorAt depth)
            (factors.factorAt previous) := by
  have length := ordered.length_eq
  rw [List.length_range] at length
  have each (w : Nat → Nat) (depth : Nat) (inside : depth < factors.factorCount) :
      (factors.enumerationOrder.map w)[depth]? = some (w (factors.factorAt depth)) := by
    rw [List.getElem?_map, ordered.getElem? inside]
    rfl
  rw [List.mem_map]
  constructor
  · rintro ⟨choice, isLeaf, rfl⟩
    obtain ⟨isLength, fitting⟩ := mem_leaves_options.1 isLeaf
    obtain ⟨w, rfl⟩ := exists_map_of_length ordered.nodup (isLength.trans length.symm)
    refine ⟨w, vectorAt_map ordered w, fun depth inside => ?_⟩
    obtain ⟨small, fits⟩ := fitting depth _ (each w depth inside)
    exact ⟨small, (fits_iff ordered inside).1 fits⟩
  · rintro ⟨w, rfl, passes⟩
    refine ⟨factors.enumerationOrder.map w, mem_leaves_options.2 ⟨?_, ?_⟩, vectorAt_map ordered w⟩
    · rw [List.length_map, length]
    · intro depth index found
      have inside : depth < factors.factorCount := by
        have := (List.getElem?_eq_some_iff.1 found).1
        rwa [List.length_map, length] at this
      rw [each w depth inside] at found
      cases found
      exact ⟨(passes depth inside).1, (fits_iff ordered inside).2 (passes depth inside).2⟩

theorem nodup_vectors :
    ((Backtrack.leaves (options factors.countAt factors.fits) some factors.factorCount []).map
      factors.vectorAt).Nodup := by
  have length := ordered.length_eq
  rw [List.length_range] at length
  refine List.Nodup.map_on ?_ nodup_leaves_options
  intro first isFirst second isSecond same
  obtain ⟨w, rfl⟩ := exists_map_of_length ordered.nodup
    ((mem_leaves_options.1 isFirst).1.trans length.symm)
  obtain ⟨w', rfl⟩ := exists_map_of_length ordered.nodup
    ((mem_leaves_options.1 isSecond).1.trans length.symm)
  rw [vectorAt_map ordered, vectorAt_map ordered] at same
  refine List.map_congr_left fun factor inside => ?_
  exact Int.ofNat.inj (List.map_inj_left.1 same factor (ordered.mem_iff.1 inside))

/-- A property of every depth is one of every factor. -/
theorem forall_factorAt {property : Nat → Prop} :
    (∀ depth < factors.factorCount, property (factors.factorAt depth)) ↔
      ∀ factor < factors.factorCount, property factor := by
  constructor
  · intro all factor inside
    obtain ⟨depth, isDepth, found⟩ :=
      List.getElem_of_mem (ordered.mem_iff.2 (List.mem_range.2 inside))
    have length := ordered.length_eq
    rw [List.length_range] at length
    have here := all depth (by omega)
    rwa [factorAt, List.getElem?_eq_getElem isDepth, found] at here
  · intro all depth inside
    refine all _ (List.mem_range.1 (ordered.mem_iff.1 ?_))
    exact List.mem_of_getElem? (ordered.getElem? inside)

/-- A relation of each factor with those before it is one of any two factors. -/
theorem forall_pairs_iff {relation : Nat → Nat → Prop}
    (symm : ∀ first second, relation first second → relation second first) :
    (∀ depth < factors.factorCount, ∀ previous < depth,
        relation (factors.factorAt depth) (factors.factorAt previous)) ↔
      ∀ first < factors.factorCount, ∀ second < factors.factorCount, first ≠ second →
        relation first second := by
  constructor
  · intro all
    rw [← forall_factorAt ordered]
    intro depth inside
    rw [← forall_factorAt ordered]
    intro other isOther different
    rcases Nat.lt_trichotomy depth other with less | rfl | greater
    · exact symm _ _ (all other isOther depth less)
    · exact absurd rfl different
    · exact all depth inside other greater
  · intro all depth inside previous before
    have isFactor := ordered.getElem? inside
    have isPrevious := ordered.getElem? (before.trans inside)
    refine all _ ?_ _ ?_ fun same => ?_
    · exact List.mem_range.1 (ordered.mem_iff.1 (List.mem_of_getElem? isFactor))
    · exact List.mem_range.1 (ordered.mem_iff.1 (List.mem_of_getElem? isPrevious))
    · have length := ordered.length_eq
      rw [List.length_range] at length
      rw [same, ← isPrevious] at isFactor
      have isSame := (List.getElem?_inj (show depth < _ by omega) ordered.nodup).1 isFactor
      omega

/-- No two factors conflict where none conflicts with one before it. -/
theorem forall_conflict_iff {w : Nat → Nat} :
    (∀ depth < factors.factorCount, ∀ previous < depth,
        ¬factors.Conflict w (factors.factorAt depth) (factors.factorAt previous)) ↔
      ∀ first < factors.factorCount, ∀ second < factors.factorCount, first ≠ second →
        ¬factors.Conflict w first second :=
  @forall_pairs_iff factors ordered (fun first second => ¬factors.Conflict w first second)
    fun _ _ none conflict => none conflict.symm

end FlatFactors

end Turns

section Completeness

variable {factorCount : Nat} {logicalCounts : Nat → Nat} {accept : Option (Nat → Nat → Bool)}
  {edgeId : Option (Nat → Nat → Option GraphId)} {groups : Option (Nat → Finset Nat)}

/-- The factors that `age_binding_begin_flat_enumerator` sets up, with a callback that looks at the
factor and the index only -/
def beginFactors (factorCount : Nat) (logicalCounts : Nat → Nat)
    (accept : Option (Nat → Nat → Bool)) (edgeId : Option (Nat → Nat → Option GraphId))
    (groups : Option (Nat → Finset Nat)) : FlatFactors where
  factorCount := factorCount
  logicalCounts := logicalCounts
  enumerationOrder := smallestFirst logicalCounts factorCount
  acceptCallback := accept.map fun accept _ => accept
  edgeIdCallback := edgeId
  uniquenessGroups := if edgeId.isSome then groups else none

/-- A vector of the product that every factor accepts, without an edge twice in a group -/
structure Passes (factors : FlatFactors) (accept : Option (Nat → Nat → Bool)) (w : Nat → Nat) :
    Prop where
  inside : ∀ factor < factors.factorCount, w factor < factors.logicalCounts factor
  accepted : ∀ callback ∈ accept, ∀ factor < factors.factorCount,
    callback factor (w factor) = true
  unique : ∀ first < factors.factorCount, ∀ second < factors.factorCount, first ≠ second →
    ¬factors.Conflict w first second

theorem mem_vectors_iff {factors : FlatFactors} (ordered : factors.Ordered)
    (isCallback : factors.acceptCallback = accept.map fun accept _ => accept) {v : List Int} :
    v ∈ (Backtrack.leaves (options factors.countAt factors.fits) some factors.factorCount []).map
        factors.vectorAt ↔
      ∃ w : Nat → Nat, v = ((List.range factors.factorCount).map fun factor => (w factor : Int)) ∧
        Passes factors accept w := by
  refine (FlatFactors.mem_vectors ordered).trans (exists_congr fun w => and_congr_right fun _ => ?_)
  have accepts (indexes : Nat → Int) (factor : Nat) :
      factors.accepts indexes factor (w factor) = true ↔
        ∀ callback ∈ accept, callback factor (w factor) = true := by
    rw [FlatFactors.accepts, isCallback]
    cases accept with
    | none => simp
    | some callback => simp
  have inside := @FlatFactors.forall_factorAt factors ordered
    fun factor => w factor < factors.logicalCounts factor
  have accepted := @FlatFactors.forall_factorAt factors ordered
    fun factor => ∀ callback ∈ accept, callback factor (w factor) = true
  have unique := @FlatFactors.forall_conflict_iff factors ordered w
  constructor
  · intro passes
    exact ⟨inside.1 fun depth isDepth => (passes depth isDepth).1,
      fun callback isAccept factor isFactor => accepted.1
        (fun depth isDepth => (accepts _ _).1 (passes depth isDepth).2.1) factor isFactor callback
        isAccept,
      unique.1 fun depth isDepth => (passes depth isDepth).2.2⟩
  · intro passes depth isDepth
    exact ⟨inside.2 passes.inside depth isDepth, (accepts _ _).2 (accepted.2
      (fun factor isFactor callback isAccept => passes.accepted callback isAccept factor isFactor)
      depth isDepth), unique.2 passes.unique depth isDepth⟩

/-- The same factors in another order -/
def FlatFactors.withOrder (factors : FlatFactors) (order : List Nat) : FlatFactors :=
  { factors with enumerationOrder := order }

/-- In whatever order, the calls give out each vector that passes once, and then return false. -/
theorem flatEnumerator_complete (positive : 0 < factorCount) (logicalCounts : Nat → Nat)
    (accept : Option (Nat → Nat → Bool)) (edgeId : Option (Nat → Nat → Option GraphId))
    (groups : Option (Nat → Finset Nat)) :
    ∃ vectors : List (List Int), vectors.Nodup ∧
      (∀ v, v ∈ vectors ↔
        ∃ w : Nat → Nat, v = ((List.range factorCount).map fun factor => (w factor : Int)) ∧
          Passes (beginFactors factorCount logicalCounts accept edgeId groups) accept w) ∧
      (∃ enough, ∀ calls fuel, enough ≤ calls → enough ≤ fuel →
        outputs ((beginFactors factorCount logicalCounts accept edgeId groups).next fuel)
          (beginFactors factorCount logicalCounts accept edgeId groups).vectorOf calls
          beginFlatEnumerator = some vectors) ∧
      ∀ order : List Nat, order.Perm (List.range factorCount) →
        ∃ others : List (List Int), others.Perm vectors ∧
          ∃ enough, ∀ calls fuel, enough ≤ calls → enough ≤ fuel →
            outputs (((beginFactors factorCount logicalCounts accept edgeId groups).withOrder
                order).next fuel)
              ((beginFactors factorCount logicalCounts accept edgeId groups).withOrder
                order).vectorOf calls beginFlatEnumerator = some others := by
  have ordered : (beginFactors factorCount logicalCounts accept edgeId groups).Ordered :=
    smallestFirst_perm factorCount
  refine ⟨_, FlatFactors.nodup_vectors ordered, fun v => mem_vectors_iff ordered rfl,
    FlatFactors.outputs_eq ordered positive, fun order perm => ?_⟩
  have reordered : ((beginFactors factorCount logicalCounts accept edgeId groups).withOrder
    order).Ordered := perm
  refine ⟨_, ?_, FlatFactors.outputs_eq reordered positive⟩
  rw [List.perm_ext_iff_of_nodup (FlatFactors.nodup_vectors reordered)
    (FlatFactors.nodup_vectors ordered)]
  intro v
  rw [mem_vectors_iff reordered rfl, mem_vectors_iff ordered rfl]
  refine exists_congr fun w => and_congr_right fun _ => ?_
  exact ⟨fun passes => ⟨passes.inside, passes.accepted, passes.unique⟩,
    fun passes => ⟨passes.inside, passes.accepted, passes.unique⟩⟩

/-- Two factors with one edge in common are enumerated without it. -/
theorem flatEnumerator_two :
    0 < 2 ∧ ∃ vectors : List (List Int), vectors.Nodup ∧
      ∀ v, v ∈ vectors ↔
        ∃ w : Nat → Nat, v = ((List.range 2).map fun factor => (w factor : Int)) ∧
          Passes (beginFactors 2 (fun _ => 2) none (some fun _ index => some (Int64.ofNat index))
            (some fun _ => {0})) none w := by
  obtain ⟨vectors, distinct, passes, -⟩ := flatEnumerator_complete (by decide : 0 < 2) (fun _ => 2)
    none (some fun _ index => some (Int64.ofNat index)) (some fun _ => {0})
  exact ⟨by decide, vectors, distinct, passes⟩

end Completeness

end Age.Executor.Factorized
