import Mathlib.Data.Rat.Init
import Age.Executor.GenericJoin.FullJoin

/-!
# The consumers of the generic join

A consumer reads the bindings one after the other, with a bag of rows for each provider, and keeps
an aggregate instead of the combinations.  Where no uniqueness group can reject a combination it
multiplies the sizes of the bags; otherwise it enumerates the combinations, of a few rows by their
numbers in the bags.  Its counters have 64 bits and are checked.
-/

namespace Age.Executor.GenericJoin

section Checked

/-- `bigint out of range` -/
inductive ConsumerError where
  | bigintOutOfRange
  deriving DecidableEq, Repr

def FitsInt64 (number : Int) : Prop := -2 ^ 63 ≤ number ∧ number < 2 ^ 63

instance (number : Int) : Decidable (FitsInt64 number) :=
  inferInstanceAs (Decidable (_ ∧ _))

def checked (number : Int) : Except ConsumerError Int :=
  if FitsInt64 number then .ok number else .error .bigintOutOfRange

/-- `generic_checked_int64_product` -/
def checkedProduct (left right : Int) : Except ConsumerError Int :=
  if left < 0 ∨ right < 0 then .error .bigintOutOfRange else checked (left * right)

/-- `generic_checked_int64_sum` -/
def checkedSum (left right : Int) : Except ConsumerError Int := checked (left + right)

/-- `add_generic_count_result` -/
def addCountResult (count increment : Int) : Except ConsumerError Int :=
  if increment ≤ 0 then .ok count else checked (count + increment)

end Checked

section Uniqueness

variable (groups : UniquenessGroups)

/-- `age_generic_uniqueness_may_reject` -/
def uniquenessMayReject (providerCount : Nat) : Bool :=
  (List.range providerCount).any fun left => (List.range providerCount).any fun right =>
    decide (left < right) && groups.overlap left right

/-- `GET_LABEL_ID` -/
def edgeLabelId (edgeId : GraphId) : Nat := edgeId.toUInt64.toNat / 2 ^ 48

/-- `generic_provider_bag_single_edge_label` -/
def singleEdgeLabel : List GenericRow → Option Nat
  | [] => none
  | row :: rest =>
      match row.edgeId with
      | none => none
      | some edgeId =>
          if edgeLabelId edgeId = 0 then none
          else if rest.all fun other => other.edgeId.map edgeLabelId = some (edgeLabelId edgeId) then
            some (edgeLabelId edgeId)
          else none

/-- `generic_provider_bag_has_common_edge_id` -/
def hasCommonEdgeId (left right : List GenericRow) : Bool :=
  left.any fun row => row.edgeId.isSome && right.any fun other => other.edgeId = row.edgeId

/-- `AGE_GENERIC_UNIQUENESS_EXACT_PAIR_LIMIT` -/
def exactPairLimit : Nat := 4096

/-- `generic_provider_bags_may_share_edge_id` -/
def bagsMayShareEdgeId (left right : List GenericRow) : Bool :=
  if left = [] ∨ right = [] then false
  else
    match singleEdgeLabel left, singleEdgeLabel right with
    | some leftLabel, some rightLabel =>
        if leftLabel ≠ rightLabel then false else manyOrCommon
    | _, _ => manyOrCommon
where
  manyOrCommon : Bool :=
    decide (exactPairLimit / right.length < left.length) ||
      decide (exactPairLimit < left.length * right.length) || hasCommonEdgeId left right

/-- `age_generic_active_binding_uniqueness_may_reject` -/
def activeBindingMayReject (bags : List (List GenericRow)) : Bool :=
  (List.range bags.length).any fun left => (List.range bags.length).any fun right =>
    decide (left < right) && groups.overlap left right &&
      bagsMayShareEdgeId (bags[left]?.getD []) (bags[right]?.getD [])

end Uniqueness

section Products

/-- `count_age_generic_binding_product` -/
def countBindingProduct : List (List GenericRow) → Int → Except ConsumerError Int
  | [], product => .ok product
  | bag :: rest, product =>
      if bag = [] then .ok 0
      else do countBindingProduct rest (← checkedProduct product bag.length)

/-- `age_generic_binding_product_within_limit` -/
def productWithinLimit (limit : Nat) : List (List GenericRow) → Nat → Option Nat
  | [], product => some product
  | bag :: rest, product =>
      if bag = [] then none
      else if limit < bag.length ∨ limit / bag.length < product then none
      else productWithinLimit limit rest (product * bag.length)

/-- `AGE_GENERIC_SMALL_BAG_ENUMERATOR_LIMIT` -/
def smallBagEnumeratorLimit : Nat := 4096

/-- `begin_age_generic_small_bag_enumerator` takes the binding. -/
def isSmallBinding (bags : List (List GenericRow)) : Bool :=
  (productWithinLimit smallBagEnumeratorLimit bags 1).isSome

/-- The rows of numbers in the order of the enumeration -/
def numberedRows (bags : List (List GenericRow)) (order : List Nat) (chosen : List Nat) :
    List GenericRow :=
  chosen.zipIdx.filterMap fun entry => (bagAt bags order entry.2)[entry.1]?

/-- The loop of `age_binding_flat_enumerator_next`, which goes through numbers of rows -/
def flatSearch (groups : UniquenessGroups) (bags : List (List GenericRow)) :
    Backtrack.Search Nat Unit (List Nat) where
  depth := bags.length
  openLevel _ chosen :=
    let order := enumerationOrder bags
    let bag := bagAt bags order chosen.length
    ((List.range bag.length).filter fun number => bag[number]?.all fun row =>
      !conflicts groups order (numberedRows bags order chosen) row, ())
  visit _ chosen := (some ((List.range bags.length).filterMap fun provider =>
    ((enumerationOrder bags).zip chosen).lookup provider), ())

end Products

section Bindings

/-- A binding with its bags, and what the two enumerations of them give out -/
structure ReadyBinding where
  bindings : List GraphId
  bags : List (List GenericRow)
  combinations : List (List GenericRow)
  numbered : List (List Nat)

/-- `next_generic_binding`, which keeps the bindings beside the bags -/
def keyedSearch (variableCount : Nat) (providers : List GenericProvider) :
    Backtrack.Search GraphId Caches (List GraphId × List (List GenericRow)) where
  depth := variableCount
  openLevel := (bindingSearch variableCount providers).openLevel
  visit caches bindings :=
    let (bags, next) := (bindingSearch variableCount providers).visit caches bindings
    (bags.map (bindings, ·), next)

def readyBinding (groups : UniquenessGroups) (fuel : Nat)
    (prepared : List GraphId × List (List GenericRow)) : Option ReadyBinding := do
  let combinations ← Backtrack.run (combinationSearch groups prepared.2) fuel
    (Backtrack.start (combinationSearch groups prepared.2) ())
  let numbered ← Backtrack.run (flatSearch groups prepared.2) fuel
    (Backtrack.start (flatSearch groups prepared.2) ())
  some ⟨prepared.1, prepared.2, combinations, numbered⟩

/-- All bindings in their order -/
def readyBindings (variableCount : Nat) (groups : UniquenessGroups)
    (providers : List GenericProvider) (fuel : Nat) : Option (List ReadyBinding) := do
  let search := keyedSearch variableCount providers
  let prepared ← Backtrack.run search fuel (Backtrack.start search Caches.empty)
  prepared.mapM (readyBinding groups fuel)

end Bindings

section Counts

variable (groups : UniquenessGroups)

/-- A value of an output column -/
inductive Cell where
  | key (key : GraphId)
  | int8 (number : Int)
  | boolean (value : Bool)
  | ratio (value : ℚ)
  | null
  deriving DecidableEq

/-- One more for each combination -/
def countEach {α : Type} (entries : List α) (count : Int) : Except ConsumerError Int :=
  entries.foldlM (fun count _ => addCountResult count 1) count

/-- What a binding adds to a count: the product where it is safe, the combinations otherwise -/
def addBindingCount (binding : ReadyBinding) (count : Int) : Except ConsumerError Int :=
  if !uniquenessMayReject groups binding.bags.length ||
      !activeBindingMayReject groups binding.bags then do
    addCountResult count (← countBindingProduct binding.bags 1)
  else if isSmallBinding binding.bags then do
    addCountResult count (← countEach binding.numbered 0)
  else countEach binding.combinations count

/-- `access_age_generic_count_scan` of `COUNT` -/
def countScan (bindings : List ReadyBinding) : Except ConsumerError (List (List Cell)) := do
  let count ← bindings.foldlM (fun count binding => addBindingCount groups binding count) 0
  return [[.int8 count]]

/-- `age_generic_record_distinct_key`, and the keys that it is asked for -/
def recordDistinctKey (seen : List GraphId) (key : GraphId) : List GraphId × Bool :=
  if key ∈ seen then (seen, false) else (seen ++ [key], true)

/-- `access_age_generic_count_scan` of `COUNT_DISTINCT_KEY` -/
def countDistinctLoop (distinctVariable : Nat) :
    List ReadyBinding → List GraphId → Int → Except ConsumerError Int
  | [], _, count => .ok count
  | binding :: rest, seen, count =>
      if binding.combinations = [] then countDistinctLoop distinctVariable rest seen count
      else
        let (recorded, isNew) := recordDistinctKey seen (boundKey binding.bindings distinctVariable)
        if isNew then do
          countDistinctLoop distinctVariable rest recorded (← addCountResult count 1)
        else countDistinctLoop distinctVariable rest recorded count

/-- `access_age_generic_distinct_key_scan` until it has no row left -/
def distinctKeyLoop (distinctVariable : Nat) : List ReadyBinding → List GraphId → List (List Cell)
  | [], _ => []
  | binding :: rest, seen =>
      if binding.combinations = [] then distinctKeyLoop distinctVariable rest seen
      else
        let key := boundKey binding.bindings distinctVariable
        let (recorded, isNew) := recordDistinctKey seen key
        if isNew then [.key key] :: distinctKeyLoop distinctVariable rest recorded
        else distinctKeyLoop distinctVariable rest recorded

/-- `access_age_generic_exists_scan` -/
def existsScan (bindings : List ReadyBinding) : List (List Cell) :=
  if bindings.any fun binding => binding.combinations ≠ [] then [[.boolean true]] else []

/-- The outer loop of the group scans: the bindings that come one after the other with one key -/
def groupRuns (distinctVariable : Nat) : List ReadyBinding → List (GraphId × List ReadyBinding)
  | [] => []
  | binding :: rest =>
      let key := boundKey binding.bindings distinctVariable
      let same := fun other : ReadyBinding => boundKey other.bindings distinctVariable = key
      (key, binding :: rest.takeWhile same) :: groupRuns distinctVariable (rest.dropWhile same)
termination_by bindings => bindings.length
decreasing_by
  exact Nat.lt_succ_of_le (List.dropWhile_sublist _).length_le

/-- The inner loop of `access_age_generic_group_count_scan` -/
def groupCount (binding : ReadyBinding) (count : Int) : Except ConsumerError Int := do
  let _ ← countBindingProduct binding.bags 1
  addBindingCount groups binding count

/-- The inner loop for `GROUP_COUNT_DISTINCT_KEY` -/
def groupHasBinding (binding : ReadyBinding) (has : Bool) : Except ConsumerError Bool := do
  let _ ← countBindingProduct binding.bags 1
  return has || !uniquenessMayReject groups binding.bags.length || binding.combinations ≠ []

/-- `access_age_generic_group_count_scan` until it has no row left -/
def groupCountLoop (distinctKey : Bool) :
    List (GraphId × List ReadyBinding) → Int → Except ConsumerError (List (List Cell))
  | [], _ => .ok []
  | (key, bindings) :: rest, total => do
      let count ←
        if distinctKey then do
          let has ← bindings.foldlM (fun has binding => groupHasBinding groups binding has) false
          pure (if has then 1 else 0)
        else bindings.foldlM (fun count binding => groupCount groups binding count) 0
      if count ≤ 0 then groupCountLoop distinctKey rest total
      else do
        let rows ← groupCountLoop distinctKey rest (← addCountResult total count)
        return [.key key, .int8 count] :: rows

end Counts

section Properties

inductive PropertyAggregate where
  | sum | min | max | avg
  deriving DecidableEq, Repr

/-- The fields of `AgeGenericJoinState` for a property of integers; the sum of an average is exact
here. -/
structure PropertyState where
  hasValue : Bool
  sum : Int
  avgSum : Int
  minmax : Int
  valueInputRows : Int
  inputRows : Int
  nullRows : Int

def PropertyState.initial : PropertyState := ⟨false, 0, 0, 0, 0, 0, 0⟩

/-- `reset_age_generic_property_aggregate_value` -/
def PropertyState.reset (state : PropertyState) : PropertyState :=
  { state with hasValue := false, avgSum := 0, valueInputRows := 0 }

/-- `add_age_generic_sum_value` -/
def addSumValue (state : PropertyState) (value multiplicity : Int) :
    Except ConsumerError PropertyState :=
  if multiplicity ≤ 0 then .ok state
  else do
    let addend ← checkedProduct value multiplicity
    if !state.hasValue then return { state with sum := addend, hasValue := true }
    else return { state with sum := ← checkedSum state.sum addend }

/-- `add_age_generic_avg_value` -/
def addAvgValue (state : PropertyState) (value multiplicity : Int) : PropertyState :=
  if multiplicity ≤ 0 then state
  else if !state.hasValue then { state with avgSum := value * multiplicity, hasValue := true }
  else { state with avgSum := state.avgSum + value * multiplicity }

/-- `add_age_generic_minmax_value` -/
def addMinmaxValue (isMax : Bool) (state : PropertyState) (value : Int) : PropertyState :=
  if !state.hasValue || (if isMax then decide (state.minmax < value) else decide (value < state.minmax))
  then { state with minmax := value, hasValue := true }
  else state

/-- `add_age_generic_property_row`; the value is `none` where the row has no such property. -/
def addPropertyRow (aggregate : PropertyAggregate) (state : PropertyState) (value : Option Int)
    (multiplicity : Int) : Except ConsumerError PropertyState :=
  if multiplicity ≤ 0 then .ok state
  else
    match value with
    | none => do return { state with nullRows := ← addCountResult state.nullRows multiplicity }
    | some value => do
        let inputRows ← addCountResult state.inputRows multiplicity
        let valueInputRows ← addCountResult state.valueInputRows multiplicity
        let state := { state with inputRows := inputRows, valueInputRows := valueInputRows }
        match aggregate with
        | .sum => addSumValue state value multiplicity
        | .avg => return addAvgValue state value multiplicity
        | .max => return addMinmaxValue true state value
        | .min => return addMinmaxValue false state value

variable (groups : UniquenessGroups) (valueOf : GenericRow → Option Int) (sumIndex : Nat)
  (aggregate : PropertyAggregate)

/-- How often each row of the bag is in a combination -/
def rowMultiplicities (bag : List GenericRow) (numbered : List (List Nat)) :
    Except ConsumerError (List Int) := do
  let _ ← countEach numbered 0
  (List.range bag.length).mapM fun number =>
    countEach (numbered.filter fun chosen => chosen[sumIndex]? = some number) 0

/-- `add_age_generic_sum_active_binding` -/
def addActiveBinding (binding : ReadyBinding) (state : PropertyState) :
    Except ConsumerError PropertyState :=
  let bag := binding.bags[sumIndex]?.getD []
  if !uniquenessMayReject groups binding.bags.length then do
    let _ ← countBindingProduct binding.bags 1
    let others ← (binding.bags.eraseIdx sumIndex).foldlM
      (fun product other => checkedProduct product other.length) 1
    bag.foldlM (fun state row => addPropertyRow aggregate state (valueOf row) others) state
  else if activeBindingMayReject groups binding.bags && isSmallBinding binding.bags then do
    let multiplicities ← rowMultiplicities sumIndex bag binding.numbered
    (bag.zip multiplicities).foldlM
      (fun state entry => addPropertyRow aggregate state (valueOf entry.1) entry.2) state
  else
    binding.combinations.foldlM (fun state rows =>
      addPropertyRow aggregate state (rows[sumIndex]?.bind valueOf) 1) state

/-- `store_age_generic_sum_property_result` -/
def propertyCell (state : PropertyState) : Cell :=
  if !state.hasValue then .null
  else
    match aggregate with
    | .sum => .int8 state.sum
    | .avg => .ratio (state.avgSum / state.valueInputRows)
    | .min | .max => .int8 state.minmax

/-- `add_age_generic_sum_rows` -/
def addSumRows (bindings : List ReadyBinding) (state : PropertyState) :
    Except ConsumerError PropertyState :=
  bindings.foldlM
    (fun state binding => addActiveBinding groups valueOf sumIndex aggregate binding state) state

/-- `access_age_generic_sum_property_scan` -/
def propertyScan (bindings : List ReadyBinding) : Except ConsumerError (List (List Cell)) := do
  let state ← addSumRows groups valueOf sumIndex aggregate bindings .initial
  return [[propertyCell aggregate state]]

/-- `access_age_generic_group_sum_property_scan` until it has no row left -/
def groupPropertyLoop : List (GraphId × List ReadyBinding) → PropertyState →
    Except ConsumerError (List (List Cell))
  | [], _ => .ok []
  | (key, bindings) :: rest, state => do
      let state ← addSumRows groups valueOf sumIndex aggregate bindings state.reset
      let rows ← groupPropertyLoop rest state
      return [.key key, propertyCell aggregate state] :: rows

end Properties

section Consumers

/-- `AgeGenericConsumerKind` without the consumers that give out rows -/
inductive ConsumerKind where
  | count
  | countDistinctKey
  | distinctKey
  | groupCount
  | groupCountDistinctKey
  | existsRow
  | property (aggregate : PropertyAggregate)
  | groupProperty (aggregate : PropertyAggregate)
  deriving DecidableEq, Repr

/-- The fields of the descriptor that a consumer reads; the keys are grouped by variable 0, as the
planner asks. -/
structure ConsumerDesc where
  kind : ConsumerKind
  distinctVariable : Nat
  sumIndex : Nat
  valueOf : GenericRow → Option Int

/-- `exec_age_generic_join` until it has no row left -/
def consume (groups : UniquenessGroups) (desc : ConsumerDesc) (bindings : List ReadyBinding) :
    Except ConsumerError (List (List Cell)) :=
  match desc.kind with
  | .count => countScan groups bindings
  | .countDistinctKey => do
      return [[.int8 (← countDistinctLoop desc.distinctVariable bindings [] 0)]]
  | .distinctKey => .ok (distinctKeyLoop desc.distinctVariable bindings [])
  | .groupCount => groupCountLoop groups false (groupRuns desc.distinctVariable bindings) 0
  | .groupCountDistinctKey =>
      groupCountLoop groups true (groupRuns desc.distinctVariable bindings) 0
  | .existsRow => .ok (existsScan bindings)
  | .property aggregate => propertyScan groups desc.valueOf desc.sumIndex aggregate bindings
  | .groupProperty aggregate => groupPropertyLoop groups desc.valueOf desc.sumIndex aggregate
      (groupRuns desc.distinctVariable bindings) .initial

/-- The generic join with an aggregating consumer; the inner `none` is the end of the fuel. -/
def aggregateGenericJoin (variableCount : Nat) (desc : ReductionDesc) (groups : UniquenessGroups)
    (providers : List GenericProvider) (consumer : ConsumerDesc) (fuel : Nat) :
    Except JoinError (Option (Except ConsumerError (List (List Cell)))) := do
  let state ← materializeGenericProviders variableCount desc providers
  if state.exhausted then .ok (some (consume groups consumer []))
  else .ok ((readyBindings variableCount groups state.providers fuel).map
    (consume groups consumer))

end Consumers

end Age.Executor.GenericJoin
