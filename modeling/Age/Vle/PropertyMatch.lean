import Age.Agtype.ContainsPreorder
import Age.Agtype.Operators

/-!
# The properties of an edge

The prototype edge of a variable length pattern may ask for properties.  An edge with as many
properties as are asked for is compared by its image, one with more is searched for each of them.
-/

namespace Age.Vle

open Agtype Lib

/-- A property object as it is stored -/
structure PropertyObject where
  container : Bytes
  pairs : List AgtypePair
  built : Built (.object pairs)
  haveIds : (AgtypeValue.object pairs).entitiesHaveIds = true
  contents : ContainerAt container (.object pairs)

/-- The object that `agtype_value_to_agtype` stores -/
def PropertyObject.ofPairs (pairs : List AgtypePair)
    (converted : (agtypeValueToAgtype (.object pairs)).toBool = true)
    (built : Built (.object pairs))
    (haveIds : (AgtypeValue.object pairs).entitiesHaveIds = true) : PropertyObject where
  container := ((agtypeValueToAgtype (.object pairs)).toOption.getD []).drop 4
  pairs := pairs
  built := built
  haveIds := haveIds
  contents := by
    cases isAgtype : agtypeValueToAgtype (.object pairs) with
    | error error =>
        rw [isAgtype] at converted
        cases converted
    | ok agtype => exact containerAt_agtypeValueToAgtype isAgtype

/-- `VARSIZE_ANY` -/
def PropertyObject.varsize (properties : PropertyObject) : Nat := properties.container.length + 4

/-- What the loaded graph knows of an edge's properties, and what the table holds -/
structure EdgeEntry where
  propertyCount : Nat
  propertySize : Nat
  propertyHash : UInt32
  properties : PropertyObject

structure VleEdgePropertyMatchContext where
  constraint : PropertyObject
  constraintCount : Nat
  constraintHash : UInt32
  cachedConstraints : List AgtypePair

section Definitions

variable (ops : ComparisonOps)

/-- The entry that `insert_edge_entry` makes of a row with its property metadata -/
def insertEdgeEntry (properties : PropertyObject) : EdgeEntry where
  propertyCount := properties.pairs.length
  propertySize := properties.varsize
  propertyHash := ops.datumImageHash properties.container
  properties := properties

/-- `age_vle_context_init_edge_property_match`, with the pairs that
`cache_edge_property_constraints` reads -/
def initEdgePropertyMatch (constraint : PropertyObject) : VleEdgePropertyMatchContext where
  constraint := constraint
  constraintCount := constraint.pairs.length
  constraintHash := ops.datumImageHash constraint.container
  cachedConstraints := constraint.pairs

def agtypeValueSatisfiesPropertyConstraint (propertyValue constraintValue : AgtypeValue) :
    Except ContainsError Bool :=
  if propertyValue.sameType constraintValue = false then .ok false
  else if propertyValue.isScalar then
    match ops.order.compareAgtypeScalarValues propertyValue constraintValue with
    | .ok res => .ok (res = 0)
    | .error error => .error (.compare error)
  else agtypeDeepContains ops.order false propertyValue constraintValue

def cachedEdgePropertyConstraintsMatch (edgeProperties : List AgtypePair) :
    List AgtypePair → Except ContainsError Bool
  | [] => .ok true
  | (key, value) :: rest =>
      match findFromObject edgeProperties key with
      | none => .ok false
      | some propertyValue => do
          if ← agtypeValueSatisfiesPropertyConstraint ops propertyValue value then
            cachedEdgePropertyConstraintsMatch edgeProperties rest
          else return false

def ageVleEdgePropertyMatches (matchContext : VleEdgePropertyMatchContext) (ee : EdgeEntry) :
    Except ContainsError Bool :=
  let constraint := matchContext.constraint
  let numEdgePropertyConstraints := matchContext.constraintCount
  if numEdgePropertyConstraints = 0 then .ok true
  else if ee.propertyCount < numEdgePropertyConstraints then .ok false
  else if numEdgePropertyConstraints = ee.propertyCount ∧
      (ee.propertySize ≠ constraint.varsize ∨ ee.propertyHash ≠ matchContext.constraintHash) then
    .ok false
  else
    let edgeProperty := ee.properties
    let numEdgeProperties := edgeProperty.pairs.length
    if numEdgeProperties < numEdgePropertyConstraints then .ok false
    else if numEdgePropertyConstraints = numEdgeProperties then
      -- the datums would be the same if they match
      if edgeProperty.varsize ≠ constraint.varsize then .ok false
      else
        .ok (matchContext.constraintHash = ops.datumImageHash edgeProperty.container &&
          constraint.container = edgeProperty.container)
    else if 0 < matchContext.cachedConstraints.length then
      cachedEdgePropertyConstraintsMatch ops edgeProperty.pairs matchContext.cachedConstraints
    else
      agtypeDeepContains ops.order false (.object edgeProperty.pairs) (.object constraint.pairs)

/-- Some pair that is asked for is missing, or its value in the edge fails the test of it. -/
def Unmet (edge constraint : PropertyObject) : Prop :=
  ∃ pair ∈ constraint.pairs, ∀ held, (pair.1, held) ∈ edge.pairs →
    agtypeValueSatisfiesPropertyConstraint ops held pair.2 ≠ .ok true

/-- No scalar that is asked for is a NaN, an edge or a path. -/
def PropertyObject.scalarsEqualThemselves (constraint : PropertyObject) : Prop :=
  ∀ pair ∈ constraint.pairs, pair.2.isScalar = true → pair.2.equalsItself = true

/-- The test of an edge is containment: none or more pairs are asked for than there are; fewer, and
what is asked for equals itself or is not met; or as many, and the images are the same and equal
themselves, or differ and what is asked for is not met or does not equal itself. -/
def MatchIsContainment (edge constraint : PropertyObject) : Prop :=
  constraint.pairs = [] ∨ edge.pairs.length < constraint.pairs.length ∨
    (constraint.pairs.length < edge.pairs.length ∧
      (constraint.scalarsEqualThemselves ∨ Unmet ops edge constraint)) ∨
    (constraint.pairs.length = edge.pairs.length ∧
      if constraint.container = edge.container then
        (AgtypeValue.object constraint.pairs).equalsItself = true
      else Unmet ops edge constraint ∨ ¬constraint.scalarsEqualThemselves)

end Definitions

section Values

variable {ops : ComparisonOps} {held wanted : AgtypeValue}

/-- Equal scalars compare as equal. -/
theorem compare_of_sameScalar (collation : ThreeWay ops.order.varstrCmp)
    (same : SameScalar ops.order held wanted) :
    ops.order.compareAgtypeScalarValues held wanted = .ok 0 := by
  cases same with
  | null => rfl
  | string val => exact congrArg Except.ok ((compareStrings_eq_zero_iff collation).mpr rfl)
  | numeric equal => exact congrArg Except.ok equal
  | bool val => exact congrArg Except.ok (compareBool_eq_zero_iff.mpr rfl)
  | integer val => exact congrArg Except.ok (compareInt64_eq_zero_iff.mpr rfl)
  | float equal =>
      obtain ⟨first, second, places⟩ := ieeeEq_iff.mp equal
      rw [OrderOps.compareAgtypeScalarValues, compareTwoFloatsOrderability]
      simp [first, second, places]
  | vertex isA isB =>
      rw [OrderOps.compareAgtypeScalarValues, isA, isB]
      exact congrArg Except.ok (compareInt64_self _)

/-- Scalars of one type that compare as equal are equal where the second equals itself. -/
theorem sameScalar_of_compare (collation : ThreeWay ops.order.varstrCmp)
    (sameType : held.sameType wanted = true) (isScalar : held.isScalar = true)
    (itself : wanted.equalsItself = true)
    (zero : ops.order.compareAgtypeScalarValues held wanted = .ok 0) :
    SameScalar ops.order held wanted := by
  cases held <;> cases wanted <;> try cases sameType
  case null.null.refl => exact .null
  case string.string.refl a b =>
    rw [(compareStrings_eq_zero_iff collation).mp (Except.ok.inj zero)]
    exact .string b
  case numeric.numeric.refl a b => exact .numeric (Except.ok.inj zero)
  case integer.integer.refl a b =>
    rw [compareInt64_eq_zero_iff.mp (Except.ok.inj zero)]
    exact .integer b
  case bool.bool.refl a b =>
    rw [compareBool_eq_zero_iff.mp (Except.ok.inj zero)]
    exact .bool b
  case float.float.refl a b =>
    have notNaN : b.isNaN = false := by simpa [AgtypeValue.equalsItself] using itself
    have same := Except.ok.inj zero
    rw [compareTwoFloatsOrderability, notNaN] at same
    cases first : a.isNaN with
    | true => simp [first] at same
    | false =>
        simp only [first, Bool.false_eq_true, if_false] at same
        refine .float (ieeeEq_iff.mpr ⟨first, notNaN, ?_⟩)
        split_ifs at same <;> omega
  case vertex.vertex.refl a b =>
    rw [OrderOps.compareAgtypeScalarValues] at zero
    cases isA : vertexGetId a with
    | error error => rw [isA] at zero; cases zero
    | ok first =>
        cases isB : vertexGetId b with
        | error error => rw [isA, isB] at zero; cases zero
        | ok second =>
            rw [isA, isB] at zero
            rw [compareInt64_eq_zero_iff.mp (Except.ok.inj zero)] at isA
            exact .vertex isA isB
  case edge.edge.refl => cases itself
  case path.path.refl => cases itself
  all_goals cases isScalar

/-- The test of a pair is the one of containment, where a scalar equals itself. -/
theorem holds_iff_satisfies (collation : ThreeWay ops.order.varstrCmp) :
    Holds ops.order held wanted ↔
      agtypeValueSatisfiesPropertyConstraint ops held wanted = .ok true ∧
        (wanted.isScalar = true → wanted.equalsItself = true) := by
  rw [Holds, agtypeValueSatisfiesPropertyConstraint]
  cases sameType : held.sameType wanted with
  | false => simp
  | true =>
      have scalars := isScalar_of_sameType sameType
      simp only [Bool.true_eq_false, if_false, true_and]
      cases isScalar : wanted.isScalar with
      | false => simp [scalars, isScalar]
      | true =>
          simp only [scalars, isScalar, if_true, forall_const]
          constructor
          · intro same
            rw [compare_of_sameScalar collation same]
            exact ⟨rfl, same.equalsItself.2⟩
          · rintro ⟨satisfied, itself⟩
            refine sameScalar_of_compare collation sameType (scalars.trans isScalar) itself ?_
            cases compared : ops.order.compareAgtypeScalarValues held wanted with
            | error error => rw [compared] at satisfied; cases satisfied
            | ok res =>
                rw [compared] at satisfied
                rw [of_decide_eq_true (Except.ok.inj satisfied)]

/-- Built values whose entities have their ids -/
theorem isBuilt_of_built {v : AgtypeValue} (built : Built v) (ids : v.entitiesHaveIds = true) :
    v.isBuilt = true := by
  induction v using AgtypeValue.inductionOn with
  | object pairs children =>
      cases built with
      | object each increase bounded =>
          rw [AgtypeValue.entitiesHaveIds, AgtypeValue.valuesHaveIds_iff] at ids
          rw [AgtypeValue.isBuilt, Bool.and_eq_true, decide_eq_true_eq,
            AgtypeValue.areBuiltPairs_iff]
          exact ⟨increase, fun pair inside => children pair inside (each pair inside)
            (ids pair inside)⟩
  | array raw elems children =>
      cases built with
      | array each bounded =>
          rw [AgtypeValue.entitiesHaveIds, AgtypeValue.elemsHaveIds_iff] at ids
          rw [AgtypeValue.isBuilt, AgtypeValue.areBuilt_iff]
          exact fun elem inside => children elem inside (each elem inside) (ids elem inside)
  | vertex pairs => exact ids
  | _ => rfl

end Values

section Objects

variable {ops : ComparisonOps} {edge constraint : PropertyObject}

theorem PropertyObject.isBuilt (properties : PropertyObject) :
    (AgtypeValue.object properties.pairs).isBuilt = true :=
  isBuilt_of_built properties.built properties.haveIds

theorem PropertyObject.keysIncrease (properties : PropertyObject) :
    KeysIncrease properties.pairs := by
  cases properties.built with
  | object each increase bounded => exact increase

/-- One image holds one object. -/
theorem PropertyObject.pairs_eq_of_container {first second : PropertyObject}
    (same : first.container = second.container) : first.pairs = second.pairs := by
  have stored (properties : PropertyObject) : ∃ stored : StoredAgtype,
      stored.container = properties.container ∧ stored.value.root = .object properties.pairs :=
    ⟨⟨properties.container, .object properties.pairs, properties.built, properties.haveIds,
      properties.contents⟩, rfl, rfl⟩
  obtain ⟨left, leftContainer, leftRoot⟩ := stored first
  obtain ⟨right, rightContainer, rightRoot⟩ := stored second
  have tokens := tokens_eq_of_container
    (leftContainer.trans (same.trans rightContainer.symm))
  rw [leftRoot, rightRoot] at tokens
  have pushed := pushAll_tokens first.built rfl
  rw [tokens, pushAll_tokens second.built rfl] at pushed
  exact (AgtypeValue.object.inj (Option.some.inj (Prod.mk.inj (Except.ok.inj pushed)).1)).symm

/-- The cached test goes through each pair. -/
theorem cachedMatch_iff {edgeProperties : List AgtypePair} (increase : KeysIncrease edgeProperties)
    (constraints : List AgtypePair) :
    cachedEdgePropertyConstraintsMatch ops edgeProperties constraints = .ok true ↔
      ∀ pair ∈ constraints, ∃ held, (pair.1, held) ∈ edgeProperties ∧
        agtypeValueSatisfiesPropertyConstraint ops held pair.2 = .ok true := by
  induction constraints with
  | nil => exact iff_of_true rfl nofun
  | cons pair rest inductionHypothesis =>
      obtain ⟨key, value⟩ := pair
      rw [cachedEdgePropertyConstraintsMatch, List.forall_mem_cons]
      cases isHeld : findFromObject edgeProperties key with
      | none =>
          refine iff_of_false nofun fun all => ?_
          obtain ⟨held, inside, -⟩ := all.1
          rw [findFromObject_of_mem increase inside] at isHeld
          cases isHeld
      | some held =>
          have here : (∃ other, (key, other) ∈ edgeProperties ∧
              agtypeValueSatisfiesPropertyConstraint ops other value = .ok true) ↔
                agtypeValueSatisfiesPropertyConstraint ops held value = .ok true := by
            refine ⟨fun ⟨other, inside, satisfied⟩ => ?_, fun satisfied =>
              ⟨held, findFromObject_sound isHeld, satisfied⟩⟩
            rw [findFromObject_of_mem increase inside] at isHeld
            cases isHeld
            exact satisfied
          dsimp only
          rw [here]
          cases satisfied : agtypeValueSatisfiesPropertyConstraint ops held value with
          | error error => exact iff_of_false nofun fun all => nomatch all.1
          | ok same =>
              cases same with
              | false => exact iff_of_false nofun fun all => nomatch all.1
              | true => exact inductionHypothesis.trans (and_iff_right rfl).symm

/-- Containment goes through each pair too. -/
theorem deepContains_iff (order : NumericOrder ops.order) :
    agtypeDeepContains ops.order false (.object edge.pairs) (.object constraint.pairs) =
        .ok true ↔
      constraint.pairs.length ≤ edge.pairs.length ∧ ∀ pair ∈ constraint.pairs,
        ∃ held, (pair.1, held) ∈ edge.pairs ∧ Holds ops.order held pair.2 := by
  refine ⟨holds_of_object, fun ⟨shorter, all⟩ => ?_⟩
  refine contains_object order edge.isBuilt constraint.isBuilt ?_ shorter all
  rw [AgtypeValue.equalsItself, AgtypeValue.valuesEqualThemselves_iff]
  intro pair inside
  obtain ⟨held, -, holds⟩ := all pair inside
  exact holds.equalsItself order

theorem all_satisfied_iff :
    (∀ pair ∈ constraint.pairs, ∃ held, (pair.1, held) ∈ edge.pairs ∧
      agtypeValueSatisfiesPropertyConstraint ops held pair.2 = .ok true) ↔
      ¬Unmet ops edge constraint := by
  simp only [Unmet, ne_eq, not_exists, not_and, not_forall, not_not, exists_prop]

/-- An edge with enough pairs contains what is asked for where all of it is met and equals
itself. -/
theorem deepContains_iff_unmet (collation : ThreeWay ops.order.varstrCmp)
    (order : NumericOrder ops.order)
    (shorter : constraint.pairs.length ≤ edge.pairs.length) :
    agtypeDeepContains ops.order false (.object edge.pairs) (.object constraint.pairs) =
        .ok true ↔
      ¬Unmet ops edge constraint ∧ constraint.scalarsEqualThemselves := by
  rw [deepContains_iff order, and_iff_right shorter, ← all_satisfied_iff]
  simp only [holds_iff_satisfies collation]
  constructor
  · intro all
    refine ⟨fun pair inside => ?_, fun pair inside => ?_⟩
    · obtain ⟨held, isHeld, satisfied, -⟩ := all pair inside
      exact ⟨held, isHeld, satisfied⟩
    · obtain ⟨held, -, -, itself⟩ := all pair inside
      exact itself
  · rintro ⟨all, itself⟩ pair inside
    obtain ⟨held, isHeld, satisfied⟩ := all pair inside
    exact ⟨held, isHeld, satisfied, itself pair inside⟩

/-- An edge with the image that is asked for contains it if it equals itself. -/
theorem deepContains_same (order : NumericOrder ops.order)
    (same : constraint.container = edge.container) :
    agtypeDeepContains ops.order false (.object edge.pairs) (.object constraint.pairs) =
        .ok true ↔
      (AgtypeValue.object constraint.pairs).equalsItself = true := by
  rw [PropertyObject.pairs_eq_of_container same]
  constructor
  · intro contains
    have holds : Holds ops.order (.object edge.pairs) (.object edge.pairs) :=
      ⟨rfl, by rwa [if_neg (by simp [AgtypeValue.isScalar])]⟩
    exact holds.equalsItself order
  · intro itself
    obtain ⟨-, contains⟩ := holds_refl order edge.isBuilt itself
    rwa [if_neg (by simp [AgtypeValue.isScalar])] at contains

/-- What the test of an edge comes to. -/
theorem matches_eq (edge constraint : PropertyObject) :
    ageVleEdgePropertyMatches ops (initEdgePropertyMatch ops constraint)
        (insertEdgeEntry ops edge) =
      if constraint.pairs = [] then .ok true
      else if edge.pairs.length < constraint.pairs.length then .ok false
      else if constraint.pairs.length = edge.pairs.length then
        .ok (decide (constraint.container = edge.container))
      else cachedEdgePropertyConstraintsMatch ops edge.pairs constraint.pairs := by
  simp only [ageVleEdgePropertyMatches, initEdgePropertyMatch, insertEdgeEntry,
    List.length_eq_zero_iff, PropertyObject.varsize]
  by_cases isEmpty : constraint.pairs = []
  · rw [if_pos isEmpty, if_pos isEmpty]
  · rw [if_neg isEmpty, if_neg isEmpty]
    by_cases fewer : edge.pairs.length < constraint.pairs.length
    · simp [fewer]
    · by_cases asMany : constraint.pairs.length = edge.pairs.length
      · by_cases same : constraint.container = edge.container
        · simp [same, asMany]
        · simp [same, asMany]
      · have some : 0 < constraint.pairs.length := List.length_pos_of_ne_nil isEmpty
        simp [asMany, some, fewer]

/-- The test of an edge answers as containment does exactly where `MatchIsContainment` says so. -/
theorem ageVleEdgePropertyMatches_exact (collation : ThreeWay ops.order.varstrCmp)
    (order : NumericOrder ops.order) (edge constraint : PropertyObject) :
    (ageVleEdgePropertyMatches ops (initEdgePropertyMatch ops constraint)
          (insertEdgeEntry ops edge) = .ok true ↔
        agtypeDeepContains ops.order false (.object edge.pairs) (.object constraint.pairs) =
          .ok true) ↔
      MatchIsContainment ops edge constraint := by
  rw [matches_eq]
  by_cases isEmpty : constraint.pairs = []
  · rw [if_pos isEmpty]
    refine iff_of_true (iff_of_true rfl ?_) (.inl isEmpty)
    rw [deepContains_iff order, isEmpty]
    exact ⟨Nat.zero_le _, nofun⟩
  rw [if_neg isEmpty]
  rcases Nat.lt_trichotomy constraint.pairs.length edge.pairs.length with less | asMany | fewer
  · have condition : MatchIsContainment ops edge constraint ↔
        constraint.scalarsEqualThemselves ∨ Unmet ops edge constraint := by
      simp only [MatchIsContainment, isEmpty, less, less.ne, less.not_gt, true_and, false_and,
        false_or, or_false]
    rw [if_neg less.not_gt, if_neg less.ne, condition,
      deepContains_iff_unmet collation order less.le, cachedMatch_iff edge.keysIncrease,
      all_satisfied_iff]
    tauto
  · rw [if_neg asMany.not_gt, if_pos asMany]
    by_cases same : constraint.container = edge.container
    · have condition : MatchIsContainment ops edge constraint ↔
          (AgtypeValue.object constraint.pairs).equalsItself = true := by
        simp only [MatchIsContainment, isEmpty, asMany, lt_irrefl, same, if_true, true_and,
          false_and, false_or]
      rw [decide_eq_true same, condition, deepContains_same order same]
      exact ⟨fun alike => alike.mp rfl, iff_of_true rfl⟩
    · have condition : MatchIsContainment ops edge constraint ↔
          Unmet ops edge constraint ∨ ¬constraint.scalarsEqualThemselves := by
        simp only [MatchIsContainment, isEmpty, asMany, lt_irrefl, same, if_false, true_and,
          false_and, false_or]
      rw [decide_eq_false same, condition, deepContains_iff_unmet collation order asMany.le]
      simp only [Except.ok.injEq, Bool.false_eq_true, false_iff]
      tauto
  · rw [if_pos fewer]
    refine iff_of_true (iff_of_false nofun fun contains => ?_) (.inr (.inl fewer))
    exact absurd ((deepContains_iff order).mp contains).1 fewer.not_ge

theorem built_list (first : Int64) (rest : List Int64) (bounded : rest.length < 2 ^ 20) :
    Built (.array false ((first :: rest).map .integer)) :=
  .array (fun elem inside => by
    obtain ⟨val, -, rfl⟩ := List.mem_map.mp inside
    exact .integer val) (by simp [agtypeMaxElems]; omega)

/-- `{"a": [1]}` -/
def listOfOne : PropertyObject :=
  .ofPairs [([97], .array false [.integer 1])] (by decide +kernel)
    (.object (List.forall_mem_singleton.mpr (built_list 1 [] (by decide))) (by decide) (by decide))
    rfl

/-- `{"a": [1, 2]}` -/
def listOfTwo : PropertyObject :=
  .ofPairs [([97], .array false [.integer 1, .integer 2])] (by decide +kernel)
    (.object (List.forall_mem_singleton.mpr (built_list 1 [2] (by decide))) (by decide) (by decide))
    rfl

/-- `{"a": [1, 2], "b": 1}` -/
def listAndNumber : PropertyObject :=
  .ofPairs [([97], .array false [.integer 1, .integer 2]), ([98], .integer 1)] (by decide +kernel)
    (.object (List.forall_mem_cons.mpr ⟨built_list 1 [2] (by decide),
      List.forall_mem_singleton.mpr (.integer 1)⟩) (by decide) (by decide))
    rfl

theorem ageVleEdgePropertyMatches_exact_list :
    ThreeWay serverComparisonOps.order.varstrCmp ∧ NumericOrder serverComparisonOps.order ∧
      ((ageVleEdgePropertyMatches serverComparisonOps
            (initEdgePropertyMatch serverComparisonOps listOfOne)
            (insertEdgeEntry serverComparisonOps listAndNumber) = .ok true ↔
          agtypeDeepContains serverComparisonOps.order false (.object listAndNumber.pairs)
            (.object listOfOne.pairs) = .ok true) ↔
        MatchIsContainment serverComparisonOps listAndNumber listOfOne) :=
  ⟨threeWay_memcmp, Server.numericOrder,
    ageVleEdgePropertyMatches_exact threeWay_memcmp Server.numericOrder listAndNumber listOfOne⟩

/-- An edge with `{"a": [1, 2]}` does not match `{"a": [1]}`, which it contains, until it has one
more property. -/
theorem longer_list_not_matched :
    ageVleEdgePropertyMatches serverComparisonOps
        (initEdgePropertyMatch serverComparisonOps listOfOne)
        (insertEdgeEntry serverComparisonOps listOfTwo) = .ok false ∧
      agtypeDeepContains serverComparisonOps.order false (.object listOfTwo.pairs)
        (.object listOfOne.pairs) = .ok true ∧
      ageVleEdgePropertyMatches serverComparisonOps
        (initEdgePropertyMatch serverComparisonOps listOfOne)
        (insertEdgeEntry serverComparisonOps listAndNumber) = .ok true := by
  refine ⟨?_, rfl, ?_⟩
  · have differ : listOfOne.container ≠ listOfTwo.container := fun same => by
      have pairs := PropertyObject.pairs_eq_of_container same
      simp [listOfOne, listOfTwo, PropertyObject.ofPairs] at pairs
    rw [matches_eq, decide_eq_false differ]
    rfl
  · rw [matches_eq]
    rfl

end Objects

end Age.Vle
