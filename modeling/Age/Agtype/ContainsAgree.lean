import Age.Agtype.ContainsMatch
import Age.Agtype.Find

/-!
# The operator `@>` against the walk

A constraint of one chain of keys is answered by a lookup and a comparison that is a total order;
the walk asks for equality instead, which no NaN has.  The operator `<@` always walks.
-/

namespace Age.Agtype

open Lib

section Definitions

variable (ops : OrderOps)

/-- `agtype_contained_by`, the operator `<@` -/
def agtypeContainedBy (agt constraint : AgtypeValue) : Except ContainsError Bool := do
  let properties ← getEntityPropertiesContainer agt
  let constraints ← getEntityPropertiesContainer constraint
  match properties, constraints with
  | some properties, some constraints => agtypeDeepContains ops false constraints properties
  | _, _ => return false

/-- The walk on what the two arguments of `@>` stand for -/
def walkContains (agt constraint : AgtypeValue) : Except ContainsError Bool := do
  let properties ← getEntityPropertiesContainer agt
  let constraints ← getEntityPropertiesContainer constraint
  match properties, constraints with
  | some properties, some constraints => agtypeDeepContains ops false properties constraints
  | _, _ => return false

/-- The value at the end of a chain of keys -/
def propertyAt : (container : List AgtypePair) → (path : List Bytes) → Option AgtypeValue
  | _, [] => none
  | container, [key] => findFromObject container key
  | container, key :: rest =>
      match findFromObject container key with
      | some (.object pairs) => propertyAt pairs rest
      | _ => none

/-- What the lookup answers for the value that it has found -/
def lookupAnswer (value : AgtypeValue) : Option AgtypeValue → Except ContainsError Bool
  | none => .ok false
  | some propertyValue =>
      if propertyValue.sameType value then
        match ops.compareAgtypeScalarValues propertyValue value with
        | .ok res => .ok (value.type = .null || res = 0)
        | .error error => .error (.compare error)
      else .ok false

/-- What the walk answers for it -/
def walkAnswer (value : AgtypeValue) : Option AgtypeValue → Except ContainsError Bool
  | none => .ok false
  | some propertyValue =>
      if propertyValue.sameType value then ops.equalsAgtypeScalarValue propertyValue value
      else .ok false

/-- The constraint is a chain of keys down to a NaN, and the properties have a NaN there. -/
def NaNAgainstNaN (agt constraint : AgtypeValue) : Prop :=
  ∃ properties constraints path value held,
    getEntityPropertiesContainer agt = .ok (some (.object properties)) ∧
    getEntityPropertiesContainer constraint = .ok (some constraints) ∧
    parseSinglePairContainsConstraint constraints = some (path, .float value) ∧
    propertyAt properties path = some (.float held) ∧ held.isNaN = true ∧ value.isNaN = true

/-- Two runs end alike: with the same answer, or both with an error. -/
inductive EndsAlike : Except ContainsError Bool → Except ContainsError Bool → Prop where
  | ok (answer : Bool) : EndsAlike (.ok answer) (.ok answer)
  | error (first second : ContainsError) : EndsAlike (.error first) (.error second)

end Definitions

section Chains

variable {ops : OrderOps} {constraints value : AgtypeValue} {path : List Bytes}

theorem evalSinglePair_eq (properties : List AgtypePair) (nonempty : path ≠ []) :
    evalSinglePairContainsConstraint ops value properties path =
      lookupAnswer ops value (propertyAt properties path) := by
  induction path generalizing properties with
  | nil => exact absurd rfl nonempty
  | cons key rest ih =>
      cases rest with
      | nil =>
          rw [evalSinglePairContainsConstraint, propertyAt]
          cases findFromObject properties key <;> rfl
      | cons next others =>
          rw [evalSinglePairContainsConstraint, propertyAt]
          · cases findFromObject properties key with
            | none => rfl
            | some held =>
                cases held with
                | object pairs => exact ih pairs (List.cons_ne_nil _ _)
                | _ => rfl
          · intro last
            cases last
          · intro last
            cases last

/-- The walk on an object with a single pair -/
theorem agtypeDeepContains_single (properties : List AgtypePair) (key : Bytes)
    (contained : AgtypeValue) :
    agtypeDeepContains ops false (.object properties) (.object [(key, contained)]) =
      match findFromObject properties key with
      | none => .ok false
      | some lhsVal =>
          if lhsVal.sameType contained then
            bif lhsVal.isScalar then ops.equalsAgtypeScalarValue lhsVal contained
            else agtypeDeepContains ops false lhsVal contained
          else .ok false := by
  rw [agtypeDeepContains]
  cases properties with
  | nil => rfl
  | cons first others =>
      rw [if_neg (by simp), containsPairs]
      cases findFromObject (first :: others) key with
      | none => rfl
      | some lhsVal =>
          dsimp only
          split_ifs
          · cases lhsVal.isScalar with
            | true =>
                simp only [cond_true, containsPairs]
                rcases ops.equalsAgtypeScalarValue lhsVal contained with error | _ | _ <;> rfl
            | false =>
                simp only [cond_false, containsPairs]
                rcases agtypeDeepContains ops false lhsVal contained with error | _ | _ <;> rfl
          · rfl

/-- On a chain of keys the walk comes to the same value as the lookup. -/
theorem agtypeDeepContains_chain (properties : List AgtypePair)
    (parsed : parseSinglePairContainsConstraint constraints = some (path, value)) :
    agtypeDeepContains ops false (.object properties) constraints =
      walkAnswer ops value (propertyAt properties path) := by
  induction constraints using parseSinglePairContainsConstraint.induct
    generalizing properties path with
  | case1 key pairs ih =>
      rw [parseSinglePairContainsConstraint] at parsed
      obtain ⟨⟨rest, value'⟩, parsedRest, result⟩ := Option.bind_eq_some_iff.1 parsed
      cases result
      obtain ⟨next, others, rfl⟩ := List.exists_cons_of_ne_nil
        (parseSinglePair_path_ne_nil parsedRest)
      rw [agtypeDeepContains_single, propertyAt]
      · cases findFromObject properties key with
        | none => rfl
        | some held =>
            cases held with
            | object nested => exact ih nested parsedRest
            | array rawScalar elems =>
                dsimp only
                rw [if_pos (by rfl), agtypeDeepContains]
                · rfl
                · intro nested isObject
                  cases isObject
            | _ => rfl
      · intro isNil
        cases isNil
  | case2 key value' notObject single =>
      rw [parseSinglePairContainsConstraint, if_pos single] at parsed
      · cases parsed
        have isScalar := isScalar_of_isSinglePairContainsScalar single
        rw [agtypeDeepContains_single, propertyAt]
        cases findFromObject properties key with
        | none => rfl
        | some held =>
            dsimp only [walkAnswer]
            split_ifs with sameType
            · rw [(isScalar_of_sameType sameType).trans isScalar]
              rfl
            · rfl
      · assumption
  | case3 key value' _ single =>
      rw [parseSinglePairContainsConstraint, if_neg single] at parsed
      · cases parsed
      · assumption
  | case4 => simp_all [parseSinglePairContainsConstraint]

theorem isSinglePairContainsScalar_of_parse
    (parsed : parseSinglePairContainsConstraint constraints = some (path, value)) :
    isSinglePairContainsScalar value = true := by
  induction constraints using parseSinglePairContainsConstraint.induct generalizing path with
  | case1 key pairs ih =>
      rw [parseSinglePairContainsConstraint] at parsed
      obtain ⟨⟨rest, value'⟩, parsedRest, result⟩ := Option.bind_eq_some_iff.1 parsed
      cases result
      exact ih parsedRest
  | case2 key value' notObject single =>
      rw [parseSinglePairContainsConstraint, if_pos single] at parsed
      · cases parsed
        exact single
      · assumption
  | case3 key value' _ single =>
      rw [parseSinglePairContainsConstraint, if_neg single] at parsed
      · cases parsed
      · assumption
  | case4 => simp_all [parseSinglePairContainsConstraint]

/-- The two tests agree on what they compare, but for two NaNs. -/
theorem lookupAnswer_eq (collation : ThreeWay ops.varstrCmp)
    (single : isSinglePairContainsScalar value = true) {found : Option AgtypeValue}
    (notNaN : ∀ held val, found = some (.float held) → value = .float val →
      ¬(held.isNaN = true ∧ val.isNaN = true)) :
    lookupAnswer ops value found = walkAnswer ops value found := by
  cases found with
  | none => rfl
  | some propertyValue =>
      unfold lookupAnswer walkAnswer
      dsimp only
      split_ifs with sameType
      · have isScalar := (isScalar_of_sameType sameType).trans
          (isScalar_of_isSinglePairContainsScalar single)
        cases value with
        | null => cases propertyValue <;> first | rfl | cases sameType
        | string val =>
            cases propertyValue <;> cases sameType
            refine congrArg Except.ok (decide_eq_decide.2 ?_)
            rw [threeWay_lengthCompare.eq_zero_iff, ← compareStrings_eq_zero_iff collation]
        | bool val =>
            cases propertyValue <;> cases sameType
            exact congrArg Except.ok (decide_eq_decide.2 compareBool_eq_zero_iff)
        | integer val =>
            cases propertyValue <;> cases sameType
            exact congrArg Except.ok (decide_eq_decide.2 compareInt64_eq_zero_iff)
        | float val =>
            cases propertyValue <;> cases sameType
            refine congrArg Except.ok (Bool.eq_iff_iff.2 ?_)
            exact decide_eq_true_iff.trans (compareTwoFloats_eq_zero_iff (notNaN _ _ rfl rfl))
        | _ => cases single
      · rfl

theorem lookupAnswer_nan {held val : Float8} (heldNaN : held.isNaN = true)
    (valNaN : val.isNaN = true) : lookupAnswer ops (.float val) (some (.float held)) = .ok true := by
  have zero : compareTwoFloatsOrderability held val = 0 := by
    simp [compareTwoFloatsOrderability, heldNaN, valNaN]
  simp [lookupAnswer, AgtypeValue.sameType, AgtypeValue.isScalar, AgtypeValue.type,
    OrderOps.compareAgtypeScalarValues, zero]

theorem walkAnswer_nan {held val : Float8} (heldNaN : held.isNaN = true) :
    walkAnswer ops (.float val) (some (.float held)) = .ok false := by
  simp [walkAnswer, AgtypeValue.sameType, AgtypeValue.isScalar, AgtypeValue.type,
    OrderOps.equalsAgtypeScalarValue, Float8.ieeeEq, heldNaN]

/-- Roots of two kinds contain nothing of each other. -/
theorem agtypeDeepContains_kinds {properties constraints : AgtypeValue}
    (kinds : properties.isObject ≠ constraints.isObject) :
    agtypeDeepContains ops false properties constraints = .ok false := by
  cases constraints with
  | object contained =>
      cases properties with
      | object pairs => exact absurd rfl kinds
      | _ => rfl
  | array rawScalar contained =>
      cases properties with
      | array => exact absurd rfl kinds
      | _ => rfl
  | _ => rfl

theorem EndsAlike.refl (outcome : Except ContainsError Bool) : EndsAlike outcome outcome := by
  cases outcome with
  | ok answer => exact .ok answer
  | error error => exact .error error error

end Chains

section Operators

variable {ops : OrderOps} {agt constraint : AgtypeValue}

/-- Where the arguments have containers, `@>` walks, or answers like the walk. -/
theorem agtypeContains_eq_walk (collation : ThreeWay ops.varstrCmp)
    (numbers : ¬NaNAgainstNaN agt constraint) :
    agtypeContains ops agt constraint = walkContains ops agt constraint := by
  unfold agtypeContains walkContains
  rcases isProperties : getEntityPropertiesContainer agt with error | _ | properties
  · rfl
  · rfl
  · rcases isConstraints : getEntityPropertiesContainer constraint with error | _ | constraints
    · rfl
    · rfl
    · simp only [bind, Except.bind]
      split_ifs with kinds
      · exact (agtypeDeepContains_kinds kinds).symm
      · cases single : trySinglePairObjectContains ops properties constraints with
        | none => rfl
        | some answer =>
            cases properties <;> try cases single
            rename_i pairs
            obtain ⟨⟨path, value⟩, parsed, result⟩ := Option.bind_eq_some_iff.1 single
            cases result
            rw [Option.getD_some, evalSinglePair_eq pairs (parseSinglePair_path_ne_nil parsed),
              agtypeDeepContains_chain pairs parsed]
            refine lookupAnswer_eq collation (isSinglePairContainsScalar_of_parse parsed) ?_
            rintro held val found rfl ⟨heldNaN, valNaN⟩
            exact numbers ⟨pairs, constraints, path, val, held, isProperties, isConstraints, parsed,
              found, heldNaN, valNaN⟩

/-- A NaN is found where a NaN is looked for, but the walk does not accept it. -/
theorem agtypeContains_nan (nan : NaNAgainstNaN agt constraint) :
    agtypeContains ops agt constraint = .ok true ∧ walkContains ops agt constraint = .ok false := by
  obtain ⟨properties, constraints, path, val, held, isProperties, isConstraints, parsed, found,
    heldNaN, valNaN⟩ := nan
  have isObject : constraints.isObject = true := by
    cases constraints <;> first | rfl | cases parsed
  unfold agtypeContains walkContains
  rw [isProperties, isConstraints]
  simp only [bind, Except.bind, trySinglePairObjectContains, parsed, isObject]
  constructor
  · rw [if_neg (by simp [AgtypeValue.isObject])]
    refine (evalSinglePair_eq properties (parseSinglePair_path_ne_nil parsed)).trans ?_
    rw [found, lookupAnswer_nan heldNaN valNaN]
  · rw [agtypeDeepContains_chain properties parsed, found, walkAnswer_nan heldNaN]

/-- The operator `<@` walks the other way round. -/
theorem agtypeContainedBy_alike :
    EndsAlike (agtypeContainedBy ops constraint agt) (walkContains ops agt constraint) := by
  unfold agtypeContainedBy walkContains
  rcases getEntityPropertiesContainer agt with error | _ | properties <;>
    rcases getEntityPropertiesContainer constraint with error' | _ | constraints
  · exact .error _ _
  · exact .error _ _
  · exact .error _ _
  · exact .error _ _
  · exact .ok false
  · exact .ok false
  · exact .error _ _
  · exact .ok false
  · exact .refl _

/-- `@>` ends like the walk, and holds where `<@` holds the other way round, unless it looks for a
NaN where there is one. -/
theorem agtypeContains_alike_iff (collation : ThreeWay ops.varstrCmp) (agt constraint : AgtypeValue) :
    (EndsAlike (agtypeContains ops agt constraint) (walkContains ops agt constraint) ∧
      (agtypeContains ops agt constraint = .ok true ↔
        agtypeContainedBy ops constraint agt = .ok true)) ↔ ¬NaNAgainstNaN agt constraint := by
  have backward := @agtypeContainedBy_alike ops agt constraint
  constructor
  · rintro ⟨alike, _⟩ nan
    obtain ⟨found, walked⟩ := @agtypeContains_nan ops _ _ nan
    rw [found, walked] at alike
    cases alike
  · intro numbers
    rw [agtypeContains_eq_walk collation numbers]
    refine ⟨.refl _, ?_⟩
    generalize agtypeContainedBy ops constraint agt = contained at backward
    generalize walkContains ops agt constraint = walked at backward
    cases backward with
    | ok answer => exact Iff.rfl
    | error first second => exact iff_of_false nofun nofun

/-- `{"a": 1}` contains itself. -/
theorem agtypeContains_alike_integer :
    ThreeWay Server.orderOps.varstrCmp ∧
      (agtypeContains Server.orderOps (.object [([97], .integer 1)]) (.object [([97], .integer 1)]) =
          .ok true ↔
        agtypeContainedBy Server.orderOps (.object [([97], .integer 1)])
          (.object [([97], .integer 1)]) = .ok true) := by
  refine ⟨threeWay_memcmp, ((agtypeContains_alike_iff threeWay_memcmp _ _).2 ?_).2⟩
  rintro ⟨_, _, _, _, _, ⟨⟩, ⟨⟩, parsed, _⟩
  cases parsed

/-- `{"a": NaN} @> {"a": NaN}` holds, and `{"a": NaN} <@ {"a": NaN}` does not. -/
theorem agtypeContains_nan_differs :
    agtypeContains Server.orderOps (.object [([97], .float nan)]) (.object [([97], .float nan)]) =
        .ok true ∧
      agtypeContainedBy Server.orderOps (.object [([97], .float nan)])
        (.object [([97], .float nan)]) = .ok false ∧
      walkContains Server.orderOps (.object [([97], .float nan)]) (.object [([97], .float nan)]) =
        .ok false ∧
      ¬EndsAlike
        (agtypeContains Server.orderOps (.object [([97], .float nan)]) (.object [([97], .float nan)]))
        (walkContains Server.orderOps (.object [([97], .float nan)])
          (.object [([97], .float nan)])) := by
  have found : agtypeContains Server.orderOps (.object [([97], .float nan)])
      (.object [([97], .float nan)]) = .ok true := by rfl
  have walked : walkContains Server.orderOps (.object [([97], .float nan)])
      (.object [([97], .float nan)]) = .ok false := by rfl
  refine ⟨found, by rfl, walked, fun alike => ?_⟩
  rw [found, walked] at alike
  cases alike

end Operators

end Age.Agtype
