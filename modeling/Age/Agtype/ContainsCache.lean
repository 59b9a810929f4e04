import Age.Agtype.Contains
import Age.Server.Order

/-!
# The containment cache

`agtype_contains` keeps the parsed form of a constraint with the function call
information and takes it again for a constraint at the same address.
-/

namespace Age.Agtype

open Lib

/-- A cache with its `valid` flag set; once it is set it is never filled again. -/
structure SinglePairObjectContainsCache where
  /-- the address of the container the rest was parsed from -/
  constraints : Nat
  path : List Bytes
  value : AgtypeValue

/-- One call: the arguments, and where the constraint's container is in memory. -/
structure ContainsCall where
  agt : AgtypeValue
  constraint : AgtypeValue
  constraintsAddress : Nat

/-- The two containers are objects and the constraint has one pair. -/
def isSinglePairCase : AgtypeValue → AgtypeValue → Bool
  | .object _, .object [_] => true
  | _, _ => false

/-- `try_cached_single_pair_object_contains`, and `fn_extra` after it. -/
def tryCachedSinglePairObjectContains (ops : OrderOps)
    (cache : Option SinglePairObjectContainsCache) (properties : AgtypeValue) (address : Nat)
    (constraints : AgtypeValue) :
    Option (Except ContainsError Bool) × Option SinglePairObjectContainsCache :=
  match properties, constraints with
  | .object pairs, .object [pair] =>
      match cache with
      | some entry =>
          if entry.constraints = address then
            (some (evalSinglePairContainsConstraint ops entry.value pairs entry.path), cache)
          else (none, cache)
      | none =>
          match parseSinglePairContainsConstraint (.object [pair]) with
          | none => (none, none)
          | some (path, value) =>
              (some (evalSinglePairContainsConstraint ops value pairs path),
                some { constraints := address, path, value })
  | _, _ => (none, cache)

/-- `agtype_contains` with the cache of the call site. -/
def agtypeContainsCached (ops : OrderOps) (cache : Option SinglePairObjectContainsCache)
    (call : ContainsCall) :
    Except ContainsError Bool × Option SinglePairObjectContainsCache :=
  match getEntityPropertiesContainer call.agt, getEntityPropertiesContainer call.constraint with
  | .error error, _ => (.error error, cache)
  | .ok _, .error error => (.error error, cache)
  | .ok (some properties), .ok (some constraints) =>
      if properties.isObject ≠ constraints.isObject then (.ok false, cache)
      else
        let (answer, cache) := tryCachedSinglePairObjectContains ops cache properties
          call.constraintsAddress constraints
        (answer.getD
          ((trySinglePairObjectContains ops properties constraints).getD
            (agtypeDeepContains ops false properties constraints)), cache)
  | .ok _, .ok _ => (.ok false, cache)

/-- The answers of a sequence of calls through one `FmgrInfo`. -/
def runContains (ops : OrderOps) :
    Option SinglePairObjectContainsCache → List ContainsCall → List (Except ContainsError Bool)
  | _, [] => []
  | cache, call :: rest =>
      (agtypeContainsCached ops cache call).1 ::
        runContains ops (agtypeContainsCached ops cache call).2 rest

/-- A constraint of one pair at the address of the cached one is the one that was
cached. -/
def AddressHolds (cache : Option SinglePairObjectContainsCache) (call : ContainsCall) : Prop :=
  ∀ entry ∈ cache, entry.constraints = call.constraintsAddress → ∀ properties constraints,
    getEntityPropertiesContainer call.agt = .ok (some properties) →
    getEntityPropertiesContainer call.constraint = .ok (some constraints) →
    isSinglePairCase properties constraints = true →
      parseSinglePairContainsConstraint constraints = some (entry.path, entry.value)

/-- Every step of a run meets the condition on the cache before it. -/
def RunAddressesHold (ops : OrderOps) :
    Option SinglePairObjectContainsCache → List ContainsCall → Prop
  | _, [] => True
  | cache, call :: rest =>
      AddressHolds cache call ∧ RunAddressesHold ops (agtypeContainsCached ops cache call).2 rest

variable {ops : OrderOps}

/-- An answer from the cached path is the answer of the plain one. -/
theorem tryCached_eq {cache : Option SinglePairObjectContainsCache}
    {properties constraints : AgtypeValue} {address : Nat} {answer : Except ContainsError Bool}
    (holds : ∀ entry ∈ cache, entry.constraints = address →
      isSinglePairCase properties constraints = true →
      parseSinglePairContainsConstraint constraints = some (entry.path, entry.value))
    (answered : (tryCachedSinglePairObjectContains ops cache properties address constraints).1 =
      some answer) :
    trySinglePairObjectContains ops properties constraints = some answer := by
  unfold tryCachedSinglePairObjectContains at answered
  split at answered
  · rename_i pairs pair
    split at answered
    · rename_i entry
      split_ifs at answered with hit
      · rw [trySinglePairObjectContains, holds entry rfl hit rfl]
        exact answered
    · split at answered
      · cases answered
      · rename_i path value parsed
        rw [trySinglePairObjectContains, parsed]
        exact answered
  · cases answered

theorem agtypeContainsCached_eq {cache : Option SinglePairObjectContainsCache}
    {call : ContainsCall} (holds : AddressHolds cache call) :
    (agtypeContainsCached ops cache call).1 = agtypeContains ops call.agt call.constraint := by
  unfold agtypeContainsCached agtypeContains
  cases first : getEntityPropertiesContainer call.agt with
  | error error => rfl
  | ok properties =>
      cases second : getEntityPropertiesContainer call.constraint with
      | error error => cases properties <;> rfl
      | ok constraints =>
          cases properties with
          | none => cases constraints <;> rfl
          | some properties =>
              cases constraints with
              | none => rfl
              | some constraints =>
                  simp only [bind, Except.bind]
                  by_cases kinds : properties.isObject ≠ constraints.isObject
                  · rw [if_pos kinds, if_pos kinds]
                    rfl
                  rw [if_neg kinds, if_neg kinds]
                  cases cached : (tryCachedSinglePairObjectContains ops cache properties
                    call.constraintsAddress constraints).1 with
                  | none => rfl
                  | some answer =>
                      have plain := tryCached_eq
                        (fun entry inCache hit => holds entry inCache hit _ _ first second) cached
                      rw [plain]
                      rfl

/-- In a run where no cached address is reused for another constraint, every call
answers what the uncached evaluation of its own arguments answers. -/
theorem runContains_eq_of_addressesHold (calls : List ContainsCall)
    (cache : Option SinglePairObjectContainsCache) (hold : RunAddressesHold ops cache calls) :
    runContains ops cache calls =
      calls.map fun call => agtypeContains ops call.agt call.constraint := by
  induction calls generalizing cache with
  | nil => rfl
  | cons call rest inductionHypothesis =>
      rw [runContains, List.map_cons, agtypeContainsCached_eq hold.1,
        inductionHypothesis _ hold.2]

/-- `{"a": 1, "b": 2} @> {"a": 1}`, then `@> {"b": 2}` at another address, and then
`{"b": 1} @> {"a": 1}` with the constraint at the cached address. -/
theorem runContains_two_addresses :
    runContains Server.orderOps none
        [⟨.object [([97], .integer 1), ([98], .integer 2)], .object [([97], .integer 1)], 1⟩,
          ⟨.object [([97], .integer 1), ([98], .integer 2)], .object [([98], .integer 2)], 2⟩,
          ⟨.object [([98], .integer 1)], .object [([97], .integer 1)], 1⟩] =
      [agtypeContains Server.orderOps (.object [([97], .integer 1), ([98], .integer 2)])
          (.object [([97], .integer 1)]),
        agtypeContains Server.orderOps (.object [([97], .integer 1), ([98], .integer 2)])
          (.object [([98], .integer 2)]),
        agtypeContains Server.orderOps (.object [([98], .integer 1)])
          (.object [([97], .integer 1)])] := by
  refine runContains_eq_of_addressesHold _ none ⟨nofun, ?_, ?_, trivial⟩
  · intro entry inCache hit
    cases inCache
    cases hit
  · intro entry inCache hit properties constraints isProperties isConstraints isPair
    cases inCache
    cases isConstraints
    rfl

/-- The buffer of `{"a": 1}` is reused for `{"b": 5}`, which is not contained. -/
theorem not_runContains_reused_address :
    runContains Server.orderOps none
        [⟨.object [([97], .integer 1), ([98], .integer 2)], .object [([97], .integer 1)], 1⟩,
          ⟨.object [([97], .integer 1), ([98], .integer 2)], .object [([98], .integer 5)], 1⟩] =
        [.ok true, .ok true] ∧
      agtypeContains Server.orderOps (.object [([97], .integer 1), ([98], .integer 2)])
        (.object [([98], .integer 5)]) = .ok false := by
  decide +kernel

end Age.Agtype
