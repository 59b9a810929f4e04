import Age.Agtype.Builder
import Age.Agtype.Compare

/-!
# Containment

`agtype_deep_contains` looks for every pair and element of one container in
another.  `agtype_contains` answers a constraint with one scalar at the end of
a chain of keys by a lookup instead.
-/

namespace Age.Agtype

open Lib

inductive ContainsError where
  | compare (error : CompareError)
  /-- `invalid agtype scalar type %d for equals` -/
  | invalidScalarType (type : AgtypeValueType)
  /-- `agtype input scalars must be of same type` -/
  | scalarTypeMismatch
  /-- `cannot extract properties from an agtype path` -/
  | pathProperties
  /-- `scalar object must be a vertex or edge` -/
  | notEntity
  /-- `invalid agtype value for right operand` -/
  | rightOperand
  /-- a pair or a pointer is read that nothing has set -/
  | unsetRead
  deriving DecidableEq, Repr

/-- `val.binary` holds any container, so two containers have one type. -/
def AgtypeValue.sameType (a b : AgtypeValue) : Bool :=
  if a.isScalar && b.isScalar then a.type = b.type else a.isScalar = b.isScalar

namespace OrderOps

variable (ops : OrderOps)

def equalsAgtypeScalarValue : AgtypeValue → AgtypeValue → Except ContainsError Bool
  | .null, .null => .ok true
  | .string a, .string b => .ok (lengthCompareAgtypeStringValue a b = 0)
  | .numeric a, .numeric b => .ok (ops.numericCmp a b = 0)
  | .bool a, .bool b => .ok (a = b)
  | .integer a, .integer b => .ok (a = b)
  | .float a, .float b => .ok (a.ieeeEq b)
  | .vertex a, .vertex b => do
      let aGraphid ← (vertexGetId a).mapError .compare
      let bGraphid ← (vertexGetId b).mapError .compare
      return aGraphid = bGraphid
  | a, b =>
      if a.type = b.type then .error (.invalidScalarType a.type) else .error .scalarTypeMismatch

/-- Whether two nested containers compare as equal. -/
def containersEqual (a b : AgtypeValue) : Except ContainsError Bool :=
  match ops.compareAgtypeContainersOrderability a b with
  | .ok res => .ok (res = 0)
  | .error error => .error (.compare error)

end OrderOps

/-- `find_agtype_value_from_container` in an array: the first element of the type
of the key that equals it. -/
def findFromArray (ops : OrderOps) (key : AgtypeValue) :
    List AgtypeValue → Except ContainsError (Option AgtypeValue)
  | [] => .ok none
  | elem :: rest =>
      if key.sameType elem then do
        if ← ops.equalsAgtypeScalarValue key elem then return some elem
        else findFromArray ops key rest
      else findFromArray ops key rest

/-- The binary search on the keys of an object; `turns` bounds the turns of the
loop and the interval shrinks at each. -/
def searchPairs (pairs : List AgtypePair) (key : Bytes) :
    (turns stopLow stopHigh : Nat) → Option AgtypeValue
  | 0, _, _ => none
  | turns + 1, stopLow, stopHigh =>
      if stopLow < stopHigh then
        let stopMiddle := stopLow + (stopHigh - stopLow) / 2
        match pairs[stopMiddle]? with
        | none => none
        | some (candidate, value) =>
            let difference := lengthCompareAgtypeStringValue candidate key
            if difference = 0 then some value
            else if difference < 0 then searchPairs pairs key turns (stopMiddle + 1) stopHigh
            else searchPairs pairs key turns stopLow stopMiddle
      else none

/-- `find_agtype_value_from_container` in an object. -/
def findFromObject (pairs : List AgtypePair) (key : Bytes) : Option AgtypeValue :=
  searchPairs pairs key pairs.length 0 pairs.length

/-- The loop over the containers of an array, up to the first that contains. -/
def containedInSome (contains : AgtypeValue → Except ContainsError Bool) :
    List AgtypeValue → Except ContainsError Bool
  | [] => .ok false
  | lhs :: rest => do
      if ← contains lhs then return true else containedInSome contains rest

mutual

def agtypeDeepContains (ops : OrderOps) (skipNested : Bool) (val : AgtypeValue) :
    AgtypeValue → Except ContainsError Bool
  | .object contained =>
      match val with
      | .object pairs =>
          if pairs.length < contained.length then .ok false
          else containsPairs ops skipNested pairs contained
      | _ => .ok false
  | .array rawScalar contained =>
      match val with
      | .array valRawScalar elems =>
          if valRawScalar && !rawScalar then .ok false
          else containsElems ops elems contained
      | _ => .ok false
  | _ => .ok false

/-- The loop over the pairs of the contained object. -/
def containsPairs (ops : OrderOps) (skipNested : Bool) (pairs : List AgtypePair) :
    List (Bytes × AgtypeValue) → Except ContainsError Bool
  | [] => .ok true
  | (key, vcontained) :: rest =>
      match findFromObject pairs key with
      | none => .ok false
      | some lhsVal =>
          if lhsVal.sameType vcontained then do
            let same ← bif lhsVal.isScalar then ops.equalsAgtypeScalarValue lhsVal vcontained
              else bif skipNested then ops.containersEqual lhsVal vcontained
              else agtypeDeepContains ops false lhsVal vcontained
            if same then containsPairs ops skipNested pairs rest else return false
          else .ok false

/-- The loop over the elements of the contained array. -/
def containsElems (ops : OrderOps) (elems : List AgtypeValue) :
    List AgtypeValue → Except ContainsError Bool
  | [] => .ok true
  | vcontained :: rest => do
      let found ← bif vcontained.isScalar then
          (findFromArray ops vcontained elems).map Option.isSome
        else containedInSome (fun lhs => agtypeDeepContains ops false lhs vcontained)
          (elems.filter fun elem => !elem.isScalar)
      if found then containsElems ops elems rest else return false

end

/-- `pairs[i].value` of an entity, as the container of it. -/
def propertiesAt (pairs : List AgtypePair) (i : Nat) : Except ContainsError (Option AgtypeValue) :=
  match pairs[i]? with
  | none => .error .unsetRead
  | some (_, .null) => .ok none
  | some (_, properties) =>
      .ok (some (if properties.isScalar then .array true [properties] else properties))

/-- `get_entity_properties_container_no_copy` with `error_on_scalar` off. -/
def getEntityPropertiesContainer : AgtypeValue → Except ContainsError (Option AgtypeValue)
  | .array true (.vertex pairs :: _) => propertiesAt pairs 2
  | .array true (.edge pairs :: _) => propertiesAt pairs 4
  | .array true (.path _ :: _) => .error .pathProperties
  | root => .ok (some root)

def AgtypeValue.isObject : AgtypeValue → Bool
  | .object _ => true
  | _ => false

def isSinglePairContainsScalar : AgtypeValue → Bool
  | .integer _ => true
  | .float _ => true
  | .bool _ => true
  | .string _ => true
  | .null => true
  | _ => false

/-- `parse_single_pair_contains_constraint`: the keys down to the only scalar, and
the scalar. -/
def parseSinglePairContainsConstraint : AgtypeValue → Option (List Bytes × AgtypeValue)
  | .object [(key, .object pairs)] => do
      let (path, value) ← parseSinglePairContainsConstraint (.object pairs)
      return (key :: path, value)
  | .object [(key, value)] =>
      if isSinglePairContainsScalar value then some ([key], value) else none
  | _ => none

/-- `eval_single_pair_contains_constraint` -/
def evalSinglePairContainsConstraint (ops : OrderOps) (value : AgtypeValue) :
    (container : List AgtypePair) → (path : List Bytes) → Except ContainsError Bool
  -- a parsed path has at least one key
  | _, [] => .error .unsetRead
  | container, [key] =>
      match findFromObject container key with
      | none => .ok false
      | some propertyValue =>
          if propertyValue.sameType value then
            match ops.compareAgtypeScalarValues propertyValue value with
            | .ok res => .ok (value.type = .null || res = 0)
            | .error error => .error (.compare error)
          else .ok false
  | container, key :: rest =>
      match findFromObject container key with
      | some (.object pairs) => evalSinglePairContainsConstraint ops value pairs rest
      | _ => .ok false

/-- `try_single_pair_object_contains`; no result when it does not apply. -/
def trySinglePairObjectContains (ops : OrderOps) :
    AgtypeValue → AgtypeValue → Option (Except ContainsError Bool)
  | .object properties, constraints => do
      let (path, value) ← parseSinglePairContainsConstraint constraints
      return evalSinglePairContainsConstraint ops value properties path
  | _, _ => none

/-- `agtype_contains`, the operator `@>`, without its cache. -/
def agtypeContains (ops : OrderOps) (agt constraint : AgtypeValue) : Except ContainsError Bool := do
  let properties ← getEntityPropertiesContainer agt
  let constraints ← getEntityPropertiesContainer constraint
  match properties, constraints with
  | some properties, some constraints =>
      if properties.isObject ≠ constraints.isObject then return false
      else
        (trySinglePairObjectContains ops properties constraints).getD
          (agtypeDeepContains ops false properties constraints)
  | _, _ => return false

/-- `agtype_contains_top_level`, the operator `@>>`. -/
def agtypeContainsTopLevel (ops : OrderOps) (agt constraint : AgtypeValue) :
    Except ContainsError Bool := do
  let properties ← getEntityPropertiesContainer agt
  let constraints ← getEntityPropertiesContainer constraint
  match properties, constraints with
  | some properties, some constraints =>
      if properties.isObject ≠ constraints.isObject then return false
      else agtypeDeepContains ops true properties constraints
  | _, _ => return false

end Age.Agtype
