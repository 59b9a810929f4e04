import Age.Agtype.Find
import Age.Agtype.NumericOrder
import Age.Server.Hash

/-!
# The comparison operators

`agtype_eq`, `agtype_ne` and the comparator of a sort look at the bytes of their arguments before
they walk the containers.  The other four operators only walk.
-/

namespace Age.Agtype

open Lib Filter

section Definitions

/-- The server functions that the operators call beside those of the comparator -/
structure ComparisonOps where
  order : OrderOps
  numericEq : Numeric → Numeric → Bool
  float8CmpInternal : Float8 → Float8 → Int
  datumImageHash : Bytes → UInt32

namespace AgtypeValue

mutual

/-- Each vertex and edge that a comparison meets has its id. -/
def entitiesHaveIds : AgtypeValue → Bool
  | vertex pairs => (vertexGetId pairs).toBool
  | edge pairs => (edgeGetId pairs).toBool
  | path elems => isPathFrom true elems
  | array _ elems => elemsHaveIds elems
  | object pairs => valuesHaveIds pairs
  | _ => true

def elemsHaveIds : List AgtypeValue → Bool
  | [] => true
  | elem :: rest => entitiesHaveIds elem && elemsHaveIds rest

def valuesHaveIds : List (Bytes × AgtypeValue) → Bool
  | [] => true
  | (_, value) :: rest => entitiesHaveIds value && valuesHaveIds rest

end

end AgtypeValue

/-- An `agtype` argument after `DATUM_GET_AGTYPE_P`: the data of the varlena, which is the root
container, and the value that is stored there -/
structure StoredAgtype where
  container : Bytes
  value : AgtypeValue
  built : Built value
  haveIds : value.entitiesHaveIds = true
  contents : ContainerAt container value.root

/-- `&agtype->root.children[1]` -/
def rawScalarBase (container : Bytes) : Bytes := dataProper container 1

/-- The `int64` after the header of an extended type -/
def rawScalarInt (container : Bytes) : Int64 :=
  (UInt64.ofNat (readLE 8 (rawScalarBase container) 4)).toInt64

def rawScalarFloat (container : Bytes) : Float8 :=
  ⟨UInt64.ofNat (readLE 8 (rawScalarBase container) 4)⟩

/-- `AGTE_IS_BOOL_TRUE(entry) || AGTE_IS_BOOL_FALSE(entry)` -/
def agteIsBool (entry : Nat) : Bool :=
  agteType entry = agtentryIsBoolTrue || agteType entry = agtentryIsBoolFalse

/-- `AGT_ROOT_IS_SCALAR(agt) && AGT_ROOT_COUNT(agt) == 1` -/
def isOneScalar (container : Bytes) : Bool :=
  agtypeContainerIsScalar container && agtypeContainerSize container = 1

section Operators

variable (ops : ComparisonOps)

/-- `raw_scalar_agtype_eq`; no result where it returns false. -/
def rawScalarAgtypeEq (lhs rhs : Bytes) : Option Bool :=
  if !isOneScalar lhs || !isOneScalar rhs then none
  else
    let lhsEntry := containerChild lhs 0
    let rhsEntry := containerChild rhs 0
    let lhsBase := rawScalarBase lhs
    let rhsBase := rawScalarBase rhs
    if agteType lhsEntry = agtentryIsAgtype ∧ agteType rhsEntry = agtentryIsAgtype then
      if readLE 4 lhsBase 0 = agtHeaderInteger ∧ readLE 4 rhsBase 0 = agtHeaderInteger then
        some (rawScalarInt lhs = rawScalarInt rhs)
      else none
    else if agteIsBool lhsEntry && agteIsBool rhsEntry then
      some ((agteType lhsEntry = agtentryIsBoolTrue : Bool) =
        (agteType rhsEntry = agtentryIsBoolTrue : Bool))
    else if agteType lhsEntry = agtentryIsNumeric ∧ agteType rhsEntry = agtentryIsNumeric then
      match readNumeric lhsBase, readNumeric rhsBase with
      | .ok (.numeric lhsNumeric), .ok (.numeric rhsNumeric) =>
          some (ops.numericEq lhsNumeric rhsNumeric)
      | _, _ => none
    else if agteType lhsEntry = agtentryIsString ∧ agteType rhsEntry = agtentryIsString then
      some (ops.order.varstrCmp (lhsBase.take (agteOfflenfld lhsEntry))
        (rhsBase.take (agteOfflenfld rhsEntry)) = 0)
    else none

/-- The walk that all of them fall back to -/
def compareStored (lhs rhs : StoredAgtype) : Except CompareError Int :=
  ops.order.compareAgtypeContainersOrderability lhs.value.root rhs.value.root

/-- Equal hashes of the images, and `datum_image_eq` -/
def sameImage (lhs rhs : StoredAgtype) : Bool :=
  ops.datumImageHash lhs.container = ops.datumImageHash rhs.container &&
    lhs.container = rhs.container

def agtypeEq (lhs rhs : StoredAgtype) : Except CompareError Bool :=
  if agtypeContainerIsScalar lhs.container && agtypeContainerIsScalar rhs.container then
    match rawScalarAgtypeEq ops lhs.container rhs.container with
    | some result => .ok result
    | none => (compareStored ops lhs rhs).map (· = 0)
  else if sameImage ops lhs rhs then .ok true
  else (compareStored ops lhs rhs).map (· = 0)

def agtypeNe (lhs rhs : StoredAgtype) : Except CompareError Bool :=
  if sameImage ops lhs rhs then .ok false
  else (compareStored ops lhs rhs).map (· ≠ 0)

def agtypeLt (lhs rhs : StoredAgtype) : Except CompareError Bool :=
  (compareStored ops lhs rhs).map (· < 0)

def agtypeGt (lhs rhs : StoredAgtype) : Except CompareError Bool :=
  (compareStored ops lhs rhs).map (0 < ·)

def agtypeLe (lhs rhs : StoredAgtype) : Except CompareError Bool :=
  (compareStored ops lhs rhs).map (· ≤ 0)

def agtypeGe (lhs rhs : StoredAgtype) : Except CompareError Bool :=
  (compareStored ops lhs rhs).map (0 ≤ ·)

/-- `agtype_scalar_integer_value` -/
def agtypeScalarIntegerValue (container : Bytes) : Option Int64 :=
  if isOneScalar container ∧ agteType (containerChild container 0) = agtentryIsAgtype ∧
      readLE 4 (rawScalarBase container) 0 = agtHeaderInteger then
    some (rawScalarInt container)
  else none

/-- `agtype_scalar_float_value` -/
def agtypeScalarFloatValue (container : Bytes) : Option Float8 :=
  if isOneScalar container ∧ agteType (containerChild container 0) = agtentryIsAgtype ∧
      readLE 4 (rawScalarBase container) 0 = agtHeaderFloat then
    some (rawScalarFloat container)
  else none

/-- `agtype_scalar_numeric_value` -/
def agtypeScalarNumericValue (container : Bytes) : Option Numeric :=
  if isOneScalar container ∧ agteType (containerChild container 0) = agtentryIsNumeric then
    match readNumeric (rawScalarBase container) with
    | .ok (.numeric numeric) => some numeric
    | _ => none
  else none

/-- `agtype_scalar_string_value` -/
def agtypeScalarStringValue (container : Bytes) : Option Bytes :=
  if isOneScalar container ∧ agteType (containerChild container 0) = agtentryIsString then
    some ((rawScalarBase container).take (agteOfflenfld (containerChild container 0)))
  else none

/-- `agtype_scalar_bool_value` -/
def agtypeScalarBoolValue (container : Bytes) : Option Bool :=
  if isOneScalar container ∧ agteIsBool (containerChild container 0) = true then
    some (agteType (containerChild container 0) = agtentryIsBoolTrue)
  else none

/-- The fast paths of `agtype_sortsupport_cmp`, in their order -/
def sortsupportScalars (lhs rhs : Bytes) : Option Int :=
  match agtypeScalarIntegerValue lhs, agtypeScalarIntegerValue rhs with
  | some lhsInt, some rhsInt =>
      some (if lhsInt = rhsInt then 0 else if rhsInt < lhsInt then 1 else -1)
  | _, _ =>
      match agtypeScalarFloatValue lhs, agtypeScalarFloatValue rhs with
      | some lhsFloat, some rhsFloat => some (ops.float8CmpInternal lhsFloat rhsFloat)
      | _, _ =>
          match agtypeScalarNumericValue lhs, agtypeScalarNumericValue rhs with
          | some lhsNumeric, some rhsNumeric => some (ops.order.numericCmp lhsNumeric rhsNumeric)
          | _, _ =>
              match agtypeScalarStringValue lhs, agtypeScalarStringValue rhs with
              | some lhsString, some rhsString =>
                  let result := ops.order.varstrCmp lhsString rhsString
                  some (if 0 < result then 1 else if result < 0 then -1 else 0)
              | _, _ =>
                  match agtypeScalarBoolValue lhs, agtypeScalarBoolValue rhs with
                  | some lhsBool, some rhsBool =>
                      some (if lhsBool = rhsBool then 0 else if lhsBool then 1 else -1)
                  | _, _ => none

def agtypeSortsupportCmp (lhs rhs : StoredAgtype) : Except CompareError Int :=
  match sortsupportScalars ops lhs.container rhs.container with
  | some result => .ok result
  | none => compareStored ops lhs rhs

end Operators

/-- What the server promises of its comparisons: `numeric_eq` is the zero of `numeric_cmp`, the
comparisons of one value with itself are 0, and a NaN is one value above the other doubles. -/
structure ComparisonLaws (ops : ComparisonOps) : Prop where
  varstrSelf : ∀ a, ops.order.varstrCmp a a = 0
  numericSelf : ∀ a, ops.order.numericCmp a a = 0
  numericEq_iff : ∀ a b, ops.numericEq a b = true ↔ ops.order.numericCmp a b = 0
  floatNaN : ∀ a b, a.isNaN = true → b.isNaN = true → ops.float8CmpInternal a b = 0
  floatAbove : ∀ a b, a.isNaN = true → b.isNaN = false → 0 < ops.float8CmpInternal a b
  floatBelow : ∀ a b, a.isNaN = false → b.isNaN = true → ops.float8CmpInternal a b < 0
  floatSign : ∀ a b, a.isNaN = false → b.isNaN = false →
    (ops.float8CmpInternal a b).sign = (a.place - b.place).sign

end Definitions

section SelfComparison

variable {ops : OrderOps}

namespace AgtypeValue

theorem elemsHaveIds_iff {elems : List AgtypeValue} :
    elemsHaveIds elems = true ↔ ∀ elem ∈ elems, elem.entitiesHaveIds = true := by
  induction elems with
  | nil => simp [elemsHaveIds]
  | cons elem rest inductionHypothesis => simp [elemsHaveIds, inductionHypothesis]

theorem valuesHaveIds_iff {pairs : List AgtypePair} :
    valuesHaveIds pairs = true ↔ ∀ pair ∈ pairs, pair.2.entitiesHaveIds = true := by
  induction pairs with
  | nil => simp [valuesHaveIds]
  | cons pair rest inductionHypothesis =>
      rw [valuesHaveIds, Bool.and_eq_true, inductionHypothesis, List.forall_mem_cons]

end AgtypeValue

theorem compareInt64_self (id : Int64) : compareInt64 id id = 0 := if_pos rfl

/-- An entity whose id can be read has its own place in the order. -/
theorem compare_id_self {getId : List AgtypePair → Except CompareError Int64}
    {pairs : List AgtypePair} (hasId : (getId pairs).toBool = true) :
    (do
      let aGraphid ← getId pairs
      let bGraphid ← getId pairs
      return compareInt64 aGraphid bGraphid : Except CompareError Int) = .ok 0 := by
  cases isId : getId pairs with
  | error error => rw [isId] at hasId; cases hasId
  | ok id => exact congrArg Except.ok (compareInt64_self id)

theorem comparePathElems_self {elems : List AgtypeValue} {vertexNext : Bool}
    (isPath : AgtypeValue.isPathFrom vertexNext elems = true) :
    ops.comparePathElems elems elems = .ok 0 := by
  induction elems generalizing vertexNext with
  | nil => rfl
  | cons elem rest inductionHypothesis =>
      rw [OrderOps.comparePathElems]
      cases elem <;> cases vertexNext <;> try cases isPath
      case vertex.true pairs =>
        simp only [AgtypeValue.isPathFrom, Bool.and_eq_true] at isPath
        rw [OrderOps.compareAgtypeScalarValues, compare_id_self isPath.1]
        exact inductionHypothesis isPath.2
      case edge.false pairs =>
        simp only [AgtypeValue.isPathFrom, Bool.and_eq_true] at isPath
        rw [OrderOps.compareAgtypeScalarValues, compare_id_self isPath.1]
        exact inductionHypothesis isPath.2

variable (varstrSelf : ∀ a, ops.varstrCmp a a = 0) (numericSelf : ∀ a, ops.numericCmp a a = 0)

include varstrSelf numericSelf

theorem compareAgtypeScalarValues_self {v : AgtypeValue} (isScalar : v.isScalar = true)
    (haveIds : v.entitiesHaveIds = true) : ops.compareAgtypeScalarValues v v = .ok 0 := by
  cases v with
  | null => rfl
  | string val =>
      simp [OrderOps.compareAgtypeScalarValues, OrderOps.compareStrings, varstrSelf]
  | numeric val => simp [OrderOps.compareAgtypeScalarValues, numericSelf]
  | integer val => simp [OrderOps.compareAgtypeScalarValues, compareInt64]
  | float val =>
      simp only [OrderOps.compareAgtypeScalarValues, compareTwoFloatsOrderability]
      split_ifs <;> first | rfl | omega
  | bool val => simp [OrderOps.compareAgtypeScalarValues, compareBool]
  | vertex pairs =>
      rw [OrderOps.compareAgtypeScalarValues]
      exact compare_id_self haveIds
  | edge pairs =>
      rw [OrderOps.compareAgtypeScalarValues]
      exact compare_id_self haveIds
  | path elems =>
      rw [OrderOps.compareAgtypeScalarValues, if_neg (by simp)]
      exact comparePathElems_self haveIds
  | array raw elems => cases isScalar
  | object pairs => cases isScalar

theorem compareLeaves_self {v : AgtypeValue} (isScalar : v.isScalar = true)
    (haveIds : v.entitiesHaveIds = true) : ops.compareLeaves v v = .ok 0 := by
  rw [OrderOps.compareLeaves, if_pos (.inl rfl)]
  exact compareAgtypeScalarValues_self varstrSelf numericSelf isScalar haveIds

/-- What comes with a token can be compared with itself. -/
def Token.Plain (token : Token) : Prop :=
  ∀ leaf ∈ token.leaf?, leaf.isScalar = true ∧ leaf.entitiesHaveIds = true

omit varstrSelf numericSelf in
theorem plain_nodeTokens (v : AgtypeValue) (haveIds : v.entitiesHaveIds = true)
    (leaf : AgtypeValue → Token)
    (isLeaf : ∀ v : AgtypeValue, v.isScalar = true → v.entitiesHaveIds = true → (leaf v).Plain) :
    ∀ token ∈ AgtypeValue.nodeTokens leaf v, token.Plain := by
  have leafs (make : AgtypeValue → Token) (isMake : ∀ v, (make v).leaf? = some v)
      (v : AgtypeValue) (isScalar : v.isScalar = true) (haveIds : v.entitiesHaveIds = true) :
      (make v).Plain := by
    intro found isFound
    rw [isMake] at isFound
    cases isFound
    exact ⟨isScalar, haveIds⟩
  have bracket (token : Token) (noLeaf : token.leaf? = none) : token.Plain := by
    intro found isFound
    rw [noLeaf] at isFound
    cases isFound
  induction v using AgtypeValue.inductionOn generalizing leaf with
  | array raw elems children =>
      rw [AgtypeValue.entitiesHaveIds, AgtypeValue.elemsHaveIds_iff] at haveIds
      have tokens (elems : List AgtypeValue)
          (each : ∀ elem ∈ elems, ∀ token ∈ AgtypeValue.nodeTokens .elem elem, token.Plain) :
          ∀ token ∈ AgtypeValue.elemTokens elems, token.Plain := by
        induction elems with
        | nil => simp [AgtypeValue.elemTokens]
        | cons elem rest inductionHypothesis =>
            obtain ⟨here, later⟩ := List.forall_mem_cons.mp each
            rw [AgtypeValue.elemTokens]
            exact List.forall_mem_append.mpr ⟨here, inductionHypothesis later⟩
      rw [AgtypeValue.nodeTokens]
      refine List.forall_mem_cons.mpr ⟨bracket _ rfl, List.forall_mem_append.mpr ⟨?_, ?_⟩⟩
      · exact tokens elems fun elem inside => children elem inside (haveIds elem inside) .elem
          (leafs .elem fun _ => rfl)
      · exact List.forall_mem_singleton.mpr (bracket _ rfl)
  | object pairs children =>
      rw [AgtypeValue.entitiesHaveIds, AgtypeValue.valuesHaveIds_iff] at haveIds
      have tokens (pairs : List AgtypePair)
          (each : ∀ pair ∈ pairs, ∀ token ∈ AgtypeValue.nodeTokens .value pair.2, token.Plain) :
          ∀ token ∈ AgtypeValue.pairTokens pairs, token.Plain := by
        induction pairs with
        | nil => simp [AgtypeValue.pairTokens]
        | cons pair rest inductionHypothesis =>
            obtain ⟨here, later⟩ := List.forall_mem_cons.mp each
            rw [AgtypeValue.pairTokens]
            exact List.forall_mem_cons.mpr
              ⟨bracket _ rfl, List.forall_mem_append.mpr ⟨here, inductionHypothesis later⟩⟩
      rw [AgtypeValue.nodeTokens]
      refine List.forall_mem_cons.mpr ⟨bracket _ rfl, List.forall_mem_append.mpr ⟨?_, ?_⟩⟩
      · exact tokens pairs fun pair inside => children pair inside (haveIds pair inside) .value
          (leafs .value fun _ => rfl)
      · exact List.forall_mem_singleton.mpr (bracket _ rfl)
  | _ => exact List.forall_mem_singleton.mpr (isLeaf _ rfl haveIds)

/-- A stream of tokens is not before or after itself. -/
theorem compareLoop_self {tokens : List Token} (plain : ∀ token ∈ tokens, token.Plain) :
    ops.compareLoop tokens tokens = .ok 0 := by
  induction tokens with
  | nil => rfl
  | cons token rest inductionHypothesis =>
      obtain ⟨here, later⟩ := List.forall_mem_cons.mp plain
      have same : ops.compareTokens token token rest rest = .ok 0 := by
        cases token with
        | key val => simp [OrderOps.compareTokens, OrderOps.compareStrings, varstrSelf]
        | value val =>
            obtain ⟨isScalar, haveIds⟩ := here val rfl
            exact compareLeaves_self varstrSelf numericSelf isScalar haveIds
        | elem val =>
            obtain ⟨isScalar, haveIds⟩ := here val rfl
            exact compareLeaves_self varstrSelf numericSelf isScalar haveIds
        | beginArray raw numElems => simp [OrderOps.compareTokens]
        | endArray => rfl
        | beginObject numPairs => rfl
        | endObject => rfl
      rw [OrderOps.compareLoop, same]
      exact inductionHypothesis later

end SelfComparison

section Images

theorem toByte_injective : Function.Injective Token.toByte := by
  intro a b same
  cases a <;> cases b <;> simp_all [Token.toByte]

/-- One image holds one value, as far as the iterator can tell. -/
theorem tokens_eq_of_container {lhs rhs : StoredAgtype} (same : lhs.container = rhs.container) :
    lhs.value.root.tokens = rhs.value.root.tokens := by
  have left := (readsBack_of_containerAt lhs.built lhs.contents 1).iterated
  have right := (readsBack_of_containerAt rhs.built rhs.contents 1).iterated
  rw [← same] at right
  obtain ⟨fuel, isLeft, isRight⟩ := (left.and right).exists
  exact List.map_injective_iff.mpr toByte_injective (Except.ok.inj (isLeft.symm.trans isRight))

variable {ops : ComparisonOps}

theorem root_haveIds (stored : StoredAgtype) : stored.value.root.entitiesHaveIds = true := by
  rw [AgtypeValue.root]
  split_ifs
  · rw [AgtypeValue.entitiesHaveIds, AgtypeValue.elemsHaveIds_iff]
    exact List.forall_mem_singleton.mpr stored.haveIds
  · exact stored.haveIds

/-- A root is a raw scalar or a container that is none. -/
theorem root_cases_of_built {v : AgtypeValue} (built : Built v) :
    (v.isScalar = true ∧ v.root = .array true [v]) ∨
      ((∃ elems, v = .array false elems) ∨ ∃ pairs, v = .object pairs) ∧ v.root = v := by
  cases built with
  | array => exact .inr ⟨.inl ⟨_, rfl⟩, rfl⟩
  | object => exact .inr ⟨.inr ⟨_, rfl⟩, rfl⟩
  | _ => exact .inl ⟨rfl, rfl⟩

/-- The walk finds no difference between equal images. -/
theorem compareStored_of_container (laws : ComparisonLaws ops) {lhs rhs : StoredAgtype}
    (same : lhs.container = rhs.container) : compareStored ops lhs rhs = .ok 0 := by
  have tokens := tokens_eq_of_container same
  have plain : ∀ token ∈ lhs.value.root.tokens, token.Plain :=
    plain_nodeTokens _ (root_haveIds lhs) .elem fun v isScalar haveIds found isFound => by
      cases isFound
      exact ⟨isScalar, haveIds⟩
  have walked : ops.order.compareLoop lhs.value.root.tokens rhs.value.root.tokens = .ok 0 := by
    rw [← tokens]
    exact compareLoop_self laws.varstrSelf laws.numericSelf plain
  rw [compareStored]
  rcases root_cases_of_built lhs.built with
    ⟨isScalar, isRoot⟩ | ⟨⟨elems, isArray⟩ | ⟨pairs, isObject⟩, isRoot⟩
  · rcases root_cases_of_built rhs.built with
      ⟨isScalar', isRoot'⟩ | ⟨⟨elems, isArray⟩ | ⟨pairs, isObject⟩, isRoot'⟩
    · -- Two raw scalars: their only elements come with equal tokens.
      rw [isRoot, isRoot'] at tokens ⊢
      simp only [AgtypeValue.tokens, AgtypeValue.nodeTokens, AgtypeValue.elemTokens,
        AgtypeValue.nodeTokens_scalar _ isScalar, AgtypeValue.nodeTokens_scalar _ isScalar',
        List.append_nil, List.singleton_append, List.cons.injEq, Token.elem.injEq] at tokens
      rw [← tokens.2.1]
      exact compareLeaves_self laws.varstrSelf laws.numericSelf isScalar lhs.haveIds
    · rw [isRoot, isRoot', isArray] at tokens
      simp [AgtypeValue.tokens, AgtypeValue.nodeTokens] at tokens
    · rw [isRoot, isRoot', isObject] at tokens
      simp [AgtypeValue.tokens, AgtypeValue.nodeTokens] at tokens
  · rw [isRoot, isArray] at walked ⊢
    exact walked
  · rw [isRoot, isObject] at walked ⊢
    exact walked

end Images

section FastPaths

variable {ops : ComparisonOps} {stored lhs rhs : StoredAgtype} {v : AgtypeValue}

/-- The entry kind of a scalar -/
def entryKind : AgtypeValue → Nat
  | .null => agtentryIsNull
  | .string _ => agtentryIsString
  | .numeric _ => agtentryIsNumeric
  | .bool val => if val then agtentryIsBoolTrue else agtentryIsBoolFalse
  | .array _ _ => agtentryIsContainer
  | .object _ => agtentryIsContainer
  | _ => agtentryIsAgtype

/-- The header of a scalar that has one -/
def extendedHeader : AgtypeValue → Nat
  | .float _ => agtHeaderFloat
  | .vertex _ => agtHeaderVertex
  | .edge _ => agtHeaderEdge
  | .path _ => agtHeaderPath
  | _ => agtHeaderInteger

/-- The bytes of a raw scalar, as the fast paths read them -/
structure RawScalarAt (container : Bytes) (v : AgtypeValue) : Prop where
  isScalar : agtypeContainerIsScalar container = true
  one : agtypeContainerSize container = 1
  kind : agteType (containerChild container 0) = entryKind v
  header : entryKind v = agtentryIsAgtype →
    readLE 4 (rawScalarBase container) 0 = extendedHeader v
  integer : ∀ val, v = .integer val → rawScalarInt container = val
  float : ∀ val, v = .float val → rawScalarFloat container = val
  numeric : ∀ val, v = .numeric val →
    readNumeric (rawScalarBase container) = .ok (.numeric val)
  string : ∀ val, v = .string val →
    (rawScalarBase container).take (agteOfflenfld (containerChild container 0)) = val

theorem rawScalarAt (isScalar : stored.value.isScalar = true) :
    RawScalarAt stored.container stored.value := by
  have contents := stored.contents
  rw [AgtypeValue.root, if_pos isScalar] at contents
  obtain ⟨header, length, entry, node, -⟩ := contents
  rw [if_pos rfl] at header
  have offlen : agteOfflenfld (containerChild stored.container 0) = length := by
    unfold EntryIs at entry
    split_ifs at entry <;> omega
  have count : [stored.value].length = 1 := rfl
  have aligned : intAlign 0 = 0 := rfl
  rw [count] at header node
  refine ⟨header.isScalar, header.size, ?_, ?_, ?_, ?_, ?_, ?_⟩
  all_goals generalize stored.value = v at *
  · cases v <;> first | exact node | exact node.1
  · intro extended
    cases v with
    | null => exact absurd extended (by decide)
    | string val =>
        exact absurd (show agtentryIsString = agtentryIsAgtype from extended) (by decide)
    | numeric val =>
        exact absurd (show agtentryIsNumeric = agtentryIsAgtype from extended) (by decide)
    | bool val => cases val <;> exact absurd extended (by decide)
    | array raw elems => cases isScalar
    | object pairs => cases isScalar
    | _ => exact node.2.1
  · rintro val rfl
    have word : readLE 8 (dataProper stored.container 1) 4 = val.toUInt64.toNat := node.2.2
    rw [rawScalarInt, rawScalarBase, word, UInt64.ofNat_toNat]
    rfl
  · rintro val rfl
    have word : readLE 8 (dataProper stored.container 1) 4 = val.bits.toNat := node.2.2
    rw [rawScalarFloat, rawScalarBase, word, UInt64.ofNat_toNat]
  · rintro val rfl
    exact readNumeric_eq node.2
  · rintro val rfl
    rw [offlen]
    exact node.2.2

/-- A container that is no raw scalar does not have the flag of one. -/
theorem isScalar_flag (isContainer : stored.value.isScalar = false) :
    agtypeContainerIsScalar stored.container = false := by
  have contents := stored.contents
  rcases root_cases_of_built stored.built with
    ⟨isScalar, -⟩ | ⟨⟨elems, isArray⟩ | ⟨pairs, isObject⟩, isRoot⟩
  · rw [isContainer] at isScalar
    cases isScalar
  · rw [isRoot, isArray] at contents
    exact contents.1.isScalar
  · rw [isRoot, isObject] at contents
    exact contents.1.isScalar

theorem isOneScalar_eq : isOneScalar stored.container = stored.value.isScalar := by
  cases isScalar : stored.value.isScalar with
  | true =>
      have raw := rawScalarAt isScalar
      simp [isOneScalar, raw.isScalar, raw.one]
  | false => simp [isOneScalar, isScalar_flag isScalar]

/-- What `raw_scalar_agtype_eq` answers, by the values -/
def scalarEq (ops : ComparisonOps) : AgtypeValue → AgtypeValue → Option Bool
  | .integer a, .integer b => some (a = b)
  | .bool a, .bool b => some (a = b)
  | .numeric a, .numeric b => some (ops.numericEq a b)
  | .string a, .string b => some (ops.order.varstrCmp a b = 0)
  | _, _ => none

theorem rawScalarAgtypeEq_eq (left : lhs.value.isScalar = true)
    (right : rhs.value.isScalar = true) :
    rawScalarAgtypeEq ops lhs.container rhs.container = scalarEq ops lhs.value rhs.value := by
  have leftAt := rawScalarAt left
  have rightAt := rawScalarAt right
  have leftOne := @isOneScalar_eq lhs
  have rightOne := @isOneScalar_eq rhs
  rw [rawScalarAgtypeEq, leftOne, rightOne, left, right]
  generalize lhs.value = v at *
  generalize rhs.value = w at *
  have leftHeader := leftAt.header
  have rightHeader := rightAt.header
  simp only [leftAt.kind, rightAt.kind, agteIsBool]
  cases v <;> try cases left
  all_goals cases w <;> try cases right
  case integer.refl.integer.refl a b =>
    simp [entryKind, scalarEq, leftHeader rfl, rightHeader rfl, extendedHeader,
      leftAt.integer _ rfl, rightAt.integer _ rfl]
  case numeric.refl.numeric.refl a b =>
    simp [entryKind, scalarEq, leftAt.numeric _ rfl, rightAt.numeric _ rfl, agtentryIsNumeric,
      agtentryIsAgtype, agtentryIsBoolTrue, agtentryIsBoolFalse]
  case string.refl.string.refl a b =>
    simp [entryKind, scalarEq, leftAt.string _ rfl, rightAt.string _ rfl, agtentryIsNumeric,
      agtentryIsAgtype, agtentryIsBoolTrue, agtentryIsBoolFalse, agtentryIsString]
  case bool.refl.bool.refl a b =>
    cases a <;> cases b <;> rfl
  all_goals
    first
    | simp [entryKind, scalarEq, leftHeader rfl, rightHeader rfl, extendedHeader, agtHeaderInteger,
        agtHeaderFloat, agtHeaderVertex, agtHeaderEdge, agtHeaderPath]
    | simp [entryKind, scalarEq, agtentryIsNumeric, agtentryIsAgtype, agtentryIsBoolTrue,
        agtentryIsBoolFalse, agtentryIsString, agtentryIsNull]
      -- what is left tells the two entry kinds of a boolean apart
      all_goals split_ifs <;> simp

/-- What the fast paths of `agtype_sortsupport_cmp` answer, by the values -/
def scalarCmp (ops : ComparisonOps) : AgtypeValue → AgtypeValue → Option Int
  | .integer a, .integer b => some (compareInt64 a b)
  | .float a, .float b => some (ops.float8CmpInternal a b)
  | .numeric a, .numeric b => some (ops.order.numericCmp a b)
  | .string a, .string b => some (ops.order.compareStrings a b)
  | .bool a, .bool b => some (compareBool a b)
  | _, _ => none

/-- The scalar of a container, where it is an integer and so on -/
theorem scalarValues_eq :
    agtypeScalarIntegerValue stored.container =
        (match stored.value with | .integer val => some val | _ => none) ∧
      agtypeScalarFloatValue stored.container =
        (match stored.value with | .float val => some val | _ => none) ∧
      agtypeScalarNumericValue stored.container =
        (match stored.value with | .numeric val => some val | _ => none) ∧
      agtypeScalarStringValue stored.container =
        (match stored.value with | .string val => some val | _ => none) ∧
      agtypeScalarBoolValue stored.container =
        (match stored.value with | .bool val => some val | _ => none) := by
  have one := @isOneScalar_eq stored
  unfold agtypeScalarIntegerValue agtypeScalarFloatValue agtypeScalarNumericValue
    agtypeScalarStringValue agtypeScalarBoolValue agteIsBool
  rw [one]
  cases isScalar : stored.value.isScalar with
  | false => cases isValue : stored.value <;> simp_all [AgtypeValue.isScalar]
  | true =>
      have raw := rawScalarAt isScalar
      have header := raw.header
      rw [raw.kind]
      generalize stored.value = v at *
      cases v <;> try cases isScalar
      case integer.refl val =>
        simp [entryKind, header rfl, extendedHeader, raw.integer _ rfl, agtentryIsNumeric,
          agtentryIsAgtype, agtentryIsBoolTrue, agtentryIsBoolFalse, agtentryIsString,
          agtHeaderInteger, agtHeaderFloat]
      case float.refl val =>
        simp [entryKind, header rfl, extendedHeader, raw.float _ rfl, agtentryIsNumeric,
          agtentryIsAgtype, agtentryIsBoolTrue, agtentryIsBoolFalse, agtentryIsString,
          agtHeaderInteger, agtHeaderFloat]
      case numeric.refl val =>
        simp [entryKind, raw.numeric _ rfl, agtentryIsNumeric,
          agtentryIsAgtype, agtentryIsBoolTrue, agtentryIsBoolFalse, agtentryIsString]
      case string.refl val =>
        simp [entryKind, raw.string _ rfl, agtentryIsNumeric,
          agtentryIsAgtype, agtentryIsBoolTrue, agtentryIsBoolFalse, agtentryIsString]
      case bool.refl val =>
        cases val <;> simp [entryKind, agtentryIsNumeric, agtentryIsAgtype, agtentryIsBoolTrue,
          agtentryIsBoolFalse, agtentryIsString]
      case null.refl =>
        simp [entryKind, agtentryIsNumeric, agtentryIsAgtype, agtentryIsBoolTrue,
          agtentryIsBoolFalse, agtentryIsString, agtentryIsNull]
      all_goals simp [entryKind, header rfl, extendedHeader, agtentryIsNumeric,
          agtentryIsAgtype, agtentryIsBoolTrue, agtentryIsBoolFalse, agtentryIsString,
          agtHeaderInteger, agtHeaderFloat, agtHeaderVertex, agtHeaderEdge, agtHeaderPath]

theorem sortsupportScalars_eq :
    sortsupportScalars ops lhs.container rhs.container = scalarCmp ops lhs.value rhs.value := by
  obtain ⟨leftInt, leftFloat, leftNumeric, leftString, leftBool⟩ := @scalarValues_eq lhs
  obtain ⟨rightInt, rightFloat, rightNumeric, rightString, rightBool⟩ := @scalarValues_eq rhs
  rw [sortsupportScalars, leftInt, leftFloat, leftNumeric, leftString, leftBool, rightInt,
    rightFloat, rightNumeric, rightString, rightBool]
  generalize lhs.value = v
  generalize rhs.value = w
  cases v <;> cases w <;> try rfl
  case bool.bool a b => cases a <;> cases b <;> rfl

/-- Each answer by the values is that of the walk. -/
theorem scalarEq_sound (laws : ComparisonLaws ops) {result : Bool}
    (left : lhs.value.isScalar = true) (right : rhs.value.isScalar = true)
    (answered : scalarEq ops lhs.value rhs.value = some result) :
    (compareStored ops lhs rhs).map (fun res => decide (res = 0)) = .ok result := by
  rw [compareStored, AgtypeValue.root, AgtypeValue.root, if_pos left, if_pos right]
  generalize lhs.value = v at *
  generalize rhs.value = w at *
  cases v <;> cases w <;> try cases answered
  case integer.integer.refl a b =>
    exact congrArg Except.ok (decide_eq_decide.mpr compareInt64_eq_zero_iff)
  case bool.bool.refl a b => exact congrArg Except.ok (decide_eq_decide.mpr compareBool_eq_zero_iff)
  case numeric.numeric.refl a b =>
    refine congrArg Except.ok (Bool.eq_iff_iff.mpr ?_)
    rw [laws.numericEq_iff, decide_eq_true_iff]
  case string.string.refl a b =>
    refine congrArg Except.ok (decide_eq_decide.mpr ?_)
    unfold OrderOps.compareStrings
    dsimp only
    split_ifs <;> simp <;> omega

/-- The places of two numbers decide their order. -/
theorem compareTwoFloats_sign {a b : Float8} (first : a.isNaN = false) (second : b.isNaN = false) :
    compareTwoFloatsOrderability a b = (a.place - b.place).sign := by
  unfold compareTwoFloatsOrderability
  rw [first, second, if_neg Bool.false_ne_true, if_neg Bool.false_ne_true]
  split_ifs with greater less
  · exact (Int.sign_eq_one_of_pos (by omega)).symm
  · exact (Int.sign_eq_neg_one_of_neg (by omega)).symm
  · have same : a.place - b.place = 0 := by omega
    rw [same]
    rfl

theorem scalarCmp_sound (laws : ComparisonLaws ops) {result : Int}
    (answered : scalarCmp ops lhs.value rhs.value = some result) :
    (compareStored ops lhs rhs).map Int.sign = .ok result.sign := by
  rw [compareStored]
  generalize lhs.value = v at *
  generalize rhs.value = w at *
  cases v <;> cases w <;> try cases answered
  case integer.integer.refl a b => rfl
  case bool.bool.refl a b => rfl
  case numeric.numeric.refl a b => rfl
  case string.string.refl a b => rfl
  case float.float.refl a b =>
    refine congrArg Except.ok ?_
    cases first : a.isNaN <;> cases second : b.isNaN
    · rw [laws.floatSign a b first second, compareTwoFloats_sign first second, Int.sign_sign]
    · rw [Int.sign_eq_neg_one_of_neg (laws.floatBelow a b first second)]
      simp [compareTwoFloatsOrderability, first, second]
    · rw [Int.sign_eq_one_of_pos (laws.floatAbove a b first second)]
      simp [compareTwoFloatsOrderability, first, second]
    · rw [laws.floatNaN a b first second]
      simp [compareTwoFloatsOrderability, first, second]

end FastPaths

section Agreement

variable {ops : ComparisonOps}

theorem sameImage_iff {lhs rhs : StoredAgtype} :
    sameImage ops lhs rhs = true ↔ lhs.container = rhs.container := by
  rw [sameImage, Bool.and_eq_true, decide_eq_true_iff, decide_eq_true_iff]
  exact and_iff_right_of_imp fun same => congrArg _ same

theorem agtypeEq_eq (laws : ComparisonLaws ops) (lhs rhs : StoredAgtype) :
    agtypeEq ops lhs rhs = (compareStored ops lhs rhs).map fun res => decide (res = 0) := by
  rw [agtypeEq]
  split_ifs with scalars isSame
  · have scalar {stored : StoredAgtype} (flag : agtypeContainerIsScalar stored.container = true) :
        stored.value.isScalar = true := by
      cases isScalar : stored.value.isScalar with
      | true => rfl
      | false =>
          rw [isScalar_flag isScalar] at flag
          cases flag
    obtain ⟨left, right⟩ := Bool.and_eq_true_iff.mp scalars
    rw [rawScalarAgtypeEq_eq (scalar left) (scalar right)]
    cases answered : scalarEq ops lhs.value rhs.value with
    | none => rfl
    | some result => exact (scalarEq_sound laws (scalar left) (scalar right) answered).symm
  · rw [compareStored_of_container laws (sameImage_iff.mp isSame)]
    rfl
  · rfl

theorem agtypeNe_eq (laws : ComparisonLaws ops) (lhs rhs : StoredAgtype) :
    agtypeNe ops lhs rhs = (compareStored ops lhs rhs).map fun res => decide (res ≠ 0) := by
  rw [agtypeNe]
  split_ifs with isSame
  · rw [compareStored_of_container laws (sameImage_iff.mp isSame)]
    rfl
  · rfl

theorem agtypeSortsupportCmp_sign (laws : ComparisonLaws ops) (lhs rhs : StoredAgtype) :
    (agtypeSortsupportCmp ops lhs rhs).map Int.sign =
      (compareStored ops lhs rhs).map Int.sign := by
  rw [agtypeSortsupportCmp, sortsupportScalars_eq]
  cases answered : scalarCmp ops lhs.value rhs.value with
  | none => rfl
  | some result => exact (scalarCmp_sound laws answered).symm

/-- Whatever bytes are looked at first, the operators and the comparator of a sort answer as the
walk over the containers does. -/
theorem comparisonOperators_agree (laws : ComparisonLaws ops) (lhs rhs : StoredAgtype) :
    agtypeEq ops lhs rhs = (compareStored ops lhs rhs).map (fun res => decide (res = 0)) ∧
      agtypeNe ops lhs rhs = (agtypeEq ops lhs rhs).map (fun equal => !equal) ∧
      agtypeLt ops lhs rhs = (compareStored ops lhs rhs).map (fun res => decide (res < 0)) ∧
      agtypeLe ops lhs rhs = (compareStored ops lhs rhs).map (fun res => decide (res ≤ 0)) ∧
      agtypeGt ops lhs rhs = (compareStored ops lhs rhs).map (fun res => decide (0 < res)) ∧
      agtypeGe ops lhs rhs = (compareStored ops lhs rhs).map (fun res => decide (0 ≤ res)) ∧
      (agtypeSortsupportCmp ops lhs rhs).map Int.sign =
        (compareStored ops lhs rhs).map Int.sign := by
  refine ⟨agtypeEq_eq laws lhs rhs, ?_, rfl, rfl, rfl, rfl,
    agtypeSortsupportCmp_sign laws lhs rhs⟩
  rw [agtypeEq_eq laws, agtypeNe_eq laws]
  cases compareStored ops lhs rhs with
  | error error => rfl
  | ok res => simp [Except.map]

/-- The server functions of a database with the C collation -/
def serverComparisonOps : ComparisonOps where
  order := Server.orderOps
  numericEq a b := Server.numericCmp a b = 0
  float8CmpInternal := compareTwoFloatsOrderability
  datumImageHash := Server.hashBytes

theorem serverComparisonLaws : ComparisonLaws serverComparisonOps where
  varstrSelf := threeWay_memcmp.self
  numericSelf := Server.numericOrder.refl
  numericEq_iff _ _ := decide_eq_true_iff
  floatNaN _ _ first second := by
    simp [serverComparisonOps, compareTwoFloatsOrderability, first, second]
  floatAbove _ _ first second := by
    simp [serverComparisonOps, compareTwoFloatsOrderability, first, second]
  floatBelow _ _ first second := by
    simp [serverComparisonOps, compareTwoFloatsOrderability, first, second]
  floatSign _ _ first second :=
    (congrArg Int.sign (compareTwoFloats_sign first second)).trans Int.sign_sign

/-- The integer 1 as it is stored -/
def storedOne : StoredAgtype where
  container := (agtypeIntegerToAgtype 1).drop 4
  value := .integer 1
  built := .integer 1
  haveIds := rfl
  contents := containerAt_agtypeValueToAgtype rfl

theorem comparisonOperators_agree_one :
    ComparisonLaws serverComparisonOps ∧
      agtypeEq serverComparisonOps storedOne storedOne =
        (compareStored serverComparisonOps storedOne storedOne).map
          (fun res => decide (res = 0)) :=
  ⟨serverComparisonLaws, (comparisonOperators_agree serverComparisonLaws storedOne storedOne).1⟩

end Agreement

end Age.Agtype
