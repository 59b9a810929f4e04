import Age.Agtype.Contains
import Age.Agtype.Binary.RoundTrip

/-!
# What containment finds

When a container contains another, every key and every scalar of the second is
found in the first below the same keys.  The indexes rely on this.
-/

namespace Age.Agtype

open Lib

namespace AgtypeValue

mutual

/-- The keys and scalars of a node, each with the keys that lead to it. -/
def nodeItems (path : List Bytes) (leaf : AgtypeValue → Token) :
    AgtypeValue → List (List Bytes × Token)
  | array _ elems => elemItems path elems
  | object pairs => pairItems path pairs
  | null => [(path, leaf null)]
  | string val => [(path, leaf (string val))]
  | numeric val => [(path, leaf (numeric val))]
  | integer val => [(path, leaf (integer val))]
  | float val => [(path, leaf (float val))]
  | bool val => [(path, leaf (bool val))]
  | vertex pairs => [(path, leaf (vertex pairs))]
  | edge pairs => [(path, leaf (edge pairs))]
  | .path elems => [(path, leaf (.path elems))]

def elemItems (path : List Bytes) : List AgtypeValue → List (List Bytes × Token)
  | [] => []
  | elem :: rest => nodeItems path .elem elem ++ elemItems path rest

def pairItems (path : List Bytes) : List (Bytes × AgtypeValue) → List (List Bytes × Token)
  | [] => []
  | (key, value) :: rest =>
      (path, .key key) :: (nodeItems (path ++ [key]) .value value ++ pairItems path rest)

end

/-- The items of a root container. -/
def items (container : AgtypeValue) : List (List Bytes × Token) := nodeItems [] .elem container

theorem nodeItems_scalar {v : AgtypeValue} (scalar : v.isScalar = true) (path : List Bytes)
    (leaf : AgtypeValue → Token) : nodeItems path leaf v = [(path, leaf v)] := by
  cases v <;> first | rfl | cases scalar

theorem mem_elemItems {path : List Bytes} {elems : List AgtypeValue}
    {item : List Bytes × Token} :
    item ∈ elemItems path elems ↔ ∃ elem ∈ elems, item ∈ nodeItems path .elem elem := by
  induction elems with
  | nil => simp [elemItems]
  | cons elem rest inductionHypothesis => simp [elemItems, inductionHypothesis]

theorem mem_pairItems {path : List Bytes} {pairs : List AgtypePair}
    {item : List Bytes × Token} :
    item ∈ pairItems path pairs ↔
      ∃ pair ∈ pairs, item = (path, .key pair.1) ∨
        item ∈ nodeItems (path ++ [pair.1]) .value pair.2 := by
  induction pairs with
  | nil => simp [pairItems]
  | cons pair rest inductionHypothesis => simp [pairItems, inductionHypothesis, or_assoc]

end AgtypeValue

/-- Two tokens of one kind, with the same key or with scalars that are related. -/
inductive TokenMatch (same : AgtypeValue → AgtypeValue → Prop) : Token → Token → Prop where
  | key (val : Bytes) : TokenMatch same (.key val) (.key val)
  | value {a b : AgtypeValue} : same a b → TokenMatch same (.value a) (.value b)
  | elem {a b : AgtypeValue} : same a b → TokenMatch same (.elem a) (.elem b)

/-- Every item of `contained` has its match in `val` under the same keys. -/
def Covers (same : AgtypeValue → AgtypeValue → Prop) (leaf : AgtypeValue → Token)
    (val contained : AgtypeValue) : Prop :=
  ∀ path, ∀ item ∈ AgtypeValue.nodeItems path leaf contained,
    ∃ token, (item.1, token) ∈ AgtypeValue.nodeItems path leaf val ∧
      TokenMatch same token item.2

section Lookup

variable {ops : OrderOps}

theorem searchPairs_sound {pairs : List AgtypePair} {key : Bytes} {turns stopLow stopHigh : Nat}
    {value : AgtypeValue} (found : searchPairs pairs key turns stopLow stopHigh = some value) :
    (key, value) ∈ pairs := by
  induction turns generalizing stopLow stopHigh with
  | zero => cases found
  | succ turns inductionHypothesis =>
      simp only [searchPairs] at found
      split_ifs at found with more
      split at found
      · cases found
      · rename_i candidate middle there
        split_ifs at found with equal less
        · cases found
          have same := (threeWay_lengthCompare.eq_zero_iff _ _).mp equal
          exact same ▸ List.mem_of_getElem? there
        · exact inductionHypothesis found
        · exact inductionHypothesis found

theorem findFromObject_sound {pairs : List AgtypePair} {key : Bytes} {value : AgtypeValue}
    (found : findFromObject pairs key = some value) : (key, value) ∈ pairs :=
  searchPairs_sound found

theorem findFromArray_sound {key found : AgtypeValue} {elems : List AgtypeValue}
    (search : findFromArray ops key elems = .ok (some found)) :
    found ∈ elems ∧ key.sameType found = true ∧
      ops.equalsAgtypeScalarValue key found = .ok true := by
  induction elems with
  | nil => cases search
  | cons elem rest inductionHypothesis =>
      simp only [findFromArray] at search
      split_ifs at search with sameType
      · obtain ⟨equal, tested, result⟩ := bind_ok search
        cases equal with
        | true =>
            cases result
            exact ⟨List.mem_cons_self, sameType, tested⟩
        | false =>
            obtain ⟨membership, rest⟩ := inductionHypothesis result
            exact ⟨List.mem_cons_of_mem _ membership, rest⟩
      · obtain ⟨membership, rest⟩ := inductionHypothesis search
        exact ⟨List.mem_cons_of_mem _ membership, rest⟩

theorem containedInSome_sound {contains : AgtypeValue → Except ContainsError Bool}
    {lhs : List AgtypeValue} (found : containedInSome contains lhs = .ok true) :
    ∃ elem ∈ lhs, contains elem = .ok true := by
  induction lhs with
  | nil => cases found
  | cons elem rest inductionHypothesis =>
      obtain ⟨here, tested, result⟩ := bind_ok found
      cases here with
      | true => exact ⟨elem, List.mem_cons_self, tested⟩
      | false =>
          obtain ⟨other, membership, contained⟩ := inductionHypothesis result
          exact ⟨other, List.mem_cons_of_mem _ membership, contained⟩

/-- How a value of the contained object was found. -/
def ValueFound (ops : OrderOps) (skipNested : Bool) (lhsVal vcontained : AgtypeValue) : Prop :=
  lhsVal.sameType vcontained = true ∧
    if lhsVal.isScalar then ops.equalsAgtypeScalarValue lhsVal vcontained = .ok true
    else if skipNested then ops.compareAgtypeContainersOrderability lhsVal vcontained = .ok 0
    else agtypeDeepContains ops false lhsVal vcontained = .ok true

theorem containsPairs_sound {skipNested : Bool} {pairs contained : List AgtypePair}
    (contains : containsPairs ops skipNested pairs contained = .ok true) :
    ∀ pair ∈ contained, ∃ lhsVal, (pair.1, lhsVal) ∈ pairs ∧
      ValueFound ops skipNested lhsVal pair.2 := by
  induction contained with
  | nil => simp
  | cons pair rest inductionHypothesis =>
      obtain ⟨key, vcontained⟩ := pair
      rw [containsPairs] at contains
      split at contains
      · cases contains
      · rename_i lhsVal found
        by_cases sameType : lhsVal.sameType vcontained = true
        swap
        · rw [if_neg sameType] at contains
          cases contains
        rw [if_pos sameType] at contains
        obtain ⟨same, tested, result⟩ := bind_ok contains
        cases same with
        | false => cases result
        | true =>
            refine List.forall_mem_cons.mpr ⟨⟨lhsVal, findFromObject_sound found, sameType, ?_⟩,
              inductionHypothesis result⟩
            cases scalar : lhsVal.isScalar with
            | true => simpa [scalar] using tested
            | false =>
                cases skipNested with
                | false => simpa [scalar] using tested
                | true =>
                    simp only [scalar, cond_false, cond_true, OrderOps.containersEqual] at tested
                    split at tested
                    · rename_i res compared
                      simpa [compared] using tested
                    · cases tested

theorem containsElems_sound {elems contained : List AgtypeValue}
    (contains : containsElems ops elems contained = .ok true) :
    ∀ vcontained ∈ contained, ∃ elem ∈ elems, vcontained.sameType elem = true ∧
      if vcontained.isScalar then ops.equalsAgtypeScalarValue vcontained elem = .ok true
      else agtypeDeepContains ops false elem vcontained = .ok true := by
  induction contained with
  | nil => simp
  | cons vcontained rest inductionHypothesis =>
      rw [containsElems] at contains
      obtain ⟨found, tested, result⟩ := bind_ok contains
      cases found with
      | false => cases result
      | true =>
          refine List.forall_mem_cons.mpr ⟨?_, inductionHypothesis result⟩
          cases scalar : vcontained.isScalar with
          | true =>
              rw [scalar, cond_true] at tested
              cases search : findFromArray ops vcontained elems with
              | error error => rw [search] at tested; cases tested
              | ok found =>
                  cases found with
                  | none => rw [search] at tested; cases tested
                  | some elem =>
                      obtain ⟨membership, sameType, equal⟩ := findFromArray_sound search
                      exact ⟨elem, membership, sameType, equal⟩
          | false =>
              rw [scalar, cond_false] at tested
              obtain ⟨elem, membership, contained⟩ := containedInSome_sound tested
              obtain ⟨membership, nested⟩ := List.mem_filter.mp membership
              refine ⟨elem, membership, ?_, contained⟩
              simp_all [AgtypeValue.sameType]

theorem sameType_symm {a b : AgtypeValue} (same : a.sameType b = true) : b.sameType a = true := by
  unfold AgtypeValue.sameType at same ⊢
  cases first : a.isScalar <;> cases second : b.isScalar <;> simp_all

theorem isScalar_of_sameType {a b : AgtypeValue} (same : a.sameType b = true) :
    a.isScalar = b.isScalar := by
  unfold AgtypeValue.sameType at same
  cases first : a.isScalar <;> cases second : b.isScalar <;> simp_all

end Lookup

section Covering

variable {ops : OrderOps} {same : AgtypeValue → AgtypeValue → Prop}

theorem covers_scalar {leaf : AgtypeValue → Token} {a b : AgtypeValue} (scalarA : a.isScalar = true)
    (scalarB : b.isScalar = true) (isMatch : TokenMatch same (leaf a) (leaf b)) :
    Covers same leaf a b := by
  intro path item membership
  rw [AgtypeValue.nodeItems_scalar scalarB, List.mem_singleton] at membership
  subst membership
  refine ⟨leaf a, ?_, isMatch⟩
  rw [AgtypeValue.nodeItems_scalar scalarA]
  exact List.mem_singleton_self _

theorem covers_object {leaf : AgtypeValue → Token} {pairs contained : List AgtypePair}
    (found : ∀ pair ∈ contained, ∃ lhsVal, (pair.1, lhsVal) ∈ pairs ∧
      Covers same .value lhsVal pair.2) : Covers same leaf (.object pairs) (.object contained) := by
  intro path item membership
  obtain ⟨pair, pairIn, here⟩ := AgtypeValue.mem_pairItems.mp membership
  obtain ⟨lhsVal, lhsIn, covers⟩ := found pair pairIn
  rcases here with rfl | below
  · exact ⟨.key pair.1, AgtypeValue.mem_pairItems.mpr ⟨_, lhsIn, .inl rfl⟩, .key _⟩
  · obtain ⟨token, tokenIn, isMatch⟩ := covers _ item below
    exact ⟨token, AgtypeValue.mem_pairItems.mpr ⟨_, lhsIn, .inr tokenIn⟩, isMatch⟩

theorem covers_array {leaf : AgtypeValue → Token} {raw rawContained : Bool}
    {elems contained : List AgtypeValue}
    (found : ∀ vcontained ∈ contained, ∃ elem ∈ elems, Covers same .elem elem vcontained) :
    Covers same leaf (.array raw elems) (.array rawContained contained) := by
  intro path item membership
  obtain ⟨vcontained, vcontainedIn, here⟩ := AgtypeValue.mem_elemItems.mp membership
  obtain ⟨elem, elemIn, covers⟩ := found vcontained vcontainedIn
  obtain ⟨token, tokenIn, isMatch⟩ := covers _ item here
  exact ⟨token, AgtypeValue.mem_elemItems.mpr ⟨elem, elemIn, tokenIn⟩, isMatch⟩

/-- What the test for scalars says, whichever side it is asked from. -/
def TestedEqual (ops : OrderOps) (a b : AgtypeValue) : Prop :=
  ops.equalsAgtypeScalarValue a b = .ok true ∨ ops.equalsAgtypeScalarValue b a = .ok true

/-- The containers of a `true` answer, and what the loops have found. -/
theorem agtypeDeepContains_cases {skipNested : Bool} {val contained : AgtypeValue}
    (contains : agtypeDeepContains ops skipNested val contained = .ok true) :
    (∃ pairs containedPairs, val = .object pairs ∧ contained = .object containedPairs ∧
      containsPairs ops skipNested pairs containedPairs = .ok true) ∨
    ∃ raw elems rawContained containedElems, val = .array raw elems ∧
      contained = .array rawContained containedElems ∧
      containsElems ops elems containedElems = .ok true := by
  cases contained with
  | object containedPairs =>
      cases val <;> try cases contains
      case object pairs =>
        rw [agtypeDeepContains] at contains
        split_ifs at contains
        · cases contains
        · exact .inl ⟨pairs, containedPairs, rfl, rfl, contains⟩
  | array rawContained containedElems =>
      cases val <;> try cases contains
      case array raw elems =>
        rw [agtypeDeepContains] at contains
        split_ifs at contains
        · cases contains
        · exact .inr ⟨raw, elems, rawContained, containedElems, rfl, rfl, contains⟩
  | _ => cases contains

/-- Elements found in an array cover the elements looked for. -/
theorem covers_of_containsElems {elems contained : List AgtypeValue}
    (contains : containsElems ops elems contained = .ok true)
    (sameOf : ∀ a b, a.sameType b = true → TestedEqual ops a b → same a b)
    (nested : ∀ vcontained ∈ contained, ∀ val, agtypeDeepContains ops false val vcontained =
      .ok true → Covers same .elem val vcontained) :
    ∀ vcontained ∈ contained, ∃ elem ∈ elems, Covers same .elem elem vcontained := by
  intro vcontained membership
  obtain ⟨elem, elemIn, sameType, found⟩ := containsElems_sound contains vcontained membership
  refine ⟨elem, elemIn, ?_⟩
  cases scalar : vcontained.isScalar with
  | true =>
      rw [if_pos scalar] at found
      have scalarElem := (isScalar_of_sameType sameType).symm.trans scalar
      exact covers_scalar scalarElem scalar
        (.elem (sameOf _ _ (sameType_symm sameType) (.inr found)))
  | false =>
      rw [if_neg (by simp [scalar])] at found
      exact nested vcontained membership elem found

/-- Containment finds every item. -/
theorem covers_of_agtypeDeepContains {val contained : AgtypeValue} (leaf : AgtypeValue → Token)
    (sameOf : ∀ a b, a.sameType b = true → TestedEqual ops a b → same a b)
    (contains : agtypeDeepContains ops false val contained = .ok true) :
    Covers same leaf val contained := by
  induction contained using AgtypeValue.inductionOn generalizing val leaf with
  | object containedPairs children =>
      obtain ⟨pairs, _, rfl, equal, found⟩ | ⟨_, _, _, _, _, equal, _⟩ :=
        agtypeDeepContains_cases contains
      swap
      · cases equal
      cases equal
      refine covers_object fun pair membership => ?_
      obtain ⟨lhsVal, lhsIn, sameType, tested⟩ := containsPairs_sound found pair membership
      refine ⟨lhsVal, lhsIn, ?_⟩
      cases scalar : lhsVal.isScalar with
      | true =>
          rw [if_pos scalar] at tested
          exact covers_scalar scalar ((isScalar_of_sameType sameType).symm.trans scalar)
            (.value (sameOf _ _ sameType (.inl tested)))
      | false =>
          rw [if_neg (by simp [scalar]), if_neg (by simp)] at tested
          exact children pair membership .value tested
  | array rawContained containedElems children =>
      obtain ⟨_, _, _, equal, _⟩ | ⟨raw, elems, _, _, rfl, equal, found⟩ :=
        agtypeDeepContains_cases contains
      · cases equal
      cases equal
      exact covers_array (covers_of_containsElems found sameOf fun vcontained membership _ =>
        children vcontained membership .elem)
  | _ => cases contains

theorem parseSinglePair_path_ne_nil {constraints value : AgtypeValue} {path : List Bytes}
    (parsed : parseSinglePairContainsConstraint constraints = some (path, value)) :
    path ≠ [] := by
  fun_cases parseSinglePairContainsConstraint constraints with
  | case1 key pairs =>
      rw [parseSinglePairContainsConstraint] at parsed
      obtain ⟨⟨rest, value'⟩, _, result⟩ := Option.bind_eq_some_iff.mp parsed
      cases result
      simp
  | case2 key value' _ scalar =>
      rw [parseSinglePairContainsConstraint, if_pos scalar] at parsed
      · cases parsed
        simp
      · assumption
  | case3 key value' _ scalar =>
      rw [parseSinglePairContainsConstraint, if_neg scalar] at parsed
      · cases parsed
      · assumption
  | case4 => simp_all [parseSinglePairContainsConstraint]

theorem isScalar_of_isSinglePairContainsScalar {v : AgtypeValue}
    (single : isSinglePairContainsScalar v = true) : v.isScalar = true := by
  cases v <;> first | rfl | cases single

/-- Two nulls are taken as equal without a comparison. -/
theorem compare_eq_zero_of_answer {a b : AgtypeValue} {res : Int} (sameType : a.sameType b = true)
    (compared : ops.compareAgtypeScalarValues a b = .ok res)
    (answer : (Except.ok (b.type = .null || res = 0) : Except ContainsError Bool) = .ok true) :
    ops.compareAgtypeScalarValues a b = .ok 0 := by
  by_cases zero : res = 0
  · rw [compared, zero]
  · have isNull : b.type = .null := by simpa [zero] using answer
    cases b <;> cases isNull
    cases a <;> first | rfl | cases sameType

/-- A single pair that was found covers the constraint it was parsed from. -/
theorem covers_of_evalSinglePair {constraints : AgtypeValue} {properties : List AgtypePair}
    {path : List Bytes} {value : AgtypeValue} (leaf : AgtypeValue → Token)
    (sameOf : ∀ a b, a.sameType b = true → ops.compareAgtypeScalarValues a b = .ok 0 → same a b)
    (parsed : parseSinglePairContainsConstraint constraints = some (path, value))
    (contains : evalSinglePairContainsConstraint ops value properties path = .ok true) :
    Covers same leaf (.object properties) constraints := by
  induction constraints using parseSinglePairContainsConstraint.induct
    generalizing properties path leaf with
  | case1 key pairs inductionHypothesis =>
      rw [parseSinglePairContainsConstraint] at parsed
      obtain ⟨⟨rest, value'⟩, parsedRest, result⟩ := Option.bind_eq_some_iff.mp parsed
      cases result
      obtain ⟨next, others, rfl⟩ := List.exists_cons_of_ne_nil
        (parseSinglePair_path_ne_nil parsedRest)
      rw [evalSinglePairContainsConstraint] at contains
      · split at contains
        · rename_i nested found
          refine covers_object fun pair membership => ?_
          rw [List.mem_singleton] at membership
          subst membership
          exact ⟨_, findFromObject_sound found, inductionHypothesis .value parsedRest contains⟩
        · cases contains
      · simp
  | case2 key value' notObject scalar =>
      rw [parseSinglePairContainsConstraint, if_pos scalar] at parsed
      · cases parsed
        rw [evalSinglePairContainsConstraint] at contains
        split at contains
        · cases contains
        · rename_i propertyValue found
          split_ifs at contains with sameType
          · split at contains
            · rename_i res compared
              have scalarValue := isScalar_of_isSinglePairContainsScalar scalar
              have zero := compare_eq_zero_of_answer sameType compared contains
              refine covers_object fun pair membership => ?_
              rw [List.mem_singleton] at membership
              subst membership
              exact ⟨_, findFromObject_sound found, covers_scalar
                ((isScalar_of_sameType sameType).trans scalarValue) scalarValue
                (.value (sameOf _ _ sameType zero))⟩
            · cases contains
          · cases contains
      · assumption
  | case3 key value' _ scalar =>
      rw [parseSinglePairContainsConstraint, if_neg scalar] at parsed
      · cases parsed
      · assumption
  | case4 => simp_all [parseSinglePairContainsConstraint]

/-- The scalars that a containment test takes for equal. -/
def TreatedEqual (ops : OrderOps) (a b : AgtypeValue) : Prop :=
  a.sameType b = true ∧ (TestedEqual ops a b ∨ ops.compareAgtypeScalarValues a b = .ok 0)

/-- The containment operator on two roots that are no entities. -/
theorem covers_of_agtypeContains {v q : AgtypeValue}
    (contains : agtypeContains ops v q = .ok true)
    (vPlain : getEntityPropertiesContainer v = .ok (some v))
    (qPlain : getEntityPropertiesContainer q = .ok (some q)) :
    Covers (TreatedEqual ops) .elem v q := by
  rw [agtypeContains, vPlain, qPlain] at contains
  simp only [bind, Except.bind] at contains
  by_cases kinds : v.isObject ≠ q.isObject
  · rw [if_pos kinds] at contains
    cases contains
  rw [if_neg kinds] at contains
  cases single : trySinglePairObjectContains ops v q with
  | none =>
      rw [single] at contains
      exact covers_of_agtypeDeepContains .elem
        (fun a b sameType tested => ⟨sameType, .inl tested⟩) contains
  | some answer =>
      rw [single] at contains
      cases v <;> try cases single
      case object properties =>
        obtain ⟨⟨path, value⟩, parsed, result⟩ := Option.bind_eq_some_iff.mp single
        cases result
        exact covers_of_evalSinglePair .elem
          (fun a b sameType compared => ⟨sameType, .inr compared⟩) parsed contains

/-- How two scalars can be treated as equal. -/
inductive ScalarAlike (ops : OrderOps) : AgtypeValue → AgtypeValue → Prop where
  | refl (a : AgtypeValue) : ScalarAlike ops a a
  | numeric {a b : Numeric} : ops.numericCmp a b = 0 ∨ ops.numericCmp b a = 0 →
      ScalarAlike ops (.numeric a) (.numeric b)
  | float {a b : Float8} : a.isNaN = true ∧ b.isNaN = true ∨
      a.isNaN = false ∧ b.isNaN = false ∧ a.place = b.place →
      ScalarAlike ops (.float a) (.float b)
  | vertex (a b : List AgtypePair) : ScalarAlike ops (.vertex a) (.vertex b)
  | edge (a b : List AgtypePair) : ScalarAlike ops (.edge a) (.edge b)
  | path (a b : List AgtypeValue) : ScalarAlike ops (.path a) (.path b)

theorem ieeeEq_iff {a b : Float8} : a.ieeeEq b = true ↔
    a.isNaN = false ∧ b.isNaN = false ∧ a.place = b.place := by
  simp [Float8.ieeeEq, and_assoc]

theorem compareTwoFloats_eq_zero {a b : Float8}
    (zero : compareTwoFloatsOrderability a b = 0) : a.isNaN = true ∧ b.isNaN = true ∨
      a.isNaN = false ∧ b.isNaN = false ∧ a.place = b.place := by
  unfold compareTwoFloatsOrderability at zero
  split_ifs at zero <;> simp_all
  omega

theorem Float8.eq_of_place {a b : Float8} (places : a.place = b.place) (nonzero : b.place ≠ 0) :
    a = b := by
  have sizeA := a.bits.toNat_lt
  have sizeB := b.bits.toNat_lt
  have equal : a.bits.toNat = b.bits.toNat := by
    simp only [Float8.place, Float8.isNegative, Float8.magnitude, decide_eq_true_eq] at places nonzero
    split_ifs at places nonzero <;> omega
  have bits : a.bits = b.bits := UInt64.toNat_inj.mp equal
  cases a
  cases b
  exact congrArg Float8.mk bits

theorem compareStrings_eq_zero (collation : ThreeWay ops.varstrCmp) {a b : Bytes}
    (zero : ops.compareStrings a b = 0) : a = b := by
  unfold OrderOps.compareStrings at zero
  simp only at zero
  refine (collation.eq_zero_iff a b).mp ?_
  split_ifs at zero <;> omega

theorem scalarAlike_of_equals {a b : AgtypeValue}
    (equal : ops.equalsAgtypeScalarValue a b = .ok true) : ScalarAlike ops a b := by
  fun_cases OrderOps.equalsAgtypeScalarValue ops a b with
  | case1 => exact .refl _
  | case2 a b =>
      have same : lengthCompareAgtypeStringValue a b = 0 := by
        simpa [OrderOps.equalsAgtypeScalarValue] using equal
      rw [(threeWay_lengthCompare.eq_zero_iff _ _).mp same]
      exact .refl _
  | case3 a b => exact .numeric (.inl (by simpa [OrderOps.equalsAgtypeScalarValue] using equal))
  | case4 a b =>
      have same : a = b := by simpa [OrderOps.equalsAgtypeScalarValue] using equal
      exact same ▸ .refl _
  | case5 a b =>
      have same : a = b := by simpa [OrderOps.equalsAgtypeScalarValue] using equal
      exact same ▸ .refl _
  | case6 a b =>
      have same : a.ieeeEq b = true := by simpa [OrderOps.equalsAgtypeScalarValue] using equal
      exact .float (.inr (ieeeEq_iff.mp same))
  | case7 a b => exact .vertex a b
  | case8 => simp_all [OrderOps.equalsAgtypeScalarValue]
  | case9 => simp_all [OrderOps.equalsAgtypeScalarValue]

theorem ScalarAlike.symm {a b : AgtypeValue} (alike : ScalarAlike ops a b) :
    ScalarAlike ops b a := by
  cases alike with
  | refl => exact .refl _
  | numeric equal => exact .numeric equal.symm
  | float equal => exact .float (by rcases equal with ⟨a, b⟩ | ⟨a, b, c⟩ <;> simp_all)
  | vertex a b => exact .vertex b a
  | edge a b => exact .edge b a
  | path a b => exact .path b a

theorem scalarAlike_of_compare (collation : ThreeWay ops.varstrCmp) {a b : AgtypeValue}
    (sameType : a.sameType b = true) (compared : ops.compareAgtypeScalarValues a b = .ok 0) :
    ScalarAlike ops a b := by
  cases a <;> cases b <;> try cases sameType
  case null.null.refl => exact .refl _
  case string.string.refl a b =>
    have zero : ops.compareStrings a b = 0 := by
      simpa [OrderOps.compareAgtypeScalarValues] using compared
    exact compareStrings_eq_zero collation zero ▸ .refl _
  case numeric.numeric.refl a b =>
    exact .numeric (.inl (by simpa [OrderOps.compareAgtypeScalarValues] using compared))
  case integer.integer.refl a b =>
    have zero : compareInt64 a b = 0 := by simpa [OrderOps.compareAgtypeScalarValues] using compared
    have same : a = b := by
      unfold compareInt64 at zero
      split_ifs at zero <;> first | assumption | omega
    exact same ▸ .refl _
  case float.float.refl a b =>
    exact .float (compareTwoFloats_eq_zero
      (by simpa [OrderOps.compareAgtypeScalarValues] using compared))
  case bool.bool.refl a b =>
    have zero : compareBool a b = 0 := by simpa [OrderOps.compareAgtypeScalarValues] using compared
    have same : a = b := by
      unfold compareBool at zero
      split_ifs at zero <;> first | assumption | omega
    exact same ▸ .refl _
  case vertex.vertex.refl a b => exact .vertex a b
  case edge.edge.refl a b => exact .edge a b
  case path.path.refl a b => exact .path a b
  all_goals simp [OrderOps.compareAgtypeScalarValues] at compared

theorem scalarAlike_of_treatedEqual (collation : ThreeWay ops.varstrCmp) {a b : AgtypeValue}
    (same : TreatedEqual ops a b) : ScalarAlike ops a b := by
  obtain ⟨sameType, (equal | equal) | compared⟩ := same
  · exact scalarAlike_of_equals equal
  · exact (scalarAlike_of_equals equal).symm
  · exact scalarAlike_of_compare collation sameType compared

end Covering

section Compared

variable {ops : OrderOps}

/-- Tokens that do not decide a comparison. -/
inductive TokensAlike (ops : OrderOps) : Token → Token → Prop where
  | key (val : Bytes) : TokensAlike ops (.key val) (.key val)
  | value {a b : AgtypeValue} : ops.compareLeaves a b = .ok 0 →
      TokensAlike ops (.value a) (.value b)
  | elem {a b : AgtypeValue} : ops.compareLeaves a b = .ok 0 → TokensAlike ops (.elem a) (.elem b)
  | beginArray (rawScalar : Bool) (n m : Nat) :
      TokensAlike ops (.beginArray rawScalar n) (.beginArray rawScalar m)
  | endArray : TokensAlike ops .endArray .endArray
  | beginObject (n m : Nat) : TokensAlike ops (.beginObject n) (.beginObject m)
  | endObject : TokensAlike ops .endObject .endObject

theorem tokensAlike_of_compareTokens (collation : ThreeWay ops.varstrCmp) {ra rb : Token}
    {restA restB : List Token} (compared : ops.compareTokens ra rb restA restB = .ok 0) :
    TokensAlike ops ra rb := by
  -- tokens of two kinds are never equal
  have otherwise (unlike : ops.compareTokens ra rb restA restB =
      if ra.isEnd then .ok (-1) else if rb.isEnd then .ok 1 else do
        let types ← OrderOps.correctedTypes ra rb restA restB
        return typeDefinedOrder types.1 types.2) : TokensAlike ops ra rb := by
    rw [unlike] at compared
    split_ifs at compared
    · cases compared
    · cases compared
    · obtain ⟨types, -, result⟩ := bind_ok compared
      injection result with zero
      exact (typeDefinedOrder_ne_zero _ _ zero).elim
  cases ra <;> cases rb <;> try exact otherwise rfl
  case key.key a b =>
    have zero : ops.compareStrings a b = 0 := by
      simpa [OrderOps.compareTokens] using compared
    exact compareStrings_eq_zero collation zero ▸ .key a
  case value.value a b => exact .value compared
  case elem.elem a b => exact .elem compared
  case beginArray.beginArray rawA n rawB m =>
    rw [OrderOps.compareTokens] at compared
    split_ifs at compared with same raw
    · exact same ▸ .beginArray rawA n m
    all_goals
      injection compared with zero
      exact (typeDefinedOrder_ne_zero _ _ zero).elim
  case endArray.endArray => exact .endArray
  case beginObject.beginObject n m => exact .beginObject n m
  case endObject.endObject => exact .endObject

/-- Streams that compare as equal agree token by token. -/
theorem forall₂_of_compareLoop (collation : ThreeWay ops.varstrCmp) {as bs : List Token}
    (compared : ops.compareLoop as bs = .ok 0) : List.Forall₂ (TokensAlike ops) as bs := by
  induction as generalizing bs with
  | nil =>
      cases bs with
      | nil => exact .nil
      | cons rb rest =>
          rw [OrderOps.compareLoop] at compared
          split_ifs at compared
          all_goals cases compared
  | cons ra restA inductionHypothesis =>
      cases bs with
      | nil =>
          rw [OrderOps.compareLoop] at compared
          split_ifs at compared
          all_goals cases compared
      | cons rb restB =>
          rw [OrderOps.compareLoop] at compared
          obtain ⟨res, first, others⟩ := bind_ok compared
          by_cases decided : res ≠ 0
          · rw [if_pos decided] at others
            cases others
            exact (decided rfl).elim
          rw [if_neg decided] at others
          rw [not_not.mp decided] at first
          exact .cons (tokensAlike_of_compareTokens collation first) (inductionHypothesis others)

end Compared

end Age.Agtype
