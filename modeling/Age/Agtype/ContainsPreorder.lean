import Age.Agtype.ContainsMatch
import Age.Agtype.NumericOrder

/-!
# Containment as a preorder

A container contains itself when equality holds of each of its scalars, and what a contained
container contains is contained.
-/

namespace Age.Agtype

open Lib

namespace AgtypeValue

mutual

/-- Objects have increasing keys, and vertices have their id. -/
def isBuilt : AgtypeValue → Bool
  | vertex pairs => (vertexGetId pairs).toBool
  | array _ elems => areBuilt elems
  | object pairs => decide (KeysIncrease pairs) && areBuiltPairs pairs
  | _ => true

def areBuilt : List AgtypeValue → Bool
  | [] => true
  | elem :: rest => isBuilt elem && areBuilt rest

def areBuiltPairs : List (Bytes × AgtypeValue) → Bool
  | [] => true
  | (_, value) :: rest => isBuilt value && areBuiltPairs rest

end

mutual

/-- No NaN, no edge and no path is among the scalars of the containers. -/
def equalsItself : AgtypeValue → Bool
  | float val => !val.isNaN
  | edge _ => false
  | path _ => false
  | array _ elems => equalThemselves elems
  | object pairs => valuesEqualThemselves pairs
  | _ => true

def equalThemselves : List AgtypeValue → Bool
  | [] => true
  | elem :: rest => equalsItself elem && equalThemselves rest

def valuesEqualThemselves : List (Bytes × AgtypeValue) → Bool
  | [] => true
  | (_, value) :: rest => equalsItself value && valuesEqualThemselves rest

end

theorem areBuilt_iff {elems : List AgtypeValue} :
    areBuilt elems = true ↔ ∀ elem ∈ elems, elem.isBuilt = true := by
  induction elems with
  | nil => simp [areBuilt]
  | cons elem rest inductionHypothesis => simp [areBuilt, inductionHypothesis]

theorem areBuiltPairs_iff {pairs : List AgtypePair} :
    areBuiltPairs pairs = true ↔ ∀ pair ∈ pairs, pair.2.isBuilt = true := by
  induction pairs with
  | nil => simp [areBuiltPairs]
  | cons pair rest inductionHypothesis =>
      rw [areBuiltPairs, Bool.and_eq_true, inductionHypothesis, List.forall_mem_cons]

theorem equalThemselves_iff {elems : List AgtypeValue} :
    equalThemselves elems = true ↔ ∀ elem ∈ elems, elem.equalsItself = true := by
  induction elems with
  | nil => simp [equalThemselves]
  | cons elem rest inductionHypothesis => simp [equalThemselves, inductionHypothesis]

theorem valuesEqualThemselves_iff {pairs : List AgtypePair} :
    valuesEqualThemselves pairs = true ↔ ∀ pair ∈ pairs, pair.2.equalsItself = true := by
  induction pairs with
  | nil => simp [valuesEqualThemselves]
  | cons pair rest inductionHypothesis =>
      rw [valuesEqualThemselves, Bool.and_eq_true, inductionHypothesis, List.forall_mem_cons]

end AgtypeValue

section Scalars

variable {ops : OrderOps} {a b c : AgtypeValue}

/-- The scalars that `equals_agtype_scalar_value` takes for equal -/
inductive SameScalar (ops : OrderOps) : AgtypeValue → AgtypeValue → Prop where
  | null : SameScalar ops .null .null
  | string (val : Bytes) : SameScalar ops (.string val) (.string val)
  | numeric {a b : Numeric} : ops.numericCmp a b = 0 → SameScalar ops (.numeric a) (.numeric b)
  | bool (val : Bool) : SameScalar ops (.bool val) (.bool val)
  | integer (val : Int64) : SameScalar ops (.integer val) (.integer val)
  | float {a b : Float8} : a.ieeeEq b = true → SameScalar ops (.float a) (.float b)
  | vertex {a b : List AgtypePair} {id : Int64} : vertexGetId a = .ok id →
      vertexGetId b = .ok id → SameScalar ops (.vertex a) (.vertex b)

theorem equals_eq_true_iff :
    ops.equalsAgtypeScalarValue a b = .ok true ↔ SameScalar ops a b := by
  constructor
  · intro equal
    fun_cases OrderOps.equalsAgtypeScalarValue ops a b with
    | case1 => exact .null
    | case2 a b =>
        have same : lengthCompareAgtypeStringValue a b = 0 := by
          simpa [OrderOps.equalsAgtypeScalarValue] using equal
        rw [(threeWay_lengthCompare.eq_zero_iff _ _).mp same]
        exact .string b
    | case3 a b => exact .numeric (by simpa [OrderOps.equalsAgtypeScalarValue] using equal)
    | case4 a b =>
        have same : a = b := by simpa [OrderOps.equalsAgtypeScalarValue] using equal
        exact same ▸ .bool a
    | case5 a b =>
        have same : a = b := by simpa [OrderOps.equalsAgtypeScalarValue] using equal
        exact same ▸ .integer a
    | case6 a b => exact .float (by simpa [OrderOps.equalsAgtypeScalarValue] using equal)
    | case7 a b =>
        rw [OrderOps.equalsAgtypeScalarValue] at equal
        cases isA : vertexGetId a with
        | error => rw [isA] at equal; cases equal
        | ok first =>
            cases isB : vertexGetId b with
            | error => rw [isA, isB] at equal; cases equal
            | ok second =>
                rw [isA, isB] at equal
                have same : first = second := by
                  simpa [Except.mapError, Bind.bind, Except.bind, Pure.pure, Except.pure]
                    using equal
                exact .vertex isA (same ▸ isB)
    | case8 => simp_all [OrderOps.equalsAgtypeScalarValue]
    | case9 => simp_all [OrderOps.equalsAgtypeScalarValue]
  · intro same
    cases same with
    | null => rfl
    | string val =>
        have := (threeWay_lengthCompare.eq_zero_iff val val).mpr rfl
        simp [OrderOps.equalsAgtypeScalarValue, this]
    | numeric equal => simp [OrderOps.equalsAgtypeScalarValue, equal]
    | bool val => simp [OrderOps.equalsAgtypeScalarValue]
    | integer val => simp [OrderOps.equalsAgtypeScalarValue]
    | float equal => simp [OrderOps.equalsAgtypeScalarValue, equal]
    | vertex isA isB =>
        rw [OrderOps.equalsAgtypeScalarValue, isA, isB]
        exact congrArg Except.ok (decide_eq_true rfl)

theorem SameScalar.trans (order : NumericOrder ops) (first : SameScalar ops a b)
    (second : SameScalar ops b c) : SameScalar ops a c := by
  cases first with
  | null => exact second
  | string val => exact second
  | numeric equal =>
      cases second with
      | numeric later => exact .numeric (order.zero_trans equal later)
  | bool val => exact second
  | integer val => exact second
  | float equal =>
      cases second with
      | float later =>
          obtain ⟨notNaN, -, places⟩ := ieeeEq_iff.mp equal
          obtain ⟨-, lastNotNaN, laterPlaces⟩ := ieeeEq_iff.mp later
          exact .float (ieeeEq_iff.mpr ⟨notNaN, lastNotNaN, places.trans laterPlaces⟩)
  | vertex isA isB =>
      cases second with
      | vertex isSame isC =>
          obtain rfl := Except.ok.inj (isB.symm.trans isSame)
          exact .vertex isA isC

theorem SameScalar.symm (order : NumericOrder ops) (same : SameScalar ops a b) :
    SameScalar ops b a := by
  cases same with
  | numeric equal => exact .numeric (order.zero_symm equal)
  | float equal =>
      obtain ⟨first, second, places⟩ := ieeeEq_iff.mp equal
      exact .float (ieeeEq_iff.mpr ⟨second, first, places.symm⟩)
  | vertex isA isB => exact .vertex isB isA
  | null => exact .null
  | string val => exact .string val
  | bool val => exact .bool val
  | integer val => exact .integer val

/-- What is equal to something is equal to itself. -/
theorem SameScalar.equalsItself (same : SameScalar ops a b) :
    a.equalsItself = true ∧ b.equalsItself = true := by
  cases same with
  | float equal =>
      obtain ⟨first, second, -⟩ := ieeeEq_iff.mp equal
      simp [AgtypeValue.equalsItself, first, second]
  | _ => exact ⟨rfl, rfl⟩

theorem SameScalar.sameType (same : SameScalar ops a b) : a.sameType b = true := by
  cases same <;> rfl

theorem sameScalar_refl (order : NumericOrder ops) (isScalar : a.isScalar = true)
    (isBuilt : a.isBuilt = true) (itself : a.equalsItself = true) : SameScalar ops a a := by
  cases a with
  | null => exact .null
  | string val => exact .string val
  | numeric val => exact .numeric (order.refl val)
  | bool val => exact .bool val
  | integer val => exact .integer val
  | float val =>
      have notNaN : val.isNaN = false := by simpa [AgtypeValue.equalsItself] using itself
      exact .float (ieeeEq_iff.mpr ⟨notNaN, notNaN, rfl⟩)
  | vertex pairs =>
      rw [AgtypeValue.isBuilt] at isBuilt
      cases isId : vertexGetId pairs with
      | error => rw [isId] at isBuilt; cases isBuilt
      | ok id => exact .vertex isId isId
  | edge pairs => cases itself
  | path elems => cases itself
  | array raw elems => cases isScalar
  | object pairs => cases isScalar

/-- Two built scalars of one type are compared, unless they are edges or paths. -/
theorem equals_total (sameType : a.sameType b = true) (isScalar : a.isScalar = true)
    (builtA : a.isBuilt = true) (builtB : b.isBuilt = true)
    (itself : a.equalsItself = true ∨ b.equalsItself = true) :
    ∃ same, ops.equalsAgtypeScalarValue a b = .ok same := by
  cases a <;> cases b <;> try cases sameType
  case vertex.vertex.refl a b =>
    rw [AgtypeValue.isBuilt] at builtA builtB
    cases isA : vertexGetId a with
    | error => rw [isA] at builtA; cases builtA
    | ok first =>
        cases isB : vertexGetId b with
        | error => rw [isB] at builtB; cases builtB
        | ok second =>
            refine ⟨decide (first = second), ?_⟩
            rw [OrderOps.equalsAgtypeScalarValue, isA, isB]
            rfl
  case edge.edge.refl => rcases itself with impossible | impossible <;> cases impossible
  case path.path.refl => rcases itself with impossible | impossible <;> cases impossible
  all_goals first | exact ⟨_, rfl⟩ | cases isScalar

end Scalars

section Lookup

variable {ops : OrderOps}

theorem findFromObject_of_mem {pairs : List AgtypePair} {key : Bytes} {value : AgtypeValue}
    (increase : KeysIncrease pairs) (inside : (key, value) ∈ pairs) :
    findFromObject pairs key = some value := by
  obtain ⟨place, isPlace, atPlace⟩ := List.mem_iff_getElem.mp inside
  -- The key of the pair is never left out of the interval.
  have search (turns stopLow stopHigh : Nat) (lower : stopLow ≤ place) (upper : place < stopHigh)
      (bounded : stopHigh ≤ pairs.length) (enough : stopHigh - stopLow ≤ turns) :
      searchPairs pairs key turns stopLow stopHigh = some value := by
    induction turns generalizing stopLow stopHigh with
    | zero => omega
    | succ turns inductionHypothesis =>
        have inRange : stopLow + (stopHigh - stopLow) / 2 < pairs.length := by omega
        have keyAt : pairs[place].1 = key := congrArg Prod.fst atPlace
        have ordered := List.pairwise_iff_getElem.mp increase
        rw [searchPairs, if_pos (by omega)]
        dsimp only
        rw [List.getElem?_eq_getElem inRange]
        dsimp only
        rcases Nat.lt_trichotomy (stopLow + (stopHigh - stopLow) / 2) place with
          less | same | greater
        · have below := ordered _ _ inRange isPlace less
          rw [keyAt] at below
          rw [if_neg (by omega), if_pos below]
          exact inductionHypothesis _ _ (by omega) upper bounded (by omega)
        · have here : pairs[stopLow + (stopHigh - stopLow) / 2] = (key, value) :=
            (getElem_congr_idx same).trans atPlace
          rw [here, if_pos ((threeWay_lengthCompare.eq_zero_iff key key).mpr rfl)]
        · have above := ordered _ _ isPlace inRange greater
          rw [keyAt, threeWay_lengthCompare.neg_iff_pos] at above
          rw [if_neg (by omega), if_neg (by omega)]
          exact inductionHypothesis _ _ lower (by omega) (by omega) (by omega)
  exact search pairs.length 0 pairs.length (Nat.zero_le _) isPlace le_rfl le_rfl

/-- The search in an array ends where each test of it does. -/
theorem findFromArray_total {key : AgtypeValue} {elems : List AgtypeValue}
    (total : ∀ elem ∈ elems, key.sameType elem = true →
      ∃ same, ops.equalsAgtypeScalarValue key elem = .ok same) :
    ∃ found, findFromArray ops key elems = .ok found ∧
      ((∃ elem ∈ elems, key.sameType elem = true ∧
        ops.equalsAgtypeScalarValue key elem = .ok true) → found.isSome = true) := by
  induction elems with
  | nil =>
      refine ⟨none, rfl, ?_⟩
      rintro ⟨elem, impossible, -⟩
      cases impossible
  | cons elem rest inductionHypothesis =>
      obtain ⟨here, later⟩ := List.forall_mem_cons.mp total
      obtain ⟨found, search, complete⟩ := inductionHypothesis later
      rw [findFromArray]
      split_ifs with sameType
      · obtain ⟨same, tested⟩ := here sameType
        rw [tested]
        cases same with
        | true => exact ⟨some elem, rfl, fun _ => rfl⟩
        | false =>
            refine ⟨found, search, ?_⟩
            rintro ⟨other, isOther, otherType, equal⟩
            apply complete
            rcases List.mem_cons.mp isOther with rfl | isLater
            · rw [tested] at equal
              cases equal
            · exact ⟨other, isLater, otherType, equal⟩
      · refine ⟨found, search, ?_⟩
        rintro ⟨other, isOther, otherType, equal⟩
        apply complete
        rcases List.mem_cons.mp isOther with rfl | isLater
        · exact absurd otherType sameType
        · exact ⟨other, isLater, otherType, equal⟩

theorem containedInSome_total {contains : AgtypeValue → Except ContainsError Bool}
    {lhs : List AgtypeValue} (total : ∀ elem ∈ lhs, ∃ here, contains elem = .ok here) :
    ∃ found, containedInSome contains lhs = .ok found ∧
      ((∃ elem ∈ lhs, contains elem = .ok true) → found = true) := by
  induction lhs with
  | nil => exact ⟨false, rfl, fun ⟨_, impossible, _⟩ => by cases impossible⟩
  | cons elem rest inductionHypothesis =>
      obtain ⟨⟨here, tested⟩, later⟩ := List.forall_mem_cons.mp total
      obtain ⟨found, search, complete⟩ := inductionHypothesis later
      rw [containedInSome, tested]
      cases here with
      | true => exact ⟨true, rfl, fun _ => rfl⟩
      | false =>
          refine ⟨found, search, fun ⟨other, isOther, contained⟩ => complete ?_⟩
          rcases List.mem_cons.mp isOther with rfl | isLater
          · rw [tested] at contained
            cases contained
          · exact ⟨other, isLater, contained⟩

end Lookup

section Preorder

variable {ops : OrderOps} {a b c : AgtypeValue}

/-- The test of one value of an object or an array: a scalar is equal, a container contains. -/
def Holds (ops : OrderOps) (held wanted : AgtypeValue) : Prop :=
  held.sameType wanted = true ∧
    if wanted.isScalar = true then SameScalar ops held wanted
    else agtypeDeepContains ops false held wanted = .ok true

/-- The tests of one value end, whichever side of it is first. -/
def Decides (ops : OrderOps) (held wanted : AgtypeValue) : Prop :=
  held.sameType wanted = true →
    if wanted.isScalar = true then
      (∃ same, ops.equalsAgtypeScalarValue held wanted = .ok same) ∧
        ∃ same, ops.equalsAgtypeScalarValue wanted held = .ok same
    else ∃ same, agtypeDeepContains ops false held wanted = .ok same

theorem holds_of_scalar (isScalar : c.isScalar = true) : Holds ops a c ↔ SameScalar ops a c := by
  rw [Holds, if_pos isScalar]
  exact and_iff_right_of_imp SameScalar.sameType

theorem containsPairs_total {pairs contained : List AgtypePair} (increase : KeysIncrease pairs)
    (decides : ∀ pair ∈ contained, ∀ held, (pair.1, held) ∈ pairs → Decides ops held pair.2) :
    ∃ found, containsPairs ops false pairs contained = .ok found ∧
      ((∀ pair ∈ contained, ∃ held, (pair.1, held) ∈ pairs ∧ Holds ops held pair.2) →
        found = true) := by
  induction contained with
  | nil => exact ⟨true, rfl, fun _ => rfl⟩
  | cons pair rest inductionHypothesis =>
      obtain ⟨key, wanted⟩ := pair
      obtain ⟨here, later⟩ := List.forall_mem_cons.mp decides
      obtain ⟨found, search, complete⟩ := inductionHypothesis later
      rw [containsPairs]
      cases isHeld : findFromObject pairs key with
      | none =>
          refine ⟨false, rfl, fun all => ?_⟩
          obtain ⟨held, inside, -⟩ := all _ List.mem_cons_self
          rw [findFromObject_of_mem increase inside] at isHeld
          cases isHeld
      | some held =>
          have inside := findFromObject_sound isHeld
          have unique (other : AgtypeValue) (isOther : (key, other) ∈ pairs) : other = held :=
            Option.some.inj ((findFromObject_of_mem increase isOther).symm.trans isHeld)
          by_cases sameType : held.sameType wanted = true
          · have decided := here held inside sameType
            have scalars := isScalar_of_sameType sameType
            have tested : ∃ same, (bif held.isScalar then ops.equalsAgtypeScalarValue held wanted
                else bif false then ops.containersEqual held wanted
                else agtypeDeepContains ops false held wanted) = .ok same ∧
                  (Holds ops held wanted → same = true) := by
              cases isScalar : wanted.isScalar with
              | true =>
                  rw [if_pos isScalar] at decided
                  obtain ⟨⟨same, tested⟩, -⟩ := decided
                  refine ⟨same, by rw [scalars, isScalar]; exact tested, fun holds => ?_⟩
                  rw [holds_of_scalar isScalar, ← equals_eq_true_iff, tested] at holds
                  exact Except.ok.inj holds
              | false =>
                  rw [if_neg (by simp [isScalar])] at decided
                  obtain ⟨same, tested⟩ := decided
                  refine ⟨same, by rw [scalars, isScalar]; exact tested, ?_⟩
                  rintro ⟨-, holds⟩
                  rw [if_neg (by simp [isScalar]), tested] at holds
                  exact Except.ok.inj holds
            obtain ⟨same, tested, holds⟩ := tested
            dsimp only
            rw [if_pos sameType, tested]
            cases same with
            | true => exact ⟨found, search, fun all => complete (List.forall_mem_cons.mp all).2⟩
            | false =>
                refine ⟨false, rfl, fun all => ?_⟩
                obtain ⟨other, isOther, holdsOther⟩ := all _ List.mem_cons_self
                obtain rfl := unique other isOther
                exact holds holdsOther
          · refine ⟨false, if_neg sameType, fun all => ?_⟩
            obtain ⟨other, isOther, otherType, -⟩ := all _ List.mem_cons_self
            obtain rfl := unique other isOther
            exact absurd otherType sameType

theorem containsElems_total (order : NumericOrder ops) {elems contained : List AgtypeValue}
    (decides : ∀ wanted ∈ contained, ∀ held ∈ elems, Decides ops held wanted) :
    ∃ found, containsElems ops elems contained = .ok found ∧
      ((∀ wanted ∈ contained, ∃ held ∈ elems, Holds ops held wanted) → found = true) := by
  induction contained with
  | nil => exact ⟨true, rfl, fun _ => rfl⟩
  | cons wanted rest inductionHypothesis =>
      obtain ⟨here, later⟩ := List.forall_mem_cons.mp decides
      obtain ⟨found, search, complete⟩ := inductionHypothesis later
      have tested : ∃ same, (bif wanted.isScalar then
            (findFromArray ops wanted elems).map Option.isSome
          else containedInSome (fun lhs => agtypeDeepContains ops false lhs wanted)
            (elems.filter fun elem => !elem.isScalar)) = .ok same ∧
          ((∃ held ∈ elems, Holds ops held wanted) → same = true) := by
        cases isScalar : wanted.isScalar with
        | true =>
            obtain ⟨result, tested, finds⟩ := @findFromArray_total ops wanted elems
              fun held inside sameType => by
                have decided := here held inside (sameType_symm sameType)
                rw [if_pos isScalar] at decided
                exact decided.2
            refine ⟨result.isSome, by rw [tested]; rfl, ?_⟩
            rintro ⟨held, inside, holds⟩
            apply finds
            have same := ((holds_of_scalar isScalar).mp holds).symm order
            exact ⟨held, inside, same.sameType, equals_eq_true_iff.mpr same⟩
        | false =>
            obtain ⟨result, tested, finds⟩ := @containedInSome_total
              (fun lhs => agtypeDeepContains ops false lhs wanted)
              (elems.filter fun elem => !elem.isScalar) fun held isHeld => by
                obtain ⟨inside, nested⟩ := List.mem_filter.mp isHeld
                have decided := here held inside (by simp_all [AgtypeValue.sameType])
                rwa [if_neg (by simp [isScalar])] at decided
            refine ⟨result, tested, ?_⟩
            rintro ⟨held, inside, sameType, holds⟩
            apply finds
            rw [if_neg (by simp [isScalar])] at holds
            have scalars := isScalar_of_sameType sameType
            exact ⟨held, List.mem_filter.mpr ⟨inside, by simp [scalars, isScalar]⟩, holds⟩
      obtain ⟨same, tested, holds⟩ := tested
      rw [containsElems, tested]
      cases same with
      | true => exact ⟨found, search, fun all => complete (List.forall_mem_cons.mp all).2⟩
      | false => exact ⟨false, rfl, fun all => holds (all _ List.mem_cons_self)⟩

/-- What a `true` answer has found, for two objects. -/
theorem holds_of_object {pairs contained : List AgtypePair}
    (contains : agtypeDeepContains ops false (.object pairs) (.object contained) = .ok true) :
    contained.length ≤ pairs.length ∧
      ∀ pair ∈ contained, ∃ held, (pair.1, held) ∈ pairs ∧ Holds ops held pair.2 := by
  rw [agtypeDeepContains] at contains
  split_ifs at contains with fewer
  · cases contains
  · refine ⟨by omega, fun pair inside => ?_⟩
    obtain ⟨held, isHeld, sameType, found⟩ := containsPairs_sound contains pair inside
    refine ⟨held, isHeld, sameType, ?_⟩
    rw [← isScalar_of_sameType sameType]
    by_cases isScalar : held.isScalar = true
    · rw [if_pos isScalar] at found ⊢
      exact equals_eq_true_iff.mp found
    · rw [if_neg isScalar, if_neg Bool.false_ne_true] at found
      rwa [if_neg isScalar]

/-- What a `true` answer has found, for two arrays. -/
theorem holds_of_array (order : NumericOrder ops) {raw rawContained : Bool}
    {elems contained : List AgtypeValue}
    (contains : agtypeDeepContains ops false (.array raw elems) (.array rawContained contained) =
      .ok true) :
    (raw = true → rawContained = true) ∧
      ∀ wanted ∈ contained, ∃ held ∈ elems, Holds ops held wanted := by
  rw [agtypeDeepContains] at contains
  split_ifs at contains with notRaw
  · cases contains
  · refine ⟨fun isRaw => by simpa [isRaw] using notRaw, fun wanted inside => ?_⟩
    obtain ⟨held, isHeld, sameType, found⟩ := containsElems_sound contains wanted inside
    refine ⟨held, isHeld, sameType_symm sameType, ?_⟩
    split_ifs at found ⊢ with isScalar
    · exact (equals_eq_true_iff.mp found).symm order
    · exact found

theorem decides_of_isBuilt (order : NumericOrder ops) (builtA : a.isBuilt = true)
    (builtC : c.isBuilt = true) (itself : c.equalsItself = true) : Decides ops a c := by
  induction c using AgtypeValue.inductionOn generalizing a with
  | object contained children =>
      intro sameType
      rw [if_neg (by simp [AgtypeValue.isScalar])]
      cases a <;> try cases sameType
      case array.refl => exact ⟨false, rfl⟩
      case object.refl pairs =>
        rw [AgtypeValue.isBuilt, Bool.and_eq_true, decide_eq_true_eq,
          AgtypeValue.areBuiltPairs_iff] at builtA builtC
        rw [AgtypeValue.equalsItself, AgtypeValue.valuesEqualThemselves_iff] at itself
        rw [agtypeDeepContains]
        split_ifs with fewer
        · exact ⟨false, rfl⟩
        · obtain ⟨found, search, -⟩ := @containsPairs_total ops pairs contained builtA.1
            fun pair inside held isHeld => children pair inside (builtA.2 _ isHeld)
              (builtC.2 pair inside) (itself pair inside)
          exact ⟨found, search⟩
  | array rawContained contained children =>
      intro sameType
      rw [if_neg (by simp [AgtypeValue.isScalar])]
      cases a <;> try cases sameType
      case object.refl => exact ⟨false, rfl⟩
      case array.refl raw elems =>
        rw [AgtypeValue.isBuilt, AgtypeValue.areBuilt_iff] at builtA builtC
        rw [AgtypeValue.equalsItself, AgtypeValue.equalThemselves_iff] at itself
        rw [agtypeDeepContains]
        split_ifs with notRaw
        · exact ⟨false, rfl⟩
        · obtain ⟨found, search, -⟩ := @containsElems_total ops order elems contained
            fun wanted inside held isHeld => children wanted inside (builtA held isHeld)
              (builtC wanted inside) (itself wanted inside)
          exact ⟨found, search⟩
  | _ =>
      intro sameType
      rw [if_pos (by rfl)]
      exact ⟨equals_total sameType (isScalar_of_sameType sameType) builtA builtC (.inr itself),
        equals_total (sameType_symm sameType) rfl builtC builtA (.inl itself)⟩

/-- Two objects hold where the loop over the pairs finds each. -/
theorem contains_object (order : NumericOrder ops) {pairs contained : List AgtypePair}
    (builtA : (AgtypeValue.object pairs).isBuilt = true)
    (builtC : (AgtypeValue.object contained).isBuilt = true)
    (itself : (AgtypeValue.object contained).equalsItself = true)
    (shorter : contained.length ≤ pairs.length)
    (all : ∀ pair ∈ contained, ∃ held, (pair.1, held) ∈ pairs ∧ Holds ops held pair.2) :
    agtypeDeepContains ops false (.object pairs) (.object contained) = .ok true := by
  rw [AgtypeValue.isBuilt, Bool.and_eq_true, decide_eq_true_eq,
    AgtypeValue.areBuiltPairs_iff] at builtA builtC
  rw [AgtypeValue.equalsItself, AgtypeValue.valuesEqualThemselves_iff] at itself
  obtain ⟨found, search, complete⟩ := @containsPairs_total ops pairs contained builtA.1
    fun pair inside held isHeld => decides_of_isBuilt order (builtA.2 _ isHeld)
      (builtC.2 pair inside) (itself pair inside)
  rw [agtypeDeepContains, if_neg (by omega), search, complete all]

theorem contains_array (order : NumericOrder ops) {raw rawContained : Bool}
    {elems contained : List AgtypeValue}
    (builtA : (AgtypeValue.array raw elems).isBuilt = true)
    (builtC : (AgtypeValue.array rawContained contained).isBuilt = true)
    (itself : (AgtypeValue.array rawContained contained).equalsItself = true)
    (raws : raw = true → rawContained = true)
    (all : ∀ wanted ∈ contained, ∃ held ∈ elems, Holds ops held wanted) :
    agtypeDeepContains ops false (.array raw elems) (.array rawContained contained) =
      .ok true := by
  rw [AgtypeValue.isBuilt, AgtypeValue.areBuilt_iff] at builtA builtC
  rw [AgtypeValue.equalsItself, AgtypeValue.equalThemselves_iff] at itself
  obtain ⟨found, search, complete⟩ := @containsElems_total ops order elems contained
    fun wanted inside held isHeld => decides_of_isBuilt order (builtA held isHeld)
      (builtC wanted inside) (itself wanted inside)
  have notRaw : (raw && !rawContained) = false := by cases raw <;> simp_all
  rw [agtypeDeepContains, notRaw, if_neg (by simp), search, complete all]

/-- A value holds itself. -/
theorem holds_refl (order : NumericOrder ops) (builtA : a.isBuilt = true)
    (itself : a.equalsItself = true) : Holds ops a a := by
  induction a using AgtypeValue.inductionOn with
  | object pairs children =>
      refine ⟨rfl, ?_⟩
      rw [if_neg (by simp [AgtypeValue.isScalar])]
      refine contains_object order builtA builtA itself le_rfl fun pair inside => ?_
      rw [AgtypeValue.isBuilt, Bool.and_eq_true, decide_eq_true_eq,
        AgtypeValue.areBuiltPairs_iff] at builtA
      rw [AgtypeValue.equalsItself, AgtypeValue.valuesEqualThemselves_iff] at itself
      exact ⟨pair.2, inside, children pair inside (builtA.2 pair inside) (itself pair inside)⟩
  | array raw elems children =>
      refine ⟨rfl, ?_⟩
      rw [if_neg (by simp [AgtypeValue.isScalar])]
      refine contains_array order builtA builtA itself id fun elem inside => ?_
      rw [AgtypeValue.isBuilt, AgtypeValue.areBuilt_iff] at builtA
      rw [AgtypeValue.equalsItself, AgtypeValue.equalThemselves_iff] at itself
      exact ⟨elem, inside, children elem inside (builtA elem inside) (itself elem inside)⟩
  | _ => exact (holds_of_scalar rfl).mpr (sameScalar_refl order rfl builtA itself)

/-- Whatever is held is equal to itself. -/
theorem Holds.equalsItself (order : NumericOrder ops) (holds : Holds ops a c) :
    c.equalsItself = true := by
  induction c using AgtypeValue.inductionOn generalizing a with
  | object contained children =>
      obtain ⟨sameType, contains⟩ := holds
      rw [if_neg (by simp [AgtypeValue.isScalar])] at contains
      rw [AgtypeValue.equalsItself, AgtypeValue.valuesEqualThemselves_iff]
      cases a <;> try cases contains
      case object pairs =>
        intro pair inside
        obtain ⟨held, -, holds⟩ := (holds_of_object contains).2 pair inside
        exact children pair inside holds
  | array rawContained contained children =>
      obtain ⟨sameType, contains⟩ := holds
      rw [if_neg (by simp [AgtypeValue.isScalar])] at contains
      rw [AgtypeValue.equalsItself, AgtypeValue.equalThemselves_iff]
      cases a <;> try cases contains
      case array raw elems =>
        intro wanted inside
        obtain ⟨held, -, holds⟩ := (holds_of_array order contains).2 wanted inside
        exact children wanted inside holds
  | _ => exact ((holds_of_scalar rfl).mp holds).equalsItself.2

theorem Holds.trans (order : NumericOrder ops) (builtA : a.isBuilt = true)
    (builtB : b.isBuilt = true) (builtC : c.isBuilt = true) (first : Holds ops a b)
    (second : Holds ops b c) : Holds ops a c := by
  have itself := second.equalsItself order
  induction c using AgtypeValue.inductionOn generalizing a b with
  | object contained children =>
      obtain ⟨-, contains⟩ := second
      rw [if_neg (by simp [AgtypeValue.isScalar])] at contains
      cases b <;> try cases contains
      case object between =>
        obtain ⟨-, containsFirst⟩ := first
        rw [if_neg (by simp [AgtypeValue.isScalar])] at containsFirst
        cases a <;> try cases containsFirst
        case object pairs =>
          obtain ⟨shorter, found⟩ := holds_of_object contains
          obtain ⟨shorterFirst, foundFirst⟩ := holds_of_object containsFirst
          refine ⟨rfl, ?_⟩
          rw [if_neg (by simp [AgtypeValue.isScalar])]
          refine contains_object order builtA builtC itself (shorter.trans shorterFirst)
            fun pair inside => ?_
          rw [AgtypeValue.isBuilt, Bool.and_eq_true, decide_eq_true_eq,
            AgtypeValue.areBuiltPairs_iff] at builtA builtB builtC
          rw [AgtypeValue.equalsItself, AgtypeValue.valuesEqualThemselves_iff] at itself
          obtain ⟨middle, isMiddle, holds⟩ := found pair inside
          obtain ⟨held, isHeld, holdsFirst⟩ := foundFirst _ isMiddle
          exact ⟨held, isHeld, children pair inside (builtA.2 _ isHeld) (builtB.2 _ isMiddle)
            (builtC.2 pair inside) holdsFirst holds (itself pair inside)⟩
  | array rawContained contained children =>
      obtain ⟨-, contains⟩ := second
      rw [if_neg (by simp [AgtypeValue.isScalar])] at contains
      cases b <;> try cases contains
      case array rawBetween between =>
        obtain ⟨-, containsFirst⟩ := first
        rw [if_neg (by simp [AgtypeValue.isScalar])] at containsFirst
        cases a <;> try cases containsFirst
        case array raw elems =>
          obtain ⟨raws, found⟩ := holds_of_array order contains
          obtain ⟨rawsFirst, foundFirst⟩ := holds_of_array order containsFirst
          refine ⟨rfl, ?_⟩
          rw [if_neg (by simp [AgtypeValue.isScalar])]
          refine contains_array order builtA builtC itself (raws ∘ rawsFirst)
            fun wanted inside => ?_
          rw [AgtypeValue.isBuilt, AgtypeValue.areBuilt_iff] at builtA builtB builtC
          rw [AgtypeValue.equalsItself, AgtypeValue.equalThemselves_iff] at itself
          obtain ⟨middle, isMiddle, holds⟩ := found wanted inside
          obtain ⟨held, isHeld, holdsFirst⟩ := foundFirst middle isMiddle
          exact ⟨held, isHeld, children wanted inside (builtA held isHeld) (builtB middle isMiddle)
            (builtC wanted inside) holdsFirst holds (itself wanted inside)⟩
  | _ =>
      have same := (holds_of_scalar rfl).mp second
      have isScalar := isScalar_of_sameType same.sameType
      exact (holds_of_scalar rfl).mpr
        (((holds_of_scalar isScalar).mp first).trans order same)

/-- A container contains itself where no NaN, edge or path is in it, and containment is
transitive. -/
theorem agtypeDeepContains_preorder_iff (order : NumericOrder ops) (builtC : c.isBuilt = true)
    (container : c.isScalar = false) :
    (agtypeDeepContains ops false c c = .ok true ↔ c.equalsItself = true) ∧
      ∀ a b : AgtypeValue, a.isBuilt = true → b.isBuilt = true →
        agtypeDeepContains ops false a b = .ok true →
        agtypeDeepContains ops false b c = .ok true →
        agtypeDeepContains ops false a c = .ok true := by
  have holds_iff (a c : AgtypeValue) (container : c.isScalar = false) :
      Holds ops a c ↔ agtypeDeepContains ops false a c = .ok true := by
    rw [Holds, if_neg (by simp [container])]
    refine and_iff_right_of_imp fun contains => ?_
    rcases agtypeDeepContains_cases contains with ⟨_, _, rfl, rfl, -⟩ | ⟨_, _, _, _, rfl, rfl, -⟩
    · rfl
    · rfl
  constructor
  · rw [← holds_iff c c container]
    exact ⟨Holds.equalsItself order, holds_refl order builtC⟩
  · intro a b builtA builtB first second
    have containerB : b.isScalar = false := by
      rcases agtypeDeepContains_cases second with ⟨_, _, rfl, -⟩ | ⟨_, _, _, _, rfl, -⟩
      · rfl
      · rfl
    rw [← holds_iff a b containerB] at first
    rw [← holds_iff b c container] at second
    rw [← holds_iff a c container]
    exact first.trans order builtA builtB builtC second

/-- `[{"a": 1}]` contains itself. -/
theorem agtypeDeepContains_preorder_nested :
    NumericOrder Server.orderOps ∧
      (AgtypeValue.array false [.object [([97], .integer 1)]]).isBuilt = true ∧
      (AgtypeValue.array false [.object [([97], .integer 1)]]).isScalar = false ∧
      agtypeDeepContains Server.orderOps false (.array false [.object [([97], .integer 1)]])
        (.array false [.object [([97], .integer 1)]]) = .ok true :=
  ⟨Server.numericOrder, rfl, rfl,
    (agtypeDeepContains_preorder_iff Server.numericOrder rfl rfl).1.mpr rfl⟩

/-- An edge with the id 7 -/
def sevenEdge : AgtypeValue :=
  .edge [([105, 100], .integer 7), ([108, 97, 98, 101, 108], .string [69]),
    ([101, 110, 100, 95, 105, 100], .integer 2), ([115, 116, 97, 114, 116, 95, 105, 100], .integer 1),
    ([112, 114, 111, 112, 101, 114, 116, 105, 101, 115], .object [])]

/-- A list of one edge is not found in itself; the test of the edge is an error. -/
theorem not_contains_itself_edge :
    NumericOrder Server.orderOps ∧ (AgtypeValue.array false [sevenEdge]).isBuilt = true ∧
      agtypeDeepContains Server.orderOps false (.array false [sevenEdge])
        (.array false [sevenEdge]) = .error (.invalidScalarType .edge) ∧
      ¬∀ (ops : OrderOps) (c : AgtypeValue), NumericOrder ops → c.isBuilt = true →
        c.isScalar = false → agtypeDeepContains ops false c c = .ok true := by
  have failed : agtypeDeepContains Server.orderOps false (.array false [sevenEdge])
      (.array false [sevenEdge]) = .error (.invalidScalarType .edge) := by rfl
  refine ⟨Server.numericOrder, rfl, failed, fun all => ?_⟩
  have impossible := all Server.orderOps (.array false [sevenEdge]) Server.numericOrder rfl rfl
  rw [failed] at impossible
  cases impossible

end Preorder

end Age.Agtype
