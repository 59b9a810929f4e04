import Age.Agtype.ContainsPreorder

/-!
# Access by key and by index

`agtype_access_operator` reads one container after another, in the binary form they are stored in
or, inside a vertex or an edge, as decoded values.  The operator `->` reads one and stores it.
-/

namespace Age.Agtype

open Lib

inductive AccessError where
  /-- `scalar object must be a vertex or edge` -/
  | notEntity
  /-- `key must resolve to a scalar value` -/
  | keyNotScalar
  /-- `%s is not a valid key type` -/
  | invalidKeyType (type : AgtypeValueType)
  /-- `unknown agtype scalar type` -/
  | unknownScalarType
  /-- `unknown map_value type` -/
  | unknownMapValue
  /-- `array index must resolve to an integer value` -/
  | indexNotInteger
  /-- `execute_array_access_operator_internal: unexpected type` -/
  | unexpectedArrayType
  /-- `container must be an array or object` -/
  | notContainer
  /-- `cannot extract properties from an agtype path` -/
  | pathProperties
  /-- a pair or a pointer is read that nothing has set -/
  | unsetRead
  deriving DecidableEq, Repr

/-- An `agtype_value`; its containers are `AGTV_BINARY`, or decoded where it is part of a vertex or
an edge. -/
structure HeldValue where
  value : AgtypeValue
  decoded : Bool

section Definitions

/-- The loop of `get_agtype_value_object_value`; `turns` bounds its turns and the interval shrinks
at each. -/
def objectValueLoop (pairs : List AgtypePair) (searchKey : Bytes) :
    (turns : Nat) → (left middle right : Int) → Option AgtypeValue
  | 0, _, _, _ => none
  | turns + 1, left, middle, right =>
      let lower := objectValueLoop pairs searchKey turns left
        ((middle - 1 - left).tdiv 2 + left) (middle - 1)
      let upper := objectValueLoop pairs searchKey turns (middle + 1)
        ((right - (middle + 1)).tdiv 2 + (middle + 1)) right
      if left ≤ middle ∧ middle ≤ right then
        match pairs[middle.toNat]? with
        | none => none
        | some (key, value) =>
            if key.length ≠ searchKey.length then
              if searchKey.length < key.length then lower else upper
            else
              let result := memcmp searchKey key
              if result ≠ 0 then
                if result < 0 then lower else upper
              else some value
      else none

def getAgtypeValueObjectValue (pairs : List AgtypePair) (searchKey : Bytes) :
    Option AgtypeValue :=
  if searchKey.length ≤ 0 then none
  else
    let numPairs := pairs.length
    objectValueLoop pairs searchKey (numPairs + 1) 0 ((numPairs : Int) / 2) (numPairs - 1)

/-- A container comes as an `agtype`, or as a value. -/
def executeMapAccessOperatorInternal (map : Option AgtypeValue) (mapValue : Option HeldValue)
    (key : Bytes) : Except AccessError (Option HeldValue) :=
  match map, mapValue with
  | some (.object pairs), none => .ok ((findFromObject pairs key).map (⟨·, false⟩))
  | some _, none => .ok none
  | none, none => .error .unsetRead
  | _, some ⟨.object pairs, true⟩ =>
      .ok ((getAgtypeValueObjectValue pairs key).map (⟨·, true⟩))
  | _, some ⟨.object pairs, false⟩ => .ok ((findFromObject pairs key).map (⟨·, false⟩))
  | _, some ⟨.array _ _, false⟩ => .ok none
  | _, some _ => .error .unknownMapValue

def executeMapAccessOperator (map : Option AgtypeValue) (mapValue : Option HeldValue) :
    AgtypeValue → Except AccessError (Option HeldValue)
  | .null => .ok none
  | .string key => executeMapAccessOperatorInternal map mapValue key
  | .integer _ => .error (.invalidKeyType .integer)
  | .float _ => .error (.invalidKeyType .float)
  | .numeric _ => .error (.invalidKeyType .numeric)
  | .bool _ => .error (.invalidKeyType .bool)
  | _ => .error .unknownScalarType

/-- The element at an index that counts from the end when it is negative -/
def elementAt (elems : List AgtypeValue) (arrayIndex : Int64) : Option AgtypeValue :=
  let size := Int64.ofNat elems.length
  let arrayIndex := if arrayIndex < 0 then size + arrayIndex else arrayIndex
  if size ≤ arrayIndex ∨ arrayIndex < 0 then none else elems[arrayIndex.toInt.toNat]?

def executeArrayAccessOperatorInternal (array : Option AgtypeValue) (arrayValue : Option HeldValue)
    (arrayIndex : Int64) : Except AccessError (Option HeldValue) :=
  match array, arrayValue with
  | some (.array _ elems), none => .ok ((elementAt elems arrayIndex).map (⟨·, false⟩))
  | _, none => .error .unsetRead
  | _, some ⟨.array _ elems, decoded⟩ => .ok ((elementAt elems arrayIndex).map (⟨·, decoded⟩))
  | _, some _ => .error .unexpectedArrayType

def executeArrayAccessOperator (array : Option AgtypeValue) (arrayValue : Option HeldValue) :
    AgtypeValue → Except AccessError (Option HeldValue)
  | .null => .ok none
  | .integer arrayIndex => executeArrayAccessOperatorInternal array arrayValue arrayIndex
  | _ => .error .indexNotInteger

def AgtypeValue.isArray : AgtypeValue → Bool
  | array _ _ => true
  | _ => false

/-- The branches for a map, for an array and for anything else -/
def accessContainer (container : Option AgtypeValue) (containerValue : Option HeldValue)
    (key : AgtypeValue) : Except AccessError (Option HeldValue) :=
  if containerValue.any (·.value.isObject) || container.any (·.isObject) then
    executeMapAccessOperator container containerValue key
  else if containerValue.any (·.value.isArray) || container.any (·.isArray) then
    executeArrayAccessOperator container containerValue key
  else .error .notContainer

/-- The container as an `agtype`, or the vertex or edge in a scalar -/
def openContainer (container : AgtypeValue) :
    Except AccessError (Option AgtypeValue × Option HeldValue) :=
  if container.isScalar then
    match container with
    | .vertex _ => .ok (none, some ⟨container, false⟩)
    | .edge _ => .ok (none, some ⟨container, false⟩)
    | _ => .error .notEntity
  else .ok (some container, none)

/-- `pairs[i].value` of a decoded value -/
def decodedValueAt (pairs : List AgtypePair) (i : Nat) : Except AccessError (Option HeldValue) :=
  match pairs[i]? with
  | none => .error .unsetRead
  | some (_, value) => .ok (some ⟨value, true⟩)

/-- The properties of a vertex or an edge, which take its place -/
def extractProperties : Option HeldValue → Except AccessError (Option HeldValue)
  | some ⟨.vertex pairs, _⟩ => decodedValueAt pairs 2
  | some ⟨.edge pairs, _⟩ => decodedValueAt pairs 4
  | containerValue => .ok containerValue

/-- What is returned: a null value is a NULL. -/
def nonNull : Option AgtypeValue → Option AgtypeValue
  | some .null => none
  | found => found

def AgtypeValue.string? : AgtypeValue → Option Bytes
  | string val => some val
  | _ => none

/-- `agtype_access_operator` with two arguments, and with or without a constant string key in
its cache -/
def agtypeAccessOperatorTwo (cached : Bool) (containerArg key : AgtypeValue) :
    Except AccessError (Option AgtypeValue) := do
  let (container, scalarValue) ← openContainer containerArg
  let cachedStringKey := if cached then key.string? else none
  if !key.isScalar then throw .keyNotScalar
  let containerValue ← extractProperties scalarValue
  match container, cachedStringKey <|> key.string? with
  | some (.object pairs), some lookupKey => return nonNull (findFromObject pairs lookupKey)
  | _, _ =>
      let found ←
        if containerValue.any (·.value.isObject) || container.any (·.isObject) then
          match cachedStringKey with
          | some lookupKey =>
              match containerValue with
              | some ⟨.object pairs, true⟩ =>
                  .ok ((getAgtypeValueObjectValue pairs lookupKey).map (⟨·, true⟩))
              | _ => executeMapAccessOperatorInternal container containerValue lookupKey
          | none => executeMapAccessOperator container containerValue key
        else accessContainer container containerValue key
      return nonNull (found.map (·.value))

/-- The loop over the keys -/
def accessLoop (container : Option AgtypeValue) (containerValue : Option HeldValue) :
    List AgtypeValue → Except AccessError (Option AgtypeValue)
  | [] => .ok (containerValue.map (·.value))
  | key :: keys =>
      if key.isScalar then do
        let containerValue ← extractProperties containerValue
        match ← accessContainer container containerValue key with
        | none => return none
        | some ⟨.null, _⟩ => return none
        | some found => accessLoop none (some found) keys
      else .error .keyNotScalar

/-- `agtype_access_operator` with three arguments or more, or with an array of them; an array of
two `agtype` values takes a shortcut. -/
def agtypeAccessOperatorVariadic (fastPair : Bool) (containerArg : AgtypeValue)
    (keys : List AgtypeValue) : Except AccessError (Option AgtypeValue) :=
  match fastPair, containerArg, keys with
  | _, _, [] => .ok none
  | true, .object pairs, [.string key] => .ok (nonNull (findFromObject pairs key))
  | _, _, _ => do
      let (container, scalarValue) ← openContainer containerArg
      accessLoop container scalarValue keys

/-- `agtype_array_element_impl`; a scalar is an array with one element. -/
def agtypeArrayElementImpl (agtypeIn : AgtypeValue) (element : Int32) : Option AgtypeValue :=
  let elems? : Option (List AgtypeValue) :=
    if agtypeIn.isScalar then some [agtypeIn]
    else match agtypeIn with
      | .array _ elems => some elems
      | _ => none
  match elems? with
  | none => none
  | some elems =>
      let size := elems.length
      let element := if element < 0 then Int32.ofNat size + element else element
      if element < 0 ∨ size ≤ element.toInt.toNat then none else elems[element.toInt.toNat]?

/-- The lookup in the properties of a scalar -/
def propertyField (properties : Option HeldValue) (key : Bytes) :
    Except AccessError (Option AgtypeValue) :=
  if properties.any (·.value.isObject) then
    (executeMapAccessOperatorInternal none properties key).map fun found =>
      nonNull (found.map (·.value))
  else .ok none

/-- `agtype_object_field_impl` -/
def agtypeObjectFieldImpl (agtypeIn : AgtypeValue) (key : Bytes) :
    Except AccessError (Option AgtypeValue) :=
  match agtypeIn with
  | .object pairs => .ok (nonNull (findFromObject pairs key))
  | .array _ _ => .ok none
  | .path _ => .error .pathProperties
  | scalar => do propertyField (← extractProperties (some ⟨scalar, true⟩)) key

/-- `agtype_object_field_agtype`; the index of an array is passed as an `int`. -/
def agtypeObjectFieldAgtype (agt : AgtypeValue) :
    AgtypeValue → Except AccessError (Option AgtypeValue)
  | .integer val => .ok (agtypeArrayElementImpl agt val.toInt32)
  | .string key => agtypeObjectFieldImpl agt key
  | _ => .ok none

/-- The operator `->` applied to each key in turn; it is strict. -/
def arrowSteps (agt : AgtypeValue) : List AgtypeValue → Except AccessError (Option AgtypeValue)
  | [] => .ok (some agt)
  | key :: keys => do
      match ← agtypeObjectFieldAgtype agt key with
      | none => return none
      | some found => arrowSteps found keys

/-- The pairs of a decoded object that has its place in a vertex or an edge -/
def propertiesIn (pairs : List AgtypePair) (i : Nat) : Option (List AgtypePair) :=
  match pairs[i]? with
  | some (_, .object properties) => some properties
  | _ => none

/-- The pairs that a string is a key of: those of an object, or the properties of a vertex or an
edge. -/
def fieldPairs : AgtypeValue → Option (List AgtypePair)
  | .object pairs => some pairs
  | .vertex pairs => propertiesIn pairs 2
  | .edge pairs => propertiesIn pairs 4
  | _ => none

def AgtypeValue.hasProperties : AgtypeValue → Bool
  | vertex _ => true
  | edge _ => true
  | _ => false

/-- The element at a place, which counts from the end when it is negative -/
def atPlace (elems : List AgtypeValue) (place : Int) : Option AgtypeValue :=
  let fromStart := if place < 0 then elems.length + place else place
  if fromStart < 0 then none else elems[fromStart.toNat]?

/-- What is stored under a key, unless it is null, or at an index -/
def storedAt (v : AgtypeValue) : AgtypeValue → Option AgtypeValue
  | .string key => nonNull ((fieldPairs v).bind (·.lookup key))
  | .integer arrayIndex =>
      match v with
      | .array _ elems => atPlace elems arrayIndex.toInt
      | _ => none
  | _ => none

/-- What is stored along a chain of keys -/
def storedAlong (v : AgtypeValue) : List AgtypeValue → Option AgtypeValue
  | [] => some v
  | key :: keys => (storedAt v key).bind (storedAlong · keys)

/-- A string for an object, a vertex or an edge, an integer for an array -/
def KeyFits (v key : AgtypeValue) : Prop :=
  (∃ pairs name, fieldPairs v = some pairs ∧ key = .string name) ∨
    ∃ elems arrayIndex, v = .array false elems ∧ key = .integer arrayIndex

/-- Each key fits the container it is looked up in, as far as something is found. -/
def ChainFits (v : AgtypeValue) : List AgtypeValue → Prop
  | [] => True
  | key :: keys => KeyFits v key ∧ ∀ next, storedAt v key = some next → ChainFits next keys

/-- Nothing is stored under the empty key of a decoded object, and an index whose low 32 bits lead
to an element has no others. -/
def StepReaches (decoded : Bool) (v : AgtypeValue) : AgtypeValue → Prop
  | .string key => (decoded || v.hasProperties) = true → key = [] → storedAt v (.string key) = none
  | .integer arrayIndex => ∀ elems, v = .array false elems →
      ∀ elem, atPlace elems arrayIndex.toInt32.toInt = some elem →
        arrayIndex.toInt32.toInt = arrayIndex.toInt
  | _ => True

/-- Each step of a chain is such; whatever is in a vertex or an edge is decoded. -/
def ChainReaches (decoded : Bool) (v : AgtypeValue) : List AgtypeValue → Prop
  | [] => True
  | key :: keys => StepReaches decoded v key ∧
      ∀ next, storedAt v key = some next → ChainReaches (decoded || v.hasProperties) next keys

/-- All forms give what is stored; for a null element the operator `->` gives the null, and the
others a NULL. -/
structure FormsAgree (v : AgtypeValue) (keys : List AgtypeValue) : Prop where
  variadic : ∀ fastPair,
    agtypeAccessOperatorVariadic fastPair v keys = .ok (nonNull (storedAlong v keys))
  two : ∀ cached key, keys = [key] →
    agtypeAccessOperatorTwo cached v key = .ok (nonNull (storedAlong v keys))
  arrow : arrowSteps v keys = .ok (storedAlong v keys)

end Definitions

section Lookup

variable {pairs : List AgtypePair} {key : Bytes} {value : AgtypeValue}

theorem lookup_of_mem (increase : KeysIncrease pairs) (inside : (key, value) ∈ pairs) :
    pairs.lookup key = some value := by
  cases isValue : pairs.lookup key with
  | none =>
      have differs := List.lookup_eq_none_iff.mp isValue _ inside
      simp at differs
  | some other =>
      obtain ⟨before, after, rfl, -⟩ := List.lookup_eq_some_iff.mp isValue
      have isOther : (key, other) ∈ before ++ (key, other) :: after := by simp
      rw [← findFromObject_of_mem increase inside, ← findFromObject_of_mem increase isOther]

theorem mem_of_lookup (found : pairs.lookup key = some value) : (key, value) ∈ pairs := by
  obtain ⟨before, after, rfl, -⟩ := List.lookup_eq_some_iff.mp found
  simp

/-- The search in a serialized object finds what is stored. -/
theorem findFromObject_eq_lookup (increase : KeysIncrease pairs) :
    findFromObject pairs key = pairs.lookup key := by
  cases found : findFromObject pairs key with
  | some value => exact (lookup_of_mem increase (findFromObject_sound found)).symm
  | none =>
      cases isValue : pairs.lookup key with
      | none => rfl
      | some value =>
          rw [findFromObject_of_mem increase (mem_of_lookup isValue)] at found
          cases found

theorem objectValueLoop_sound {turns : Nat} {left middle right : Int}
    (found : objectValueLoop pairs key turns left middle right = some value) :
    (key, value) ∈ pairs := by
  induction turns generalizing left middle right with
  | zero => cases found
  | succ turns inductionHypothesis =>
      rw [objectValueLoop] at found
      dsimp only at found
      split_ifs at found with inRange
      cases candidate : pairs[middle.toNat]? with
      | none => rw [candidate] at found; cases found
      | some pair =>
          rw [candidate] at found
          obtain ⟨held, stored⟩ := pair
          dsimp only at found
          split_ifs at found with lengths less different below
          · exact inductionHypothesis found
          · exact inductionHypothesis found
          · exact inductionHypothesis found
          · exact inductionHypothesis found
          · obtain rfl := Option.some.inj found
            have same := (threeWay_memcmp.eq_zero_iff _ _).mp (not_not.mp different)
            rw [same]
            exact List.mem_of_getElem? candidate

theorem lengthCompare_neg {a b : Bytes} (less : lengthCompareAgtypeStringValue a b < 0) :
    a.length < b.length ∨ a.length = b.length ∧ 0 < memcmp b a := by
  rw [lengthCompareAgtypeStringValue, thenBy, compareBy] at less
  rw [← threeWay_memcmp.neg_iff_pos]
  split_ifs at less <;> omega

/-- The pair of the key is never left out of the interval. -/
theorem objectValueLoop_of_mem (increase : KeysIncrease pairs) {place : Nat}
    (isPlace : place < pairs.length) (atKey : pairs[place] = (key, value)) (turns : Nat)
    {left middle right : Int} (lower : left ≤ place) (upper : place ≤ right)
    (nonneg : 0 ≤ left) (bounded : right < pairs.length) (inLeft : left ≤ middle)
    (inRight : middle ≤ right) (enough : right - left < turns) :
    objectValueLoop pairs key turns left middle right = some value := by
  induction turns generalizing left middle right with
  | zero => omega
  | succ turns inductionHypothesis =>
      have inRange : middle.toNat < pairs.length := by omega
      have ordered := List.pairwise_iff_getElem.mp increase
      have keyAt : pairs[place].1 = key := congrArg Prod.fst atKey
      rw [objectValueLoop]
      dsimp only
      rw [if_pos ⟨inLeft, inRight⟩, List.getElem?_eq_getElem inRange]
      dsimp only
      rcases Nat.lt_trichotomy middle.toNat place with less | same | greater
      · have next : objectValueLoop pairs key turns (middle + 1)
            ((right - (middle + 1)).tdiv 2 + (middle + 1)) right = some value := by
          have half := Int.tdiv_eq_ediv_of_nonneg (b := 2)
            (show 0 ≤ right - (middle + 1) by omega)
          exact inductionHypothesis (by omega) upper (by omega) bounded (by omega) (by omega)
            (by omega)
        have below := ordered _ _ inRange isPlace less
        rw [keyAt] at below
        rcases lengthCompare_neg below with shorter | ⟨sameLength, above⟩
        · rw [if_pos (by omega), if_neg (by omega)]
          exact next
        · rw [if_neg (by omega), if_pos (by omega), if_neg (by omega)]
          exact next
      · have here : pairs[middle.toNat] = (key, value) := (getElem_congr_idx same).trans atKey
        rw [here, if_neg (by simp), if_neg]
        exact not_not.mpr (threeWay_memcmp.self key)
      · have next : objectValueLoop pairs key turns left
            ((middle - 1 - left).tdiv 2 + left) (middle - 1) = some value := by
          have half := Int.tdiv_eq_ediv_of_nonneg (b := 2)
            (show 0 ≤ middle - 1 - left by omega)
          exact inductionHypothesis lower (by omega) nonneg (by omega) (by omega) (by omega)
            (by omega)
        have above := ordered _ _ isPlace inRange greater
        rw [keyAt] at above
        rcases lengthCompare_neg above with shorter | ⟨sameLength, below⟩
        · rw [if_pos (by omega), if_pos (by omega)]
          exact next
        · rw [← threeWay_memcmp.neg_iff_pos] at below
          rw [if_neg (by omega), if_pos (by omega), if_pos below]
          exact next

/-- The search in a decoded object finds what is stored, but never under the empty key. -/
theorem getAgtypeValueObjectValue_eq (increase : KeysIncrease pairs) :
    getAgtypeValueObjectValue pairs key = if key = [] then none else pairs.lookup key := by
  rw [getAgtypeValueObjectValue]
  by_cases isEmpty : key = []
  · rw [if_pos isEmpty, if_pos (by simp [isEmpty])]
  · have positive := List.length_pos_of_ne_nil isEmpty
    rw [if_neg isEmpty, if_neg (by omega)]
    cases isValue : pairs.lookup key with
    | some value =>
        obtain ⟨place, isPlace, atPlace⟩ := List.mem_iff_getElem.mp (mem_of_lookup isValue)
        exact objectValueLoop_of_mem increase isPlace atPlace _ (by omega) (by omega) le_rfl
          (by omega) (by omega) (by omega) (by omega)
    | none =>
        cases found : objectValueLoop pairs key (pairs.length + 1) 0 ((pairs.length : Int) / 2)
          (pairs.length - 1) with
        | none => rfl
        | some value =>
            rw [lookup_of_mem increase (objectValueLoop_sound found)] at isValue
            cases isValue

end Lookup

section Indexes

variable {elems : List AgtypeValue}

/-- A 64-bit index reaches the place it says. -/
theorem elementAt_eq (bounded : elems.length ≤ agtypeMaxElems) (arrayIndex : Int64) :
    elementAt elems arrayIndex = atPlace elems arrayIndex.toInt := by
  have small : elems.length < 2 ^ 26 := bounded.trans_lt (by decide)
  have size : (Int64.ofNat elems.length).toInt = elems.length := by
    exact Int64.toInt_ofNat_of_lt (small.trans (by decide))
  have low := arrayIndex.le_toInt
  have high := arrayIndex.toInt_lt
  simp only [elementAt, atPlace, Int64.lt_iff_toInt_lt, Int64.le_iff_toInt_le, Int64.toInt_zero]
  by_cases negative : arrayIndex.toInt < 0
  · have sum : (Int64.ofNat elems.length + arrayIndex).toInt = elems.length + arrayIndex.toInt := by
      rw [Int64.toInt_add, size]
      exact Int.bmod_eq_of_le (by omega) (by omega)
    simp only [negative, if_true, sum, size]
    split_ifs with outside before before
    · rfl
    · omega
    · omega
    · rfl
  · simp only [negative, if_false, or_false, size]
    split_ifs with outside
    · exact (List.getElem?_eq_none (by omega)).symm
    · rfl

/-- So does an index of 32 bits. -/
theorem agtypeArrayElementImpl_array (bounded : elems.length ≤ agtypeMaxElems) (element : Int32) :
    agtypeArrayElementImpl (.array false elems) element = atPlace elems element.toInt := by
  have small : elems.length < 2 ^ 26 := bounded.trans_lt (by decide)
  have size : (Int32.ofNat elems.length).toInt = elems.length := by
    exact Int32.toInt_ofNat_of_lt (small.trans (by decide))
  have low := element.le_toInt
  have high := element.toInt_lt
  simp only [agtypeArrayElementImpl, AgtypeValue.isScalar, Bool.false_eq_true, if_false, atPlace,
    Int32.lt_iff_toInt_lt, Int32.toInt_zero]
  by_cases negative : element.toInt < 0
  · have sum : (Int32.ofNat elems.length + element).toInt = elems.length + element.toInt := by
      rw [Int32.toInt_add, size]
      exact Int.bmod_eq_of_le (by omega) (by omega)
    simp only [negative, if_true, sum]
    split_ifs with outside before before
    · rfl
    · exact (List.getElem?_eq_none (by omega)).symm
    · omega
    · rfl
  · simp only [negative, if_false, false_or]
    split_ifs with outside
    · exact (List.getElem?_eq_none (by omega)).symm
    · rfl

/-- An index of an element has 32 bits. -/
theorem toInt32_of_atPlace (bounded : elems.length ≤ agtypeMaxElems) {arrayIndex : Int64}
    {elem : AgtypeValue} (found : atPlace elems arrayIndex.toInt = some elem) :
    arrayIndex.toInt32.toInt = arrayIndex.toInt := by
  have small : elems.length < 2 ^ 26 := bounded.trans_lt (by decide)
  have inside : -2 ^ 26 ≤ arrayIndex.toInt ∧ arrayIndex.toInt < 2 ^ 26 := by
    simp only [atPlace] at found
    split_ifs at found with negative before
    · have := (List.getElem?_eq_some_iff.mp found).1
      omega
    · have := (List.getElem?_eq_some_iff.mp found).1
      omega
  rw [Int64.toInt_toInt32]
  exact Int.bmod_eq_of_le (by omega) (by omega)

end Indexes

section Steps

variable {v : AgtypeValue} {pairs : List AgtypePair}

theorem built_properties {all : List AgtypePair} {i : Nat}
    (children : ∀ pair ∈ all, Built pair.2) (isPairs : propertiesIn all i = some pairs) :
    Built (.object pairs) ∧ decodedValueAt all i = .ok (some ⟨.object pairs, true⟩) := by
  rw [propertiesIn] at isPairs
  rw [decodedValueAt]
  split at isPairs
  · rename_i key properties isPair
    cases isPairs
    refine ⟨children _ (List.mem_of_getElem? isPair), ?_⟩
    rw [isPair]
  · cases isPairs

/-- Where the pairs of a field are, and that they are built. -/
theorem fieldPairs_cases (built : Built v) (isPairs : fieldPairs v = some pairs) :
    Built (.object pairs) ∧
      (v = .object pairs ∨ v.hasProperties = true ∧ v.isScalar = true ∧ ∀ decoded,
        extractProperties (some ⟨v, decoded⟩) = .ok (some ⟨.object pairs, true⟩)) := by
  cases built with
  | object children increase bounded =>
      cases isPairs
      exact ⟨.object children increase bounded, .inl rfl⟩
  | vertex children increase bounded =>
      obtain ⟨builtPairs, extracted⟩ := built_properties children isPairs
      exact ⟨builtPairs, .inr ⟨rfl, rfl, fun _ => extracted⟩⟩
  | edge children increase bounded =>
      obtain ⟨builtPairs, extracted⟩ := built_properties children isPairs
      exact ⟨builtPairs, .inr ⟨rfl, rfl, fun _ => extracted⟩⟩
  | _ => cases isPairs

theorem Built.keysIncrease (built : Built (.object pairs)) : KeysIncrease pairs := by
  cases built with
  | object children increase bounded => exact increase

theorem built_of_mem {key : Bytes} {value : AgtypeValue} (built : Built (.object pairs))
    (inside : (key, value) ∈ pairs) : Built value := by
  cases built with
  | object children increase bounded => exact children _ inside

theorem nonNull_eq_some {found : Option AgtypeValue} {next : AgtypeValue} :
    nonNull found = some next ↔ found = some next ∧ next ≠ .null := by
  cases found with
  | none => simp [nonNull]
  | some value =>
      cases value with
      | null => exact ⟨nofun, fun ⟨same, notNull⟩ => absurd (Option.some.inj same).symm notNull⟩
      | _ =>
          refine ⟨fun same => ?_, And.left⟩
          cases same
          exact ⟨rfl, nofun⟩

theorem atPlace_mem {elems : List AgtypeValue} {place : Int} {elem : AgtypeValue}
    (found : atPlace elems place = some elem) : elem ∈ elems := by
  simp only [atPlace] at found
  split_ifs at found
  all_goals exact List.mem_of_getElem? found

theorem built_storedAt {key next : AgtypeValue} (built : Built v)
    (stored : storedAt v key = some next) : Built next := by
  cases key <;> try cases stored
  case string name =>
    obtain ⟨found, -⟩ := nonNull_eq_some.mp stored
    obtain ⟨pairs, isPairs, isValue⟩ := Option.bind_eq_some_iff.mp found
    exact built_of_mem (fieldPairs_cases built isPairs).1 (mem_of_lookup isValue)
  case integer arrayIndex =>
    cases v <;> try cases stored
    case array raw elems =>
      cases built with
      | array children bounded => exact children _ (atPlace_mem stored)

/-- What a string leads to: the empty key leads to nothing in a decoded object. -/
def fieldIn (decoded : Bool) (pairs : List AgtypePair) (name : Bytes) : Option AgtypeValue :=
  if decoded = true ∧ name = [] then none else pairs.lookup name

/-- A container that the loop stands at -/
inductive StandsAt : Option AgtypeValue → Option HeldValue → AgtypeValue → Bool → Prop where
  | root {v : AgtypeValue} : v.isScalar = false → StandsAt (some v) none v false
  | held (v : AgtypeValue) (decoded : Bool) : StandsAt none (some ⟨v, decoded⟩) v decoded

variable {container : Option AgtypeValue} {containerValue : Option HeldValue} {decoded : Bool}

theorem fieldIn_true (increase : KeysIncrease pairs) (name : Bytes) :
    fieldIn true pairs name = getAgtypeValueObjectValue pairs name := by
  rw [getAgtypeValueObjectValue_eq increase, fieldIn]
  simp

theorem fieldIn_false (increase : KeysIncrease pairs) (name : Bytes) :
    fieldIn false pairs name = findFromObject pairs name := by
  rw [findFromObject_eq_lookup increase, fieldIn, if_neg (by simp)]

theorem executeMap_object (increase : KeysIncrease pairs) (map : Option AgtypeValue)
    (decoded : Bool) (name : Bytes) :
    executeMapAccessOperatorInternal map (some ⟨.object pairs, decoded⟩) name =
      .ok ((fieldIn decoded pairs name).map (⟨·, decoded⟩)) := by
  cases decoded with
  | true =>
      rw [fieldIn_true increase]
      cases map with
      | none => rfl
      | some root => cases root <;> rfl
  | false =>
      rw [fieldIn_false increase]
      cases map with
      | none => rfl
      | some root => cases root <;> rfl

/-- A turn of the loop with a string -/
theorem access_field (stands : StandsAt container containerValue v decoded) (built : Built v)
    (isPairs : fieldPairs v = some pairs) (name : Bytes) :
    (do accessContainer container (← extractProperties containerValue) (.string name)) =
      .ok ((fieldIn (decoded || v.hasProperties) pairs name).map (⟨·, decoded || v.hasProperties⟩)) := by
  obtain ⟨builtPairs, isObject | ⟨hasProperties, isScalar, extracted⟩⟩ := fieldPairs_cases built isPairs
  · subst isObject
    cases stands with
    | root =>
        change _ = Except.ok ((fieldIn false pairs name).map fun value => HeldValue.mk value false)
        rw [fieldIn_false builtPairs.keysIncrease]
        rfl
    | held =>
        rw [show (decoded || (AgtypeValue.object pairs).hasProperties) = decoded from Bool.or_false _]
        exact executeMap_object builtPairs.keysIncrease none decoded name
  · cases stands with
    | root notScalar => rw [isScalar] at notScalar; cases notScalar
    | held =>
        rw [extracted decoded, hasProperties, Bool.or_true]
        exact executeMap_object builtPairs.keysIncrease none true name

/-- A turn of the loop with an index -/
theorem access_element {elems : List AgtypeValue}
    (stands : StandsAt container containerValue (.array false elems) decoded)
    (bounded : elems.length ≤ agtypeMaxElems) (arrayIndex : Int64) :
    (do accessContainer container (← extractProperties containerValue) (.integer arrayIndex)) =
      .ok ((atPlace elems arrayIndex.toInt).map (⟨·, decoded⟩)) := by
  rw [← elementAt_eq bounded]
  cases stands <;> rfl

/-- One step of `->` with a string -/
theorem arrow_field (built : Built v) (isPairs : fieldPairs v = some pairs) (name : Bytes) :
    agtypeObjectFieldAgtype v (.string name) =
      .ok (nonNull (fieldIn v.hasProperties pairs name)) := by
  obtain ⟨builtPairs, isObject | ⟨hasProperties, isScalar, extracted⟩⟩ := fieldPairs_cases built isPairs
  · subst isObject
    rw [agtypeObjectFieldAgtype, agtypeObjectFieldImpl,
      findFromObject_eq_lookup builtPairs.keysIncrease]
    rfl
  · have found : propertyField (some ⟨.object pairs, true⟩) name =
        .ok (nonNull (fieldIn true pairs name)) := by
      rw [propertyField, if_pos (by rfl), executeMap_object builtPairs.keysIncrease]
      cases fieldIn true pairs name <;> rfl
    rw [hasProperties, ← found]
    cases v <;> try cases hasProperties
    all_goals
      rw [agtypeObjectFieldAgtype, agtypeObjectFieldImpl, extracted true]
      · rfl
      all_goals nofun

/-- What the steps find is stored, where they reach it. -/
theorem fieldIn_reaches {name : Bytes} (isPairs : fieldPairs v = some pairs)
    (reaches : StepReaches decoded v (.string name)) :
    nonNull (fieldIn (decoded || v.hasProperties) pairs name) = storedAt v (.string name) := by
  have stored : storedAt v (.string name) = nonNull (pairs.lookup name) := by
    rw [storedAt, isPairs]
    rfl
  rw [fieldIn]
  split_ifs with lost
  · exact (reaches lost.1 lost.2).symm
  · exact stored.symm

theorem atPlace_reaches_iff {elems : List AgtypeValue} (bounded : elems.length ≤ agtypeMaxElems)
    {arrayIndex : Int64} : StepReaches decoded (.array false elems) (.integer arrayIndex) ↔
      atPlace elems arrayIndex.toInt32.toInt =
        storedAt (.array false elems) (.integer arrayIndex) := by
  rw [storedAt]
  constructor
  · intro reaches
    cases found : atPlace elems arrayIndex.toInt32.toInt with
    | some elem => rw [← reaches elems rfl elem found, found]
    | none =>
        cases stored : atPlace elems arrayIndex.toInt with
        | none => rfl
        | some elem =>
            rw [toInt32_of_atPlace bounded stored, stored] at found
            cases found
  · intro same all isArray elem found
    cases isArray
    rw [found] at same
    exact toInt32_of_atPlace bounded same.symm

theorem nonNull_storedAt_string (v : AgtypeValue) (name : Bytes) :
    nonNull (storedAt v (.string name)) = storedAt v (.string name) := by
  rw [storedAt]
  cases found : (fieldPairs v).bind (·.lookup name) with
  | none => rfl
  | some value => cases value <;> rfl

end Steps

section Chains

variable {v : AgtypeValue} {container : Option AgtypeValue} {containerValue : Option HeldValue}
  {decoded : Bool}

theorem Built.bounded {elems : List AgtypeValue} (built : Built (.array false elems)) :
    elems.length ≤ agtypeMaxElems := by
  cases built with
  | array children bounded => exact bounded

theorem accessLoop_of_step {key : AgtypeValue} (isScalar : key.isScalar = true)
    {found : Option AgtypeValue}
    (step : (do accessContainer container (← extractProperties containerValue) key) =
      .ok (found.map (⟨·, decoded⟩))) (keys : List AgtypeValue) :
    accessLoop container containerValue (key :: keys) =
      match nonNull found with
      | none => .ok none
      | some next => accessLoop none (some ⟨next, decoded⟩) keys := by
  rw [accessLoop, if_pos isScalar]
  cases extracted : extractProperties containerValue with
  | error error =>
      rw [extracted] at step
      cases step
  | ok properties =>
      rw [extracted] at step
      change accessContainer container properties key = _ at step
      simp only [bind, Except.bind, step]
      cases found with
      | none => rfl
      | some value => cases value <;> rfl

/-- A turn of the loop: it goes on with what is stored, or it ends. -/
theorem accessLoop_cons (stands : StandsAt container containerValue v decoded) (built : Built v)
    {key : AgtypeValue} (fits : KeyFits v key) (keys : List AgtypeValue) :
    ∃ found, accessLoop container containerValue (key :: keys) =
        (match found with
          | none => .ok none
          | some next => accessLoop none (some ⟨next, decoded || v.hasProperties⟩) keys) ∧
      (StepReaches decoded v key → found = nonNull (storedAt v key)) ∧
      (∀ name, key = .string name → (decoded || v.hasProperties) = true → name = [] → found = none) := by
  rcases fits with ⟨pairs, name, isPairs, rfl⟩ | ⟨elems, arrayIndex, rfl, rfl⟩
  · refine ⟨nonNull (fieldIn (decoded || v.hasProperties) pairs name),
      accessLoop_of_step rfl (access_field stands built isPairs name) keys,
      fun reaches => ?_, ?_⟩
    · rw [fieldIn_reaches isPairs reaches, nonNull_storedAt_string]
    · rintro name' ⟨⟩ isDecoded isEmpty
      rw [fieldIn, if_pos ⟨isDecoded, isEmpty⟩]
      rfl
  · refine ⟨nonNull (storedAt (.array false elems) (.integer arrayIndex)), ?_, fun _ => rfl, nofun⟩
    rw [show (decoded || (AgtypeValue.array false elems).hasProperties) = decoded from Bool.or_false _]
    exact accessLoop_of_step rfl (access_element stands built.bounded arrayIndex) keys

/-- A step of `->` gives the stored value. -/
theorem arrow_reaches {key : AgtypeValue} (built : Built v) (fits : KeyFits v key)
    (reaches : StepReaches decoded v key) :
    agtypeObjectFieldAgtype v key = .ok (storedAt v key) := by
  rcases fits with ⟨pairs, name, isPairs, rfl⟩ | ⟨elems, arrayIndex, rfl, rfl⟩
  · have own : StepReaches false v (.string name) := fun hasProperties =>
      reaches (by rw [Bool.false_or] at hasProperties; rw [hasProperties, Bool.or_true])
    rw [arrow_field built isPairs, ← fieldIn_reaches isPairs own, Bool.false_or]
  · rw [agtypeObjectFieldAgtype, agtypeArrayElementImpl_array built.bounded,
      (atPlace_reaches_iff built.bounded).mp reaches]

theorem storedAlong_singleton (v key : AgtypeValue) : storedAlong v [key] = storedAt v key := by
  rw [storedAlong]
  cases storedAt v key <;> rfl

/-- A step that does not reach what is stored is seen in the loop or in the operator `->`. -/
theorem step_differs (stands : StandsAt container containerValue v decoded) (built : Built v)
    {key : AgtypeValue} (fits : KeyFits v key) (misses : ¬StepReaches decoded v key) :
    accessLoop container containerValue [key] ≠ .ok (nonNull (storedAlong v [key])) ∨
      arrowSteps v [key] ≠ .ok (storedAlong v [key]) := by
  rw [storedAlong_singleton]
  rcases fits with ⟨pairs, name, isPairs, rfl⟩ | ⟨elems, arrayIndex, rfl, rfl⟩
  · left
    obtain ⟨found, isLoop, -, lost⟩ := accessLoop_cons stands built
      (.inl ⟨pairs, name, isPairs, rfl⟩) []
    rw [StepReaches] at misses
    push Not at misses
    obtain ⟨isDecoded, isEmpty, stored⟩ := misses
    rw [isLoop, lost name rfl isDecoded isEmpty, nonNull_storedAt_string]
    exact fun same => stored (Except.ok.inj same).symm
  · right
    rw [atPlace_reaches_iff built.bounded, ← agtypeArrayElementImpl_array built.bounded] at misses
    intro same
    refine misses ?_
    rw [arrowSteps, agtypeObjectFieldAgtype] at same
    cases found : agtypeArrayElementImpl (.array false elems) arrayIndex.toInt32 with
    | none =>
        rw [found] at same
        exact Except.ok.inj same
    | some elem =>
        rw [found] at same
        exact Except.ok.inj same

/-- A null is no container, so that a chain ends there. -/
theorem chainFits_null {keys : List AgtypeValue} (fits : ChainFits .null keys) : keys = [] := by
  cases keys with
  | nil => rfl
  | cons key keys =>
      rcases fits.1 with ⟨pairs, name, isPairs, -⟩ | ⟨elems, arrayIndex, isArray, -⟩
      · cases isPairs
      · cases isArray

/-- Along a chain whose steps reach what is stored, the loop and the operator `->` give it. -/
theorem chain_reaches (stands : StandsAt container containerValue v decoded) (built : Built v)
    {keys : List AgtypeValue}
    (begun : keys ≠ [] ∨ containerValue.map (·.value) = some v ∧ v ≠ .null)
    (fits : ChainFits v keys) (reaches : ChainReaches decoded v keys) :
    accessLoop container containerValue keys = .ok (nonNull (storedAlong v keys)) ∧
      arrowSteps v keys = .ok (storedAlong v keys) := by
  induction keys generalizing v container containerValue decoded with
  | nil =>
      obtain ⟨isValue, notNull⟩ := begun.resolve_left fun nonempty => nonempty rfl
      rw [accessLoop, isValue, storedAlong, nonNull_eq_some.mpr ⟨rfl, notNull⟩]
      exact ⟨rfl, rfl⟩
  | cons key keys inductionHypothesis =>
      obtain ⟨found, isLoop, isStored, -⟩ := accessLoop_cons stands built fits.1 keys
      obtain rfl := isStored reaches.1
      rw [isLoop, arrowSteps, arrow_reaches built fits.1 reaches.1, storedAlong]
      cases stored : storedAt v key with
      | none => exact ⟨rfl, rfl⟩
      | some next =>
          have laterFits := fits.2 next stored
          by_cases isNull : next = .null
          · rw [isNull] at laterFits ⊢
            rw [chainFits_null laterFits]
            exact ⟨rfl, rfl⟩
          · rw [nonNull_eq_some.mpr ⟨rfl, isNull⟩]
            exact inductionHypothesis (.held next _) (built_storedAt built stored)
              (.inr ⟨rfl, isNull⟩) laterFits (reaches.2 next stored)

/-- A chain with a step that does not reach what is stored has an initial part that the loop or
the operator `->` does not follow. -/
theorem chain_differs (stands : StandsAt container containerValue v decoded) (built : Built v)
    {keys : List AgtypeValue} (fits : ChainFits v keys) (misses : ¬ChainReaches decoded v keys) :
    ∃ n < keys.length,
      accessLoop container containerValue (keys.take (n + 1)) ≠
          .ok (nonNull (storedAlong v (keys.take (n + 1)))) ∨
        arrowSteps v (keys.take (n + 1)) ≠ .ok (storedAlong v (keys.take (n + 1))) := by
  induction keys generalizing v container containerValue decoded with
  | nil => exact absurd trivial misses
  | cons key keys inductionHypothesis =>
      by_cases reaches : StepReaches decoded v key
      · rw [ChainReaches, and_iff_right reaches] at misses
        push Not at misses
        obtain ⟨next, stored, laterMisses⟩ := misses
        obtain ⟨n, inside, found⟩ := inductionHypothesis (.held next _)
          (built_storedAt built stored) (fits.2 next stored) laterMisses
        have notNull : next ≠ .null := fun isNull => by
          have laterFits := fits.2 next stored
          rw [isNull] at laterFits
          rw [chainFits_null laterFits] at inside
          exact absurd inside (Nat.not_lt_zero n)
        refine ⟨n + 1, Nat.succ_lt_succ inside, ?_⟩
        obtain ⟨result, isLoop, isStored, -⟩ := accessLoop_cons stands built fits.1
          (keys.take (n + 1))
        obtain rfl := isStored reaches
        rw [List.take_succ_cons, isLoop, arrowSteps, arrow_reaches built fits.1 reaches,
          storedAlong, stored, nonNull_eq_some.mpr ⟨rfl, notNull⟩]
        exact found
      · refine ⟨0, Nat.succ_pos _, ?_⟩
        rw [List.take_succ_cons, List.take_zero]
        exact step_differs stands built fits.1 reaches

end Chains

section Forms

variable {v : AgtypeValue}

/-- What a key fits is opened. -/
theorem openContainer_stands {key : AgtypeValue} (built : Built v) (fits : KeyFits v key) :
    ∃ container scalarValue, openContainer v = .ok (container, scalarValue) ∧
      StandsAt container scalarValue v false := by
  rcases fits with ⟨pairs, name, isPairs, -⟩ | ⟨elems, arrayIndex, rfl, -⟩
  · obtain ⟨-, rfl | ⟨hasProperties, -, -⟩⟩ := fieldPairs_cases built isPairs
    · exact ⟨some _, none, rfl, .root rfl⟩
    · cases v <;> try cases hasProperties
      all_goals exact ⟨none, some ⟨_, false⟩, rfl, .held _ false⟩
  · exact ⟨some _, none, rfl, .root rfl⟩

/-- The shortcut for two `agtype` values does what the loop does. -/
theorem variadic_eq_loop {key : AgtypeValue} {keys : List AgtypeValue} (built : Built v)
    (fits : KeyFits v key) (fastPair : Bool) {container : Option AgtypeValue}
    {scalarValue : Option HeldValue} (opened : openContainer v = .ok (container, scalarValue))
    (stands : StandsAt container scalarValue v false) :
    agtypeAccessOperatorVariadic fastPair v (key :: keys) =
      accessLoop container scalarValue (key :: keys) := by
  unfold agtypeAccessOperatorVariadic
  split
  · rename_i isNil
    cases isNil
  · rename_i pairs name isKeys
    cases isKeys
    obtain ⟨found, isLoop, isStored, -⟩ := accessLoop_cons stands built
      (.inl ⟨pairs, name, rfl, rfl⟩) []
    have reaches : StepReaches false (.object pairs) (.string name) := fun hasProperties => by
      cases hasProperties
    rw [isLoop, isStored reaches, nonNull_storedAt_string,
      findFromObject_eq_lookup built.keysIncrease]
    change _ = (match nonNull (pairs.lookup name) with
      | none => Except.ok none
      | some next => accessLoop none (some ⟨next, false⟩) [])
    cases nonNull (pairs.lookup name) <;> rfl
  · rw [opened]
    rfl

/-- The form with two arguments gives what is stored, with the cached key or without. -/
theorem two_reaches (built : Built v) {key : AgtypeValue} (fits : KeyFits v key)
    (reaches : StepReaches false v key) (cached : Bool) :
    agtypeAccessOperatorTwo cached v key = .ok (nonNull (storedAt v key)) := by
  rcases fits with ⟨pairs, name, isPairs, rfl⟩ | ⟨elems, arrayIndex, rfl, rfl⟩
  · rw [nonNull_storedAt_string, ← fieldIn_reaches isPairs reaches, Bool.false_or]
    obtain ⟨builtPairs, rfl | ⟨hasProperties, isScalar, extracted⟩⟩ := fieldPairs_cases built isPairs
    · change _ = Except.ok (nonNull (fieldIn false pairs name))
      rw [fieldIn_false builtPairs.keysIncrease]
      cases cached <;> rfl
    · have opened : openContainer v = .ok (none, some ⟨v, false⟩) := by
        cases v <;> try cases hasProperties
        all_goals rfl
      have isTwo : agtypeAccessOperatorTwo cached v (.string name) =
          .ok (nonNull (((getAgtypeValueObjectValue pairs name).map fun value =>
            HeldValue.mk value true).map (·.value))) := by
        rw [agtypeAccessOperatorTwo, opened]
        simp only [bind, Except.bind, AgtypeValue.isScalar, extracted false]
        cases cached <;> rfl
      rw [hasProperties, fieldIn_true builtPairs.keysIncrease, isTwo]
      cases getAgtypeValueObjectValue pairs name <;> rfl
  · rw [storedAt, ← elementAt_eq built.bounded]
    have isField : agtypeAccessOperatorTwo cached (.array false elems) (.integer arrayIndex) =
        .ok (nonNull (((elementAt elems arrayIndex).map fun value => HeldValue.mk value false).map
          (·.value))) := by
      cases cached <;> rfl
    rw [isField]
    cases elementAt elems arrayIndex <;> rfl

/-- The forms of the access operator and the operator `->`, applied step by step, give what is
stored along a chain whose steps reach it; a null element is a NULL for the former only. -/
theorem accessForms_agree (built : Built v) {keys : List AgtypeValue} (nonempty : keys ≠ [])
    (fits : ChainFits v keys) (reaches : ChainReaches false v keys) : FormsAgree v keys := by
  cases keys with
  | nil => exact absurd rfl nonempty
  | cons key keys =>
      obtain ⟨container, scalarValue, opened, stands⟩ := openContainer_stands built fits.1
      obtain ⟨loop, arrow⟩ := chain_reaches stands built (.inl nonempty) fits reaches
      refine ⟨fun fastPair => ?_, fun cached key' single => ?_, arrow⟩
      · rw [variadic_eq_loop built fits.1 fastPair opened stands, loop]
      · cases single
        rw [two_reaches built fits.1 reaches.1, storedAlong_singleton]

/-- On `{"a": [1]}` the chain of `"a"` and 0 -/
theorem accessForms_agree_nested :
    FormsAgree (.object [([97], .array false [.integer 1])]) [.string [97], .integer 0] := by
  have built : Built (.object [([97], .array false [.integer 1])]) :=
    .object (List.forall_mem_singleton.mpr
      (.array (List.forall_mem_singleton.mpr (.integer 1)) (by decide))) (by decide) (by decide)
  refine accessForms_agree built nofun ⟨.inl ⟨_, _, rfl, rfl⟩, fun next found => ?_⟩
    ⟨nofun, fun next found => ?_⟩
  · cases Option.some.inj (show some (.array false [.integer 1]) = some next from found)
    exact ⟨.inr ⟨_, _, rfl, rfl⟩, fun _ _ => trivial⟩
  · cases Option.some.inj (show some (.array false [.integer 1]) = some next from found)
    exact ⟨fun elems isArray elem found => rfl, fun _ _ => trivial⟩

/-- A null element is a NULL for the access operator, and a null for the operator `->`. -/
theorem null_element_differs :
    agtypeAccessOperatorTwo false (.array false [.null]) (.integer 0) = .ok none ∧
      agtypeAccessOperatorVariadic true (.array false [.null]) [.integer 0] = .ok none ∧
      agtypeObjectFieldAgtype (.array false [.null]) (.integer 0) = .ok (some .null) :=
  ⟨rfl, rfl, rfl⟩

/-- No other chains are followed: some form misses what is stored along an initial part. -/
theorem accessForms_differ (built : Built v) {keys : List AgtypeValue} (fits : ChainFits v keys)
    (misses : ¬ChainReaches false v keys) :
    ∃ n < keys.length, ¬FormsAgree v (keys.take (n + 1)) := by
  cases keys with
  | nil => exact absurd trivial misses
  | cons key keys =>
      obtain ⟨container, scalarValue, opened, stands⟩ := openContainer_stands built fits.1
      obtain ⟨n, inside, found⟩ := chain_differs stands built fits misses
      refine ⟨n, inside, fun forms => ?_⟩
      rw [List.take_succ_cons] at forms found
      have loop := forms.variadic false
      rw [variadic_eq_loop built fits.1 false opened stands] at loop
      exact found.elim (fun notLoop => notLoop loop) fun notArrow => notArrow forms.arrow

/-- On `[5]` the chain of the index 4294967296 -/
theorem accessForms_differ_wrapped :
    ∃ n < 1, ¬FormsAgree (.array false [.integer 5])
      ([AgtypeValue.integer 4294967296].take (n + 1)) := by
  have built : Built (.array false [.integer 5]) :=
    .array (List.forall_mem_singleton.mpr (.integer 5)) (by decide)
  have fits : ChainFits (.array false [.integer 5]) [.integer 4294967296] :=
    ⟨.inr ⟨_, _, rfl, rfl⟩, fun _ _ => trivial⟩
  have misses : ¬ChainReaches false (.array false [.integer 5]) [.integer 4294967296] := by
    rintro ⟨reaches, -⟩
    exact absurd (reaches [.integer 5] rfl (.integer 5) rfl) (by decide)
  exact accessForms_differ built fits misses

-- The index of `->` keeps its low 32 bits only.
example : agtypeObjectFieldAgtype (.array false [.integer 5]) (.integer 4294967296) =
    .ok (some (.integer 5)) := rfl

end Forms

end Age.Agtype
