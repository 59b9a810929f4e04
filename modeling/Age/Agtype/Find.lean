import Age.Agtype.ContainsMatch
import Age.Agtype.Order
import Age.Server.Order

/-!
# Finding a value in a container

`find_agtype_value_from_container` and its variant that does not copy read the same children:
an array one after the other, an object by a binary search on its keys.  They ask different
functions whether an element is the one.
-/

namespace Age.Agtype

open Lib Filter

inductive FindError where
  | read (error : ReadError)
  | equals (error : ContainsError)
  | compare (error : CompareError)
  /-- An `AGTV_BINARY` has no scalar to compare. -/
  | binaryScalar
  /-- `Assert(key->type == AGTV_STRING)` -/
  | keyNotString

/-- The `flags`, of which both may be set -/
structure FindFlags where
  array : Bool
  object : Bool

section Fills

/-- The type of what is filled in; none stands for `AGTV_BINARY`. -/
def Filled.type? : Filled → Option AgtypeValueType
  | .scalar val => some val.type
  | .binary _ _ => none

/-- `fill_agtype_value_no_copy` over a given deserialization of composites; integers and floats
are read in place. -/
def fillNoCopyWith (composite : Bytes → AgtypeValueType → Except ReadError AgtypeValue) : Fill :=
  fun container index baseAddr offset =>
    let kind := agteType (containerChild container index)
    if kind = agtentryIsNull then .ok (.scalar .null)
    else if kind = agtentryIsString then
      .ok (.scalar (.string
        ((baseAddr.drop offset).take (getAgtypeLength container index))))
    else if kind = agtentryIsNumeric then do
      return .scalar (← readNumeric (baseAddr.drop (intAlign offset)))
    else if kind = agtentryIsAgtype then
      let base := baseAddr.drop (intAlign offset)
      let agtHeader := readLE 4 base 0
      if agtHeader = agtHeaderInteger then
        .ok (.scalar (.integer (UInt64.ofNat (readLE 8 base 4)).toInt64))
      else if agtHeader = agtHeaderFloat then
        .ok (.scalar (.float ⟨UInt64.ofNat (readLE 8 base 4)⟩))
      else do
        return .scalar (← agDeserializeExtendedType composite baseAddr offset)
    else if kind = agtentryIsBoolTrue then .ok (.scalar (.bool true))
    else if kind = agtentryIsBoolFalse then .ok (.scalar (.bool false))
    else
      .ok (.binary (baseAddr.drop (intAlign offset))
        (getAgtypeLength container index - (intAlign offset - offset)))

def fillAgtypeValueNoCopy : (fuel : Nat) → Fill
  | 0 => fillNoCopyWith fun _ _ => .error .outOfFuel
  | fuel + 1 => fillNoCopyWith (agDeserializeComposite (fillAgtypeValue fuel) fuel)

/-- Copied or not, the same value is filled in. -/
theorem fillNoCopyWith_eq (composite : Bytes → AgtypeValueType → Except ReadError AgtypeValue) :
    fillNoCopyWith composite = fillWith composite := by
  funext container index baseAddr offset
  unfold fillNoCopyWith fillWith
  dsimp only
  -- the two differ in where integers and floats are read
  have inPlace : (if readLE 4 (baseAddr.drop (intAlign offset)) 0 = agtHeaderInteger then
        .ok (.scalar (.integer
          (UInt64.ofNat (readLE 8 (baseAddr.drop (intAlign offset)) 4)).toInt64))
      else if readLE 4 (baseAddr.drop (intAlign offset)) 0 = agtHeaderFloat then
        .ok (.scalar (.float ⟨UInt64.ofNat (readLE 8 (baseAddr.drop (intAlign offset)) 4)⟩))
      else do
        return .scalar (← agDeserializeExtendedType composite baseAddr offset)) =
      (do return Filled.scalar (← agDeserializeExtendedType composite baseAddr offset)) := by
    unfold agDeserializeExtendedType
    dsimp only
    split_ifs <;> rfl
  rw [inPlace]

theorem fillAgtypeValueNoCopy_eq (fuel : Nat) :
    fillAgtypeValueNoCopy fuel = fillAgtypeValue fuel := by
  cases fuel <;> exact fillNoCopyWith_eq _

end Fills

section Finds

variable (ops : OrderOps)

/-- `equals_agtype_scalar_value` -/
def equalsFilled : Filled → Filled → Except FindError Bool
  | .scalar key, .scalar result => (ops.equalsAgtypeScalarValue key result).mapError .equals
  | _, _ => .error .binaryScalar

/-- `compare_agtype_scalar_values(...) == 0` -/
def compareFilled : Filled → Filled → Except FindError Bool
  | .scalar key, .scalar result => do
      let res ← (ops.compareAgtypeScalarValues key result).mapError .compare
      return res = 0
  | _, _ => .error .binaryScalar

/-- The loop over the elements of an array -/
def findElem (fill : Fill) (test : Filled → Filled → Except FindError Bool)
    (container base : Bytes) (key : Filled) :
    (remaining index offset : Nat) → Except FindError (Option Filled)
  | 0, _, _ => .ok none
  | remaining + 1, index, offset => do
      let result ← (fill container index base offset).mapError .read
      let next := agteAdvanceOffset offset (containerChild container index)
      if key.type? = result.type? then
        if ← test key result then return some result
        else findElem fill test container base key remaining (index + 1) next
      else findElem fill test container base key remaining (index + 1) next

/-- The binary search on the keys of an object, as the index where it ends; `turns` bounds the
turns of the loop. -/
def searchKey (keyAt : Nat → Bytes) (key : Bytes) : (turns stopLow stopHigh : Nat) → Option Nat
  | 0, _, _ => none
  | turns + 1, stopLow, stopHigh =>
      if stopLow < stopHigh then
        let stopMiddle := stopLow + (stopHigh - stopLow) / 2
        let difference := lengthCompareAgtypeStringValue (keyAt stopMiddle) key
        if difference = 0 then some stopMiddle
        else if difference < 0 then searchKey keyAt key turns (stopMiddle + 1) stopHigh
        else searchKey keyAt key turns stopLow stopMiddle
      else none

/-- A key of an object, by random access -/
def objectKeyAt (container base : Bytes) (index : Nat) : Bytes :=
  (base.drop (getAgtypeOffset container index)).take (getAgtypeLength container index)

/-- The body of both functions -/
def findWith (fill : Fill) (test : Filled → Filled → Except FindError Bool) (container : Bytes)
    (flags : FindFlags) (key : Filled) : Except FindError (Option Filled) :=
  let count := agtypeContainerSize container
  if count = 0 then .ok none
  else if flags.array && agtypeContainerIsArray container then
    findElem fill test container (dataProper container count) key count 0 0
  else if flags.object && agtypeContainerIsObject container then
    match key with
    | .scalar (.string key) =>
        let base := dataProper container (2 * count)
        match searchKey (objectKeyAt container base) key count 0 count with
        | some middle => do
            let result ← (fill container (middle + count) base
              (getAgtypeOffset container (middle + count))).mapError .read
            return some result
        | none => .ok none
    | _ => .error .keyNotString
  else .ok none

/-- `find_agtype_value_from_container` -/
def findAgtypeValueFromContainer (fuel : Nat) (container : Bytes) (flags : FindFlags)
    (key : Filled) : Except FindError (Option Filled) :=
  findWith (fillAgtypeValue fuel) (equalsFilled ops) container flags key

/-- `find_agtype_value_from_container_no_copy` -/
def findAgtypeValueFromContainerNoCopy (fuel : Nat) (container : Bytes) (flags : FindFlags)
    (key : Filled) : Except FindError (Option Filled) :=
  findWith (fillAgtypeValueNoCopy fuel) (compareFilled ops) container flags key

end Finds

section Search

variable {keyAt : Nat → Bytes} {key : Bytes}

theorem searchKey_sound {turns stopLow stopHigh found : Nat}
    (search : searchKey keyAt key turns stopLow stopHigh = some found) :
    stopLow ≤ found ∧ found < stopHigh ∧ keyAt found = key := by
  induction turns generalizing stopLow stopHigh with
  | zero => cases search
  | succ turns ih =>
      rw [searchKey] at search
      dsimp only at search
      split_ifs at search with more same less
      · cases search
        exact ⟨by omega, by omega, (threeWay_lengthCompare.eq_zero_iff _ _).1 same⟩
      · obtain ⟨low, high, isKey⟩ := ih search
        exact ⟨by omega, high, isKey⟩
      · obtain ⟨low, high, isKey⟩ := ih search
        exact ⟨low, by omega, isKey⟩

/-- Keys that increase are found: the half that is left out has smaller or larger keys. -/
theorem searchKey_complete {turns stopLow stopHigh place : Nat}
    (increases : ∀ first second, stopLow ≤ first → first < second → second < stopHigh →
      lengthCompareAgtypeStringValue (keyAt first) (keyAt second) < 0)
    (enough : stopHigh - stopLow ≤ turns) (low : stopLow ≤ place) (high : place < stopHigh)
    (isKey : keyAt place = key) : searchKey keyAt key turns stopLow stopHigh = some place := by
  induction turns generalizing stopLow stopHigh with
  | zero => omega
  | succ turns ih =>
      rw [searchKey, if_pos (by omega)]
      dsimp only
      generalize middleIs : stopLow + (stopHigh - stopLow) / 2 = middle
      rcases Nat.lt_trichotomy middle place with less | same | greater
      · have smaller := increases middle place (by omega) less high
        rw [isKey] at smaller
        rw [if_neg (by omega), if_pos smaller]
        exact ih (fun first second inLow => increases first second (by omega)) (by omega)
          (by omega) high
      · subst same
        rw [if_pos ((threeWay_lengthCompare.eq_zero_iff _ _).2 isKey)]
      · have larger := increases place middle low greater (by omega)
        rw [isKey] at larger
        have positive := (threeWay_lengthCompare.neg_iff_pos _ _).1 larger
        rw [if_neg (by omega), if_neg (by omega)]
        exact ih (fun first second inLow isLess inHigh =>
          increases first second inLow isLess (by omega)) (by omega) low greater

/-- The search finds exactly the keys that are there. -/
theorem searchKey_isSome_iff {count : Nat}
    (increases : ∀ first second, first < second → second < count →
      lengthCompareAgtypeStringValue (keyAt first) (keyAt second) < 0) :
    (searchKey keyAt key count 0 count).isSome = true ↔ ∃ place < count, keyAt place = key := by
  constructor
  · intro isSome
    obtain ⟨found, search⟩ := Option.isSome_iff_exists.1 isSome
    obtain ⟨_, high, isKey⟩ := searchKey_sound search
    exact ⟨found, high, isKey⟩
  · rintro ⟨place, high, isKey⟩
    rw [searchKey_complete (fun first second _ => increases first second) (by omega)
      (Nat.zero_le _) high isKey]
    rfl

end Search

section Arrays

variable {ops : OrderOps}

/-- What a child is filled in as -/
inductive Stands : AgtypeValue → Filled → Prop where
  | scalar {v : AgtypeValue} : v.isScalar = true → Stands v (.scalar v)
  | binary {v : AgtypeValue} {data : Bytes} {len : Nat} : v.isScalar = false →
      Stands v (.binary data len)

/-- The loop over elements that have been filled in -/
def findAmong (test : Filled → Filled → Except FindError Bool) (key : Filled) :
    List Filled → Except FindError (Option Filled)
  | [] => .ok none
  | result :: rest =>
      if key.type? = result.type? then do
        if ← test key result then return some result else findAmong test key rest
      else findAmong test key rest

theorem fills_stands {v : AgtypeValue} (decodes : Decodes v) {container base : Bytes}
    {index offset length : Nat} (slot : SlotAt container base index offset length v) :
    ∃ result, Stands v result ∧
      ∀ᶠ fuel in atTop, fillAgtypeValue fuel container index base offset = .ok result := by
  obtain ⟨result, shallow, filled⟩ := fills_shallow decodes slot
  refine ⟨result, ?_, filled⟩
  rcases shallow .elem with ⟨isScalar, same⟩ | ⟨nested, data, len, _, same⟩
  · cases same
    exact .scalar isScalar
  · cases same
    exact .binary nested

theorem findElem_eq {elems : List AgtypeValue} (decodes : ∀ elem ∈ elems, Decodes elem)
    {container base : Bytes} {index offset : Nat}
    (start : getAgtypeOffset container index = offset)
    (contents : ElemsAt container base index offset elems) :
    ∃ results, List.Forall₂ Stands elems results ∧ ∀ᶠ fuel in atTop, ∀ test key,
      findElem (fillAgtypeValue fuel) test container base key elems.length index offset =
        findAmong test key results := by
  induction elems generalizing index offset with
  | nil => exact ⟨[], .nil, Eventually.of_forall fun _ _ _ => rfl⟩
  | cons elem rest ih =>
      obtain ⟨length, entry, node, after⟩ := contents
      obtain ⟨result, stands, filled⟩ :=
        fills_stands (decodes elem List.mem_cons_self) ⟨entry, start, node⟩
      obtain ⟨results, allStand, finds⟩ := ih
        (fun other isOther => decodes other (List.mem_cons_of_mem elem isOther))
        (entry.offset_succ start) after
      refine ⟨result :: results, .cons stands allStand, ?_⟩
      filter_upwards [filled, finds] with fuel fill others
      intro test key
      rw [List.length_cons, findElem, fill, findAmong, entry.advance]
      dsimp only
      rw [others]
      rfl

/-- Both fail, or both answer the same. -/
inductive SameAnswer {α : Type} : Except FindError α → Except FindError α → Prop where
  | ok (answer : α) : SameAnswer (.ok answer) (.ok answer)
  | error (first second : FindError) : SameAnswer (.error first) (.error second)

theorem findAmong_sameAnswer {first second : Filled → Filled → Except FindError Bool}
    {key : Filled} {results : List Filled}
    (same : ∀ result ∈ results, key.type? = result.type? →
      SameAnswer (first key result) (second key result)) :
    SameAnswer (findAmong first key results) (findAmong second key results) := by
  induction results with
  | nil => exact .ok none
  | cons result rest ih =>
      have others := ih fun other isOther => same other (List.mem_cons_of_mem result isOther)
      rw [findAmong, findAmong]
      split_ifs with sameType
      · have answer := same result List.mem_cons_self sameType
        revert answer
        generalize first key result = answerFirst, second key result = answerSecond
        rintro (answer | _)
        · cases answer with
          | true => exact .ok (some result)
          | false => exact others
        · exact .error _ _
      · exact others

/-- A test that fails on every element of the type fails the search, if there is one. -/
theorem findAmong_error {test : Filled → Filled → Except FindError Bool} {key : Filled}
    {results : List Filled} (meets : ∃ result ∈ results, key.type? = result.type?)
    (fails : ∀ result ∈ results, key.type? = result.type? → ∃ error, test key result = .error error) :
    ∃ error, findAmong test key results = .error error := by
  induction results with
  | nil =>
      obtain ⟨_, inside, _⟩ := meets
      cases inside
  | cons result rest ih =>
      rw [findAmong]
      split_ifs with sameType
      · obtain ⟨error, failed⟩ := fails result List.mem_cons_self sameType
        exact ⟨error, by rw [failed]; rfl⟩
      · obtain ⟨other, inside, otherType⟩ := meets
        rcases List.mem_cons.1 inside with rfl | inside
        · exact (sameType otherType).elim
        · exact ih ⟨other, inside, otherType⟩ fun later isLater =>
            fails later (List.mem_cons_of_mem result isLater)

/-- A test that answers on every element of the type finds an element exactly where one passes. -/
theorem findAmong_answers {test : Filled → Filled → Except FindError Bool} {key : Filled}
    {results : List Filled}
    (answers : ∀ result ∈ results, key.type? = result.type? → ∃ answer, test key result = .ok answer) :
    ∃ found, findAmong test key results = .ok found ∧ (found.isSome = true ↔
      ∃ result ∈ results, key.type? = result.type? ∧ test key result = .ok true) := by
  induction results with
  | nil => exact ⟨none, rfl, by simp⟩
  | cons result rest ih =>
      obtain ⟨found, isFound, iff⟩ := ih fun other isOther =>
        answers other (List.mem_cons_of_mem result isOther)
      rw [findAmong]
      split_ifs with sameType
      · obtain ⟨answer, answered⟩ := answers result List.mem_cons_self sameType
        cases answer with
        | true =>
            exact ⟨some result, by rw [answered]; rfl,
              iff_of_true rfl ⟨result, List.mem_cons_self, sameType, answered⟩⟩
        | false =>
            refine ⟨found, by rw [answered]; exact isFound, iff.trans ?_⟩
            rw [List.exists_mem_cons_iff]
            simp [answered]
      · refine ⟨found, isFound, iff.trans ?_⟩
        rw [List.exists_mem_cons_iff]
        simp [sameType]

end Arrays

section Tests

variable {ops : OrderOps}

/-- The ids that a comparison reads are there. -/
def AgtypeValue.hasIds : AgtypeValue → Bool
  | .edge pairs => (edgeGetId pairs).toBool
  | .path elems => AgtypeValue.isPathFrom true elems
  | _ => true

/-- The two tests treat a NaN differently, and only one of them knows edges and paths. -/
def FindsDifferently : Filled → AgtypeValue → Prop
  | .scalar (.float key), .float val => key.isNaN = true ∧ val.isNaN = true
  | .scalar (.edge _), .edge _ => True
  | .scalar (.path _), .path _ => True
  | _, _ => False

theorem compareTwoFloats_eq_zero_iff {a b : Float8} (notNaN : ¬(a.isNaN = true ∧ b.isNaN = true)) :
    compareTwoFloatsOrderability a b = 0 ↔ a.ieeeEq b = true := by
  rw [ieeeEq_iff]
  constructor
  · intro zero
    exact (compareTwoFloats_eq_zero zero).resolve_left fun both => notNaN ⟨both.1, both.2⟩
  · rintro ⟨aNumber, bNumber, places⟩
    simp [compareTwoFloatsOrderability, aNumber, bNumber, places]

theorem compareStrings_eq_zero_iff (collation : ThreeWay ops.varstrCmp) {a b : Bytes} :
    ops.compareStrings a b = 0 ↔ a = b := by
  refine ⟨compareStrings_eq_zero collation, fun same => ?_⟩
  have zero := (collation.eq_zero_iff a b).2 same
  simp [OrderOps.compareStrings, zero]

theorem compareBool_eq_zero_iff {a b : Bool} : compareBool a b = 0 ↔ a = b := by
  cases a <;> cases b <;> decide

theorem compareInt64_eq_zero_iff {a b : Int64} : compareInt64 a b = 0 ↔ a = b := by
  unfold compareInt64
  split_ifs with same less <;> simp [same]

theorem tests_sameAnswer (collation : ThreeWay ops.varstrCmp) {key : Filled} {elem : AgtypeValue}
    {result : Filled} (stands : Stands elem result) (sameType : key.type? = result.type?)
    (alike : ¬FindsDifferently key elem) :
    SameAnswer (equalsFilled ops key result) (compareFilled ops key result) := by
  cases stands with
  | binary nested =>
      cases key <;> exact .error _ _
  | scalar isScalar =>
      cases key with
      | binary data len => cases sameType
      | scalar key =>
          have types : key.type = elem.type := Option.some.inj sameType
          have answer {first second : Bool} (same : first = second) :
              SameAnswer (.ok first : Except FindError Bool) (.ok second) := same ▸ .ok first
          cases elem with
          | array rawScalar elems => cases isScalar
          | object pairs => cases isScalar
          | null =>
              cases key <;> cases types
              exact .ok true
          | string val =>
              cases key <;> cases types
              refine answer (decide_eq_decide.2 ?_)
              rw [threeWay_lengthCompare.eq_zero_iff, compareStrings_eq_zero_iff collation]
          | numeric val =>
              cases key <;> cases types
              exact .ok _
          | bool val =>
              cases key <;> cases types
              exact answer (decide_eq_decide.2 compareBool_eq_zero_iff.symm)
          | integer val =>
              cases key <;> cases types
              exact answer (decide_eq_decide.2 compareInt64_eq_zero_iff.symm)
          | float val =>
              cases key <;> cases types
              refine answer ?_
              rw [Bool.eq_iff_iff, decide_eq_true_iff]
              exact (compareTwoFloats_eq_zero_iff alike).symm
          | vertex pairs =>
              cases key <;> cases types
              rename_i keyPairs
              simp only [equalsFilled, compareFilled, OrderOps.equalsAgtypeScalarValue,
                OrderOps.compareAgtypeScalarValues]
              cases vertexGetId keyPairs with
              | error => exact .error _ _
              | ok keyId =>
                  cases vertexGetId pairs with
                  | error => exact .error _ _
                  | ok id => exact answer (decide_eq_decide.2 compareInt64_eq_zero_iff.symm)
          | edge pairs =>
              cases key <;> cases types
              exact (alike trivial).elim
          | path elems =>
              cases key <;> cases types
              exact (alike trivial).elim

end Tests

section Differences

variable {ops : OrderOps} {elems : List AgtypeValue} {results : List Filled}

theorem Stands.eq_scalar {elem : AgtypeValue} {result : Filled} (stands : Stands elem result)
    {type : AgtypeValueType} (sameType : some type = result.type?) :
    result = .scalar elem ∧ elem.type = type := by
  cases stands with
  | scalar isScalar => exact ⟨rfl, (Option.some.inj sameType).symm⟩
  | binary nested => cases sameType

theorem exists_elem (stands : List.Forall₂ Stands elems results) {result : Filled}
    (inside : result ∈ results) : ∃ elem ∈ elems, Stands elem result := by
  obtain ⟨index, inRange, rfl⟩ := List.mem_iff_getElem.1 inside
  have atIndex := (List.forall₂_iff_get.1 stands).2 index (stands.length_eq ▸ inRange) inRange
  exact ⟨_, List.get_mem _ _, atIndex⟩

theorem mem_results (stands : List.Forall₂ Stands elems results) {elem : AgtypeValue}
    (inside : elem ∈ elems) (isScalar : elem.isScalar = true) : .scalar elem ∈ results := by
  obtain ⟨index, inRange, rfl⟩ := List.mem_iff_getElem.1 inside
  have inResults := stands.length_eq ▸ inRange
  have atIndex := (List.forall₂_iff_get.1 stands).2 index inRange inResults
  generalize resultIs : results.get ⟨index, inResults⟩ = result at atIndex
  cases atIndex with
  | scalar _ => exact resultIs ▸ List.get_mem _ _
  | binary nested =>
      rw [List.get_eq_getElem, isScalar] at nested
      cases nested

/-- What both functions find of one type is an element of it. -/
theorem results_of_type (stands : List.Forall₂ Stands elems results) {type : AgtypeValueType}
    {result : Filled} (inside : result ∈ results) (sameType : some type = result.type?) :
    ∃ elem ∈ elems, result = .scalar elem ∧ elem.type = type := by
  obtain ⟨elem, isElem, isStands⟩ := exists_elem stands inside
  exact ⟨elem, isElem, isStands.eq_scalar sameType⟩

theorem compare_ok_of_hasIds {key elem : AgtypeValue} (keyIds : key.hasIds = true)
    (elemIds : elem.hasIds = true) (types : key.type = elem.type)
    (entity : elem.type = .edge ∨ elem.type = .path) :
    ∃ answer, compareFilled ops (.scalar key) (.scalar elem) = .ok answer := by
  unfold compareFilled
  suffices ∃ res, ops.compareAgtypeScalarValues key elem = .ok res by
    obtain ⟨res, compared⟩ := this
    exact ⟨res = 0, by simp only [compared]; rfl⟩
  rcases entity with isEdge | isPath
  · cases elem <;> cases isEdge
    cases key <;> cases types
    exact ⟨_, compareAgtypeScalarValues_edge ops keyIds elemIds⟩
  · cases elem <;> cases isPath
    cases key <;> cases types
    rename_i elems keyElems
    rw [OrderOps.compareAgtypeScalarValues]
    by_cases lengths : keyElems.length = elems.length
    · rw [if_neg (not_not_intro lengths)]
      exact ⟨_, comparePathElems_eq ops lengths keyIds elemIds⟩
    · rw [if_pos lengths]
      exact ⟨_, rfl⟩

theorem equals_error_of_entity {key elem : AgtypeValue} (types : key.type = elem.type)
    (entity : elem.type = .edge ∨ elem.type = .path) :
    ∃ error, equalsFilled ops (.scalar key) (.scalar elem) = .error error := by
  rcases entity with isEdge | isPath
  · cases elem <;> cases isEdge
    cases key <;> cases types
    exact ⟨_, rfl⟩
  · cases elem <;> cases isPath
    cases key <;> cases types
    exact ⟨_, rfl⟩

/-- Where a key meets an edge or a path, one search fails and the other does not. -/
theorem not_sameAnswer_entity {key : AgtypeValue} (stands : List.Forall₂ Stands elems results)
    (ids : ∀ elem ∈ elems, elem.hasIds = true) (keyIds : key.hasIds = true)
    (entity : key.type = .edge ∨ key.type = .path)
    {met : AgtypeValue} (inside : met ∈ elems) (metType : key.type = met.type) :
    ¬SameAnswer (findAmong (equalsFilled ops) (.scalar key) results)
      (findAmong (compareFilled ops) (.scalar key) results) := by
  have isScalar : met.isScalar = true := by
    rw [metType] at entity
    cases met <;> first | rfl | (rcases entity with impossible | impossible <;> cases impossible)
  obtain ⟨error, failed⟩ := @findAmong_error (equalsFilled ops) (.scalar key) results
    ⟨_, mem_results stands inside isScalar, congrArg some metType⟩ fun result isResult sameType => by
      obtain ⟨elem, _, rfl, elemType⟩ := results_of_type stands isResult sameType
      exact equals_error_of_entity elemType.symm (elemType ▸ entity)
  obtain ⟨found, answered, _⟩ := @findAmong_answers (compareFilled ops) (.scalar key) results
    fun result isResult sameType => by
      obtain ⟨elem, isElem, rfl, elemType⟩ := results_of_type stands isResult sameType
      exact compare_ok_of_hasIds keyIds (ids elem isElem) elemType.symm (elemType ▸ entity)
  rw [failed, answered]
  nofun

/-- A NaN equals no element, and compares with another as the same. -/
theorem not_sameAnswer_nan {key val : Float8} (stands : List.Forall₂ Stands elems results)
    (keyNaN : key.isNaN = true) (valNaN : val.isNaN = true) (inside : .float val ∈ elems) :
    ¬SameAnswer (findAmong (equalsFilled ops) (.scalar (.float key)) results)
      (findAmong (compareFilled ops) (.scalar (.float key)) results) := by
  have floats {result : Filled} (isResult : result ∈ results)
      (sameType : Filled.type? (.scalar (.float key)) = result.type?) :
      ∃ float, result = .scalar (.float float) := by
    obtain ⟨elem, _, rfl, elemType⟩ := results_of_type stands isResult sameType
    cases elem <;> cases elemType
    exact ⟨_, rfl⟩
  have notEqual (float : Float8) : key.ieeeEq float = false := by
    simp [Float8.ieeeEq, keyNaN]
  obtain ⟨found, equals, equalsIff⟩ := @findAmong_answers (equalsFilled ops)
    (.scalar (.float key)) results fun result isResult sameType => by
      obtain ⟨float, rfl⟩ := floats isResult sameType
      exact ⟨_, rfl⟩
  obtain ⟨foundToo, compares, comparesIff⟩ := @findAmong_answers (compareFilled ops)
    (.scalar (.float key)) results fun result isResult sameType => by
      obtain ⟨float, rfl⟩ := floats isResult sameType
      exact ⟨decide (compareTwoFloatsOrderability key float = 0), by
        simp only [compareFilled, OrderOps.compareAgtypeScalarValues]; rfl⟩
  have isNone : found = none := by
    rw [← Option.not_isSome_iff_eq_none, equalsIff]
    rintro ⟨result, isResult, sameType, passes⟩
    obtain ⟨float, rfl⟩ := floats isResult sameType
    have equal : key.ieeeEq float = true := Except.ok.inj passes
    rw [notEqual float] at equal
    cases equal
  have isSome : foundToo.isSome = true := by
    refine comparesIff.2 ⟨_, mem_results stands inside rfl, rfl, ?_⟩
    simp only [compareFilled, OrderOps.compareAgtypeScalarValues]
    have zero : compareTwoFloatsOrderability key val = 0 := by
      simp [compareTwoFloatsOrderability, keyNaN, valNaN]
    rw [zero]
    rfl
  rw [equals, compares, isNone]
  intro same
  cases same
  cases isSome

end Differences

section Roots

variable {ops : OrderOps}

/-- The memory holds a container as it is built: its children too, with the ids that are
compared. -/
inductive Serialized : Bytes → AgtypeValue → Prop where
  | array {container : Bytes} {rawScalar : Bool} {elems : List AgtypeValue} :
      ArrayAt container rawScalar elems → (∀ elem ∈ elems, Built elem) →
      (∀ elem ∈ elems, elem.hasIds = true) → Serialized container (.array rawScalar elems)
  | object {container : Bytes} {pairs : List AgtypePair} : ObjectAt container pairs →
      (∀ pair ∈ pairs, Built pair.2) → KeysIncrease pairs → Serialized container (.object pairs)

theorem objectKeyAt_eq {container : Bytes} {pairs : List AgtypePair}
    (contents : ObjectAt container pairs) {index : Nat} (inRange : index < pairs.length) :
    objectKeyAt container (dataProper container (2 * pairs.length)) index = pairs[index].1 := by
  obtain ⟨_, stop, keys, _⟩ := contents
  have slot := keysAt_slot rfl keys index (by simpa using inRange)
  rw [Nat.zero_add, List.getElem_map] at slot
  exact slot

/-- The binary search of an object finds exactly the keys of its pairs. -/
theorem searchKey_object_isSome_iff {container : Bytes} {pairs : List AgtypePair}
    (contents : ObjectAt container pairs) (increasing : KeysIncrease pairs) (key : Bytes) :
    (searchKey (objectKeyAt container (dataProper container (2 * pairs.length))) key pairs.length
      0 pairs.length).isSome = true ↔ key ∈ pairs.map Prod.fst := by
  rw [searchKey_isSome_iff fun first second isLess inRange => ?_, List.mem_map]
  · constructor
    · rintro ⟨place, inRange, isKey⟩
      exact ⟨pairs[place], List.getElem_mem inRange,
        (objectKeyAt_eq contents inRange).symm.trans isKey⟩
    · rintro ⟨pair, inside, isKey⟩
      obtain ⟨place, inRange, rfl⟩ := List.mem_iff_getElem.1 inside
      exact ⟨place, inRange, (objectKeyAt_eq contents inRange).trans isKey⟩
  · rw [objectKeyAt_eq contents (isLess.trans inRange), objectKeyAt_eq contents inRange]
    exact List.pairwise_iff_getElem.1 increasing first second _ inRange isLess

/-- With enough fuel, every value of an object is filled in. -/
theorem object_fills {stands : AgtypeValue → Filled → Prop} {container : Bytes}
    {pairs : List AgtypePair} (contents : ObjectAt container pairs)
    (children : ∀ pair ∈ pairs, ∀ index offset length,
      SlotAt container (dataProper container (2 * pairs.length)) index offset length pair.2 →
      ∃ result, stands pair.2 result ∧ ∀ᶠ fuel in atTop, fillAgtypeValue fuel container index
        (dataProper container (2 * pairs.length)) offset = .ok result) :
    ∀ᶠ fuel in atTop, ∀ index (inRange : index < pairs.length), ∃ result,
      stands pairs[index].2 result ∧
        fillAgtypeValue fuel container (index + pairs.length)
          (dataProper container (2 * pairs.length))
          (getAgtypeOffset container (index + pairs.length)) = .ok result := by
  obtain ⟨_, stop, keys, values⟩ := contents
  have valueStart := keysAt_stop rfl keys
  rw [List.length_map, Nat.zero_add] at valueStart
  have each : ∀ index ∈ Finset.range pairs.length, ∀ᶠ fuel in atTop,
      ∀ inRange : index < pairs.length, ∃ result, stands pairs[index].2 result ∧
        fillAgtypeValue fuel container (index + pairs.length)
          (dataProper container (2 * pairs.length))
          (getAgtypeOffset container (index + pairs.length)) = .ok result := by
    intro index isIndex
    have inRange := Finset.mem_range.1 isIndex
    obtain ⟨offset, length, slot⟩ := valuesAt_slot valueStart values index inRange
    obtain ⟨result, isResult, filled⟩ :=
      children _ (List.getElem_mem inRange) _ offset length slot
    filter_upwards [filled] with fuel fill
    intro _
    rw [Nat.add_comm] at slot fill
    exact ⟨result, isResult, slot.start ▸ fill⟩
  filter_upwards [(Filter.eventually_all_finset _).2 each] with fuel fills
  exact fun index inRange => fills index (Finset.mem_range.2 inRange) inRange

def FindsKey (outcome : Except FindError (Option Filled)) : Prop :=
  ∃ result, outcome = .ok (some result)

/-- The two functions agree, and both find a string key of an object exactly if it is there. -/
structure FindsAlike (ops : OrderOps) (fuel : Nat) (container : Bytes) (value : AgtypeValue)
    (flags : FindFlags) (key : Filled) : Prop where
  alike : SameAnswer (findAgtypeValueFromContainer ops fuel container flags key)
    (findAgtypeValueFromContainerNoCopy ops fuel container flags key)
  holdsKey : ∀ pairs name, value = .object pairs → flags.object = true →
    key = .scalar (.string name) →
    (FindsKey (findAgtypeValueFromContainer ops fuel container flags key) ↔
      name ∈ pairs.map Prod.fst) ∧
    (FindsKey (findAgtypeValueFromContainerNoCopy ops fuel container flags key) ↔
      name ∈ pairs.map Prod.fst)

theorem findWith_array {container : Bytes} {rawScalar : Bool} {elems : List AgtypeValue}
    (header : HeaderIs container (if rawScalar then 5 else 4) elems.length) {fill : Fill}
    {test : Filled → Filled → Except FindError Bool} {key : Filled} {results : List Filled}
    (finds : findElem fill test container (dataProper container elems.length) key elems.length 0 0 =
      findAmong test key results) (sameLength : elems.length = results.length) (flags : FindFlags) :
    findWith fill test container flags key =
      if flags.array then findAmong test key results else .ok none := by
  have isArray : agtypeContainerIsArray container = true := by
    rw [header.isArray]
    cases rawScalar <;> rfl
  have notObject : agtypeContainerIsObject container = false := by
    rw [header.isObject]
    cases rawScalar <;> rfl
  unfold findWith
  simp only [header.size, isArray, notObject, Bool.and_true, Bool.and_false, Bool.false_eq_true,
    if_false, finds]
  split_ifs with empty
  · rw [empty] at sameLength
    rw [List.length_eq_zero_iff.1 sameLength.symm]
    rfl
  · rfl
  · rfl
  · rfl

theorem SameAnswer.refl {α : Type} (outcome : Except FindError α) : SameAnswer outcome outcome := by
  cases outcome with
  | ok answer => exact .ok answer
  | error error => exact .error error error

theorem findWith_object {container : Bytes} {pairs : List AgtypePair}
    (header : HeaderIs container 2 pairs.length) (fill : Fill)
    (test : Filled → Filled → Except FindError Bool) (flags : FindFlags) (key : Filled) :
    findWith fill test container flags key = findWith fill (compareFilled ops) container flags key := by
  have notArray : agtypeContainerIsArray container = false := header.isArray
  unfold findWith
  simp only [notArray, Bool.and_false, Bool.false_eq_true, if_false]

theorem findsKey_object {container : Bytes} {pairs : List AgtypePair}
    (contents : ObjectAt container pairs) (increasing : KeysIncrease pairs) {fill : Fill}
    (fills : ∀ index (_ : index < pairs.length), ∃ result,
      fill container (index + pairs.length) (dataProper container (2 * pairs.length))
        (getAgtypeOffset container (index + pairs.length)) = .ok result)
    (test : Filled → Filled → Except FindError Bool) {flags : FindFlags}
    (objects : flags.object = true) (name : Bytes) :
    FindsKey (findWith fill test container flags (.scalar (.string name))) ↔
      name ∈ pairs.map Prod.fst := by
  have header := contents.1
  have notArray : agtypeContainerIsArray container = false := header.isArray
  have isObject : agtypeContainerIsObject container = true := header.isObject
  rw [← searchKey_object_isSome_iff contents increasing]
  unfold findWith FindsKey
  simp only [notArray, isObject, objects, Bool.and_false, Bool.and_true, Bool.false_eq_true,
    if_false, if_true, header.size]
  split_ifs with empty
  · rw [empty]
    exact iff_of_false (fun ⟨_, impossible⟩ => nomatch impossible) Bool.false_ne_true
  · cases search : searchKey (objectKeyAt container (dataProper container (2 * pairs.length))) name
      pairs.length 0 pairs.length with
    | none => exact iff_of_false (fun ⟨_, impossible⟩ => nomatch impossible) Bool.false_ne_true
    | some middle =>
        obtain ⟨result, filled⟩ := fills middle (searchKey_sound search).2.1
        refine iff_of_true ⟨result, ?_⟩ rfl
        dsimp only
        rw [filled]
        rfl

/-- The two functions agree unless a NaN, an edge or a path is looked for in an array that has
one. -/
theorem find_alike_iff (collation : ThreeWay ops.varstrCmp) {container : Bytes}
    {value : AgtypeValue} (serialized : Serialized container value) :
    ∃ enough, ∀ fuel, enough ≤ fuel → ∀ (flags : FindFlags) (key : Filled),
      (∀ scalar, key = .scalar scalar → scalar.hasIds = true) →
      (FindsAlike ops fuel container value flags key ↔
        ¬(flags.array = true ∧ ∃ rawScalar elems, value = .array rawScalar elems ∧
          ∃ elem ∈ elems, FindsDifferently key elem)) := by
  rw [← Filter.eventually_atTop]
  cases serialized with
  | @array rawScalar elems contents built ids =>
      obtain ⟨results, stands, finds⟩ :=
        findElem_eq (fun elem inside => decodes_of_built (built elem inside)) rfl contents.2
      filter_upwards [finds] with fuel finds
      intro flags key keyIds
      have find := findWith_array contents.1 (finds (equalsFilled ops) key) stands.length_eq flags
      have findNoCopy := findWith_array contents.1 (finds (compareFilled ops) key)
        stands.length_eq flags
      rw [← fillAgtypeValueNoCopy_eq] at findNoCopy
      constructor
      · rintro ⟨alike, _⟩ ⟨arrays, _, _, same, elem, inside, different⟩
        cases same
        unfold findAgtypeValueFromContainer findAgtypeValueFromContainerNoCopy at alike
        rw [find, findNoCopy, if_pos arrays, if_pos arrays] at alike
        cases key with
        | binary data len => cases elem <;> exact different
        | scalar key =>
            have ids' := keyIds key rfl
            cases key <;> cases elem <;> first
              | exact different
              | exact not_sameAnswer_nan stands different.1 different.2 inside alike
              | exact not_sameAnswer_entity stands ids ids' (.inl rfl) inside rfl alike
              | exact not_sameAnswer_entity stands ids ids' (.inr rfl) inside rfl alike
      · intro agrees
        refine ⟨?_, fun _ _ impossible => nomatch impossible⟩
        unfold findAgtypeValueFromContainer findAgtypeValueFromContainerNoCopy
        rw [find, findNoCopy]
        split_ifs with arrays
        · refine findAmong_sameAnswer fun result isResult sameType => ?_
          obtain ⟨elem, inside, isStands⟩ := exists_elem stands isResult
          exact tests_sameAnswer collation isStands sameType fun different =>
            agrees ⟨arrays, _, _, rfl, elem, inside, different⟩
        · exact .ok none
  | @object pairs contents built increasing =>
      filter_upwards [@object_fills Stands _ _ contents fun pair inside _ _ _ slot =>
        fills_stands (decodes_of_built (built pair inside)) slot] with fuel fills
      intro flags key _
      refine iff_of_true ⟨?_, ?_⟩ ?_
      · unfold findAgtypeValueFromContainer findAgtypeValueFromContainerNoCopy
        rw [fillAgtypeValueNoCopy_eq, findWith_object contents.1]
        exact .refl _
      · rintro _ name ⟨⟩ objects rfl
        have filled : ∀ index (_ : index < pairs.length), ∃ result,
            fillAgtypeValue fuel container (index + pairs.length)
              (dataProper container (2 * pairs.length))
              (getAgtypeOffset container (index + pairs.length)) = .ok result :=
          fun index inRange => (fills index inRange).imp fun _ both => both.2
        refine ⟨findsKey_object contents increasing filled _ objects name, ?_⟩
        unfold findAgtypeValueFromContainerNoCopy
        rw [fillAgtypeValueNoCopy_eq]
        exact findsKey_object contents increasing filled _ objects name
      · rintro ⟨_, _, _, impossible, _⟩
        cases impossible

/-- The container of `[NaN]` -/
def nanArray : Bytes :=
  encodeLE 4 0x40000001 ++ encodeLE 4 0xF000000C ++ encodeLE 4 1 ++ encodeLE 8 0x7FF8000000000000

def nan : Float8 := ⟨0x7FF8000000000000⟩

theorem serialized_nanArray : Serialized nanArray (.array false [.float nan]) := by
  have converted : convertToAgtype (.array false [.float nan]) = .ok (encodeLE 4 96 ++ nanArray) := by
    rfl
  exact .array (containerAt_convertToAgtype rfl converted)
    (fun elem inside => List.mem_singleton.1 inside ▸ .float nan)
    fun elem inside => List.mem_singleton.1 inside ▸ rfl

/-- Both look for `1` in `[NaN]` alike. -/
theorem find_alike_integer :
    ThreeWay Server.orderOps.varstrCmp ∧ Serialized nanArray (.array false [.float nan]) ∧
      ∃ enough, ∀ fuel, enough ≤ fuel → FindsAlike Server.orderOps fuel nanArray
        (.array false [.float nan]) ⟨true, true⟩ (.scalar (.integer 1)) := by
  have collation : ThreeWay Server.orderOps.varstrCmp := threeWay_memcmp
  obtain ⟨enough, alike⟩ := find_alike_iff collation serialized_nanArray
  refine ⟨collation, serialized_nanArray, enough, fun fuel isEnough =>
    (alike fuel isEnough _ _ ?_).2 ?_⟩
  · rintro _ ⟨⟩
    rfl
  · rintro ⟨_, _, _, ⟨⟩, elem, inside, different⟩
    obtain rfl := List.mem_singleton.1 inside
    exact different

/-- Only the variant that does not copy finds NaN in `[NaN]`. -/
theorem find_nan_differs :
    findAgtypeValueFromContainer Server.orderOps 1 nanArray ⟨true, false⟩ (.scalar (.float nan)) =
        .ok none ∧
      findAgtypeValueFromContainerNoCopy Server.orderOps 1 nanArray ⟨true, false⟩
        (.scalar (.float nan)) = .ok (some (.scalar (.float nan))) ∧
      ¬FindsAlike Server.orderOps 1 nanArray (.array false [.float nan]) ⟨true, false⟩
        (.scalar (.float nan)) := by
  have copied : findAgtypeValueFromContainer Server.orderOps 1 nanArray ⟨true, false⟩
      (.scalar (.float nan)) = .ok none := by rfl
  have inPlace : findAgtypeValueFromContainerNoCopy Server.orderOps 1 nanArray ⟨true, false⟩
      (.scalar (.float nan)) = .ok (some (.scalar (.float nan))) := by rfl
  refine ⟨copied, inPlace, fun alike => ?_⟩
  have same := alike.alike
  rw [copied, inPlace] at same
  cases same

end Roots

end Age.Agtype
