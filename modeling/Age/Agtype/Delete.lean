import Age.Agtype.ContainsMatch
import Age.Server.Order

/-!
# Deletion from lists and objects

The operator `-` takes positions out of a list and keys out of an object.  What is kept is pushed
again, a nested container piece by piece.
-/

namespace Age.Agtype

open Lib AgtypeValue

inductive DeleteError where
  | contains (error : ContainsError)
  | push (error : PushError)
  /-- `cannot delete from scalar or object using integer index` -/
  | notArray
  /-- `cannot delete from scalar or array using string key` -/
  | notObject
  /-- `expected agtype string, not agtype %s`; no type stands for `AGTV_BINARY`. -/
  | expectedString (found : Option AgtypeValueType)
  /-- `expected agtype integer, not agtype %s` -/
  | expectedInteger (found : Option AgtypeValueType)
  /-- `must be object or array, not a scalar value` -/
  | scalarValue
  /-- `container is not an agtype array` -/
  | rightNotArray
  /-- `Assert(res != NULL)`, or a key that has no first element -/
  | unset
  deriving DecidableEq, Repr

section Definitions

variable (ops : OrderOps)

/-- The result of the last call of `push_agtype_value` -/
def pushedResult (state : PushState) : Except DeleteError AgtypeValue :=
  match state.1 with
  | some res => .ok res
  | none => .error .unset

/-- A piece that is pushed as it comes from the iterator; a nested container is unpacked. -/
def pushPiece (state : PushState) (tokens : List Token) : Except DeleteError PushState :=
  (pushAll state tokens).mapError .push

/-- The loop of `delete_from_array` over the elements, the `i`-th of `n` first -/
def deleteElems (indexes : AgtypeValue) (n : Nat) :
    (i : Nat) → List AgtypeValue → PushState → Except DeleteError PushState
  | _, [], state => pushPiece state [.endArray]
  | i, elem :: rest, state => do
      let curIdx := Int64.ofNat i
      let negIdx := curIdx - Int64.ofNat n
      let containsIdx ←
        (agtypeDeepContains ops false indexes (.array true [.integer curIdx])).mapError .contains
      let containsNegIdx ←
        (agtypeDeepContains ops false indexes (.array true [.integer negIdx])).mapError .contains
      if containsIdx || containsNegIdx then deleteElems indexes n (i + 1) rest state
      else do
        let state ← pushPiece state (nodeTokens .elem elem)
        deleteElems indexes n (i + 1) rest state

def deleteFromArray (agt indexes : AgtypeValue) : Except DeleteError AgtypeValue :=
  match agt with
  | .array false elems =>
      if elems.length = 0 then .ok agt
      else do
        let state ← pushPiece (none, []) [.beginArray false elems.length]
        pushedResult (← deleteElems ops indexes elems.length 0 elems state)
  | _ => .error .notArray

/-- The loop of `delete_from_object` over the pairs -/
def deletePairs (key : Bytes) : List AgtypePair → PushState → Except DeleteError PushState
  | [], state => pushPiece state [.endObject]
  | (name, value) :: rest, state =>
      if key = name then deletePairs key rest state
      else do
        let state ← pushPiece state (.key name :: nodeTokens .value value)
        deletePairs key rest state

def deleteFromObject (agt : AgtypeValue) (key : Bytes) : Except DeleteError AgtypeValue :=
  match agt with
  | .object pairs =>
      if pairs.length = 0 then .ok agt
      else do
        let state ← pushPiece (none, []) [.beginObject pairs.length]
        pushedResult (← deletePairs key pairs state)
  | _ => .error .notObject

/-- The `type` of an element as the iterator gives it -/
def elementType (elem : AgtypeValue) : Option AgtypeValueType :=
  if elem.isScalar then some elem.type else none

/-- The loop of `agtype_sub` over a list of keys -/
def deleteKeys : AgtypeValue → List AgtypeValue → Except DeleteError AgtypeValue
  | lhs, [] => .ok lhs
  | lhs, .string key :: rest => do deleteKeys (← deleteFromObject lhs key) rest
  | _, elem :: _ => .error (.expectedString (elementType elem))

/-- The loop of `agtype_sub` over a list of indexes, which only looks at their types -/
def checkIndexes : List AgtypeValue → Except DeleteError Unit
  | [] => .ok ()
  | .integer _ :: rest => checkIndexes rest
  | elem :: _ => .error (.expectedInteger (elementType elem))

/-- `agtype_sub` on roots of which one is no scalar; no result where it goes on to arithmetic. -/
def agtypeSubDelete (lhs rhs : AgtypeValue) : Option (Except DeleteError AgtypeValue) :=
  match rhs with
  | .array false elems =>
      match lhs with
      | .object _ => some (deleteKeys lhs elems)
      | .array false _ => some (do
          checkIndexes elems
          deleteFromArray ops lhs rhs)
      | _ => some (.error .scalarValue)
  | _ =>
      match lhs with
      | .array true _ => none
      | _ =>
          match rhs with
          | .array true (key :: _) =>
              match lhs, key with
              | .object _, .string key => some (deleteFromObject lhs key)
              | .object _, key => some (.error (.expectedString (elementType key)))
              | _, .integer _ => some (deleteFromArray ops lhs rhs)
              | _, key => some (.error (.expectedInteger (elementType key)))
          | .array true [] => some (.error .unset)
          | _ => some (.error .rightNotArray)

end Definitions

section Lists

variable {ops : OrderOps}

/-- Integers are found by their value. -/
theorem contains_integer (raw : Bool) (indexes : List Int64) (index : Int64) :
    agtypeDeepContains ops false (.array raw (indexes.map .integer))
      (.array true [.integer index]) = .ok (decide (index ∈ indexes)) := by
  have found : ∃ result, findFromArray ops (.integer index) (indexes.map .integer) = .ok result ∧
      result.isSome = decide (index ∈ indexes) := by
    induction indexes with
    | nil => exact ⟨none, rfl, rfl⟩
    | cons first rest inductionHypothesis =>
        obtain ⟨result, search, isSome⟩ := inductionHypothesis
        rw [List.map_cons, findFromArray, if_pos (by rfl)]
        by_cases same : index = first
        · subst same
          exact ⟨some (.integer index), by simp [OrderOps.equalsAgtypeScalarValue]; rfl, by simp⟩
        · refine ⟨result, ?_, by simp [isSome, same]⟩
          simp only [OrderOps.equalsAgtypeScalarValue, decide_eq_false same]
          exact search
  obtain ⟨result, search, isSome⟩ := found
  rw [agtypeDeepContains, if_neg (by simp), containsElems]
  change ((findFromArray ops (.integer index) (indexes.map .integer)).map Option.isSome).bind
    (fun found => if found = true then containsElems ops (indexes.map .integer) []
      else pure false) = _
  rw [search]
  change (if result.isSome = true then containsElems ops (indexes.map .integer) []
    else pure false) = _
  rw [isSome]
  cases decide (index ∈ indexes) <;> rfl

/-- The position of an element, or the one from the end, is among the indexes. -/
def Deletes (indexes : List Int64) (n i : Nat) : Prop :=
  ∃ index ∈ indexes, index.toInt = i ∨ index.toInt = i - n

instance (indexes : List Int64) (n i : Nat) : Decidable (Deletes indexes n i) :=
  inferInstanceAs (Decidable (∃ index ∈ indexes, _))

/-- The elements that are left, in their order -/
def keptElems (indexes : List Int64) (elems : List AgtypeValue) : List AgtypeValue :=
  (elems.zipIdx.filter fun elem => ¬Deletes indexes elems.length elem.2).map Prod.fst

/-- The two tests of the loop are those of the position and of the one from the end. -/
theorem deletes_iff {indexes : List Int64} {n i : Nat} (inside : i < n) (bounded : n < 2 ^ 63) :
    (decide (Int64.ofNat i ∈ indexes) || decide (Int64.ofNat i - Int64.ofNat n ∈ indexes)) = true ↔
      Deletes indexes n i := by
  have position : (Int64.ofNat i).toInt = i := Int64.toInt_ofNat_of_lt (by omega)
  have fromEnd : (Int64.ofNat i - Int64.ofNat n).toInt = i - n := by
    rw [← Int64.ofInt_eq_ofNat, ← Int64.ofInt_eq_ofNat, ← Int64.ofInt_sub,
      Int64.toInt_ofInt_of_le (by omega) (by omega)]
  rw [Bool.or_eq_true, decide_eq_true_iff, decide_eq_true_iff]
  constructor
  · rintro (here | here)
    · exact ⟨_, here, .inl position⟩
    · exact ⟨_, here, .inr fromEnd⟩
  · rintro ⟨index, isIndex, same | same⟩
    · exact .inl (Int64.toInt_inj.mp (same.trans position.symm) ▸ isIndex)
    · exact .inr (Int64.toInt_inj.mp (same.trans fromEnd.symm) ▸ isIndex)

theorem pushPiece_elem {v : AgtypeValue} (built : Built v) (res : Option AgtypeValue)
    {a : List AgtypeValue} (room : a.length < agtypeMaxElems) :
    ∃ res', pushPiece (res, [.array false a]) (nodeTokens .elem v) =
      .ok (res', [.array false (a ++ [v])]) := by
  obtain ⟨res', pushed⟩ := (rebuilds_of_built built).1 res false a [] room
  exact ⟨res', by rw [pushPiece, pushed]; rfl⟩

/-- The loop appends the elements that are left to those that were pushed. -/
theorem deleteElems_eq {raw : Bool} {indexes : List Int64} {n i : Nat} {elems : List AgtypeValue}
    (built : ∀ elem ∈ elems, Built elem) (last : i + elems.length = n) (bounded : n < 2 ^ 63)
    {a : List AgtypeValue} (room : a.length + elems.length ≤ agtypeMaxElems)
    (res : Option AgtypeValue) :
    deleteElems ops (.array raw (indexes.map .integer)) n i elems (res, [.array false a]) =
      .ok (some (.array false (a ++
        ((elems.zipIdx i).filter fun elem => ¬Deletes indexes n elem.2).map Prod.fst)), []) := by
  induction elems generalizing i a res with
  | nil =>
      rw [List.zipIdx_nil, List.filter_nil, List.map_nil, List.append_nil]
      rfl
  | cons elem rest inductionHypothesis =>
      rw [List.length_cons] at last room
      obtain ⟨builtElem, builtRest⟩ := List.forall_mem_cons.mp built
      have tested := @deletes_iff indexes n i (by omega) bounded
      rw [deleteElems, contains_integer, contains_integer]
      change (if (decide (Int64.ofNat i ∈ indexes) ||
        decide (Int64.ofNat i - Int64.ofNat n ∈ indexes)) = true then _ else _) = _
      rw [List.zipIdx_cons, List.filter_cons]
      split_ifs with isDeleted keeps keeps
      · exact absurd (tested.mp isDeleted) (of_decide_eq_true keeps)
      · exact inductionHypothesis builtRest (by omega) (by omega) res
      · obtain ⟨res', pushed⟩ := pushPiece_elem builtElem res (show a.length < _ by omega)
        rw [pushed]
        have later := @inductionHypothesis (i + 1) builtRest (by omega) (a ++ [elem])
          (by rw [List.length_append, List.length_singleton]; omega) res'
        rw [List.append_assoc] at later
        exact later
      · exact absurd (mt tested.mpr isDeleted) (fun kept => keeps (decide_eq_true kept))

theorem deleteFromArray_eq {raw : Bool} {indexes : List Int64} {elems : List AgtypeValue}
    (built : Built (.array false elems)) :
    deleteFromArray ops (.array false elems) (.array raw (indexes.map .integer)) =
      .ok (.array false (keptElems indexes elems)) := by
  cases built with
  | array children bounded =>
    rw [deleteFromArray]
    split_ifs with empty
    · rw [List.length_eq_zero_iff.mp empty]
      rfl
    · have begun : pushPiece (none, []) [.beginArray false elems.length] =
          .ok (some (.array false []), [.array false []]) := rfl
      rw [begun]
      have loop := @deleteElems_eq ops raw indexes elems.length 0 elems children (by omega)
        (lt_of_le_of_lt bounded (by decide)) [] (by rw [List.length_nil]; omega)
        (some (.array false []))
      change (deleteElems ops (.array raw (indexes.map .integer)) elems.length 0 elems
        (some (.array false []), [.array false []])).bind pushedResult = _
      rw [loop]
      rfl

end Lists

section Objects

theorem pushPiece_pair {v : AgtypeValue} (built : Built v) (key : Bytes) (res : Option AgtypeValue)
    {a : List AgtypePair} (room : a.length < agtypeMaxPairs) :
    ∃ res', pushPiece (res, [.object a none]) (.key key :: nodeTokens .value v) =
      .ok (res', [.object (a ++ [(key, v)]) none]) := by
  obtain ⟨res', pushed⟩ := (rebuilds_of_built built).2 none a key []
  refine ⟨res', ?_⟩
  rw [pushPiece, pushAll_cons, pushAgtypeValueScalar, appendKey, if_neg (by omega)]
  change (pushAll (none, [.object a (some key)]) (nodeTokens .value v)).mapError _ = _
  rw [pushed]
  rfl

/-- The loop appends the pairs with other keys to those that were pushed. -/
theorem deletePairs_eq {key : Bytes} {pairs : List AgtypePair}
    (built : ∀ pair ∈ pairs, Built pair.2) {a : List AgtypePair}
    (room : a.length + pairs.length ≤ agtypeMaxPairs) (res : Option AgtypeValue) :
    deletePairs key pairs (res, [.object a none]) =
      .ok (some (.object (uniqueifyAgtypeObject (a ++ pairs.filter fun pair => ¬key = pair.1))),
        []) := by
  induction pairs generalizing a res with
  | nil =>
      rw [List.filter_nil, List.append_nil]
      rfl
  | cons pair rest inductionHypothesis =>
      rw [List.length_cons] at room
      obtain ⟨builtPair, builtRest⟩ := List.forall_mem_cons.mp built
      rw [deletePairs, List.filter_cons]
      split_ifs with isKey keeps keeps
      · exact absurd isKey (of_decide_eq_true keeps)
      · exact inductionHypothesis builtRest (by omega) res
      · obtain ⟨res', pushed⟩ := pushPiece_pair builtPair pair.1 res (show a.length < _ by omega)
        rw [pushed]
        have later := @inductionHypothesis builtRest (a ++ [pair])
          (by rw [List.length_append, List.length_singleton]; omega) res'
        rw [List.append_assoc] at later
        exact later
      · exact absurd isKey (fun kept => keeps (decide_eq_true kept))

/-- What is left of an object is an object. -/
theorem built_filter {pairs : List AgtypePair} (built : Built (.object pairs))
    (keeps : AgtypePair → Bool) : Built (.object (pairs.filter keeps)) := by
  cases built with
  | object children increasing bounded =>
      refine .object (fun pair inside => children pair (List.mem_of_mem_filter inside))
        (increasing.filter _) ((List.length_filter_le _ _).trans bounded)

theorem deleteFromObject_eq {key : Bytes} {pairs : List AgtypePair}
    (built : Built (.object pairs)) :
    deleteFromObject (.object pairs) key =
      .ok (.object (pairs.filter fun pair => ¬key = pair.1)) := by
  have left := built_filter built fun pair => ¬key = pair.1
  cases left with
  | object _ increasing _ =>
  cases built with
  | object children _ bounded =>
    rw [deleteFromObject]
    split_ifs with empty
    · rw [List.length_eq_zero_iff.mp empty]
      rfl
    · have begun : pushPiece (none, []) [.beginObject pairs.length] =
          .ok (some (.object []), [.object [] none]) := rfl
      rw [begun]
      have loop := @deletePairs_eq key pairs children [] (by rw [List.length_nil]; omega)
        (some (.object []))
      rw [List.nil_append, uniqueify_eq_self increasing] at loop
      change (deletePairs key pairs (some (.object []), [.object [] none])).bind pushedResult = _
      rw [loop]
      rfl

/-- The keys are taken out one after the other. -/
theorem deleteKeys_eq {pairs : List AgtypePair} (built : Built (.object pairs))
    (keys : List Bytes) :
    deleteKeys (.object pairs) (keys.map .string) =
      .ok (.object (pairs.filter fun pair => pair.1 ∉ keys)) := by
  induction keys generalizing pairs with
  | nil =>
      have all : (pairs.filter fun pair => pair.1 ∉ ([] : List Bytes)) = pairs := by simp
      rw [all]
      rfl
  | cons key rest inductionHypothesis =>
      rw [List.map_cons, deleteKeys, deleteFromObject_eq built]
      refine (inductionHypothesis (built_filter built _)).trans ?_
      rw [List.filter_filter]
      refine congrArg (fun left => Except.ok (AgtypeValue.object left))
        (List.filter_congr fun pair _ => ?_)
      rw [Bool.eq_iff_iff, Bool.and_eq_true, decide_eq_true_iff, decide_eq_true_iff,
        decide_eq_true_iff, List.mem_cons, not_or]
      exact ⟨fun left => ⟨Ne.symm left.2, left.1⟩, fun left => ⟨left.2, Ne.symm left.1⟩⟩

end Objects

section Operator

variable (ops : OrderOps)

theorem checkIndexes_integers (indexes : List Int64) :
    checkIndexes (indexes.map .integer) = .ok () := by
  induction indexes with
  | nil => rfl
  | cons first rest inductionHypothesis => exact inductionHypothesis

/-- A list loses the elements of which an index gives the position, from the start or from the end,
and an object the pairs of the keys; nothing else changes, whichever way they are given. -/
theorem agtypeSubDelete_exact {elems : List AgtypeValue} {pairs : List AgtypePair}
    (builtElems : Built (.array false elems)) (builtPairs : Built (.object pairs)) :
    (∀ (raw : Bool) (indexes : List Int64),
        deleteFromArray ops (.array false elems) (.array raw (indexes.map .integer)) =
          .ok (.array false (keptElems indexes elems))) ∧
      (∀ indexes : List Int64,
        agtypeSubDelete ops (.array false elems) (.array false (indexes.map .integer)) =
          some (.ok (.array false (keptElems indexes elems)))) ∧
      (∀ index : Int64, agtypeSubDelete ops (.array false elems) (.array true [.integer index]) =
        some (.ok (.array false (keptElems [index] elems)))) ∧
      (∀ key : Bytes, deleteFromObject (.object pairs) key =
        .ok (.object (pairs.filter fun pair => ¬key = pair.1))) ∧
      (∀ keys : List Bytes,
        agtypeSubDelete ops (.object pairs) (.array false (keys.map .string)) =
          some (.ok (.object (pairs.filter fun pair => pair.1 ∉ keys)))) ∧
      ∀ key : Bytes, agtypeSubDelete ops (.object pairs) (.array true [.string key]) =
        some (.ok (.object (pairs.filter fun pair => ¬key = pair.1))) := by
  refine ⟨fun raw indexes => deleteFromArray_eq builtElems, fun indexes => ?_, fun index => ?_,
    fun key => deleteFromObject_eq builtPairs, fun keys => ?_, fun key => ?_⟩
  · rw [agtypeSubDelete, checkIndexes_integers]
    exact congrArg some (deleteFromArray_eq builtElems)
  · exact congrArg some (@deleteFromArray_eq ops true [index] elems builtElems)
  · exact congrArg some (deleteKeys_eq builtPairs keys)
  · exact congrArg some (deleteFromObject_eq builtPairs)

/-- `[1, [2], 3] - [-1, 0, 7]` is `[[2]]`. -/
theorem agtypeSubDelete_nested :
    Built (.array false [.integer 1, .array false [.integer 2], .integer 3]) ∧ Built (.object []) ∧
      agtypeSubDelete Server.orderOps
          (.array false [.integer 1, .array false [.integer 2], .integer 3])
          (.array false ([-1, 0, 7].map .integer)) =
        some (.ok (.array false (keptElems [-1, 0, 7]
          [.integer 1, .array false [.integer 2], .integer 3]))) ∧
      keptElems [-1, 0, 7] [.integer 1, .array false [.integer 2], .integer 3] =
        [.array false [.integer 2]] := by
  have builtElems : Built (.array false [.integer 1, .array false [.integer 2], .integer 3]) := by
    refine .array ?_ (by decide)
    simp only [List.forall_mem_cons, List.not_mem_nil, false_implies, implies_true, and_true]
    exact ⟨.integer 1, .array (List.forall_mem_singleton.mpr (.integer 2)) (by decide), .integer 3⟩
  have builtPairs : Built (.object []) := .object nofun .nil (by decide)
  exact ⟨builtElems, builtPairs,
    (agtypeSubDelete_exact Server.orderOps builtElems builtPairs).2.1 [-1, 0, 7], by rfl⟩

end Operator

end Age.Agtype
