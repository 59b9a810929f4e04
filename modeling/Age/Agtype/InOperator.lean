import Age.Agtype.Operators
import Age.Agtype.Text.Print

/-!
# The operator IN

`agtype_in_operator` goes through a list, or through the edges of a path container, and compares
containers with containers and scalars with scalars of the same type.  For an edge and a path
container it only looks for the id.
-/

namespace Age.Agtype

open Lib

/-- A `VLE_path_container`: the ids of vertices and edges in turn, a vertex first and last -/
structure VlePathContainer where
  graphidArray : List Int64
  alternates : graphidArray.length % 2 = 1

/-- What is taken of the entry of an edge in the graph's context, which stands there under its id -/
structure EdgeFields where
  label : Bytes
  endVertexId : Int64
  startVertexId : Int64
  properties : AgtypeValue

/-- `agtype_value_build_edge` -/
def agtypeValueBuildEdge (id : Int64) (label : Bytes) (endId startId : Int64)
    (properties : AgtypeValue) : List AgtypePair :=
  [(ascii ['i', 'd'], .integer id),
    (ascii ['l', 'a', 'b', 'e', 'l'], .string label),
    (ascii ['e', 'n', 'd', '_', 'i', 'd'], .integer endId),
    (ascii ['s', 't', 'a', 'r', 't', '_', 'i', 'd'], .integer startId),
    (ascii ['p', 'r', 'o', 'p', 'e', 'r', 't', 'i', 'e', 's'], properties)]

/-- `build_vle_edge_value` -/
def buildVleEdgeValue (ggctx : Int64 → EdgeFields) (edgeId : Int64) : AgtypeValue :=
  let entry := ggctx edgeId
  .edge (agtypeValueBuildEdge edgeId entry.label entry.endVertexId entry.startVertexId
    entry.properties)

inductive InOperatorError where
  /-- `object of IN must be a list` -/
  | notList
  | compare (error : CompareError)
  deriving DecidableEq, Repr

/-- The left argument of IN -/
inductive ListArgument where
  | agtype (root : AgtypeValue)
  | vlePath (container : VlePathContainer)

section Definitions

variable (ops : OrderOps)

namespace VlePathContainer

/-- `agtv_vle_edge_count` -/
def edgeCount (container : VlePathContainer) : Nat := (container.graphidArray.length - 1) / 2

/-- `agt_vle_contains_edge_id` -/
def containsEdgeId (container : VlePathContainer) (edgeId : Int64) : Bool :=
  (List.range (container.graphidArray.length - 1)).any fun i =>
    i % 2 = 1 && container.graphidArray[i]? = some edgeId

/-- The edges that `agtv_materialize_vle_edge_at` builds at 0, 1, … -/
def edges (container : VlePathContainer) (ggctx : Int64 → EdgeFields) : List AgtypeValue :=
  (List.range container.edgeCount).map fun i =>
    buildVleEdgeValue ggctx (container.graphidArray[i * 2 + 1]?.getD 0)

end VlePathContainer

/-- Two containers, or two scalars of the same type -/
def sameKind (item elem : AgtypeValue) : Bool :=
  (!item.isScalar && !elem.isScalar) ||
    (item.isScalar && elem.isScalar && item.type = elem.type)

/-- The elements of the list, where the argument is one -/
def ListArgument.elems? (ggctx : Int64 → EdgeFields) : ListArgument → Option (List AgtypeValue)
  | .agtype (.array false elems) => some elems
  | .vlePath container => some (container.edges ggctx)
  | _ => none

/-- The test of one element -/
def inTest (item elem : AgtypeValue) : Except CompareError Bool :=
  if !item.isScalar && !elem.isScalar then
    (ops.compareAgtypeContainersOrderability item elem).map (· = 0)
  else if item.isScalar && elem.isScalar && item.type = elem.type then
    (ops.compareAgtypeScalarValues item elem).map (· = 0)
  else .ok false

/-- The loop over the elements, up to the first that passes -/
def inLoop (item : AgtypeValue) : List AgtypeValue → Except CompareError Bool
  | [] => .ok false
  | elem :: rest => do
      if ← inTest ops item elem then return true else inLoop item rest

/-- The item as the iterator gives it: a raw scalar is opened. -/
def itemOf : AgtypeValue → AgtypeValue
  | .array true (scalar :: _) => scalar
  | root => root

/-- `agtype_in_operator`; no result is a NULL, and no item is one. -/
def agtypeInOperator (ggctx : Int64 → EdgeFields) (list : ListArgument)
    (itemRoot : Option AgtypeValue) : Except InOperatorError (Option Bool) :=
  match list with
  | .agtype (.array false elems) =>
      match itemRoot with
      | none => .ok none
      | some root =>
          match itemOf root with
          | .null => .ok none
          | item => ((inLoop ops item elems).map some).mapError .compare
  | .vlePath container =>
      match itemRoot with
      | none => .ok none
      | some root =>
          match itemOf root with
          | .null => .ok none
          | .edge pairs => do
              let edgeId ← (edgeGetId pairs).mapError .compare
              return some (container.containsEdgeId edgeId)
          | item => ((inLoop ops item (container.edges ggctx)).map some).mapError .compare
  | _ => .error .notList

end Definitions

section Outcomes

variable {ops : OrderOps}

/-- Entities and paths that can be compared have their ids. -/
theorem compareAgtypeScalarValues_total {v w : AgtypeValue} (sameType : v.type = w.type)
    (isScalar : v.isScalar = true) (idsV : v.entitiesHaveIds = true)
    (idsW : w.entitiesHaveIds = true) : ∃ res, ops.compareAgtypeScalarValues v w = .ok res := by
  have ids {getId : List AgtypePair → Except CompareError Int64} {a b : List AgtypePair}
      (hasA : (getId a).toBool = true) (hasB : (getId b).toBool = true) :
      ∃ res, (do
        let aGraphid ← getId a
        let bGraphid ← getId b
        return compareInt64 aGraphid bGraphid : Except CompareError Int) = .ok res := by
    cases isA : getId a with
    | error error => rw [isA] at hasA; cases hasA
    | ok first =>
        cases isB : getId b with
        | error error => rw [isB] at hasB; cases hasB
        | ok second => exact ⟨_, rfl⟩
  have paths (as bs : List AgtypeValue) (vertexNext : Bool)
      (isPathA : AgtypeValue.isPathFrom vertexNext as = true)
      (isPathB : AgtypeValue.isPathFrom vertexNext bs = true) :
      ∃ res, ops.comparePathElems as bs = .ok res := by
    induction as generalizing bs vertexNext with
    | nil => exact ⟨0, rfl⟩
    | cons a rest inductionHypothesis =>
        cases bs with
        | nil => exact ⟨0, rfl⟩
        | cons b others =>
            have next (vertexAfter : Bool)
                (restA : AgtypeValue.isPathFrom vertexAfter rest = true)
                (restB : AgtypeValue.isPathFrom vertexAfter others = true)
                (compared : ∃ res, ops.compareAgtypeScalarValues a b = .ok res) :
                ∃ res, ops.comparePathElems (a :: rest) (b :: others) = .ok res := by
              obtain ⟨res, isRes⟩ := compared
              obtain ⟨later, isLater⟩ := inductionHypothesis others vertexAfter restA restB
              rw [OrderOps.comparePathElems, isRes]
              by_cases zero : res = 0
              · exact ⟨later, by subst zero; exact isLater⟩
              · exact ⟨res, if_pos zero⟩
            cases a <;> cases vertexNext <;> try cases isPathA
            all_goals cases b <;> try cases isPathB
            case vertex.true.vertex pairs pairs' =>
              simp only [AgtypeValue.isPathFrom, Bool.and_eq_true] at isPathA isPathB
              refine next false isPathA.2 isPathB.2 ?_
              rw [OrderOps.compareAgtypeScalarValues]
              exact ids isPathA.1 isPathB.1
            case edge.false.edge pairs pairs' =>
              simp only [AgtypeValue.isPathFrom, Bool.and_eq_true] at isPathA isPathB
              refine next true isPathA.2 isPathB.2 ?_
              rw [OrderOps.compareAgtypeScalarValues]
              exact ids isPathA.1 isPathB.1
  cases v <;> cases w <;> try cases sameType
  case vertex.vertex.refl a b =>
    rw [OrderOps.compareAgtypeScalarValues]
    exact ids idsV idsW
  case edge.edge.refl a b =>
    rw [OrderOps.compareAgtypeScalarValues]
    exact ids idsV idsW
  case path.path.refl a b =>
    rw [OrderOps.compareAgtypeScalarValues]
    split_ifs
    · exact ⟨_, rfl⟩
    · exact ⟨_, rfl⟩
    · exact paths a b true idsV idsW
  all_goals first | exact ⟨_, rfl⟩ | cases isScalar

theorem compareLeaves_total {v w : AgtypeValue} (scalarV : v.isScalar = true)
    (scalarW : w.isScalar = true) (idsV : v.entitiesHaveIds = true)
    (idsW : w.entitiesHaveIds = true) : ∃ res, ops.compareLeaves v w = .ok res := by
  rw [OrderOps.compareLeaves]
  split_ifs with comparable
  · rcases comparable with sameType | ⟨numberV, numberW⟩
    · exact compareAgtypeScalarValues_total sameType scalarV idsV idsW
    · cases v <;> cases numberV <;> cases w <;> cases numberW
      all_goals exact ⟨_, rfl⟩
  · exact ⟨_, rfl⟩

end Outcomes

section Symmetry

variable {ops : OrderOps}

/-- Both ways of a comparison end, and one of them finds a difference if the other does. -/
def EqualAlike (first second : Except CompareError Int) : Prop :=
  ∃ res res', first = .ok res ∧ second = .ok res' ∧ (res = 0 ↔ res' = 0)

theorem EqualAlike.of_zero {first second : Except CompareError Int}
    (totalFirst : ∃ res, first = .ok res) (totalSecond : ∃ res, second = .ok res)
    (forward : first = .ok 0 → second = .ok 0) (backward : second = .ok 0 → first = .ok 0) :
    EqualAlike first second := by
  obtain ⟨res, rfl⟩ := totalFirst
  obtain ⟨res', rfl⟩ := totalSecond
  refine ⟨res, res', rfl, rfl, fun zero => ?_, fun zero => ?_⟩
  · exact Except.ok.inj (forward (congrArg Except.ok zero))
  · exact Except.ok.inj (backward (congrArg Except.ok zero))

theorem EqualAlike.map {first second : Except CompareError Int} (alike : EqualAlike first second) :
    ∃ same, first.map (fun res => decide (res = 0)) = .ok same ∧
      second.map (fun res => decide (res = 0)) = .ok same := by
  obtain ⟨res, res', rfl, rfl, iff⟩ := alike
  exact ⟨decide (res = 0), rfl, congrArg Except.ok (decide_eq_decide.mpr iff.symm)⟩

theorem compareTwoFloats_zero_symm {a b : Float8}
    (zero : compareTwoFloatsOrderability a b = 0) : compareTwoFloatsOrderability b a = 0 := by
  unfold compareTwoFloatsOrderability at zero ⊢
  split_ifs at zero ⊢ <;> first | rfl | omega

variable (collation : ThreeWay ops.varstrCmp) (order : NumericOrder ops)

include collation in
theorem compareStrings_zero_symm {a b : Bytes} (zero : ops.compareStrings a b = 0) :
    ops.compareStrings b a = 0 := by
  rw [compareStrings_eq_zero_iff collation] at zero ⊢
  exact zero.symm

include collation order in
theorem compareAgtypeScalarValues_zero_symm {v w : AgtypeValue}
    (zero : ops.compareAgtypeScalarValues v w = .ok 0) :
    ops.compareAgtypeScalarValues w v = .ok 0 := by
  have ids {getId : List AgtypePair → Except CompareError Int64} {a b : List AgtypePair}
      (zero : (do
        let aGraphid ← getId a
        let bGraphid ← getId b
        return compareInt64 aGraphid bGraphid : Except CompareError Int) = .ok 0) :
      (do
        let aGraphid ← getId b
        let bGraphid ← getId a
        return compareInt64 aGraphid bGraphid : Except CompareError Int) = .ok 0 := by
    cases isA : getId a with
    | error error => rw [isA] at zero; cases zero
    | ok first =>
        cases isB : getId b with
        | error error => rw [isA, isB] at zero; cases zero
        | ok second =>
            rw [isA, isB] at zero
            have same := compareInt64_eq_zero_iff.mp (Except.ok.inj zero)
            exact congrArg Except.ok (compareInt64_eq_zero_iff.mpr same.symm)
  induction v using AgtypeValue.inductionOn generalizing w with
  | path as children =>
      cases w <;> try cases zero
      case path bs =>
        rw [OrderOps.compareAgtypeScalarValues] at zero ⊢
        split_ifs at zero with different
        · cases Except.ok.inj zero
        · cases Except.ok.inj zero
        · rw [if_neg fun reversed => different (Ne.symm reversed)]
          clear different
          induction as generalizing bs with
          | nil => cases bs <;> rfl
          | cons a rest inductionHypothesis =>
              cases bs with
              | nil => rfl
              | cons b others =>
                  obtain ⟨here, later⟩ := List.forall_mem_cons.mp children
                  rw [OrderOps.comparePathElems] at zero ⊢
                  cases compared : ops.compareAgtypeScalarValues a b with
                  | error error => rw [compared] at zero; cases zero
                  | ok res =>
                      rw [compared] at zero
                      change (if res ≠ 0 then .ok res else ops.comparePathElems rest others) =
                        .ok 0 at zero
                      split_ifs at zero with isZero
                      · exact absurd (Except.ok.inj zero) isZero
                      · rw [not_not.mp isZero] at compared
                        rw [here compared]
                        exact inductionHypothesis later others zero
  | _ =>
      cases w <;> try cases zero
      all_goals first
        | rfl
        | exact congrArg Except.ok (compareStrings_zero_symm collation (Except.ok.inj zero))
        | exact congrArg Except.ok (order.zero_symm (Except.ok.inj zero))
        | exact congrArg Except.ok (compareTwoFloats_zero_symm (Except.ok.inj zero))
        | exact congrArg Except.ok (compareInt64_eq_zero_iff.mpr
            (compareInt64_eq_zero_iff.mp (Except.ok.inj zero)).symm)
        | exact congrArg Except.ok (compareBool_eq_zero_iff.mpr
            (compareBool_eq_zero_iff.mp (Except.ok.inj zero)).symm)
        | rw [OrderOps.compareAgtypeScalarValues] at zero ⊢
          exact ids zero

include collation order in
theorem compareLeaves_zero_symm {v w : AgtypeValue} (zero : ops.compareLeaves v w = .ok 0) :
    ops.compareLeaves w v = .ok 0 := by
  rw [OrderOps.compareLeaves] at zero ⊢
  split_ifs at zero with comparable
  · rw [if_pos (comparable.imp Eq.symm And.symm)]
    exact compareAgtypeScalarValues_zero_symm collation order zero
  · exact absurd (Except.ok.inj zero) (typeDefinedOrder_ne_zero _ _)

/-- How deep the walk is after a token -/
def Token.depthAfter : Token → Nat → Nat
  | .beginArray _ _, depth => depth + 1
  | .beginObject _, depth => depth + 1
  | .endArray, depth => depth - 1
  | .endObject, depth => depth - 1
  | _, depth => depth

/-- The stream ends where the last container is closed. -/
def Closes : Nat → List Token → Prop
  | depth, [] => depth = 0
  | depth, token :: rest => depth ≠ 0 ∧ Closes (token.depthAfter depth) rest

theorem closes_elemTokens {elems : List AgtypeValue}
    (each : ∀ elem ∈ elems, ∀ {depth : Nat}, depth ≠ 0 → ∀ {rest : List Token},
      Closes depth rest → Closes depth (AgtypeValue.nodeTokens .elem elem ++ rest))
    {depth : Nat} (isOpen : depth ≠ 0) {rest : List Token} (closes : Closes depth rest) :
    Closes depth (AgtypeValue.elemTokens elems ++ rest) := by
  induction elems with
  | nil => exact closes
  | cons elem others inductionHypothesis =>
      obtain ⟨here, later⟩ := List.forall_mem_cons.mp each
      rw [AgtypeValue.elemTokens, List.append_assoc]
      exact here isOpen (inductionHypothesis later)

theorem closes_pairTokens {pairs : List AgtypePair}
    (each : ∀ pair ∈ pairs, ∀ {depth : Nat}, depth ≠ 0 → ∀ {rest : List Token},
      Closes depth rest → Closes depth (AgtypeValue.nodeTokens .value pair.2 ++ rest))
    {depth : Nat} (isOpen : depth ≠ 0) {rest : List Token} (closes : Closes depth rest) :
    Closes depth (AgtypeValue.pairTokens pairs ++ rest) := by
  induction pairs with
  | nil => exact closes
  | cons pair others inductionHypothesis =>
      obtain ⟨here, later⟩ := List.forall_mem_cons.mp each
      rw [AgtypeValue.pairTokens, List.cons_append, List.append_assoc]
      exact ⟨isOpen, here isOpen (inductionHypothesis later)⟩

theorem closes_nodeTokens (v : AgtypeValue) {leaf : AgtypeValue → Token}
    (isLeaf : ∀ v depth, (leaf v).depthAfter depth = depth) {depth : Nat} (isOpen : depth ≠ 0)
    {rest : List Token} (closes : Closes depth rest) :
    Closes depth (AgtypeValue.nodeTokens leaf v ++ rest) := by
  induction v using AgtypeValue.inductionOn generalizing leaf depth rest with
  | array raw elems children =>
      rw [AgtypeValue.nodeTokens, List.cons_append, List.append_assoc]
      refine ⟨isOpen, closes_elemTokens (fun elem isElem depth isOpen rest => ?_)
        (Nat.succ_ne_zero _) ⟨Nat.succ_ne_zero _, closes⟩⟩
      exact children elem isElem (fun _ _ => rfl) isOpen
  | object pairs children =>
      rw [AgtypeValue.nodeTokens, List.cons_append, List.append_assoc]
      refine ⟨isOpen, closes_pairTokens (fun pair isPair depth isOpen rest => ?_)
        (Nat.succ_ne_zero _) ⟨Nat.succ_ne_zero _, closes⟩⟩
      exact children pair isPair (fun _ _ => rfl) isOpen
  | _ =>
      refine ⟨isOpen, ?_⟩
      rw [isLeaf]
      exact closes

/-- After its first token a container is open. -/
theorem closes_container {v : AgtypeValue}
    (isContainer : (∃ elems, v = .array false elems) ∨ ∃ pairs, v = .object pairs) :
    ∃ first rest, v.tokens = first :: rest ∧ first.depthAfter 0 = 1 ∧ Closes 1 rest := by
  rcases isContainer with ⟨elems, rfl⟩ | ⟨pairs, rfl⟩
  · refine ⟨_, _, rfl, rfl, closes_elemTokens (fun elem _ depth isOpen rest => ?_) one_ne_zero
      ⟨one_ne_zero, rfl⟩⟩
    exact closes_nodeTokens elem (fun _ _ => rfl) isOpen
  · refine ⟨_, _, rfl, rfl, closes_pairTokens (fun pair _ depth isOpen rest => ?_) one_ne_zero
      ⟨one_ne_zero, rfl⟩⟩
    exact closes_nodeTokens pair.2 (fun _ _ => rfl) isOpen

/-- Tokens of two kinds, none of which ends a container, are told apart by their types. -/
theorem correctedTypes_differ {ra rb : Token} (isA : ra.valType?.isSome = true)
    (isB : rb.valType?.isSome = true) (restA restB : List Token) :
    ∃ res, res ≠ 0 ∧ (do
      let (va, vb) ← OrderOps.correctedTypes ra rb restA restB
      return typeDefinedOrder va vb : Except CompareError Int) = .ok res := by
  unfold OrderOps.correctedTypes
  split
  · exact ⟨_, typeDefinedOrder_ne_zero _ _, rfl⟩
  · exact ⟨_, typeDefinedOrder_ne_zero _ _, rfl⟩
  · exact ⟨_, typeDefinedOrder_ne_zero _ _, rfl⟩
  · rename_i none
    obtain ⟨va, isVa⟩ := Option.isSome_iff_exists.mp isA
    obtain ⟨vb, isVb⟩ := Option.isSome_iff_exists.mp isB
    exact (none va vb isVa isVb).elim

theorem correctedTypes_ne_zero {ra rb : Token} (isA : ra.valType?.isSome = true)
    (isB : rb.valType?.isSome = true) (restA restB : List Token) :
    (do
      let (va, vb) ← OrderOps.correctedTypes ra rb restA restB
      return typeDefinedOrder va vb : Except CompareError Int) ≠ .ok 0 := by
  obtain ⟨res, different, compared⟩ := correctedTypes_differ isA isB restA restB
  exact fun zero => different (Except.ok.inj (compared.symm.trans zero))

/-- One turn of the loop ends. -/
theorem compareTokens_total {ra rb : Token} (plainA : ra.Plain) (plainB : rb.Plain)
    (restA restB : List Token) : ∃ res, ops.compareTokens ra rb restA restB = .ok res := by
  cases ra <;> cases rb
  case value.value v w =>
    obtain ⟨scalarV, idsV⟩ := plainA v rfl
    obtain ⟨scalarW, idsW⟩ := plainB w rfl
    exact compareLeaves_total scalarV scalarW idsV idsW
  case elem.elem v w =>
    obtain ⟨scalarV, idsV⟩ := plainA v rfl
    obtain ⟨scalarW, idsW⟩ := plainB w rfl
    exact compareLeaves_total scalarV scalarW idsV idsW
  case beginArray.beginArray rawA _ rawB _ =>
    rw [OrderOps.compareTokens]
    split_ifs <;> exact ⟨_, rfl⟩
  all_goals first
    | exact ⟨_, rfl⟩
    | refine Exists.imp (fun _ differ => And.right differ)
        (correctedTypes_differ ?_ ?_ restA restB) <;> rfl

include collation order in
/-- Where one turn finds no difference, the other way round finds none, and both streams are as
deep as before. -/
theorem compareTokens_zero {ra rb : Token} {restA restB : List Token}
    (zero : ops.compareTokens ra rb restA restB = .ok 0) :
    ops.compareTokens rb ra restB restA = .ok 0 ∧
      ∀ depth, ra.depthAfter depth = rb.depthAfter depth := by
  cases ra <;> cases rb
  case key.key a b =>
    exact ⟨congrArg Except.ok (compareStrings_zero_symm collation (Except.ok.inj zero)),
      fun _ => rfl⟩
  case value.value v w => exact ⟨compareLeaves_zero_symm collation order zero, fun _ => rfl⟩
  case elem.elem v w => exact ⟨compareLeaves_zero_symm collation order zero, fun _ => rfl⟩
  case beginArray.beginArray rawA _ rawB _ =>
    refine ⟨?_, fun _ => rfl⟩
    rw [OrderOps.compareTokens] at zero ⊢
    split_ifs at zero with same
    · rw [if_pos same.symm]
    · exact absurd (Except.ok.inj zero) (typeDefinedOrder_ne_zero _ _)
    · exact absurd (Except.ok.inj zero) (typeDefinedOrder_ne_zero _ _)
  all_goals first
    | exact ⟨rfl, fun _ => rfl⟩
    | cases zero
    | refine absurd zero (correctedTypes_ne_zero ?_ ?_ restA restB) <;> rfl

include collation order in
theorem compareLoop_alike_cons {ra rb : Token} {restA restB : List Token} (plainA : ra.Plain)
    (plainB : rb.Plain)
    (later : (∀ depth, ra.depthAfter depth = rb.depthAfter depth) →
      EqualAlike (ops.compareLoop restA restB) (ops.compareLoop restB restA)) :
    EqualAlike (ops.compareLoop (ra :: restA) (rb :: restB))
      (ops.compareLoop (rb :: restB) (ra :: restA)) := by
  obtain ⟨res, compared⟩ := @compareTokens_total ops _ _ plainA plainB restA restB
  obtain ⟨res', reversed⟩ := @compareTokens_total ops _ _ plainB plainA restB restA
  rw [OrderOps.compareLoop, OrderOps.compareLoop, compared, reversed]
  by_cases zero : res = 0
  · subst zero
    obtain ⟨back, depths⟩ := compareTokens_zero collation order compared
    obtain rfl := Except.ok.inj (reversed.symm.trans back)
    exact later depths
  · have zero' : res' ≠ 0 := fun zero' => by
      subst zero'
      exact zero (Except.ok.inj (compared.symm.trans
        (compareTokens_zero collation order reversed).1))
    exact ⟨res, res', if_pos zero, if_pos zero', iff_of_false zero zero'⟩

include collation order in
/-- The loop ends, and the other way round it finds a difference if it does. -/
theorem compareLoop_alike {depth : Nat} {as bs : List Token} (closesA : Closes depth as)
    (closesB : Closes depth bs) (plainA : ∀ token ∈ as, token.Plain)
    (plainB : ∀ token ∈ bs, token.Plain) :
    EqualAlike (ops.compareLoop as bs) (ops.compareLoop bs as) := by
  induction as generalizing depth bs with
  | nil =>
      cases bs with
      | nil => exact ⟨0, 0, rfl, rfl, Iff.rfl⟩
      | cons token rest => exact absurd closesA closesB.1
  | cons ra restA inductionHypothesis =>
      cases bs with
      | nil => exact absurd closesB closesA.1
      | cons rb restB =>
          obtain ⟨hereA, laterA⟩ := List.forall_mem_cons.mp plainA
          obtain ⟨hereB, laterB⟩ := List.forall_mem_cons.mp plainB
          refine compareLoop_alike_cons collation order hereA hereB fun depths => ?_
          refine inductionHypothesis closesA.2 ?_ laterA laterB
          rw [depths]
          exact closesB.2

end Symmetry

section Agreement

variable {ops : ComparisonOps} (laws : ComparisonLaws ops)
  (collation : ThreeWay ops.order.varstrCmp) (order : NumericOrder ops.order)

include collation order in
/-- Two containers compare as equal in one order where they do in the other. -/
theorem compareContainers_alike {a b : AgtypeValue}
    (isContainer : (∃ elems, a = .array false elems) ∨ ∃ pairs, a = .object pairs)
    (isContainer' : (∃ elems, b = .array false elems) ∨ ∃ pairs, b = .object pairs)
    (idsA : a.entitiesHaveIds = true) (idsB : b.entitiesHaveIds = true) :
    EqualAlike (ops.order.compareAgtypeContainersOrderability a b)
      (ops.order.compareAgtypeContainersOrderability b a) := by
  have walks {a b : AgtypeValue}
      (isContainer : (∃ elems, a = .array false elems) ∨ ∃ pairs, a = .object pairs) :
      ops.order.compareAgtypeContainersOrderability a b =
        ops.order.compareLoop a.tokens b.tokens := by
    rcases isContainer with ⟨elems, rfl⟩ | ⟨pairs, rfl⟩ <;> rfl
  have plain {v : AgtypeValue} (ids : v.entitiesHaveIds = true) :
      ∀ token ∈ v.tokens, token.Plain :=
    plain_nodeTokens v ids .elem fun _ isScalar haveIds _ isFound => by
      cases isFound
      exact ⟨isScalar, haveIds⟩
  have plainA := plain idsA
  have plainB := plain idsB
  rw [walks isContainer, walks isContainer']
  obtain ⟨first, rest, isTokens, opened, closes⟩ := closes_container isContainer
  obtain ⟨first', rest', isTokens', opened', closes'⟩ := closes_container isContainer'
  rw [isTokens] at plainA ⊢
  rw [isTokens'] at plainB ⊢
  obtain ⟨hereA, laterA⟩ := List.forall_mem_cons.mp plainA
  obtain ⟨hereB, laterB⟩ := List.forall_mem_cons.mp plainB
  exact compareLoop_alike_cons collation order hereA hereB fun _ =>
    compareLoop_alike collation order closes closes' laterA laterB

theorem not_scalar_of_container {v : AgtypeValue}
    (isContainer : (∃ elems, v = .array false elems) ∨ ∃ pairs, v = .object pairs) :
    v.isScalar = false := by
  rcases isContainer with ⟨elems, rfl⟩ | ⟨pairs, rfl⟩ <;> rfl

include laws collation order in
/-- On an element of the item's kind, the test is the operator `=`. -/
theorem inTest_eq (item elem : StoredAgtype)
    (isKind : sameKind item.value elem.value = true) :
    ∃ same, inTest ops.order item.value elem.value = .ok same ∧
      agtypeEq ops elem item = .ok same := by
  rw [agtypeEq_eq laws, compareStored]
  rcases root_cases_of_built item.built with ⟨scalar, isRoot⟩ | ⟨container, isRoot⟩
  · rcases root_cases_of_built elem.built with ⟨scalar', isRoot'⟩ | ⟨container', -⟩
    · have sameType : item.value.type = elem.value.type := by
        simpa [sameKind, scalar, scalar'] using isKind
      have alike : EqualAlike (ops.order.compareLeaves item.value elem.value)
          (ops.order.compareLeaves elem.value item.value) :=
        .of_zero (compareLeaves_total scalar scalar' item.haveIds elem.haveIds)
          (compareLeaves_total scalar' scalar elem.haveIds item.haveIds)
          (compareLeaves_zero_symm collation order) (compareLeaves_zero_symm collation order)
      obtain ⟨same, forward, back⟩ := alike.map
      refine ⟨same, ?_, ?_⟩
      · rw [OrderOps.compareLeaves, if_pos (.inl sameType)] at forward
        simpa [inTest, scalar, scalar', sameType] using forward
      · rw [isRoot, isRoot']
        exact back
    · simp [sameKind, scalar, not_scalar_of_container container'] at isKind
  · have isContainer := not_scalar_of_container container
    rcases root_cases_of_built elem.built with ⟨scalar', -⟩ | ⟨container', isRoot'⟩
    · simp [sameKind, scalar', isContainer] at isKind
    · have isContainer' := not_scalar_of_container container'
      obtain ⟨same, forward, back⟩ := (compareContainers_alike collation order container
        container' item.haveIds elem.haveIds).map
      refine ⟨same, ?_, ?_⟩
      · simpa [inTest, isContainer, isContainer'] using forward
      · rw [isRoot, isRoot']
        exact back

theorem inTest_other {item elem : AgtypeValue} (isKind : sameKind item elem = false) :
    inTest ops.order item elem = .ok false := by
  rw [sameKind, Bool.or_eq_false_iff] at isKind
  rw [inTest, isKind.1, isKind.2]
  rfl

/-- The element passes the test that the operator makes of it. -/
def StoredAgtype.Matches (ops : ComparisonOps) (item elem : StoredAgtype) : Prop :=
  sameKind item.value elem.value = true ∧ agtypeEq ops elem item = .ok true

include laws collation order in
theorem inTest_spec (item elem : StoredAgtype) :
    ∃ same, inTest ops.order item.value elem.value = .ok same ∧
      (same = true ↔ item.Matches ops elem) := by
  cases isKind : sameKind item.value elem.value with
  | false =>
      refine ⟨false, inTest_other isKind, iff_of_false nofun fun found => ?_⟩
      exact absurd (isKind.symm.trans found.1) Bool.false_ne_true
  | true =>
      obtain ⟨same, isTest, isEq⟩ := inTest_eq laws collation order item elem isKind
      refine ⟨same, isTest, fun isTrue => ⟨isKind, isTrue ▸ isEq⟩, fun found => ?_⟩
      exact Except.ok.inj (isEq.symm.trans found.2)

include laws collation order in
theorem inLoop_spec (item : StoredAgtype) (elems : List StoredAgtype) :
    ∃ found, inLoop ops.order item.value (elems.map (·.value)) = .ok found ∧
      (found = true ↔ ∃ elem ∈ elems, item.Matches ops elem) := by
  induction elems with
  | nil => exact ⟨false, rfl, iff_of_false nofun nofun⟩
  | cons elem rest inductionHypothesis =>
      obtain ⟨same, isTest, here⟩ := inTest_spec laws collation order item elem
      obtain ⟨found, isLoop, later⟩ := inductionHypothesis
      rw [List.map_cons, inLoop, isTest]
      cases same with
      | true => exact ⟨true, rfl, iff_of_true rfl ⟨elem, List.mem_cons_self, here.mp rfl⟩⟩
      | false =>
          refine ⟨found, isLoop, later.trans ?_⟩
          rw [List.exists_mem_cons_iff, or_iff_right fun passes => nomatch here.mpr passes]

namespace VlePathContainer

variable {container : VlePathContainer} {edgeId : Int64}

/-- The ids that are looked at are those of the edges that are built. -/
theorem containsEdgeId_iff : container.containsEdgeId edgeId = true ↔
    ∃ i < container.edgeCount, container.graphidArray[i * 2 + 1]?.getD 0 = edgeId := by
  have odd := container.alternates
  simp only [containsEdgeId, edgeCount, List.any_eq_true, List.mem_range, Bool.and_eq_true,
    decide_eq_true_eq]
  constructor
  · rintro ⟨i, inside, isEdge, found⟩
    refine ⟨i / 2, by omega, ?_⟩
    rw [show i / 2 * 2 + 1 = i by omega, found]
    rfl
  · rintro ⟨i, inside, found⟩
    refine ⟨i * 2 + 1, by omega, by omega, ?_⟩
    rw [List.getElem?_eq_getElem (by omega)] at found ⊢
    exact congrArg some found

end VlePathContainer

theorem itemOf_root (item : StoredAgtype) : itemOf item.value.root = item.value := by
  rcases root_cases_of_built item.built with
    ⟨isScalar, isRoot⟩ | ⟨⟨elems, isArray⟩ | ⟨pairs, isObject⟩, isRoot⟩
  · rw [isRoot]
    rfl
  · rw [isRoot, isArray]
    rfl
  · rw [isRoot, isObject]
    rfl

include laws collation order in
/-- An edge is in a path container if its id is one of the edges' ids. -/
theorem edge_matches_iff {item elem : StoredAgtype} {pairs : List AgtypePair} {edgeId other : Int64}
    {ggctx : Int64 → EdgeFields} (isItem : item.value = .edge pairs)
    (isId : edgeGetId pairs = .ok edgeId) (isElem : elem.value = buildVleEdgeValue ggctx other) :
    item.Matches ops elem ↔ other = edgeId := by
  obtain ⟨same, isTest, isSame⟩ := inTest_spec laws collation order item elem
  rw [← isSame]
  have compared : inTest ops.order item.value elem.value =
      .ok (decide (compareInt64 edgeId other = 0)) := by
    rw [isItem, isElem, inTest]
    change (ops.order.compareAgtypeScalarValues (.edge pairs) (buildVleEdgeValue ggctx other)).map
      _ = _
    rw [buildVleEdgeValue, OrderOps.compareAgtypeScalarValues, isId]
    rfl
  obtain rfl := Except.ok.inj (isTest.symm.trans compared)
  rw [decide_eq_true_iff, compareInt64_eq_zero_iff, eq_comm]

include laws collation order in
/-- IN finds an item if the item equals an element of its kind: a container for a container, or a
scalar of the same type. -/
theorem agtypeInOperator_exact {ggctx : Int64 → EdgeFields} {list : ListArgument}
    {elems : List StoredAgtype} (isList : list.elems? ggctx = some (elems.map (·.value)))
    (item : StoredAgtype) (notNull : item.value ≠ .null) :
    ∃ found, agtypeInOperator ops.order ggctx list (some item.value.root) = .ok (some found) ∧
      (found = true ↔ ∃ elem ∈ elems, sameKind item.value elem.value = true ∧
        agtypeEq ops elem item = .ok true) := by
  obtain ⟨found, isLoop, isFound⟩ := inLoop_spec laws collation order item elems
  cases list with
  | agtype root =>
      cases root with
      | array raw all =>
          cases raw with
          | true => cases isList
          | false =>
              cases isList
              refine ⟨found, ?_, isFound⟩
              rw [agtypeInOperator]
              simp only [itemOf_root]
              rw [isLoop]
              rfl
      | _ => cases isList
  | vlePath container =>
      have isEdges : container.edges ggctx = elems.map (·.value) := Option.some.inj isList
      cases isItem : item.value with
      | edge pairs =>
          have hasId := item.haveIds
          rw [isItem] at hasId
          cases isId : edgeGetId pairs with
          | error error =>
              rw [AgtypeValue.entitiesHaveIds, isId] at hasId
              cases hasId
          | ok edgeId =>
              refine ⟨container.containsEdgeId edgeId, ?_, ?_⟩
              · simp only [agtypeInOperator, ← isItem, itemOf_root]
                rw [isItem]
                simp only [isId]
                rfl
              · rw [VlePathContainer.containsEdgeId_iff]
                constructor
                · rintro ⟨i, inside, isHere⟩
                  have built : buildVleEdgeValue ggctx edgeId ∈ elems.map (·.value) := by
                    rw [← isEdges, VlePathContainer.edges, ← isHere]
                    exact List.mem_map_of_mem (List.mem_range.mpr inside)
                  obtain ⟨elem, isElem, isValue⟩ := List.mem_map.mp built
                  exact ⟨elem, isElem, isItem ▸
                    (edge_matches_iff laws collation order isItem isId isValue).mpr rfl⟩
                · rintro ⟨elem, isElem, passes⟩
                  have built := List.mem_map_of_mem (f := (·.value)) isElem
                  rw [← isEdges] at built
                  obtain ⟨i, inside, isValue⟩ := List.mem_map.mp built
                  rw [← isItem] at passes
                  exact ⟨i, List.mem_range.mp inside, (edge_matches_iff laws collation order
                    isItem isId isValue.symm).mp passes⟩
      | null => exact absurd isItem notNull
      | _ =>
          rw [← isItem]
          refine ⟨found, ?_, isFound⟩
          simp only [agtypeInOperator, itemOf_root]
          rw [isItem] at isLoop ⊢
          simp only [isEdges]
          rw [isLoop]
          rfl

/-- The item and the element are numbers of different types that compare as equal. -/
def StoredAgtype.EqualsOtherNumber (ops : ComparisonOps) (item elem : StoredAgtype) : Prop :=
  isNumberType item.value.type = true ∧ isNumberType elem.value.type = true ∧
    item.value.type ≠ elem.value.type ∧
      ops.order.compareAgtypeScalarValues elem.value item.value = .ok 0

/-- A raw scalar and a container are never equal. -/
theorem compareRaw_ne_zero {scalar container : AgtypeValue} (isScalar : scalar.isScalar = true)
    (isContainer : (∃ elems, container = .array false elems) ∨ ∃ pairs, container = .object pairs) :
    ops.order.compareAgtypeContainersOrderability (.array true [scalar]) container ≠ .ok 0 ∧
      ops.order.compareAgtypeContainersOrderability container (.array true [scalar]) ≠ .ok 0 := by
  have rawTokens : (AgtypeValue.array true [scalar]).tokens =
      [.beginArray true 1, .elem scalar, .endArray] := by
    simp [AgtypeValue.tokens, AgtypeValue.nodeTokens, AgtypeValue.elemTokens,
      AgtypeValue.nodeTokens_scalar _ isScalar]
  have stops {ra rb : Token} {restA restB : List Token} {res : Int} (nonzero : res ≠ 0)
      (turn : ops.order.compareTokens ra rb restA restB = .ok res) :
      ops.order.compareLoop (ra :: restA) (rb :: restB) ≠ .ok 0 := by
    rw [OrderOps.compareLoop, turn]
    change (if res ≠ 0 then Except.ok res else _) ≠ _
    rw [if_pos nonzero]
    exact fun zero => nonzero (Except.ok.inj zero)
  rcases isContainer with ⟨elems, rfl⟩ | ⟨pairs, rfl⟩
  · have tokens : ∃ rest, (AgtypeValue.array false elems).tokens =
        .beginArray false elems.length :: rest := ⟨_, rfl⟩
    obtain ⟨rest, isTokens⟩ := tokens
    rw [OrderOps.compareAgtypeContainersOrderability, OrderOps.compareAgtypeContainersOrderability,
      rawTokens, isTokens]
    · exact ⟨stops (typeDefinedOrder_ne_zero _ _) rfl, stops (typeDefinedOrder_ne_zero _ _) rfl⟩
    all_goals
      intros
      simp_all
  · have tokens : ∃ count rest, (AgtypeValue.object pairs).tokens =
        .beginObject count :: rest := ⟨_, _, rfl⟩
    obtain ⟨count, rest, isTokens⟩ := tokens
    rw [OrderOps.compareAgtypeContainersOrderability, OrderOps.compareAgtypeContainersOrderability,
      rawTokens, isTokens]
    · exact ⟨stops (typeDefinedOrder_ne_zero _ _) rfl, stops (typeDefinedOrder_ne_zero _ _) rfl⟩
    all_goals
      intros
      simp_all

theorem not_number_of_container {v : AgtypeValue}
    (isContainer : (∃ elems, v = .array false elems) ∨ ∃ pairs, v = .object pairs) :
    isNumberType v.type ≠ true := by
  rcases isContainer with ⟨elems, rfl⟩ | ⟨pairs, rfl⟩ <;> exact Bool.false_ne_true

include laws in
/-- Of the elements of another kind, the operator `=` takes the equal numbers only. -/
theorem agtypeEq_other_iff {item elem : StoredAgtype}
    (isKind : sameKind item.value elem.value = false) :
    agtypeEq ops elem item = .ok true ↔ item.EqualsOtherNumber ops elem := by
  rw [agtypeEq_eq laws, compareStored]
  have zero_iff {compared : Except CompareError Int} :
      compared.map (fun res => decide (res = 0)) = .ok true ↔ compared = .ok 0 := by
    cases compared with
    | error error => simp [Except.map]
    | ok res => simp [Except.map]
  rw [zero_iff]
  rcases root_cases_of_built item.built with ⟨scalar, isRoot⟩ | ⟨container, isRoot⟩
  · rcases root_cases_of_built elem.built with ⟨scalar', isRoot'⟩ | ⟨container', isRoot'⟩
    · have differ : item.value.type ≠ elem.value.type := by
        simpa [sameKind, scalar, scalar'] using isKind
      rw [isRoot, isRoot']
      change ops.order.compareLeaves elem.value item.value = .ok 0 ↔ _
      rw [OrderOps.compareLeaves, StoredAgtype.EqualsOtherNumber]
      split_ifs with alike
      · obtain ⟨number', number⟩ := alike.resolve_left differ.symm
        exact ⟨fun zero => ⟨number, number', differ, zero⟩, fun found => found.2.2.2⟩
      · refine iff_of_false (fun zero => typeDefinedOrder_ne_zero _ _ (Except.ok.inj zero)) ?_
        exact fun found => alike (.inr ⟨found.2.1, found.1⟩)
    · rw [isRoot, isRoot']
      refine iff_of_false (compareRaw_ne_zero scalar container').2 fun found => ?_
      exact not_number_of_container container' found.2.1
  · refine iff_of_false ?_ fun found => not_number_of_container container found.1
    rcases root_cases_of_built elem.built with ⟨scalar', isRoot'⟩ | ⟨container', isRoot'⟩
    · rw [isRoot, isRoot']
      exact (compareRaw_ne_zero scalar' container).1
    · simp [sameKind, not_scalar_of_container container, not_scalar_of_container container']
        at isKind

include laws collation order in
/-- IN agrees with equality unless the item equals numbers of other types only. -/
theorem agtypeInOperator_agrees_iff {ggctx : Int64 → EdgeFields} {list : ListArgument}
    {elems : List StoredAgtype} (isList : list.elems? ggctx = some (elems.map (·.value)))
    (item : StoredAgtype) (notNull : item.value ≠ .null) :
    ∃ found, agtypeInOperator ops.order ggctx list (some item.value.root) = .ok (some found) ∧
      ((found = true ↔ ∃ elem ∈ elems, agtypeEq ops elem item = .ok true) ↔
        ((∃ elem ∈ elems, item.EqualsOtherNumber ops elem) →
          ∃ elem ∈ elems, item.Matches ops elem)) := by
  obtain ⟨found, answers, isFound⟩ :=
    agtypeInOperator_exact laws collation order isList item notNull
  refine ⟨found, answers, ?_⟩
  have equal_iff (elem : StoredAgtype) : agtypeEq ops elem item = .ok true ↔
      item.Matches ops elem ∨ item.EqualsOtherNumber ops elem := by
    cases isKind : sameKind item.value elem.value with
    | true =>
        have notOther : ¬item.EqualsOtherNumber ops elem := by
          rintro ⟨number, number', differ, -⟩
          rw [sameKind] at isKind
          cases isItem : item.value <;> cases isElem : elem.value <;>
            simp_all [isNumberType, AgtypeValue.type, AgtypeValue.isScalar]
        rw [or_iff_left notOther, StoredAgtype.Matches, isKind]
        exact (and_iff_right rfl).symm
    | false =>
        rw [agtypeEq_other_iff laws isKind, or_iff_right fun found => ?_]
        exact absurd (isKind.symm.trans found.1) Bool.false_ne_true
  have isFound : found = true ↔ ∃ elem ∈ elems, item.Matches ops elem := isFound
  rw [isFound]
  simp only [equal_iff, and_or_left, exists_or]
  exact ⟨fun agrees other => agrees.mpr (.inr other),
    fun covered => ⟨.inl, fun either => either.elim id covered⟩⟩

/-- `1 IN [1]` -/
theorem agtypeInOperator_agrees_iff_one :
    ComparisonLaws serverComparisonOps ∧ ThreeWay serverComparisonOps.order.varstrCmp ∧
      NumericOrder serverComparisonOps.order ∧
      ∃ found, agtypeInOperator serverComparisonOps.order (fun _ => ⟨[], 0, 0, .object []⟩)
          (.agtype (.array false [.integer 1])) (some (.array true [.integer 1])) =
            .ok (some found) ∧
        ((found = true ↔ ∃ elem ∈ [storedOne],
            agtypeEq serverComparisonOps elem storedOne = .ok true) ↔
          ((∃ elem ∈ [storedOne], storedOne.EqualsOtherNumber serverComparisonOps elem) →
            ∃ elem ∈ [storedOne], storedOne.Matches serverComparisonOps elem)) :=
  ⟨serverComparisonLaws, threeWay_memcmp, Server.numericOrder,
    agtypeInOperator_agrees_iff serverComparisonLaws threeWay_memcmp Server.numericOrder
      (show ListArgument.elems? _ _ = some ([storedOne].map (·.value)) from rfl) storedOne nofun⟩

/-- The numeric 1 as it is stored -/
def storedNumericOne : StoredAgtype where
  container := (scalarAgtype (agtentryIsNumeric ||| agtentryHasOff |||
    (Server.int8Numeric 1).image.length) (Server.int8Numeric 1).image).drop 4
  value := .numeric (Server.int8Numeric 1)
  built := .numeric _
  haveIds := rfl
  contents := containerAt_agtypeValueToAgtype (v := .numeric (Server.int8Numeric 1)) (by
    rw [agtypeValueToAgtype, agtypeNumericToAgtype, if_neg (by decide)])

/-- `1 IN [1::numeric]` is false, though the numeric equals the integer. -/
theorem not_in_numeric :
    ¬(agtypeInOperator serverComparisonOps.order (fun _ => ⟨[], 0, 0, .object []⟩)
        (.agtype (.array false [storedNumericOne.value])) (some storedOne.value.root) =
          .ok (some true) ↔
      ∃ elem ∈ [storedNumericOne], agtypeEq serverComparisonOps elem storedOne = .ok true) := by
  have notFound : agtypeInOperator serverComparisonOps.order (fun _ => ⟨[], 0, 0, .object []⟩)
      (.agtype (.array false [storedNumericOne.value])) (some storedOne.value.root) =
        .ok (some false) := rfl
  have equal : agtypeEq serverComparisonOps storedNumericOne storedOne = .ok true := by
    rw [agtypeEq_eq serverComparisonLaws]
    exact congrArg Except.ok (decide_eq_true (Server.numericOrder.refl (Server.int8Numeric 1)))
  rw [notFound]
  intro agrees
  cases agrees.mpr ⟨storedNumericOne, List.mem_singleton_self _, equal⟩

end Agreement

end Age.Agtype
