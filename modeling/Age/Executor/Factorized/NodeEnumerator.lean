import Mathlib.Algebra.BigOperators.Group.List.Lemmas
import Mathlib.Algebra.Order.BigOperators.GroupWithZero.List
import Mathlib.Algebra.Order.Ring.Nat
import Age.Lib.Odometer

/-!
# Binding nodes

A binding node has bags of source rows and of edges, and children.  Its multiplicity is the
product of what all of them count, in 64 bits.  The enumerator of a node goes through the vectors
of its bags and children, and counts each of them in an `int`.
-/

namespace Age.Executor.Factorized

open Odometer

section Definitions

def pgInt64Max : Nat := 9223372036854775807

def pgInt32Max : Nat := 2147483647

/-- The count of a bag is positive, and an `int`. -/
structure BagCount where
  count : Nat
  positive : 0 < count
  fits : count ≤ pgInt32Max

/-- `AgeBindingNode`: the row counts of the source bags, the logical counts of the edge bags, and
the children -/
inductive BindingNode where
  | node (sourceBags edgeBags : List BagCount) (children : List BindingNode)

/-- `AgeBindingMultiplicity`; a negative count is an error, and no bag has one. -/
structure Multiplicity where
  count : Nat
  overflowed : Bool
  deriving DecidableEq, Repr

namespace Multiplicity

def one : Multiplicity := ⟨1, false⟩

def fromCount (count : Nat) : Multiplicity := ⟨count, false⟩

def product (left right : Multiplicity) : Multiplicity :=
  let overflowed := left.overflowed || right.overflowed
  if left.count = 0 ∨ right.count = 0 then ⟨0, overflowed⟩
  else if pgInt64Max / right.count < left.count then ⟨pgInt64Max, true⟩
  else ⟨left.count * right.count, overflowed⟩

def productCount (multiplicity : Multiplicity) (bag : BagCount) : Multiplicity :=
  multiplicity.product (fromCount bag.count)

end Multiplicity

mutual

/-- `age_binding_node_multiplicity` -/
def nodeMultiplicity : BindingNode → Multiplicity
  | .node sourceBags edgeBags children =>
      childrenMultiplicity
        (edgeBags.foldl .productCount (sourceBags.foldl .productCount .one)) children

/-- The loop over the children -/
def childrenMultiplicity : Multiplicity → List BindingNode → Multiplicity
  | multiplicity, [] => multiplicity
  | multiplicity, child :: children =>
      childrenMultiplicity (multiplicity.product (nodeMultiplicity child)) children

end

namespace BindingNode

def sourceBags : BindingNode → List BagCount
  | node sourceBags _ _ => sourceBags

def edgeBags : BindingNode → List BagCount
  | node _ edgeBags _ => edgeBags

def children : BindingNode → List BindingNode
  | node _ _ children => children

end BindingNode

/-- What is left of an `int64` that is not negative in an `int` -/
def toInt (count : Nat) : Int := ((count : Int) + 2 ^ 31) % 2 ^ 32 - 2 ^ 31

inductive EnumeratorError where
  /-- `invalid AGE factorized binding node factor` -/
  | invalidFactor
  deriving DecidableEq, Repr

/-- `age_binding_node_flat_enumerator_add_factor` -/
def addFactor (logicalCounts : List Nat) (logicalCount : Int) :
    Except EnumeratorError (List Nat) :=
  if logicalCount < 0 then .error .invalidFactor
  else .ok (logicalCounts ++ [logicalCount.toNat])

/-- The state of `AgeBindingNodeFlatEnumerator` that the calls change -/
structure NodeEnumerator where
  indexes : Nat → Int
  active : Bool
  started : Bool

/-- `age_binding_begin_node_flat_enumerator`: the logical counts of the factors, and the state -/
def beginNodeFlatEnumerator (node : BindingNode) :
    Except EnumeratorError (List Nat × NodeEnumerator) := do
  let candidate := nodeMultiplicity node
  let counts ← node.sourceBags.foldlM (fun counts bag => addFactor counts bag.count) []
  let counts ← node.edgeBags.foldlM (fun counts bag => addFactor counts bag.count) counts
  let counts ← node.children.foldlM
    (fun counts child => addFactor counts (toInt (nodeMultiplicity child).count)) counts
  return (counts, ⟨fun _ => -1, decide (0 < candidate.count), false⟩)

/-- One turn of the loop over the depths -/
def nodeTurn (logicalCounts : List Nat) (depth : Nat) (state : NodeEnumerator) :
    Turn NodeEnumerator :=
  let tupleIndex := state.indexes depth + 1
  let tupleCount := logicalCounts[depth]?.getD 0
  if tupleIndex < tupleCount then
    let state := { state with indexes := Function.update state.indexes depth tupleIndex }
    if depth + 1 = logicalCounts.length then .emit state
    else .goto (depth + 1) { state with indexes := Function.update state.indexes (depth + 1) (-1) }
  else
    let state := { state with indexes := Function.update state.indexes depth (-1) }
    match depth with
    | 0 => .finish { state with active := false, started := false }
    | depth + 1 => .goto depth state

/-- `age_binding_node_flat_enumerator_next` -/
def nodeNext (logicalCounts : List Nat) (fuel : Nat) (state : NodeEnumerator) :
    Option (Bool × NodeEnumerator) :=
  if !state.active then some (false, state)
  else if logicalCounts.length = 0 then
    if state.started then some (false, { state with active := false, started := false })
    else some (true, { state with started := true })
  else
    let depth := if state.started then logicalCounts.length - 1 else 0
    call (nodeTurn logicalCounts) fuel depth { state with started := true }

/-- The indexes of all factors -/
def nodeVector (logicalCounts : List Nat) (state : NodeEnumerator) : List Int :=
  (List.range logicalCounts.length).map state.indexes

end Definitions

section Multiplicities

mutual

/-- The product of all bag counts of the tree -/
def exactCount : BindingNode → Nat
  | .node sourceBags edgeBags children =>
      (sourceBags.map BagCount.count).prod * (edgeBags.map BagCount.count).prod *
        exactCounts children

def exactCounts : List BindingNode → Nat
  | [] => 1
  | child :: children => exactCount child * exactCounts children

end

/-- A count of 64 bits, or the largest one with the flag -/
def Multiplicity.ofExact (count : Nat) : Multiplicity :=
  if count ≤ pgInt64Max then ⟨count, false⟩ else ⟨pgInt64Max, true⟩

theorem product_ofExact {left right : Nat} (leftPositive : 0 < left) (rightPositive : 0 < right) :
    (Multiplicity.ofExact left).product (.ofExact right) = .ofExact (left * right) := by
  have most : 0 < pgInt64Max := by decide
  unfold Multiplicity.ofExact Multiplicity.product
  by_cases leftFits : left ≤ pgInt64Max
  · by_cases rightFits : right ≤ pgInt64Max
    · rw [if_pos leftFits, if_pos rightFits]
      dsimp only
      rw [if_neg (by omega)]
      by_cases fits : left * right ≤ pgInt64Max
      · rw [if_pos fits, if_neg (Nat.not_lt.2 ((Nat.le_div_iff_mul_le rightPositive).2 fits))]
        rfl
      · rw [if_neg fits, if_pos ((Nat.div_lt_iff_lt_mul rightPositive).2 (Nat.lt_of_not_le fits))]
    · have large : ¬left * right ≤ pgInt64Max := fun fits =>
        rightFits (le_trans (Nat.le_mul_of_pos_left right leftPositive) fits)
      rw [if_pos leftFits, if_neg rightFits, if_neg large]
      dsimp only
      rw [if_neg (by omega), Nat.div_self most]
      by_cases isOne : left = 1
      · subst isOne
        rw [if_neg (by decide), Nat.one_mul]
        rfl
      · rw [if_pos (by omega)]
  · have large : ¬left * right ≤ pgInt64Max := fun fits =>
      leftFits (le_trans (Nat.le_mul_of_pos_right left rightPositive) fits)
    rw [if_neg leftFits, if_neg large]
    by_cases rightFits : right ≤ pgInt64Max
    · rw [if_pos rightFits]
      dsimp only
      rw [if_neg (by omega)]
      by_cases isOne : right = 1
      · subst isOne
        rw [if_neg (by decide), Nat.mul_one]
        rfl
      · rw [if_pos]
        exact Nat.div_lt_self most (by omega)
    · rw [if_neg rightFits]
      rfl

theorem foldl_productCount (bags : List BagCount) {count : Nat} (positive : 0 < count) :
    bags.foldl .productCount (.ofExact count) =
        Multiplicity.ofExact (count * (bags.map BagCount.count).prod) ∧
      0 < count * (bags.map BagCount.count).prod := by
  induction bags generalizing count with
  | nil => simpa using positive
  | cons bag rest inductionHypothesis =>
      have isCount : Multiplicity.fromCount bag.count = .ofExact bag.count :=
        (if_pos (bag.fits.trans (by decide))).symm
      rw [List.foldl_cons, Multiplicity.productCount, isCount,
        product_ofExact positive bag.positive, List.map_cons, List.prod_cons, ← Nat.mul_assoc]
      exact inductionHypothesis (Nat.mul_pos positive bag.positive)

mutual

/-- The multiplicity is exact up to the limit of 64 bits. -/
theorem nodeMultiplicity_eq : (node : BindingNode) →
    nodeMultiplicity node = .ofExact (exactCount node) ∧ 0 < exactCount node
  | .node sourceBags edgeBags children => by
      have one : Multiplicity.one = .ofExact 1 := (if_pos (by decide)).symm
      obtain ⟨source, sourcePositive⟩ := foldl_productCount sourceBags Nat.one_pos
      rw [Nat.one_mul] at source sourcePositive
      obtain ⟨edge, edgePositive⟩ := foldl_productCount edgeBags sourcePositive
      rw [nodeMultiplicity, exactCount, one, source, edge]
      exact childrenMultiplicity_eq edgePositive children

theorem childrenMultiplicity_eq {count : Nat} (positive : 0 < count) :
    (children : List BindingNode) →
      childrenMultiplicity (.ofExact count) children = .ofExact (count * exactCounts children) ∧
        0 < count * exactCounts children
  | [] => by
      rw [childrenMultiplicity, exactCounts, Nat.mul_one]
      exact ⟨rfl, positive⟩
  | child :: children => by
      obtain ⟨isChild, childPositive⟩ := nodeMultiplicity_eq child
      rw [childrenMultiplicity, exactCounts, isChild, product_ofExact positive childPositive,
        ← Nat.mul_assoc]
      exact childrenMultiplicity_eq (Nat.mul_pos positive childPositive) children

end

end Multiplicities

section Enumeration

variable {logicalCounts chosen : List Nat} {nextIndex : Nat}

/-- The indexes of the first factors; the others have none. -/
def firstIndexes (chosen : List Nat) (depth : Nat) : Int :=
  match chosen[depth]? with
  | some index => index
  | none => -1

theorem firstIndexes_append (chosen : List Nat) (index : Nat) :
    firstIndexes (chosen ++ [index]) =
      Function.update (firstIndexes chosen) chosen.length index := by
  funext depth
  rcases Nat.lt_trichotomy depth chosen.length with less | rfl | greater
  · rw [Function.update_of_ne (Nat.ne_of_lt less), firstIndexes, firstIndexes,
      List.getElem?_append_left less]
  · rw [Function.update_self, firstIndexes, List.getElem?_concat_length]
  · rw [Function.update_of_ne (Nat.ne_of_gt greater), firstIndexes, firstIndexes,
      List.getElem?_eq_none (by rw [List.length_append, List.length_singleton]; omega),
      List.getElem?_eq_none greater.le]

theorem firstIndexes_next (chosen : List Nat) :
    Function.update (firstIndexes chosen) chosen.length (-1) = firstIndexes chosen := by
  have none : firstIndexes chosen chosen.length = -1 := by
    rw [firstIndexes, List.getElem?_eq_none le_rfl]
  rw [← none, Function.update_eq_self]

def nodeCountAt (logicalCounts : List Nat) (depth : Nat) : Nat := logicalCounts[depth]?.getD 0

/-- Every index of a factor is taken. -/
def anyIndex (_ : List Nat) (_ : Nat) : Bool := true

/-- The enumerator stands before an index of a factor, with indexes for those before it. -/
structure NodeStands (logicalCounts : List Nat) (state : NodeEnumerator) (chosen : List Nat)
    (nextIndex : Nat) : Prop where
  inside : chosen.length < logicalCounts.length
  indexes : state.indexes =
    Function.update (firstIndexes chosen) chosen.length ((nextIndex : Int) - 1)

theorem firstFrom_anyIndex :
    firstFrom (nodeCountAt logicalCounts) anyIndex chosen nextIndex =
      if nextIndex < nodeCountAt logicalCounts chosen.length then some nextIndex else none := by
  split_ifs with inside
  · rw [firstFrom_succ inside]
    rfl
  · exact firstFrom_none (Nat.le_of_not_lt inside)

theorem nextIndex_of_stands {state : NodeEnumerator}
    (stands : NodeStands logicalCounts state chosen nextIndex) :
    state.indexes chosen.length + 1 = nextIndex := by
  rw [stands.indexes, Function.update_self, Int.sub_add_cancel]

/-- Where an index is found it is the next one. -/
theorem eq_of_firstFrom {index : Nat}
    (isFirst : firstFrom (nodeCountAt logicalCounts) anyIndex chosen nextIndex = some index) :
    index = nextIndex ∧ nextIndex < nodeCountAt logicalCounts chosen.length := by
  rw [firstFrom_anyIndex] at isFirst
  split_ifs at isFirst with inside
  exact ⟨(Option.some.inj isFirst).symm, inside⟩

def nodeVectorAt (logicalCounts chosen : List Nat) : List Int :=
  (List.range logicalCounts.length).map (firstIndexes chosen)

/-- A turn does what the enumeration does. -/
theorem nodeTurn_lawful : Lawful (nodeTurn logicalCounts) (nodeVector logicalCounts)
    logicalCounts.length (nodeCountAt logicalCounts) anyIndex (nodeVectorAt logicalCounts)
    (NodeStands logicalCounts) where
  deeper {state chosen nextIndex index} stands isFirst notLast := by
    obtain ⟨rfl, small⟩ := eq_of_firstFrom isFirst
    rw [nodeCountAt] at small
    have isNext := nextIndex_of_stands stands
    have turned : nodeTurn logicalCounts chosen.length state = .goto (chosen.length + 1)
        ⟨Function.update (Function.update state.indexes chosen.length index) (chosen.length + 1) (-1),
          state.active, state.started⟩ := by
      simp only [nodeTurn, isNext]
      rw [if_pos (Int.ofNat_lt.2 small), if_neg (Nat.ne_of_lt notLast)]
    refine ⟨_, turned, by rwa [List.length_append, List.length_singleton], ?_⟩
    dsimp only
    rw [stands.indexes, Function.update_idem, ← firstIndexes_append, List.length_append,
      List.length_singleton]
    rfl
  full {state chosen nextIndex index} stands isFirst last := by
    obtain ⟨rfl, small⟩ := eq_of_firstFrom isFirst
    rw [nodeCountAt] at small
    have isNext := nextIndex_of_stands stands
    have turned : nodeTurn logicalCounts chosen.length state = .emit
        { state with indexes := Function.update state.indexes chosen.length index } := by
      simp only [nodeTurn, isNext]
      rw [if_pos (Int.ofNat_lt.2 small), if_pos last]
    refine ⟨_, turned, ⟨stands.inside, ?_⟩, ?_⟩
    · dsimp only
      rw [stands.indexes, Function.update_idem]
      push_cast
      rw [Int.add_sub_cancel]
    · rw [nodeVector, nodeVectorAt]
      dsimp only
      rw [stands.indexes, Function.update_idem, firstIndexes_append]
  back {state chosen last nextIndex} stands isNone := by
    rw [firstFrom_anyIndex] at isNone
    have done : ¬nextIndex < nodeCountAt logicalCounts (chosen ++ [last]).length := by
      intro small
      rw [if_pos small] at isNone
      cases isNone
    have isNext := nextIndex_of_stands stands
    have inside := stands.inside
    have indexes := stands.indexes
    rw [List.length_append, List.length_singleton] at inside isNext done indexes ⊢
    have turned : nodeTurn logicalCounts (chosen.length + 1) state = .goto chosen.length
        { state with indexes := Function.update state.indexes (chosen.length + 1) (-1) } := by
      simp only [nodeTurn, isNext]
      rw [nodeCountAt] at done
      rw [if_neg (fun small => done (Int.ofNat_lt.1 small))]
    refine ⟨_, turned, by omega, ?_⟩
    have forgotten := firstIndexes_next (chosen ++ [last])
    rw [List.length_append, List.length_singleton] at forgotten
    dsimp only
    rw [indexes, Function.update_idem, forgotten, firstIndexes_append]
    push_cast
    rw [Int.add_sub_cancel]
  out {state nextIndex} stands isNone := by
    rw [firstFrom_anyIndex] at isNone
    have done : ¬nextIndex < nodeCountAt logicalCounts 0 := by
      intro small
      rw [List.length_nil, if_pos small] at isNone
      cases isNone
    have isNext := nextIndex_of_stands stands
    rw [List.length_nil] at isNext
    have turned : nodeTurn logicalCounts 0 state = .finish { state with
        indexes := Function.update state.indexes 0 (-1)
        active := false
        started := false } := by
      simp only [nodeTurn, isNext]
      rw [nodeCountAt] at done
      rw [if_neg (fun small => done (Int.ofNat_lt.1 small))]
    exact ⟨_, turned⟩

/-- The flags of an enumeration that goes on -/
def NodeAwake (state : NodeEnumerator) : Prop := state.active = true ∧ state.started = true

theorem nodeTurn_keeps : Keeps (nodeTurn logicalCounts) NodeAwake := by
  intro depth state awake
  simp only [nodeTurn]
  split_ifs
  · exact awake
  · exact awake
  · cases depth with
    | zero => trivial
    | succ depth => exact awake

/-- The enumerator with these factors gives out every vector of their product once. -/
theorem nodeOutputs_eq (logicalCounts : List Nat) :
    ∃ vectors : List (List Int), vectors.Nodup ∧ vectors.length = logicalCounts.prod ∧
      ∃ enough, ∀ calls fuel, enough ≤ calls → enough ≤ fuel →
        outputs (nodeNext logicalCounts fuel) (nodeVector logicalCounts) calls
          ⟨fun _ => -1, true, false⟩ = some vectors := by
  rcases Nat.eq_zero_or_pos logicalCounts.length with empty | positive
  · obtain rfl := List.length_eq_zero_iff.1 empty
    refine ⟨[[]], List.nodup_singleton _, rfl, 2, fun calls fuel enough _ => ?_⟩
    obtain ⟨more, rfl⟩ := Nat.exists_eq_add_of_le enough
    rw [Nat.add_comm]
    rfl
  · have resumes : ∀ state, NodeAwake state → ∀ fuel, nodeNext logicalCounts fuel state =
        call (nodeTurn logicalCounts) fuel (logicalCounts.length - 1) state := by
      rintro ⟨indexes, active, started⟩ ⟨isActive, isStarted⟩ fuel
      dsimp only at isActive isStarted
      rw [isActive, isStarted, nodeNext]
      simp only [Bool.not_true, Bool.false_eq_true, if_false, if_true]
      rw [if_neg positive.ne']
    have enters (fuel : Nat) : nodeNext logicalCounts fuel ⟨fun _ => -1, true, false⟩ =
        call (nodeTurn logicalCounts) fuel 0 ⟨fun _ => -1, true, true⟩ := by
      rw [nodeNext]
      simp only [Bool.not_true, Bool.false_eq_true, if_false]
      rw [if_neg positive.ne']
    obtain ⟨enough, given⟩ := outputs_complete (@nodeTurn_lawful logicalCounts) positive
      nodeTurn_keeps resumes ⟨rfl, rfl⟩ enters ⟨positive, (firstIndexes_next []).symm⟩
    refine ⟨_, ?_, ?_, enough, given⟩
    · refine List.Nodup.map_on ?_ nodup_leaves_options
      intro first isFirst second isSecond same
      have firstLength := (mem_leaves_options.1 isFirst).1
      have secondLength := (mem_leaves_options.1 isSecond).1
      refine List.ext_getElem (firstLength.trans secondLength.symm) fun depth inFirst inSecond => ?_
      have here := List.map_inj_left.1 same depth (List.mem_range.2 (firstLength ▸ inFirst))
      rw [firstIndexes, firstIndexes, List.getElem?_eq_getElem inFirst,
        List.getElem?_eq_getElem inSecond] at here
      exact Int.ofNat.inj here
    · rw [List.length_map, @length_leaves_options _ anyIndex fun _ _ => rfl]
      have counts : (List.range' 0 logicalCounts.length).map (nodeCountAt logicalCounts) =
          logicalCounts := by
        rw [← List.range_eq_range']
        refine List.ext_getElem (by simp) fun depth _ inside => ?_
        rw [List.getElem_map, List.getElem_range, nodeCountAt, List.getElem?_eq_getElem inside]
        rfl
      rw [List.length_nil, counts]

end Enumeration

section Agreement

theorem toInt_of_le {count : Nat} (fits : count ≤ pgInt32Max) : toInt count = count := by
  rw [toInt]
  unfold pgInt32Max at fits
  omega

theorem toInt_lt {count : Nat} (large : pgInt32Max < count) : (toInt count).toNat < count := by
  rw [toInt]
  unfold pgInt32Max at large
  omega

theorem toInt_toNat_le (count : Nat) : (toInt count).toNat ≤ count := by
  rcases Nat.lt_or_ge pgInt32Max count with large | fits
  · exact (toInt_lt large).le
  · rw [toInt_of_le fits]
    exact le_rfl

/-- Factors are added while no count is negative. -/
theorem foldlM_addFactor {Item : Type} (countOf : Item → Int) (items : List Item)
    (counts : List Nat) :
    items.foldlM (fun counts item => addFactor counts (countOf item)) counts =
      if ∀ item ∈ items, 0 ≤ countOf item then
        .ok (counts ++ items.map fun item => (countOf item).toNat)
      else .error .invalidFactor := by
  induction items generalizing counts with
  | nil => simp [pure, Except.pure]
  | cons item rest inductionHypothesis =>
      rw [List.foldlM_cons, addFactor]
      by_cases negative : countOf item < 0
      · rw [if_pos negative, if_neg]
        · rfl
        · intro all
          exact absurd (all item List.mem_cons_self) (Int.not_le.2 negative)
      · rw [if_neg negative]
        change rest.foldlM _ (counts ++ [(countOf item).toNat]) = _
        rw [inductionHypothesis]
        have here : 0 ≤ countOf item := Int.not_lt.1 negative
        simp [here]

/-- The factors of the bags and of the children -/
def factorCounts (node : BindingNode) : List Nat :=
  (node.sourceBags.map BagCount.count ++ node.edgeBags.map BagCount.count) ++
    node.children.map fun child => (toInt (nodeMultiplicity child).count).toNat

theorem beginNodeFlatEnumerator_eq (node : BindingNode) :
    beginNodeFlatEnumerator node =
      if ∀ child ∈ node.children, 0 ≤ toInt (nodeMultiplicity child).count then
        .ok (factorCounts node,
          ⟨fun _ => -1, decide (0 < (nodeMultiplicity node).count), false⟩)
      else .error .invalidFactor := by
  have source := foldlM_addFactor (fun bag : BagCount => (bag.count : Int)) node.sourceBags []
  have edge := foldlM_addFactor (fun bag : BagCount => (bag.count : Int)) node.edgeBags
    (node.sourceBags.map BagCount.count)
  have children := foldlM_addFactor (fun child => toInt (nodeMultiplicity child).count)
    node.children (node.sourceBags.map BagCount.count ++ node.edgeBags.map BagCount.count)
  rw [if_pos fun _ _ => Int.natCast_nonneg _] at source edge
  simp only [beginNodeFlatEnumerator, source, bind, Except.bind, List.nil_append, Int.toNat_natCast,
    edge, children]
  split_ifs with all
  · rfl
  · rfl

theorem exactCounts_eq (children : List BindingNode) :
    exactCounts children = (children.map exactCount).prod := by
  induction children with
  | nil => rfl
  | cons child rest inductionHypothesis =>
      rw [exactCounts, inductionHypothesis, List.map_cons, List.prod_cons]

theorem exactCount_eq (node : BindingNode) :
    exactCount node = (node.sourceBags.map BagCount.count).prod *
      (node.edgeBags.map BagCount.count).prod * (node.children.map exactCount).prod := by
  cases node
  rw [exactCount, exactCounts_eq]
  rfl

/-- The exact count of a node bounds those of its children. -/
theorem exactCount_child_le {node child : BindingNode} (isChild : child ∈ node.children) :
    exactCount child ≤ exactCount node := by
  have positive := (nodeMultiplicity_eq node).2
  have divides : exactCount child ∣ exactCount node := by
    rw [exactCount_eq node]
    exact dvd_mul_of_dvd_right (List.dvd_prod (List.mem_map_of_mem isChild)) _
  exact Nat.le_of_dvd positive divides

/-- Smaller factors have a smaller product. -/
theorem prod_lt_of_le {Item : Type} {small large : Item → Nat} {items : List Item}
    (positive : ∀ item ∈ items, 0 < large item) (le : ∀ item ∈ items, small item ≤ large item)
    (lt : ∃ item ∈ items, small item < large item) :
    (items.map small).prod < (items.map large).prod := by
  have weak {rest : List Item} (le : ∀ item ∈ rest, small item ≤ large item) :
      (rest.map small).prod ≤ (rest.map large).prod := by
    induction rest with
    | nil => exact le_rfl
    | cons item rest inductionHypothesis =>
        rw [List.map_cons, List.map_cons, List.prod_cons, List.prod_cons]
        exact Nat.mul_le_mul (le item List.mem_cons_self)
          (inductionHypothesis fun other isOther => le other (List.mem_cons_of_mem _ isOther))
  induction items with
  | nil =>
      obtain ⟨item, inside, -⟩ := lt
      cases inside
  | cons item rest inductionHypothesis =>
      have positiveRest := fun other isOther => positive other (List.mem_cons_of_mem item isOther)
      have leRest := fun other isOther => le other (List.mem_cons_of_mem item isOther)
      have restPositive : 0 < (rest.map large).prod := by
        have all : ∀ count ∈ rest.map large, 0 < count := by
          intro count inside
          obtain ⟨other, isOther, rfl⟩ := List.mem_map.1 inside
          exact positiveRest other isOther
        exact List.prod_pos all
      rw [List.map_cons, List.map_cons, List.prod_cons, List.prod_cons]
      by_cases here : small item < large item
      · exact Nat.mul_lt_mul_of_lt_of_le here (weak leRest) restPositive
      · have later : ∃ other ∈ rest, small other < large other := by
          obtain ⟨other, isOther, less⟩ := lt
          rcases List.mem_cons.1 isOther with rfl | inRest
          · exact absurd less here
          · exact ⟨other, inRest, less⟩
        exact Nat.mul_lt_mul_of_le_of_lt (le item List.mem_cons_self)
          (inductionHypothesis positiveRest leRest later) (positive item List.mem_cons_self)

/-- The enumerator of the node gives out that many vectors, each once. -/
def EmitsExactly (node : BindingNode) (count : Nat) : Prop :=
  ∃ counts state, beginNodeFlatEnumerator node = .ok (counts, state) ∧
    ∃ vectors : List (List Int), vectors.Nodup ∧ vectors.length = count ∧
      ∃ enough, ∀ calls fuel, enough ≤ calls → enough ≤ fuel →
        outputs (nodeNext counts fuel) (nodeVector counts) calls state = some vectors

/-- The multiplicity is the exact product, or the largest number with the flag; and without the
flag the enumerator gives out that many vectors. -/
def CardinalityAgrees (node : BindingNode) : Prop :=
  nodeMultiplicity node = .ofExact (exactCount node) ∧
    ((nodeMultiplicity node).overflowed = false →
      EmitsExactly node (nodeMultiplicity node).count)

theorem count_of_fits {node : BindingNode} (fits : exactCount node ≤ pgInt64Max) :
    nodeMultiplicity node = ⟨exactCount node, false⟩ :=
  (nodeMultiplicity_eq node).1.trans (if_pos fits)

/-- The factors of the enumerator are the counts as far as an `int` holds them. -/
theorem prod_factorCounts {node : BindingNode} (fits : exactCount node ≤ pgInt64Max) :
    (factorCounts node).prod = (node.sourceBags.map BagCount.count).prod *
      (node.edgeBags.map BagCount.count).prod *
        (node.children.map fun child => (toInt (exactCount child)).toNat).prod := by
  have truncated : (node.children.map fun child => (toInt (nodeMultiplicity child).count).toNat) =
      node.children.map fun child => (toInt (exactCount child)).toNat :=
    List.map_congr_left fun child isChild => by
      rw [count_of_fits ((exactCount_child_le isChild).trans fits)]
  rw [factorCounts, List.prod_append, List.prod_append, truncated]

/-- A child with too many combinations makes the enumerator fail, or leave some out. -/
theorem not_emitsExactly_of_large {node child : BindingNode} (fits : exactCount node ≤ pgInt64Max)
    (isChild : child ∈ node.children) (large : pgInt32Max < exactCount child) :
    ¬EmitsExactly node (exactCount node) := by
  have positive := (nodeMultiplicity_eq node).2
  have bags : 0 < (node.sourceBags.map BagCount.count).prod *
      (node.edgeBags.map BagCount.count).prod := by
    rw [exactCount_eq] at positive
    exact Nat.pos_of_mul_pos_right positive
  have fewer : (node.children.map fun child => (toInt (exactCount child)).toNat).prod <
      (node.children.map exactCount).prod :=
    prod_lt_of_le (fun other _ => (nodeMultiplicity_eq other).2)
      (fun other _ => toInt_toNat_le _) ⟨child, isChild, toInt_lt large⟩
  obtain ⟨vectors, distinct, length, enough, given⟩ := nodeOutputs_eq (factorCounts node)
  rintro ⟨counts, state, begun, others, -, otherLength, otherEnough, otherGiven⟩
  rw [beginNodeFlatEnumerator_eq] at begun
  split_ifs at begun with all
  cases begun
  rw [count_of_fits fits, decide_eq_true positive] at otherGiven
  have same := (given _ _ (le_max_left enough otherEnough)
    (le_max_left enough otherEnough)).symm.trans
      (otherGiven _ _ (le_max_right enough otherEnough) (le_max_right enough otherEnough))
  cases same
  rw [length, prod_factorCounts fits, exactCount_eq] at otherLength
  exact absurd otherLength (Nat.mul_lt_mul_of_pos_left fewer bags).ne

theorem emitsExactly_of_small {node : BindingNode} (fits : exactCount node ≤ pgInt64Max)
    (small : ∀ child ∈ node.children, exactCount child ≤ pgInt32Max) :
    EmitsExactly node (exactCount node) := by
  have positive := (nodeMultiplicity_eq node).2
  have ofChild (child : BindingNode) (isChild : child ∈ node.children) :
      nodeMultiplicity child = ⟨exactCount child, false⟩ :=
    count_of_fits ((exactCount_child_le isChild).trans fits)
  obtain ⟨vectors, distinct, length, enough, given⟩ := nodeOutputs_eq (factorCounts node)
  refine ⟨factorCounts node, ⟨fun _ => -1, true, false⟩, ?_, vectors, distinct, ?_, enough, given⟩
  · rw [beginNodeFlatEnumerator_eq, count_of_fits fits, if_pos, decide_eq_true positive]
    intro child isChild
    rw [ofChild child isChild, toInt_of_le (small child isChild)]
    exact Int.natCast_nonneg _
  · have whole : (node.children.map fun child => (toInt (exactCount child)).toNat) =
        node.children.map exactCount :=
      List.map_congr_left fun child isChild => by
        rw [toInt_of_le (small child isChild), Int.toNat_natCast]
    rw [length, prod_factorCounts fits, exactCount_eq, whole]

/-- The two agree where the count of each child is an `int`. -/
theorem cardinalityAgrees_iff (node : BindingNode) :
    CardinalityAgrees node ↔
      (exactCount node ≤ pgInt64Max → ∀ child ∈ node.children, exactCount child ≤ pgInt32Max) := by
  have isExact := (nodeMultiplicity_eq node).1
  constructor
  · rintro ⟨-, emits⟩ fits child isChild
    by_contra large
    rw [count_of_fits fits] at emits
    exact not_emitsExactly_of_large fits isChild (Nat.lt_of_not_le large) (emits rfl)
  · intro small
    refine ⟨isExact, fun noFlag => ?_⟩
    by_cases fits : exactCount node ≤ pgInt64Max
    · rw [count_of_fits fits]
      exact emitsExactly_of_small fits (small fits)
    · rw [isExact, Multiplicity.ofExact, if_neg fits] at noFlag
      cases noFlag

section Example

/-- A bag of 65536 rows -/
def largeBag : BagCount := ⟨65536, by decide, by decide⟩

/-- A node whose only child has 65536 times 65536 combinations -/
def largeChildNode : BindingNode := .node [] [] [.node [largeBag, largeBag] [] []]

/-- The count of the child is 0 in an `int`, and nothing is given out. -/
theorem not_cardinalityAgrees_largeChild : ¬CardinalityAgrees largeChildNode := by
  rintro ⟨-, emits⟩
  have fits : exactCount largeChildNode ≤ pgInt64Max := by decide
  rw [count_of_fits fits] at emits
  exact not_emitsExactly_of_large fits List.mem_cons_self (by decide) (emits rfl)

end Example

end Agreement

end Age.Executor.Factorized
