import Age.Agtype.Walk
import Age.Server.Order

/-!
# The order of agtype containers

On well-formed containers the comparator is the comparison of walks, so the
laws of a total preorder hold exactly for the containers whose walks are
neither entangled nor cyclic.
-/

namespace Age.Agtype

open Lib

/-- The id in the first pair of a vertex or an edge. -/
def entityId : List AgtypePair → Int
  | (_, .integer id) :: _ => id.toInt
  | _ => 0

/-- What the comparator reads of an element of a path. -/
def pathElemId : AgtypeValue → Int
  | .vertex pairs => entityId pairs
  | .edge pairs => entityId pairs
  | _ => 0

/-- What the comparator reads of a scalar.  A path is read as its length and
the ids along it. -/
def leafSym : AgtypeValue → Sym
  | .path elems => ⟨1, elems.length :: elems.map pathElemId, []⟩
  | .edge pairs => ⟨2, [entityId pairs], []⟩
  | .vertex pairs => ⟨3, [entityId pairs], []⟩
  | .object _ => .openMap
  | .array _ _ => .openList
  | .string val => ⟨6, [], val⟩
  | .bool val => ⟨7, [if val then 1 else 0], []⟩
  | .integer val => ⟨8, [val.toInt], []⟩
  | .numeric _ => ⟨8, [], []⟩
  | .float _ => ⟨8, [], []⟩
  | .null => ⟨9, [], []⟩

def Token.sym : Token → Sym
  | .key val => ⟨10, [], val⟩
  | .value val => leafSym val
  | .elem val => leafSym val
  | .beginArray _ _ => .openList
  | .endArray => .closing
  | .beginObject _ => .openMap
  | .endObject => .closing

namespace AgtypeValue

/-- The walk of a root container; a raw scalar is the walk of its element. -/
def walk : AgtypeValue → Walk
  | array true [elem] => [leafSym elem]
  | container => container.tokens.map Token.sym

/-- The elements of a path are vertices and edges in turn. -/
def isPathFrom : (vertexNext : Bool) → List AgtypeValue → Bool
  | _, [] => true
  | true, vertex pairs :: rest =>
      (vertexGetId pairs).toBool && isPathFrom false rest
  | false, edge pairs :: rest =>
      (edgeGetId pairs).toBool && isPathFrom true rest
  | _, _ => false

mutual

/-- Well-formed nodes whose numbers are integers: entities have their id, paths
alternate, and no raw scalar is nested. -/
def isWellFormed : AgtypeValue → Bool
  | null => true
  | string _ => true
  | numeric _ => false
  | integer _ => true
  | float _ => false
  | bool _ => true
  | vertex pairs => (vertexGetId pairs).toBool
  | edge pairs => (edgeGetId pairs).toBool
  | path elems => isPathFrom true elems
  | array rawScalar elems => !rawScalar && areWellFormed elems
  | object pairs => areWellFormedPairs pairs

def areWellFormed : List AgtypeValue → Bool
  | [] => true
  | elem :: rest => isWellFormed elem && areWellFormed rest

def areWellFormedPairs : List (Bytes × AgtypeValue) → Bool
  | [] => true
  | (_, value) :: rest => isWellFormed value && areWellFormedPairs rest

end

/-- A root container: a raw scalar holds one scalar. -/
def isWellFormedRoot : AgtypeValue → Bool
  | array true [elem] => elem.isScalar && elem.isWellFormed
  | array true _ => false
  | array false elems => areWellFormed elems
  | object pairs => areWellFormedPairs pairs
  | _ => false

end AgtypeValue

section Leaves

theorem compareInt64_eq (a b : Int64) :
    compareInt64 a b = compareBy a.toInt b.toInt := by
  simp only [compareInt64, compareBy, Int64.toInt_inj, Int64.lt_iff_toInt_lt]

theorem compareBool_eq (a b : Bool) :
    compareBool a b =
      compareBy (if a then 1 else 0 : Int) (if b then 1 else 0) := by
  cases a <;> cases b <;> rfl

theorem toBool_iff {ε α : Type*} {result : Except ε α} :
    result.toBool = true ↔ ∃ value, result = .ok value := by
  cases result <;> simp [Except.toBool]

theorem firstInt_ok {pairs : List AgtypePair} {id : Int64}
    (found : firstInt pairs = .ok id) : entityId pairs = id.toInt := by
  unfold firstInt at found
  split at found
  · injection found with equal
    simp [entityId, equal]
  · cases found

theorem vertexGetId_ok {pairs : List AgtypePair} {id : Int64}
    (found : vertexGetId pairs = .ok id) : entityId pairs = id.toInt := by
  unfold vertexGetId at found
  split_ifs at found
  exact firstInt_ok found

theorem edgeGetId_ok {pairs : List AgtypePair} {id : Int64}
    (found : edgeGetId pairs = .ok id) : entityId pairs = id.toInt := by
  unfold edgeGetId at found
  split_ifs at found
  exact firstInt_ok found

variable (ops : OrderOps)

theorem compareAgtypeScalarValues_vertex {a b : List AgtypePair}
    (aFound : (vertexGetId a).toBool = true)
    (bFound : (vertexGetId b).toBool = true) :
    ops.compareAgtypeScalarValues (.vertex a) (.vertex b) =
      .ok (compareBy (entityId a) (entityId b)) := by
  obtain ⟨aId, aOk⟩ := toBool_iff.mp aFound
  obtain ⟨bId, bOk⟩ := toBool_iff.mp bFound
  simp only [OrderOps.compareAgtypeScalarValues, aOk, bOk, vertexGetId_ok aOk,
    vertexGetId_ok bOk, compareInt64_eq]
  rfl

theorem compareAgtypeScalarValues_edge {a b : List AgtypePair}
    (aFound : (edgeGetId a).toBool = true)
    (bFound : (edgeGetId b).toBool = true) :
    ops.compareAgtypeScalarValues (.edge a) (.edge b) =
      .ok (compareBy (entityId a) (entityId b)) := by
  obtain ⟨aId, aOk⟩ := toBool_iff.mp aFound
  obtain ⟨bId, bOk⟩ := toBool_iff.mp bFound
  simp only [OrderOps.compareAgtypeScalarValues, aOk, bOk, edgeGetId_ok aOk,
    edgeGetId_ok bOk, compareInt64_eq]
  rfl

theorem bind_thenBy {res : Except CompareError Int} {first second : Int}
    {next : Except CompareError Int} (decided : res = .ok first)
    (continued : next = .ok second) :
    (do
      let res ← res
      if res ≠ 0 then return res else next) = .ok (thenBy first second) := by
  subst decided continued
  by_cases zero : first = 0
  · simp [zero, thenBy, bind, Except.bind]
  · simp [zero, thenBy, bind, Except.bind, pure, Except.pure]

/-- Two paths of one length are compared by the ids along them. -/
theorem comparePathElems_eq {vertexNext : Bool} {a b : List AgtypeValue}
    (sameLength : a.length = b.length)
    (aPath : AgtypeValue.isPathFrom vertexNext a = true)
    (bPath : AgtypeValue.isPathFrom vertexNext b = true) :
    ops.comparePathElems a b =
      .ok (compareLists compareBy (a.map pathElemId) (b.map pathElemId)) := by
  induction a generalizing vertexNext b with
  | nil =>
      cases b with
      | nil => rfl
      | cons y ys => simp at sameLength
  | cons x xs inductionHypothesis =>
      cases b with
      | nil => simp at sameLength
      | cons y ys =>
          have tailLength : xs.length = ys.length := by simpa using sameLength
          simp only [OrderOps.comparePathElems, List.map_cons, compareLists]
          cases vertexNext with
          | true =>
              cases x <;> simp only [AgtypeValue.isPathFrom, Bool.and_eq_true,
                Bool.false_eq_true] at aPath
              cases y <;> simp only [AgtypeValue.isPathFrom, Bool.and_eq_true,
                Bool.false_eq_true] at bPath
              exact bind_thenBy
                (compareAgtypeScalarValues_vertex ops aPath.1 bPath.1)
                (inductionHypothesis tailLength aPath.2 bPath.2)
          | false =>
              cases x <;> simp only [AgtypeValue.isPathFrom, Bool.and_eq_true,
                Bool.false_eq_true] at aPath
              cases y <;> simp only [AgtypeValue.isPathFrom, Bool.and_eq_true,
                Bool.false_eq_true] at bPath
              exact bind_thenBy
                (compareAgtypeScalarValues_edge ops aPath.1 bPath.1)
                (inductionHypothesis tailLength aPath.2 bPath.2)

/-- A leaf's rank is its type's priority, moved up to make room below for the
closing symbol. -/
theorem leafSym_rank (v : AgtypeValue) :
    ((leafSym v).rank : Int) = getTypeSortPriority v.type + 1 := by
  cases v <;> rfl

theorem type_eq_of_priority {v w : AgtypeValue} (vFormed : v.isWellFormed = true)
    (wFormed : w.isWellFormed = true)
    (same : getTypeSortPriority v.type = getTypeSortPriority w.type) :
    v.type = w.type := by
  cases v <;> cases w <;>
    simp_all [AgtypeValue.isWellFormed, AgtypeValue.type, getTypeSortPriority]

theorem compareLeaves_of_type_ne {v w : AgtypeValue}
    (vFormed : v.isWellFormed = true) (wFormed : w.isWellFormed = true)
    (different : v.type ≠ w.type) :
    ops.compareLeaves v w =
      .ok (Sym.compare ops.compareStrings (leafSym v) (leafSym w)) := by
  have notNumbers : ¬(isNumberType v.type ∧ isNumberType w.type) := by
    cases v <;> cases w <;>
      simp_all [AgtypeValue.isWellFormed, AgtypeValue.type, isNumberType]
  have ranks : (leafSym v).rank ≠ (leafSym w).rank := by
    intro equal
    have vRank := leafSym_rank v
    have wRank := leafSym_rank w
    exact different (type_eq_of_priority vFormed wFormed (by omega))
  have vRank := leafSym_rank v
  have wRank := leafSym_rank w
  rw [OrderOps.compareLeaves, if_neg (by simp [different, notNumbers])]
  rcases Nat.lt_or_gt_of_ne ranks with less | greater
  · rw [Sym.compare_of_rank_lt less, typeDefinedOrder, if_pos (by omega)]
  · rw [Sym.compare_of_rank_gt greater, typeDefinedOrder, if_neg (by omega)]

/-- A well-formed leaf is compared as its symbol. -/
theorem compareLeaves_eq (lawful : ThreeWay ops.compareStrings)
    {v w : AgtypeValue} (vFormed : v.isWellFormed = true)
    (wFormed : w.isWellFormed = true) (vScalar : v.isScalar = true) :
    ops.compareLeaves v w =
      .ok (Sym.compare ops.compareStrings (leafSym v) (leafSym w)) := by
  by_cases same : v.type = w.type
  · rw [OrderOps.compareLeaves, if_pos (.inl same)]
    have noText := lawful.self []
    have singletons (i j : Int) (rank : Nat) :
        Sym.compare ops.compareStrings ⟨rank, [i], []⟩ ⟨rank, [j], []⟩ =
          compareBy i j := by
      by_cases equal : i = j
      · simp [Sym.compare, compareBy, compareLists, equal, noText]
      · have decided := (ThreeWay.compareBy (α := Int)).ne_zero equal
        rw [Sym.compare, ThreeWay.compareBy.self, thenBy_zero, compareLists,
          thenBy_of_ne decided, thenBy_of_ne decided]
    cases v with
    | null =>
        cases w <;> cases same
        simp [OrderOps.compareAgtypeScalarValues, leafSym, Sym.compare,
          compareLists, compareBy, noText]
    | string a =>
        cases w <;> cases same
        simp [OrderOps.compareAgtypeScalarValues, leafSym, Sym.compare,
          compareLists, compareBy]
    | numeric a => cases vFormed
    | float a => cases vFormed
    | integer a =>
        cases w <;> cases same
        simp only [OrderOps.compareAgtypeScalarValues, leafSym, singletons,
          compareInt64_eq]
    | bool a =>
        cases w <;> cases same
        simp only [OrderOps.compareAgtypeScalarValues, leafSym, singletons,
          compareBool_eq]
    | vertex a =>
        cases w <;> cases same
        rw [compareAgtypeScalarValues_vertex ops vFormed wFormed]
        simp only [leafSym, singletons]
    | edge a =>
        cases w <;> cases same
        rw [compareAgtypeScalarValues_edge ops vFormed wFormed]
        simp only [leafSym, singletons]
    | path a =>
        cases w <;> cases same
        rename_i b
        rw [OrderOps.compareAgtypeScalarValues]
        by_cases lengths : a.length = b.length
        · rw [if_neg (by simp [lengths]),
            comparePathElems_eq ops lengths vFormed wFormed]
          simp [leafSym, Sym.compare, compareLists, lengths,
            ThreeWay.compareBy.self, noText, thenBy]
        · have decided : compareBy (a.length : Int) b.length ≠ 0 :=
            ThreeWay.compareBy.ne_zero (by exact_mod_cast lengths)
          rw [if_pos lengths, leafSym, leafSym, Sym.compare,
            ThreeWay.compareBy.self, thenBy_zero, compareLists,
            thenBy_of_ne decided, thenBy_of_ne decided]
          simp [compareBy, lengths]
    | array rawScalar elems => cases vScalar
    | object pairs => cases vScalar
  · exact compareLeaves_of_type_ne ops vFormed wFormed same

end Leaves

section Streams

/-- Where the iterator stands in a container it has entered, or before the
root. -/
inductive Frame where
  | root | array | key | value
  deriving DecidableEq, Repr

/-- The frame once the node in this frame is read. -/
def Frame.next : Frame → List Frame
  | root => []
  | array => [array]
  | value => [key]
  | key => []

/-- A token that may be read in a frame, and the frames that replace it. -/
inductive Reads : Frame → Token → List Frame → Prop where
  | elem {v : AgtypeValue} : v.isScalar = true → v.isWellFormed = true →
      Reads .array (.elem v) [.array]
  | value {v : AgtypeValue} : v.isScalar = true → v.isWellFormed = true →
      Reads .value (.value v) [.key]
  | key {k : Bytes} : Reads .key (.key k) [.value]
  | beginArray {frame : Frame} {n : Nat} : frame ≠ .key →
      Reads frame (.beginArray false n) (.array :: frame.next)
  | beginObject {frame : Frame} {n : Nat} : frame ≠ .key →
      Reads frame (.beginObject n) (.key :: frame.next)
  | endArray : Reads .array .endArray []
  | endObject : Reads .key .endObject []

/-- The rest of a token stream, given the frames the iterator is inside of. -/
inductive Streams : List Frame → List Token → Prop where
  | done : Streams [] []
  | read {frame : Frame} {frames stack : List Frame} {token : Token}
      {rest : List Token} : Reads frame token frames →
      Streams (frames ++ stack) rest → Streams (frame :: stack) (token :: rest)

open AgtypeValue

/-- A node is read as a whole, in an array and in an object. -/
def NodeStreams (v : AgtypeValue) : Prop :=
  (∀ stack rest, Streams (.array :: stack) rest →
    Streams (.array :: stack) (nodeTokens .elem v ++ rest)) ∧
  (∀ stack rest, Streams (.key :: stack) rest →
    Streams (.value :: stack) (nodeTokens .value v ++ rest))

theorem nodeStreams_scalar {v : AgtypeValue} (scalar : v.isScalar = true)
    (formed : v.isWellFormed = true) : NodeStreams v := by
  simp only [NodeStreams, nodeTokens_scalar _ scalar]
  exact ⟨fun stack rest after => .read (.elem scalar formed) after,
    fun stack rest after => .read (.value scalar formed) after⟩

theorem streams_elemTokens {elems : List AgtypeValue}
    (nodes : ∀ elem ∈ elems, elem.isWellFormed = true → NodeStreams elem)
    (formed : areWellFormed elems = true) {stack : List Frame} {rest : List Token}
    (after : Streams (.array :: stack) rest) :
    Streams (.array :: stack) (elemTokens elems ++ rest) := by
  induction elems with
  | nil => exact after
  | cons elem others inductionHypothesis =>
      simp only [areWellFormed, Bool.and_eq_true] at formed
      rw [elemTokens, List.append_assoc]
      refine (nodes elem (by simp) formed.1).1 _ _ ?_
      exact inductionHypothesis
        (fun other membership => nodes other (by simp [membership])) formed.2

theorem streams_pairTokens {pairs : List AgtypePair}
    (nodes : ∀ pair ∈ pairs, pair.2.isWellFormed = true → NodeStreams pair.2)
    (formed : areWellFormedPairs pairs = true) {stack : List Frame}
    {rest : List Token} (after : Streams (.key :: stack) rest) :
    Streams (.key :: stack) (pairTokens pairs ++ rest) := by
  induction pairs with
  | nil => exact after
  | cons pair others inductionHypothesis =>
      obtain ⟨key, value⟩ := pair
      simp only [areWellFormedPairs, Bool.and_eq_true] at formed
      simp only [pairTokens, List.cons_append, List.append_assoc]
      refine .read .key ((nodes (key, value) (by simp) formed.1).2 _ _ ?_)
      exact inductionHypothesis
        (fun other membership => nodes other (by simp [membership])) formed.2

theorem nodeStreams_of_wellFormed (v : AgtypeValue)
    (formed : v.isWellFormed = true) : NodeStreams v := by
  induction v using AgtypeValue.inductionOn with
  | null => exact nodeStreams_scalar rfl formed
  | string val => exact nodeStreams_scalar rfl formed
  | numeric val => exact nodeStreams_scalar rfl formed
  | integer val => exact nodeStreams_scalar rfl formed
  | float val => exact nodeStreams_scalar rfl formed
  | bool val => exact nodeStreams_scalar rfl formed
  | vertex pairs _ => exact nodeStreams_scalar rfl formed
  | edge pairs _ => exact nodeStreams_scalar rfl formed
  | path elems _ => exact nodeStreams_scalar rfl formed
  | array rawScalar elems nodes =>
      simp only [isWellFormed, Bool.and_eq_true, Bool.not_eq_true'] at formed
      rw [formed.1]
      refine ⟨fun stack rest after => ?_, fun stack rest after => ?_⟩ <;>
        simp only [nodeTokens, List.cons_append, List.append_assoc]
      · exact .read (.beginArray (by simp))
          (streams_elemTokens nodes formed.2 (.read .endArray after))
      · exact .read (.beginArray (by simp))
          (streams_elemTokens nodes formed.2 (.read .endArray after))
  | object pairs nodes =>
      rw [isWellFormed] at formed
      refine ⟨fun stack rest after => ?_, fun stack rest after => ?_⟩ <;>
        simp only [nodeTokens, List.cons_append, List.append_assoc]
      · exact .read (.beginObject (by simp))
          (streams_pairTokens nodes formed (.read .endObject after))
      · exact .read (.beginObject (by simp))
          (streams_pairTokens nodes formed (.read .endObject after))

/-- The stream of a root container that is no raw scalar. -/
theorem streams_tokens {v : AgtypeValue} (formed : v.isWellFormed = true)
    (container : v.isScalar = false) : Streams [.root] v.tokens := by
  cases v <;> cases container
  case array rawScalar elems =>
    simp only [isWellFormed, Bool.and_eq_true, Bool.not_eq_true'] at formed
    rw [tokens, nodeTokens, formed.1]
    exact .read (.beginArray (by simp))
      (streams_elemTokens (fun elem _ => nodeStreams_of_wellFormed elem) formed.2
        (.read .endArray .done))
  case object pairs =>
    rw [isWellFormed] at formed
    rw [tokens, nodeTokens]
    exact .read (.beginObject (by simp))
      (streams_pairTokens (fun pair _ => nodeStreams_of_wellFormed pair.2) formed
        (.read .endObject .done))

theorem leafSym_rank_scalar {v : AgtypeValue} (scalar : v.isScalar = true) :
    0 < (leafSym v).rank ∧ (leafSym v).rank ≠ 4 ∧ (leafSym v).rank ≠ 5 ∧
      (leafSym v).rank < 10 := by
  cases v <;> simp [leafSym, isScalar] at scalar ⊢

theorem Reads.proper {frame : Frame} {frames : List Frame} {token : Token}
    (reads : Reads frame token frames) : token.sym.Proper := by
  cases reads with
  | elem scalar formed =>
      have ranks := leafSym_rank_scalar scalar
      constructor <;> intro rank <;> simp only [Token.sym] at rank <;> omega
  | value scalar formed =>
      have ranks := leafSym_rank_scalar scalar
      constructor <;> intro rank <;> simp only [Token.sym] at rank <;> omega
  | key => constructor <;> simp [Token.sym]
  | beginArray _ => constructor <;> simp [Token.sym, Sym.openList]
  | beginObject _ => constructor <;> simp [Token.sym, Sym.openMap]
  | endArray => constructor <;> simp [Token.sym, Sym.closing]
  | endObject => constructor <;> simp [Token.sym, Sym.closing]

theorem Streams.proper {stack : List Frame} {tokens : List Token}
    (streams : Streams stack tokens) : Walk.Proper (tokens.map Token.sym) := by
  induction streams with
  | done => simp [Walk.Proper]
  | read reads _ inductionHypothesis =>
      intro s membership
      rcases List.mem_cons.mp membership with rfl | later
      · exact reads.proper
      · exact inductionHypothesis s later

/-- In one frame, tokens that read the same are followed by the same frames. -/
theorem Reads.frames_eq {frame : Frame} {framesA framesB : List Frame}
    {ra rb : Token} (readsA : Reads frame ra framesA)
    (readsB : Reads frame rb framesB) (same : ra.sym = rb.sym) :
    framesA = framesB := by
  have ranks := congrArg Sym.rank same
  cases readsA <;> cases readsB <;> try rfl
  all_goals
    simp only [Token.sym, Sym.openList, Sym.openMap, Sym.closing] at ranks
    try have scalarRanks := leafSym_rank_scalar (by assumption)
    omega

variable (ops : OrderOps)

/-- Two tokens of which at least one carries a scalar or opens a container are
ordered by their ranks, where that is no list against a map. -/
theorem compareTokens_of_types {ra rb : Token} {restA restB : List Token}
    {va vb : AgtypeValueType} (aType : ra.valType? = some va)
    (bType : rb.valType? = some vb)
    (decided : ops.compareTokens ra rb restA restB = (do
      let (va, vb) ← OrderOps.correctedTypes ra rb restA restB
      return typeDefinedOrder va vb))
    (aRank : (ra.sym.rank : Int) = getTypeSortPriority va + 1)
    (bRank : (rb.sym.rank : Int) = getTypeSortPriority vb + 1)
    (different : ra.sym.rank ≠ rb.sym.rank)
    (plain : ¬(ra.sym.rank = 5 ∧ rb.sym.rank = 4) ∧
      ¬(ra.sym.rank = 4 ∧ rb.sym.rank = 5)) :
    ops.compareTokens ra rb restA restB =
      .ok (Sym.compare ops.compareStrings ra.sym rb.sym) := by
  have corrected : OrderOps.correctedTypes ra rb restA restB = .ok (va, vb) := by
    unfold OrderOps.correctedTypes
    rw [aType, bType]
    cases va <;> cases vb <;> simp_all [getTypeSortPriority] <;> omega
  rw [decided, corrected]
  change Except.ok (typeDefinedOrder va vb) = _
  rcases Nat.lt_or_gt_of_ne different with less | greater
  · rw [Sym.compare_of_rank_lt less, typeDefinedOrder, if_pos (by omega)]
  · rw [Sym.compare_of_rank_gt greater, typeDefinedOrder, if_neg (by omega)]

/-- One turn of the loop compares the symbols, where no list stands against a
map. -/
theorem compareTokens_eq (lawful : ThreeWay ops.compareStrings) {frame : Frame}
    {framesA framesB : List Frame} {ra rb : Token} {x y : List Token}
    (readsA : Reads frame ra framesA) (readsB : Reads frame rb framesB)
    (plain : ¬Walk.Mixed ra.sym rb.sym) :
    ops.compareTokens ra rb x y =
      .ok (Sym.compare ops.compareStrings ra.sym rb.sym) := by
  have order := Sym.threeWay_compare lawful
  have ranks : ¬(ra.sym.rank = 5 ∧ rb.sym.rank = 4) ∧
      ¬(ra.sym.rank = 4 ∧ rb.sym.rank = 5) := by
    refine ⟨fun both => plain (.inl ?_), fun both => plain (.inr ?_)⟩
    · exact ⟨readsA.proper.openList both.1, readsB.proper.openMap both.2⟩
    · exact ⟨readsA.proper.openMap both.1, readsB.proper.openList both.2⟩
  cases readsA with
  | @elem v vScalar vFormed =>
      have vRanks := leafSym_rank_scalar vScalar
      cases readsB with
      | elem wScalar wFormed => exact compareLeaves_eq ops lawful vFormed wFormed vScalar
      | beginArray _ =>
          exact compareTokens_of_types ops rfl rfl rfl (leafSym_rank v) rfl
            vRanks.2.2.1 ranks
      | beginObject _ =>
          exact compareTokens_of_types ops rfl rfl rfl (leafSym_rank v) rfl
            vRanks.2.1 ranks
      | endArray =>
          rw [Sym.compare_of_rank_gt vRanks.1]
          rfl
  | @value v vScalar vFormed =>
      have vRanks := leafSym_rank_scalar vScalar
      cases readsB with
      | value wScalar wFormed => exact compareLeaves_eq ops lawful vFormed wFormed vScalar
      | beginArray _ =>
          exact compareTokens_of_types ops rfl rfl rfl (leafSym_rank v) rfl
            vRanks.2.2.1 ranks
      | beginObject _ =>
          exact compareTokens_of_types ops rfl rfl rfl (leafSym_rank v) rfl
            vRanks.2.1 ranks
  | key =>
      cases readsB with
      | key => simp [OrderOps.compareTokens, Token.sym, Sym.compare, compareBy, compareLists]
      | beginArray notKey => exact absurd rfl notKey
      | beginObject notKey => exact absurd rfl notKey
      | endObject => rfl
  | beginArray notKey =>
      cases readsB with
      | @elem w wScalar wFormed =>
          exact compareTokens_of_types ops rfl rfl rfl rfl (leafSym_rank w)
            (Ne.symm (leafSym_rank_scalar wScalar).2.2.1) ranks
      | @value w wScalar wFormed =>
          exact compareTokens_of_types ops rfl rfl rfl rfl (leafSym_rank w)
            (Ne.symm (leafSym_rank_scalar wScalar).2.2.1) ranks
      | key => exact absurd rfl notKey
      | beginArray _ => rw [Token.sym, Token.sym, order.self]; rfl
      | beginObject _ => exact absurd (.inl ⟨rfl, rfl⟩) plain
      | endArray => rfl
      | endObject => exact absurd rfl notKey
  | beginObject notKey =>
      cases readsB with
      | @elem w wScalar wFormed =>
          exact compareTokens_of_types ops rfl rfl rfl rfl (leafSym_rank w)
            (Ne.symm (leafSym_rank_scalar wScalar).2.1) ranks
      | @value w wScalar wFormed =>
          exact compareTokens_of_types ops rfl rfl rfl rfl (leafSym_rank w)
            (Ne.symm (leafSym_rank_scalar wScalar).2.1) ranks
      | key => exact absurd rfl notKey
      | beginArray _ => exact absurd (.inr ⟨rfl, rfl⟩) plain
      | beginObject _ => rw [Token.sym, Token.sym, order.self]; rfl
      | endArray => rfl
      | endObject => exact absurd rfl notKey
  | endArray =>
      cases readsB with
      | elem wScalar wFormed =>
          rw [Sym.compare_of_rank_lt (leafSym_rank_scalar wScalar).1]
          rfl
      | beginArray _ => rfl
      | beginObject _ => rfl
      | endArray => rw [order.self]; rfl
  | endObject =>
      cases readsB with
      | key => rfl
      | beginArray notKey => exact absurd rfl notKey
      | beginObject notKey => exact absurd rfl notKey
      | endObject => rw [order.self]; rfl

/-- The type an opened array is read as is the rank of what comes first. -/
theorem advancedType_rank {stack : List Frame} {rest : List Token}
    (streams : Streams (.array :: stack) rest) :
    getTypeSortPriority (advancedType rest) + 1 =
      Walk.headRank (rest.map Token.sym) := by
  cases streams with
  | read reads _ =>
      cases reads with
      | @elem v scalar formed =>
          have ranks := leafSym_rank_scalar scalar
          simp only [List.map_cons, Walk.headRank, Token.sym, if_neg ranks.1.ne',
            leafSym_rank]
          rfl
      | beginArray _ => rfl
      | beginObject _ => rfl
      | endArray => rfl

theorem compareLoop_of_decided {ra rb : Token} {restA restB : List Token} {res : Int}
    (decided : ops.compareTokens ra rb restA restB = .ok res) (nonzero : res ≠ 0) :
    ops.compareLoop (ra :: restA) (rb :: restB) = .ok res := by
  simp [OrderOps.compareLoop, decided, bind, Except.bind, nonzero, pure, Except.pure]

theorem compareLoop_array_object {n m : Nat} {stackA stackB : List Frame}
    {restA restB : List Token} (streams : Streams (.array :: stackA) restA)
    (_ : Streams (.key :: stackB) restB) :
    ops.compareLoop (.beginArray false n :: restA) (.beginObject m :: restB) =
      .ok (Walk.compare ops.compareStrings
        ((Token.beginArray false n :: restA).map Token.sym)
        ((Token.beginObject m :: restB).map Token.sym)) := by
  have turn : ops.compareTokens (.beginArray false n) (.beginObject m) restA restB =
      .ok (typeDefinedOrder (advancedType restA) .object) := rfl
  rw [compareLoop_of_decided ops turn (typeDefinedOrder_ne_zero _ _)]
  simp only [List.map_cons, Token.sym, Walk.compare_openList_openMap]
  have rank := advancedType_rank streams
  congr 1
  have priority : getTypeSortPriority .object = 3 := rfl
  simp only [typeDefinedOrder, priority]
  split_ifs <;> omega

theorem compareLoop_object_array {n m : Nat} {stackA stackB : List Frame}
    {restA restB : List Token} (_ : Streams (.key :: stackA) restA)
    (streams : Streams (.array :: stackB) restB) :
    ops.compareLoop (.beginObject n :: restA) (.beginArray false m :: restB) =
      .ok (Walk.compare ops.compareStrings
        ((Token.beginObject n :: restA).map Token.sym)
        ((Token.beginArray false m :: restB).map Token.sym)) := by
  have turn : ops.compareTokens (.beginObject n) (.beginArray false m) restA restB =
      .ok (typeDefinedOrder .object (advancedType restB)) := rfl
  rw [compareLoop_of_decided ops turn (typeDefinedOrder_ne_zero _ _)]
  simp only [List.map_cons, Token.sym, Walk.compare_openMap_openList]
  have rank := advancedType_rank streams
  congr 1
  have priority : getTypeSortPriority .object = 3 := rfl
  simp only [typeDefinedOrder, priority]
  split_ifs <;> omega

/-- A list against a map, wherever the two iterators stand. -/
theorem Reads.mixed_cases {frame : Frame} {framesA framesB : List Frame}
    {ra rb : Token} (readsA : Reads frame ra framesA)
    (readsB : Reads frame rb framesB) (mixed : Walk.Mixed ra.sym rb.sym) :
    (∃ n m stackA stackB, ra = .beginArray false n ∧ framesA = .array :: stackA ∧
      rb = .beginObject m ∧ framesB = .key :: stackB) ∨
    (∃ n m stackA stackB, ra = .beginObject n ∧ framesA = .key :: stackA ∧
      rb = .beginArray false m ∧ framesB = .array :: stackB) := by
  have ranks : (ra.sym.rank = 5 ∧ rb.sym.rank = 4) ∨
      (ra.sym.rank = 4 ∧ rb.sym.rank = 5) := by
    rcases mixed with ⟨aSym, bSym⟩ | ⟨aSym, bSym⟩
    · exact .inl ⟨congrArg Sym.rank aSym, congrArg Sym.rank bSym⟩
    · exact .inr ⟨congrArg Sym.rank aSym, congrArg Sym.rank bSym⟩
  cases readsA <;> cases readsB <;>
    first
    | exact .inl ⟨_, _, _, _, rfl, rfl, rfl, rfl⟩
    | exact .inr ⟨_, _, _, _, rfl, rfl, rfl, rfl⟩
    | (simp only [Token.sym, Sym.openList, Sym.openMap, Sym.closing] at ranks
       try have scalarRanks := leafSym_rank_scalar (by assumption)
       omega)

/-- The loop compares the walks of the two streams. -/
theorem compareLoop_eq (lawful : ThreeWay ops.compareStrings)
    {stack : List Frame} {a b : List Token} (streamsA : Streams stack a)
    (streamsB : Streams stack b) :
    ops.compareLoop a b = .ok (Walk.compare ops.compareStrings
      (a.map Token.sym) (b.map Token.sym)) := by
  induction streamsA generalizing b with
  | done =>
      cases streamsB
      rfl
  | @read frame framesA stack ra restA readsA afterA inductionHypothesis =>
      cases streamsB with
      | @read _ framesB _ rb restB readsB afterB =>
          by_cases mixed : Walk.Mixed ra.sym rb.sym
          · rcases readsA.mixed_cases readsB mixed with
              ⟨n, m, stackA, stackB, rfl, rfl, rfl, rfl⟩ |
              ⟨n, m, stackA, stackB, rfl, rfl, rfl, rfl⟩
            · exact compareLoop_array_object ops afterA afterB
            · exact compareLoop_object_array ops afterA afterB
          · have turn := compareTokens_eq ops lawful (x := restA)
              (y := restB) readsA readsB mixed
            rw [List.map_cons, List.map_cons,
              Walk.compare_of_not_mixed readsA.proper readsB.proper mixed]
            by_cases same : ra.sym = rb.sym
            · rw [readsA.frames_eq readsB same] at inductionHypothesis
              exact bind_thenBy turn (inductionHypothesis afterB)
            · have decided := (Sym.threeWay_compare lawful).ne_zero same
              rw [thenBy_of_ne decided]
              exact compareLoop_of_decided ops turn decided

end Streams

section Containers

open AgtypeValue

variable (ops : OrderOps)

/-- A container is a raw scalar, an array or an object. -/
theorem root_cases {v : AgtypeValue} (formed : v.isWellFormedRoot = true) :
    (∃ elem, v = array true [elem] ∧ elem.isScalar = true ∧
      elem.isWellFormed = true) ∨
    (v.isWellFormed = true ∧ v.isScalar = false ∧
      (v.walk = v.tokens.map Token.sym) ∧ ∀ elems, v ≠ array true elems) := by
  unfold isWellFormedRoot at formed
  split at formed
  · simp only [Bool.and_eq_true] at formed
    exact .inl ⟨_, rfl, formed.1, formed.2⟩
  · cases formed
  · exact .inr ⟨by simpa [isWellFormed] using formed, rfl, rfl, by simp⟩
  · exact .inr ⟨by simpa [isWellFormed] using formed, rfl, rfl, by simp⟩
  · cases formed

theorem walk_proper {v : AgtypeValue} (formed : v.isWellFormedRoot = true) :
    Walk.Proper v.walk := by
  rcases root_cases formed with ⟨elem, rfl, scalar, elemFormed⟩ |
    ⟨formed, container, walkEq, _⟩
  · intro s membership
    rw [walk, List.mem_singleton] at membership
    exact membership ▸ (Reads.elem scalar elemFormed).proper
  · rw [walkEq]
    exact (streams_tokens formed container).proper

theorem compare_singletons {s t : Sym} (sProper : s.Proper) (tProper : t.Proper) (plain : ¬Walk.Mixed s t) :
    Walk.compare ops.compareStrings [s] [t] = Sym.compare ops.compareStrings s t := by
  rw [Walk.compare_of_not_mixed sProper tProper plain]
  by_cases zero : Sym.compare ops.compareStrings s t = 0
  · simp [zero, Walk.compare]
  · exact thenBy_of_ne zero _

/-- A raw scalar against an array or an object. -/
theorem compare_raw_container {elem v : AgtypeValue} (scalar : elem.isScalar = true)
    (formed : v.isWellFormed = true) (container : v.isScalar = false) :
    ops.compareLoop (array true [elem]).tokens v.tokens =
        .ok (Walk.compare ops.compareStrings [leafSym elem] (v.tokens.map Token.sym)) ∧
      ops.compareLoop v.tokens (array true [elem]).tokens =
        .ok (Walk.compare ops.compareStrings (v.tokens.map Token.sym) [leafSym elem]) := by
  have ranks := leafSym_rank_scalar scalar
  have rank := leafSym_rank elem
  have arrayPriority : getTypeSortPriority .array = 4 := rfl
  have objectPriority : getTypeSortPriority .object = 3 := rfl
  have rawTokens : (array true [elem]).tokens =
      [.beginArray true 1, .elem elem, .endArray] := by
    simp [tokens, nodeTokens, elemTokens, nodeTokens_scalar _ scalar]
  rw [rawTokens]
  have decide (s : Sym) (isOpen : s = .openMap ∨ s = .openList) (rest : Walk) :
      Walk.compare ops.compareStrings [leafSym elem] (s :: rest) =
          (if (leafSym elem).rank < s.rank then -1 else 1) ∧
        Walk.compare ops.compareStrings (s :: rest) [leafSym elem] =
          (if s.rank < (leafSym elem).rank then -1 else 1) := by
    have sRank : s.rank = 4 ∨ s.rank = 5 := by
      rcases isOpen with rfl | rfl <;> simp [Sym.openMap, Sym.openList]
    rcases Nat.lt_or_gt_of_ne (show (leafSym elem).rank ≠ s.rank by omega) with
      less | greater
    · rw [Walk.compare_of_rank_lt less (by omega), Walk.compare_of_rank_gt less (by omega),
        if_pos less, if_neg (by omega)]
      exact ⟨rfl, rfl⟩
    · rw [Walk.compare_of_rank_gt greater (by omega),
        Walk.compare_of_rank_lt greater (by omega), if_neg (by omega), if_pos greater]
      exact ⟨rfl, rfl⟩
  cases v <;> cases container
  case array rawScalar elems =>
    simp only [isWellFormed, Bool.and_eq_true, Bool.not_eq_true'] at formed
    rw [formed.1, tokens, nodeTokens]
    have left : ops.compareTokens (.beginArray true 1) (.beginArray false elems.length)
        [.elem elem, .endArray] (elemTokens elems ++ [.endArray]) =
          .ok (typeDefinedOrder elem.type .array) := rfl
    have right : ops.compareTokens (.beginArray false elems.length) (.beginArray true 1)
        (elemTokens elems ++ [.endArray]) [.elem elem, .endArray] =
          .ok (typeDefinedOrder .array elem.type) := rfl
    rw [compareLoop_of_decided ops left (typeDefinedOrder_ne_zero _ _),
      compareLoop_of_decided ops right (typeDefinedOrder_ne_zero _ _)]
    have walks := decide .openList (.inr rfl)
      ((elemTokens elems ++ [Token.endArray]).map Token.sym)
    simp only [List.map_cons, Token.sym, walks, typeDefinedOrder, arrayPriority]
    have listRank : Sym.openList.rank = 5 := rfl
    constructor <;> congr 1 <;> split_ifs <;> omega
  case object pairs =>
    rw [tokens, nodeTokens]
    have left : ops.compareTokens (.beginArray true 1) (.beginObject pairs.length)
        [.elem elem, .endArray] (pairTokens pairs ++ [.endObject]) =
          .ok (typeDefinedOrder elem.type .object) := rfl
    have right : ops.compareTokens (.beginObject pairs.length) (.beginArray true 1)
        (pairTokens pairs ++ [.endObject]) [.elem elem, .endArray] =
          .ok (typeDefinedOrder .object elem.type) := rfl
    rw [compareLoop_of_decided ops left (typeDefinedOrder_ne_zero _ _),
      compareLoop_of_decided ops right (typeDefinedOrder_ne_zero _ _)]
    have walks := decide .openMap (.inl rfl)
      ((pairTokens pairs ++ [Token.endObject]).map Token.sym)
    simp only [List.map_cons, Token.sym, walks, typeDefinedOrder, objectPriority]
    have mapRank : Sym.openMap.rank = 4 := rfl
    constructor <;> congr 1 <;> split_ifs <;> omega

/-- The comparator compares walks. -/
theorem compareAgtypeContainersOrderability_eq (lawful : ThreeWay ops.compareStrings)
    {a b : AgtypeValue} (aFormed : a.isWellFormedRoot = true)
    (bFormed : b.isWellFormedRoot = true) :
    ops.compareAgtypeContainersOrderability a b =
      .ok (Walk.compare ops.compareStrings a.walk b.walk) := by
  rcases root_cases aFormed with ⟨x, rfl, xScalar, xFormed⟩ | ⟨aFormed, aContainer, aWalk, aNotRaw⟩ <;>
    rcases root_cases bFormed with ⟨y, rfl, yScalar, yFormed⟩ | ⟨bFormed, bContainer, bWalk, bNotRaw⟩
  · have xRanks := leafSym_rank_scalar xScalar
    have plain : ¬Walk.Mixed (leafSym x) (leafSym y) := fun mixed => by
      have := mixed.rank
      omega
    rw [walk, walk, compare_singletons ops (s := leafSym x) (t := leafSym y)
      (Reads.elem xScalar xFormed).proper (Reads.elem yScalar yFormed).proper plain]
    exact compareLeaves_eq ops lawful xFormed yFormed xScalar
  · rw [bWalk, OrderOps.compareAgtypeContainersOrderability]
    · exact (compare_raw_container ops xScalar bFormed bContainer).1
    · exact fun _ elems _ => bNotRaw elems
  · rw [aWalk, OrderOps.compareAgtypeContainersOrderability]
    · exact (compare_raw_container ops yScalar aFormed aContainer).2
    · exact fun elems _ equal _ => aNotRaw elems equal
  · rw [aWalk, bWalk, OrderOps.compareAgtypeContainersOrderability]
    · exact compareLoop_eq ops lawful (streams_tokens aFormed aContainer)
        (streams_tokens bFormed bContainer)
    · exact fun elems _ equal _ => aNotRaw elems equal

/-- The laws of a total preorder, for three containers in this order: the
comparator answers, `a` equals itself, exchanging `a` and `b` reverses the
sign, and `a ≤ b ≤ c` gives `a ≤ c`. -/
def OrderLaws (a b c : AgtypeValue) : Prop :=
  ops.compareAgtypeContainersOrderability a a = .ok 0 ∧
  ∃ ab ba bc ac,
    ops.compareAgtypeContainersOrderability a b = .ok ab ∧
    ops.compareAgtypeContainersOrderability b a = .ok ba ∧
    ops.compareAgtypeContainersOrderability b c = .ok bc ∧
    ops.compareAgtypeContainersOrderability a c = .ok ac ∧
    ab.sign = -ba.sign ∧ (ab ≤ 0 → bc ≤ 0 → ac ≤ 0)

/-- The comparator keeps the laws of a total preorder exactly for the containers
whose walks are neither entangled nor cyclic.  The default collation is
deterministic, so `varstr_cmp` decides a linear order of the strings. -/
theorem orderLaws_iff_not_entangled_not_cyclic (collation : ThreeWay ops.varstrCmp)
    {a b c : AgtypeValue} (aFormed : a.isWellFormedRoot = true)
    (bFormed : b.isWellFormedRoot = true) (cFormed : c.isWellFormedRoot = true) :
    OrderLaws ops a b c ↔
      ¬Walk.Entangled a.walk b.walk ∧ ¬Walk.Cyclic a.walk b.walk c.walk := by
  have lawful : ThreeWay ops.compareStrings := collation.normalize
  have swap := Walk.sign_swap_iff lawful (walk_proper aFormed) (walk_proper bFormed)
  have trans := Walk.transitiveOn_iff lawful (walk_proper aFormed)
    (walk_proper bFormed) (walk_proper cFormed)
  rw [← swap, ← trans]
  simp only [OrderLaws, compareAgtypeContainersOrderability_eq ops lawful aFormed aFormed,
    compareAgtypeContainersOrderability_eq ops lawful aFormed bFormed,
    compareAgtypeContainersOrderability_eq ops lawful bFormed aFormed,
    compareAgtypeContainersOrderability_eq ops lawful bFormed cFormed,
    compareAgtypeContainersOrderability_eq ops lawful aFormed cFormed,
    Walk.compare_self lawful, Except.ok.injEq, true_and, exists_and_left,
    exists_eq_left', Walk.TransitiveOn]

/-- Three arrays of integers under the C collation. -/
theorem orderLaws_integer_arrays :
    OrderLaws Server.orderOps (array false [integer 1]) (array false [integer 2])
      (array false [integer 2, null]) := by
  refine (orderLaws_iff_not_entangled_not_cyclic Server.orderOps
    threeWay_memcmp rfl rfl rfl).mpr ⟨?_, ?_⟩
  · rw [← Walk.sign_swap_iff threeWay_memcmp (walk_proper rfl) (walk_proper rfl)]
    decide
  · rw [← Walk.transitiveOn_iff threeWay_memcmp (walk_proper rfl)
      (walk_proper rfl) (walk_proper rfl), Walk.TransitiveOn]
    decide

/-- An array that holds a map is above the map, and the map is above it. -/
theorem not_orderLaws_map_in_array :
    (array false [object []]).isWellFormedRoot = true ∧
      (object []).isWellFormedRoot = true ∧
      ¬OrderLaws Server.orderOps (array false [object []]) (object []) (object []) := by
  refine ⟨rfl, rfl, ?_⟩
  rintro ⟨_, ab, ba, bc, ac, abEq, baEq, _, _, swap, _⟩
  have first : Server.orderOps.compareAgtypeContainersOrderability
      (array false [object []]) (object []) = .ok 1 := rfl
  have second : Server.orderOps.compareAgtypeContainersOrderability
      (object []) (array false [object []]) = .ok 1 := rfl
  cases first.symm.trans abEq
  cases second.symm.trans baEq
  exact absurd swap (by decide)

end Containers

end Age.Agtype
