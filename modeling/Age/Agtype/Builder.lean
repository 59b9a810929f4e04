import Age.Agtype.Token
import Age.Lib.ThreeWay

/-!
# Building values from tokens

`push_agtype_value` grows a stack of open containers.  Closing an object sorts
its pairs by key and keeps, among the pairs of one key, the one pushed last.
-/

namespace Age.Agtype

open Lib

/-- `AGTYPE_MAX_ELEMS`: `MaxAllocSize / sizeof(agtype_value)` -/
def agtypeMaxElems : Nat := min (0x3fffffff / 32) 0x0FFFFFFF

/-- `AGTYPE_MAX_PAIRS`: `MaxAllocSize / sizeof(agtype_pair)` -/
def agtypeMaxPairs : Nat := min (0x3fffffff / 72) 0x0FFFFFFF

section Keys

/-- Keys are sorted by length first, and by their bytes only then. -/
def lengthCompareAgtypeStringValue (a b : Bytes) : Int :=
  thenBy (compareBy a.length b.length) (memcmp a b)

theorem threeWay_lengthCompare : ThreeWay lengthCompareAgtypeStringValue :=
  (ThreeWay.prod (ThreeWay.compareBy (α := Nat)) threeWay_memcmp).comap
    (fun key : Bytes => (key.length, key))
    fun _ _ same => congrArg Prod.snd same

/-- A pair and its `order`, the place it was pushed at. -/
abbrev OrderedPair := AgtypePair × Nat

/-- `length_compare_agtype_pair` puts the first pair before the second: its key
is smaller, or the keys are equal and it was pushed later. -/
def pairBefore (a b : OrderedPair) : Prop :=
  lengthCompareAgtypeStringValue a.1.1 b.1.1 < 0 ∨
    (lengthCompareAgtypeStringValue a.1.1 b.1.1 = 0 ∧ b.2 ≤ a.2)

instance : DecidableRel pairBefore := fun a b =>
  inferInstanceAs (Decidable
    (lengthCompareAgtypeStringValue a.1.1 b.1.1 < 0 ∨
      (lengthCompareAgtypeStringValue a.1.1 b.1.1 = 0 ∧ b.2 ≤ a.2)))

/-- Drop the pairs whose key is the key of the last pair kept. -/
def dropRepeated (res : OrderedPair) : List OrderedPair → List OrderedPair
  | [] => []
  | ptr :: rest =>
      if lengthCompareAgtypeStringValue ptr.1.1 res.1.1 ≠ 0 then
        ptr :: dropRepeated ptr rest
      else dropRepeated res rest

def uniqueifyAgtypeObject (pairs : List AgtypePair) : List AgtypePair :=
  match pairs.zipIdx.insertionSort pairBefore with
  | [] => []
  | first :: rest => (first :: dropRepeated first rest).map Prod.fst

/-- The keys increase strictly, so no key occurs twice. -/
def KeysIncrease (pairs : List AgtypePair) : Prop :=
  pairs.Pairwise fun a b => lengthCompareAgtypeStringValue a.1 b.1 < 0

instance (pairs : List AgtypePair) : Decidable (KeysIncrease pairs) :=
  inferInstanceAs (Decidable (pairs.Pairwise _))

instance : IsTrans OrderedPair pairBefore where
  trans a b c := by
    have keys := threeWay_lengthCompare
    rintro (ab | ⟨ab, abOrder⟩) (bc | ⟨bc, bcOrder⟩)
    · exact .inl (keys.neg_trans _ _ _ ab bc)
    · rw [keys.eq_zero_iff] at bc
      exact .inl (bc ▸ ab)
    · rw [keys.eq_zero_iff] at ab
      exact .inl (ab ▸ bc)
    · rw [keys.eq_zero_iff] at ab bc
      exact .inr ⟨(keys.eq_zero_iff _ _).mpr (ab.trans bc), bcOrder.trans abOrder⟩

instance : Std.Total pairBefore where
  total a b := by
    have keys := threeWay_lengthCompare
    rcases lt_trichotomy (lengthCompareAgtypeStringValue a.1.1 b.1.1) 0 with
      less | equal | greater
    · exact .inl (.inl less)
    · have swapped := (keys.eq_zero_iff _ _).mpr
        ((keys.eq_zero_iff _ _).mp equal).symm
      rcases Nat.le_total b.2 a.2 with order | order
      · exact .inl (.inr ⟨equal, order⟩)
      · exact .inr (.inr ⟨swapped, order⟩)
    · exact .inr (.inl ((keys.pos_iff_neg _ _).mp greater))

/-- What is kept of a sorted list has strictly increasing keys. -/
theorem dropRepeated_increasing {res : OrderedPair} {rest : List OrderedPair}
    (sorted : (res :: rest).Pairwise pairBefore) :
    (res :: dropRepeated res rest).Pairwise fun a b =>
      lengthCompareAgtypeStringValue a.1.1 b.1.1 < 0 := by
  have keys := threeWay_lengthCompare
  induction rest generalizing res with
  | nil => simp [dropRepeated]
  | cons ptr rest inductionHypothesis =>
      rw [List.pairwise_cons] at sorted
      rw [dropRepeated]
      split_ifs with different
      · have tail := inductionHypothesis sorted.2
        have step : lengthCompareAgtypeStringValue res.1.1 ptr.1.1 < 0 := by
          rcases sorted.1 ptr (by simp) with less | ⟨equal, _⟩
          · exact less
          · rw [keys.eq_zero_iff] at equal
            exact absurd ((keys.eq_zero_iff _ _).mpr equal.symm) different
        refine List.pairwise_cons.mpr ⟨fun later membership => ?_, tail⟩
        rcases List.mem_cons.mp membership with rfl | inTail
        · exact step
        · exact keys.neg_trans _ _ _ step ((List.pairwise_cons.mp tail).1 later inTail)
      · refine inductionHypothesis (List.pairwise_cons.mpr ⟨?_, ?_⟩)
        · exact fun later membership => sorted.1 later (by simp [membership])
        · exact (List.pairwise_cons.mp sorted.2).2

theorem uniqueify_increasing (pairs : List AgtypePair) :
    KeysIncrease (uniqueifyAgtypeObject pairs) := by
  have sorted := List.pairwise_insertionSort pairBefore pairs.zipIdx
  unfold uniqueifyAgtypeObject KeysIncrease
  split
  · exact List.Pairwise.nil
  · rename_i equation
    rw [equation] at sorted
    exact List.pairwise_map.mpr (dropRepeated_increasing sorted)

theorem dropRepeated_sublist (res : OrderedPair) (rest : List OrderedPair) :
    (dropRepeated res rest).Sublist rest := by
  induction rest generalizing res with
  | nil => exact .slnil
  | cons ptr rest inductionHypothesis =>
      rw [dropRepeated]
      split_ifs
      · exact (inductionHypothesis ptr).cons_cons ptr
      · exact (inductionHypothesis res).cons ptr

/-- Sorting loses nothing and dropping repeated keys adds nothing. -/
theorem uniqueify_subperm (pairs : List AgtypePair) :
    (uniqueifyAgtypeObject pairs).Subperm pairs := by
  have sorted := List.perm_insertionSort pairBefore pairs.zipIdx
  have all : ((pairs.zipIdx.insertionSort pairBefore).map Prod.fst).Perm pairs := by
    simpa [List.zipIdx_map_fst] using sorted.map Prod.fst
  unfold uniqueifyAgtypeObject
  split
  · exact List.nil_subperm
  · rename_i first rest equation
    rw [equation] at all
    have kept := ((dropRepeated_sublist first rest).cons_cons first).map Prod.fst
    exact kept.subperm.trans all.subperm

theorem dropRepeated_eq_self {res : OrderedPair} {rest : List OrderedPair}
    (increasing : (res :: rest).Pairwise fun a b =>
      lengthCompareAgtypeStringValue a.1.1 b.1.1 < 0) :
    dropRepeated res rest = rest := by
  have keys := threeWay_lengthCompare
  induction rest generalizing res with
  | nil => rfl
  | cons ptr rest inductionHypothesis =>
      rw [List.pairwise_cons] at increasing
      have step := (keys.neg_iff_pos _ _).mp (increasing.1 ptr (by simp))
      rw [dropRepeated, if_pos (by omega), inductionHypothesis increasing.2]

/-- Pairs that are in order already stay as they are. -/
theorem uniqueify_eq_self {pairs : List AgtypePair} (increasing : KeysIncrease pairs) :
    uniqueifyAgtypeObject pairs = pairs := by
  have indexed : pairs.zipIdx.Pairwise fun a b =>
      lengthCompareAgtypeStringValue a.1.1 b.1.1 < 0 := by
    have mapped : (pairs.zipIdx.map Prod.fst).Pairwise fun a b =>
        lengthCompareAgtypeStringValue a.1 b.1 < 0 := by
      rwa [List.zipIdx_map_fst]
    exact List.pairwise_map.mp mapped
  have unsorted : pairs.zipIdx.insertionSort pairBefore = pairs.zipIdx :=
    (indexed.imp Or.inl).insertionSort_eq
  rw [uniqueifyAgtypeObject, unsorted]
  cases equation : pairs.zipIdx with
  | nil => simpa using equation.symm
  | cons first rest =>
      rw [equation] at indexed
      simp only [dropRepeated_eq_self indexed]
      rw [← equation, List.zipIdx_map_fst]

end Keys

/-- `cont_val` of a parse state.  `append_key` stores the key of a pair whose
value has not come yet. -/
inductive ContVal where
  | array (rawScalar : Bool) (elems : List AgtypeValue)
  | object (pairs : List AgtypePair) (key : Option Bytes)

/-- The open containers, innermost first. -/
abbrev AgtypeParseState := List ContVal

inductive PushError where
  | tooManyPairs
  | tooManyElems
  /-- an assertion on the kind of container fails -/
  | wrongContainer
  deriving DecidableEq, Repr

def appendKey (key : Bytes) : AgtypeParseState → Except PushError AgtypeParseState
  | .object pairs _ :: next =>
      if agtypeMaxPairs ≤ pairs.length then .error .tooManyPairs
      else .ok (.object pairs (some key) :: next)
  | _ => .error .wrongContainer

def appendValue (value : AgtypeValue) :
    AgtypeParseState → Except PushError AgtypeParseState
  | .object pairs (some key) :: next => .ok (.object (pairs ++ [(key, value)]) none :: next)
  | _ => .error .wrongContainer

def appendElement (elem : AgtypeValue) :
    AgtypeParseState → Except PushError AgtypeParseState
  | .array rawScalar elems :: next =>
      if agtypeMaxElems ≤ elems.length then .error .tooManyElems
      else .ok (.array rawScalar (elems ++ [elem]) :: next)
  | _ => .error .wrongContainer

/-- Push a closed container as a value into its parent, if it has one. -/
def pushResult (result : AgtypeValue) :
    AgtypeParseState → Except PushError AgtypeParseState
  | [] => .ok []
  | .array rawScalar elems :: next => appendElement result (.array rawScalar elems :: next)
  | .object pairs key :: next => appendValue result (.object pairs key :: next)

/-- The result of the last call, and the parse state. -/
abbrev PushState := Option AgtypeValue × AgtypeParseState

def pushAgtypeValueScalar (state : PushState) : Token → Except PushError PushState
  | .beginArray rawScalar _ =>
      .ok (some (.array rawScalar []), .array rawScalar [] :: state.2)
  | .beginObject _ => .ok (some (.object []), .object [] none :: state.2)
  | .key key => do return (none, ← appendKey key state.2)
  | .value value => do return (none, ← appendValue value state.2)
  | .elem elem => do return (none, ← appendElement elem state.2)
  | .endObject =>
      match state.2 with
      | .object pairs _ :: next => do
          let result := .object (uniqueifyAgtypeObject pairs)
          return (some result, ← pushResult result next)
      | _ => .error .wrongContainer
  | .endArray =>
      match state.2 with
      | .array rawScalar elems :: next => do
          let result := .array rawScalar elems
          return (some result, ← pushResult result next)
      | _ => .error .wrongContainer

/-- A sequence of calls of `push_agtype_value`. -/
def pushAll (state : PushState) (tokens : List Token) : Except PushError PushState :=
  tokens.foldlM pushAgtypeValueScalar state

theorem pushAll_cons (state : PushState) (token : Token) (rest : List Token) :
    pushAll state (token :: rest) =
      (pushAgtypeValueScalar state token).bind (pushAll · rest) := rfl

theorem pushAll_append (state : PushState) (first second : List Token) :
    pushAll state (first ++ second) =
      (pushAll state first).bind (pushAll · second) := by
  simp [pushAll, List.foldlM_append, bind]

/-- What holds of every tree that is built by pushing: the keys of an object
increase, raw scalars are not nested, and the limits on the numbers of children
are kept. -/
inductive Built : AgtypeValue → Prop where
  | null : Built .null
  | string (val : Bytes) : Built (.string val)
  | numeric (val : Numeric) : Built (.numeric val)
  | integer (val : Int64) : Built (.integer val)
  | float (val : Float8) : Built (.float val)
  | bool (val : Bool) : Built (.bool val)
  | vertex {pairs : List AgtypePair} : (∀ pair ∈ pairs, Built pair.2) →
      KeysIncrease pairs → pairs.length ≤ agtypeMaxPairs → Built (.vertex pairs)
  | edge {pairs : List AgtypePair} : (∀ pair ∈ pairs, Built pair.2) →
      KeysIncrease pairs → pairs.length ≤ agtypeMaxPairs → Built (.edge pairs)
  | path {elems : List AgtypeValue} : (∀ elem ∈ elems, Built elem) →
      elems.length ≤ agtypeMaxElems → Built (.path elems)
  | array {elems : List AgtypeValue} : (∀ elem ∈ elems, Built elem) →
      elems.length ≤ agtypeMaxElems → Built (.array false elems)
  | object {pairs : List AgtypePair} : (∀ pair ∈ pairs, Built pair.2) →
      KeysIncrease pairs → pairs.length ≤ agtypeMaxPairs → Built (.object pairs)

def Token.leaf? : Token → Option AgtypeValue
  | .value val => some val
  | .elem val => some val
  | _ => none

def Token.isRawArray : Token → Bool
  | .beginArray rawScalar _ => rawScalar
  | _ => false

/-- The trees that calls of `push_agtype_value` put together.  A typecast turns
the object or the array it is applied to into an entity; the scalars that are
pushed are such trees themselves. -/
inductive BuiltByPush : AgtypeValue → Prop where
  | null : BuiltByPush .null
  | string (val : Bytes) : BuiltByPush (.string val)
  | numeric (val : Numeric) : BuiltByPush (.numeric val)
  | integer (val : Int64) : BuiltByPush (.integer val)
  | float (val : Float8) : BuiltByPush (.float val)
  | bool (val : Bool) : BuiltByPush (.bool val)
  | pushed {tokens : List Token} {v : AgtypeValue} :
      (∀ token ∈ tokens, ∀ leaf ∈ token.leaf?, leaf.isScalar = true) →
      (∀ token ∈ tokens, ∀ leaf ∈ token.leaf?, BuiltByPush leaf) →
      (∀ token ∈ tokens, token.isRawArray = false) →
      pushAll (none, []) tokens = .ok (some v, []) → BuiltByPush v
  | vertex {pairs : List AgtypePair} : BuiltByPush (.object pairs) →
      BuiltByPush (.vertex pairs)
  | edge {pairs : List AgtypePair} : BuiltByPush (.object pairs) →
      BuiltByPush (.edge pairs)
  | path {elems : List AgtypeValue} : BuiltByPush (.array false elems) →
      BuiltByPush (.path elems)

section Invariant

/-- The invariant of an open container. -/
def ContVal.Sound : ContVal → Prop
  | .array rawScalar elems =>
      rawScalar = false ∧ (∀ elem ∈ elems, Built elem) ∧ elems.length ≤ agtypeMaxElems
  | .object pairs key =>
      (∀ pair ∈ pairs, Built pair.2) ∧ pairs.length ≤ agtypeMaxPairs ∧
        (key.isSome → pairs.length < agtypeMaxPairs)

def AgtypeParseState.Sound (state : AgtypeParseState) : Prop :=
  ∀ cont ∈ state, cont.Sound

theorem Built.uniqueified {pairs : List AgtypePair}
    (built : ∀ pair ∈ pairs, Built pair.2) (bounded : pairs.length ≤ agtypeMaxPairs) :
    Built (.object (uniqueifyAgtypeObject pairs)) := by
  have kept := uniqueify_subperm pairs
  refine .object (fun pair membership => built pair (kept.subset membership))
    (uniqueify_increasing pairs) (kept.length_le.trans bounded)

theorem appendElement_sound {elem : AgtypeValue} {state next : AgtypeParseState}
    (built : Built elem) (sound : state.Sound)
    (appended : appendElement elem state = .ok next) : next.Sound := by
  cases state with
  | nil => cases appended
  | cons cont rest =>
      cases cont with
      | object pairs key => cases appended
      | array rawScalar elems =>
          rw [appendElement] at appended
          split_ifs at appended with full
          injection appended with equal
          subst equal
          obtain ⟨notRaw, children, bounded⟩ := sound _ List.mem_cons_self
          intro cont membership
          rcases List.mem_cons.mp membership with rfl | later
          · refine ⟨notRaw, fun child inside => ?_, ?_⟩
            · rcases List.mem_append.mp inside with old | new
              · exact children child old
              · exact List.mem_singleton.mp new ▸ built
            · simp only [List.length_append, List.length_singleton]
              omega
          · exact sound cont (List.mem_cons_of_mem _ later)

theorem appendValue_sound {value : AgtypeValue} {state next : AgtypeParseState}
    (built : Built value) (sound : state.Sound)
    (appended : appendValue value state = .ok next) : next.Sound := by
  unfold appendValue at appended
  split at appended
  · injection appended with equal
    subst equal
    obtain ⟨children, bounded, room⟩ := sound _ List.mem_cons_self
    intro cont membership
    rcases List.mem_cons.mp membership with rfl | later
    · refine ⟨fun child inside => ?_, ?_, by simp⟩
      · rcases List.mem_append.mp inside with old | new
        · exact children child old
        · exact List.mem_singleton.mp new ▸ built
      · have := room rfl
        simp only [List.length_append, List.length_singleton]
        omega
    · exact sound cont (List.mem_cons_of_mem _ later)
  · cases appended

theorem appendKey_sound {key : Bytes} {state next : AgtypeParseState}
    (sound : state.Sound) (appended : appendKey key state = .ok next) :
    next.Sound := by
  unfold appendKey at appended
  split at appended
  · split_ifs at appended with full
    injection appended with equal
    subst equal
    obtain ⟨children, bounded, -⟩ := sound _ List.mem_cons_self
    intro cont membership
    rcases List.mem_cons.mp membership with rfl | later
    · exact ⟨children, bounded, fun _ => by omega⟩
    · exact sound cont (List.mem_cons_of_mem _ later)
  · cases appended

theorem pushResult_sound {result : AgtypeValue} {state next : AgtypeParseState}
    (built : Built result) (sound : state.Sound)
    (pushed : pushResult result state = .ok next) : next.Sound := by
  cases state with
  | nil =>
      cases pushed
      exact sound
  | cons cont rest =>
      cases cont with
      | array rawScalar elems => exact appendElement_sound built sound pushed
      | object pairs key => exact appendValue_sound built sound pushed

theorem bind_ok {ε α β : Type*} {first : Except ε α} {next : α → Except ε β} {result : β}
    (success : first.bind next = .ok result) :
    ∃ value, first = .ok value ∧ next value = .ok result := by
  cases first with
  | error e => cases success
  | ok value => exact ⟨value, rfl, success⟩

/-- One call keeps the open containers sound and returns a built tree. -/
theorem pushAgtypeValueScalar_sound {state next : PushState} {token : Token}
    (leaves : ∀ leaf ∈ token.leaf?, Built leaf) (notRaw : token.isRawArray = false)
    (sound : state.2.Sound) (pushed : pushAgtypeValueScalar state token = .ok next) :
    next.2.Sound ∧ ∀ v ∈ next.1, Built v := by
  cases token with
  | key key =>
      obtain ⟨after, appended, equal⟩ := bind_ok pushed
      cases equal
      exact ⟨appendKey_sound sound appended, by simp⟩
  | value value =>
      obtain ⟨after, appended, equal⟩ := bind_ok pushed
      cases equal
      exact ⟨appendValue_sound (leaves value rfl) sound appended, by simp⟩
  | elem elem =>
      obtain ⟨after, appended, equal⟩ := bind_ok pushed
      cases equal
      exact ⟨appendElement_sound (leaves elem rfl) sound appended, by simp⟩
  | beginArray rawScalar numElems =>
      cases pushed
      change rawScalar = false at notRaw
      subst notRaw
      refine ⟨fun cont membership => ?_, ?_⟩
      · rcases List.mem_cons.mp membership with rfl | later
        · exact ⟨rfl, by simp, by simp⟩
        · exact sound cont later
      · rintro v ⟨⟩
        exact .array (by simp) (by simp)
  | beginObject numPairs =>
      cases pushed
      refine ⟨fun cont membership => ?_, ?_⟩
      · rcases List.mem_cons.mp membership with rfl | later
        · exact ⟨by simp, by simp, by simp⟩
        · exact sound cont later
      · rintro v ⟨⟩
        exact .object (by simp) .nil (by simp)
  | endArray =>
      obtain ⟨res, stack⟩ := state
      rcases stack with _ | ⟨⟨rawScalar, elems⟩ | ⟨pairs, key⟩, rest⟩
      · cases pushed
      · obtain ⟨after, appended, equal⟩ := bind_ok pushed
        cases equal
        obtain ⟨plain, children, bounded⟩ := sound _ List.mem_cons_self
        have built : Built (.array rawScalar elems) := plain ▸ .array children bounded
        have rest : AgtypeParseState.Sound rest :=
          fun cont later => sound cont (List.mem_cons_of_mem _ later)
        exact ⟨pushResult_sound built rest appended, by rintro v ⟨⟩; exact built⟩
      · cases pushed
  | endObject =>
      obtain ⟨res, stack⟩ := state
      rcases stack with _ | ⟨⟨rawScalar, elems⟩ | ⟨pairs, key⟩, rest⟩
      · cases pushed
      · cases pushed
      · obtain ⟨after, appended, equal⟩ := bind_ok pushed
        cases equal
        obtain ⟨children, bounded, -⟩ := sound _ List.mem_cons_self
        have built := Built.uniqueified children bounded
        have rest : AgtypeParseState.Sound rest :=
          fun cont later => sound cont (List.mem_cons_of_mem _ later)
        exact ⟨pushResult_sound built rest appended, by rintro v ⟨⟩; exact built⟩

theorem pushAll_sound {tokens : List Token} {state next : PushState}
    (leaves : ∀ token ∈ tokens, ∀ leaf ∈ token.leaf?, Built leaf)
    (notRaw : ∀ token ∈ tokens, token.isRawArray = false) (sound : state.2.Sound)
    (built : ∀ v ∈ state.1, Built v) (pushed : pushAll state tokens = .ok next) :
    next.2.Sound ∧ ∀ v ∈ next.1, Built v := by
  induction tokens generalizing state with
  | nil =>
      cases pushed
      exact ⟨sound, built⟩
  | cons token rest inductionHypothesis =>
      rw [pushAll_cons] at pushed
      obtain ⟨middle, first, others⟩ := bind_ok pushed
      have step := pushAgtypeValueScalar_sound (leaves token (by simp))
        (notRaw token (by simp)) sound first
      exact inductionHypothesis (fun t inside => leaves t (by simp [inside]))
        (fun t inside => notRaw t (by simp [inside])) step.1 step.2 others

/-- Every tree that is put together by pushing keeps the builder's invariant. -/
theorem built_of_builtByPush {v : AgtypeValue} (pushed : BuiltByPush v) : Built v := by
  induction pushed with
  | null => exact .null
  | string val => exact .string val
  | numeric val => exact .numeric val
  | integer val => exact .integer val
  | float val => exact .float val
  | bool val => exact .bool val
  | pushed _ _ notRaw run inductionHypothesis =>
      exact (pushAll_sound inductionHypothesis notRaw (by simp [AgtypeParseState.Sound])
        (by simp) run).2 _ rfl
  | vertex _ inductionHypothesis =>
      cases inductionHypothesis with
      | object children increasing bounded => exact .vertex children increasing bounded
  | edge _ inductionHypothesis =>
      cases inductionHypothesis with
      | object children increasing bounded => exact .edge children increasing bounded
  | path _ inductionHypothesis =>
      cases inductionHypothesis with
      | array children bounded => exact .path children bounded

end Invariant

section Rebuild

open AgtypeValue

/-- Pushing the tokens of a node appends the node to the open container. -/
def Rebuilds (v : AgtypeValue) : Prop :=
  (∀ res rawScalar elems next, elems.length < agtypeMaxElems →
    ∃ res', pushAll (res, .array rawScalar elems :: next) (nodeTokens .elem v) =
      .ok (res', .array rawScalar (elems ++ [v]) :: next)) ∧
  (∀ res pairs key next,
    ∃ res', pushAll (res, .object pairs (some key) :: next) (nodeTokens .value v) =
      .ok (res', .object (pairs ++ [(key, v)]) none :: next))

theorem rebuilds_scalar {v : AgtypeValue} (scalar : v.isScalar = true) : Rebuilds v := by
  simp only [Rebuilds, nodeTokens_scalar _ scalar]
  refine ⟨fun res rawScalar elems next room => ⟨none, ?_⟩, fun res pairs key next => ⟨none, rfl⟩⟩
  rw [pushAll_cons, pushAgtypeValueScalar, appendElement, if_neg (by omega)]
  rfl

theorem pushAll_elemTokens {elems : List AgtypeValue}
    (children : ∀ elem ∈ elems, Rebuilds elem) {a : List AgtypeValue}
    (bounded : a.length + elems.length ≤ agtypeMaxElems) (res : Option AgtypeValue)
    (rawScalar : Bool) (next : AgtypeParseState) :
    ∃ res', pushAll (res, .array rawScalar a :: next) (elemTokens elems) =
      .ok (res', .array rawScalar (a ++ elems) :: next) := by
  induction elems generalizing a res with
  | nil => exact ⟨res, by simp [elemTokens, pushAll, pure, Except.pure]⟩
  | cons elem others inductionHypothesis =>
      rw [List.length_cons] at bounded
      obtain ⟨middle, first⟩ :=
        (children elem (by simp)).1 res rawScalar a next (by omega)
      obtain ⟨last, rest⟩ := inductionHypothesis
        (fun other membership => children other (by simp [membership]))
        (a := a ++ [elem]) (by simp; omega) middle
      refine ⟨last, ?_⟩
      rw [elemTokens, pushAll_append, first]
      simpa [Except.bind] using rest

theorem pushAll_pairTokens {pairs : List AgtypePair}
    (children : ∀ pair ∈ pairs, Rebuilds pair.2) {a : List AgtypePair}
    (bounded : a.length + pairs.length ≤ agtypeMaxPairs) (res : Option AgtypeValue)
    (next : AgtypeParseState) :
    ∃ res', pushAll (res, .object a none :: next) (pairTokens pairs) =
      .ok (res', .object (a ++ pairs) none :: next) := by
  induction pairs generalizing a res with
  | nil => exact ⟨res, by simp [pairTokens, pushAll, pure, Except.pure]⟩
  | cons pair others inductionHypothesis =>
      obtain ⟨key, value⟩ := pair
      rw [List.length_cons] at bounded
      obtain ⟨middle, first⟩ := (children (key, value) (by simp)).2 none a key next
      obtain ⟨last, rest⟩ := inductionHypothesis
        (fun other membership => children other (by simp [membership]))
        (a := a ++ [(key, value)]) (by simp; omega) middle
      refine ⟨last, ?_⟩
      have room : ¬agtypeMaxPairs ≤ a.length := by omega
      rw [pairTokens, pushAll_cons, pushAgtypeValueScalar, appendKey, if_neg room]
      change pushAll (none, .object a (some key) :: next) _ = _
      rw [pushAll_append, first]
      simpa [Except.bind] using rest

theorem pushAll_arrayTokens {elems : List AgtypeValue}
    (children : ∀ elem ∈ elems, Rebuilds elem) (bounded : elems.length ≤ agtypeMaxElems)
    (rawScalar : Bool) (leaf : AgtypeValue → Token) (res : Option AgtypeValue)
    (stack : AgtypeParseState) :
    pushAll (res, stack) (nodeTokens leaf (.array rawScalar elems)) =
      (pushResult (.array rawScalar elems) stack).map
        (some (.array rawScalar elems), ·) := by
  obtain ⟨last, inner⟩ := pushAll_elemTokens children (a := [])
    (by simpa using bounded) (some (.array rawScalar [])) rawScalar stack
  rw [nodeTokens, pushAll_cons, pushAgtypeValueScalar]
  change pushAll _ (elemTokens elems ++ [.endArray]) = _
  rw [pushAll_append, inner]
  change pushAll (last, .array rawScalar elems :: stack) [.endArray] = _
  rw [pushAll_cons, pushAgtypeValueScalar]
  cases parent : pushResult (.array rawScalar elems) stack <;>
    simp [parent, bind, Except.bind, pure, Except.pure, Except.map, pushAll]

theorem pushAll_objectTokens {pairs : List AgtypePair}
    (children : ∀ pair ∈ pairs, Rebuilds pair.2) (increasing : KeysIncrease pairs)
    (bounded : pairs.length ≤ agtypeMaxPairs) (leaf : AgtypeValue → Token)
    (res : Option AgtypeValue) (stack : AgtypeParseState) :
    pushAll (res, stack) (nodeTokens leaf (.object pairs)) =
      (pushResult (.object pairs) stack).map (some (.object pairs), ·) := by
  obtain ⟨last, inner⟩ := pushAll_pairTokens children (a := [])
    (by simpa using bounded) (some (.object [])) stack
  rw [nodeTokens, pushAll_cons, pushAgtypeValueScalar]
  change pushAll _ (pairTokens pairs ++ [.endObject]) = _
  rw [pushAll_append, inner]
  change pushAll (last, .object pairs none :: stack) [.endObject] = _
  rw [pushAll_cons, pushAgtypeValueScalar]
  cases parent : pushResult (.object pairs) stack <;>
    simp [parent, uniqueify_eq_self increasing, bind, Except.bind, pure, Except.pure,
      Except.map, pushAll]

theorem Rebuilds.of_container {v : AgtypeValue}
    (pushed : ∀ leaf res stack, pushAll (res, stack) (nodeTokens leaf v) =
      (pushResult v stack).map (some v, ·)) : Rebuilds v := by
  refine ⟨fun res rawScalar elems next room => ⟨some v, ?_⟩,
    fun res pairs key next => ⟨some v, ?_⟩⟩
  · rw [pushed, pushResult, appendElement, if_neg (by omega)]
    rfl
  · rw [pushed, pushResult]
    rfl

theorem rebuilds_of_built {v : AgtypeValue} (built : Built v) : Rebuilds v := by
  induction built with
  | null => exact rebuilds_scalar rfl
  | string val => exact rebuilds_scalar rfl
  | numeric val => exact rebuilds_scalar rfl
  | integer val => exact rebuilds_scalar rfl
  | float val => exact rebuilds_scalar rfl
  | bool val => exact rebuilds_scalar rfl
  | vertex _ _ _ _ => exact rebuilds_scalar rfl
  | edge _ _ _ _ => exact rebuilds_scalar rfl
  | path _ _ _ => exact rebuilds_scalar rfl
  | array _ bounded children =>
      exact .of_container (pushAll_arrayTokens children bounded false)
  | object _ increasing bounded children =>
      exact .of_container (pushAll_objectTokens children increasing bounded)

/-- Pushing the tokens of a container gives the container. -/
theorem pushAll_tokens {v : AgtypeValue} (built : Built v) (container : v.isScalar = false) :
    pushAll (none, []) v.tokens = .ok (some v, []) := by
  cases built <;> cases container
  case array children bounded =>
    exact pushAll_arrayTokens (fun elem membership => rebuilds_of_built (children elem membership))
      bounded false .elem none []
  case object children increasing bounded =>
    exact pushAll_objectTokens
      (fun pair membership => rebuilds_of_built (children pair membership)) increasing bounded
      .elem none []

end Rebuild

end Age.Agtype
