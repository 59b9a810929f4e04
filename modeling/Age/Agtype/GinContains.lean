import Age.Agtype.Gin

/-!
# Completeness for containment

Every key and every scalar of a contained query has its like in the value.  Only
numbers can be alike and have different keys.
-/

namespace Age.Agtype

open Lib

/-- Tokens that carry a key or a scalar. -/
def Token.isItem : Token → Bool
  | .key _ => true
  | .value _ => true
  | .elem _ => true
  | _ => false

def AgtypeValue.isEntity : AgtypeValue → Bool
  | .vertex _ => true
  | .edge _ => true
  | .path _ => true
  | _ => false

/-- Scalars with one key, numbers apart. -/
def GinAlike (a b : AgtypeValue) : Prop :=
  isNumberType a.type = true ∧ isNumberType b.type = true ∨ a = b ∨ b.isEntity = true

section Tokens

theorem mem_elemTokens {elems : List AgtypeValue} {token : Token} :
    token ∈ AgtypeValue.elemTokens elems ↔
      ∃ elem ∈ elems, token ∈ elem.nodeTokens .elem := by
  induction elems with
  | nil => simp [AgtypeValue.elemTokens]
  | cons elem rest inductionHypothesis => simp [AgtypeValue.elemTokens, inductionHypothesis]

theorem mem_pairTokens {pairs : List AgtypePair} {token : Token} :
    token ∈ AgtypeValue.pairTokens pairs ↔
      ∃ pair ∈ pairs, token = .key pair.1 ∨ token ∈ pair.2.nodeTokens .value := by
  induction pairs with
  | nil => simp [AgtypeValue.pairTokens]
  | cons pair rest inductionHypothesis =>
      simp [AgtypeValue.pairTokens, inductionHypothesis, or_assoc]

theorem mem_arrayTokens {rawScalar : Bool} {elems : List AgtypeValue}
    {leaf : AgtypeValue → Token} {token : Token} (item : token.isItem = true) :
    token ∈ (AgtypeValue.array rawScalar elems).nodeTokens leaf ↔
      ∃ elem ∈ elems, token ∈ elem.nodeTokens .elem := by
  rw [AgtypeValue.nodeTokens, List.mem_cons, List.mem_append, mem_elemTokens]
  constructor
  · rintro (rfl | found | ended)
    · cases item
    · exact found
    · rw [List.mem_singleton.mp ended] at item
      cases item
  · exact fun found => .inr (.inl found)

theorem mem_objectTokens {pairs : List AgtypePair} {leaf : AgtypeValue → Token} {token : Token}
    (item : token.isItem = true) :
    token ∈ (AgtypeValue.object pairs).nodeTokens leaf ↔
      ∃ pair ∈ pairs, token = .key pair.1 ∨ token ∈ pair.2.nodeTokens .value := by
  rw [AgtypeValue.nodeTokens, List.mem_cons, List.mem_append, mem_pairTokens]
  constructor
  · rintro (rfl | found | ended)
    · cases item
    · exact found
    · rw [List.mem_singleton.mp ended] at item
      cases item
  · exact fun found => .inr (.inl found)

/-- The items of a node are its tokens without the brackets. -/
theorem mem_nodeTokens_iff (v : AgtypeValue) (path : List Bytes) (leaf : AgtypeValue → Token)
    {token : Token} (item : token.isItem = true) :
    token ∈ v.nodeTokens leaf ↔ ∃ path', (path', token) ∈ v.nodeItems path leaf := by
  induction v using AgtypeValue.inductionOn generalizing path leaf with
  | array rawScalar elems children =>
      rw [mem_arrayTokens item, AgtypeValue.nodeItems]
      simp only [AgtypeValue.mem_elemItems]
      constructor
      · rintro ⟨elem, elemIn, here⟩
        obtain ⟨path', found⟩ := (children elem elemIn path .elem).mp here
        exact ⟨path', elem, elemIn, found⟩
      · rintro ⟨path', elem, elemIn, found⟩
        exact ⟨elem, elemIn, (children elem elemIn path .elem).mpr ⟨path', found⟩⟩
  | object pairs children =>
      rw [mem_objectTokens item, AgtypeValue.nodeItems]
      simp only [AgtypeValue.mem_pairItems]
      constructor
      · rintro ⟨pair, pairIn, rfl | here⟩
        · exact ⟨path, pair, pairIn, .inl rfl⟩
        · obtain ⟨path', found⟩ := (children pair pairIn (path ++ [pair.1]) .value).mp here
          exact ⟨path', pair, pairIn, .inr found⟩
      · rintro ⟨path', pair, pairIn, equal | found⟩
        · cases equal
          exact ⟨pair, pairIn, .inl rfl⟩
        · exact ⟨pair, pairIn, .inr ((children pair pairIn _ .value).mpr ⟨path', found⟩)⟩
  | _ => simp [AgtypeValue.nodeTokens, AgtypeValue.nodeItems]

/-- Every key and scalar of `contained` has its like among the tokens of `val`. -/
def TokensCover (val contained : List Token) : Prop :=
  ∀ token ∈ contained, token.isItem = true → ∃ like ∈ val, TokenMatch GinAlike like token

theorem TokenMatch.mono {same same' : AgtypeValue → AgtypeValue → Prop}
    (weaker : ∀ a b, same a b → same' a b) {t u : Token} (isMatch : TokenMatch same t u) :
    TokenMatch same' t u := by
  cases isMatch with
  | key val => exact .key val
  | value same => exact .value (weaker _ _ same)
  | elem same => exact .elem (weaker _ _ same)

theorem TokenMatch.isItem {same : AgtypeValue → AgtypeValue → Prop} {t u : Token}
    (isMatch : TokenMatch same t u) : t.isItem = true := by
  cases isMatch <;> rfl

theorem ginAlike_of_scalarAlike {ops : OrderOps} {a b : AgtypeValue}
    (alike : ScalarAlike ops a b) : GinAlike a b := by
  cases alike with
  | refl => exact .inr (.inl rfl)
  | numeric => exact .inl ⟨rfl, rfl⟩
  | float => exact .inl ⟨rfl, rfl⟩
  | vertex => exact .inr (.inr rfl)
  | edge => exact .inr (.inr rfl)
  | path => exact .inr (.inr rfl)

variable {ops : OrderOps}

theorem tokensCover_of_covers (collation : ThreeWay ops.varstrCmp) {val contained : AgtypeValue}
    {leaf : AgtypeValue → Token} (covers : Covers (TreatedEqual ops) leaf val contained) :
    TokensCover (val.nodeTokens leaf) (contained.nodeTokens leaf) := by
  intro token membership item
  obtain ⟨path, found⟩ := (mem_nodeTokens_iff contained [] leaf item).mp membership
  obtain ⟨like, likeIn, isMatch⟩ := covers [] _ found
  refine ⟨like, (mem_nodeTokens_iff val [] leaf isMatch.isItem).mpr ⟨path, likeIn⟩, ?_⟩
  exact isMatch.mono fun a b same =>
    ginAlike_of_scalarAlike (scalarAlike_of_treatedEqual collation same)

end Tokens

section Compared

variable {ops : OrderOps}

theorem ginAlike_of_compareLeaves (collation : ThreeWay ops.varstrCmp) {a b : AgtypeValue}
    (compared : ops.compareLeaves a b = .ok 0) : GinAlike a b := by
  unfold OrderOps.compareLeaves at compared
  split_ifs at compared with comparable
  · by_cases numbers : isNumberType a.type = true ∧ isNumberType b.type = true
    · exact .inl numbers
    have types : a.type = b.type := by tauto
    have sameType : a.sameType b = true := by
      cases a <;> cases b <;> first | rfl | cases types
    exact ginAlike_of_scalarAlike (scalarAlike_of_compare collation sameType compared)
  · injection compared with zero
    exact (typeDefinedOrder_ne_zero _ _ zero).elim

theorem tokensCover_of_forall₂ (collation : ThreeWay ops.varstrCmp) {as bs : List Token}
    (alike : List.Forall₂ (TokensAlike ops) as bs) : TokensCover as bs := by
  intro token membership item
  induction alike with
  | nil => cases membership
  | @cons ra rb restA restB first _ inductionHypothesis =>
      rcases List.mem_cons.mp membership with rfl | later
      · refine ⟨ra, List.mem_cons_self, ?_⟩
        cases first with
        | key val => exact .key val
        | value compared => exact .value (ginAlike_of_compareLeaves collation compared)
        | elem compared => exact .elem (ginAlike_of_compareLeaves collation compared)
        | _ => cases item
      · obtain ⟨like, likeIn, isMatch⟩ := inductionHypothesis later
        exact ⟨like, List.mem_cons_of_mem _ likeIn, isMatch⟩

/-- Nested containers that compare as equal.  A raw scalar is never nested. -/
theorem tokensCover_of_compareContainers (collation : ThreeWay ops.varstrCmp) {a b : AgtypeValue}
    (built : Built b)
    (compared : ops.compareAgtypeContainersOrderability a b = .ok 0) :
    TokensCover a.tokens b.tokens := by
  refine tokensCover_of_forall₂ collation (forall₂_of_compareLoop collation ?_)
  unfold OrderOps.compareAgtypeContainersOrderability at compared
  split at compared
  · cases built
  · exact compared

theorem tokensCover_object {pairs contained : List AgtypePair} {leaf : AgtypeValue → Token}
    (found : ∀ pair ∈ contained, ∃ lhsVal, (pair.1, lhsVal) ∈ pairs ∧
      TokensCover (lhsVal.nodeTokens .value) (pair.2.nodeTokens .value)) :
    TokensCover ((AgtypeValue.object pairs).nodeTokens leaf)
      ((AgtypeValue.object contained).nodeTokens leaf) := by
  intro token membership item
  obtain ⟨pair, pairIn, here⟩ := (mem_objectTokens item).mp membership
  obtain ⟨lhsVal, lhsIn, covers⟩ := found pair pairIn
  rcases here with rfl | below
  · exact ⟨.key pair.1, (mem_objectTokens item).mpr ⟨_, lhsIn, .inl rfl⟩, .key _⟩
  · obtain ⟨like, likeIn, isMatch⟩ := covers token below item
    exact ⟨like, (mem_objectTokens isMatch.isItem).mpr ⟨_, lhsIn, .inr likeIn⟩, isMatch⟩

/-- Containment at the top level: nested containers are compared as a whole. -/
theorem tokensCover_of_topLevel (collation : ThreeWay ops.varstrCmp) {val contained : AgtypeValue}
    (built : ∀ pairs, contained = .object pairs → ∀ pair ∈ pairs, Built pair.2)
    (contains : agtypeDeepContains ops true val contained = .ok true) :
    TokensCover val.tokens contained.tokens := by
  obtain ⟨pairs, containedPairs, rfl, rfl, found⟩ |
      ⟨raw, elems, rawContained, containedElems, rfl, rfl, found⟩ :=
    agtypeDeepContains_cases contains
  · refine tokensCover_object fun pair membership => ?_
    obtain ⟨lhsVal, lhsIn, sameType, tested⟩ := containsPairs_sound found pair membership
    refine ⟨lhsVal, lhsIn, ?_⟩
    cases scalar : lhsVal.isScalar with
    | true =>
        rw [if_pos scalar] at tested
        refine tokensCover_of_covers collation (covers_scalar scalar
          ((isScalar_of_sameType sameType).symm.trans scalar) (.value ⟨sameType, .inl (.inl tested)⟩))
    | false =>
        rw [if_neg (by simp [scalar]), if_pos rfl] at tested
        rw [AgtypeValue.nodeTokens_container _ scalar, AgtypeValue.nodeTokens_container _
          ((isScalar_of_sameType sameType).symm.trans scalar)]
        exact tokensCover_of_compareContainers collation (built _ rfl pair membership) tested
  · exact tokensCover_of_covers collation (covers_array (covers_of_containsElems found
      (fun a b sameType tested => ⟨sameType, .inl tested⟩) fun _ _ _ nested =>
        covers_of_agtypeDeepContains .elem (fun a b sameType tested => ⟨sameType, .inl tested⟩) nested))

end Compared

section Completeness

variable {orderOps : OrderOps} {ops : GinOps}

/-- The texts of the numbers in a container. -/
def GinOps.numberTexts (ops : GinOps) (root : AgtypeValue) : List Bytes :=
  root.tokens.filterMap fun token => token.leaf?.bind ops.numberText

theorem makeTextKey_flag {f g : GinFlag} {s t : Bytes}
    (equal : ops.makeTextKey f s = ops.makeTextKey g t) : f = g := by
  unfold GinOps.makeTextKey at equal
  split_ifs at equal <;> injection equal with flags <;> revert flags <;> cases f <;> cases g <;>
    decide

theorem tokenKey_number {token : Token} {text : Bytes}
    (number : token.leaf?.bind ops.numberText = some text) :
    ops.tokenKey token = some (.ok (ops.makeTextKey .num text)) := by
  obtain ⟨v, leaf, isText⟩ := Option.bind_eq_some_iff.mp number
  cases token <;> cases leaf <;> cases v <;> cases isText <;> rfl

/-- Only a number has a key with the flag of numbers. -/
theorem number_of_tokenKey {token : Token} {text : Bytes}
    (key : ops.tokenKey token = some (.ok (ops.makeTextKey .num text))) :
    ∃ other, token.leaf?.bind ops.numberText = some other ∧
      ops.makeTextKey .num other = ops.makeTextKey .num text := by
  have clash {flag : GinFlag} {str : Bytes} (other : flag ≠ .num)
      (equal : some (Except.ok (ops.makeTextKey flag str)) =
        some (Except.ok (ε := GinError) (ops.makeTextKey .num text))) : False := by
    injection equal with equal
    injection equal with equal
    exact other (makeTextKey_flag equal)
  have scalar {isKey : Bool} {v : AgtypeValue} (leaf : token.leaf? = some v)
      (here : some (ops.makeScalarKey isKey v) = some (.ok (ops.makeTextKey .num text))) :
      ∃ other, token.leaf?.bind ops.numberText = some other ∧
        ops.makeTextKey .num other = ops.makeTextKey .num text := by
    rw [leaf]
    cases v
    case integer val => exact ⟨_, rfl, by injection here with here; injection here⟩
    case float val => exact ⟨_, rfl, by injection here with here; injection here⟩
    case numeric val => exact ⟨_, rfl, by injection here with here; injection here⟩
    case null => exact (clash (by decide) here).elim
    case bool val => exact (clash (by decide) here).elim
    case string val =>
      refine (clash ?_ here).elim
      cases isKey <;> decide
    all_goals cases here
  cases token
  case key val => exact (clash (by decide) key).elim
  case elem v => exact scalar rfl key
  case value v => exact scalar rfl key
  all_goals cases key

/-- A root that has keys is no entity. -/
theorem not_isEntity_of_extractLoop {rawScalar : Bool} {elem : AgtypeValue}
    {rest : List AgtypeValue} {keys : List Bytes}
    (extracted : ops.extractLoop (AgtypeValue.array rawScalar (elem :: rest)).tokens = .ok keys) :
    elem.isEntity = false := by
  cases entity : elem.isEntity with
  | false => rfl
  | true =>
      have membership : Token.elem elem ∈
          (AgtypeValue.array rawScalar (elem :: rest)).tokens := by
        refine (mem_arrayTokens rfl).mpr ⟨elem, List.mem_cons_self, ?_⟩
        cases elem <;> cases entity <;> exact List.mem_singleton_self _
      obtain ⟨_, _, isOk⟩ := tokenKey_ok_of_extractLoop extracted membership rfl
      cases elem <;> cases entity <;> cases isOk

theorem getEntityPropertiesContainer_of_extractLoop {root : AgtypeValue} {keys : List Bytes}
    (extracted : ops.extractLoop root.tokens = .ok keys) :
    getEntityPropertiesContainer root = .ok (some root) := by
  fun_cases getEntityPropertiesContainer root with
  | case1 pairs rest => cases not_isEntity_of_extractLoop extracted
  | case2 pairs rest => cases not_isEntity_of_extractLoop extracted
  | case3 elems rest => cases not_isEntity_of_extractLoop extracted
  | case4 => simp_all

/-- What either containment operator finds. -/
theorem tokensCover_of_operator (collation : ThreeWay orderOps.varstrCmp) {v q : AgtypeValue}
    (built : Built q)
    (vPlain : getEntityPropertiesContainer v.root = .ok (some v.root))
    (qPlain : getEntityPropertiesContainer q.root = .ok (some q.root))
    (contains : agtypeContains orderOps v.root q.root = .ok true ∨
      agtypeContainsTopLevel orderOps v.root q.root = .ok true) :
    TokensCover v.root.tokens q.root.tokens := by
  rcases contains with contains | contains
  · exact tokensCover_of_covers collation (covers_of_agtypeContains contains vPlain qPlain)
  · rw [agtypeContainsTopLevel, vPlain, qPlain] at contains
    simp only [bind, Except.bind] at contains
    by_cases kinds : v.root.isObject ≠ q.root.isObject
    · rw [if_pos kinds] at contains
      cases contains
    rw [if_neg kinds] at contains
    refine tokensCover_of_topLevel collation (fun pairs equal => ?_) contains
    unfold AgtypeValue.root at equal
    split_ifs at equal with scalar
    subst equal
    cases built with
    | object children _ _ => exact children

/-- When an operator finds the query, its keys are among the keys of the value, and
no support function rejects the value, exactly if every number of the query has a
number of the value with the same key. -/
theorem keys_subset_iff_numbers (collation : ThreeWay orderOps.varstrCmp) {v q : AgtypeValue}
    (built : Built q) {strategy : Nat} {image : Bytes} {keys query : List Bytes}
    {mode : GinSearchMode}
    (contains : strategy = agtypeContainsStrategyNumber ∧
        agtypeContains orderOps v.root q.root = .ok true ∨
      strategy = agtypeContainsTopLevelStrategyNumber ∧
        agtypeContainsTopLevel orderOps v.root q.root = .ok true)
    (indexed : ops.ginExtractAgtype v.root = .ok keys)
    (queried : ops.ginExtractAgtypeQuery strategy q.root image = .ok (query, mode)) :
    (∀ key ∈ query, key ∈ keys) ∧ NotRejected strategy keys query ↔
      ∀ text ∈ ops.numberTexts q.root, ∃ other ∈ ops.numberTexts v.root,
        ops.makeTextKey .num other = ops.makeTextKey .num text := by
  have isContains : strategy = agtypeContainsStrategyNumber ∨
      strategy = agtypeContainsTopLevelStrategyNumber := contains.imp And.left And.left
  rw [notRejected_contains_iff isContains, and_self]
  rw [ginExtractAgtype_eq v.isScalar_root] at indexed
  unfold GinOps.ginExtractAgtypeQuery at queried
  rw [if_pos isContains, ginExtractAgtype_eq q.isScalar_root] at queried
  obtain ⟨found, extracted, result⟩ := bind_ok queried
  cases result
  have covers := tokensCover_of_operator collation built
    (getEntityPropertiesContainer_of_extractLoop indexed)
    (getEntityPropertiesContainer_of_extractLoop extracted)
    (contains.imp And.right And.right)
  constructor
  · intro within text membership
    obtain ⟨token, tokenIn, number⟩ := List.mem_filterMap.mp membership
    have key := within _ ((mem_extractLoop extracted _).mpr
      ⟨token, tokenIn, tokenKey_number number⟩)
    obtain ⟨like, likeIn, likeKey⟩ := (mem_extractLoop indexed _).mp key
    obtain ⟨other, isNumber, same⟩ := number_of_tokenKey likeKey
    exact ⟨other, List.mem_filterMap.mpr ⟨like, likeIn, isNumber⟩, same⟩
  · intro numbers key membership
    obtain ⟨token, tokenIn, isKey⟩ := (mem_extractLoop extracted key).mp membership
    have item : token.isItem = true := by cases token <;> first | rfl | cases isKey
    obtain ⟨like, likeIn, isMatch⟩ := covers token tokenIn item
    by_cases number : ∃ text, token.leaf?.bind ops.numberText = some text
    · obtain ⟨text, isText⟩ := number
      obtain ⟨other, otherIn, same⟩ := numbers text
        (List.mem_filterMap.mpr ⟨token, tokenIn, isText⟩)
      obtain ⟨there, thereIn, isOther⟩ := List.mem_filterMap.mp otherIn
      cases (tokenKey_number isText).symm.trans isKey
      exact (mem_extractLoop indexed _).mpr ⟨there, thereIn, same ▸ tokenKey_number isOther⟩
    · have equal : like = token := by
        have alike {a b : AgtypeValue} (leaf : token.leaf? = some b) (alike : GinAlike a b)
            {isKeyFlag : Bool} (keyOf : ops.makeScalarKey isKeyFlag b = .ok key) : a = b := by
          rcases alike with ⟨_, isNumber⟩ | same | entity
          · refine (number ?_).elim
            rw [leaf]
            cases b <;> first | exact ⟨_, rfl⟩ | cases isNumber
          · exact same
          · cases b <;> cases entity <;> cases keyOf
        cases isMatch with
        | key val => rfl
        | value same =>
            injection isKey with isKey
            rw [alike rfl same isKey]
        | elem same =>
            injection isKey with isKey
            rw [alike rfl same isKey]
      exact (mem_extractLoop indexed _).mpr ⟨like, likeIn, equal ▸ isKey⟩

/-- The texts of the two zeros; no other number but integers is printed below. -/
def zeroTexts : GinOps where
  hashAny := Server.hashBytes
  float8Out f :=
    if f.bits = 0 then ascii ['0']
    else if f.bits = 0x8000000000000000 then ascii ['-', '0']
    else ascii ['N', 'a', 'N']
  numericNormalize _ := ascii ['N', 'a', 'N']

/-- `{"a": [0.0, "x"], "b": 7} @> {"a": [0.0]}` -/
theorem keys_subset_iff_numbers_same_zero :
    ∃ keys query mode,
      zeroTexts.ginExtractAgtype (.object [([97], .array false [.float ⟨0⟩, .string [120]]),
        ([98], .integer 7)]) = .ok keys ∧
      zeroTexts.ginExtractAgtypeQuery agtypeContainsStrategyNumber
        (.object [([97], .array false [.float ⟨0⟩])]) [] = .ok (query, mode) ∧
      NotRejected agtypeContainsStrategyNumber keys query := by
  obtain ⟨keys, indexed⟩ : ∃ keys, zeroTexts.ginExtractAgtype
      (.object [([97], .array false [.float ⟨0⟩, .string [120]]), ([98], .integer 7)]) =
        .ok keys := ⟨_, rfl⟩
  obtain ⟨query, mode, queried⟩ : ∃ query mode, zeroTexts.ginExtractAgtypeQuery
      agtypeContainsStrategyNumber (.object [([97], .array false [.float ⟨0⟩])]) [] =
        .ok (query, mode) := ⟨_, _, rfl⟩
  have built : Built (.object [([97], .array false [.float ⟨0⟩])]) := by
    refine .object ?_ (by decide +kernel) (by decide)
    have inner : Built (.array false [.float ⟨0⟩]) :=
      .array (by simpa using Built.float ⟨0⟩) (by decide)
    simpa using inner
  have found : agtypeContains Server.orderOps
      (.object [([97], .array false [.float ⟨0⟩, .string [120]]), ([98], .integer 7)])
      (.object [([97], .array false [.float ⟨0⟩])]) = .ok true := by decide +kernel
  have complete := keys_subset_iff_numbers threeWay_memcmp
    (v := .object [([97], .array false [.float ⟨0⟩, .string [120]]), ([98], .integer 7)]) built
    (.inl ⟨rfl, found⟩) indexed queried
  exact ⟨keys, query, mode, indexed, queried, (complete.mpr (by decide +kernel)).2⟩

/-- `{"a": 0.0} @> {"a": -0.0}` holds, but the keys of the zeros differ. -/
theorem not_keys_subset_zeros :
    agtypeContains Server.orderOps (.object [([97], .float ⟨0⟩)])
        (.object [([97], .float ⟨0x8000000000000000⟩)]) = .ok true ∧
      ∃ keys query,
        zeroTexts.ginExtractAgtype (.object [([97], .float ⟨0⟩)]) = .ok keys ∧
        zeroTexts.ginExtractAgtypeQuery agtypeContainsStrategyNumber
          (.object [([97], .float ⟨0x8000000000000000⟩)]) [] = .ok (query, .default) ∧
        ¬(∀ key ∈ query, key ∈ keys) ∧
        ginConsistentAgtype agtypeContainsStrategyNumber
          (query.map fun key => decide (key ∈ keys)) = .ok false := by
  refine ⟨by decide +kernel, _, _, rfl, rfl, by decide +kernel, by decide +kernel⟩

end Completeness

end Age.Agtype
