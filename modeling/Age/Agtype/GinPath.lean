import Age.Agtype.ContainsMatch
import Age.Server.Hash
import Age.Server.Order

/-!
# The path operator class

`gin_agtype_path_ops` indexes one hash for each scalar, with the keys that lead to
it mixed in.  The extraction keeps a stack of hashes, one for each open container.
-/

namespace Age.Agtype

open Lib

inductive GinError where
  | hash (error : HashError)
  /-- `agtype type: %d is not a scalar` -/
  | notScalar (type : AgtypeValueType)
  /-- `GIN query requires an agtype array` -/
  | queryNotArray
  /-- `unsupport agtype for GIN lookup: %d` -/
  | unsupportedLookup (type : AgtypeValueType)
  /-- `unrecognized strategy number: %d` -/
  | unrecognizedStrategy (strategy : Nat)
  deriving DecidableEq, Repr

inductive GinSearchMode where
  | default | all
  deriving DecidableEq, Repr

inductive GinTernaryValue where
  | false | true | maybe
  deriving DecidableEq, Repr

def agtypeContainsStrategyNumber : Nat := 7

/-- `AGT_ROOT_COUNT` -/
def AgtypeValue.rootCount : AgtypeValue → Nat
  | .array _ elems => elems.length
  | .object pairs => pairs.length
  | _ => 0

/-- Set the hash of the open container back to the one of its parent. -/
def resetTop : List UInt32 → List UInt32
  | [] => []
  | _ :: below => below.headD 0 :: below

/-- The loop of `gin_extract_agtype_path`.  The stack is `hash_stack` from
`stack_depth` downwards. -/
def extractPathLoop (ops : HashOps) :
    List Token → List UInt32 → (entries : List UInt32) → Except HashError (List UInt32)
  | [], _, entries => .ok entries
  | _ :: _, [], _ => .error .unsetRead
  | token :: rest, top :: below, entries =>
      match token with
      | .beginArray _ _ => extractPathLoop ops rest (top :: top :: below) entries
      | .beginObject _ => extractPathLoop ops rest (top :: top :: below) entries
      | .key val => do
          let top ← ops.agtypeHashScalarValue (.string val) top
          extractPathLoop ops rest (top :: below) entries
      | .elem v => do
          let top ← ops.agtypeHashScalarValue v top
          extractPathLoop ops rest (resetTop (top :: below)) (entries ++ [top])
      | .value v => do
          let top ← ops.agtypeHashScalarValue v top
          extractPathLoop ops rest (resetTop (top :: below)) (entries ++ [top])
      | .endArray => extractPathLoop ops rest (resetTop below) entries
      | .endObject => extractPathLoop ops rest (resetTop below) entries

def ginExtractAgtypePath (ops : HashOps) (agt : AgtypeValue) : Except HashError (List UInt32) :=
  if agt.rootCount = 0 then .ok [] else extractPathLoop ops agt.tokens [0] []

def ginExtractAgtypeQueryPath (ops : HashOps) (strategy : Nat) (query : AgtypeValue) :
    Except GinError (List UInt32 × GinSearchMode) :=
  if strategy = agtypeContainsStrategyNumber then do
    let entries ← (ginExtractAgtypePath ops query).mapError .hash
    return (entries, if entries.length = 0 then .all else .default)
  else .error (.unrecognizedStrategy strategy)

section Entries

variable (ops : HashOps)

/-- The hash of the keys on a path. -/
def pathHash (path : List Bytes) : UInt32 :=
  path.foldl (fun hash key => HashOps.mixHash hash (ops.hashAny key)) 0

/-- The entries of a list of items: the hash of each scalar below its keys. -/
def itemHashes : List (List Bytes × Token) → Except HashError (List UInt32)
  | [] => .ok []
  | (path, token) :: rest =>
      match token.leaf? with
      | none => itemHashes rest
      | some v => do
          let hash ← ops.agtypeHashScalarValue v (pathHash ops path)
          let hashes ← itemHashes rest
          return hash :: hashes

theorem itemHashes_append (first second : List (List Bytes × Token)) :
    itemHashes ops (first ++ second) = do
      let before ← itemHashes ops first
      let after ← itemHashes ops second
      return before ++ after := by
  induction first with
  | nil => cases rest : itemHashes ops second <;> simp [itemHashes, rest, bind, Except.bind, pure, Except.pure]
  | cons item rest inductionHypothesis =>
      obtain ⟨path, token⟩ := item
      rw [List.cons_append, itemHashes, itemHashes, inductionHypothesis]
      cases token.leaf? with
      | none => rfl
      | some v =>
          simp only
          cases ops.agtypeHashScalarValue v (pathHash ops path) <;>
            cases itemHashes ops rest <;> cases itemHashes ops second <;> rfl

/-- What the loop does with the tokens of a node: emit the hashes of its scalars,
and go back to the hash of the parent. -/
def EmitsItems (v : AgtypeValue) : Prop :=
  ∀ (leaf : AgtypeValue → Token) (path : List Bytes) (below entries : List UInt32)
    (rest : List Token), leaf = .elem ∨ leaf = .value →
    extractPathLoop ops (v.nodeTokens leaf ++ rest) (pathHash ops path :: below) entries = do
      let hashes ← itemHashes ops (v.nodeItems path leaf)
      extractPathLoop ops rest (below.headD 0 :: below) (entries ++ hashes)

theorem emitsItems_scalar {v : AgtypeValue} (scalar : v.isScalar = true) : EmitsItems ops v := by
  intro leaf path below entries rest isLeaf
  rw [AgtypeValue.nodeTokens_scalar leaf scalar, AgtypeValue.nodeItems_scalar scalar]
  rcases isLeaf with rfl | rfl
  all_goals
    cases hash : ops.agtypeHashScalarValue v (pathHash ops path) with
    | error error =>
        simp [extractPathLoop, itemHashes, Token.leaf?, hash, bind, Except.bind]
    | ok top =>
        simp [extractPathLoop, itemHashes, Token.leaf?, hash, bind, Except.bind, resetTop, pure,
          Except.pure]

/-- The elements of an array; the open array has the hash of its path on top of
the same hash. -/
theorem extractPathLoop_elems {elems : List AgtypeValue}
    (children : ∀ elem ∈ elems, EmitsItems ops elem) (path : List Bytes)
    (below entries : List UInt32) (rest : List Token) :
    extractPathLoop ops (AgtypeValue.elemTokens elems ++ rest)
        (pathHash ops path :: pathHash ops path :: below) entries =
      (itemHashes ops (AgtypeValue.elemItems path elems)).bind fun hashes =>
        extractPathLoop ops rest (pathHash ops path :: pathHash ops path :: below)
          (entries ++ hashes) := by
  induction elems generalizing entries with
  | nil => simp [AgtypeValue.elemTokens, AgtypeValue.elemItems, itemHashes, Except.bind]
  | cons elem others inductionHypothesis =>
      rw [AgtypeValue.elemTokens, List.append_assoc,
        children elem List.mem_cons_self .elem path _ _ _ (.inl rfl), AgtypeValue.elemItems,
        itemHashes_append]
      cases first : itemHashes ops (elem.nodeItems path .elem) with
      | error error => rfl
      | ok hashes =>
          simp only [bind, Except.bind, List.headD_cons]
          rw [inductionHypothesis fun other membership =>
            children other (List.mem_cons_of_mem _ membership)]
          cases others : itemHashes ops (AgtypeValue.elemItems path others) <;>
            simp [Except.bind, pure, Except.pure]

theorem pathHash_append (path : List Bytes) (key : Bytes) :
    pathHash ops (path ++ [key]) =
      HashOps.mixHash (pathHash ops path) (ops.hashAny key) := by
  simp [pathHash]

theorem extractPathLoop_pairs {pairs : List AgtypePair}
    (children : ∀ pair ∈ pairs, EmitsItems ops pair.2) (path : List Bytes)
    (below entries : List UInt32) (rest : List Token) :
    extractPathLoop ops (AgtypeValue.pairTokens pairs ++ rest)
        (pathHash ops path :: pathHash ops path :: below) entries =
      (itemHashes ops (AgtypeValue.pairItems path pairs)).bind fun hashes =>
        extractPathLoop ops rest (pathHash ops path :: pathHash ops path :: below)
          (entries ++ hashes) := by
  induction pairs generalizing entries with
  | nil => simp [AgtypeValue.pairTokens, AgtypeValue.pairItems, itemHashes, Except.bind]
  | cons pair others inductionHypothesis =>
      obtain ⟨key, value⟩ := pair
      have keyHash : ops.agtypeHashScalarValue (.string key) (pathHash ops path) =
          .ok (pathHash ops (path ++ [key])) := by
        rw [pathHash_append]
        rfl
      rw [AgtypeValue.pairTokens, List.cons_append, extractPathLoop]
      simp only [keyHash, bind, Except.bind]
      rw [List.append_assoc,
        children (key, value) List.mem_cons_self .value (path ++ [key]) _ _ _ (.inr rfl),
        AgtypeValue.pairItems, itemHashes]
      simp only [Token.leaf?]
      rw [itemHashes_append]
      cases first : itemHashes ops (value.nodeItems (path ++ [key]) .value) with
      | error error => rfl
      | ok hashes =>
          simp only [bind, Except.bind, List.headD_cons]
          rw [inductionHypothesis fun other membership =>
            children other (List.mem_cons_of_mem _ membership)]
          cases others : itemHashes ops (AgtypeValue.pairItems path others) <;>
            simp [Except.bind, pure, Except.pure]

theorem emitsItems (v : AgtypeValue) : EmitsItems ops v := by
  induction v using AgtypeValue.inductionOn with
  | array rawScalar elems children =>
      intro leaf path below entries rest _
      rw [AgtypeValue.nodeTokens, List.cons_append, List.append_assoc, extractPathLoop]
      rw [extractPathLoop_elems ops children, AgtypeValue.nodeItems]
      rfl
  | object pairs children =>
      intro leaf path below entries rest _
      rw [AgtypeValue.nodeTokens, List.cons_append, List.append_assoc, extractPathLoop]
      rw [extractPathLoop_pairs ops children, AgtypeValue.nodeItems]
      rfl
  | _ => exact emitsItems_scalar ops rfl

theorem ginExtractAgtypePath_eq {agt : AgtypeValue} (container : agt.isScalar = false) :
    ginExtractAgtypePath ops agt = itemHashes ops agt.items := by
  rw [ginExtractAgtypePath]
  split_ifs with empty
  · cases agt <;> cases container
    all_goals
      rw [AgtypeValue.rootCount, List.length_eq_zero_iff] at empty
      subst empty
      rfl
  · have emits := emitsItems ops agt .elem [] [] [] [] (.inl rfl)
    rw [List.append_nil] at emits
    rw [AgtypeValue.tokens, AgtypeValue.items]
    refine emits.trans ?_
    cases itemHashes ops (agt.nodeItems [] .elem) <;> rfl

theorem mem_itemHashes {items : List (List Bytes × Token)} {hashes : List UInt32}
    (emitted : itemHashes ops items = .ok hashes) {path : List Bytes} {token : Token}
    {v : AgtypeValue} (membership : (path, token) ∈ items) (leaf : token.leaf? = some v) :
    ∃ hash ∈ hashes, ops.agtypeHashScalarValue v (pathHash ops path) = .ok hash := by
  induction items generalizing hashes with
  | nil => cases membership
  | cons item rest inductionHypothesis =>
      obtain ⟨path', token'⟩ := item
      rw [itemHashes] at emitted
      rcases List.mem_cons.mp membership with here | later
      · cases here
        rw [leaf] at emitted
        obtain ⟨hash, hashed, others⟩ := bind_ok emitted
        obtain ⟨otherHashes, _, result⟩ := bind_ok others
        cases result
        exact ⟨hash, List.mem_cons_self, hashed⟩
      · split at emitted
        · exact inductionHypothesis emitted later
        · obtain ⟨hash, _, others⟩ := bind_ok emitted
          obtain ⟨otherHashes, emittedOthers, result⟩ := bind_ok others
          cases result
          obtain ⟨found, foundIn, hashed⟩ := inductionHypothesis emittedOthers later
          exact ⟨found, List.mem_cons_of_mem _ foundIn, hashed⟩

/-- Items whose scalars all hash to one of some hashes emit only these. -/
theorem itemHashes_subset {items : List (List Bytes × Token)} {hashes : List UInt32}
    (found : ∀ item ∈ items, ∀ v, item.2.leaf? = some v →
      ∃ hash ∈ hashes, ops.agtypeHashScalarValue v (pathHash ops item.1) = .ok hash) :
    ∃ emitted, itemHashes ops items = .ok emitted ∧ ∀ hash ∈ emitted, hash ∈ hashes := by
  induction items with
  | nil => exact ⟨[], rfl, by simp⟩
  | cons item rest inductionHypothesis =>
      obtain ⟨path, token⟩ := item
      obtain ⟨others, emitted, within⟩ :=
        inductionHypothesis fun item membership => found item (List.mem_cons_of_mem _ membership)
      rw [itemHashes, emitted]
      cases leaf : token.leaf? with
      | none => exact ⟨others, rfl, within⟩
      | some v =>
          obtain ⟨hash, hashIn, hashed⟩ := found (path, token) List.mem_cons_self v leaf
          refine ⟨hash :: others, ?_, List.forall_mem_cons.mpr ⟨hashIn, within⟩⟩
          simp [hashed, bind, Except.bind, pure, Except.pure]

end Entries

section Completeness

variable {orderOps : OrderOps} {ops : HashOps}

/-- Equal scalars have equal hashes. -/
def HashRespects (orderOps : OrderOps) (ops : HashOps) : Prop :=
  ∀ a b, TreatedEqual orderOps a b → ops.scalarHash a = ops.scalarHash b

/-- The hashes of a covered container are among the hashes of the covering one. -/
theorem itemHashes_of_covers (respects : HashRespects orderOps ops) {v q : AgtypeValue}
    (covers : Covers (TreatedEqual orderOps) .elem v q) {hashes : List UInt32}
    (indexed : itemHashes ops v.items = .ok hashes) :
    ∃ query, itemHashes ops q.items = .ok query ∧ ∀ hash ∈ query, hash ∈ hashes := by
  refine itemHashes_subset ops fun item membership leafValue leaf => ?_
  obtain ⟨token, tokenIn, isMatch⟩ := covers [] item membership
  have found {a b : AgtypeValue} (same : TreatedEqual orderOps a b) (there : token.leaf? = some a)
      (here : item.2.leaf? = some b) : ∃ hash ∈ hashes,
        ops.agtypeHashScalarValue leafValue (pathHash ops item.1) = .ok hash := by
    obtain ⟨hash, hashIn, hashed⟩ := mem_itemHashes ops indexed tokenIn there
    refine ⟨hash, hashIn, ?_⟩
    cases here.symm.trans leaf
    rw [← hashed, HashOps.agtypeHashScalarValue, HashOps.agtypeHashScalarValue, respects _ _ same]
  generalize item.2 = itemToken at isMatch leaf found
  cases isMatch with
  | key val => cases leaf
  | value same => exact found same rfl rfl
  | elem same => exact found same rfl rfl

/-- A root that can be hashed is no entity, so its own container is searched. -/
theorem getEntityPropertiesContainer_of_itemHashes {root : AgtypeValue} {hashes : List UInt32}
    (indexed : itemHashes ops root.items = .ok hashes) :
    getEntityPropertiesContainer root = .ok (some root) := by
  have noEntity {entity : AgtypeValue} {rest : List AgtypeValue} {error : HashError}
      (equal : root = .array true (entity :: rest)) (scalar : entity.isScalar = true)
      (fails : ops.scalarHash entity = .error error) : False := by
    obtain ⟨hash, _, hashed⟩ := mem_itemHashes ops indexed
      (v := entity) (by
        rw [equal]
        refine AgtypeValue.mem_elemItems.mpr ⟨entity, List.mem_cons_self, ?_⟩
        rw [AgtypeValue.nodeItems_scalar scalar]
        exact List.mem_singleton_self _) rfl
    rw [HashOps.agtypeHashScalarValue, fails] at hashed
    cases hashed
  fun_cases getEntityPropertiesContainer root with
  | case1 pairs rest => exact (noEntity rfl rfl rfl).elim
  | case2 pairs rest => exact (noEntity rfl rfl rfl).elim
  | case3 elems rest => exact (noEntity rfl rfl rfl).elim
  | case4 => simp_all

/-- The path hashes of a contained query are among the path hashes of the value:
of every query that `agtype_deep_contains` finds, and of every query that the
operator finds and that has path hashes at all. -/
theorem ginExtractAgtypeQueryPath_complete (respects : HashRespects orderOps ops)
    {v q : AgtypeValue} {hashes : List UInt32}
    (indexed : ginExtractAgtypePath ops v.root = .ok hashes) :
    (agtypeDeepContains orderOps false v.root q.root = .ok true →
      ∃ query mode, ginExtractAgtypeQueryPath ops agtypeContainsStrategyNumber q.root =
        .ok (query, mode) ∧ ∀ hash ∈ query, hash ∈ hashes) ∧
    (agtypeContains orderOps v.root q.root = .ok true → ∀ query mode,
      ginExtractAgtypeQueryPath ops agtypeContainsStrategyNumber q.root = .ok (query, mode) →
        ∀ hash ∈ query, hash ∈ hashes) := by
  rw [ginExtractAgtypePath_eq ops v.isScalar_root] at indexed
  have extract : ginExtractAgtypeQueryPath ops agtypeContainsStrategyNumber q.root =
      ((itemHashes ops q.root.items).mapError .hash).bind fun entries =>
        .ok (entries, if entries.length = 0 then .all else .default) := by
    rw [ginExtractAgtypeQueryPath, if_pos rfl, ginExtractAgtypePath_eq ops q.isScalar_root]
    rfl
  rw [extract]
  refine ⟨fun contains => ?_, fun contains query mode extracted => ?_⟩
  · obtain ⟨query, emitted, within⟩ := itemHashes_of_covers respects
      (covers_of_agtypeDeepContains .elem (fun a b sameType tested => ⟨sameType, .inl tested⟩)
        contains) indexed
    rw [emitted]
    exact ⟨query, _, rfl, within⟩
  · cases emitted : itemHashes ops q.root.items with
    | error error =>
        rw [emitted] at extracted
        cases extracted
    | ok found =>
        rw [emitted] at extracted
        cases extracted
        obtain ⟨query, again, within⟩ := itemHashes_of_covers respects
          (covers_of_agtypeContains contains (getEntityPropertiesContainer_of_itemHashes indexed)
            (getEntityPropertiesContainer_of_itemHashes emitted)) indexed
        cases emitted.symm.trans again
        exact within

/-- The server's hash functions, for values without numerics. -/
def hashOpsWithoutNumeric : HashOps := { Server.hashOps with hashNumeric := fun _ => 0 }

theorem hashFloat8_eq {a b : Float8} (alike : a.isNaN = true ∧ b.isNaN = true ∨
    a.isNaN = false ∧ b.isNaN = false ∧ a.place = b.place) :
    Server.hashFloat8 a = Server.hashFloat8 b := by
  unfold Server.hashFloat8
  rcases alike with ⟨nanA, nanB⟩ | ⟨nanA, nanB, places⟩
  · rw [nanA, nanB, if_pos rfl, if_pos rfl]
  · rw [nanA, nanB, places]
    by_cases zero : b.place = 0
    · simp [zero]
    · rw [Float8.eq_of_place places zero]

theorem hashRespects_withoutNumeric : HashRespects Server.orderOps hashOpsWithoutNumeric := by
  intro a b same
  cases scalarAlike_of_treatedEqual threeWay_memcmp same with
  | refl => rfl
  | numeric => rfl
  | float alike => exact congrArg Except.ok (hashFloat8_eq alike)
  | vertex => rfl
  | edge => rfl
  | path => rfl

/-- `{"a": [1, {"b": "x"}]}` is found in `{"a": [{"b": "x", "c": null}, 1], "d": true}`. -/
theorem ginExtractAgtypeQueryPath_complete_nested :
    ∃ hashes query mode,
      ginExtractAgtypePath hashOpsWithoutNumeric
        (.object [([97], .array false
            [.object [([98], .string [120]), ([99], .null)], .integer 1]),
          ([100], .bool true)]) = .ok hashes ∧
      ginExtractAgtypeQueryPath hashOpsWithoutNumeric agtypeContainsStrategyNumber
        (.object [([97], .array false [.integer 1, .object [([98], .string [120])]])]) =
          .ok (query, mode) ∧
      query.length = 2 ∧ ∀ hash ∈ query, hash ∈ hashes := by
  have complete := ginExtractAgtypeQueryPath_complete hashRespects_withoutNumeric
    (v := .object [([97], .array false
        [.object [([98], .string [120]), ([99], .null)], .integer 1]), ([100], .bool true)])
    (q := .object [([97], .array false [.integer 1, .object [([98], .string [120])]])]) rfl
  obtain ⟨query, mode, extracted, within⟩ := complete.1 (by decide +kernel)
  refine ⟨_, query, mode, rfl, extracted, ?_, within⟩
  cases extracted
  rfl

end Completeness

end Age.Agtype
