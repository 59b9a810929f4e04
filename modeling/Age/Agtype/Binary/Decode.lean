import Age.Agtype.Binary.Read

/-!
# What the iterator returns

A region of memory that holds a tree is read back as that tree: the iterator
returns the tokens of the tree, and with enough fuel every node is filled in
with its value.
-/

namespace Age.Agtype

open Lib
open Filter (atTop Eventually eventually_gt_atTop)

/-- Calls of the iterator that lead from one state to another. -/
inductive Yields (fill : Fill) (skipNested : Bool) :
    AgtypeIterator → List ByteToken → AgtypeIterator → Prop where
  | none {it : AgtypeIterator} : Yields fill skipNested it [] it
  | next {it middle last : AgtypeIterator} {token : ByteToken} {rest : List ByteToken} :
      agtypeIteratorNext fill skipNested it = .ok (some token, middle) →
      Yields fill skipNested middle rest last → Yields fill skipNested it (token :: rest) last

namespace Yields

variable {fill : Fill} {skipNested : Bool} {it middle last : AgtypeIterator}

theorem append {first second : List ByteToken} (before : Yields fill skipNested it first middle)
    (after : Yields fill skipNested middle second last) :
    Yields fill skipNested it (first ++ second) last := by
  induction before with
  | none => exact after
  | next step _ inductionHypothesis => exact .next step (inductionHypothesis after)

theorem single {token : ByteToken}
    (step : agtypeIteratorNext fill skipNested it = .ok (some token, middle)) :
    Yields fill skipNested it [token] middle := .next step .none

/-- Only the first call looks at where the iterator stands. -/
theorem of_same_next {it' : AgtypeIterator} {tokens : List ByteToken}
    (same : agtypeIteratorNext fill skipNested it = agtypeIteratorNext fill skipNested it')
    (nonempty : tokens ≠ []) (yields : Yields fill skipNested it' tokens last) :
    Yields fill skipNested it tokens last := by
  cases yields with
  | none => exact absurd rfl nonempty
  | next step rest => exact .next (same.trans step) rest

/-- Calls that use up all iterators are the whole loop. -/
theorem iterate_eq {tokens : List ByteToken} (yields : Yields fill skipNested it tokens [])
    {steps : Nat} (enough : tokens.length < steps) :
    iterate fill skipNested steps it = .ok tokens := by
  obtain ⟨last, isLast⟩ : ∃ last : AgtypeIterator, last = [] := ⟨[], rfl⟩
  rw [← isLast] at yields
  induction yields generalizing steps with
  | none =>
      obtain ⟨steps, rfl⟩ := Nat.exists_eq_succ_of_ne_zero (by omega : steps ≠ 0)
      subst isLast
      rfl
  | next step _ inductionHypothesis =>
      rw [List.length_cons] at enough
      obtain ⟨steps, rfl⟩ := Nat.exists_eq_succ_of_ne_zero (by omega : steps ≠ 0)
      rw [iterate, step]
      change (iterate fill skipNested steps _).bind _ = _
      rw [inductionHypothesis (by omega) isLast]
      rfl

end Yields

section Levels

/-- An iterator inside an array. -/
def elemLevel (container base : Bytes) (isScalar : Bool) (numElems index offset : Nat) :
    IteratorLevel where
  container := container
  numElems := numElems
  isScalar := isScalar
  dataProper := base
  currIndex := index
  currDataOffset := offset
  currValueOffset := 0
  state := .arrayElem

/-- An iterator inside an object, before a key. -/
def keyLevel (container base : Bytes) (numElems index keyOffset valueOffset : Nat) :
    IteratorLevel where
  container := container
  numElems := numElems
  isScalar := false
  dataProper := base
  currIndex := index
  currDataOffset := keyOffset
  currValueOffset := valueOffset
  state := .objectKey

/-- The iterator of a container before its first call. -/
structure Starts (container : Bytes) (level : IteratorLevel) (token : ByteToken)
    (inside : IteratorLevel) : Prop where
  fromContainer : iteratorFromContainer container = .ok level
  next : ∀ fill skipNested parents, agtypeIteratorNext fill skipNested (level :: parents) =
    .ok (iteratorStart level parents)
  start : ∀ parents, iteratorStart level parents = (some token, inside :: parents)

theorem starts_array {container : Bytes} {rawScalar : Bool} {count : Nat}
    (header : HeaderIs container (if rawScalar then 5 else 4) count) :
    ∃ level, Starts container level (.beginArray rawScalar count)
      (elemLevel container (dataProper container count) rawScalar count 0 0) := by
  refine ⟨{ elemLevel container (dataProper container count) rawScalar count 0 0 with
    state := .arrayStart }, ?_, fun _ _ _ => rfl, fun _ => rfl⟩
  rw [iteratorFromContainer, header.isArray, header.isObject, header.isScalar, header.size]
  cases rawScalar <;> rfl

theorem starts_object {container : Bytes} {count : Nat} (header : HeaderIs container 2 count) :
    ∃ level, Starts container level (.beginObject count)
      (keyLevel container (dataProper container (2 * count)) count 0 0
        (getAgtypeOffset container count)) := by
  refine ⟨{ keyLevel container (dataProper container (2 * count)) count 0 0 0 with
    state := .objectStart }, ?_, fun _ _ _ => rfl, fun _ => rfl⟩
  rw [iteratorFromContainer, header.isArray, header.isObject, header.size]
  rfl

/-- A node at an entry, for the iterator or for random access. -/
structure SlotAt (container base : Bytes) (index offset length : Nat) (v : AgtypeValue) :
    Prop where
  entry : EntryIs (containerChild container index) offset length
  start : getAgtypeOffset container index = offset
  node : NodeAt (agteType (containerChild container index)) base offset length v

/-- A container is filled in as a pointer to it. -/
theorem fill_container {container base : Bytes} {index offset length : Nat}
    {v : AgtypeValue} (slot : SlotAt container base index offset length v)
    (nested : v.isScalar = false) :
    ∃ data len, ContainerAt data v ∧
      ∀ fuel, fillAgtypeValue fuel container index base offset = .ok (.binary data len) := by
  obtain ⟨kind, contents⟩ := (nodeAt_container nested).mp slot.node
  refine ⟨base.drop (intAlign offset),
    getAgtypeLength container index - (intAlign offset - offset), contents, fun fuel => ?_⟩
  cases fuel <;> simp only [fillAgtypeValue, fillWith, kind] <;> rfl

/-- With enough fuel, the node is filled in with the scalar. -/
def FillsScalar (v : AgtypeValue) : Prop :=
  ∀ kind base offset length, NodeAt kind base offset length v →
    ∀ᶠ fuel in atTop, ∀ container index,
      agteType (containerChild container index) = kind →
      getAgtypeLength container index = length →
      fillAgtypeValue fuel container index base offset = .ok (.scalar v)

/-- With enough fuel, the container is iterated as the tokens of the tree. -/
def Iterates (v : AgtypeValue) : Prop :=
  ∀ container, ContainerAt container v → ∃ level token inside,
    Starts container level token inside ∧
    ∀ᶠ fuel in atTop, ∀ parents,
      Yields (fillAgtypeValue fuel) false (level :: parents) (v.tokens.map Token.toByte) parents

/-- What reading has to give back for a node. -/
def Decodes (v : AgtypeValue) : Prop :=
  (v.isScalar = true → FillsScalar v) ∧ (v.isScalar = false → Iterates v)

end Levels

section Iteration

open AgtypeValue

theorem tokens_ne_nil (v : AgtypeValue) : v.tokens.map Token.toByte ≠ [] := by
  cases v <;> simp [tokens, nodeTokens]

theorem iteratorNode_nested {data : Bytes} {level inside : IteratorLevel} {token : ByteToken}
    (starts : Starts data level token inside) (leaf : Filled → ByteToken) (len : Nat)
    (it : AgtypeIterator) (fill : Fill) :
    iteratorNode false leaf (.binary data len) it =
      agtypeIteratorNext fill false (level :: it) := by
  rw [starts.next, iteratorNode, starts.fromContainer]
  rfl

/-- The call that reads an element of an array. -/
theorem next_elem {fill : Fill} {container base : Bytes} {index offset length : Nat}
    {val : Filled} (filled : fill container index base offset = .ok val)
    (entry : EntryIs (containerChild container index) offset length) (skipNested : Bool)
    {s : Bool} {n : Nat} (parents : AgtypeIterator) (inside : index < n) :
    agtypeIteratorNext fill skipNested
        (elemLevel container base s n index offset :: parents) =
      iteratorNode skipNested .elem val
        (elemLevel container base s n (index + 1) (offset + length) ::
          parents) := by
  simp only [agtypeIteratorNext, elemLevel, if_neg (Nat.not_le.mpr inside), filled,
    entry.advance]
  rfl

theorem next_endArray {fill : Fill} (skipNested : Bool) (container base : Bytes)
    (isScalar : Bool) (numElems offset : Nat) (parents : AgtypeIterator) :
    agtypeIteratorNext fill skipNested
        (elemLevel container base isScalar numElems numElems offset :: parents) =
      .ok (some .endArray, parents) := by
  simp [agtypeIteratorNext, elemLevel]

/-- A node of an array is returned, or stepped into. -/
theorem yields_elem {v : AgtypeValue} (decodes : Decodes v) {container base : Bytes}
    {index offset length : Nat} (slot : SlotAt container base index offset length v) :
    ∀ᶠ fuel in atTop, ∀ (isScalar : Bool) (numElems : Nat) (parents : AgtypeIterator),
      index < numElems →
      Yields (fillAgtypeValue fuel) false
        (elemLevel container base isScalar numElems index offset :: parents)
        ((nodeTokens .elem v).map Token.toByte)
        (elemLevel container base isScalar numElems (index + 1) (offset + length) ::
          parents) := by
  cases nested : v.isScalar with
  | true =>
      filter_upwards [decodes.1 nested _ _ _ _ slot.node] with fuel filled
      intro isScalar numElems parents inside
      rw [nodeTokens_scalar _ nested]
      refine .single ?_
      rw [next_elem (filled container index rfl (slot.entry.length slot.start)) slot.entry
        false parents inside]
      rfl
  | false =>
      obtain ⟨data, len, contents, fill⟩ := fill_container slot nested
      obtain ⟨level, token, child, starts, inner⟩ := decodes.2 nested data contents
      filter_upwards [inner] with fuel yields
      intro isScalar numElems parents inside
      rw [nodeTokens_container _ nested]
      refine .of_same_next ?_ (tokens_ne_nil v) (yields _)
      rw [next_elem (fill fuel) slot.entry false parents inside]
      exact iteratorNode_nested starts .elem len _ _

/-- The elements of an array, up to its end token. -/
theorem yields_elems {elems : List AgtypeValue} (decodes : ∀ elem ∈ elems, Decodes elem)
    {container base : Bytes} {i o : Nat}
    (start : getAgtypeOffset container i = o)
    (contents : ElemsAt container base i o elems) :
    ∀ᶠ fuel in atTop, ∀ (isScalar : Bool) (parents : AgtypeIterator),
      Yields (fillAgtypeValue fuel) false
        (elemLevel container base isScalar (i + elems.length) i o :: parents)
        ((elemTokens elems ++ [Token.endArray]).map Token.toByte) parents := by
  induction elems generalizing i o with
  | nil =>
      refine Eventually.of_forall fun fuel isScalar parents => .single ?_
      exact next_endArray false container base isScalar i o parents
  | cons elem rest inductionHypothesis =>
      obtain ⟨length, entry, node, after⟩ := contents
      have slot : SlotAt container base i o length elem := ⟨entry, start, node⟩
      filter_upwards [yields_elem (decodes elem (by simp)) slot,
        inductionHypothesis (fun other membership => decodes other (by simp [membership]))
          (entry.offset_succ start) after] with fuel first others
      intro isScalar parents
      rw [elemTokens, List.append_assoc, List.map_append, List.length_cons]
      refine (first isScalar _ parents (by omega)).append ?_
      have counts : i + (rest.length + 1) = i + 1 + rest.length := by omega
      rw [counts]
      exact others isScalar parents

theorem iterates_array {rawScalar : Bool} {elems : List AgtypeValue}
    (decodes : ∀ elem ∈ elems, Decodes elem) : Iterates (.array rawScalar elems) := by
  intro container contents
  obtain ⟨level, starts⟩ := starts_array contents.1
  refine ⟨level, _, _, starts, ?_⟩
  filter_upwards [yields_elems decodes (i := 0) (o := 0) rfl contents.2]
    with fuel yields
  intro parents
  have step := starts.next (fillAgtypeValue fuel) false parents
  rw [starts.start] at step
  refine .next step ?_
  simpa using yields rawScalar parents

/-- An iterator inside an object, between a key and its value. -/
def valueLevel (container base : Bytes) (numElems index keyOffset valueOffset : Nat) :
    IteratorLevel :=
  { keyLevel container base numElems index keyOffset valueOffset with state := .objectValue }

/-- A key is filled in whatever the fuel. -/
theorem fill_key {container base key : Bytes} {index offset : Nat}
    (entry : EntryIs (containerChild container index) offset key.length)
    (start : getAgtypeOffset container index = offset)
    (kind : agteType (containerChild container index) = agtentryIsString)
    (bytes : (base.drop offset).take key.length = key) (fuel : Nat) :
    fillAgtypeValue fuel container index base offset = .ok (.scalar (.string key)) := by
  have length := entry.length start
  cases fuel <;> simp only [fillAgtypeValue, fillWith, kind, length, bytes] <;> rfl

theorem next_key {fill : Fill} {container base key : Bytes} {index keyOffset v : Nat}
    (filled : fill container index base keyOffset = .ok (.scalar (.string key)))
    (skipNested : Bool) {numElems : Nat} (parents : AgtypeIterator) (inside : index < numElems) :
    agtypeIteratorNext fill skipNested
        (keyLevel container base numElems index keyOffset v :: parents) =
      .ok (some (.key key),
        valueLevel container base numElems index keyOffset v :: parents) := by
  simp only [agtypeIteratorNext, keyLevel, valueLevel, if_neg (Nat.not_le.mpr inside), filled]
  rfl

theorem next_value {fill : Fill} {container base : Bytes}
    {index keyOffset keyLength valueOffset length numElems : Nat} {val : Filled}
    (filled : fill container (index + numElems) base valueOffset = .ok val)
    (keyEntry : EntryIs (containerChild container index) keyOffset keyLength)
    (entry : EntryIs (containerChild container (index + numElems)) valueOffset length)
    (skipNested : Bool) (parents : AgtypeIterator) :
    agtypeIteratorNext fill skipNested
        (valueLevel container base numElems index keyOffset valueOffset :: parents) =
      iteratorNode skipNested .value val
        (keyLevel container base numElems (index + 1) (keyOffset + keyLength)
          (valueOffset + length) :: parents) := by
  simp only [agtypeIteratorNext, valueLevel, keyLevel, filled, keyEntry.advance,
    entry.advance]
  rfl

theorem next_endObject {fill : Fill} (skipNested : Bool) (container base : Bytes)
    (numElems keyOffset valueOffset : Nat) (parents : AgtypeIterator) :
    agtypeIteratorNext fill skipNested
        (keyLevel container base numElems numElems keyOffset valueOffset :: parents) =
      .ok (some .endObject, parents) := by
  simp [agtypeIteratorNext, keyLevel]

/-- A value of an object is returned, or stepped into. -/
theorem yields_value {v : AgtypeValue} (decodes : Decodes v) {container base : Bytes}
    {index keyOffset keyLength valueOffset length numElems : Nat}
    (keyEntry : EntryIs (containerChild container index) keyOffset keyLength)
    (slot : SlotAt container base (index + numElems) valueOffset length v) :
    ∀ᶠ fuel in atTop, ∀ (parents : AgtypeIterator),
      Yields (fillAgtypeValue fuel) false
        (valueLevel container base numElems index keyOffset valueOffset :: parents)
        ((nodeTokens .value v).map Token.toByte)
        (keyLevel container base numElems (index + 1) (keyOffset + keyLength)
          (valueOffset + length) :: parents) := by
  cases nested : v.isScalar with
  | true =>
      filter_upwards [decodes.1 nested _ _ _ _ slot.node] with fuel filled
      intro parents
      rw [nodeTokens_scalar _ nested]
      refine .single ?_
      rw [next_value (filled container _ rfl (slot.entry.length slot.start)) keyEntry
        slot.entry false parents]
      rfl
  | false =>
      obtain ⟨data, len, contents, fill⟩ := fill_container slot nested
      obtain ⟨level, token, child, starts, inner⟩ := decodes.2 nested data contents
      filter_upwards [inner] with fuel yields
      intro parents
      rw [nodeTokens_container _ nested]
      refine .of_same_next ?_ (tokens_ne_nil v) (yields _)
      rw [next_value (fill fuel) keyEntry slot.entry false parents]
      exact iteratorNode_nested starts .value len _ _

/-- The pairs of an object, up to its end token. -/
theorem yields_pairs {pairs : List AgtypePair} (decodes : ∀ pair ∈ pairs, Decodes pair.2)
    {container base : Bytes} {n index keyOffset valueOffset stop : Nat}
    (counts : index + pairs.length = n)
    (keyStart : getAgtypeOffset container index = keyOffset)
    (valueStart : getAgtypeOffset container (index + n) = valueOffset)
    (keys : KeysAt container base index keyOffset (pairs.map Prod.fst) stop)
    (values : ValuesAt container base (index + n) valueOffset pairs) :
    ∀ᶠ fuel in atTop, ∀ (parents : AgtypeIterator),
      Yields (fillAgtypeValue fuel) false
        (keyLevel container base n index keyOffset valueOffset :: parents)
        ((pairTokens pairs ++ [Token.endObject]).map Token.toByte) parents := by
  induction pairs generalizing index keyOffset valueOffset with
  | nil =>
      simp only [List.length_nil, Nat.add_zero] at counts
      subst counts
      refine Eventually.of_forall fun fuel parents => .single ?_
      exact next_endObject false container base index keyOffset valueOffset parents
  | cons pair rest inductionHypothesis =>
      obtain ⟨key, value⟩ := pair
      rw [List.length_cons] at counts
      obtain ⟨keyEntry, keyKind, keyBytes, keysAfter⟩ := keys
      obtain ⟨length, entry, node, valuesAfter⟩ := values
      have shift : index + n + 1 = index + 1 + n := by omega
      rw [shift] at valuesAfter
      have others := inductionHypothesis
        (fun other membership => decodes other (by simp [membership]))
        (by omega) (keyEntry.offset_succ keyStart)
        (shift ▸ entry.offset_succ valueStart) keysAfter valuesAfter
      filter_upwards [yields_value (decodes (key, value) (by simp)) keyEntry
        ⟨entry, valueStart, node⟩, others] with fuel first yields
      intro parents
      simp only [pairTokens, List.cons_append, List.append_assoc, List.map_cons,
        List.map_append]
      refine .next (next_key (fill_key keyEntry keyStart keyKind keyBytes fuel) false
        parents (by omega)) ?_
      refine (first parents).append ?_
      simpa using yields parents

/-- Where the keys end, the values begin. -/
theorem keysAt_stop {container base : Bytes} {i offset stop : Nat} {keys : List Bytes}
    (start : getAgtypeOffset container i = offset)
    (contents : KeysAt container base i offset keys stop) :
    getAgtypeOffset container (i + keys.length) = stop := by
  induction keys generalizing i offset with
  | nil => exact start.trans contents
  | cons key rest inductionHypothesis =>
      obtain ⟨entry, _, _, after⟩ := contents
      have counts : i + (rest.length + 1) = i + 1 + rest.length := by omega
      rw [List.length_cons, counts]
      exact inductionHypothesis (entry.offset_succ start) after

theorem iterates_object {pairs : List AgtypePair}
    (decodes : ∀ pair ∈ pairs, Decodes pair.2) : Iterates (.object pairs) := by
  intro container contents
  obtain ⟨level, starts⟩ := starts_object contents.1
  obtain ⟨-, stop, keys, values⟩ := contents
  have valueStart := keysAt_stop (i := 0) rfl keys
  rw [List.length_map, Nat.zero_add] at valueStart
  rw [valueStart] at starts
  refine ⟨level, _, _, starts, ?_⟩
  have inner := yields_pairs decodes (Nat.zero_add pairs.length) rfl
    (by simpa using valueStart) keys (by simpa using values)
  filter_upwards [inner] with fuel yields
  intro parents
  have step := starts.next (fillAgtypeValue fuel) false parents
  rw [starts.start] at step
  exact .next step (yields parents)

end Iteration

section Composites

open AgtypeValue

/-- What the iterator returns for a node when it does not step into it. -/
def Shallow (leaf : Filled → ByteToken) (v : AgtypeValue) (token : ByteToken) : Prop :=
  (v.isScalar = true ∧ token = leaf (.scalar v)) ∨
    (v.isScalar = false ∧ ∃ data len, ContainerAt data v ∧ token = leaf (.binary data len))

/-- With enough fuel, a node is filled in as its shallow token says. -/
theorem fills_shallow {v : AgtypeValue} (decodes : Decodes v) {container base : Bytes}
    {index offset length : Nat} (slot : SlotAt container base index offset length v) :
    ∃ val, (∀ leaf, Shallow leaf v (leaf val)) ∧
      ∀ᶠ fuel in atTop, fillAgtypeValue fuel container index base offset = .ok val := by
  cases nested : v.isScalar with
  | true =>
      refine ⟨.scalar v, fun leaf => .inl ⟨nested, rfl⟩, ?_⟩
      filter_upwards [decodes.1 nested _ _ _ _ slot.node] with fuel filled
      exact filled container index rfl (slot.entry.length slot.start)
  | false =>
      obtain ⟨data, len, contents, fill⟩ := fill_container slot nested
      exact ⟨.binary data len, fun leaf => .inr ⟨nested, data, len, contents, rfl⟩,
        Eventually.of_forall fill⟩

theorem iteratorNode_shallow (leaf : Filled → ByteToken) (val : Filled) (it : AgtypeIterator) :
    iteratorNode true leaf val it = .ok (some (leaf val), it) := by
  cases val <;> rfl

theorem shallow_elems {elems : List AgtypeValue} (decodes : ∀ elem ∈ elems, Decodes elem)
    {container base : Bytes} {index offset : Nat}
    (start : getAgtypeOffset container index = offset)
    (contents : ElemsAt container base index offset elems) :
    ∃ tokens, List.Forall₂ (Shallow .elem) elems tokens ∧
      ∀ᶠ fuel in atTop, ∀ (isScalar : Bool) (parents : AgtypeIterator),
        Yields (fillAgtypeValue fuel) true
          (elemLevel container base isScalar (index + elems.length) index offset :: parents)
          (tokens ++ [.endArray]) parents := by
  induction elems generalizing index offset with
  | nil =>
      refine ⟨[], .nil, Eventually.of_forall fun fuel isScalar parents => .single ?_⟩
      exact next_endArray true container base isScalar index offset parents
  | cons elem rest inductionHypothesis =>
      obtain ⟨length, entry, node, after⟩ := contents
      obtain ⟨val, shallow, filled⟩ := fills_shallow (decodes elem (by simp))
        ⟨entry, start, node⟩
      obtain ⟨tokens, shallows, yields⟩ := inductionHypothesis
        (fun other membership => decodes other (by simp [membership]))
        (entry.offset_succ start) after
      refine ⟨.elem val :: tokens, .cons (shallow .elem) shallows, ?_⟩
      filter_upwards [filled, yields] with fuel fill others
      intro isScalar parents
      have step := next_elem fill entry true (s := isScalar)
        (n := index + (rest.length + 1)) parents (by omega)
      rw [iteratorNode_shallow] at step
      have counts : index + (rest.length + 1) = index + 1 + rest.length := by omega
      refine .next step ?_
      rw [counts]
      exact others isScalar parents

/-- Keys and shallow values in turn. -/
def shallowPairs : List AgtypePair → List ByteToken → List ByteToken
  | (key, _) :: pairs, token :: tokens => .key key :: token :: shallowPairs pairs tokens
  | _, _ => []

theorem shallow_pairs {pairs : List AgtypePair} (decodes : ∀ pair ∈ pairs, Decodes pair.2)
    {container base : Bytes} {n index keyOffset valueOffset stop : Nat}
    (counts : index + pairs.length = n)
    (keyStart : getAgtypeOffset container index = keyOffset)
    (valueStart : getAgtypeOffset container (index + n) = valueOffset)
    (keys : KeysAt container base index keyOffset (pairs.map Prod.fst) stop)
    (values : ValuesAt container base (index + n) valueOffset pairs) :
    ∃ tokens, List.Forall₂ (fun pair => Shallow .value pair.2) pairs tokens ∧
      ∀ᶠ fuel in atTop, ∀ (parents : AgtypeIterator),
        Yields (fillAgtypeValue fuel) true
          (keyLevel container base n index keyOffset valueOffset :: parents)
          (shallowPairs pairs tokens ++ [.endObject]) parents := by
  induction pairs generalizing index keyOffset valueOffset with
  | nil =>
      simp only [List.length_nil, Nat.add_zero] at counts
      subst counts
      refine ⟨[], .nil, Eventually.of_forall fun fuel parents => .single ?_⟩
      exact next_endObject true container base index keyOffset valueOffset parents
  | cons pair rest inductionHypothesis =>
      obtain ⟨key, value⟩ := pair
      rw [List.length_cons] at counts
      obtain ⟨keyEntry, keyKind, keyBytes, keysAfter⟩ := keys
      obtain ⟨length, entry, node, valuesAfter⟩ := values
      have shift : index + n + 1 = index + 1 + n := by omega
      rw [shift] at valuesAfter
      obtain ⟨val, shallow, filled⟩ := fills_shallow (decodes (key, value) (by simp))
        ⟨entry, valueStart, node⟩
      obtain ⟨tokens, shallows, yields⟩ := inductionHypothesis
        (fun other membership => decodes other (by simp [membership]))
        (by omega) (keyEntry.offset_succ keyStart)
        (shift ▸ entry.offset_succ valueStart) keysAfter valuesAfter
      refine ⟨.value val :: tokens, .cons (shallow .value) shallows, ?_⟩
      filter_upwards [filled, yields] with fuel fill others
      intro parents
      have step := next_value fill keyEntry entry true parents
      rw [iteratorNode_shallow] at step
      exact .next (next_key (fill_key keyEntry keyStart keyKind keyBytes fuel) true parents
        (by omega)) (.next step (others parents))

/-- Pushing what the iterator returns is pushing the tokens of the tree. -/
theorem foldlM_pushByteToken {tokens : List Token}
    (notRaw : ∀ token ∈ tokens, token.isRawArray = false) (state : PushState) :
    (tokens.map Token.toByte).foldlM pushByteToken state =
      (pushAll state tokens).mapError .push := by
  induction tokens generalizing state with
  | nil => rfl
  | cons token rest inductionHypothesis =>
      have step : pushByteToken state token.toByte =
          (pushAgtypeValueScalar state token).mapError .push := by
        cases token with
        | beginArray rawScalar numElems =>
            have plain : rawScalar = false := notRaw _ List.mem_cons_self
            subst plain
            rfl
        | _ => rfl
      rw [List.map_cons, List.foldlM_cons, step, pushAll_cons]
      cases pushAgtypeValueScalar state token with
      | error e => rfl
      | ok next =>
          exact inductionHypothesis (fun t inside => notRaw t (by simp [inside])) next

/-- No token opens a raw scalar. -/
def NoRawArray (tokens : List Token) : Prop := ∀ token ∈ tokens, token.isRawArray = false

theorem noRawArray_elemTokens {elems : List AgtypeValue}
    (children : ∀ elem ∈ elems, NoRawArray (nodeTokens .elem elem)) :
    NoRawArray (elemTokens elems) := by
  induction elems with
  | nil => simp [NoRawArray, elemTokens]
  | cons elem rest inductionHypothesis =>
      intro token membership
      rw [elemTokens, List.mem_append] at membership
      rcases membership with first | later
      · exact children elem (by simp) token first
      · exact inductionHypothesis (fun e inside => children e (by simp [inside])) token later

theorem noRawArray_pairTokens {pairs : List AgtypePair}
    (children : ∀ pair ∈ pairs, NoRawArray (nodeTokens .value pair.2)) :
    NoRawArray (pairTokens pairs) := by
  induction pairs with
  | nil => simp [NoRawArray, pairTokens]
  | cons pair rest inductionHypothesis =>
      obtain ⟨key, value⟩ := pair
      intro token membership
      rw [pairTokens, List.mem_cons, List.mem_append] at membership
      rcases membership with rfl | first | later
      · rfl
      · exact children (key, value) (by simp) token first
      · exact inductionHypothesis (fun p inside => children p (by simp [inside])) token later

theorem noRawArray_nodeTokens {v : AgtypeValue} (built : Built v) :
    NoRawArray (nodeTokens .elem v) ∧ NoRawArray (nodeTokens .value v) := by
  induction built with
  | @array elems _ _ children =>
      have inner := noRawArray_elemTokens fun elem inside => (children elem inside).1
      constructor <;>
      · intro token membership
        simp only [nodeTokens, List.mem_cons, List.mem_append, List.not_mem_nil,
          or_false] at membership
        rcases membership with rfl | inside | rfl
        · rfl
        · exact inner token inside
        · rfl
  | @object pairs _ _ _ children =>
      have inner := noRawArray_pairTokens fun pair inside => (children pair inside).2
      constructor <;>
      · intro token membership
        simp only [nodeTokens, List.mem_cons, List.mem_append, List.not_mem_nil,
          or_false] at membership
        rcases membership with rfl | inside | rfl
        · rfl
        · exact inner token inside
        · rfl
  | _ => simp [NoRawArray, nodeTokens, Token.isRawArray]

/-- Unpacking a nested container pushes the tokens of the tree. -/
theorem unpack_eq {v : AgtypeValue} (decodes : Decodes v) (built : Built v)
    (nested : v.isScalar = false) {data : Bytes} (contents : ContainerAt data v) :
    ∀ᶠ fuel in atTop, ∀ state : PushState,
      (do
        let it ← iteratorFromContainer data
        (← iterate (fillAgtypeValue fuel) false fuel [it]).foldlM pushByteToken state) =
      (pushAll state v.tokens).mapError .push := by
  obtain ⟨level, token, inside, starts, inner⟩ := decodes.2 nested data contents
  filter_upwards [inner, eventually_gt_atTop (v.tokens.map Token.toByte).length]
    with fuel yields enough
  intro state
  rw [starts.fromContainer]
  change (iterate (fillAgtypeValue fuel) false fuel [level] >>= fun tokens =>
    tokens.foldlM pushByteToken state) = _
  rw [(yields []).iterate_eq enough]
  have notRaw := (noRawArray_nodeTokens built).1
  rw [nodeTokens_container _ nested] at notRaw
  exact foldlM_pushByteToken notRaw state

/-- Pushing a shallow element appends the node to an array. -/
theorem push_shallow_elem {v : AgtypeValue} (decodes : Decodes v) (built : Built v)
    {token : ByteToken} (shallow : Shallow .elem v token) :
    ∀ᶠ fuel in atTop, ∀ res rawScalar elems next, elems.length < agtypeMaxElems →
      ∃ res', pushAgtypeValue (fillAgtypeValue fuel) fuel
          (res, .array rawScalar elems :: next) token =
        .ok (res', .array rawScalar (elems ++ [v]) :: next) := by
  have rebuilds := (rebuilds_of_built built).1
  rcases shallow with ⟨scalar, rfl⟩ | ⟨nested, data, len, contents, rfl⟩
  · refine Eventually.of_forall fun fuel res rawScalar elems next room => ?_
    refine ⟨none, ?_⟩
    simp only [pushAgtypeValue, pushByteToken, pushAgtypeValueScalar, appendElement,
      if_neg (Nat.not_le.mpr room)]
    rfl
  · filter_upwards [unpack_eq decodes built nested contents] with fuel unpack
    intro res rawScalar elems next room
    obtain ⟨res', pushed⟩ := rebuilds res rawScalar elems next room
    refine ⟨res', (unpack _).trans ?_⟩
    rw [← nodeTokens_container .elem nested, pushed]
    rfl

/-- Pushing a shallow value completes a pair of an object. -/
theorem push_shallow_value {v : AgtypeValue} (decodes : Decodes v) (built : Built v)
    {token : ByteToken} (shallow : Shallow .value v token) :
    ∀ᶠ fuel in atTop, ∀ res pairs key next,
      ∃ res', pushAgtypeValue (fillAgtypeValue fuel) fuel
          (res, .object pairs (some key) :: next) token =
        .ok (res', .object (pairs ++ [(key, v)]) none :: next) := by
  have rebuilds := (rebuilds_of_built built).2
  rcases shallow with ⟨scalar, rfl⟩ | ⟨nested, data, len, contents, rfl⟩
  · exact Eventually.of_forall fun fuel res pairs key next => ⟨none, rfl⟩
  · filter_upwards [unpack_eq decodes built nested contents] with fuel unpack
    intro res pairs key next
    obtain ⟨res', pushed⟩ := rebuilds res pairs key next
    refine ⟨res', (unpack _).trans ?_⟩
    rw [← nodeTokens_container .value nested, pushed]
    rfl

theorem push_shallow_elems {elems : List AgtypeValue} {tokens : List ByteToken}
    (decodes : ∀ elem ∈ elems, Decodes elem) (built : ∀ elem ∈ elems, Built elem)
    (shallows : List.Forall₂ (Shallow .elem) elems tokens) :
    ∀ᶠ fuel in atTop, ∀ res rawScalar acc next, acc.length + elems.length ≤ agtypeMaxElems →
      ∃ res', tokens.foldlM (pushAgtypeValue (fillAgtypeValue fuel) fuel)
          (res, .array rawScalar acc :: next) =
        .ok (res', .array rawScalar (acc ++ elems) :: next) := by
  induction shallows with
  | nil => exact Eventually.of_forall fun fuel res rawScalar acc next _ => ⟨res, by simp; rfl⟩
  | @cons elem token rest tokens shallow _ inductionHypothesis =>
      filter_upwards [push_shallow_elem (decodes elem (by simp)) (built elem (by simp)) shallow,
        inductionHypothesis (fun e inside => decodes e (by simp [inside]))
          (fun e inside => built e (by simp [inside]))] with fuel first others
      intro res rawScalar acc next bounded
      rw [List.length_cons] at bounded
      obtain ⟨middle, pushed⟩ := first res rawScalar acc next (by omega)
      obtain ⟨last, rest⟩ := others middle rawScalar (acc ++ [elem]) next (by simp; omega)
      refine ⟨last, ?_⟩
      rw [List.foldlM_cons, pushed]
      rw [List.append_assoc] at rest
      exact rest

theorem push_shallow_pairs {pairs : List AgtypePair} {tokens : List ByteToken}
    (decodes : ∀ pair ∈ pairs, Decodes pair.2) (built : ∀ pair ∈ pairs, Built pair.2)
    (shallows : List.Forall₂ (fun pair => Shallow .value pair.2) pairs tokens) :
    ∀ᶠ fuel in atTop, ∀ res acc next, acc.length + pairs.length ≤ agtypeMaxPairs →
      ∃ res', (shallowPairs pairs tokens).foldlM (pushAgtypeValue (fillAgtypeValue fuel) fuel)
          (res, .object acc none :: next) =
        .ok (res', .object (acc ++ pairs) none :: next) := by
  induction shallows with
  | nil => exact Eventually.of_forall fun fuel res acc next _ => ⟨res, by simp [shallowPairs]; rfl⟩
  | @cons pair token rest tokens shallow _ inductionHypothesis =>
      obtain ⟨key, value⟩ := pair
      filter_upwards [push_shallow_value (decodes (key, value) (by simp))
          (built (key, value) (by simp)) shallow,
        inductionHypothesis (fun p inside => decodes p (by simp [inside]))
          (fun p inside => built p (by simp [inside]))] with fuel first others
      intro res acc next bounded
      rw [List.length_cons] at bounded
      obtain ⟨middle, pushed⟩ := first none acc key next
      obtain ⟨last, rest⟩ := others middle (acc ++ [(key, value)]) next (by simp; omega)
      refine ⟨last, ?_⟩
      have keyed : pushAgtypeValue (fillAgtypeValue fuel) fuel (res, .object acc none :: next)
          (.key key) = .ok (none, .object acc (some key) :: next) := by
        simp only [pushAgtypeValue, pushByteToken, pushAgtypeValueScalar, appendKey,
          if_neg (show ¬agtypeMaxPairs ≤ acc.length by omega)]
        rfl
      rw [shallowPairs, List.foldlM_cons, keyed]
      change (do
        let state ← pushAgtypeValue (fillAgtypeValue fuel) fuel
          (none, .object acc (some key) :: next) token
        (shallowPairs _ tokens).foldlM _ state) = _
      rw [pushed]
      rw [List.append_assoc] at rest
      exact rest

theorem readLE_drop (width : Nat) (memory : Bytes) (start offset : Nat) :
    readLE width (memory.drop start) offset = readLE width memory (start + offset) := by
  simp [readLE, List.drop_drop]

theorem agDeserializeComposite_eq {fill : Fill} {steps : Nat} {base : Bytes}
    {level : IteratorLevel} {tokens : List ByteToken} {parsed : Option AgtypeValue}
    {stack : AgtypeParseState} {type : AgtypeValueType}
    (start : iteratorFromContainer (base.drop 4) = .ok level)
    (all : iterate fill true steps [level] = .ok tokens)
    (folded : tokens.foldlM (pushAgtypeValue fill steps) (none, []) = .ok (parsed, stack)) :
    agDeserializeComposite fill steps base type = entityOf type parsed := by
  simp only [agDeserializeComposite, start, all, folded, bind, Except.bind]

/-- An entity that is stored as an object is pushed back as its pairs. -/
theorem composite_object {pairs : List AgtypePair} (decodes : ∀ pair ∈ pairs, Decodes pair.2)
    (built : ∀ pair ∈ pairs, Built pair.2) (increasing : KeysIncrease pairs)
    (bounded : pairs.length ≤ agtypeMaxPairs) {base : Bytes}
    (contents : ObjectAt (base.drop 4) pairs) :
    ∀ᶠ fuel in atTop,
      agDeserializeComposite (fillAgtypeValue fuel) fuel base .vertex = .ok (.vertex pairs) ∧
      agDeserializeComposite (fillAgtypeValue fuel) fuel base .edge = .ok (.edge pairs) := by
  obtain ⟨level, starts⟩ := starts_object contents.1
  obtain ⟨-, stop, keys, values⟩ := contents
  have valueStart := keysAt_stop (i := 0) rfl keys
  rw [List.length_map, Nat.zero_add] at valueStart
  rw [valueStart] at starts
  obtain ⟨tokens, shallows, inner⟩ := shallow_pairs decodes
    (Nat.zero_add pairs.length) rfl (by simpa using valueStart) keys (by simpa using values)
  filter_upwards [inner, push_shallow_pairs decodes built shallows,
    eventually_gt_atTop (shallowPairs pairs tokens).length.succ.succ] with fuel yields push enough
  have step := starts.next (fillAgtypeValue fuel) true []
  rw [starts.start] at step
  have all : iterate (fillAgtypeValue fuel) true fuel [level] =
      .ok (.beginObject pairs.length :: (shallowPairs pairs tokens ++ [.endObject])) :=
    (Yields.next step (yields [])).iterate_eq (by simpa using enough)
  obtain ⟨last, pushed⟩ := push (some (.object [])) [] [] (by simpa using bounded)
  have folded : (ByteToken.beginObject pairs.length ::
      (shallowPairs pairs tokens ++ [ByteToken.endObject])).foldlM
        (pushAgtypeValue (fillAgtypeValue fuel) fuel) (none, []) =
      .ok (some (.object pairs), []) := by
    rw [List.foldlM_cons]
    change (shallowPairs pairs tokens ++ [ByteToken.endObject]).foldlM _
      (some (AgtypeValue.object []), [ContVal.object [] none]) = _
    rw [List.foldlM_append, pushed]
    change (pushAgtypeValueScalar (last, [.object pairs none]) .endObject).mapError .push >>= pure = _
    rw [pushAgtypeValueScalar]
    simp only [uniqueify_eq_self increasing]
    rfl
  exact ⟨agDeserializeComposite_eq starts.fromContainer all folded,
    agDeserializeComposite_eq starts.fromContainer all folded⟩

/-- An entity that is stored as an array is pushed back as its elements. -/
theorem composite_array {elems : List AgtypeValue} (decodes : ∀ elem ∈ elems, Decodes elem)
    (built : ∀ elem ∈ elems, Built elem) (bounded : elems.length ≤ agtypeMaxElems)
    {base : Bytes} (contents : ArrayAt (base.drop 4) false elems) :
    ∀ᶠ fuel in atTop,
      agDeserializeComposite (fillAgtypeValue fuel) fuel base .path = .ok (.path elems) := by
  obtain ⟨level, starts⟩ := starts_array contents.1
  obtain ⟨tokens, shallows, inner⟩ := shallow_elems decodes rfl
    contents.2
  filter_upwards [inner, push_shallow_elems decodes built shallows,
    eventually_gt_atTop tokens.length.succ.succ] with fuel yields push enough
  have step := starts.next (fillAgtypeValue fuel) true []
  rw [starts.start] at step
  have inside := yields false []
  rw [Nat.zero_add] at inside
  have all : iterate (fillAgtypeValue fuel) true fuel [level] =
      .ok (.beginArray false elems.length :: (tokens ++ [.endArray])) :=
    (Yields.next step inside).iterate_eq (by simpa using enough)
  obtain ⟨last, pushed⟩ := push (some (.array false [])) false [] [] (by simpa using bounded)
  have folded : (ByteToken.beginArray false elems.length ::
      (tokens ++ [ByteToken.endArray])).foldlM
        (pushAgtypeValue (fillAgtypeValue fuel) fuel) (none, []) =
      .ok (some (.array false elems), []) := by
    rw [List.foldlM_cons]
    change (tokens ++ [ByteToken.endArray]).foldlM _
      (some (AgtypeValue.array false []), [ContVal.array false []]) = _
    rw [List.foldlM_append, pushed]
    rfl
  exact agDeserializeComposite_eq starts.fromContainer all folded

/-- The branch of `fill_agtype_value` for an extended type. -/
theorem fill_agtype {composite : Bytes → AgtypeValueType → Except ReadError AgtypeValue}
    {container base : Bytes} {index offset : Nat}
    (kind : agteType (containerChild container index) = agtentryIsAgtype) :
    fillWith composite container index base offset =
      (agDeserializeExtendedType composite base offset).map .scalar := by
  simp only [fillWith, kind]
  cases agDeserializeExtendedType composite base offset <;> rfl

/-- What holds of reading with some fuel left holds of all larger fuels. -/
theorem eventually_of_succ {p q : Nat → Prop} (inner : ∀ᶠ fuel in atTop, p fuel)
    (step : ∀ fuel, p fuel → q (fuel + 1)) : ∀ᶠ fuel in atTop, q fuel := by
  obtain ⟨bound, all⟩ := Filter.eventually_atTop.mp inner
  refine Filter.eventually_atTop.mpr ⟨bound + 1, fun fuel large => ?_⟩
  obtain ⟨fuel, rfl⟩ := Nat.exists_eq_succ_of_ne_zero (by omega : fuel ≠ 0)
  exact step fuel (all fuel (by omega))

/-- A numeric that starts here is read by the size in its own header. -/
theorem readNumeric_eq {data : Bytes} {val : Numeric}
    (bytes : data.take val.image.length = val.image) :
    readNumeric data = .ok (.numeric val) := by
  have header : data.take 4 = val.image.take 4 := by
    rw [← bytes, List.take_take, min_eq_left val.hasHeader]
  have size : varsize4b data = val.image.length := by
    rw [← val.varsize]
    simp only [varsize4b, readLE, List.drop_zero, header]
  simp only [readNumeric, size, bytes]
  rw [dif_pos ⟨val.hasHeader, val.varsize⟩]

theorem fillsScalar_simple {v : AgtypeValue}
    (filled : ∀ composite kind base offset length, NodeAt kind base offset length v →
      ∀ container index, agteType (containerChild container index) = kind →
        getAgtypeLength container index = length →
        fillWith composite container index base offset = .ok (.scalar v)) :
    FillsScalar v := by
  intro kind base offset length node
  refine Eventually.of_forall fun fuel container index isKind hasLength => ?_
  cases fuel <;> exact filled _ kind base offset length node container index isKind hasLength

theorem fillsScalar_entity {v : AgtypeValue}
    (filled : ∀ kind base offset length, NodeAt kind base offset length v →
      kind = agtentryIsAgtype ∧ ∀ᶠ fuel in atTop,
        agDeserializeExtendedType (agDeserializeComposite (fillAgtypeValue fuel) fuel)
          base offset = .ok v) :
    FillsScalar v := by
  intro kind base offset length node
  obtain ⟨isAgtype, inner⟩ := filled kind base offset length node
  refine eventually_of_succ inner fun fuel deserialized container index isKind _ => ?_
  rw [fillAgtypeValue, fill_agtype (isKind.trans isAgtype), deserialized]
  rfl

theorem fillsScalar_null : FillsScalar .null := by
  refine fillsScalar_simple fun composite kind base offset length node container index isKind _ => ?_
  have isNull : kind = agtentryIsNull := node
  simp only [fillWith, isKind, isNull]
  rfl

theorem fillsScalar_string (val : Bytes) : FillsScalar (.string val) := by
  refine fillsScalar_simple fun composite kind base offset length node container index isKind
    hasLength => ?_
  obtain ⟨isString, -, bytes⟩ := node
  simp only [fillWith, isKind, isString, hasLength, bytes]
  rfl

theorem fillsScalar_numeric (val : Numeric) : FillsScalar (.numeric val) := by
  refine fillsScalar_simple fun composite kind base offset length node container index isKind _ => ?_
  obtain ⟨isNumeric, bytes⟩ := node
  simp only [fillWith, isKind, isNumeric, readNumeric_eq bytes]
  rfl

theorem fillsScalar_bool (val : Bool) : FillsScalar (.bool val) := by
  refine fillsScalar_simple fun composite kind base offset length node container index isKind _ => ?_
  have isBool : kind = if val then agtentryIsBoolTrue else agtentryIsBoolFalse := node
  cases val <;> simp only [fillWith, isKind, isBool] <;> rfl

theorem fillsScalar_integer (val : Int64) : FillsScalar (.integer val) := by
  refine fillsScalar_simple fun composite kind base offset length node container index isKind _ => ?_
  obtain ⟨isAgtype, header, word⟩ := node
  rw [fill_agtype (isKind.trans isAgtype), agDeserializeExtendedType]
  simp only [readLE_drop, Nat.add_zero, header, word, if_true, UInt64.ofNat_toNat]
  rfl

theorem fillsScalar_float (val : Float8) : FillsScalar (.float val) := by
  refine fillsScalar_simple fun composite kind base offset length node container index isKind _ => ?_
  obtain ⟨isAgtype, header, word⟩ := node
  rw [fill_agtype (isKind.trans isAgtype), agDeserializeExtendedType]
  simp only [readLE_drop, Nat.add_zero, header, word, UInt64.ofNat_toNat]
  rfl

/-- Every built tree is read back from the memory that holds it. -/
theorem decodes_of_built {v : AgtypeValue} (built : Built v) : Decodes v := by
  induction built with
  | null => exact ⟨fun _ => fillsScalar_null, nofun⟩
  | string val => exact ⟨fun _ => fillsScalar_string val, nofun⟩
  | numeric val => exact ⟨fun _ => fillsScalar_numeric val, nofun⟩
  | integer val => exact ⟨fun _ => fillsScalar_integer val, nofun⟩
  | float val => exact ⟨fun _ => fillsScalar_float val, nofun⟩
  | bool val => exact ⟨fun _ => fillsScalar_bool val, nofun⟩
  | vertex children increasing bounded decodes =>
      refine ⟨fun _ => fillsScalar_entity fun kind base offset length node => ?_, nofun⟩
      obtain ⟨isAgtype, header, contents⟩ := node
      rw [← List.drop_drop] at contents
      refine ⟨isAgtype, ?_⟩
      filter_upwards [composite_object decodes children increasing bounded contents]
        with fuel deserialized
      simp only [agDeserializeExtendedType, readLE_drop, Nat.add_zero, header]
      exact deserialized.1
  | edge children increasing bounded decodes =>
      refine ⟨fun _ => fillsScalar_entity fun kind base offset length node => ?_, nofun⟩
      obtain ⟨isAgtype, header, contents⟩ := node
      rw [← List.drop_drop] at contents
      refine ⟨isAgtype, ?_⟩
      filter_upwards [composite_object decodes children increasing bounded contents]
        with fuel deserialized
      simp only [agDeserializeExtendedType, readLE_drop, Nat.add_zero, header]
      exact deserialized.2
  | path children bounded decodes =>
      refine ⟨fun _ => fillsScalar_entity fun kind base offset length node => ?_, nofun⟩
      obtain ⟨isAgtype, header, contents⟩ := node
      rw [← List.drop_drop] at contents
      refine ⟨isAgtype, ?_⟩
      filter_upwards [composite_array decodes children bounded contents] with fuel deserialized
      simp only [agDeserializeExtendedType, readLE_drop, Nat.add_zero, header]
      exact deserialized
  | array children bounded decodes => exact ⟨nofun, fun _ => iterates_array decodes⟩
  | object children increasing bounded decodes =>
      exact ⟨nofun, fun _ => iterates_object decodes⟩

end Composites

section Roots

/-- What a filled-in node stands for: a scalar for itself, a pointer for the
tree its container is read as. -/
def Filled.Denotes (reads : Bytes → AgtypeValue → Prop) (val : Filled) (v : AgtypeValue) : Prop :=
  match val with
  | .scalar w => w = v
  | .binary data _ => v.isScalar = false ∧ reads data v

/-- A container is read as a tree: by the iterator, whose tokens push into
the tree again, and by random access to each child. -/
structure ReadsWith (reads : Bytes → AgtypeValue → Prop) (container : Bytes)
    (root : AgtypeValue) : Prop where
  iterated : ∀ᶠ fuel in atTop,
    agtypeTokens fuel container = .ok (root.tokens.map Token.toByte)
  rebuilt : pushAll (none, []) root.tokens = .ok (some root, [])
  elements : ∀ rawScalar elems, root = .array rawScalar elems → ∀ i (inside : i < elems.length),
    ∃ val, val.Denotes reads elems[i] ∧
      ∀ᶠ fuel in atTop, getIthAgtypeValue fuel container i = .ok (some val)
  pairs : ∀ pairs, root = .object pairs → ∀ i (inside : i < pairs.length),
    ∃ val, val.Denotes reads pairs[i].2 ∧
      ∀ᶠ fuel in atTop, getIthAgtypePair fuel container i = .ok (pairs[i].1, val)

/-- The containers down to a depth are read as the trees that they stand for. -/
def ReadsTo : Nat → Bytes → AgtypeValue → Prop
  | 0 => fun _ _ => True
  | depth + 1 => ReadsWith (ReadsTo depth)

/-- A container is read back as a tree at every depth. -/
def ReadsBack (container : Bytes) (root : AgtypeValue) : Prop :=
  ∀ depth, ReadsTo depth container root

theorem agtypeTokens_of_iterates {v : AgtypeValue} (iterates : Iterates v)
    {container : Bytes} (contents : ContainerAt container v) :
    ∀ᶠ fuel in atTop, agtypeTokens fuel container = .ok (v.tokens.map Token.toByte) := by
  obtain ⟨level, token, inside, starts, inner⟩ := iterates container contents
  filter_upwards [inner, eventually_gt_atTop (v.tokens.map Token.toByte).length]
    with fuel yields enough
  rw [agtypeTokens, starts.fromContainer]
  exact (yields []).iterate_eq enough

/-- Filling in a child gives what the child stands for. -/
theorem fills_denotes {reads : Bytes → AgtypeValue → Prop} {v : AgtypeValue} (decodes : Decodes v)
    (child : v.isScalar = false → ∀ data, ContainerAt data v → reads data v)
    {container base : Bytes} {index offset length : Nat}
    (slot : SlotAt container base index offset length v) :
    ∃ val, Filled.Denotes reads val v ∧
      ∀ᶠ fuel in atTop, fillAgtypeValue fuel container index base offset = .ok val := by
  obtain ⟨val, shallow, filled⟩ := fills_shallow decodes slot
  refine ⟨val, ?_, filled⟩
  rcases shallow .elem with ⟨_, equal⟩ | ⟨nested, data, len, contents, equal⟩
  · cases equal
    rfl
  · cases equal
    exact ⟨nested, child nested _ contents⟩

theorem elemsAt_slot {container base : Bytes} {index offset : Nat} {elems : List AgtypeValue}
    (start : getAgtypeOffset container index = offset)
    (contents : ElemsAt container base index offset elems) (i : Nat) (inside : i < elems.length) :
    ∃ slotOffset length, SlotAt container base (index + i) slotOffset length elems[i] := by
  induction elems generalizing index offset i with
  | nil => simp at inside
  | cons elem rest inductionHypothesis =>
      obtain ⟨length, entry, node, after⟩ := contents
      cases i with
      | zero => exact ⟨offset, length, entry, start, node⟩
      | succ i =>
          have shift : index + (i + 1) = index + 1 + i := by omega
          rw [shift]
          exact inductionHypothesis (entry.offset_succ start) after i (by simpa using inside)

theorem valuesAt_slot {container base : Bytes} {index offset : Nat} {pairs : List AgtypePair}
    (start : getAgtypeOffset container index = offset)
    (contents : ValuesAt container base index offset pairs) (i : Nat)
    (inside : i < pairs.length) :
    ∃ slotOffset length, SlotAt container base (index + i) slotOffset length pairs[i].2 := by
  induction pairs generalizing index offset i with
  | nil => simp at inside
  | cons pair rest inductionHypothesis =>
      obtain ⟨key, value⟩ := pair
      obtain ⟨length, entry, node, after⟩ := contents
      cases i with
      | zero => exact ⟨offset, length, entry, start, node⟩
      | succ i =>
          have shift : index + (i + 1) = index + 1 + i := by omega
          rw [shift]
          exact inductionHypothesis (entry.offset_succ start) after i (by simpa using inside)

theorem keysAt_slot {container base : Bytes} {index offset stop : Nat} {keys : List Bytes}
    (start : getAgtypeOffset container index = offset)
    (contents : KeysAt container base index offset keys stop) (i : Nat) (inside : i < keys.length) :
    (base.drop (getAgtypeOffset container (index + i))).take
      (getAgtypeLength container (index + i)) = keys[i] := by
  induction keys generalizing index offset i with
  | nil => simp at inside
  | cons key rest inductionHypothesis =>
      obtain ⟨entry, kind, bytes, after⟩ := contents
      cases i with
      | zero => simpa [start, entry.length start] using bytes
      | succ i =>
          have shift : index + (i + 1) = index + 1 + i := by omega
          rw [shift]
          exact inductionHypothesis (entry.offset_succ start) after i (by simpa using inside)

/-- Trees that are built are read from wherever they stand. -/
def ReadsBuilt (reads : Bytes → AgtypeValue → Prop) : Prop :=
  ∀ v, Built v → v.isScalar = false → ∀ data, ContainerAt data v → reads data v

theorem readsWith_array {reads : Bytes → AgtypeValue → Prop} (child : ReadsBuilt reads)
    {rawScalar : Bool} {elems : List AgtypeValue} {container : Bytes}
    (built : ∀ elem ∈ elems, Built elem) (bounded : elems.length ≤ agtypeMaxElems)
    (contents : ArrayAt container rawScalar elems) :
    ReadsWith reads container (.array rawScalar elems) where
  iterated := agtypeTokens_of_iterates
    (iterates_array fun elem inside => decodes_of_built (built elem inside)) contents
  rebuilt := pushAll_arrayTokens (fun elem inside => rebuilds_of_built (built elem inside))
    bounded rawScalar .elem none []
  elements := by
    rintro _ _ ⟨⟩ i inside
    obtain ⟨offset, length, slot⟩ := elemsAt_slot rfl contents.2 i inside
    rw [Nat.zero_add] at slot
    have isBuilt := built _ (List.getElem_mem inside)
    obtain ⟨val, denotes, filled⟩ :=
      fills_denotes (decodes_of_built isBuilt) (child _ isBuilt) slot
    refine ⟨val, denotes, ?_⟩
    filter_upwards [filled] with fuel fill
    have isArray : agtypeContainerIsArray container = true := by
      rw [contents.1.isArray]
      cases rawScalar <;> rfl
    simp only [getIthAgtypeValue, isArray, contents.1.size, slot.start,
      if_neg (Nat.not_le.mpr inside), fill]
    rfl
  pairs := nofun

theorem readsWith_object {reads : Bytes → AgtypeValue → Prop} (child : ReadsBuilt reads)
    {pairs : List AgtypePair} {container : Bytes}
    (built : ∀ pair ∈ pairs, Built pair.2) (increasing : KeysIncrease pairs)
    (bounded : pairs.length ≤ agtypeMaxPairs) (contents : ObjectAt container pairs) :
    ReadsWith reads container (.object pairs) where
  iterated := agtypeTokens_of_iterates
    (iterates_object fun pair inside => decodes_of_built (built pair inside)) contents
  rebuilt := pushAll_objectTokens (fun pair inside => rebuilds_of_built (built pair inside))
    increasing bounded .elem none []
  elements := nofun
  pairs := by
    rintro _ ⟨⟩ i inside
    obtain ⟨header, stop, keys, values⟩ := contents
    have valueStart := keysAt_stop rfl keys
    rw [List.length_map, Nat.zero_add] at valueStart
    obtain ⟨offset, length, slot⟩ := valuesAt_slot valueStart values i inside
    have isBuilt := built _ (List.getElem_mem inside)
    obtain ⟨val, denotes, filled⟩ :=
      fills_denotes (decodes_of_built isBuilt) (child _ isBuilt) slot
    have key := keysAt_slot rfl keys i (by simpa using inside)
    rw [Nat.zero_add, List.getElem_map] at key
    refine ⟨val, denotes, ?_⟩
    filter_upwards [filled] with fuel fill
    rw [Nat.add_comm] at fill slot
    rw [getIthAgtypePair, header.size, slot.start, key, fill]
    rfl

theorem readsTo_of_built (depth : Nat) : ReadsBuilt (ReadsTo depth) := by
  induction depth with
  | zero => exact fun _ _ _ _ _ => trivial
  | succ depth inductionHypothesis =>
      intro v built nested data contents
      cases built <;> cases nested
      case array.refl children bounded =>
        exact readsWith_array inductionHypothesis children bounded contents
      case object.refl children increasing bounded =>
        exact readsWith_object inductionHypothesis children increasing bounded contents

theorem readsBack_array {rawScalar : Bool} {elems : List AgtypeValue} {container : Bytes}
    (built : ∀ elem ∈ elems, Built elem) (bounded : elems.length ≤ agtypeMaxElems)
    (contents : ArrayAt container rawScalar elems) :
    ReadsBack container (.array rawScalar elems)
  | 0 => trivial
  | depth + 1 => readsWith_array (readsTo_of_built depth) built bounded contents

end Roots

end Age.Agtype
