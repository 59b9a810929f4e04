import Age.Agtype.Binary.RoundTrip
import Age.Agtype.Find

/-!
# What pushing leaves of an object

The calls of `push_agtype_value` describe a tree in which an object may have a key more than
once.  What they build has each key once, with the value that was pushed last, and the binary
search finds it.  A container that is pushed in its serialized form is unpacked and pushed piece
by piece, which comes to the calls that push its scalars.
-/

namespace Age.Agtype

open Lib Filter

section Unpacked

/-- What a call comes to: the token, or the tokens of the tree whose serialized form is pushed as
an element or a value. -/
inductive Unpacks : ByteToken → List Token → Prop where
  | token (token : Token) : token.isRawArray = false → Unpacks token.toByte [token]
  | elem {data : Bytes} {len : Nat} {v : AgtypeValue} : Built v → v.isScalar = false →
      ContainerAt data v → Unpacks (.elem (.binary data len)) v.tokens
  | value {data : Bytes} {len : Nat} {v : AgtypeValue} : Built v → v.isScalar = false →
      ContainerAt data v → Unpacks (.value (.binary data len)) v.tokens

theorem pushAgtypeValue_unpacked {call : ByteToken} {tokens : List Token}
    (unpacks : Unpacks call tokens) :
    ∀ᶠ fuel in atTop, ∀ state, pushAgtypeValue (fillAgtypeValue fuel) fuel state call =
      (pushAll state tokens).mapError .push := by
  cases unpacks with
  | token token notRaw =>
      refine .of_forall fun fuel state => ?_
      have single : pushAgtypeValue (fillAgtypeValue fuel) fuel state token.toByte =
          pushByteToken state token.toByte := by
        cases token <;> rfl
      have pushed := @foldlM_pushByteToken [token] (by simpa using notRaw) state
      rw [List.map_singleton, List.foldlM_cons] at pushed
      rw [single, ← pushed]
      cases pushByteToken state token.toByte <;> rfl
  | elem built nested contents => exact unpack_eq (decodes_of_built built) built nested contents
  | value built nested contents => exact unpack_eq (decodes_of_built built) built nested contents

/-- Calls that push serialized containers come to the calls that push their pieces. -/
theorem pushCalls_unpacked {calls : List ByteToken} {tokens : List (List Token)}
    (unpack : List.Forall₂ Unpacks calls tokens) :
    ∀ᶠ fuel in atTop, ∀ state,
      calls.foldlM (pushAgtypeValue (fillAgtypeValue fuel) fuel) state =
        (pushAll state tokens.flatten).mapError .push := by
  induction unpack with
  | nil => exact .of_forall fun _ _ => rfl
  | @cons call pieces rest others first _ inductionHypothesis =>
      filter_upwards [pushAgtypeValue_unpacked first, inductionHypothesis] with fuel run later
      intro state
      rw [List.flatten_cons, pushAll_append, List.foldlM_cons, run]
      cases pushAll state pieces with
      | error error => rfl
      | ok next => exact later next

end Unpacked

section LastPushed

/-- The value comes with the key, and no later pair has the key. -/
def LastPushed (pairs : List AgtypePair) (key : Bytes) (value : AgtypeValue) : Prop :=
  ∃ index : Nat, pairs[index]? = some (key, value) ∧
    ∀ later pair, index < later → pairs[later]? = some pair → pair.1 ≠ key

theorem LastPushed.exists {pairs : List AgtypePair} {key : Bytes}
    (pushed : key ∈ pairs.map Prod.fst) : ∃ value, LastPushed pairs key value := by
  induction pairs using List.reverseRecOn with
  | nil => cases pushed
  | append_singleton pairs pair ih =>
      by_cases same : pair.1 = key
      · refine ⟨pair.2, pairs.length, ?_, fun later other isLater found => ?_⟩
        · rw [List.getElem?_concat_length, ← same]
        · rw [List.getElem?_eq_none (by simpa using isLater)] at found
          cases found
      · have before : key ∈ pairs.map Prod.fst := by
          rw [List.map_append, List.mem_append] at pushed
          refine pushed.resolve_right fun last => same ?_
          exact (List.mem_singleton.1 last).symm
        obtain ⟨value, index, found, isLast⟩ := ih before
        have inRange := (List.getElem?_eq_some_iff.1 found).1
        refine ⟨value, index, by rw [List.getElem?_append_left inRange, found], ?_⟩
        intro later other isLater atLater
        rcases Nat.lt_or_ge later pairs.length with inside | outside
        · rw [List.getElem?_append_left inside] at atLater
          exact isLast later other isLater atLater
        · rw [List.getElem?_append_right outside] at atLater
          obtain rfl := List.mem_singleton.1 (List.mem_of_getElem? atLater)
          exact same

theorem LastPushed.unique {pairs : List AgtypePair} {key : Bytes} {first second : AgtypeValue}
    (isFirst : LastPushed pairs key first) (isSecond : LastPushed pairs key second) :
    first = second := by
  obtain ⟨i, atFirst, lastFirst⟩ := isFirst
  obtain ⟨j, atSecond, lastSecond⟩ := isSecond
  rcases lt_trichotomy i j with less | rfl | greater
  · exact absurd rfl (lastFirst j _ less atSecond)
  · rw [atFirst] at atSecond
    exact congrArg Prod.snd (Option.some.inj atSecond)
  · exact absurd rfl (lastSecond i _ greater atFirst)

theorem LastPushed.mem_keys {pairs : List AgtypePair} {key : Bytes} {value : AgtypeValue}
    (last : LastPushed pairs key value) : key ∈ pairs.map Prod.fst := by
  obtain ⟨_, found, _⟩ := last
  exact List.mem_map.2 ⟨_, List.mem_of_getElem? found, rfl⟩

/-- Of the pairs in order, those are kept that no pair of their key was pushed after. -/
theorem mem_dropRepeated {res : OrderedPair} {rest : List OrderedPair}
    (sorted : (res :: rest).Pairwise pairBefore)
    (orders : (res :: rest).Pairwise fun a b => a.2 ≠ b.2) {ptr : OrderedPair} :
    ptr ∈ res :: dropRepeated res rest ↔ ptr ∈ res :: rest ∧
      ∀ other ∈ res :: rest, other.1.1 = ptr.1.1 → other.2 ≤ ptr.2 := by
  have keys := threeWay_lengthCompare
  induction rest generalizing res with
  | nil =>
      rw [dropRepeated]
      refine ⟨fun inside => ⟨inside, fun other isOther _ => ?_⟩, fun both => both.1⟩
      rw [List.mem_singleton.1 inside, List.mem_singleton.1 isOther]
  | cons next rest ih =>
      obtain ⟨resBefore, sortedRest⟩ := List.pairwise_cons.1 sorted
      obtain ⟨resOrder, ordersRest⟩ := List.pairwise_cons.1 orders
      rw [dropRepeated]
      split_ifs with different
      · -- The key of `res` is smaller than all that follow.
        have smaller : ∀ other ∈ next :: rest, other.1.1 ≠ res.1.1 := by
          have step : lengthCompareAgtypeStringValue res.1.1 next.1.1 < 0 := by
            rcases resBefore next List.mem_cons_self with less | ⟨equal, _⟩
            · exact less
            · rw [keys.eq_zero_iff] at equal
              exact absurd ((keys.eq_zero_iff _ _).2 equal.symm) different
          intro other isOther same
          have after : lengthCompareAgtypeStringValue res.1.1 other.1.1 < 0 := by
            rcases List.mem_cons.1 isOther with rfl | isOther
            · exact step
            · rcases (List.pairwise_cons.1 sortedRest).1 other isOther with less | ⟨equal, _⟩
              · exact keys.neg_trans _ _ _ step less
              · rw [keys.eq_zero_iff] at equal
                exact equal ▸ step
          rw [same, (keys.eq_zero_iff _ _).2 rfl] at after
          exact lt_irrefl _ after
        have inner : ptr ∈ next :: dropRepeated next rest ↔ ptr ∈ next :: rest ∧
            ∀ other ∈ next :: rest, other.1.1 = ptr.1.1 → other.2 ≤ ptr.2 :=
          ih sortedRest ordersRest
        rw [List.mem_cons, inner]
        constructor
        · rintro (rfl | ⟨inside, last⟩)
          · refine ⟨List.mem_cons_self, fun other isOther same => ?_⟩
            rcases List.mem_cons.1 isOther with rfl | isOther
            · exact le_rfl
            · exact absurd same (smaller other isOther)
          · refine ⟨List.mem_cons_of_mem _ inside, fun other isOther same => ?_⟩
            rcases List.mem_cons.1 isOther with rfl | isOther
            · exact absurd same.symm (smaller ptr inside)
            · exact last other isOther same
        · rintro ⟨inside, last⟩
          rcases List.mem_cons.1 inside with rfl | inside
          · exact .inl rfl
          · exact .inr ⟨inside, fun other isOther => last other (List.mem_cons_of_mem _ isOther)⟩
      · -- `next` has the key of `res` and was pushed before it.
        rw [not_not, keys.eq_zero_iff] at different
        have earlier : next.2 ≤ res.2 := by
          rcases resBefore next List.mem_cons_self with less | ⟨_, order⟩
          · rw [different, (keys.eq_zero_iff _ _).2 rfl] at less
            exact absurd less (lt_irrefl _)
          · exact order
        have sub : (res :: rest).Sublist (res :: next :: rest) :=
          ((List.sublist_cons_self next rest).cons_cons res)
        have inner : ptr ∈ res :: dropRepeated res rest ↔ ptr ∈ res :: rest ∧
            ∀ other ∈ res :: rest, other.1.1 = ptr.1.1 → other.2 ≤ ptr.2 :=
          ih (sorted.sublist sub) (orders.sublist sub)
        rw [inner]
        constructor
        · rintro ⟨inside, last⟩
          refine ⟨sub.subset inside, fun other isOther same => ?_⟩
          rcases List.mem_cons.1 isOther with rfl | isOther
          · exact last _ List.mem_cons_self same
          · rcases List.mem_cons.1 isOther with rfl | isOther
            · exact earlier.trans (last res List.mem_cons_self (different.symm.trans same))
            · exact last other (List.mem_cons_of_mem _ isOther) same
        · rintro ⟨inside, last⟩
          refine ⟨?_, fun other isOther => last other (sub.subset isOther)⟩
          rcases List.mem_cons.1 inside with rfl | inside
          · exact List.mem_cons_self
          · rcases List.mem_cons.1 inside with rfl | inside
            · have later := last res List.mem_cons_self different.symm
              exact absurd (le_antisymm later earlier) (resOrder _ List.mem_cons_self)
            · exact List.mem_cons_of_mem _ inside

/-- An object keeps of each key the pair that was pushed last. -/
theorem mem_uniqueify {pairs : List AgtypePair} {key : Bytes} {value : AgtypeValue} :
    (key, value) ∈ uniqueifyAgtypeObject pairs ↔ LastPushed pairs key value := by
  have sorted := List.pairwise_insertionSort pairBefore pairs.zipIdx
  have perm := List.perm_insertionSort pairBefore pairs.zipIdx
  have orders : (pairs.zipIdx.insertionSort pairBefore).Pairwise fun a b => a.2 ≠ b.2 := by
    refine (perm.pairwise_iff fun different => different.symm).2 ?_
    have nodup : (pairs.zipIdx.map Prod.snd).Nodup := by
      rw [List.zipIdx_map_snd]
      exact List.nodup_range'
    exact List.pairwise_map.1 nodup
  have mem (ptr : OrderedPair) :
      ptr ∈ pairs.zipIdx.insertionSort pairBefore ↔ pairs[ptr.2]? = some ptr.1 := by
    rw [perm.mem_iff, List.mem_zipIdx_iff_getElem?]
  have last (index : Nat) : (∀ other ∈ pairs.zipIdx.insertionSort pairBefore,
      other.1.1 = key → other.2 ≤ index) ↔
        ∀ later pair, index < later → pairs[later]? = some pair → pair.1 ≠ key := by
    constructor
    · intro all later pair isLater found same
      have := all (pair, later) ((mem _).2 found) same
      omega
    · intro none other isOther same
      by_contra isLater
      exact none other.2 other.1 (by omega) ((mem _).1 isOther) same
  unfold uniqueifyAgtypeObject LastPushed
  split
  · rename_i empty
    refine iff_of_false List.not_mem_nil ?_
    rintro ⟨index, found, _⟩
    have inside := (mem ((key, value), index)).2 found
    rw [empty] at inside
    cases inside
  · rename_i first rest equation
    rw [equation] at sorted orders mem last
    rw [List.mem_map]
    constructor
    · rintro ⟨⟨pair, index⟩, kept, rfl⟩
      obtain ⟨inside, isLast⟩ := (mem_dropRepeated sorted orders).1 kept
      exact ⟨index, (mem _).1 inside, (last index).1 isLast⟩
    · rintro ⟨index, found, isLast⟩
      exact ⟨((key, value), index), (mem_dropRepeated sorted orders).2
        ⟨(mem _).2 found, (last index).2 isLast⟩, rfl⟩

theorem keys_uniqueify {pairs : List AgtypePair} {key : Bytes} :
    key ∈ (uniqueifyAgtypeObject pairs).map Prod.fst ↔ key ∈ pairs.map Prod.fst := by
  constructor
  · intro inside
    obtain ⟨⟨_, value⟩, kept, rfl⟩ := List.mem_map.1 inside
    exact (mem_uniqueify.1 kept).mem_keys
  · intro inside
    obtain ⟨value, last⟩ := LastPushed.exists inside
    exact List.mem_map.2 ⟨(key, value), mem_uniqueify.2 last, rfl⟩

end LastPushed

section Collecting

/-- A closed container goes to the container around it. -/
def collectResult (result : AgtypeValue) : AgtypeParseState → Option AgtypeParseState
  | [] => some []
  | .array rawScalar elems :: next => some (.array rawScalar (elems ++ [result]) :: next)
  | .object pairs (some key) :: next => some (.object (pairs ++ [(key, result)]) none :: next)
  | .object _ none :: _ => none

/-- A call taken at its word: all that is pushed is kept, in order.  There is no next state if
the brackets do not match or a key and its value do not alternate. -/
def collect (state : PushState) : Token → Option PushState
  | .beginArray rawScalar _ => some (some (.array rawScalar []), .array rawScalar [] :: state.2)
  | .beginObject _ => some (some (.object []), .object [] none :: state.2)
  | .key key =>
      match state.2 with
      | .object pairs none :: next => some (none, .object pairs (some key) :: next)
      | _ => none
  | .value value =>
      match state.2 with
      | .object pairs (some key) :: next =>
          some (none, .object (pairs ++ [(key, value)]) none :: next)
      | _ => none
  | .elem elem =>
      match state.2 with
      | .array rawScalar elems :: next => some (none, .array rawScalar (elems ++ [elem]) :: next)
      | _ => none
  | .endObject =>
      match state.2 with
      | .object pairs none :: next =>
          (collectResult (.object pairs) next).map (some (.object pairs), ·)
      | _ => none
  | .endArray =>
      match state.2 with
      | .array rawScalar elems :: next =>
          (collectResult (.array rawScalar elems) next).map (some (.array rawScalar elems), ·)
      | _ => none

/-- The tree that well-bracketed calls describe, with all pairs of all keys. -/
def collectAll (state : PushState) (tokens : List Token) : Option PushState :=
  tokens.foldlM collect state

/-- What a tree becomes: of each key of an object the value that was pushed last, at its place
among the keys. -/
inductive Settles : AgtypeValue → AgtypeValue → Prop where
  | scalar {v : AgtypeValue} : v.isScalar = true → Built v → Settles v v
  | array {rawScalar : Bool} {pushed elems : List AgtypeValue} : pushed.length = elems.length →
      (∀ (index : Nat) (before after : AgtypeValue), pushed[index]? = some before →
        elems[index]? = some after → Settles before after) → Settles (.array rawScalar pushed) (.array rawScalar elems)
  | object {pushed pairs : List AgtypePair} : KeysIncrease pairs →
      (∀ key, key ∈ pairs.map Prod.fst ↔ key ∈ pushed.map Prod.fst) →
      (∀ key value kept, LastPushed pushed key value → (key, kept) ∈ pairs → Settles value kept) →
      Settles (.object pushed) (.object pairs)

/-- The trees inside of a tree, itself one of them -/
inductive Within (inner : AgtypeValue) : AgtypeValue → Prop where
  | self : Within inner inner
  | elem {rawScalar : Bool} {elems : List AgtypeValue} {elem : AgtypeValue} :
      Within inner elem → elem ∈ elems → Within inner (.array rawScalar elems)
  | value {pairs : List AgtypePair} {pair : AgtypePair} :
      Within inner pair.2 → pair ∈ pairs → Within inner (.object pairs)

/-- Some open container has as many children as it may have. -/
def AgtypeParseState.Full (state : AgtypeParseState) : Prop :=
  ∃ cont ∈ state, match cont with
    | .array _ elems => agtypeMaxElems ≤ elems.length
    | .object pairs _ => agtypeMaxPairs ≤ pairs.length

end Collecting

section Simulation

/-- An open container holds what has been pushed into it, the closed trees settled. -/
inductive ContVal.Settles : ContVal → ContVal → Prop where
  | array {rawScalar : Bool} {pushed elems : List AgtypeValue} :
      List.Forall₂ Age.Agtype.Settles pushed elems →
      ContVal.Settles (.array rawScalar pushed) (.array rawScalar elems)
  | object {pushed pairs : List AgtypePair} {key : Option Bytes} :
      List.Forall₂ (fun before after => before.1 = after.1 ∧
        Age.Agtype.Settles before.2 after.2) pushed pairs →
      ContVal.Settles (.object pushed key) (.object pairs key)

def AgtypeParseState.Settles : AgtypeParseState → AgtypeParseState → Prop :=
  List.Forall₂ ContVal.Settles

structure PushState.Settles (collected pushed : PushState) : Prop where
  result : Option.Rel Age.Agtype.Settles collected.1 pushed.1
  stack : AgtypeParseState.Settles collected.2 pushed.2

theorem Settles.of_elems {rawScalar : Bool} {pushed elems : List AgtypeValue}
    (settled : List.Forall₂ Settles pushed elems) :
    Settles (.array rawScalar pushed) (.array rawScalar elems) := by
  refine .array settled.length_eq fun index before after isBefore isAfter => ?_
  obtain ⟨inBefore, rfl⟩ := List.getElem?_eq_some_iff.1 isBefore
  obtain ⟨inAfter, rfl⟩ := List.getElem?_eq_some_iff.1 isAfter
  exact settled.get inBefore inAfter

theorem map_fst_of_settled {pushed pairs : List AgtypePair}
    (settled : List.Forall₂ (fun before after => before.1 = after.1 ∧
      Settles before.2 after.2) pushed pairs) : pushed.map Prod.fst = pairs.map Prod.fst := by
  induction settled with
  | nil => rfl
  | cons same _ ih => rw [List.map_cons, List.map_cons, same.1, ih]

/-- The value that was pushed last for a key settles to the one that closing keeps. -/
theorem Settles.of_pairs {pushed pairs : List AgtypePair}
    (settled : List.Forall₂ (fun before after => before.1 = after.1 ∧
      Settles before.2 after.2) pushed pairs) :
    Settles (.object pushed) (.object (uniqueifyAgtypeObject pairs)) := by
  have keys := map_fst_of_settled settled
  refine .object (uniqueify_increasing pairs) (fun key => ?_) fun key value kept last isKept => ?_
  · rw [keys_uniqueify, keys]
  · obtain ⟨index, found, isLast⟩ := last
    obtain ⟨inPushed, equal⟩ := List.getElem?_eq_some_iff.1 found
    have inPairs : index < pairs.length := settled.length_eq ▸ inPushed
    have here := settled.get inPushed inPairs
    rw [List.get_eq_getElem, equal, List.get_eq_getElem] at here
    have lastPair : LastPushed pairs key pairs[index].2 := by
      refine ⟨index, ?_, fun later pair isLater atLater same => ?_⟩
      · rw [List.getElem?_eq_getElem inPairs]
        exact congrArg some (Prod.ext here.1.symm rfl)
      · obtain ⟨inRange, equalLater⟩ := List.getElem?_eq_some_iff.1 atLater
        have laterPushed : later < pushed.length := settled.length_eq.symm ▸ inRange
        have sameKey := (settled.get laterPushed inRange).1
        refine isLast later _ isLater (List.getElem?_eq_getElem laterPushed) ?_
        rw [List.get_eq_getElem, List.get_eq_getElem, equalLater] at sameKey
        exact sameKey.trans same
    rw [(mem_uniqueify.1 isKept).unique lastPair]
    exact here.2

/-- A call fails because a container is full. -/
structure LimitReached (error : PushError) (stack : AgtypeParseState) : Prop where
  error : error = .tooManyPairs ∨ error = .tooManyElems
  full : stack.Full

theorem LimitReached.below {error : PushError} {stack : AgtypeParseState} {top : ContVal}
    (reached : LimitReached error stack) : LimitReached error (top :: stack) := by
  obtain ⟨limit, cont, inside, full⟩ := reached
  exact ⟨limit, cont, List.mem_cons_of_mem _ inside, full⟩

theorem appendElement_settles {before after : AgtypeValue} (settled : Settles before after)
    {rawScalar : Bool} {pushed elems : List AgtypeValue}
    (children : List.Forall₂ Settles pushed elems) {next next' : AgtypeParseState}
    (rest : AgtypeParseState.Settles next next') :
    (∃ error, appendElement after (.array rawScalar elems :: next') = .error error ∧
        LimitReached error (.array rawScalar elems :: next')) ∨
      ∃ stack, appendElement after (.array rawScalar elems :: next') = .ok stack ∧
        AgtypeParseState.Settles (.array rawScalar (pushed ++ [before]) :: next) stack := by
  unfold appendElement
  dsimp only
  split_ifs with full
  · exact .inl ⟨_, rfl, .inr rfl, _, List.mem_cons_self, full⟩
  · exact .inr ⟨_, rfl, .cons (.array (List.rel_append children (.cons settled .nil))) rest⟩

/-- A closed container goes to the same place. -/
theorem pushResult_settles {before after : AgtypeValue} (settled : Settles before after)
    {stack stack' collected : AgtypeParseState} (rest : AgtypeParseState.Settles stack stack')
    (collects : collectResult before stack = some collected) :
    (∃ error, pushResult after stack' = .error error ∧ LimitReached error stack') ∨
      ∃ pushed, pushResult after stack' = .ok pushed ∧
        AgtypeParseState.Settles collected pushed := by
  cases rest with
  | nil =>
      cases collects
      exact .inr ⟨[], rfl, .nil⟩
  | cons top rest =>
      cases top with
      | array children =>
          cases collects
          exact appendElement_settles settled children rest
      | @object pushed pairs key children =>
          cases key with
          | none => cases collects
          | some key =>
              cases collects
              refine .inr ⟨_, rfl, .cons (.object ?_) rest⟩
              exact List.rel_append children (.cons ⟨rfl, settled⟩ .nil)

theorem close_settles {before after : AgtypeValue} (settled : Settles before after)
    {stack stack' : AgtypeParseState} {next : PushState}
    (rest : AgtypeParseState.Settles stack stack')
    (collects : (collectResult before stack).map (some before, ·) = some next) :
    (∃ error, (do return (some after, ← pushResult after stack') : Except PushError PushState) =
        .error error ∧ LimitReached error stack') ∨
      ∃ pushed, (do return (some after, ← pushResult after stack') : Except PushError PushState) =
        .ok pushed ∧ PushState.Settles next pushed := by
  obtain ⟨collected, closes, rfl⟩ := Option.map_eq_some_iff.1 collects
  rcases pushResult_settles settled rest closes with
    ⟨error, failed, reached⟩ | ⟨pushed, appended, related⟩
  · exact .inl ⟨error, by rw [failed]; rfl, reached⟩
  · exact .inr ⟨(some after, pushed), by rw [appended]; rfl, .some settled, related⟩

/-- One call either finds a container full or takes up what was pushed. -/
theorem pushAgtypeValueScalar_settles {collected pushed next : PushState} {token : Token}
    (leaves : ∀ leaf ∈ token.leaf?, leaf.isScalar = true ∧ Built leaf)
    (settled : PushState.Settles collected pushed) (collects : collect collected token = some next) :
    (∃ error, pushAgtypeValueScalar pushed token = .error error ∧ LimitReached error pushed.2) ∨
      ∃ after, pushAgtypeValueScalar pushed token = .ok after ∧ PushState.Settles next after := by
  obtain ⟨res, stack⟩ := collected
  obtain ⟨res', stack'⟩ := pushed
  have rest : AgtypeParseState.Settles stack stack' := settled.stack
  cases token with
  | beginArray rawScalar numElems =>
      cases collects
      exact .inr ⟨_, rfl, .some (.of_elems .nil), .cons (.array .nil) rest⟩
  | beginObject numPairs =>
      cases collects
      exact .inr ⟨_, rfl, .some (.of_pairs .nil), .cons (.object .nil) rest⟩
  | key key =>
      rcases rest with _ | ⟨⟨children⟩ | @⟨pushed, pairs, pending, children⟩, rest⟩
      · cases collects
      · cases collects
      · cases pending with
        | some _ => cases collects
        | none =>
            cases collects
            unfold pushAgtypeValueScalar appendKey
            dsimp only
            split_ifs with full
            · exact .inl ⟨_, rfl, .inl rfl, _, List.mem_cons_self, full⟩
            · exact .inr ⟨_, rfl, .none, .cons (.object children) rest⟩
  | value value =>
      obtain ⟨isScalar, built⟩ := leaves value rfl
      rcases rest with _ | ⟨⟨children⟩ | @⟨pushed, pairs, pending, children⟩, rest⟩
      · cases collects
      · cases collects
      · cases pending with
        | none => cases collects
        | some key =>
            cases collects
            refine .inr ⟨_, rfl, .none, .cons (.object ?_) rest⟩
            exact List.rel_append children (.cons ⟨rfl, .scalar isScalar built⟩ .nil)
  | elem elem =>
      obtain ⟨isScalar, built⟩ := leaves elem rfl
      rcases rest with _ | ⟨@⟨rawScalar, pushed, elems, children⟩ | ⟨children⟩, rest⟩
      · cases collects
      · cases collects
        rcases @appendElement_settles _ _ (.scalar isScalar built) rawScalar _ _ children _ _ rest
          with ⟨error, failed, reached⟩ | ⟨after, appended, related⟩
        · exact .inl ⟨error, by rw [pushAgtypeValueScalar, failed]; rfl, reached⟩
        · exact .inr ⟨(none, after), by rw [pushAgtypeValueScalar, appended]; rfl, .none, related⟩
      · cases collects
  | endArray =>
      rcases rest with _ | ⟨@⟨rawScalar, pushed, elems, children⟩ | ⟨children⟩, rest⟩
      · cases collects
      · rcases close_settles (.of_elems children) rest collects with ⟨error, failed, reached⟩ | done
        · exact .inl ⟨error, failed, reached.below⟩
        · exact .inr done
      · cases collects
  | endObject =>
      rcases rest with _ | ⟨⟨children⟩ | @⟨pushed, pairs, pending, children⟩, rest⟩
      · cases collects
      · cases collects
      · cases pending with
        | some _ => cases collects
        | none =>
            rcases close_settles (.of_pairs children) rest collects with
              ⟨error, failed, reached⟩ | done
            · exact .inl ⟨error, failed, reached.below⟩
            · exact .inr done

/-- All calls: one of them finds a container full, or the tree that they describe is settled. -/
theorem pushAll_settles {tokens : List Token} {collected pushed final : PushState}
    (leaves : ∀ token ∈ tokens, ∀ leaf ∈ token.leaf?, leaf.isScalar = true ∧ Built leaf)
    (settled : PushState.Settles collected pushed)
    (collects : collectAll collected tokens = some final) :
    (∃ error before after stop, pushAll pushed tokens = .error error ∧ tokens = before ++ after ∧
        pushAll pushed before = .ok stop ∧ LimitReached error stop.2) ∨
      ∃ result, pushAll pushed tokens = .ok result ∧ PushState.Settles final result := by
  induction tokens generalizing collected pushed with
  | nil =>
      cases collects
      exact .inr ⟨pushed, rfl, settled⟩
  | cons token rest ih =>
      obtain ⟨next, one, others⟩ := Option.bind_eq_some_iff.1 collects
      rw [pushAll_cons]
      rcases pushAgtypeValueScalar_settles (leaves token List.mem_cons_self) settled one with
        ⟨error, failed, reached⟩ | ⟨after, taken, related⟩
      · exact .inl ⟨error, [], token :: rest, pushed, by rw [failed]; rfl, rfl, rfl, reached⟩
      · rw [taken]
        rcases ih (fun token inside => leaves token (List.mem_cons_of_mem _ inside)) related others
          with ⟨error, before, behind, stop, failed, split, stopped, reached⟩ | completed
        · refine .inl ⟨error, token :: before, behind, stop, failed, by rw [split]; rfl, ?_, reached⟩
          rw [pushAll_cons, taken]
          exact stopped
        · exact .inr completed

end Simulation

section Lookup

/-- What is found for a tree: a scalar itself, of a container a pointer to where it is stored. -/
def Filled.Holds (found : Filled) (v : AgtypeValue) : Prop :=
  match found with
  | .scalar val => val = v
  | .binary data _ => ContainerAt data v

theorem fills_holds {v : AgtypeValue} (built : v.isScalar = true → Built v)
    {container base : Bytes} {index offset length : Nat}
    (slot : SlotAt container base index offset length v) :
    ∃ found, Filled.Holds found v ∧
      ∀ᶠ fuel in atTop, fillAgtypeValue fuel container index base offset = .ok found := by
  cases isScalar : v.isScalar with
  | true =>
      refine ⟨.scalar v, rfl, ?_⟩
      filter_upwards [(decodes_of_built (built isScalar)).1 isScalar _ _ _ _ slot.node] with fuel fills
      exact fills container index rfl (slot.entry.length slot.start)
  | false =>
      obtain ⟨data, len, contents, filled⟩ := fill_container slot isScalar
      exact ⟨.binary data len, contents, .of_forall filled⟩

/-- What lies within a tree that is settled has settled too. -/
theorem Settles.within {pushed v inner : AgtypeValue} (settled : Settles pushed v)
    (within : Within inner v) : ∃ before, Settles before inner := by
  induction within generalizing pushed with
  | self => exact ⟨pushed, settled⟩
  | elem _ inside ih =>
      cases settled with
      | scalar impossible => cases impossible
      | array sameLength children =>
          obtain ⟨index, inRange, rfl⟩ := List.mem_iff_getElem.1 inside
          have before := sameLength.symm ▸ inRange
          exact ih (children index _ _ (List.getElem?_eq_getElem before)
            (List.getElem?_eq_getElem inRange))
  | @value pairs pair _ inside ih =>
      cases settled with
      | scalar impossible => cases impossible
      | object _ keys kept =>
          have isKey := (keys pair.1).1 (List.mem_map.2 ⟨pair, inside, rfl⟩)
          obtain ⟨value, last⟩ := LastPushed.exists isKey
          exact ih (kept pair.1 value pair.2 last inside)

theorem Settles.built {before after : AgtypeValue} (settled : Settles before after)
    (isScalar : after.isScalar = true) : Built after := by
  cases settled with
  | scalar _ built => exact built
  | array => cases isScalar
  | object => cases isScalar

theorem KeysIncrease.eq_of_key {pairs : List AgtypePair} (increasing : KeysIncrease pairs)
    {first second : Nat} (inFirst : first < pairs.length) (inSecond : second < pairs.length)
    (same : pairs[first].1 = pairs[second].1) : first = second := by
  have keys := threeWay_lengthCompare
  rcases lt_trichotomy first second with less | equal | greater
  · have := List.pairwise_iff_getElem.1 increasing first second inFirst inSecond less
    rw [same, keys.self] at this
    exact absurd this (lt_irrefl _)
  · exact equal
  · have := List.pairwise_iff_getElem.1 increasing second first inSecond inFirst greater
    rw [same, keys.self] at this
    exact absurd this (lt_irrefl _)

/-- With enough fuel, the value of every key of an object is found. -/
theorem find_holds (ops : OrderOps) {pushed pairs : List AgtypePair}
    (settled : Settles (.object pushed) (.object pairs)) {container : Bytes}
    (contents : ObjectAt container pairs) :
    ∀ᶠ fuel in atTop, ∀ key value array, (key, value) ∈ pairs →
      ∃ found, findAgtypeValueFromContainer ops fuel container ⟨array, true⟩
        (.scalar (.string key)) = .ok (some found) ∧ Filled.Holds found value := by
  have increasing : KeysIncrease pairs := by
    cases settled with
    | scalar impossible => cases impossible
    | object increasing => exact increasing
  have children : ∀ pair ∈ pairs, ∀ index offset length,
      SlotAt container (dataProper container (2 * pairs.length)) index offset length pair.2 →
      ∃ found, Filled.Holds found pair.2 ∧ ∀ᶠ fuel in atTop, fillAgtypeValue fuel container index
        (dataProper container (2 * pairs.length)) offset = .ok found := by
    intro pair inside index offset length slot
    obtain ⟨before, child⟩ := settled.within (.value .self inside)
    exact fills_holds child.built slot
  filter_upwards [@object_fills (fun value found => Filled.Holds found value) _ _ contents children]
    with fuel fills
  intro key value array inside
  have isKey : key ∈ pairs.map Prod.fst := List.mem_map.2 ⟨(key, value), inside, rfl⟩
  obtain ⟨middle, search⟩ := Option.isSome_iff_exists.1
    ((searchKey_object_isSome_iff contents increasing key).2 isKey)
  obtain ⟨_, inRange, isMiddle⟩ := searchKey_sound search
  rw [objectKeyAt_eq contents inRange] at isMiddle
  obtain ⟨found, holds, filled⟩ := fills middle inRange
  have sameValue : pairs[middle].2 = value := by
    obtain ⟨place, placeInRange, isPair⟩ := List.mem_iff_getElem.1 inside
    have sameKey : pairs[middle].1 = pairs[place].1 := by rw [isPair, isMiddle]
    obtain rfl := increasing.eq_of_key inRange placeInRange sameKey
    rw [isPair]
  refine ⟨found, ?_, sameValue ▸ holds⟩
  have notArray : agtypeContainerIsArray container = false := contents.1.isArray
  have isObject : agtypeContainerIsObject container = true := contents.1.isObject
  have notEmpty : pairs.length ≠ 0 := Nat.ne_of_gt (Nat.zero_lt_of_lt inRange)
  unfold findAgtypeValueFromContainer findWith
  simp only [notArray, isObject, Bool.and_false, Bool.and_true, Bool.false_eq_true, if_false,
    if_true, contents.1.size, notEmpty, search]
  rw [filled]
  rfl

end Lookup

section Calls

/-- What calls of `push_agtype_value` come to that describe the tree `pushed`: a container is full
already, or there is a tree in which the keys of each object increase and are those that were
pushed, each with the value pushed last, and wherever such an object is stored, the binary search
finds it. -/
inductive Pushes (ops : OrderOps) (pushed : AgtypeValue) (tokens : List Token) : Prop where
  | full (error : PushError) (before after : List Token) (stop : PushState) :
      pushAll (none, []) tokens = .error error → tokens = before ++ after →
      pushAll (none, []) before = .ok stop → LimitReached error stop.2 → Pushes ops pushed tokens
  | tree (v : AgtypeValue) : pushAll (none, []) tokens = .ok (some v, []) → Settles pushed v →
      (∀ agtype, agtypeValueToAgtype v = .ok agtype → ContainerAt (agtype.drop 4) v.root) →
      (∀ pairs container, Within (.object pairs) v → ObjectAt container pairs →
        ∃ enough, ∀ fuel, enough ≤ fuel → ∀ key value array, (key, value) ∈ pairs →
          ∃ found, findAgtypeValueFromContainer ops fuel container ⟨array, true⟩
            (.scalar (.string key)) = .ok (some found) ∧ Filled.Holds found value) →
      Pushes ops pushed tokens

/-- Well-bracketed calls build objects whose keys increase strictly, with the value that was
pushed last for each key, and all of them are found. -/
theorem pushAgtypeValue_objects (ops : OrderOps) {tokens : List Token} {pushed : AgtypeValue}
    (leaves : ∀ token ∈ tokens, ∀ leaf ∈ token.leaf?, leaf.isScalar = true ∧ Built leaf)
    (bracketed : collectAll (none, []) tokens = some (some pushed, [])) :
    Pushes ops pushed tokens := by
  have start : PushState.Settles (none, []) (none, []) := ⟨.none, .nil⟩
  rcases pushAll_settles leaves start bracketed with
    ⟨error, before, after, stop, failed, split, stopped, reached⟩ | ⟨⟨result, stack⟩, run, settled⟩
  · exact .full error before after stop failed split stopped reached
  · obtain ⟨isResult, isStack⟩ := settled
    cases isStack
    cases isResult with
    | @some _ v settled =>
        refine .tree v run settled (fun agtype => containerAt_agtypeValueToAgtype) ?_
        intro pairs container within contents
        obtain ⟨before, inner⟩ := settled.within within
        rw [← Filter.eventually_atTop]
        cases inner with
        | scalar impossible => cases impossible
        | object increasing keys kept =>
            exact find_holds ops (.object increasing keys kept) contents

/-- `{"a": 1, "a": 2}`, of which the second value is kept -/
theorem pushAgtypeValue_objects_repeated :
    let tokens : List Token := [.beginObject 0, .key [97], .value (.integer 1), .key [97],
      .value (.integer 2), .endObject]
    let pushed : AgtypeValue := .object [([97], .integer 1), ([97], .integer 2)]
    collectAll (none, []) tokens = some (some pushed, []) ∧
      pushAll (none, []) tokens = .ok (some (.object [([97], .integer 2)]), []) ∧
      Pushes Server.orderOps pushed tokens := by
  refine ⟨rfl, rfl, pushAgtypeValue_objects Server.orderOps ?_ rfl⟩
  simp only [List.forall_mem_cons, Token.leaf?, Option.mem_def, reduceCtorEq, Option.some.injEq,
    forall_eq', List.not_mem_nil]
  refine ⟨?_, ?_, ⟨rfl, .integer 1⟩, ?_, ⟨rfl, .integer 2⟩, ?_, ?_⟩
  all_goals
    intro leaf isLeaf
    cases isLeaf

end Calls

end Age.Agtype
