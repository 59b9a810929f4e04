import Age.Agtype.ContainsMatch
import Age.Server.Hash
import Age.Server.Order

/-!
# The hash contract

`agtype_hash_cmp` folds the hashes of the scalars of a container, with a seed that
is rotated at every bracket.  Hash joins and hash indexes need it to respect
`agtype_eq`.
-/

namespace Age.Agtype

open Lib

/-- `ROTATE_HIGH_AND_LOW_32BITS` -/
def rotateHighAndLow32bits (v : UInt64) : UInt64 :=
  ((v <<< 1) &&& (0xfffffffefffffffe : UInt64)) ||| ((v >>> 31) &&& (0x100000001 : UInt64))

def leftRotate (n i : UInt64) : UInt64 := n <<< i ||| n >>> (64 - i)

def rightRotate (n i : UInt64) : UInt64 := n >>> i ||| n <<< (64 - i)

namespace HashOps

variable (ops : HashOps)

/-- `hashint8extended` -/
def hashInt8Extended (val : Int64) (seed : UInt64) : UInt64 :=
  ops.hashUint32Extended (foldInt8 val) seed

/-- `hashfloat8extended` -/
def hashFloat8Extended (key : Float8) (seed : UInt64) : UInt64 :=
  if key.isNaN then ops.hashAnyExtended (encodeLE 8 0x7FF8000000000000) seed
  else if key.place = 0 then seed
  else ops.hashAnyExtended (encodeLE 8 key.bits.toNat) seed

/-- The id of an entity goes through `Float8GetDatum` before it is hashed. -/
def hashGraphid (id : Int64) (seed : UInt64) : UInt64 :=
  ops.hashInt8Extended (Float8.ofInt64 id).bits.toInt64 seed

def hashBool (val : Bool) (seed : UInt64) : UInt64 :=
  ops.hashUint32Extended (if val then 1 else 0) seed

/-- `*hash` after a scalar with the hash `tmp`. -/
def mixExtended (hash tmp : UInt64) : UInt64 := rotateHighAndLow32bits hash ^^^ tmp

mutual

/-- `tmp` of `agtype_hash_scalar_value_extended` -/
def scalarHashExtended (seed : UInt64) : AgtypeValue → Except HashError UInt64
  | .null => .ok (seed + 0x01)
  | .string val => .ok (ops.hashAnyExtended val seed)
  | .numeric val => .ok (ops.hashNumericExtended val seed)
  | .bool val =>
      .ok (if seed ≠ 0 then ops.hashBool val seed else if val then 0x02 else 0x04)
  | .integer val => .ok (ops.hashInt8Extended val seed)
  | .float val => .ok (ops.hashFloat8Extended val seed)
  | .vertex pairs => do
      let id ← (vertexGetId pairs).mapError .compare
      return ops.hashGraphid id seed
  | .edge pairs => do
      let id ← (edgeGetId pairs).mapError .compare
      return ops.hashGraphid id seed
  | .path elems => pathHashExtended seed 0 elems
  | .array _ _ => .error (.invalidScalarType .array)
  | .object _ => .error (.invalidScalarType .object)

/-- The loop over the elements of a path. -/
def pathHashExtended (seed tmp : UInt64) : List AgtypeValue → Except HashError UInt64
  | [] => .ok tmp
  | elem :: rest => do
      let hash ← scalarHashExtended seed elem
      pathHashExtended seed (mixExtended tmp hash) rest

end

/-- `agtype_hash_scalar_container` on the only element of a raw scalar. -/
def agtypeHashScalarContainer (scalar : AgtypeValue) : Except HashError UInt64 :=
  let seed := leftRotate 0xF0F0F0F0 1
  match scalar with
  | .string val => .ok (mixExtended 0 (ops.hashAnyExtended val seed))
  | .bool val => .ok (mixExtended 0 (ops.hashBool val seed))
  | .numeric val => .ok (mixExtended 0 (ops.hashNumericExtended val seed))
  | .integer val => .ok (mixExtended 0 (ops.hashUint32Extended (foldInt8 val) seed))
  | .float val => .ok (mixExtended 0 (ops.hashFloat8Extended val seed))
  | scalar => (ops.scalarHashExtended seed scalar).map (mixExtended 0)

end HashOps

/-- The variables of the loop.  `rawScalar` is `r.val.array.raw_scalar`: the end of
an array does not set it, and it is unset where other members of the union have
been copied over it. -/
structure HashLoop where
  hash : UInt64
  seed : UInt64
  rawScalar : Option Bool

/-- `r.val.array.raw_scalar` after a scalar: the value of a path is copied with its
array, the value of a vertex or edge with memory that nothing has set. -/
def rawScalarAfter (rawScalar : Option Bool) : AgtypeValue → Option Bool
  | .vertex _ => none
  | .edge _ => none
  | .path _ => some false
  | _ => rawScalar

/-- One turn of the loop, without the rotation at its end. -/
def hashToken (ops : HashOps) (loop : HashLoop) : Token → Except HashError HashLoop
  | .key val => .ok { loop with
      hash := HashOps.mixExtended loop.hash (ops.hashAnyExtended val loop.seed) }
  | .value v => do
      let tmp ← ops.scalarHashExtended loop.seed v
      return { loop with
        hash := HashOps.mixExtended loop.hash tmp, rawScalar := rawScalarAfter loop.rawScalar v }
  | .elem v => do
      let tmp ← ops.scalarHashExtended loop.seed v
      return { loop with
        hash := HashOps.mixExtended loop.hash tmp, rawScalar := rawScalarAfter loop.rawScalar v }
  | .beginArray rawScalar _ => .ok { loop with
      seed := if rawScalar then loop.seed else leftRotate loop.seed 4
      rawScalar := some rawScalar }
  | .beginObject _ => .ok { loop with seed := leftRotate loop.seed 6 }
  | .endArray =>
      match loop.rawScalar with
      | none => .error .unsetRead
      | some true => .ok loop
      | some false => .ok { loop with seed := rightRotate loop.seed 4 }
  | .endObject => .ok { loop with seed := rightRotate loop.seed 4 }

def hashTokens (ops : HashOps) : HashLoop → List Token → Except HashError UInt64
  | loop, [] => .ok loop.hash
  | loop, token :: rest => do
      let next ← hashToken ops loop token
      hashTokens ops { next with seed := leftRotate next.seed 1 } rest

/-- `agtype_hash_cmp` -/
def agtypeHashCmp (ops : HashOps) (agt : AgtypeValue) : Except HashError UInt32 :=
  let hash := match agt with
    | .array true [scalar] => ops.agtypeHashScalarContainer scalar
    | agt => hashTokens ops ⟨0, 0xF0F0F0F0, none⟩ agt.tokens
  hash.map UInt64.toUInt32

/-- What the server's functions promise: equal numerics hash alike. -/
structure HashLaws (orderOps : OrderOps) (ops : HashOps) : Prop where
  collation : ThreeWay orderOps.varstrCmp
  numeric : ∀ a b, orderOps.numericCmp a b = 0 → ∀ seed,
    ops.hashNumericExtended a seed = ops.hashNumericExtended b seed

mutual

/-- Two scalars have one type, and so have the elements of two paths. -/
def kindsAgree : AgtypeValue → AgtypeValue → Bool
  | .path as, .path bs => listKindsAgree as bs
  | a, b => a.type = b.type

def listKindsAgree : List AgtypeValue → List AgtypeValue → Bool
  | a :: as, b :: bs => kindsAgree a b && listKindsAgree as bs
  | _, _ => true

end

/-- Wherever two walks meet scalars, the scalars have one type. -/
def TypesAgree (as bs : List Token) : Prop :=
  ∀ pair ∈ as.zip bs, ∀ a b, pair.1.leaf? = some a → pair.2.leaf? = some b →
    kindsAgree a b = true

/-- No array ends while `raw_scalar` is unset. -/
def endsSet : Option Bool → List Token → Bool
  | _, [] => true
  | rawScalar, token :: rest =>
      match token with
      | .beginArray raw _ => endsSet (some raw) rest
      | .endArray => rawScalar.isSome && endsSet rawScalar rest
      | .value v => endsSet (rawScalarAfter rawScalar v) rest
      | .elem v => endsSet (rawScalarAfter rawScalar v) rest
      | _ => endsSet rawScalar rest

section Scalars

variable {orderOps : OrderOps} {ops : HashOps}

theorem hashFloat8Extended_eq {a b : Float8} (seed : UInt64)
    (alike : a.isNaN = true ∧ b.isNaN = true ∨
      a.isNaN = false ∧ b.isNaN = false ∧ a.place = b.place) :
    ops.hashFloat8Extended a seed = ops.hashFloat8Extended b seed := by
  unfold HashOps.hashFloat8Extended
  rcases alike with ⟨nanA, nanB⟩ | ⟨nanA, nanB, places⟩
  · rw [nanA, nanB, if_pos rfl, if_pos rfl]
  · rw [nanA, nanB, places]
    by_cases zero : b.place = 0
    · simp [zero]
    · rw [Float8.eq_of_place places zero]

theorem compareInt64_eq_zero {a b : Int64} (zero : compareInt64 a b = 0) : a = b := by
  unfold compareInt64 at zero
  split_ifs at zero with equal less
  · exact equal
  · cases zero

/-- Entities are compared by the id they are hashed by. -/
theorem ids_eq_of_compare {getId : List AgtypePair → Except CompareError Int64}
    {a b : List AgtypePair}
    (compared : (do
      let aGraphid ← getId a
      let bGraphid ← getId b
      return compareInt64 aGraphid bGraphid) = .ok 0) : getId a = getId b := by
  obtain ⟨aGraphid, aId, rest⟩ := bind_ok compared
  obtain ⟨bGraphid, bId, result⟩ := bind_ok rest
  injection result with zero
  rw [aId, bId, compareInt64_eq_zero zero]

theorem comparePathElems_cons {a b : AgtypeValue} {as bs : List AgtypeValue}
    (compared : orderOps.comparePathElems (a :: as) (b :: bs) = .ok 0) :
    orderOps.compareAgtypeScalarValues a b = .ok 0 ∧
      orderOps.comparePathElems as bs = .ok 0 := by
  rw [OrderOps.comparePathElems] at compared
  obtain ⟨res, first, others⟩ := bind_ok compared
  by_cases decided : res ≠ 0
  · rw [if_pos decided] at others
    cases others
    exact (decided rfl).elim
  · rw [if_neg decided] at others
    rw [not_not.mp decided] at first
    exact ⟨first, others⟩

theorem pathHashExtended_eq {seed : UInt64} {as bs : List AgtypeValue}
    (elems : ∀ a ∈ as, ∀ b, kindsAgree a b = true →
      orderOps.compareAgtypeScalarValues a b = .ok 0 →
      ops.scalarHashExtended seed a = ops.scalarHashExtended seed b)
    (sameLength : as.length = bs.length) (kinds : listKindsAgree as bs = true)
    (compared : orderOps.comparePathElems as bs = .ok 0) (tmp : UInt64) :
    ops.pathHashExtended seed tmp as = ops.pathHashExtended seed tmp bs := by
  induction as generalizing bs tmp with
  | nil =>
      cases bs with
      | nil => rfl
      | cons b bs => cases sameLength
  | cons a as inductionHypothesis =>
      cases bs with
      | nil => cases sameLength
      | cons b bs =>
          rw [listKindsAgree, Bool.and_eq_true] at kinds
          obtain ⟨first, others⟩ := comparePathElems_cons compared
          rw [HashOps.pathHashExtended, HashOps.pathHashExtended,
            elems a List.mem_cons_self b kinds.1 first]
          cases ops.scalarHashExtended seed b with
          | error error => rfl
          | ok hash =>
              exact inductionHypothesis
                (fun other membership => elems other (List.mem_cons_of_mem _ membership))
                (Nat.succ.inj sameLength) kinds.2 others _

/-- Scalars of one type that compare as equal have one hash. -/
theorem scalarHashExtended_eq (laws : HashLaws orderOps ops) (seed : UInt64) {a b : AgtypeValue}
    (kinds : kindsAgree a b = true) (compared : orderOps.compareAgtypeScalarValues a b = .ok 0) :
    ops.scalarHashExtended seed a = ops.scalarHashExtended seed b := by
  induction a using AgtypeValue.inductionOn generalizing b with
  | path elems children =>
      cases b <;> try cases kinds
      case path others =>
        rw [kindsAgree] at kinds
        rw [OrderOps.compareAgtypeScalarValues] at compared
        split_ifs at compared with lengths longer
        · cases compared
        · cases compared
        · rw [HashOps.scalarHashExtended, HashOps.scalarHashExtended]
          exact pathHashExtended_eq (fun elem membership other => children elem membership)
            (not_not.mp lengths) kinds compared 0
  | vertex pairs _ =>
      cases b <;> cases kinds
      case vertex.refl others =>
        rw [HashOps.scalarHashExtended, HashOps.scalarHashExtended, ids_eq_of_compare compared]
  | edge pairs _ =>
      cases b <;> cases kinds
      case edge.refl others =>
        rw [HashOps.scalarHashExtended, HashOps.scalarHashExtended, ids_eq_of_compare compared]
  | array =>
      cases b <;> cases kinds
      cases compared
  | object =>
      cases b <;> cases kinds
      cases compared
  | numeric val =>
      cases b <;> cases kinds
      case numeric.refl other =>
        refine congrArg Except.ok (laws.numeric val other ?_ seed)
        simpa [OrderOps.compareAgtypeScalarValues] using compared
  | float val =>
      cases b <;> cases kinds
      case float.refl other =>
        refine congrArg Except.ok (hashFloat8Extended_eq seed (compareTwoFloats_eq_zero ?_))
        simpa [OrderOps.compareAgtypeScalarValues] using compared
  | _ =>
      cases b <;> cases kinds
      cases scalarAlike_of_compare laws.collation rfl compared
      rfl

theorem pathHashExtended_ok {seed : UInt64} {as bs : List AgtypeValue}
    (elems : ∀ a ∈ as, ∀ b, kindsAgree a b = true →
      orderOps.compareAgtypeScalarValues a b = .ok 0 →
      ∃ hash, ops.scalarHashExtended seed a = .ok hash)
    (sameLength : as.length = bs.length) (kinds : listKindsAgree as bs = true)
    (compared : orderOps.comparePathElems as bs = .ok 0) (tmp : UInt64) :
    ∃ hash, ops.pathHashExtended seed tmp as = .ok hash := by
  induction as generalizing bs tmp with
  | nil => exact ⟨tmp, rfl⟩
  | cons a as inductionHypothesis =>
      cases bs with
      | nil => cases sameLength
      | cons b bs =>
          rw [listKindsAgree, Bool.and_eq_true] at kinds
          obtain ⟨first, others⟩ := comparePathElems_cons compared
          obtain ⟨hash, hashed⟩ := elems a List.mem_cons_self b kinds.1 first
          rw [HashOps.pathHashExtended, hashed]
          exact inductionHypothesis
            (fun other membership => elems other (List.mem_cons_of_mem _ membership))
            (Nat.succ.inj sameLength) kinds.2 others _

/-- A scalar that compares as equal to one of its type can be hashed. -/
theorem scalarHashExtended_ok (seed : UInt64) {a b : AgtypeValue}
    (kinds : kindsAgree a b = true) (compared : orderOps.compareAgtypeScalarValues a b = .ok 0) :
    ∃ hash, ops.scalarHashExtended seed a = .ok hash := by
  induction a using AgtypeValue.inductionOn generalizing b with
  | path elems children =>
      cases b <;> try cases kinds
      case path others =>
        rw [kindsAgree] at kinds
        rw [OrderOps.compareAgtypeScalarValues] at compared
        split_ifs at compared with lengths longer
        · cases compared
        · cases compared
        · rw [HashOps.scalarHashExtended]
          exact pathHashExtended_ok (fun elem membership other => children elem membership)
            (not_not.mp lengths) kinds compared 0
  | vertex pairs _ =>
      cases b <;> cases kinds
      case vertex.refl others =>
        obtain ⟨id, isId, _⟩ := bind_ok compared
        rw [HashOps.scalarHashExtended, isId]
        exact ⟨_, rfl⟩
  | edge pairs _ =>
      cases b <;> cases kinds
      case edge.refl others =>
        obtain ⟨id, isId, _⟩ := bind_ok compared
        rw [HashOps.scalarHashExtended, isId]
        exact ⟨_, rfl⟩
  | array =>
      cases b <;> cases kinds
      cases compared
  | object =>
      cases b <;> cases kinds
      cases compared
  | _ => exact ⟨_, rfl⟩

end Scalars

section Containers

variable {orderOps : OrderOps} {ops : HashOps}

theorem scalarHash_of_compareLeaves (laws : HashLaws orderOps ops) (seed : UInt64)
    {a b : AgtypeValue} (kinds : kindsAgree a b = true)
    (compared : orderOps.compareLeaves a b = .ok 0) :
    ops.scalarHashExtended seed a = ops.scalarHashExtended seed b := by
  unfold OrderOps.compareLeaves at compared
  split_ifs at compared with comparable
  · exact scalarHashExtended_eq laws seed kinds compared
  · injection compared with zero
    exact (typeDefinedOrder_ne_zero _ _ zero).elim

theorem rawScalarAfter_eq {a b : AgtypeValue} (kinds : kindsAgree a b = true)
    (rawScalar : Option Bool) : rawScalarAfter rawScalar a = rawScalarAfter rawScalar b := by
  cases a <;> cases b <;> first | rfl | cases kinds

/-- One turn on two tokens that compare as equal. -/
theorem hashToken_eq (laws : HashLaws orderOps ops) (loop : HashLoop) {ra rb : Token}
    (alike : TokensAlike orderOps ra rb)
    (types : ∀ a b, ra.leaf? = some a → rb.leaf? = some b → kindsAgree a b = true) :
    hashToken ops loop ra = hashToken ops loop rb := by
  cases alike with
  | key val => rfl
  | value compared =>
      have kinds := types _ _ rfl rfl
      rw [hashToken, hashToken, scalarHash_of_compareLeaves laws _ kinds compared,
        rawScalarAfter_eq kinds]
  | elem compared =>
      have kinds := types _ _ rfl rfl
      rw [hashToken, hashToken, scalarHash_of_compareLeaves laws _ kinds compared,
        rawScalarAfter_eq kinds]
  | beginArray rawScalar n m => rfl
  | endArray => rfl
  | beginObject n m => rfl
  | endObject => rfl

theorem hashTokens_eq (laws : HashLaws orderOps ops) {as bs : List Token}
    (alike : List.Forall₂ (TokensAlike orderOps) as bs) (types : TypesAgree as bs)
    (loop : HashLoop) : hashTokens ops loop as = hashTokens ops loop bs := by
  induction alike generalizing loop with
  | nil => rfl
  | @cons ra rb restA restB first _ inductionHypothesis =>
      have here : ∀ a b, ra.leaf? = some a → rb.leaf? = some b → kindsAgree a b = true :=
        types (ra, rb) List.mem_cons_self
      rw [hashTokens, hashTokens, hashToken_eq laws loop first here]
      cases hashToken ops loop rb with
      | error error => rfl
      | ok next =>
          exact inductionHypothesis
            (fun pair membership => types pair (List.mem_cons_of_mem _ membership)) _

theorem compareScalars_of_compareLeaves {a b : AgtypeValue}
    (compared : orderOps.compareLeaves a b = .ok 0) :
    orderOps.compareAgtypeScalarValues a b = .ok 0 := by
  unfold OrderOps.compareLeaves at compared
  split_ifs at compared with comparable
  · exact compared
  · injection compared with zero
    exact (typeDefinedOrder_ne_zero _ _ zero).elim

theorem hashTokens_ok {as bs : List Token}
    (alike : List.Forall₂ (TokensAlike orderOps) as bs) (types : TypesAgree as bs)
    {l : HashLoop} (set : endsSet l.rawScalar as = true) :
    ∃ hash, hashTokens ops l as = .ok hash := by
  induction alike generalizing l with
  | nil => exact ⟨l.hash, rfl⟩
  | @cons ra rb restA restB first _ inductionHypothesis =>
      have here : ∀ a b, ra.leaf? = some a → rb.leaf? = some b → kindsAgree a b = true :=
        types (ra, rb) List.mem_cons_self
      have others (next : HashLoop) (turn : hashToken ops l ra = .ok next)
          (rest : endsSet next.rawScalar restA = true) :
          ∃ hash, hashTokens ops l (ra :: restA) = .ok hash := by
        rw [hashTokens, turn]
        exact inductionHypothesis
          (fun pair membership => types pair (List.mem_cons_of_mem _ membership)) rest
      cases first with
      | key val => exact others _ rfl set
      | value compared =>
          obtain ⟨tmp, hashed⟩ := scalarHashExtended_ok l.seed (here _ _ rfl rfl)
            (compareScalars_of_compareLeaves compared)
          exact others { l with
            hash := HashOps.mixExtended l.hash tmp
            rawScalar := rawScalarAfter l.rawScalar _ } (by rw [hashToken, hashed]; rfl) set
      | elem compared =>
          obtain ⟨tmp, hashed⟩ := scalarHashExtended_ok l.seed (here _ _ rfl rfl)
            (compareScalars_of_compareLeaves compared)
          exact others { l with
            hash := HashOps.mixExtended l.hash tmp
            rawScalar := rawScalarAfter l.rawScalar _ } (by rw [hashToken, hashed]; rfl) set
      | beginArray rawScalar n m => exact others _ rfl set
      | endArray =>
          obtain ⟨isSet, rest⟩ := Bool.and_eq_true_iff.mp set
          cases raw : l.rawScalar with
          | none => rw [raw] at isSet; cases isSet
          | some rawScalar =>
              cases rawScalar with
              | true =>
                  refine others l ?_ rest
                  rw [hashToken, raw]
              | false =>
                  refine others { l with seed := rightRotate l.seed 4 } ?_ rest
                  rw [hashToken, raw]
      | beginObject n m => exact others _ rfl set
      | endObject => exact others _ rfl set

/-- The fast path for a raw scalar gives what the general hash gives for its one element. -/
theorem agtypeHashScalarContainer_eq (scalar : AgtypeValue) :
    ops.agtypeHashScalarContainer scalar =
      (ops.scalarHashExtended (leftRotate 0xF0F0F0F0 1) scalar).map (HashOps.mixExtended 0) := by
  have seeded : leftRotate 0xF0F0F0F0 1 ≠ 0 := by decide
  cases scalar
  case bool val => simp [HashOps.agtypeHashScalarContainer, HashOps.scalarHashExtended, seeded,
    Except.map]
  all_goals rfl

/-- A raw scalar never compares as equal to another container. -/
theorem not_compare_raw_container (collation : ThreeWay orderOps.varstrCmp)
    {elems : List AgtypeValue} {v : AgtypeValue} (built : Built v) (nested : v.isScalar = false)
    (compared : orderOps.compareLoop (AgtypeValue.array true elems).tokens v.tokens = .ok 0 ∨
      orderOps.compareLoop v.tokens (AgtypeValue.array true elems).tokens = .ok 0) : False := by
  rcases compared with compared | compared
  all_goals
    have alike := forall₂_of_compareLoop collation compared
    cases built <;> cases nested <;> cases alike <;> rename_i first _ <;> cases first

/-- Containers that compare as equal hash alike when the numbers they meet have one
type each and no array ends while `raw_scalar` is unset. -/
theorem agtypeHashCmp_eq (laws : HashLaws orderOps ops) {a b : AgtypeValue} (builtA : Built a)
    (builtB : Built b)
    (compared : orderOps.compareAgtypeContainersOrderability a.root b.root = .ok 0)
    (types : TypesAgree a.root.tokens b.root.tokens)
    (set : a.isScalar = false → endsSet none a.tokens = true) :
    ∃ hash, agtypeHashCmp ops a.root = .ok hash ∧ agtypeHashCmp ops b.root = .ok hash := by
  cases scalarA : a.isScalar with
  | true =>
      have rootA : a.root = .array true [a] := by simp [AgtypeValue.root, scalarA]
      cases scalarB : b.isScalar with
      | true =>
          have rootB : b.root = .array true [b] := by simp [AgtypeValue.root, scalarB]
          rw [rootA, rootB] at compared types ⊢
          have leaves : orderOps.compareLeaves a b = .ok 0 := compared
          have kinds : kindsAgree a b = true := by
            refine types (.elem a, .elem b) ?_ a b rfl rfl
            simp [AgtypeValue.tokens, AgtypeValue.nodeTokens, AgtypeValue.elemTokens,
              AgtypeValue.nodeTokens_scalar _ scalarA, AgtypeValue.nodeTokens_scalar _ scalarB]
          obtain ⟨tmp, hashed⟩ : ∃ tmp, ops.scalarHashExtended (leftRotate 0xF0F0F0F0 1) a = .ok tmp :=
            scalarHashExtended_ok _ kinds (compareScalars_of_compareLeaves leaves)
          have same := scalarHash_of_compareLeaves laws (leftRotate 0xF0F0F0F0 1) kinds leaves
          simp only [agtypeHashCmp, agtypeHashScalarContainer_eq, ← same, hashed]
          exact ⟨_, rfl, rfl⟩
      | false =>
          have rootB : b.root = b := by simp [AgtypeValue.root, scalarB]
          rw [rootA, rootB] at compared
          refine (not_compare_raw_container laws.collation builtB scalarB (.inl (?_ :
            orderOps.compareLoop (AgtypeValue.array true [a]).tokens _ = _))).elim
          unfold OrderOps.compareAgtypeContainersOrderability at compared
          cases builtB <;> exact compared
  | false =>
      have rootA : a.root = a := by simp [AgtypeValue.root, scalarA]
      have loop : orderOps.compareLoop a.tokens b.root.tokens = .ok 0 := by
        rw [rootA] at compared
        unfold OrderOps.compareAgtypeContainersOrderability at compared
        cases builtA <;> exact compared
      cases scalarB : b.isScalar with
      | true =>
          have rootB : b.root = .array true [b] := by simp [AgtypeValue.root, scalarB]
          rw [rootB] at loop
          exact (not_compare_raw_container laws.collation builtA scalarA (.inr loop)).elim
      | false =>
          have rootB : b.root = b := by simp [AgtypeValue.root, scalarB]
          rw [rootB] at loop types ⊢
          rw [rootA] at types ⊢
          have alike := forall₂_of_compareLoop laws.collation loop
          obtain ⟨hash, hashed⟩ : ∃ hash, hashTokens ops ⟨0, 0xF0F0F0F0, none⟩ a.tokens = .ok hash :=
            hashTokens_ok alike types (set scalarA)
          have same := hashTokens_eq laws alike types ⟨0, 0xF0F0F0F0, none⟩
          have plain {v : AgtypeValue} (built : Built v) (nested : v.isScalar = false) :
              agtypeHashCmp ops v =
                (hashTokens ops ⟨0, 0xF0F0F0F0, none⟩ v.tokens).map UInt64.toUInt32 := by
            cases built <;> rfl
          rw [plain builtA scalarA, plain builtB scalarB, ← same, hashed]
          exact ⟨_, rfl, rfl⟩

/-- The server's hash functions, for values without numerics. -/
def extendedHashOpsWithoutNumeric : HashOps :=
  { Server.hashOps with hashNumericExtended := fun _ seed => seed }

/-- `[1, {"a": -0.0}]` and `[1, {"a": 0.0}]` -/
theorem agtypeHashCmp_eq_zeros :
    ∃ hash,
      agtypeHashCmp extendedHashOpsWithoutNumeric
        (.array false [.integer 1, .object [([97], .float ⟨0x8000000000000000⟩)]]) = .ok hash ∧
      agtypeHashCmp extendedHashOpsWithoutNumeric
        (.array false [.integer 1, .object [([97], .float ⟨0⟩)]]) = .ok hash := by
  have built (f : Float8) : Built (.array false [.integer 1, .object [([97], .float f)]]) := by
    refine .array ?_ (by simp [agtypeMaxElems])
    simp only [List.mem_cons, List.not_mem_nil, or_false, forall_eq_or_imp, forall_eq]
    refine ⟨.integer 1, .object ?_ (by simp [KeysIncrease]) (by simp [agtypeMaxPairs])⟩
    simpa using Built.float f
  have laws : HashLaws Server.orderOps extendedHashOpsWithoutNumeric :=
    ⟨threeWay_memcmp, fun _ _ _ _ => rfl⟩
  refine agtypeHashCmp_eq laws (built _) (built _) (by decide +kernel) ?_ (fun _ => by decide)
  intro pair membership a b leafA leafB
  simp [AgtypeValue.root, AgtypeValue.isScalar, AgtypeValue.tokens, AgtypeValue.nodeTokens,
    AgtypeValue.elemTokens, AgtypeValue.pairTokens] at membership
  rcases membership with rfl | rfl | rfl | rfl | rfl | rfl | rfl <;> cases leafA <;> cases leafB <;>
    rfl

/-- `1` and `1::numeric` compare as equal and hash by different functions. -/
theorem not_agtypeHashCmp_numeric :
    Server.orderOps.compareAgtypeContainersOrderability (.array true [.integer 1])
        (.array true [.numeric (Server.int8Numeric 1)]) = .ok 0 ∧
      agtypeHashCmp Server.hashOps (.array true [.integer 1]) ≠
        agtypeHashCmp Server.hashOps (.array true [.numeric (Server.int8Numeric 1)]) := by
  decide +kernel

end Containers

end Age.Agtype
