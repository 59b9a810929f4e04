import Age.Agtype.GinPath
import Age.Agtype.Order
import Age.Agtype.Text.Print

/-!
# The default operator class

`gin_agtype_ops` reduces a value to a bag of text keys, a flag byte and a text for
each key and scalar.  A query is answered from the keys it shares with a value.
-/

namespace Age.Agtype

open Lib

/-- The server functions behind a text key. -/
structure GinOps where
  hashAny : Bytes → UInt32
  /-- `float8out_internal` -/
  float8Out : Float8 → Bytes
  /-- `numeric_normalize` -/
  numericNormalize : Numeric → Bytes

def agtypeExistsStrategyNumber : Nat := 9

def agtypeExistsAnyStrategyNumber : Nat := 10

def agtypeExistsAllStrategyNumber : Nat := 11

def agtypeContainsTopLevelStrategyNumber : Nat := 12

/-- `AGT_GIN_FLAG_*` -/
inductive GinFlag where
  | key | null | bool | num | str
  deriving DecidableEq, Repr

def GinFlag.code : GinFlag → UInt8
  | .key => 0x01
  | .null => 0x02
  | .bool => 0x03
  | .num => 0x04
  | .str => 0x05

def agtGinFlagHashed : UInt8 := 0x10

def agtGinMaxLength : Nat := 125

/-- `%08x` -/
def hexWord (word : UInt32) : Bytes :=
  (List.range 8).map fun i => hexDigit (word.toNat / 16 ^ (7 - i) % 16)

namespace GinOps

variable (ops : GinOps)

def makeTextKey (flag : GinFlag) (str : Bytes) : Bytes :=
  if agtGinMaxLength < str.length then
    (flag.code ||| agtGinFlagHashed) :: hexWord (ops.hashAny str)
  else flag.code :: str

/-- The text of a number. -/
def numberText : AgtypeValue → Option Bytes
  | .integer val => some (pgLltoa val)
  | .float val => some (ops.float8Out val)
  | .numeric val => some (ops.numericNormalize val)
  | _ => none

def makeScalarKey (isKey : Bool) : AgtypeValue → Except GinError Bytes
  | .null => .ok (ops.makeTextKey .null [])
  | .integer val => .ok (ops.makeTextKey .num (pgLltoa val))
  | .float val => .ok (ops.makeTextKey .num (ops.float8Out val))
  | .bool val => .ok (ops.makeTextKey .bool (if val then [byte 't'] else [byte 'f']))
  | .numeric val => .ok (ops.makeTextKey .num (ops.numericNormalize val))
  | .string val => .ok (ops.makeTextKey (if isKey then .key else .str) val)
  | v => .error (.notScalar v.type)

/-- What one token contributes. -/
def tokenKey : Token → Option (Except GinError Bytes)
  | .key val => some (ops.makeScalarKey true (.string val))
  -- string array elements pass for keys
  | .elem v => some (ops.makeScalarKey (v.type = .string) v)
  | .value v => some (ops.makeScalarKey false v)
  | _ => none

def extractLoop : List Token → Except GinError (List Bytes)
  | [] => .ok []
  | token :: rest =>
      match ops.tokenKey token with
      | none => extractLoop rest
      | some entry => do
          let entry ← entry
          let entries ← extractLoop rest
          return entry :: entries

def ginExtractAgtype (agt : AgtypeValue) : Except GinError (List Bytes) :=
  if agt.rootCount = 0 then .ok [] else ops.extractLoop agt.tokens

/-- The loop over the elements of an array query. -/
def lookupKeys : List AgtypeValue → Except GinError (List Bytes)
  | [] => .ok []
  | .string val :: rest => do
      let entries ← lookupKeys rest
      return ops.makeTextKey .key val :: entries
  | elem :: _ => .error (.unsupportedLookup elem.type)

/-- `gin_extract_agtype_query`.  `image` is what `VARDATA_ANY` gives for the query
datum, the bytes of its root container. -/
def ginExtractAgtypeQuery (strategy : Nat) (query : AgtypeValue) (image : Bytes) :
    Except GinError (List Bytes × GinSearchMode) :=
  if strategy = agtypeContainsStrategyNumber ∨ strategy = agtypeContainsTopLevelStrategyNumber then do
    let entries ← ops.ginExtractAgtype query
    return (entries, if entries.length = 0 then .all else .default)
  else if strategy = agtypeExistsStrategyNumber then
    .ok ([ops.makeTextKey .key image], .default)
  else if strategy = agtypeExistsAnyStrategyNumber ∨ strategy = agtypeExistsAllStrategyNumber then
    match query with
    | .array false elems => do
        let entries ← ops.lookupKeys elems
        return (entries,
          if entries.length = 0 ∧ strategy = agtypeExistsAllStrategyNumber then .all else .default)
    | _ => .error .queryNotArray
  else .error (.unrecognizedStrategy strategy)

end GinOps

/-- `gin_consistent_agtype`; `*recheck` is always set. -/
def ginConsistentAgtype (strategy : Nat) (check : List Bool) : Except GinError Bool :=
  if strategy = agtypeContainsStrategyNumber ∨ strategy = agtypeContainsTopLevelStrategyNumber then
    .ok (check.all id)
  else if strategy = agtypeExistsStrategyNumber then .ok true
  else if strategy = agtypeExistsAnyStrategyNumber then .ok true
  else if strategy = agtypeExistsAllStrategyNumber then .ok (check.all id)
  else .error (.unrecognizedStrategy strategy)

def ginTriconsistentAgtype (strategy : Nat) (check : List GinTernaryValue) :
    Except GinError GinTernaryValue :=
  if strategy = agtypeContainsStrategyNumber ∨ strategy = agtypeContainsTopLevelStrategyNumber ∨
      strategy = agtypeExistsAllStrategyNumber then
    .ok (if check.any (· = .false) then .false else .maybe)
  else if strategy = agtypeExistsStrategyNumber ∨ strategy = agtypeExistsAnyStrategyNumber then
    .ok (if check.any (· ≠ .false) then .maybe else .false)
  else .error (.unrecognizedStrategy strategy)

/-- A ternary value says of a query key nothing that the indexed keys contradict. -/
def GinTernaryValue.Fits (keys : List Bytes) (key : Bytes) : GinTernaryValue → Prop
  | .false => key ∉ keys
  | .true => key ∈ keys
  | .maybe => True

/-- Neither support function turns down a value with these keys. -/
def NotRejected (strategy : Nat) (keys query : List Bytes) : Prop :=
  ginConsistentAgtype strategy (query.map fun key => decide (key ∈ keys)) = .ok true ∧
    ∀ check, List.Forall₂ (GinTernaryValue.Fits keys) query check →
      ∃ res, ginTriconsistentAgtype strategy check = .ok res ∧ res ≠ .false

section Keys

variable {ops : GinOps}

theorem mem_extractLoop {tokens : List Token} {keys : List Bytes}
    (extracted : ops.extractLoop tokens = .ok keys) (key : Bytes) :
    key ∈ keys ↔ ∃ token ∈ tokens, ops.tokenKey token = some (.ok key) := by
  induction tokens generalizing keys with
  | nil =>
      cases extracted
      simp
  | cons token rest inductionHypothesis =>
      rw [GinOps.extractLoop] at extracted
      split at extracted
      · rename_i none
        simp [inductionHypothesis extracted, none]
      · rename_i entry some
        obtain ⟨first, rfl, others⟩ := bind_ok extracted
        obtain ⟨entries, extractedRest, result⟩ := bind_ok others
        cases result
        simp [inductionHypothesis extractedRest, some, eq_comm]

/-- Tokens that contribute no error. -/
theorem tokenKey_ok_of_extractLoop {tokens : List Token} {keys : List Bytes}
    (extracted : ops.extractLoop tokens = .ok keys) {token : Token} (membership : token ∈ tokens)
    {entry : Except GinError Bytes} (contributes : ops.tokenKey token = some entry) :
    ∃ key ∈ keys, entry = .ok key := by
  induction tokens generalizing keys with
  | nil => cases membership
  | cons first rest inductionHypothesis =>
      rw [GinOps.extractLoop] at extracted
      rcases List.mem_cons.mp membership with rfl | later
      · rw [contributes] at extracted
        obtain ⟨key, isOk, others⟩ := bind_ok extracted
        obtain ⟨entries, _, result⟩ := bind_ok others
        cases result
        exact ⟨key, List.mem_cons_self, isOk⟩
      · split at extracted
        · exact inductionHypothesis extracted later
        · obtain ⟨key, _, others⟩ := bind_ok extracted
          obtain ⟨entries, extractedRest, result⟩ := bind_ok others
          cases result
          obtain ⟨found, foundIn, isOk⟩ := inductionHypothesis extractedRest later
          exact ⟨found, List.mem_cons_of_mem _ foundIn, isOk⟩

theorem ginExtractAgtype_eq {agt : AgtypeValue} (container : agt.isScalar = false) :
    ops.ginExtractAgtype agt = ops.extractLoop agt.tokens := by
  rw [GinOps.ginExtractAgtype]
  split_ifs with empty
  · cases agt <;> cases container
    all_goals
      rw [AgtypeValue.rootCount, List.length_eq_zero_iff] at empty
      subst empty
      rfl
  · rfl

theorem notRejected_contains_iff {s : Nat} {keys query : List Bytes}
    (isContains : s = agtypeContainsStrategyNumber ∨
      s = agtypeContainsTopLevelStrategyNumber) :
    NotRejected s keys query ↔ ∀ key ∈ query, key ∈ keys := by
  rw [NotRejected, ginConsistentAgtype, if_pos isContains]
  constructor
  · rintro ⟨consistent, -⟩
    simpa [List.all_map] using consistent
  · intro within
    refine ⟨by simpa [List.all_map] using within, fun check fits => ⟨.maybe, ?_, by decide⟩⟩
    rw [ginTriconsistentAgtype, if_pos (by tauto)]
    have noFalse : check.any (· = .false) = false := by
      induction fits with
      | nil => rfl
      | @cons key value query check first _ inductionHypothesis =>
          have here : value ≠ .false := by
            rintro rfl
            exact first (within key List.mem_cons_self)
          simp [here, inductionHypothesis fun other membership =>
            within other (List.mem_cons_of_mem _ membership)]
    rw [noFalse]
    rfl

end Keys

end Age.Agtype
