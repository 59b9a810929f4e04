import Age.Agtype.GinContains

/-!
# The existence operators

`?`, `?|` and `?&` look for keys or elements at the top level.  All three take an
agtype on the right, which the extraction of query keys reads in ways of its own.
-/

namespace Age.Agtype

open Lib

section Operators

variable (ops : OrderOps)

/-- `find_agtype_value_from_agtype_value_object` finds something. -/
def foundInProperties (properties key : AgtypeValue) : Bool :=
  match properties, key with
  | .object pairs, .string val => (findFromObject pairs val).isSome
  | _, _ => false

/-- `pairs[i].value` of an entity, as it is. -/
def propertyValueAt (pairs : List AgtypePair) (i : Nat) : Except ContainsError AgtypeValue :=
  match pairs[i]? with
  | none => .error .unsetRead
  | some (_, properties) => .ok properties

/-- The search of a container for a key or an element. -/
def searchContainer (agt aval : AgtypeValue) : Except ContainsError Bool :=
  match agt, aval with
  | .object pairs, .string val => .ok (findFromObject pairs val).isSome
  | .array _ elems, aval =>
      if aval.type = .null then .ok false else (findFromArray ops aval elems).map Option.isSome
  | _, _ => .ok false

/-- `agtype_exists_agtype`, the operator `?`. -/
def agtypeExistsAgtype (agt key : AgtypeValue) : Except ContainsError Bool :=
  match key with
  | .array true (aval :: _) =>
      match agt with
      | .array true (.vertex pairs :: _) =>
          (propertyValueAt pairs 2).map fun properties => foundInProperties properties aval
      | .array true (.edge pairs :: _) =>
          (propertyValueAt pairs 4).map fun properties => foundInProperties properties aval
      | .array true (.path _ :: _) => .error .pathProperties
      -- no properties come back for a null, and the result is serialized
      | .array true (.null :: _) => .error .unsetRead
      | agt => searchContainer ops agt aval
  | _ => .ok false

/-- What the other two operators search: the properties of an entity, or the root. -/
def existsProperties : AgtypeValue → Except ContainsError (Option AgtypeValue)
  | .array true (.vertex pairs :: _) => (propertyValueAt pairs 2).map some
  | .array true (.edge pairs :: _) => (propertyValueAt pairs 4).map some
  | .array true (.path _ :: _) => .error .pathProperties
  | .array true _ => .error .notEntity
  | _ => .ok none

/-- The loop of `agtype_exists_any_agtype`. -/
def existsAnyLoop (agt : AgtypeValue) (properties : Option AgtypeValue) :
    List AgtypeValue → Except ContainsError Bool
  | [] => .ok false
  | elem :: rest =>
      if elem.isScalar then
        match properties with
        | some properties =>
            if foundInProperties properties elem then .ok true
            else existsAnyLoop agt (some properties) rest
        | none => do
            if ← searchContainer ops agt elem then return true
            else existsAnyLoop agt none rest
      else .ok false

/-- The loop of `agtype_exists_all_agtype`. -/
def existsAllLoop (agt : AgtypeValue) (properties : Option AgtypeValue) :
    List AgtypeValue → Except ContainsError Bool
  | [] => .ok true
  | elem :: rest =>
      if elem.isScalar then
        if elem.type = .null then existsAllLoop agt properties rest
        else if properties.any fun properties => foundInProperties properties elem then
          existsAllLoop agt properties rest
        else do
          if ← searchContainer ops agt elem then existsAllLoop agt properties rest
          else return false
      else .ok false

/-- `agtype_exists_any_agtype`, the operator `?|`. -/
def agtypeExistsAnyAgtype (agt keys : AgtypeValue) : Except ContainsError Bool := do
  let properties ← existsProperties agt
  match keys with
  | .array false elems => existsAnyLoop ops agt properties elems
  | _ => .error .rightOperand

/-- `agtype_exists_all_agtype`, the operator `?&`. -/
def agtypeExistsAllAgtype (agt keys : AgtypeValue) : Except ContainsError Bool := do
  let properties ← existsProperties agt
  match keys with
  | .array false elems => existsAllLoop ops agt properties elems
  | _ => .error .rightOperand

/-- The operator that is registered under a strategy number. -/
def existsOperator (strategy : Nat) (agt query : AgtypeValue) : Except ContainsError Bool :=
  if strategy = agtypeExistsStrategyNumber then agtypeExistsAgtype ops agt query
  else if strategy = agtypeExistsAnyStrategyNumber then agtypeExistsAnyAgtype ops agt query
  else agtypeExistsAllAgtype ops agt query

end Operators

section Lookup

variable {ops : GinOps}

/-- The texts that stand in an index as keys: keys of objects, and strings in arrays. -/
def keyTexts (root : AgtypeValue) : List Bytes :=
  root.tokens.filterMap fun token =>
    match token with
    | .key val => some val
    | .elem (.string val) => some val
    | _ => none

/-- Only the texts that stand as keys have a key with the flag of keys. -/
theorem mem_keys_iff_keyTexts {root : AgtypeValue} {keys : List Bytes}
    (indexed : ops.extractLoop root.tokens = .ok keys) (text : Bytes) :
    ops.makeTextKey .key text ∈ keys ↔
      ∃ other ∈ keyTexts root, ops.makeTextKey .key other = ops.makeTextKey .key text := by
  rw [mem_extractLoop indexed]
  constructor
  · rintro ⟨token, tokenIn, key⟩
    have clash {flag : GinFlag} {str : Bytes} (other : flag ≠ .key)
        (equal : some (Except.ok (ops.makeTextKey flag str)) =
          some (Except.ok (ε := GinError) (ops.makeTextKey .key text))) : False := by
      injection equal with equal
      injection equal with equal
      exact other (makeTextKey_flag equal)
    cases token
    case key val =>
      refine ⟨val, List.mem_filterMap.mpr ⟨_, tokenIn, rfl⟩, ?_⟩
      injection key with key
      injection key
    case elem v =>
      cases v
      case string val =>
        refine ⟨val, List.mem_filterMap.mpr ⟨_, tokenIn, rfl⟩, ?_⟩
        injection key with key
        injection key
      case vertex => cases key
      case edge => cases key
      case path => cases key
      case array => cases key
      case object => cases key
      all_goals exact (clash (by decide) key).elim
    case value v =>
      cases v
      case vertex => cases key
      case edge => cases key
      case path => cases key
      case array => cases key
      case object => cases key
      all_goals exact (clash (by decide) key).elim
    all_goals cases key
  · rintro ⟨other, otherIn, same⟩
    obtain ⟨token, tokenIn, isText⟩ := List.mem_filterMap.mp otherIn
    refine ⟨token, tokenIn, ?_⟩
    split at isText
    · cases isText
      exact congrArg (some ∘ Except.ok) same
    · cases isText
      exact congrArg (some ∘ Except.ok) same
    · cases isText

theorem keyTexts_object {pairs : List AgtypePair} {key : Bytes} {v : AgtypeValue}
    (membership : (key, v) ∈ pairs) : key ∈ keyTexts (.object pairs) :=
  List.mem_filterMap.mpr
    ⟨.key key, (mem_objectTokens rfl).mpr ⟨_, membership, .inl rfl⟩, rfl⟩

theorem keyTexts_array {rawScalar : Bool} {elems : List AgtypeValue} {val : Bytes}
    (membership : .string val ∈ elems) : val ∈ keyTexts (.array rawScalar elems) :=
  List.mem_filterMap.mpr
    ⟨.elem (.string val), (mem_arrayTokens rfl).mpr ⟨_, membership, List.mem_singleton_self _⟩, rfl⟩

/-- A string that is found at the top level stands as a key. -/
theorem keyTexts_of_searchContainer {orderOps : OrderOps} {agt : AgtypeValue} {val : Bytes}
    (found : searchContainer orderOps agt (.string val) = .ok true) : val ∈ keyTexts agt := by
  cases agt
  case object pairs =>
    rw [searchContainer] at found
    cases search : findFromObject pairs val with
    | none => rw [search] at found; cases found
    | some v => exact keyTexts_object (findFromObject_sound search)
  case array rawScalar elems =>
    have notNull : (AgtypeValue.string val).type ≠ .null := nofun
    rw [searchContainer, if_neg notNull] at found
    cases search : findFromArray orderOps (.string val) elems with
    | error error => rw [search] at found; cases found
    | ok result =>
        cases result with
        | none => rw [search] at found; cases found
        | some elem =>
            obtain ⟨elemIn, sameType, equal⟩ := findFromArray_sound search
            cases elem <;> try cases sameType
            case string.refl other =>
              have same : val = other := by
                have zero : lengthCompareAgtypeStringValue val other = 0 := by
                  simpa [OrderOps.equalsAgtypeScalarValue] using equal
                exact (threeWay_lengthCompare.eq_zero_iff _ _).mp zero
              exact keyTexts_array (same ▸ elemIn)
  all_goals cases found

/-- Key extraction from an array works for strings only. -/
theorem lookupKeys_eq {elems : List AgtypeValue} {entries : List Bytes} :
    ops.lookupKeys elems = .ok entries ↔
      ∃ texts : List Bytes, elems = texts.map .string ∧
        entries = texts.map (ops.makeTextKey .key) := by
  induction elems generalizing entries with
  | nil => simp [GinOps.lookupKeys, eq_comm]
  | cons elem rest inductionHypothesis =>
      constructor
      · intro looked
        cases elem
        case string val =>
          obtain ⟨others, lookedRest, result⟩ := bind_ok looked
          cases result
          obtain ⟨texts, rfl, rfl⟩ := inductionHypothesis.mp lookedRest
          exact ⟨val :: texts, rfl, rfl⟩
        all_goals cases looked
      · rintro ⟨texts, equal, rfl⟩
        cases texts with
        | nil => cases equal
        | cons val texts =>
            injection equal with first others
            subst first
            have rest := inductionHypothesis.mpr ⟨texts, others, rfl⟩
            simp [GinOps.lookupKeys, rest, bind, Except.bind, pure, Except.pure]

theorem notRejected_any_iff {strategy : Nat} {keys query : List Bytes}
    (isAny : strategy = agtypeExistsStrategyNumber ∨ strategy = agtypeExistsAnyStrategyNumber) :
    NotRejected strategy keys query ↔ ∃ key ∈ query, key ∈ keys := by
  have consistent (check : List Bool) : ginConsistentAgtype strategy check = .ok true := by
    rcases isAny with rfl | rfl <;> rfl
  have ternary (check : List GinTernaryValue) : ginTriconsistentAgtype strategy check =
      .ok (if check.any (· ≠ .false) then .maybe else .false) := by
    rcases isAny with rfl | rfl <;> rfl
  constructor
  · rintro ⟨-, notFalse⟩
    by_contra absent
    push Not at absent
    have fits : List.Forall₂ (GinTernaryValue.Fits keys) query (query.map fun _ => .false) :=
      List.forall₂_map_right_iff.mpr (List.forall₂_same.mpr absent)
    obtain ⟨res, result, isTrue⟩ := notFalse _ fits
    rw [ternary] at result
    cases result
    simp at isTrue
  · rintro ⟨key, keyIn, present⟩
    refine ⟨consistent _, fun check fits => ⟨.maybe, ?_, by decide⟩⟩
    rw [ternary]
    have some : check.any (· ≠ .false) = true := by
      induction fits with
      | nil => cases keyIn
      | @cons first value query check fit _ inductionHypothesis =>
          rcases List.mem_cons.mp keyIn with rfl | later
          · have here : value ≠ .false := by
              rintro rfl
              exact fit present
            simp [here]
          · rw [List.any_cons, inductionHypothesis later, Bool.or_true]
    rw [some]
    rfl

theorem notRejected_all_iff {keys query : List Bytes} :
    NotRejected agtypeExistsAllStrategyNumber keys query ↔ ∀ key ∈ query, key ∈ keys :=
  notRejected_contains_iff (s := agtypeContainsStrategyNumber) (.inl rfl)

end Lookup

section Completeness

variable {orderOps : OrderOps} {ops : GinOps}

/-- A root that has keys is searched itself. -/
theorem existsProperties_of_extractLoop {root : AgtypeValue} {keys : List Bytes}
    (extracted : ops.extractLoop root.tokens = .ok keys) {properties : Option AgtypeValue}
    (found : existsProperties root = .ok properties) : properties = none := by
  unfold existsProperties at found
  split at found
  · cases not_isEntity_of_extractLoop extracted
  · cases not_isEntity_of_extractLoop extracted
  · cases found
  · cases found
  · cases found
    rfl

/-- Some string of the query is found, when the query has only strings. -/
theorem found_of_existsAnyLoop {root : AgtypeValue} {texts : List Bytes}
    (holds : existsAnyLoop orderOps root none (texts.map .string) = .ok true) :
    ∃ text ∈ texts, text ∈ keyTexts root := by
  induction texts with
  | nil => cases holds
  | cons text rest inductionHypothesis =>
      have scalar : (AgtypeValue.string text).isScalar = true := rfl
      rw [List.map_cons, existsAnyLoop, if_pos scalar] at holds
      obtain ⟨here, searched, result⟩ := bind_ok holds
      cases here with
      | true => exact ⟨text, List.mem_cons_self, keyTexts_of_searchContainer searched⟩
      | false =>
          obtain ⟨other, otherIn, found⟩ := inductionHypothesis result
          exact ⟨other, List.mem_cons_of_mem _ otherIn, found⟩

theorem found_of_existsAllLoop {root : AgtypeValue} {texts : List Bytes}
    (holds : existsAllLoop orderOps root none (texts.map .string) = .ok true) :
    ∀ text ∈ texts, text ∈ keyTexts root := by
  induction texts with
  | nil => exact fun _ membership => nomatch membership
  | cons text rest inductionHypothesis =>
      have scalar : (AgtypeValue.string text).isScalar = true := rfl
      have notNull : (AgtypeValue.string text).type ≠ .null := nofun
      rw [List.map_cons, existsAllLoop, if_pos scalar, if_neg notNull, if_neg (by simp)] at holds
      obtain ⟨here, searched, result⟩ := bind_ok holds
      cases here with
      | true =>
          exact List.forall_mem_cons.mpr
            ⟨keyTexts_of_searchContainer searched, inductionHypothesis result⟩
      | false => cases result

/-- When the query keys can be taken and do not turn the value down. -/
def Answers (ops : GinOps) (strategy : Nat) (query : AgtypeValue) (image : Bytes)
    (keys : List Bytes) : Prop :=
  ∃ entries mode, ops.ginExtractAgtypeQuery strategy query image = .ok (entries, mode) ∧
    NotRejected strategy keys entries

/-- The query is an array of strings. -/
def IsStringArray (query : AgtypeValue) : Prop :=
  ∃ texts : List Bytes, query = .array false (texts.map .string)

/-- `?`: the text looked up is the datum itself. -/
theorem answers_exists_iff {v q : AgtypeValue} {image : Bytes} {keys : List Bytes}
    (indexed : ops.ginExtractAgtype v.root = .ok keys) :
    Answers ops agtypeExistsStrategyNumber q.root image keys ↔
      ∃ text ∈ keyTexts v.root, ops.makeTextKey .key text = ops.makeTextKey .key image := by
  rw [ginExtractAgtype_eq v.isScalar_root] at indexed
  rw [← mem_keys_iff_keyTexts indexed]
  have extract : ops.ginExtractAgtypeQuery agtypeExistsStrategyNumber q.root image =
      .ok ([ops.makeTextKey .key image], .default) := rfl
  rw [Answers, extract]
  constructor
  · rintro ⟨entries, mode, equal, accepted⟩
    cases equal
    simpa using (notRejected_any_iff (.inl rfl)).mp accepted
  · intro present
    exact ⟨_, _, rfl, (notRejected_any_iff (.inl rfl)).mpr ⟨_, List.mem_singleton_self _, present⟩⟩

/-- The other two operators: keys can be taken from an array of strings only. -/
theorem extract_array_iff {strategy : Nat} (isArray : strategy = agtypeExistsAnyStrategyNumber ∨
    strategy = agtypeExistsAllStrategyNumber) {query : AgtypeValue} {image : Bytes}
    {entries : List Bytes} :
    (∃ mode, ops.ginExtractAgtypeQuery strategy query image = .ok (entries, mode)) ↔
      ∃ texts : List Bytes, query = .array false (texts.map .string) ∧
        entries = texts.map (ops.makeTextKey .key) := by
  have extract : ops.ginExtractAgtypeQuery strategy query image =
      match query with
      | .array false elems => do
          let entries ← ops.lookupKeys elems
          return (entries, if entries.length = 0 ∧ strategy = agtypeExistsAllStrategyNumber then
            .all else .default)
      | _ => .error .queryNotArray := by
    rcases isArray with rfl | rfl <;> rfl
  rw [extract]
  constructor
  · rintro ⟨mode, equal⟩
    split at equal
    · obtain ⟨found, looked, result⟩ := bind_ok equal
      cases result
      obtain ⟨texts, rfl, rfl⟩ := lookupKeys_eq.mp looked
      exact ⟨texts, rfl, rfl⟩
    · cases equal
  · rintro ⟨texts, rfl, rfl⟩
    simp only [lookupKeys_eq.mpr ⟨texts, rfl, rfl⟩, bind, Except.bind, pure, Except.pure]
    exact ⟨_, rfl⟩

/-- When an existence operator holds, the index answers for the value exactly if,
for `?`, some key text of the value has the key of the query's own bytes, and for
the other two, the query is an array of strings. -/
theorem answers_iff_of_exists {v q : AgtypeValue} {strategy : Nat} (image : Bytes)
    {keys : List Bytes}
    (isExists : strategy = agtypeExistsStrategyNumber ∨
      strategy = agtypeExistsAnyStrategyNumber ∨ strategy = agtypeExistsAllStrategyNumber)
    (indexed : ops.ginExtractAgtype v.root = .ok keys)
    (holds : existsOperator orderOps strategy v.root q.root = .ok true) :
    Answers ops strategy q.root image keys ↔
      if strategy = agtypeExistsStrategyNumber then
        ∃ text ∈ keyTexts v.root, ops.makeTextKey .key text = ops.makeTextKey .key image
      else IsStringArray q.root := by
  have extracted := indexed
  rw [ginExtractAgtype_eq v.isScalar_root] at extracted
  rcases isExists with rfl | rfl | rfl
  · rw [if_pos rfl]
    exact answers_exists_iff indexed
  · rw [if_neg (by decide)]
    constructor
    · rintro ⟨entries, mode, extract, -⟩
      obtain ⟨texts, equal, -⟩ := (extract_array_iff (.inl rfl)).mp ⟨mode, extract⟩
      exact ⟨texts, equal⟩
    · rintro ⟨texts, equal⟩
      obtain ⟨mode, extract⟩ := (extract_array_iff
        (.inl rfl)).mpr ⟨texts, equal, rfl⟩
      refine ⟨_, mode, extract, (notRejected_any_iff (.inr rfl)).mpr ?_⟩
      change agtypeExistsAnyAgtype orderOps v.root q.root = .ok true at holds
      obtain ⟨properties, plain, loop⟩ := bind_ok holds
      cases existsProperties_of_extractLoop extracted plain
      rw [equal] at loop
      obtain ⟨text, textIn, found⟩ := found_of_existsAnyLoop loop
      exact ⟨_, List.mem_map_of_mem textIn, (mem_keys_iff_keyTexts extracted text).mpr
        ⟨text, found, rfl⟩⟩
  · rw [if_neg (by decide)]
    constructor
    · rintro ⟨entries, mode, extract, -⟩
      obtain ⟨texts, equal, -⟩ := (extract_array_iff (.inr rfl)).mp ⟨mode, extract⟩
      exact ⟨texts, equal⟩
    · rintro ⟨texts, equal⟩
      obtain ⟨mode, extract⟩ := (extract_array_iff
        (.inr rfl)).mpr ⟨texts, equal, rfl⟩
      refine ⟨_, mode, extract, notRejected_all_iff.mpr ?_⟩
      change agtypeExistsAllAgtype orderOps v.root q.root = .ok true at holds
      obtain ⟨properties, plain, loop⟩ := bind_ok holds
      cases existsProperties_of_extractLoop extracted plain
      rw [equal] at loop
      rintro key keyIn
      obtain ⟨text, textIn, rfl⟩ := List.mem_map.mp keyIn
      exact (mem_keys_iff_keyTexts extracted text).mpr
        ⟨text, found_of_existsAllLoop loop text textIn, rfl⟩

/-- `{"a": 1} ?| ["b", "a"]` -/
theorem answers_iff_of_exists_strings :
    ∃ keys, zeroTexts.ginExtractAgtype (.object [([97], .integer 1)]) = .ok keys ∧
      ∃ image, Answers zeroTexts agtypeExistsAnyStrategyNumber
        (.array false [.string [98], .string [97]]) image keys := by
  refine ⟨_, rfl, [], ?_⟩
  have found : existsOperator Server.orderOps agtypeExistsAnyStrategyNumber
      (.object [([97], .integer 1)]) (.array false [.string [98], .string [97]]) = .ok true := by
    decide +kernel
  refine (answers_iff_of_exists (v := .object [([97], .integer 1)])
    (q := .array false [.string [98], .string [97]]) [] (.inr (.inl rfl)) rfl found).mpr ?_
  rw [if_neg (by decide)]
  exact ⟨[[98], [97]], rfl⟩

/-- `{"a": 1} ? "a"` holds, but the key looked up is made from the bytes of the
container of `"a"`. -/
theorem not_answers_exists_key :
    ∃ agtype keys, agtypeValueToAgtype (.string [97]) = .ok agtype ∧
      zeroTexts.ginExtractAgtype (.object [([97], .integer 1)]) = .ok keys ∧
      agtypeExistsAgtype Server.orderOps (.object [([97], .integer 1)])
        (.array true [.string [97]]) = .ok true ∧
      ¬Answers zeroTexts agtypeExistsStrategyNumber (.array true [.string [97]])
        (agtype.drop 4) keys := by
  refine ⟨_, _, rfl, rfl, by decide +kernel, fun answers => ?_⟩
  have present := (answers_exists_iff (v := .object [([97], .integer 1)])
    (q := .string [97]) rfl).mp answers
  exact absurd present (by decide +kernel)

end Completeness

end Age.Agtype
