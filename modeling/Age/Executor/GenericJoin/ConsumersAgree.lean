import Age.Executor.GenericJoin.ConsumerBindings

/-!
# The consumers against the rows

Each consumer gives out what its aggregate is on the rows of the join, or fails because a number
of that result has no 64 bits.
-/

namespace Age.Executor.GenericJoin

open Backtrack

section Specification

/-- The key that a variable has in a combination -/
def combinationKey (providers : List GenericProvider) (var : Nat) (rows : List GenericRow) :
    GraphId :=
  ((providers.zip rows).findSome? fun entry => entry.1.rowKeyForVariable entry.2 var).getD 0

/-- An aggregate of integers -/
def aggregateCell (aggregate : PropertyAggregate) (values : List Int) : Cell :=
  if values = [] then .null
  else
    match aggregate with
    | .sum => .int8 values.sum
    | .avg => .ratio (values.sum / values.length)
    | .min => values.min?.elim .null .int8
    | .max => values.max?.elim .null .int8

/-- What a consumer stands for: its aggregate on the rows of the join -/
def aggregateRows (consumer : ConsumerDesc) (keyOf : List GenericRow → GraphId)
    (rows : List (List GenericRow)) : List (List Cell) :=
  let keys := (rows.map keyOf).dedup
  let valuesOf := fun rows : List (List GenericRow) =>
    known (rows.map (combinationValue consumer.valueOf consumer.sumIndex))
  match consumer.kind with
  | .count => [[.int8 rows.length]]
  | .countDistinctKey => [[.int8 keys.length]]
  | .distinctKey => keys.map fun key => [.key key]
  | .groupCount => keys.map fun key =>
      [.key key, .int8 (rows.filter fun choice => keyOf choice = key).length]
  | .groupCountDistinctKey => keys.map fun key => [.key key, .int8 1]
  | .existsRow => if rows = [] then [] else [[.boolean true]]
  | .property aggregate => [[aggregateCell aggregate (valuesOf rows)]]
  | .groupProperty aggregate => keys.map fun key =>
      [.key key, aggregateCell aggregate (valuesOf (rows.filter fun choice => keyOf choice = key))]

/-- A number of the exact result has no 64 bits. -/
def OutOfRange (exact_ : List (List Cell)) : Prop :=
  ∃ row ∈ exact_, ∃ number, Cell.int8 number ∈ row ∧ ¬FitsInt64 number

/-- The result is the exact one in some order, or an error where that one is out of range. -/
def Agrees (exact_ : List (List Cell)) : Except ConsumerError (List (List Cell)) → Prop
  | .ok result => result.Perm exact_
  | .error _ => OutOfRange exact_

theorem aggregateCell_perm {aggregate : PropertyAggregate} {first second : List Int}
    (perm : first.Perm second) :
    aggregateCell aggregate first = aggregateCell aggregate second := by
  unfold aggregateCell
  have same : first = [] ↔ second = [] := ⟨fun empty => List.nil_perm.1 (empty ▸ perm),
    fun empty => List.perm_nil.1 (empty ▸ perm)⟩
  by_cases empty : first = []
  · rw [if_pos empty, if_pos (same.1 empty)]
  · rw [if_neg empty, if_neg (mt same.2 empty)]
    cases aggregate with
    | sum => exact congrArg Cell.int8 perm.sum_eq
    | avg =>
        dsimp only
        rw [perm.sum_eq, perm.length_eq]
    | min =>
        have : first.min? = second.min? := by
          cases isMin : second.min? with
          | none => exact List.min?_eq_none_iff.2 (same.2 (List.min?_eq_none_iff.1 isMin))
          | some least =>
              rw [List.min?_eq_some_iff] at isMin ⊢
              exact ⟨perm.mem_iff.2 isMin.1,
                fun value inside => isMin.2 value (perm.mem_iff.1 inside)⟩
        exact congrArg (fun least => least.elim Cell.null Cell.int8) this
    | max =>
        have : first.max? = second.max? := by
          cases isMax : second.max? with
          | none => exact List.max?_eq_none_iff.2 (same.2 (List.max?_eq_none_iff.1 isMax))
          | some most =>
              rw [List.max?_eq_some_iff] at isMax ⊢
              exact ⟨perm.mem_iff.2 isMax.1,
                fun value inside => isMax.2 value (perm.mem_iff.1 inside)⟩
        exact congrArg (fun most => most.elim Cell.null Cell.int8) this

theorem known_perm {first second : List (Option Int)} (perm : first.Perm second) :
    (known first).Perm (known second) := perm.filterMap _

/-- The rows may come in any order. -/
theorem aggregateRows_perm {consumer : ConsumerDesc} {keyOf : List GenericRow → GraphId}
    {first second : List (List GenericRow)} (perm : first.Perm second) :
    (aggregateRows consumer keyOf first).Perm (aggregateRows consumer keyOf second) := by
  have keys : ((first.map keyOf).dedup).Perm ((second.map keyOf).dedup) := (perm.map _).dedup
  have same : first = [] ↔ second = [] := ⟨fun empty => List.nil_perm.1 (empty ▸ perm),
    fun empty => List.perm_nil.1 (empty ▸ perm)⟩
  unfold aggregateRows
  cases consumer.kind with
  | count => exact .of_eq (by rw [perm.length_eq])
  | countDistinctKey => exact .of_eq (by dsimp only; rw [keys.length_eq])
  | distinctKey => exact keys.map _
  | groupCount =>
      refine (keys.map _).trans (.of_eq (List.map_congr_left fun key _ => ?_))
      rw [(perm.filter _).length_eq]
  | groupCountDistinctKey => exact keys.map _
  | existsRow =>
      refine .of_eq ?_
      dsimp only
      by_cases empty : first = []
      · rw [if_pos empty, if_pos (same.1 empty)]
      · rw [if_neg empty, if_neg (mt same.2 empty)]
  | property aggregate =>
      refine .of_eq ?_
      dsimp only
      rw [aggregateCell_perm (known_perm (perm.map _))]
  | groupProperty aggregate =>
      refine (keys.map _).trans (.of_eq (List.map_congr_left fun key _ => ?_))
      rw [aggregateCell_perm (known_perm ((perm.filter _).map _))]

theorem OutOfRange.perm {first second : List (List Cell)} (outOfRange : OutOfRange first)
    (perm : first.Perm second) : OutOfRange second := by
  obtain ⟨row, inside, number⟩ := outOfRange
  exact ⟨row, perm.mem_iff.1 inside, number⟩

theorem Agrees.perm {first second : List (List Cell)}
    {result : Except ConsumerError (List (List Cell))} (agrees : Agrees first result)
    (perm : first.Perm second) : Agrees second result := by
  cases result with
  | ok cells => exact List.Perm.trans agrees perm
  | error error => exact OutOfRange.perm agrees perm

/-- The cell of a state is the aggregate of the values that it has seen. -/
theorem propertyCell_eq {aggregate : PropertyAggregate} {all group : List (Option Int)}
    {state : PropertyState} (summary : state.Summarizes aggregate all group) :
    propertyCell aggregate state = aggregateCell aggregate (known group) := by
  unfold propertyCell aggregateCell
  by_cases empty : known group = []
  · rw [if_pos empty, summary.hasValue, empty]
    rfl
  · have has : state.hasValue = true := by
      rw [summary.hasValue]
      simpa using empty
    rw [if_neg empty, has]
    have value := summary.value has
    cases aggregate with
    | sum => exact congrArg Cell.int8 value
    | avg =>
        have isSum : state.avgSum = (known group).sum := value
        simp [isSum, summary.valueInputRows]
    | min =>
        have isMin : (known group).min? = some state.minmax := List.min?_eq_some_iff.2 value
        simp [isMin]
    | max =>
        have isMax : (known group).max? = some state.minmax := List.max?_eq_some_iff.2 value
        simp [isMax]

end Specification

section Runs

variable {α : Type} {κ : Type} [LinearOrder κ]

theorem takeWhile_sorted {key : α → κ} {list : List α} {least : κ}
    (sorted : list.Pairwise fun first second => key first ≤ key second)
    (above : ∀ entry ∈ list, least ≤ key entry) :
    list.takeWhile (fun entry => key entry = least) = list.filter (fun entry => key entry = least) ∧
      list.dropWhile (fun entry => key entry = least) =
        list.filter fun entry => ¬key entry = least := by
  induction list with
  | nil => exact ⟨rfl, rfl⟩
  | cons entry rest inductionHypothesis =>
      obtain ⟨first, later⟩ := List.pairwise_cons.1 sorted
      by_cases same : key entry = least
      · obtain ⟨take, drop⟩ := inductionHypothesis later fun other isOther =>
          above other (List.mem_cons_of_mem entry isOther)
        simp [same, take, drop]
      · have greater : ∀ other ∈ rest, ¬key other = least := fun other isOther isLeast =>
          same (le_antisymm (isLeast ▸ first other isOther) (above entry List.mem_cons_self))
        simp only [List.takeWhile_cons, List.dropWhile_cons, List.filter_cons, same, decide_false,
          Bool.false_eq_true, if_false, decide_true, if_true, not_false_eq_true]
        refine ⟨(List.filter_eq_nil_iff.2 fun other isOther => by
          simpa using greater other isOther).symm, ?_⟩
        rw [List.filter_eq_self.2 fun other isOther => by simpa using greater other isOther]

end Runs

section Counting

variable {groups : UniquenessGroups} {ready : List ReadyBinding}

/-- The rows of all bindings -/
def readyRows (ready : List ReadyBinding) : List (List GenericRow) :=
  ready.flatMap fun binding => binding.combinations

theorem sum_combinations (ready : List ReadyBinding) :
    (ready.map fun binding => (binding.combinations.length : Int)).sum =
      (readyRows ready).length := by
  induction ready with
  | nil => rfl
  | cons binding rest inductionHypothesis =>
      rw [List.map_cons, List.sum_cons, inductionHypothesis, readyRows, readyRows,
        List.flatMap_cons, List.length_append]
      push_cast
      rfl

theorem agrees_checked {number : Int} (low : 0 ≤ number) :
    Agrees [[.int8 number]] (checked number >>= fun count => pure [[.int8 count]]) := by
  by_cases fits : number < 2 ^ 63
  · rw [checked_ok low fits, ok_then]
    exact List.Perm.refl [[Cell.int8 number]]
  · rw [checked_error (by omega)]
    exact ⟨_, List.mem_singleton_self _, number, List.mem_singleton_self _,
      fun both => fits both.2⟩

theorem countScan_agrees (rights : ∀ binding ∈ ready, binding.Right groups) :
    Agrees [[.int8 (readyRows ready).length]] (countScan groups ready) := by
  have counted := @foldlM_checked _ (addBindingCount groups)
    (fun binding => (binding.combinations.length : Int)) ready
    (fun _ _ => Int.natCast_nonneg _)
    (fun binding inside count low high => addBindingCount_eq (rights binding inside) low high)
    0 le_rfl (by decide)
  unfold countScan
  rw [counted, Int.zero_add, sum_combinations]
  refine agrees_checked ?_
  exact Int.natCast_nonneg _

/-- The keys of the bindings that have a combination -/
def acceptedKeys (distinctVariable : Nat) (ready : List ReadyBinding) : List GraphId :=
  (ready.filter fun binding => binding.combinations ≠ []).map fun binding =>
    boundKey binding.bindings distinctVariable

/-- The keys that are recorded after some more are asked for -/
def recordAll (seen : List GraphId) : List GraphId → List GraphId
  | [] => seen
  | key :: rest => recordAll (recordDistinctKey seen key).1 rest

theorem recordAll_spec (seen keys : List GraphId) (distinct : seen.Nodup) :
    (recordAll seen keys).Nodup ∧
      (∀ key, key ∈ recordAll seen keys ↔ key ∈ seen ∨ key ∈ keys) ∧
      seen.length ≤ (recordAll seen keys).length := by
  induction keys generalizing seen with
  | nil => exact ⟨distinct, by simp [recordAll], le_rfl⟩
  | cons key rest inductionHypothesis =>
      rw [recordAll, recordDistinctKey]
      split_ifs with known
      · obtain ⟨nodup, members, length⟩ := inductionHypothesis seen distinct
        refine ⟨nodup, fun other => ?_, length⟩
        rw [members, List.mem_cons]
        constructor
        · rintro (inSeen | inRest)
          · exact .inl inSeen
          · exact .inr (.inr inRest)
        · rintro (inSeen | rfl | inRest)
          · exact .inl inSeen
          · exact .inl known
          · exact .inr inRest
      · have more : (seen ++ [key]).Nodup := by
          rw [List.nodup_append]
          refine ⟨distinct, List.nodup_singleton key, fun first inSeen second isKey same => ?_⟩
          rw [List.mem_singleton] at isKey
          exact known (isKey ▸ same ▸ inSeen)
        obtain ⟨nodup, members, length⟩ := inductionHypothesis (seen ++ [key]) more
        refine ⟨nodup, fun other => ?_, ?_⟩
        · rw [members, List.mem_append, List.mem_singleton, List.mem_cons, or_assoc]
        · rw [List.length_append] at length
          exact (Nat.le_add_right _ _).trans length

theorem recordAll_perm (keys : List GraphId) : (recordAll [] keys).Perm keys.dedup := by
  obtain ⟨nodup, members, -⟩ := recordAll_spec [] keys List.nodup_nil
  rw [List.perm_ext_iff_of_nodup nodup keys.nodup_dedup]
  intro key
  rw [members, List.mem_dedup]
  simp

theorem distinctKeyLoop_eq (distinctVariable : Nat) (ready : List ReadyBinding)
    (seen : List GraphId) :
    seen.map (fun key => [Cell.key key]) ++ distinctKeyLoop distinctVariable ready seen =
      (recordAll seen (acceptedKeys distinctVariable ready)).map fun key => [.key key] := by
  induction ready generalizing seen with
  | nil => simp [distinctKeyLoop, acceptedKeys, recordAll]
  | cons binding rest inductionHypothesis =>
      unfold distinctKeyLoop acceptedKeys
      by_cases none : binding.combinations = []
      · rw [if_pos none, List.filter_cons_of_neg (by simpa using none)]
        exact inductionHypothesis seen
      · rw [if_neg none, List.filter_cons_of_pos (by simpa using none), List.map_cons, recordAll]
        by_cases known : boundKey binding.bindings distinctVariable ∈ seen
        · simp only [recordDistinctKey, if_pos known, Bool.false_eq_true, if_false]
          exact inductionHypothesis seen
        · simp only [recordDistinctKey, if_neg known, if_true]
          have later := inductionHypothesis (seen ++ [boundKey binding.bindings distinctVariable])
          rw [List.map_append, List.append_assoc] at later
          exact later

theorem countDistinctLoop_eq (distinctVariable : Nat) (ready : List ReadyBinding)
    {seen : List GraphId} (distinct : seen.Nodup) (fits : (seen.length : Int) < 2 ^ 63) :
    countDistinctLoop distinctVariable ready seen seen.length =
      checked (recordAll seen (acceptedKeys distinctVariable ready)).length := by
  induction ready generalizing seen with
  | nil =>
      rw [countDistinctLoop, checked_ok (Int.natCast_nonneg _)]
      · rfl
      · exact fits
  | cons binding rest inductionHypothesis =>
      unfold countDistinctLoop acceptedKeys
      by_cases none : binding.combinations = []
      · rw [if_pos none, List.filter_cons_of_neg (by simpa using none)]
        exact inductionHypothesis distinct fits
      · rw [if_neg none, List.filter_cons_of_pos (by simpa using none), List.map_cons, recordAll]
        by_cases known : boundKey binding.bindings distinctVariable ∈ seen
        · simp only [recordDistinctKey, if_pos known, Bool.false_eq_true, if_false]
          exact inductionHypothesis distinct fits
        · simp only [recordDistinctKey, if_neg known, if_true]
          have more : (seen ++ [boundKey binding.bindings distinctVariable]).Nodup := by
            rw [List.nodup_append]
            refine ⟨distinct, List.nodup_singleton _, fun first inSeen second isKey same => ?_⟩
            rw [List.mem_singleton] at isKey
            exact known (isKey ▸ same ▸ inSeen)
          have length : ((seen ++ [boundKey binding.bindings distinctVariable]).length : Int) =
              seen.length + 1 := by simp
          rw [addCountResult_eq (Int.natCast_nonneg _) fits Int.one_nonneg]
          by_cases larger : (seen.length : Int) + 1 < 2 ^ 63
          · rw [checked_ok (by omega) larger, ok_then, ← length]
            exact inductionHypothesis more (length ▸ larger)
          · have grows := (recordAll_spec _ (acceptedKeys distinctVariable rest) more).2.2
            unfold acceptedKeys at grows
            rw [checked_error (by omega), error_then, checked_error]
            omega

end Counting

section Consumed

variable {groups : UniquenessGroups} {ready : List ReadyBinding} {consumer : ConsumerDesc}
  {keyOf : List GenericRow → GraphId}

/-- The combinations of a binding have the key of the binding. -/
def KeysOf (keyOf : List GenericRow → GraphId) (distinctVariable : Nat)
    (ready : List ReadyBinding) : Prop :=
  ∀ binding ∈ ready, ∀ rows ∈ binding.combinations,
    keyOf rows = boundKey binding.bindings distinctVariable

theorem mem_acceptedKeys {distinctVariable : Nat} (keys : KeysOf keyOf distinctVariable ready)
    (key : GraphId) :
    key ∈ acceptedKeys distinctVariable ready ↔ key ∈ (readyRows ready).map keyOf := by
  unfold acceptedKeys readyRows
  rw [List.mem_map, List.mem_map]
  constructor
  · rintro ⟨binding, inside, rfl⟩
    obtain ⟨isReady, some⟩ := List.mem_filter.1 inside
    obtain ⟨rows, isRows⟩ := List.exists_mem_of_ne_nil _ (of_decide_eq_true some)
    exact ⟨rows, List.mem_flatMap.2 ⟨binding, isReady, isRows⟩, keys binding isReady rows isRows⟩
  · rintro ⟨rows, inside, rfl⟩
    obtain ⟨binding, isReady, isRows⟩ := List.mem_flatMap.1 inside
    exact ⟨binding, List.mem_filter.2 ⟨isReady, decide_eq_true (List.ne_nil_of_mem isRows)⟩,
      (keys binding isReady rows isRows).symm⟩

theorem acceptedKeys_dedup {distinctVariable : Nat} (keys : KeysOf keyOf distinctVariable ready) :
    ((acceptedKeys distinctVariable ready).dedup).Perm ((readyRows ready).map keyOf).dedup := by
  rw [List.perm_ext_iff_of_nodup (List.nodup_dedup _) (List.nodup_dedup _)]
  intro key
  rw [List.mem_dedup, List.mem_dedup, mem_acceptedKeys keys]

theorem countDistinct_agrees {distinctVariable : Nat} (keys : KeysOf keyOf distinctVariable ready) :
    Agrees [[.int8 ((readyRows ready).map keyOf).dedup.length]]
      (countDistinctLoop distinctVariable ready [] 0 >>= fun count => pure [[.int8 count]]) := by
  have counted := @countDistinctLoop_eq distinctVariable ready [] List.nodup_nil (by decide)
  rw [List.length_nil, Nat.cast_zero] at counted
  rw [counted, ((recordAll_perm _).trans (acceptedKeys_dedup keys)).length_eq]
  refine agrees_checked ?_
  exact Int.natCast_nonneg _

theorem distinctKey_agrees {distinctVariable : Nat} (keys : KeysOf keyOf distinctVariable ready) :
    (distinctKeyLoop distinctVariable ready []).Perm
      (((readyRows ready).map keyOf).dedup.map fun key => [.key key]) := by
  have loop := distinctKeyLoop_eq distinctVariable ready []
  rw [List.map_nil, List.nil_append] at loop
  rw [loop]
  exact ((recordAll_perm _).trans (acceptedKeys_dedup keys)).map _

theorem existsScan_eq (ready : List ReadyBinding) :
    existsScan ready = if readyRows ready = [] then [] else [[.boolean true]] := by
  unfold existsScan readyRows
  by_cases empty : (ready.flatMap fun binding => binding.combinations) = []
  · rw [if_pos empty, if_neg]
    rw [List.flatMap_eq_nil_iff] at empty
    simpa using empty
  · rw [if_neg empty, if_pos]
    rw [List.flatMap_eq_nil_iff] at empty
    push Not at empty
    simpa using empty

end Consumed

section Groups

variable {groups : UniquenessGroups} {ready : List ReadyBinding} {distinctVariable : Nat}
  {keyOf : List GenericRow → GraphId}

def bindingKey (distinctVariable : Nat) (binding : ReadyBinding) : GraphId :=
  boundKey binding.bindings distinctVariable

/-- The groups have the keys in order, each with all of its bindings. -/
theorem groupRuns_spec
    (sorted : ready.Pairwise fun first second =>
      bindingKey distinctVariable first ≤ bindingKey distinctVariable second) :
    ((groupRuns distinctVariable ready).map Prod.fst).Pairwise (· < ·) ∧
      (∀ run ∈ groupRuns distinctVariable ready,
        run.2 = ready.filter (fun binding => bindingKey distinctVariable binding = run.1)) ∧
      ∀ key, key ∈ (groupRuns distinctVariable ready).map Prod.fst ↔
        key ∈ ready.map (bindingKey distinctVariable) := by
  induction length : ready.length using Nat.strongRecOn generalizing ready with
  | ind size inductionHypothesis =>
  cases ready with
  | nil => simp [groupRuns]
  | cons binding rest =>
      obtain ⟨first, later⟩ := List.pairwise_cons.1 sorted
      obtain ⟨take, drop⟩ := takeWhile_sorted later first
      have runs : groupRuns distinctVariable (binding :: rest) =
          (bindingKey distinctVariable binding, (binding :: rest).filter fun other =>
            bindingKey distinctVariable other = bindingKey distinctVariable binding) ::
            groupRuns distinctVariable (rest.filter fun other =>
              ¬bindingKey distinctVariable other = bindingKey distinctVariable binding) := by
        rw [groupRuns, List.filter_cons_of_pos (by simp), ← take, ← drop]
        rfl
      have fewer : (rest.filter fun other => ¬bindingKey distinctVariable other =
          bindingKey distinctVariable binding).length < size := by
        rw [← length]
        exact Nat.lt_succ_of_le (List.length_filter_le _ _)
      obtain ⟨increasing, complete, present⟩ := inductionHypothesis _ fewer
        (later.sublist List.filter_sublist) rfl
      have above : ∀ key ∈ (groupRuns distinctVariable (rest.filter fun other =>
          ¬bindingKey distinctVariable other = bindingKey distinctVariable binding)).map Prod.fst,
          bindingKey distinctVariable binding < key := by
        intro key inside
        obtain ⟨other, isOther, rfl⟩ := List.mem_map.1 ((present key).1 inside)
        obtain ⟨inRest, different⟩ := List.mem_filter.1 isOther
        exact lt_of_le_of_ne (first other inRest) fun same => of_decide_eq_true different same.symm
      rw [runs]
      refine ⟨List.pairwise_cons.2 ⟨above, increasing⟩, fun run inside => ?_, fun key => ?_⟩
      · rcases List.mem_cons.1 inside with rfl | inLater
        · rfl
        · have greater := above run.1 (List.mem_map_of_mem inLater)
          rw [complete run inLater, List.filter_filter, List.filter_cons_of_neg (by
            simpa using greater.ne)]
          refine List.filter_congr fun other _ => ?_
          by_cases same : bindingKey distinctVariable other = run.1
          · simp [same, greater.ne']
          · simp [same]
      · rw [List.map_cons, List.map_cons, List.mem_cons, List.mem_cons, present]
        refine or_congr_right' fun different => ?_
        rw [List.mem_map, List.mem_map]
        constructor
        · rintro ⟨other, isOther, rfl⟩
          exact ⟨other, (List.mem_filter.1 isOther).1, rfl⟩
        · rintro ⟨other, isOther, rfl⟩
          exact ⟨other, List.mem_filter.2 ⟨isOther, decide_eq_true different⟩, rfl⟩

/-- The rows of a group -/
theorem readyRows_filter (keys : KeysOf keyOf distinctVariable ready) (key : GraphId) :
    readyRows (ready.filter fun binding => bindingKey distinctVariable binding = key) =
      (readyRows ready).filter fun rows => keyOf rows = key := by
  unfold readyRows
  rw [List.filter_flatMap, flatMap_of_filter]
  refine List.flatMap_congr fun binding inside => ?_
  by_cases same : bindingKey distinctVariable binding = key
  · rw [if_pos (decide_eq_true same), List.filter_eq_self.2]
    exact fun rows isRows => decide_eq_true ((keys binding inside rows isRows).trans same)
  · rw [if_neg (by simpa using same), List.filter_eq_nil_iff.2]
    intro rows isRows
    simpa [keys binding inside rows isRows, bindingKey] using same

/-- The groups with a row are those of the keys of the rows. -/
theorem acceptedRuns_perm (keys : KeysOf keyOf distinctVariable ready)
    (sorted : ready.Pairwise fun first second =>
      bindingKey distinctVariable first ≤ bindingKey distinctVariable second) :
    (((groupRuns distinctVariable ready).filter fun run => readyRows run.2 ≠ []).map Prod.fst).Perm
      ((readyRows ready).map keyOf).dedup := by
  obtain ⟨increasing, complete, present⟩ := groupRuns_spec sorted
  have distinct : (((groupRuns distinctVariable ready).filter fun run =>
      readyRows run.2 ≠ []).map Prod.fst).Nodup :=
    (increasing.imp ne_of_lt).sublist (List.filter_sublist.map _)
  rw [List.perm_ext_iff_of_nodup distinct (List.nodup_dedup _)]
  intro key
  rw [List.mem_dedup, List.mem_map, List.mem_map]
  constructor
  · rintro ⟨run, inside, rfl⟩
    obtain ⟨isRun, some⟩ := List.mem_filter.1 inside
    obtain ⟨rows, isRows⟩ := List.exists_mem_of_ne_nil _ (of_decide_eq_true some)
    rw [complete run isRun, readyRows_filter keys] at isRows
    obtain ⟨isRow, same⟩ := List.mem_filter.1 isRows
    exact ⟨rows, isRow, of_decide_eq_true same⟩
  · rintro ⟨rows, isRows, rfl⟩
    obtain ⟨binding, isReady, isRow⟩ := List.mem_flatMap.1 isRows
    have isKey := keys binding isReady rows isRow
    obtain ⟨run, isRun, same⟩ := List.mem_map.1 ((present (bindingKey distinctVariable binding)).2
      (List.mem_map_of_mem isReady))
    refine ⟨run, List.mem_filter.2 ⟨isRun, decide_eq_true (List.ne_nil_of_mem
      (?_ : rows ∈ readyRows run.2))⟩, same.trans isKey.symm⟩
    rw [complete run isRun, readyRows_filter keys]
    exact List.mem_filter.2 ⟨isRows, decide_eq_true (isKey.trans same.symm)⟩

end Groups

section GroupLoops

variable {groups : UniquenessGroups} {valueOf : GenericRow → Option Int} {sumIndex : Nat}
  {aggregate : PropertyAggregate}

theorem readyRows_cons (binding : ReadyBinding) (rest : List ReadyBinding) :
    readyRows (binding :: rest) = binding.combinations ++ readyRows rest :=
  List.flatMap_cons

theorem groupHasBinding_fold {bindings : List ReadyBinding}
    (rights : ∀ binding ∈ bindings, binding.Right groups)
    (products : ∀ binding ∈ bindings, (sizeProduct binding.bags : Int) < 2 ^ 63) (has : Bool) :
    bindings.foldlM (fun has binding => groupHasBinding groups binding has) has =
      .ok (has || readyRows bindings ≠ []) := by
  induction bindings generalizing has with
  | nil => simp [readyRows, pure, Except.pure]
  | cons binding rest inductionHypothesis =>
      rw [List.foldlM_cons, groupHasBinding_eq (rights binding List.mem_cons_self)
        (products binding List.mem_cons_self), ok_then, inductionHypothesis
        (fun other isOther => rights other (List.mem_cons_of_mem binding isOther))
        (fun other isOther => products other (List.mem_cons_of_mem binding isOther)),
        readyRows_cons]
      by_cases none : binding.combinations = [] <;> simp [none]

theorem groupCount_fold {bindings : List ReadyBinding}
    (rights : ∀ binding ∈ bindings, binding.Right groups)
    (products : ∀ binding ∈ bindings, (sizeProduct binding.bags : Int) < 2 ^ 63)
    (fits : ((readyRows bindings).length : Int) < 2 ^ 63) :
    bindings.foldlM (fun count binding => groupCount groups binding count) 0 =
      .ok ((readyRows bindings).length : Int) := by
  have counted := @foldlM_checked _ (groupCount groups)
    (fun binding => (binding.combinations.length : Int)) bindings
    (fun _ _ => Int.natCast_nonneg _)
    (fun binding inside count low high =>
      groupCount_eq (rights binding inside) (products binding inside) low high)
    0 le_rfl (by decide)
  rw [counted, Int.zero_add, sum_combinations]
  exact checked_ok (Int.natCast_nonneg _) fits

/-- What a group counts -/
def groupAmount (distinctKey : Bool) (bindings : List ReadyBinding) : Nat :=
  if readyRows bindings = [] then 0 else if distinctKey then 1 else (readyRows bindings).length

/-- The groups one after the other, where the products of the first one have 64 bits -/
theorem groupCountLoop_cons (distinctKey : Bool) {key : GraphId} {bindings : List ReadyBinding}
    (rights : ∀ binding ∈ bindings, binding.Right groups)
    (products : ∀ binding ∈ bindings, (sizeProduct binding.bags : Int) < 2 ^ 63)
    (fits : (groupAmount distinctKey bindings : Int) < 2 ^ 63)
    (rest : List (GraphId × List ReadyBinding)) (total : Int) :
    groupCountLoop groups distinctKey ((key, bindings) :: rest) total =
      if (groupAmount distinctKey bindings : Int) ≤ 0 then
        groupCountLoop groups distinctKey rest total
      else do
        let rows ← groupCountLoop groups distinctKey rest
          (← addCountResult total (groupAmount distinctKey bindings))
        return [.key key, .int8 (groupAmount distinctKey bindings)] :: rows := by
  cases distinctKey with
  | true =>
      have one : (if (false || decide (readyRows bindings ≠ [])) = true then (1 : Int) else 0) =
          groupAmount true bindings := by
        by_cases none : readyRows bindings = [] <;> simp [none, groupAmount]
      rw [groupCountLoop, if_pos rfl, groupHasBinding_fold rights products, ok_then, one]
      rfl
  | false =>
      have amount : (readyRows bindings).length = groupAmount false bindings := by
        by_cases none : readyRows bindings = [] <;> simp [none, groupAmount]
      rw [← amount] at fits
      rw [groupCountLoop, if_neg Bool.false_ne_true, groupCount_fold rights products fits, ok_then,
        amount]

/-- A product that has no 64 bits is an error of its group. -/
theorem groupCountLoop_product (distinctKey : Bool) {key : GraphId} {bindings : List ReadyBinding}
    (rights : ∀ binding ∈ bindings, binding.Right groups)
    (large : ∃ binding ∈ bindings, ¬(sizeProduct binding.bags : Int) < 2 ^ 63)
    (rest : List (GraphId × List ReadyBinding)) (total : Int) :
    groupCountLoop groups distinctKey ((key, bindings) :: rest) total =
      .error .bigintOutOfRange := by
  obtain ⟨binding, inside, tooLarge⟩ := large
  have failed : countBindingProduct binding.bags 1 = .error .bigintOutOfRange := by
    rw [countBindingProduct_checked (rights binding inside).full, checked_error (not_lt.1 tooLarge)]
  rw [groupCountLoop]
  cases distinctKey with
  | true =>
      rw [if_pos rfl, foldlM_error ⟨binding, inside, fun has => by
        rw [groupHasBinding, failed, error_then]⟩, error_then]
  | false =>
      rw [if_neg Bool.false_ne_true, foldlM_error ⟨binding, inside, fun count => by
        rw [groupCount, failed, error_then]⟩, error_then]

/-- A count that has no 64 bits is an error of its group. -/
theorem groupCountLoop_amount (distinctKey : Bool) {key : GraphId} {bindings : List ReadyBinding}
    (rights : ∀ binding ∈ bindings, binding.Right groups)
    (products : ∀ binding ∈ bindings, (sizeProduct binding.bags : Int) < 2 ^ 63)
    (large : ¬(groupAmount distinctKey bindings : Int) < 2 ^ 63)
    (rest : List (GraphId × List ReadyBinding)) (total : Int) :
    groupCountLoop groups distinctKey ((key, bindings) :: rest) total =
      .error .bigintOutOfRange := by
  cases distinctKey with
  | true =>
      have small : groupAmount true bindings ≤ 1 := by
        unfold groupAmount
        rw [if_pos rfl]
        split_ifs <;> decide
      omega
  | false =>
      have amount : groupAmount false bindings = (readyRows bindings).length := by
        by_cases none : readyRows bindings = [] <;> simp [none, groupAmount]
      have counted := @foldlM_checked _ (groupCount groups)
        (fun binding => (binding.combinations.length : Int)) bindings
        (fun _ _ => Int.natCast_nonneg _)
        (fun binding inside count low high =>
          groupCount_eq (rights binding inside) (products binding inside) low high)
        0 le_rfl (by decide)
      rw [amount] at large
      rw [groupCountLoop, if_neg Bool.false_ne_true, counted, Int.zero_add, sum_combinations,
        checked_error (not_lt.1 large), error_then]

/-- The groups are counted without an error only where all products and the total have 64 bits. -/
theorem groupCountLoop_fits (distinctKey : Bool) {runs : List (GraphId × List ReadyBinding)}
    (rights : ∀ run ∈ runs, ∀ binding ∈ run.2, binding.Right groups) {total : Int}
    (low : 0 ≤ total) (high : total < 2 ^ 63) {cells : List (List Cell)}
    (counted : groupCountLoop groups distinctKey runs total = .ok cells) :
    (∀ run ∈ runs, ∀ binding ∈ run.2, (sizeProduct binding.bags : Int) < 2 ^ 63) ∧
      total + ((runs.map fun run => groupAmount distinctKey run.2).sum : Nat) < 2 ^ 63 := by
  induction runs generalizing total cells with
  | nil => exact ⟨nofun, by simpa using high⟩
  | cons run rest inductionHypothesis =>
      obtain ⟨key, bindings⟩ := run
      have right : ∀ binding ∈ bindings, binding.Right groups := rights _ List.mem_cons_self
      have later := @inductionHypothesis
        (fun other isOther => rights other (List.mem_cons_of_mem _ isOther))
      by_cases products : ∀ binding ∈ bindings, (sizeProduct binding.bags : Int) < 2 ^ 63
      · by_cases fits : (groupAmount distinctKey bindings : Int) < 2 ^ 63
        · rw [groupCountLoop_cons distinctKey right products fits] at counted
          rw [show ((key, bindings) :: rest).map (fun run => groupAmount distinctKey run.2) =
            groupAmount distinctKey bindings :: rest.map fun run => groupAmount distinctKey run.2
            from rfl, List.sum_cons]
          by_cases nothing : (groupAmount distinctKey bindings : Int) ≤ 0
          · rw [if_pos nothing] at counted
            obtain ⟨others, totals⟩ := later low high counted
            refine ⟨List.forall_mem_cons.2 ⟨products, others⟩, ?_⟩
            push_cast at totals ⊢
            omega
          · rw [if_neg nothing, addCountResult_eq low high (Int.natCast_nonneg _)] at counted
            by_cases more : total + groupAmount distinctKey bindings < 2 ^ 63
            · rw [checked_ok (by omega) more, ok_then] at counted
              cases isRest : groupCountLoop groups distinctKey rest
                (total + groupAmount distinctKey bindings) with
              | error error =>
                  rw [isRest, error_then] at counted
                  cases counted
              | ok cells' =>
                  obtain ⟨others, totals⟩ := later (by omega) more isRest
                  refine ⟨List.forall_mem_cons.2 ⟨products, others⟩, ?_⟩
                  rw [Nat.cast_add]
                  omega
            · rw [checked_error (by omega), error_then] at counted
              cases counted
        · rw [groupCountLoop_amount distinctKey right products fits] at counted
          cases counted
      · push Not at products
        obtain ⟨binding, inside, large⟩ := products
        rw [groupCountLoop_product distinctKey right ⟨binding, inside, not_lt.2 large⟩] at counted
        cases counted

/-- Each group with a row gives out its count. -/
theorem groupCountLoop_eq (distinctKey : Bool) {runs : List (GraphId × List ReadyBinding)}
    (rights : ∀ run ∈ runs, ∀ binding ∈ run.2, binding.Right groups)
    (products : ∀ run ∈ runs, ∀ binding ∈ run.2, (sizeProduct binding.bags : Int) < 2 ^ 63)
    {total : Int} (low : 0 ≤ total)
    (fits : total + ((runs.map fun run => groupAmount distinctKey run.2).sum : Nat) < 2 ^ 63) :
    groupCountLoop groups distinctKey runs total =
      .ok ((runs.filter fun run => readyRows run.2 ≠ []).map fun run =>
        [.key run.1, .int8 (if distinctKey then 1 else (readyRows run.2).length)]) := by
  induction runs generalizing total with
  | nil => rfl
  | cons run rest inductionHypothesis =>
      obtain ⟨key, bindings⟩ := run
      have right : ∀ binding ∈ bindings, binding.Right groups := rights _ List.mem_cons_self
      have product : ∀ binding ∈ bindings, (sizeProduct binding.bags : Int) < 2 ^ 63 :=
        products _ List.mem_cons_self
      have later := @inductionHypothesis
        (fun other isOther => rights other (List.mem_cons_of_mem _ isOther))
        (fun other isOther => products other (List.mem_cons_of_mem _ isOther))
      rw [show ((key, bindings) :: rest).map (fun run => groupAmount distinctKey run.2) =
        groupAmount distinctKey bindings :: rest.map fun run => groupAmount distinctKey run.2
        from rfl, List.sum_cons] at fits
      rw [Nat.cast_add] at fits
      rw [groupCountLoop_cons distinctKey right product (by omega)]
      by_cases none : readyRows bindings = []
      · have nothing : groupAmount distinctKey bindings = 0 := if_pos none
        rw [nothing] at fits
        rw [nothing, if_pos (by decide), List.filter_cons_of_neg (by simpa using none)]
        exact later low (by simpa using fits)
      · have some : 0 < (readyRows bindings).length := List.length_pos_iff.2 none
        have amount : (groupAmount distinctKey bindings : Int) =
            if distinctKey then 1 else ((readyRows bindings).length : Int) := by
          rw [groupAmount, if_neg none]
          split_ifs <;> rfl
        have positive : 0 < (groupAmount distinctKey bindings : Int) := by
          rw [groupAmount, if_neg none]
          split_ifs <;> omega
        rw [if_neg (by omega), addCountResult_eq low (by omega) positive.le,
          checked_ok (by omega) (by omega), ok_then, later (by omega) (by omega),
          List.filter_cons_of_pos (by simpa using none), ok_then, amount]
        rfl

/-- The values of the property in some rows -/
def rowValues (valueOf : GenericRow → Option Int) (sumIndex : Nat)
    (rows : List (List GenericRow)) : List (Option Int) :=
  rows.map (combinationValue valueOf sumIndex)

theorem rowValues_append (values : List (Option Int)) (first second : List ReadyBinding) :
    values ++ rowValues valueOf sumIndex (readyRows (first ++ second)) =
      (values ++ rowValues valueOf sumIndex (readyRows first)) ++
        rowValues valueOf sumIndex (readyRows second) := by
  rw [readyRows, List.flatMap_append, rowValues, List.map_append, ← List.append_assoc]
  rfl

theorem rowValues_cons (values : List (Option Int)) (binding : ReadyBinding)
    (rest : List ReadyBinding) :
    values ++ rowValues valueOf sumIndex (readyRows (binding :: rest)) =
      (values ++ binding.combinations.map (combinationValue valueOf sumIndex)) ++
        rowValues valueOf sumIndex (readyRows rest) := by
  rw [readyRows_cons, rowValues, List.map_append, ← List.append_assoc]
  rfl

/-- Bindings that are added without an error have their products and their rows counted. -/
theorem addSumRows_counts {bindings : List ReadyBinding} {all : List (Option Int)}
    {state next : PropertyState} (rights : ∀ binding ∈ bindings, binding.Right groups)
    (inRange : ∀ binding ∈ bindings, sumIndex < binding.bags.length) (counts : state.Counts all)
    (added : addSumRows groups valueOf sumIndex aggregate bindings state = .ok next) :
    next.Counts (all ++ rowValues valueOf sumIndex (readyRows bindings)) ∧
      ∀ binding ∈ bindings, binding.ProductFits groups := by
  induction bindings generalizing all state with
  | nil =>
      cases added
      exact ⟨by simpa [readyRows, rowValues] using counts, nofun⟩
  | cons binding rest inductionHypothesis =>
      rw [addSumRows, List.foldlM_cons] at added
      cases isFirst : addActiveBinding groups valueOf sumIndex aggregate binding state with
      | error error =>
          rw [isFirst, error_then] at added
          cases added
      | ok between =>
          rw [isFirst, ok_then] at added
          obtain ⟨counts', fits⟩ := addActiveBinding_counts (rights binding List.mem_cons_self)
            (inRange binding List.mem_cons_self) counts isFirst
          obtain ⟨counted, others⟩ := inductionHypothesis
            (fun other isOther => rights other (List.mem_cons_of_mem _ isOther))
            (fun other isOther => inRange other (List.mem_cons_of_mem _ isOther)) counts' added
          rw [rowValues_cons]
          exact ⟨counted, List.forall_mem_cons.2 ⟨fits, others⟩⟩

/-- Groups that are given out without an error have their products and their rows counted. -/
theorem groupPropertyLoop_counts {runs : List (GraphId × List ReadyBinding)}
    {all : List (Option Int)} {state : PropertyState}
    (rights : ∀ run ∈ runs, ∀ binding ∈ run.2, binding.Right groups)
    (inRange : ∀ run ∈ runs, ∀ binding ∈ run.2, sumIndex < binding.bags.length)
    (counts : state.Counts all) {cells : List (List Cell)}
    (added : groupPropertyLoop groups valueOf sumIndex aggregate runs state = .ok cells) :
    RowsFit (all ++ rowValues valueOf sumIndex (readyRows (runs.flatMap Prod.snd))) ∧
      ∀ run ∈ runs, ∀ binding ∈ run.2, binding.ProductFits groups := by
  induction runs generalizing all state cells with
  | nil => exact ⟨by simpa [readyRows, rowValues] using counts.fit, nofun⟩
  | cons run rest inductionHypothesis =>
      obtain ⟨key, bindings⟩ := run
      rw [groupPropertyLoop] at added
      cases isFirst : addSumRows groups valueOf sumIndex aggregate bindings state.reset with
      | error error =>
          rw [isFirst, error_then] at added
          cases added
      | ok between =>
          rw [isFirst, ok_then] at added
          obtain ⟨counts', fits⟩ := addSumRows_counts (rights _ List.mem_cons_self)
            (inRange _ List.mem_cons_self) counts.reset isFirst
          cases isRest : groupPropertyLoop groups valueOf sumIndex aggregate rest between with
          | error error =>
              rw [isRest, error_then] at added
              cases added
          | ok cells' =>
              obtain ⟨fit, others⟩ := inductionHypothesis
                (fun other isOther => rights other (List.mem_cons_of_mem _ isOther))
                (fun other isOther => inRange other (List.mem_cons_of_mem _ isOther)) counts' isRest
              rw [List.flatMap_cons, rowValues_append]
              exact ⟨fit, List.forall_mem_cons.2 ⟨fits, others⟩⟩

theorem addSumRows_spec {bindings : List ReadyBinding} {all group : List (Option Int)}
    {state : PropertyState} (rights : ∀ binding ∈ bindings, binding.Right groups)
    (inRange : ∀ binding ∈ bindings, sumIndex < binding.bags.length)
    (products : ∀ binding ∈ bindings, binding.ProductFits groups)
    (summary : state.Summarizes aggregate all group)
    (smaller : (known group).length ≤ (known all).length)
    (bound : RowsFit (all ++ rowValues valueOf sumIndex (readyRows bindings)))
    (small : aggregate = .sum → (known group).sum < 2 ^ 63)
    (nonneg : SumNonneg aggregate (group ++ rowValues valueOf sumIndex (readyRows bindings))) :
    Added aggregate (all ++ rowValues valueOf sumIndex (readyRows bindings))
      (group ++ rowValues valueOf sumIndex (readyRows bindings))
      (addSumRows groups valueOf sumIndex aggregate bindings state) := by
  induction bindings generalizing all group state with
  | nil =>
      exact .inl ⟨state, rfl, by simpa [readyRows, rowValues] using summary,
        by simpa [readyRows, rowValues] using small⟩
  | cons binding rest inductionHypothesis =>
      rw [rowValues_cons] at bound nonneg
      rw [rowValues_cons, rowValues_cons, addSumRows, List.foldlM_cons]
      have first := addActiveBinding_spec (rights binding List.mem_cons_self)
        (inRange binding List.mem_cons_self) (products binding List.mem_cons_self) summary smaller
        bound.left small fun isSum value inside => nonneg isSum value (by
          rw [known_append]
          exact List.mem_append_left _ inside)
      rcases first with ⟨next, added, summary', small'⟩ | ⟨isSum, failed, large⟩
      · rw [added, ok_then]
        refine inductionHypothesis
          (fun other isOther => rights other (List.mem_cons_of_mem _ isOther))
          (fun other isOther => inRange other (List.mem_cons_of_mem _ isOther))
          (fun other isOther => products other (List.mem_cons_of_mem _ isOther)) summary' ?_ bound
          small' nonneg
        rw [known_append, known_append, List.length_append, List.length_append]
        exact Nat.add_le_add_right smaller _
      · rw [failed, error_then]
        refine .inr ⟨isSum, rfl, large.trans ?_⟩
        rw [known_append (group ++ binding.combinations.map (combinationValue valueOf sumIndex)),
          List.sum_append]
        exact le_add_of_nonneg_right (List.sum_nonneg fun value inside => nonneg isSum value (by
          rw [known_append]
          exact List.mem_append_right _ inside))

/-- Each group gives out its aggregate, also one that has no row. -/
theorem groupPropertyLoop_spec {runs : List (GraphId × List ReadyBinding)}
    {all group : List (Option Int)} {state : PropertyState}
    (rights : ∀ run ∈ runs, ∀ binding ∈ run.2, binding.Right groups)
    (inRange : ∀ run ∈ runs, ∀ binding ∈ run.2, sumIndex < binding.bags.length)
    (products : ∀ run ∈ runs, ∀ binding ∈ run.2, binding.ProductFits groups)
    (summary : state.Summarizes aggregate all group)
    (bound : RowsFit (all ++ rowValues valueOf sumIndex (readyRows (runs.flatMap Prod.snd))))
    (nonneg : ∀ run ∈ runs, SumNonneg aggregate (rowValues valueOf sumIndex (readyRows run.2))) :
    (groupPropertyLoop groups valueOf sumIndex aggregate runs state =
      .ok (runs.map fun run => [.key run.1,
        aggregateCell aggregate (known (rowValues valueOf sumIndex (readyRows run.2)))]) ∧
      ∀ run ∈ runs, aggregate = .sum →
        (known (rowValues valueOf sumIndex (readyRows run.2))).sum < 2 ^ 63) ∨
      (aggregate = .sum ∧ groupPropertyLoop groups valueOf sumIndex aggregate runs state =
        .error .bigintOutOfRange ∧ ∃ run ∈ runs,
          2 ^ 63 ≤ (known (rowValues valueOf sumIndex (readyRows run.2))).sum) := by
  induction runs generalizing all group state with
  | nil => exact .inl ⟨rfl, nofun⟩
  | cons run rest inductionHypothesis =>
      obtain ⟨key, bindings⟩ := run
      rw [List.flatMap_cons, rowValues_append] at bound
      have added := @addSumRows_spec groups valueOf sumIndex aggregate bindings all [] state.reset
        (rights _ List.mem_cons_self) (inRange _ List.mem_cons_self)
        (products _ List.mem_cons_self) summary.reset (Nat.zero_le _) bound.left
        (fun _ => by decide) (nonneg _ List.mem_cons_self)
      rw [List.nil_append] at added
      rw [groupPropertyLoop]
      rcases added with ⟨next, isOk, summary', small⟩ | ⟨isSum, failed, large⟩
      · rw [isOk, ok_then, propertyCell_eq summary']
        have later := inductionHypothesis
          (fun other isOther => rights other (List.mem_cons_of_mem _ isOther))
          (fun other isOther => inRange other (List.mem_cons_of_mem _ isOther))
          (fun other isOther => products other (List.mem_cons_of_mem _ isOther)) summary' bound
          (fun other isOther => nonneg other (List.mem_cons_of_mem _ isOther))
        rcases later with ⟨isOk', smaller⟩ | ⟨isSum, failed, other, inside, large⟩
        · rw [isOk', ok_then]
          exact .inl ⟨rfl, List.forall_mem_cons.2 ⟨small, smaller⟩⟩
        · rw [failed, error_then]
          exact .inr ⟨isSum, rfl, other, List.mem_cons_of_mem _ inside, large⟩
      · rw [failed, error_then]
        exact .inr ⟨isSum, rfl, _, List.mem_cons_self, large⟩

end GroupLoops

section Consume

variable {groups : UniquenessGroups} {ready : List ReadyBinding} {consumer : ConsumerDesc}
  {keyOf : List GenericRow → GraphId}

/-- The bindings with their rows in the order of the keys -/
structure Consumable (groups : UniquenessGroups) (consumer : ConsumerDesc)
    (keyOf : List GenericRow → GraphId) (ready : List ReadyBinding) : Prop where
  right : ∀ binding ∈ ready, binding.Right groups
  keys : KeysOf keyOf consumer.distinctVariable ready
  sorted : consumer.distinctVariable = 0 → ready.Pairwise fun first second =>
    bindingKey consumer.distinctVariable first ≤ bindingKey consumer.distinctVariable second

theorem sum_runs (size : ReadyBinding → Nat) (runs : List (GraphId × List ReadyBinding)) :
    (runs.map fun run => (run.2.map size).sum).sum = ((runs.flatMap Prod.snd).map size).sum := by
  induction runs with
  | nil => rfl
  | cons run rest inductionHypothesis => simp [inductionHypothesis]

theorem flatMap_groupRuns (distinctVariable : Nat) (ready : List ReadyBinding) :
    (groupRuns distinctVariable ready).flatMap Prod.snd = ready := by
  induction length : ready.length using Nat.strongRecOn generalizing ready with
  | ind size inductionHypothesis =>
  cases ready with
  | nil => simp [groupRuns]
  | cons binding rest =>
      rw [groupRuns, List.flatMap_cons, inductionHypothesis _ (by
        rw [← length]
        exact Nat.lt_succ_of_le (List.dropWhile_sublist _).length_le) _ rfl, List.cons_append,
        List.takeWhile_append_dropWhile]

theorem mem_of_run {distinctVariable : Nat} {run : GraphId × List ReadyBinding}
    (isRun : run ∈ groupRuns distinctVariable ready) {binding : ReadyBinding}
    (inside : binding ∈ run.2) : binding ∈ ready := by
  rw [← flatMap_groupRuns distinctVariable ready]
  exact List.mem_flatMap.2 ⟨run, isRun, inside⟩

theorem readyRows_runs (distinctVariable : Nat) (ready : List ReadyBinding) :
    ((groupRuns distinctVariable ready).map fun run => (readyRows run.2).length).sum =
      (readyRows ready).length := by
  have sums := sum_runs (fun binding => binding.combinations.length)
    (groupRuns distinctVariable ready)
  rw [flatMap_groupRuns] at sums
  unfold readyRows
  simp only [List.length_flatMap]
  exact sums

/-- The rows of a group are those with its key. -/
theorem readyRows_run (consumable : Consumable groups consumer keyOf ready)
    (grouped : consumer.distinctVariable = 0) {run : GraphId × List ReadyBinding}
    (isRun : run ∈ groupRuns consumer.distinctVariable ready) :
    readyRows run.2 = (readyRows ready).filter fun rows => keyOf rows = run.1 := by
  rw [(groupRuns_spec (consumable.sorted grouped)).2.1 run isRun, readyRows_filter consumable.keys]

/-- What each group with a row gives out is what each key of the rows stands for. -/
theorem acceptedRuns_map_perm (consumable : Consumable groups consumer keyOf ready)
    (grouped : consumer.distinctVariable = 0) {rowOf : GraphId × List ReadyBinding → List Cell}
    {rowOfKey : GraphId → List Cell}
    (same : ∀ run ∈ groupRuns consumer.distinctVariable ready, rowOf run = rowOfKey run.1) :
    (((groupRuns consumer.distinctVariable ready).filter fun run =>
      readyRows run.2 ≠ []).map rowOf).Perm
        (((readyRows ready).map keyOf).dedup.map rowOfKey) := by
  have keys := (acceptedRuns_perm consumable.keys (consumable.sorted grouped)).map rowOfKey
  rw [List.map_map] at keys
  refine List.Perm.trans (.of_eq (List.map_congr_left fun run inside => ?_)) keys
  exact same run (List.mem_filter.1 inside).1

/-- What all groups count, the rows or the keys of the rows -/
def countedRows (distinctKey : Bool) (keyOf : List GenericRow → GraphId)
    (rows : List (List GenericRow)) : Nat :=
  if distinctKey then (rows.map keyOf).dedup.length else rows.length

theorem sum_groupAmount (consumable : Consumable groups consumer keyOf ready)
    (grouped : consumer.distinctVariable = 0) (distinctKey : Bool) :
    ((groupRuns consumer.distinctVariable ready).map fun run =>
      groupAmount distinctKey run.2).sum = countedRows distinctKey keyOf (readyRows ready) := by
  cases distinctKey with
  | true =>
      have lengths := (acceptedRuns_perm consumable.keys (consumable.sorted grouped)).length_eq
      rw [List.length_map] at lengths
      rw [countedRows, if_pos rfl, ← lengths]
      induction groupRuns consumer.distinctVariable ready with
      | nil => rfl
      | cons run rest inductionHypothesis =>
          rw [List.map_cons, List.sum_cons, inductionHypothesis]
          by_cases none : readyRows run.2 = []
          · rw [List.filter_cons_of_neg (by simpa using none), groupAmount, if_pos none,
              Nat.zero_add]
          · rw [List.filter_cons_of_pos (by simpa using none), groupAmount, if_neg none, if_pos rfl,
              List.length_cons, Nat.add_comm]
  | false =>
      rw [countedRows, if_neg Bool.false_ne_true, ← readyRows_runs consumer.distinctVariable ready]
      refine congrArg List.sum (List.map_congr_left fun run _ => ?_)
      by_cases none : readyRows run.2 = [] <;> simp [none, groupAmount]

/-- A group count agrees with the rows where its counters have 64 bits, or where an error is due. -/
theorem groupCount_agrees_iff (consumable : Consumable groups consumer keyOf ready)
    (grouped : consumer.distinctVariable = 0) (distinctKey : Bool) :
    Agrees (((readyRows ready).map keyOf).dedup.map fun key => [.key key, .int8 (if distinctKey
        then 1 else ((readyRows ready).filter fun rows => keyOf rows = key).length)])
      (groupCountLoop groups distinctKey (groupRuns consumer.distinctVariable ready) 0) ↔
    ((∀ binding ∈ ready, (sizeProduct binding.bags : Int) < 2 ^ 63) ∧
      (countedRows distinctKey keyOf (readyRows ready) : Int) < 2 ^ 63) ∨
      OutOfRange (((readyRows ready).map keyOf).dedup.map fun key => [.key key, .int8 (if distinctKey
        then 1 else ((readyRows ready).filter fun rows => keyOf rows = key).length)]) := by
  have rights := fun run isRun binding inside =>
    consumable.right binding (@mem_of_run ready consumer.distinctVariable run isRun binding inside)
  by_cases fits : (∀ binding ∈ ready, (sizeProduct binding.bags : Int) < 2 ^ 63) ∧
      (countedRows distinctKey keyOf (readyRows ready) : Int) < 2 ^ 63
  · have loop := @groupCountLoop_eq groups distinctKey (groupRuns consumer.distinctVariable ready)
      rights (fun run isRun binding inside => fits.1 binding (mem_of_run isRun inside)) 0 le_rfl (by
        rw [sum_groupAmount consumable grouped, Int.zero_add]
        exact fits.2)
    rw [loop]
    refine iff_of_true (acceptedRuns_map_perm consumable grouped fun run isRun => ?_) (.inl fits)
    rw [readyRows_run consumable grouped isRun]
  · cases counted : groupCountLoop groups distinctKey
      (groupRuns consumer.distinctVariable ready) 0 with
    | error error => exact ⟨.inr, fun either => either.resolve_left fits⟩
    | ok cells =>
        obtain ⟨products, total⟩ := groupCountLoop_fits distinctKey rights le_rfl (by decide) counted
        rw [sum_groupAmount consumable grouped, Int.zero_add] at total
        refine absurd ⟨fun binding inside => ?_, total⟩ fits
        rw [← flatMap_groupRuns consumer.distinctVariable ready] at inside
        obtain ⟨run, isRun, inRun⟩ := List.mem_flatMap.1 inside
        exact products run isRun binding inRun

/-- What a group with a property stands for -/
def groupRow (consumer : ConsumerDesc) (aggregate : PropertyAggregate)
    (rows : List (List GenericRow)) (key : GraphId) : List Cell :=
  [.key key, aggregateCell aggregate (known (rowValues consumer.valueOf consumer.sumIndex rows))]

theorem aggregateCell_large {values : List Int} (large : 2 ^ 63 ≤ values.sum) :
    aggregateCell .sum values = .int8 values.sum ∧ ¬FitsInt64 values.sum := by
  have some : values ≠ [] := by
    intro empty
    rw [empty] at large
    exact absurd large (by decide)
  rw [aggregateCell, if_neg some]
  exact ⟨rfl, fun fits => absurd fits.2 (not_lt.2 large)⟩

/-- An aggregate of values that fit is out of range only as a sum. -/
theorem aggregateCell_fits {aggregate : PropertyAggregate} {values : List Int}
    (fit : ∀ value ∈ values, FitsInt64 value)
    (sumFits : aggregate = .sum → FitsInt64 values.sum) {number : Int}
    (isCell : Cell.int8 number = aggregateCell aggregate values) : FitsInt64 number := by
  unfold aggregateCell at isCell
  split_ifs at isCell with empty
  cases aggregate with
  | sum =>
      rw [Cell.int8.inj isCell]
      exact sumFits rfl
  | avg => cases isCell
  | min =>
      cases isMin : values.min? with
      | none =>
          rw [isMin] at isCell
          cases isCell
      | some least =>
          rw [isMin] at isCell
          rw [Cell.int8.inj isCell]
          exact fit least (List.min?_eq_some_iff.1 isMin).1
  | max =>
      cases isMax : values.max? with
      | none =>
          rw [isMax] at isCell
          cases isCell
      | some most =>
          rw [isMax] at isCell
          rw [Cell.int8.inj isCell]
          exact fit most (List.max?_eq_some_iff.1 isMax).1

/-- The negative value that a sum must not take -/
theorem exists_negative {aggregate : PropertyAggregate} {values : List (Option Int)}
    (negative : ¬SumNonneg aggregate values) :
    aggregate = .sum ∧ ∃ value, some value ∈ values ∧ value < 0 := by
  unfold SumNonneg at negative
  push Not at negative
  obtain ⟨isSum, value, inside, below⟩ := negative
  refine ⟨isSum, value, ?_, below⟩
  obtain ⟨entry, isEntry, same⟩ := List.mem_filterMap.1 inside
  exact same ▸ isEntry

theorem addSumRows_negative {bindings : List ReadyBinding} {valueOf : GenericRow → Option Int}
    {sumIndex : Nat} (rights : ∀ binding ∈ bindings, binding.Right groups)
    (inRange : ∀ binding ∈ bindings, sumIndex < binding.bags.length) {value : Int}
    (inside : some value ∈ rowValues valueOf sumIndex (readyRows bindings)) (negative : value < 0)
    (state : PropertyState) :
    addSumRows groups valueOf sumIndex .sum bindings state = .error .bigintOutOfRange := by
  obtain ⟨rows, isRow, isValue⟩ := List.mem_map.1 inside
  obtain ⟨binding, isBinding, isCombination⟩ := List.mem_flatMap.1 isRow
  exact foldlM_error ⟨binding, isBinding, addActiveBinding_negative (rights binding isBinding)
    (inRange binding isBinding) isCombination isValue negative⟩ state

theorem groupPropertyLoop_negative {runs : List (GraphId × List ReadyBinding)}
    {valueOf : GenericRow → Option Int} {sumIndex : Nat}
    (rights : ∀ run ∈ runs, ∀ binding ∈ run.2, binding.Right groups)
    (inRange : ∀ run ∈ runs, ∀ binding ∈ run.2, sumIndex < binding.bags.length)
    (negative : ∃ run ∈ runs, ∃ value, some value ∈ rowValues valueOf sumIndex (readyRows run.2) ∧
      value < 0) (state : PropertyState) :
    groupPropertyLoop groups valueOf sumIndex .sum runs state = .error .bigintOutOfRange := by
  induction runs generalizing state with
  | nil =>
      obtain ⟨run, inside, -⟩ := negative
      cases inside
  | cons first rest inductionHypothesis =>
      obtain ⟨key, bindings⟩ := first
      rw [groupPropertyLoop]
      obtain ⟨run, inside, value, isValue, below⟩ := negative
      rcases List.mem_cons.1 inside with rfl | inRest
      · rw [addSumRows_negative (rights _ List.mem_cons_self) (inRange _ List.mem_cons_self) isValue
          below, error_then]
      · cases addSumRows groups valueOf sumIndex .sum bindings state.reset with
        | error error => rfl
        | ok next =>
            rw [ok_then, inductionHypothesis
              (fun other isOther => rights other (List.mem_cons_of_mem _ isOther))
              (fun other isOther => inRange other (List.mem_cons_of_mem _ isOther))
              ⟨run, inRest, value, isValue, below⟩, error_then]

theorem propertyScan_agrees {aggregate : PropertyAggregate} {valueOf : GenericRow → Option Int}
    {sumIndex : Nat}
    (rights : ∀ binding ∈ ready, binding.Right groups)
    (inRange : ∀ binding ∈ ready, sumIndex < binding.bags.length)
    (fits : (∀ binding ∈ ready, binding.ProductFits groups) ∧
      RowsFit (rowValues valueOf sumIndex (readyRows ready)))
    (nonneg : SumNonneg aggregate (rowValues valueOf sumIndex (readyRows ready))) :
    Agrees [[aggregateCell aggregate (known (rowValues valueOf sumIndex (readyRows ready)))]]
      (propertyScan groups valueOf sumIndex aggregate ready) := by
  have added := @addSumRows_spec groups valueOf sumIndex aggregate ready [] [] .initial rights
    inRange fits.1 (.start aggregate) le_rfl fits.2 (fun _ => by decide) nonneg
  rw [List.nil_append] at added
  unfold propertyScan
  rcases added with ⟨state, isOk, summary, -⟩ | ⟨isSum, failed, large⟩
  · rw [isOk, ok_then, propertyCell_eq summary]
    exact List.Perm.refl [[aggregateCell aggregate _]]
  · rw [failed, error_then]
    subst isSum
    obtain ⟨isCell, tooLarge⟩ := aggregateCell_large large
    refine ⟨_, List.mem_singleton_self _, _, ?_, tooLarge⟩
    rw [isCell]
    exact List.mem_singleton_self _

/-- A scan of a property agrees with the rows where its counters have 64 bits and no sum is negative,
or where an error is due. -/
theorem propertyScan_agrees_iff {aggregate : PropertyAggregate} {valueOf : GenericRow → Option Int}
    {sumIndex : Nat} (rights : ∀ binding ∈ ready, binding.Right groups)
    (inRange : ∀ binding ∈ ready, sumIndex < binding.bags.length) :
    Agrees [[aggregateCell aggregate (known (rowValues valueOf sumIndex (readyRows ready)))]]
      (propertyScan groups valueOf sumIndex aggregate ready) ↔
    (((∀ binding ∈ ready, binding.ProductFits groups) ∧
      RowsFit (rowValues valueOf sumIndex (readyRows ready))) ∧
        SumNonneg aggregate (rowValues valueOf sumIndex (readyRows ready))) ∨
      OutOfRange
        [[aggregateCell aggregate (known (rowValues valueOf sumIndex (readyRows ready)))]] := by
  by_cases fits : (∀ binding ∈ ready, binding.ProductFits groups) ∧
      RowsFit (rowValues valueOf sumIndex (readyRows ready))
  · by_cases nonneg : SumNonneg aggregate (rowValues valueOf sumIndex (readyRows ready))
    · exact ⟨fun _ => .inl ⟨fits, nonneg⟩, fun _ => propertyScan_agrees rights inRange fits nonneg⟩
    · obtain ⟨rfl, value, inside, below⟩ := exists_negative nonneg
      rw [propertyScan, addSumRows_negative rights inRange inside below, error_then]
      exact ⟨.inr, fun either => either.resolve_left fun both => nonneg both.2⟩
  · cases added : addSumRows groups valueOf sumIndex aggregate ready .initial with
    | error error =>
        rw [propertyScan, added, error_then]
        exact ⟨.inr, fun either => either.resolve_left fun both => fits both.1⟩
    | ok state =>
        obtain ⟨counts, products⟩ := addSumRows_counts rights inRange .start added
        exact absurd ⟨products, counts.fit⟩ fits

/-- Each prepared binding has a row of its group where each run has a row. -/
theorem exists_row_iff_runs (consumable : Consumable groups consumer keyOf ready)
    (grouped : consumer.distinctVariable = 0) :
    (∀ binding ∈ ready, ∃ rows ∈ readyRows ready,
        keyOf rows = bindingKey consumer.distinctVariable binding) ↔
      ∀ run ∈ groupRuns consumer.distinctVariable ready, readyRows run.2 ≠ [] := by
  obtain ⟨-, -, present⟩ := groupRuns_spec (consumable.sorted grouped)
  constructor
  · intro every run isRun
    obtain ⟨binding, isReady, same⟩ :=
      List.mem_map.1 ((present run.1).1 (List.mem_map_of_mem isRun))
    obtain ⟨rows, isRows, isKey⟩ := every binding isReady
    rw [readyRows_run consumable grouped isRun]
    exact List.ne_nil_of_mem (List.mem_filter.2 ⟨isRows, decide_eq_true (isKey.trans same)⟩)
  · intro every binding isReady
    obtain ⟨run, isRun, same⟩ := List.mem_map.1 ((present _).2 (List.mem_map_of_mem isReady))
    obtain ⟨rows, isRow⟩ := List.exists_mem_of_ne_nil _ (every run isRun)
    rw [readyRows_run consumable grouped isRun] at isRow
    obtain ⟨isRows, isKey⟩ := List.mem_filter.1 isRow
    exact ⟨rows, isRows, (of_decide_eq_true isKey).trans same⟩

/-- Where its counters have 64 bits, a scan of groups agrees with the rows where no sum is negative
and each group has a row, or where an error is due. -/
theorem groupProperty_agrees_of_fits {aggregate : PropertyAggregate}
    (consumable : Consumable groups consumer keyOf ready)
    (grouped : consumer.distinctVariable = 0)
    (products : ∀ binding ∈ ready, binding.ProductFits groups)
    (counters : RowsFit (rowValues consumer.valueOf consumer.sumIndex (readyRows ready)))
    (inRange : ∀ binding ∈ ready, consumer.sumIndex < binding.bags.length)
    (fit : ∀ row value, consumer.valueOf row = some value → FitsInt64 value) :
    Agrees (((readyRows ready).map keyOf).dedup.map fun key => groupRow consumer aggregate
        ((readyRows ready).filter fun rows => keyOf rows = key) key)
      (groupPropertyLoop groups consumer.valueOf consumer.sumIndex aggregate
        (groupRuns consumer.distinctVariable ready) .initial) ↔
    (SumNonneg aggregate (rowValues consumer.valueOf consumer.sumIndex (readyRows ready)) ∧
      ∀ binding ∈ ready, ∃ rows ∈ readyRows ready,
        keyOf rows = bindingKey consumer.distinctVariable binding) ∨
      OutOfRange (((readyRows ready).map keyOf).dedup.map fun key => groupRow consumer aggregate
        ((readyRows ready).filter fun rows => keyOf rows = key) key) := by
  obtain ⟨-, complete, present⟩ := groupRuns_spec (consumable.sorted grouped)
  have rights := fun run isRun binding inside =>
    consumable.right binding (@mem_of_run ready consumer.distinctVariable run isRun binding inside)
  have ranges := fun run isRun binding inside =>
    inRange binding (@mem_of_run ready consumer.distinctVariable run isRun binding inside)
  have accepted := @acceptedRuns_map_perm groups ready consumer keyOf consumable grouped
    (fun run => groupRow consumer aggregate (readyRows run.2) run.1)
    (fun key => groupRow consumer aggregate
      ((readyRows ready).filter fun rows => keyOf rows = key) key) fun run isRun => by
        rw [readyRows_run consumable grouped isRun]
  by_cases nonneg : SumNonneg aggregate
    (rowValues consumer.valueOf consumer.sumIndex (readyRows ready))
  · have nonnegRun : ∀ run ∈ groupRuns consumer.distinctVariable ready, SumNonneg aggregate
        (rowValues consumer.valueOf consumer.sumIndex (readyRows run.2)) :=
      fun run isRun isSum value inside => nonneg isSum value (by
        rw [readyRows_run consumable grouped isRun] at inside
        exact ((List.filter_sublist.map _).filterMap _).subset inside)
    have loop := @groupPropertyLoop_spec groups consumer.valueOf consumer.sumIndex aggregate
      (groupRuns consumer.distinctVariable ready) [] [] .initial rights ranges
      (fun run isRun binding inside => products binding (mem_of_run isRun inside))
      (.start aggregate) (by
        rw [flatMap_groupRuns]
        exact counters) nonnegRun
    rcases loop with ⟨isOk, small⟩ | ⟨isSum, failed, run, isRun, large⟩
    · rw [isOk]
      have everyRun := exists_row_iff_runs consumable grouped
      constructor
      · intro perm
        refine .inl ⟨nonneg, everyRun.2 fun run isRun empty => ?_⟩
        -- A group without a row is one row too many.
        have lengths := (List.Perm.trans perm accepted.symm).length_eq
        rw [List.length_map, List.length_map] at lengths
        have fewer : ((groupRuns consumer.distinctVariable ready).filter fun run =>
            readyRows run.2 ≠ []).length < (groupRuns consumer.distinctVariable ready).length :=
          List.length_filter_lt_length_iff_exists.2 ⟨run, isRun, by simpa using empty⟩
        exact absurd lengths fewer.ne'
      · rintro (⟨-, every⟩ | ⟨row, isRow, number, isNumber, large⟩)
        · have all : (groupRuns consumer.distinctVariable ready).filter (fun run =>
              readyRows run.2 ≠ []) = groupRuns consumer.distinctVariable ready :=
            List.filter_eq_self.2 fun run isRun => decide_eq_true (everyRun.1 every run isRun)
          rw [all] at accepted
          exact accepted
        · obtain ⟨run, isRun, rfl⟩ := List.mem_map.1 (accepted.mem_iff.2 isRow)
          have inRuns := (List.mem_filter.1 isRun).1
          refine absurd ?_ large
          rcases List.mem_cons.1 isNumber with isKey | isCell
          · cases isKey
          · refine aggregateCell_fits (fun value inside => ?_) (fun isSum => ?_)
              (List.mem_singleton.1 isCell)
            · obtain ⟨entry, isEntry, rfl⟩ := List.mem_filterMap.1 inside
              obtain ⟨rows, -, isValue⟩ := List.mem_map.1 isEntry
              obtain ⟨row, -, isProperty⟩ := Option.bind_eq_some_iff.1 isValue
              exact fit row value isProperty
            · have positive := List.sum_nonneg (nonnegRun run inRuns isSum)
              exact ⟨by omega, small run inRuns isSum⟩
    · rw [failed]
      subst isSum
      obtain ⟨isCell, tooLarge⟩ := aggregateCell_large large
      have outOfRange : OutOfRange (((readyRows ready).map keyOf).dedup.map fun key =>
          groupRow consumer .sum ((readyRows ready).filter fun rows => keyOf rows = key) key) := by
        have some : readyRows run.2 ≠ [] := by
          intro empty
          rw [empty] at large
          change 2 ^ 63 ≤ ([] : List Int).sum at large
          exact absurd large (by decide)
        refine ⟨_, accepted.mem_iff.1 (List.mem_map_of_mem
          (List.mem_filter.2 ⟨isRun, decide_eq_true some⟩)), _, List.mem_cons_of_mem _ ?_, tooLarge⟩
        rw [isCell]
        exact List.mem_singleton_self _
      exact ⟨fun _ => .inr outOfRange, fun _ => outOfRange⟩
  · obtain ⟨isSum, value, inside, below⟩ := exists_negative nonneg
    subst isSum
    obtain ⟨rows, isRow, isValue⟩ := List.mem_map.1 inside
    obtain ⟨binding, isBinding, isCombination⟩ := List.mem_flatMap.1 isRow
    obtain ⟨run, isRun, same⟩ := List.mem_map.1 ((present _).2 (List.mem_map_of_mem isBinding))
    have inRun : binding ∈ run.2 := by
      rw [complete run isRun]
      exact List.mem_filter.2 ⟨isBinding, decide_eq_true same.symm⟩
    rw [groupPropertyLoop_negative rights ranges ⟨run, isRun, value, List.mem_map.2
      ⟨rows, List.mem_flatMap.2 ⟨binding, inRun, isCombination⟩, isValue⟩, below⟩]
    exact ⟨.inr, fun either => either.resolve_left fun both => nonneg both.1⟩

theorem groupProperty_agrees_iff {aggregate : PropertyAggregate}
    (consumable : Consumable groups consumer keyOf ready)
    (grouped : consumer.distinctVariable = 0)
    (inRange : ∀ binding ∈ ready, consumer.sumIndex < binding.bags.length)
    (fit : ∀ row value, consumer.valueOf row = some value → FitsInt64 value) :
    Agrees (((readyRows ready).map keyOf).dedup.map fun key => groupRow consumer aggregate
        ((readyRows ready).filter fun rows => keyOf rows = key) key)
      (groupPropertyLoop groups consumer.valueOf consumer.sumIndex aggregate
        (groupRuns consumer.distinctVariable ready) .initial) ↔
    (((∀ binding ∈ ready, binding.ProductFits groups) ∧
      RowsFit (rowValues consumer.valueOf consumer.sumIndex (readyRows ready))) ∧
        SumNonneg aggregate (rowValues consumer.valueOf consumer.sumIndex (readyRows ready)) ∧
          ∀ binding ∈ ready, ∃ rows ∈ readyRows ready,
            keyOf rows = bindingKey consumer.distinctVariable binding) ∨
      OutOfRange (((readyRows ready).map keyOf).dedup.map fun key => groupRow consumer aggregate
        ((readyRows ready).filter fun rows => keyOf rows = key) key) := by
  by_cases fits : (∀ binding ∈ ready, binding.ProductFits groups) ∧
      RowsFit (rowValues consumer.valueOf consumer.sumIndex (readyRows ready))
  · rw [groupProperty_agrees_of_fits consumable grouped fits.1 fits.2 inRange fit]
    exact or_congr_left ⟨fun both => ⟨fits, both⟩, And.right⟩
  · cases added : groupPropertyLoop groups consumer.valueOf consumer.sumIndex aggregate
      (groupRuns consumer.distinctVariable ready) .initial with
    | error error => exact ⟨.inr, fun either => either.resolve_left fun both => fits both.1⟩
    | ok cells =>
        obtain ⟨counters, products⟩ := groupPropertyLoop_counts
          (fun run isRun binding inside => consumable.right binding (mem_of_run isRun inside))
          (fun run isRun binding inside => inRange binding (mem_of_run isRun inside)) .start added
        rw [flatMap_groupRuns] at counters
        refine absurd ⟨fun binding inside => ?_, counters⟩ fits
        rw [← flatMap_groupRuns consumer.distinctVariable ready] at inside
        obtain ⟨run, isRun, inRun⟩ := List.mem_flatMap.1 inside
        exact products run isRun binding inRun

end Consume

section Exact

variable {groups : UniquenessGroups} {ready : List ReadyBinding} {consumer : ConsumerDesc}
  {keyOf : List GenericRow → GraphId}

/-- A group scan has the first variable as its key. -/
def ConsumerKind.isGroup : ConsumerKind → Bool
  | .groupCount | .groupCountDistinctKey | .groupProperty _ => true
  | _ => false

/-- The counters of a consumer have 64 bits: the products of the sizes of bags, where it multiplies
them, and the numbers of the rows that it counts. -/
def CountersFit (consumer : ConsumerDesc) (keyOf : List GenericRow → GraphId)
    (rows : List (List GenericRow)) (mayReject : Bool) (products : Prop) : Prop :=
  match consumer.kind with
  | .groupCount => products ∧ (countedRows false keyOf rows : Int) < 2 ^ 63
  | .groupCountDistinctKey => products ∧ (countedRows true keyOf rows : Int) < 2 ^ 63
  | .property _ | .groupProperty _ =>
      (mayReject = false → products) ∧
        RowsFit (rowValues consumer.valueOf consumer.sumIndex rows)
  | .count | .countDistinctKey | .distinctKey | .existsRow => True

/-- A sum takes no negative value, and each group of a property has a row. -/
def TakesRows (consumer : ConsumerDesc) (keyOf : List GenericRow → GraphId)
    (rows : List (List GenericRow)) (keys : GraphId → Prop) : Prop :=
  match consumer.kind with
  | .property aggregate => SumNonneg aggregate (rowValues consumer.valueOf consumer.sumIndex rows)
  | .groupProperty aggregate =>
      SumNonneg aggregate (rowValues consumer.valueOf consumer.sumIndex rows) ∧
        ∀ key, keys key → ∃ choice ∈ rows, keyOf choice = key
  | _ => True

/-- What a consumer asks of the rows, of the keys of the bindings and of their products, unless an
error is due -/
def ExactOn (consumer : ConsumerDesc) (keyOf : List GenericRow → GraphId)
    (rows : List (List GenericRow)) (keys : GraphId → Prop) (mayReject : Bool) (products : Prop) :
    Prop :=
  (CountersFit consumer keyOf rows mayReject products ∧ TakesRows consumer keyOf rows keys) ∨
    OutOfRange (aggregateRows consumer keyOf rows)

theorem productsFit_iff {providerCount : Nat}
    (lengths : ∀ binding ∈ ready, binding.bags.length = providerCount) :
    (∀ binding ∈ ready, binding.ProductFits groups) ↔
      (uniquenessMayReject groups providerCount = false →
        ∀ binding ∈ ready, (sizeProduct binding.bags : Int) < 2 ^ 63) := by
  unfold ReadyBinding.ProductFits
  constructor
  · intro fits never binding inside
    exact fits binding inside (by rwa [lengths binding inside])
  · intro fits binding inside never
    exact fits (by rwa [lengths binding inside] at never) binding inside

theorem consume_agrees_iff {providerCount : Nat}
    (consumable : Consumable groups consumer keyOf ready)
    (grouped : consumer.kind.isGroup = true → consumer.distinctVariable = 0)
    (lengths : ∀ binding ∈ ready, binding.bags.length = providerCount)
    (inRange : consumer.sumIndex < providerCount)
    (fit : ∀ row value, consumer.valueOf row = some value → FitsInt64 value) :
    Agrees (aggregateRows consumer keyOf (readyRows ready)) (consume groups consumer ready) ↔
      ExactOn consumer keyOf (readyRows ready)
        (fun key => ∃ binding ∈ ready, bindingKey consumer.distinctVariable binding = key)
        (uniquenessMayReject groups providerCount)
        (∀ binding ∈ ready, (sizeProduct binding.bags : Int) < 2 ^ 63) := by
  have ranges : ∀ binding ∈ ready, consumer.sumIndex < binding.bags.length :=
    fun binding inside => inRange.trans_eq (lengths binding inside).symm
  have always {exact_ : List (List Cell)} {result : Except ConsumerError (List (List Cell))}
      (agrees : Agrees exact_ result) : Agrees exact_ result ↔ (True ∧ True) ∨ OutOfRange exact_ :=
    iff_of_true agrees (.inl ⟨trivial, trivial⟩)
  unfold consume ExactOn CountersFit TakesRows aggregateRows
  cases isKind : consumer.kind with
  | count => exact always (countScan_agrees consumable.right)
  | countDistinctKey => exact always (countDistinct_agrees consumable.keys)
  | distinctKey => exact always (distinctKey_agrees consumable.keys)
  | groupCount =>
      rw [isKind] at grouped
      refine (groupCount_agrees_iff consumable (grouped rfl) false).trans ?_
      exact or_congr_left (and_iff_left trivial).symm
  | groupCountDistinctKey =>
      rw [isKind] at grouped
      refine (groupCount_agrees_iff consumable (grouped rfl) true).trans ?_
      exact or_congr_left (and_iff_left trivial).symm
  | existsRow => exact always (.of_eq (existsScan_eq ready))
  | property aggregate =>
      refine (propertyScan_agrees_iff consumable.right ranges).trans ?_
      exact or_congr_left (and_congr_left fun _ => and_congr_left fun _ => productsFit_iff lengths)
  | groupProperty aggregate =>
      rw [isKind] at grouped
      refine (groupProperty_agrees_iff consumable (grouped rfl) ranges fit).trans ?_
      refine or_congr_left (and_congr (and_congr_left fun _ => productsFit_iff lengths)
        (and_congr_right fun _ => ?_))
      exact ⟨fun every key ⟨binding, inside, same⟩ => same ▸ every binding inside,
        fun every binding inside => every _ ⟨binding, inside, rfl⟩⟩

end Exact

section Keyed

variable {variableCount : Nat} {providers now : List GenericProvider} {groups : UniquenessGroups}

theorem lawful_keyedSearch (searchable : Searchable now) :
    Lawful (keyedSearch variableCount now) (bindingKeys now)
      (fun bindings => (allBags bindings now).map (bindings, ·)) (Caches.Right now) where
  openLevel := (@lawful_bindingSearch variableCount now searchable).openLevel
  visit caches right bindings := by
    obtain ⟨bags, right'⟩ :=
      (@lawful_bindingSearch variableCount now searchable).visit caches right bindings
    refine ⟨?_, right'⟩
    change ((bindingSearch variableCount now).visit caches bindings).1.map (bindings, ·) = _
    rw [bags]

/-- A full binding with all that a consumer reads, where no bag is empty -/
def readyOf (groups : UniquenessGroups) (now : List GenericProvider) (bindings : List GraphId) :
    Option ReadyBinding :=
  (allBags bindings now).map fun bags =>
    ⟨bindings, bags, bagCombinations groups bags, bagNumbers groups bags⟩

/-- The bindings in the order of the search -/
def readyList (variableCount : Nat) (groups : UniquenessGroups) (now : List GenericProvider) :
    List ReadyBinding :=
  (bindingVectors variableCount now).filterMap (readyOf groups now)

theorem readyBindings_spec (searchable : Searchable now) (positive : 0 < variableCount)
    (some_ : 0 < now.length) :
    ∃ enough, ∀ fuel, enough ≤ fuel →
      readyBindings variableCount groups now fuel = some (readyList variableCount groups now) := by
  obtain ⟨below, rfl⟩ : ∃ below, variableCount = below + 1 := ⟨variableCount - 1, by omega⟩
  obtain ⟨enoughBindings, bindingsEnd⟩ := @run_start _ _ _ (keyedSearch (below + 1) now) _ _ _
    (lawful_keyedSearch searchable) below rfl _ (Caches.right_empty now)
  obtain ⟨enoughCombinations, combined⟩ := @mapM_enough _ _ (readyBinding groups)
    (fun prepared => ⟨prepared.1, prepared.2, bagCombinations groups prepared.2,
      bagNumbers groups prepared.2⟩)
    (leaves (bindingKeys now) (fun bindings => (allBags bindings now).map (bindings, ·))
      (below + 1) []) fun prepared isPrepared => by
      rw [leaves_filterMap, List.mem_filterMap] at isPrepared
      obtain ⟨bindings, _, isAll⟩ := isPrepared
      obtain ⟨bags, isBags, rfl⟩ := Option.map_eq_some_iff.1 isAll
      have length : bags.length = now.length := by
        unfold allBags at isBags
        split_ifs at isBags
        rw [← Option.some.inj isBags, List.length_map]
      obtain ⟨levels, isLength⟩ := Nat.exists_eq_succ_of_ne_zero (length ▸ some_.ne')
      obtain ⟨enoughRows, rowsEnd⟩ := @run_start _ _ _ (combinationSearch groups bags) _ _ _
        (lawful_combinationSearch bags) levels isLength.symm () trivial
      obtain ⟨enoughNumbers, numbersEnd⟩ := @run_start _ _ _ (flatSearch groups bags) _ _ _
        lawful_flatSearch levels isLength.symm () trivial
      refine ⟨max enoughRows enoughNumbers, fun fuel bound => ?_⟩
      unfold readyBinding bagCombinations bagNumbers
      rw [rowsEnd fuel (le_of_max_le_left bound), numbersEnd fuel (le_of_max_le_right bound),
        isLength]
      rfl
  refine ⟨max enoughBindings enoughCombinations, fun fuel bound => ?_⟩
  unfold readyBindings
  dsimp only
  rw [bindingsEnd fuel (le_of_max_le_left bound), Option.bind_eq_bind, Option.bind_some,
    combined fuel (le_of_max_le_right bound), leaves_filterMap, List.map_filterMap]
  unfold readyList readyOf bindingVectors
  simp only [Option.map_map]
  rfl

theorem mem_readyList {binding : ReadyBinding}
    (inside : binding ∈ readyList variableCount groups now) :
    binding.bindings ∈ bindingVectors variableCount now ∧ binding.Right groups ∧
      binding.bags = now.map (bagRows binding.bindings) := by
  obtain ⟨bindings, isVector, isReady⟩ := List.mem_filterMap.1 inside
  obtain ⟨bags, isBags, rfl⟩ := Option.map_eq_some_iff.1 isReady
  unfold allBags at isBags
  split_ifs at isBags with empty
  obtain rfl := Option.some.inj isBags
  refine ⟨isVector, ⟨fun bag isBag isEmpty => empty ?_, rfl, rfl⟩, rfl⟩
  obtain ⟨provider, isProvider, rfl⟩ := List.mem_map.1 isBag
  exact ⟨provider, isProvider, isEmpty⟩

/-- The choices of rows for the bindings, whatever groups they are unique in -/
theorem flatMap_readyList (wellFormed : WellFormed variableCount now) (searchable : Searchable now)
    (covered : Covered variableCount now) (others : UniquenessGroups) :
    ((readyList variableCount groups now).flatMap fun binding =>
      bagCombinations others binding.bags).Perm (fullJoin others now) := by
  have same : ((readyList variableCount groups now).flatMap fun binding =>
      bagCombinations others binding.bags) =
        (bindingVectors variableCount now).flatMap fun bindings =>
          (allBags bindings now).toList.flatMap (bagCombinations others) := by
    unfold readyList
    rw [List.filterMap_eq_flatMap_toList, List.flatMap_assoc]
    refine List.flatMap_congr fun bindings _ => ?_
    unfold readyOf
    cases allBags bindings now <;> simp
  rw [same]
  exact (List.Perm.flatMap_left _ fun bindings _ => allBags_combinations_perm bindings).trans
    (flatMap_bags_perm wellFormed searchable covered others)

theorem readyRows_perm (wellFormed : WellFormed variableCount now) (searchable : Searchable now)
    (covered : Covered variableCount now) :
    (readyRows (readyList variableCount groups now)).Perm (fullJoin groups now) := by
  refine List.Perm.trans (.of_eq (List.flatMap_congr fun binding inside => ?_))
    (flatMap_readyList wellFormed searchable covered groups)
  exact (mem_readyList inside).2.1.combinations

theorem candidates_perm (wellFormed : WellFormed variableCount now) (searchable : Searchable now)
    (covered : Covered variableCount now) :
    ((readyList variableCount groups now).flatMap fun binding => binding.bags.sections).Perm
      (fullJoin (fun _ => []) now) := by
  refine (List.Perm.flatMap_left _ fun binding _ => ?_).trans
    (flatMap_readyList wellFormed searchable covered fun _ => [])
  exact (bagCombinations_safe (by simp [activeBindingMayReject, UniquenessGroups.overlap])).symm

theorem nodup_readyList (searchable : Searchable now) :
    ((readyList variableCount groups now).map fun binding => binding.bindings).Nodup := by
  unfold readyList
  rw [List.Nodup, List.pairwise_map]
  refine List.Pairwise.filterMap _ (fun one other different first isFirst second isSecond => ?_)
    (nodup_bindingVectors searchable)
  obtain ⟨_, _, rfl⟩ := Option.map_eq_some_iff.1 isFirst
  obtain ⟨_, _, rfl⟩ := Option.map_eq_some_iff.1 isSecond
  exact different

/-- The choices with the keys of a binding are those of its bags. -/
theorem length_candidates {ready : List ReadyBinding}
    (distinct : (ready.map fun binding => binding.bindings).Nodup)
    {keysOf : List GenericRow → List GraphId}
    (keys : ∀ binding ∈ ready, ∀ choice ∈ binding.bags.sections, keysOf choice = binding.bindings)
    {binding : ReadyBinding} (inside : binding ∈ ready) :
    ((ready.flatMap fun binding => binding.bags.sections).filter fun choice =>
      keysOf choice = binding.bindings).length = sizeProduct binding.bags := by
  induction ready with
  | nil => cases inside
  | cons first rest inductionHypothesis =>
      rw [List.map_cons, List.nodup_cons] at distinct
      obtain ⟨fresh, later⟩ := distinct
      have others : ∀ other ∈ rest, first.bindings ≠ other.bindings := fun other isOther same =>
        fresh (same ▸ List.mem_map_of_mem isOther)
      have keysFirst := keys first List.mem_cons_self
      have keysRest := fun other isOther => keys other (List.mem_cons_of_mem first isOther)
      rw [List.flatMap_cons, List.filter_append, List.length_append]
      rcases List.mem_cons.1 inside with rfl | inRest
      · rw [List.filter_eq_self.2 fun choice isChoice =>
          decide_eq_true (keysFirst choice isChoice), List.filter_eq_nil_iff.2, length_sections]
        · rfl
        · intro choice isChoice
          obtain ⟨other, isOther, isSection⟩ := List.mem_flatMap.1 isChoice
          rw [keysRest other isOther choice isSection, decide_eq_true_eq]
          exact (others other isOther).symm
      · rw [List.filter_eq_nil_iff.2, inductionHypothesis later keysRest inRest]
        · exact Nat.zero_add _
        · intro choice isChoice
          rw [keysFirst choice isChoice, decide_eq_true_eq]
          exact others binding inRest

end Keyed

section Keys

variable {variableCount : Nat} {providers now : List GenericProvider} {groups : UniquenessGroups}

theorem rowKeyForVariable_eq {provider : GenericProvider} {row : GenericRow} {var : Nat}
    {bindings : Nat → GraphId} (binds : provider.Binds bindings row) :
    provider.rowKeyForVariable row var =
      if provider.hasVariable var = true then some (bindings var) else none := by
  split_ifs with has
  · obtain ⟨key, isKey, same⟩ := rowKeyForVariable_binds has row
    rw [isKey, same bindings binds]
  · unfold GenericProvider.rowKeyForVariable
    unfold GenericProvider.hasVariable at has
    simp only [Bool.or_eq_true, decide_eq_true_eq, Bool.and_eq_true, not_or] at has
    rw [if_neg has.1, if_neg has.2]

/-- Bindings of all rows give a variable the key of the combination. -/
theorem combinationKey_binds {bindings : Nat → GraphId} {rows : List GenericRow} {var : Nat}
    (binds : List.Forall₂ (fun provider row => provider.Binds bindings row) providers rows)
    (has : ∃ provider ∈ providers, provider.hasVariable var = true) :
    combinationKey providers var rows = bindings var := by
  unfold combinationKey
  have found : ((providers.zip rows).findSome? fun entry =>
      entry.1.rowKeyForVariable entry.2 var) = some (bindings var) := by
    induction binds with
    | nil =>
        obtain ⟨provider, inside, -⟩ := has
        cases inside
    | @cons provider row providers rows first _ inductionHypothesis =>
        rw [List.zip_cons_cons, List.findSome?_cons, rowKeyForVariable_eq first]
        by_cases hasVar : provider.hasVariable var = true
        · rw [if_pos hasVar]
        · rw [if_neg hasVar]
          obtain ⟨other, inside, otherHas⟩ := has
          rcases List.mem_cons.1 inside with rfl | inRest
          · exact absurd otherHas hasVar
          · exact inductionHypothesis ⟨other, inRest, otherHas⟩
  rw [found]
  rfl

/-- Rows of bags are bound by the bindings of the bags. -/
theorem binds_of_sections {bindings : List GraphId} {rows : List GenericRow}
    (isSection : rows ∈ (now.map (bagRows bindings)).sections) :
    List.Forall₂ (fun provider row => provider.Binds (boundKey bindings) row) now rows := by
  rw [List.mem_sections, List.forall₂_map_right_iff] at isSection
  refine (isSection.imp fun row provider isRow => ?_).flip
  have inBag := (bagRows_perm bindings provider).mem_iff.1 isRow
  exact bindsRow_iff.1 (List.mem_filter.1 inBag).2

/-- Reduced providers bind as those they were made of. -/
theorem binds_of_reduced (reduces : Reduces (providers.map (·.materialize)) now)
    {bindings : Nat → GraphId} {rows : List GenericRow}
    (binds : List.Forall₂ (fun provider row => provider.Binds bindings row) now rows) :
    List.Forall₂ (fun provider row => provider.Binds bindings row) providers rows := by
  have length : now.length = providers.length := by rw [reduces.1, List.length_map]
  refine List.forall₂_iff_get.2 ⟨length ▸ binds.length_eq, fun index inRange inRows => ?_⟩
  obtain ⟨rows', found⟩ := getElem?_materialize (List.getElem?_eq_getElem inRange)
  obtain ⟨keep, isReduced, -⟩ := reduces.2 index _ found
  obtain ⟨inNow, isNow⟩ := List.getElem?_eq_some_iff.1 isReduced
  have bound := (List.forall₂_iff_get.1 binds).2 index inNow inRows
  rw [List.get_eq_getElem, isNow] at bound
  exact bound

theorem mem_bagCombinations {bags : List (List GenericRow)} {rows : List GenericRow}
    (inside : rows ∈ bagCombinations groups bags) : rows ∈ bags.sections := by
  classical
  exact (List.mem_filter.1 ((leaves_combinations_perm groups bags).mem_iff.1 inside)).1

/-- All choices of rows of a binding have its key. -/
theorem combinationKey_section (reduces : Reduces (providers.map (·.materialize)) now) {var : Nat}
    (has : ∃ provider ∈ providers, provider.hasVariable var = true) {binding : ReadyBinding}
    (inside : binding ∈ readyList variableCount groups now) {rows : List GenericRow}
    (isSection : rows ∈ binding.bags.sections) :
    combinationKey providers var rows = bindingKey var binding := by
  rw [(mem_readyList inside).2.2] at isSection
  exact combinationKey_binds (binds_of_reduced reduces (binds_of_sections isSection)) has

/-- The keys that a combination gives to all variables -/
def combinationKeys (variableCount : Nat) (providers : List GenericProvider)
    (rows : List GenericRow) : List GraphId :=
  (List.range variableCount).map fun var => combinationKey providers var rows

/-- All choices of rows of a binding have its keys. -/
theorem combinationKeys_section (reduces : Reduces (providers.map (·.materialize)) now)
    (has : ∀ var < variableCount, ∃ provider ∈ providers, provider.hasVariable var = true)
    {binding : ReadyBinding} (inside : binding ∈ readyList variableCount groups now)
    {rows : List GenericRow} (isSection : rows ∈ binding.bags.sections) :
    combinationKeys variableCount providers rows = binding.bindings := by
  have length := length_bindingVectors (mem_readyList inside).1
  refine List.ext_getElem (by simp [combinationKeys, length]) fun var _ inBindings => ?_
  have key := combinationKey_section reduces (has var (length ▸ inBindings)) inside isSection
  simpa [combinationKeys, bindingKey, boundKey, inBindings] using key

theorem combinationKey_of_keys {var : Nat} (inRange : var < variableCount)
    {rows : List GenericRow} {binding : ReadyBinding}
    (keys : combinationKeys variableCount providers rows = binding.bindings) :
    combinationKey providers var rows = bindingKey var binding := by
  rw [bindingKey, ← keys]
  simp [combinationKeys, boundKey, inRange]

/-- The first variable takes its keys in order. -/
theorem readyList_sorted (searchable : Searchable now) (positive : 0 < variableCount) :
    (readyList variableCount groups now).Pairwise fun first second =>
      bindingKey 0 first ≤ bindingKey 0 second := by
  obtain ⟨below, rfl⟩ : ∃ below, variableCount = below + 1 := ⟨variableCount - 1, by omega⟩
  have vectors : (bindingVectors (below + 1) now).Pairwise fun first second =>
      boundKey first 0 ≤ boundKey second 0 := by
    have starts {key : GraphId} {vector : List GraphId}
        (inside : vector ∈ leaves (bindingKeys now) some below ([] ++ [key])) :
        boundKey vector 0 = key := by
      obtain ⟨rest, rfl, -⟩ := mem_leaves.1 inside
      rfl
    have keys : (bindingKeys now []).Pairwise (· < ·) :=
      @levelKeys_sorted [] ([] : List GraphId).length now searchable.sorted none
        fun _ impossible => nomatch impossible
    unfold bindingVectors
    rw [leaves, List.pairwise_flatMap]
    refine ⟨fun key _ => ?_, keys.imp fun {first second} before => ?_⟩
    · exact List.pairwise_of_forall_mem_list fun one isOne other isOther =>
        ((starts isOne).trans (starts isOther).symm).le
    · intro one isOne other isOther
      rw [starts isOne, starts isOther]
      exact before.le
  unfold readyList
  refine List.Pairwise.filterMap _ (fun one other before first isFirst second isSecond => ?_)
    vectors
  obtain ⟨_, _, rfl⟩ := Option.map_eq_some_iff.1 isFirst
  obtain ⟨_, _, rfl⟩ := Option.map_eq_some_iff.1 isSecond
  exact before

end Keys

section Consumers

variable {variableCount : Nat} {providers : List GenericProvider} {groups : UniquenessGroups}
  {desc : ReductionDesc} {consumer : ConsumerDesc}

/-- What the planner makes of a consumer: a variable, of a group scan the first one, and a provider
whose rows have integers of 64 bits. -/
structure ConsumerDesc.Valid (variableCount : Nat) (providers : List GenericProvider)
    (consumer : ConsumerDesc) : Prop where
  variable_ : consumer.distinctVariable < variableCount
  grouped : consumer.kind.isGroup = true → consumer.distinctVariable = 0
  provider : consumer.sumIndex < providers.length
  value : ∀ row value, consumer.valueOf row = some value → FitsInt64 value

/-- The choices of rows for the keys of each choice number less than 2 to the 63. -/
def ProductsFit (variableCount : Nat) (providers : List GenericProvider) : Prop :=
  ∀ choice ∈ fullJoin (fun _ => []) providers,
    (((fullJoin (fun _ => []) providers).filter fun other =>
      combinationKeys variableCount providers other =
        combinationKeys variableCount providers choice).length : Int) < 2 ^ 63

/-- Where the join gives out anything, the counters of the consumer have 64 bits, a sum takes no
negative value and each key with a choice of rows has one that is unique, or an error is due. -/
def ConsumerDesc.Exact (variableCount : Nat) (groups : UniquenessGroups)
    (providers : List GenericProvider) (consumer : ConsumerDesc) : Prop :=
  Covered variableCount providers →
    ExactOn consumer (combinationKey providers consumer.distinctVariable)
      (fullJoin groups providers)
      (fun key => ∃ choice ∈ fullJoin (fun _ => []) providers,
        combinationKey providers consumer.distinctVariable choice = key)
      (uniquenessMayReject groups providers.length) (ProductsFit variableCount providers)

theorem countedRows_perm (distinctKey : Bool) {keyOf : List GenericRow → GraphId}
    {first second : List (List GenericRow)} (perm : first.Perm second) :
    countedRows distinctKey keyOf first = countedRows distinctKey keyOf second := by
  unfold countedRows
  rw [perm.length_eq, ((perm.map keyOf).dedup).length_eq]

theorem CountersFit.perm {keyOf : List GenericRow → GraphId} {first second : List (List GenericRow)}
    {mayReject : Bool} {products products' : Prop}
    (fit : CountersFit consumer keyOf first mayReject products) (perm : first.Perm second)
    (more : products → products') : CountersFit consumer keyOf second mayReject products' := by
  unfold CountersFit at fit ⊢
  cases isKind : consumer.kind with
  | count | countDistinctKey | distinctKey | existsRow => trivial
  | groupCount | groupCountDistinctKey =>
      rw [isKind] at fit
      exact ⟨more fit.1, countedRows_perm _ perm ▸ fit.2⟩
  | property aggregate | groupProperty aggregate =>
      rw [isKind] at fit
      exact ⟨fun never => more (fit.1 never), fit.2.perm (perm.map _)⟩

theorem TakesRows.perm {keyOf : List GenericRow → GraphId} {first second : List (List GenericRow)}
    {keys keys' : GraphId → Prop} (takes : TakesRows consumer keyOf first keys)
    (perm : first.Perm second) (same : ∀ key, keys' key → keys key) :
    TakesRows consumer keyOf second keys' := by
  unfold TakesRows at takes ⊢
  cases isKind : consumer.kind with
  | count | countDistinctKey | distinctKey | groupCount | groupCountDistinctKey | existsRow =>
      trivial
  | property aggregate =>
      rw [isKind] at takes
      exact takes.perm (perm.map _)
  | groupProperty aggregate =>
      rw [isKind] at takes
      refine ⟨takes.1.perm (perm.map _), fun key isKey => ?_⟩
      obtain ⟨choice, inside, isSame⟩ := takes.2 key (same key isKey)
      exact ⟨choice, perm.mem_iff.1 inside, isSame⟩

theorem ExactOn.perm {keyOf : List GenericRow → GraphId} {first second : List (List GenericRow)}
    {keys keys' : GraphId → Prop} {mayReject : Bool} {products products' : Prop}
    (exact_ : ExactOn consumer keyOf first keys mayReject products) (perm : first.Perm second)
    (same : ∀ key, keys' key → keys key) (more : products → products') :
    ExactOn consumer keyOf second keys' mayReject products' :=
  exact_.imp (fun both => ⟨both.1.perm perm more, both.2.perm perm same⟩)
    fun outOfRange => outOfRange.perm (aggregateRows_perm perm)

/-- What the two runs of a join have in common: the rows that one gives out are those of the
bindings that a consumer reads. -/
theorem aggregateGenericJoin_ready (described : Described variableCount providers)
    (valid : desc.Valid providers) (validConsumer : consumer.Valid variableCount providers) :
    ∃ rows ready enough, (∀ fuel, enough ≤ fuel →
      accessGenericJoin variableCount desc groups providers fuel = .ok (some rows) ∧
      aggregateGenericJoin variableCount desc groups providers consumer fuel =
        .ok (some (consume groups consumer ready))) ∧
      Consumable groups consumer (combinationKey providers consumer.distinctVariable) ready ∧
      (∀ binding ∈ ready, binding.bags.length = providers.length) ∧
      (readyRows ready).Perm rows ∧
      (Covered variableCount providers → rows.Perm (fullJoin groups providers) ∧
        (ready.flatMap fun binding => binding.bags.sections).Perm
          (fullJoin (fun _ => []) providers) ∧
        (ready.map fun binding => binding.bindings).Nodup ∧
        ∀ binding ∈ ready, ∀ choice ∈ binding.bags.sections,
          combinationKeys variableCount providers choice = binding.bindings) ∧
      (¬Covered variableCount providers → ready = []) := by
  obtain ⟨state, ran, reduces, whenExhausted, goesOn⟩ :=
    materializeGenericProviders_spec described valid
  have some_ : 0 < providers.length := Nat.zero_lt_of_lt validConsumer.provider
  unfold accessGenericJoin aggregateGenericJoin
  simp only [ran, ok_bind]
  cases exhausted : state.exhausted with
  | true =>
      have empty (covered : Covered variableCount providers) (others : UniquenessGroups) :
          fullJoin others providers = [] := by
        have samePerm := fullJoin_materialize others providers
        rw [whenExhausted exhausted covered others] at samePerm
        exact List.nil_perm.1 samePerm
      exact ⟨[], [], 0, fun _ _ => ⟨rfl, rfl⟩, ⟨nofun, nofun, fun _ => .nil⟩, nofun, .nil,
        fun covered => ⟨.of_eq (empty covered groups).symm,
          .of_eq (empty covered fun _ => []).symm, .nil, nofun⟩, fun _ => rfl⟩
  | false =>
      have covered := goesOn exhausted
      have wellFormed := reduces.wellFormed described.wellFormed
      have searchable := described.searchable reduces
      have coveredNow := reduces.covered_iff.2 (covered_materialize.2 covered)
      have positive := Nat.lt_of_lt_of_le Nat.two_pos described.two
      have length : state.providers.length = providers.length := by
        rw [reduces.1, List.length_map]
      have fromNow (others : UniquenessGroups) :
          (fullJoin others state.providers).Perm (fullJoin others providers) := by
        rw [fullJoin_reduced reduces]
        exact fullJoin_materialize others providers
      have has : ∀ var < variableCount, ∃ provider ∈ providers,
          provider.hasVariable var = true := fun var inRange => by
        obtain ⟨provider, inside, -, hasVar⟩ := covered var inRange
        exact ⟨provider, inside, hasVar⟩
      obtain ⟨emitted, enoughRows, rowsEnd, rowsPerm⟩ :=
        search_spec wellFormed searchable coveredNow positive groups
      obtain ⟨enoughBindings, bindingsEnd⟩ :=
        @readyBindings_spec _ _ groups searchable positive (length ▸ some_)
      have rows := (@readyRows_perm _ _ groups wellFormed searchable coveredNow)
      have candidates := (@candidates_perm _ _ groups wellFormed searchable coveredNow).trans
        (fromNow fun _ => [])
      refine ⟨emitted, readyList variableCount groups state.providers,
        max enoughRows enoughBindings, fun fuel bound => ⟨?_, ?_⟩, ?_, fun binding inside => ?_,
        rows.trans rowsPerm.symm, fun _ => ⟨rowsPerm.trans (fromNow groups), candidates,
          nodup_readyList searchable, fun binding inside choice isChoice =>
            combinationKeys_section reduces has inside isChoice⟩,
        fun uncovered => absurd covered uncovered⟩
      · exact (if_neg Bool.false_ne_true).trans
          (congrArg Except.ok (rowsEnd fuel (le_of_max_le_left bound)))
      · rw [if_neg Bool.false_ne_true, bindingsEnd fuel (le_of_max_le_right bound)]
        rfl
      · exact ⟨fun binding inside => (mem_readyList inside).2.1, fun binding inside rows isRow =>
          combinationKey_section reduces (has _ validConsumer.variable_) inside (mem_bagCombinations
            ((mem_readyList inside).2.1.combinations ▸ isRow)),
          fun isFirst => isFirst ▸ readyList_sorted searchable positive⟩
      · rw [(mem_readyList inside).2.2, List.length_map, length]

section Choices

variable {ready : List ReadyBinding}
  (candidates : (ready.flatMap fun binding => binding.bags.sections).Perm
    (fullJoin (fun _ => []) providers))
  (keys : ∀ binding ∈ ready, ∀ choice ∈ binding.bags.sections,
    combinationKeys variableCount providers choice = binding.bindings)

include candidates keys

theorem exists_choice {binding : ReadyBinding} (inside : binding ∈ ready)
    (full : ∀ bag ∈ binding.bags, bag ≠ []) :
    ∃ choice ∈ fullJoin (fun _ => []) providers,
      combinationKeys variableCount providers choice = binding.bindings := by
  obtain ⟨choice, isChoice⟩ : ∃ choice, choice ∈ binding.bags.sections := by
    refine List.exists_mem_of_length_pos ?_
    rw [length_sections]
    exact sizeProduct_pos full
  exact ⟨choice, candidates.mem_iff.1 (List.mem_flatMap.2 ⟨binding, inside, isChoice⟩),
    keys binding inside choice isChoice⟩

theorem exists_binding {choice : List GenericRow}
    (inside : choice ∈ fullJoin (fun _ => []) providers) :
    ∃ binding ∈ ready, combinationKeys variableCount providers choice = binding.bindings := by
  obtain ⟨binding, isReady, isChoice⟩ := List.mem_flatMap.1 (candidates.mem_iff.2 inside)
  exact ⟨binding, isReady, keys binding isReady choice isChoice⟩

/-- The keys of the bindings are those of the choices of rows. -/
theorem exists_bindingKey_iff (full : ∀ binding ∈ ready, ∀ bag ∈ binding.bags, bag ≠ [])
    {var : Nat} (inRange : var < variableCount) (key : GraphId) :
    (∃ binding ∈ ready, bindingKey var binding = key) ↔
      ∃ choice ∈ fullJoin (fun _ => []) providers, combinationKey providers var choice = key := by
  constructor
  · rintro ⟨binding, inside, rfl⟩
    obtain ⟨choice, isChoice, same⟩ := exists_choice candidates keys inside (full binding inside)
    exact ⟨choice, isChoice, combinationKey_of_keys inRange same⟩
  · rintro ⟨choice, inside, rfl⟩
    obtain ⟨binding, isReady, same⟩ := exists_binding candidates keys inside
    exact ⟨binding, isReady, (combinationKey_of_keys inRange same).symm⟩

/-- The choices for the keys of a binding are counted by the product of its bags. -/
theorem bagProducts_fit_iff (distinct : (ready.map fun binding => binding.bindings).Nodup)
    (full : ∀ binding ∈ ready, ∀ bag ∈ binding.bags, bag ≠ []) :
    (∀ binding ∈ ready, (sizeProduct binding.bags : Int) < 2 ^ 63) ↔
      ProductsFit variableCount providers := by
  have count (binding : ReadyBinding) (inside : binding ∈ ready) :
      ((fullJoin (fun _ => []) providers).filter fun other =>
        combinationKeys variableCount providers other = binding.bindings).length =
          sizeProduct binding.bags := by
    rw [← (candidates.filter _).length_eq]
    exact length_candidates distinct keys inside
  constructor
  · intro fits choice inside
    obtain ⟨binding, isReady, same⟩ := exists_binding candidates keys inside
    rw [same, count binding isReady]
    exact fits binding isReady
  · intro fits binding inside
    obtain ⟨choice, isChoice, same⟩ := exists_choice candidates keys inside (full binding inside)
    have counted := fits choice isChoice
    rwa [same, count binding inside] at counted

end Choices

/-- The join ends with every consumer, which agrees with the rows exactly where it is exact. -/
theorem aggregateGenericJoin_agrees_iff (described : Described variableCount providers)
    (valid : desc.Valid providers) (validConsumer : consumer.Valid variableCount providers) :
    ∃ rows result enough, (∀ fuel, enough ≤ fuel →
      accessGenericJoin variableCount desc groups providers fuel = .ok (some rows) ∧
      aggregateGenericJoin variableCount desc groups providers consumer fuel = .ok (some result)) ∧
        (Agrees (aggregateRows consumer (combinationKey providers consumer.distinctVariable) rows)
          result ↔ consumer.Exact variableCount groups providers) := by
  obtain ⟨rows, ready, enough, ends, consumable, lengths, perm, whenCovered, otherwise⟩ :=
    @aggregateGenericJoin_ready variableCount providers groups desc consumer described valid
      validConsumer
  refine ⟨rows, consume groups consumer ready, enough, ends, ?_⟩
  have sameAgrees : Agrees (aggregateRows consumer
      (combinationKey providers consumer.distinctVariable) rows) (consume groups consumer ready) ↔
      Agrees (aggregateRows consumer (combinationKey providers consumer.distinctVariable)
        (readyRows ready)) (consume groups consumer ready) :=
    ⟨fun agrees => agrees.perm (aggregateRows_perm perm.symm),
      fun agrees => agrees.perm (aggregateRows_perm perm)⟩
  by_cases covered : Covered variableCount providers
  · obtain ⟨rowsPerm, candidates, distinct, keys⟩ := whenCovered covered
    have full : ∀ binding ∈ ready, ∀ bag ∈ binding.bags, bag ≠ [] :=
      fun binding inside => (consumable.right binding inside).full
    have sameKeys := exists_bindingKey_iff candidates keys full validConsumer.variable_
    have sameProducts := bagProducts_fit_iff candidates keys distinct full
    rw [sameAgrees, consume_agrees_iff consumable validConsumer.grouped lengths
      validConsumer.provider validConsumer.value]
    have rowsFull := perm.trans rowsPerm
    exact ⟨fun exact_ _ => exact_.perm rowsFull (fun key => (sameKeys key).2) sameProducts.1,
      fun exact_ => (exact_ covered).perm rowsFull.symm (fun key => (sameKeys key).1)
        sameProducts.2⟩
  · obtain rfl := otherwise covered
    rw [sameAgrees, consume_agrees_iff consumable validConsumer.grouped lengths
      validConsumer.provider validConsumer.value]
    refine iff_of_true (.inl ⟨?_, ?_⟩) fun isCovered => absurd isCovered covered
    · unfold CountersFit
      cases consumer.kind with
      | count | countDistinctKey | distinctKey | existsRow => trivial
      | groupCount | groupCountDistinctKey =>
          exact ⟨fun _ inside => (nomatch inside), Int.zero_lt_one.trans (by decide)⟩
      | property aggregate | groupProperty aggregate =>
          exact ⟨fun _ _ inside => (nomatch inside), ⟨Int.zero_lt_one.trans (by decide),
            Int.zero_lt_one.trans (by decide)⟩⟩
    · unfold TakesRows
      cases consumer.kind with
      | count | countDistinctKey | distinctKey | groupCount | groupCountDistinctKey | existsRow =>
          trivial
      | property aggregate => exact fun _ _ inside => nomatch inside
      | groupProperty aggregate =>
          exact ⟨fun _ _ inside => (nomatch inside), fun _ ⟨_, inside, _⟩ => nomatch inside⟩

end Consumers

section Example

/-- The edge between the two vertices, read from its table -/
def tableEdge : GenericProvider :=
  ⟨.edge, 0, 1, .eagerSortedArray, [⟨sampleSource, sampleTarget, some sampleEdge⟩]⟩

def tableProviders : List GenericProvider :=
  [vertexProvider 0 sampleSource, vertexProvider 1 sampleTarget, tableEdge]

/-- The sum of a property of the edge, which has the value -/
def sumOf (value : Int) : ConsumerDesc := ⟨.property .sum, 0, 2, fun _ => some value⟩

theorem tableProviders_described : Described 2 tableProviders :=
  ⟨by decide, by decide, by decide, by decide⟩

theorem tableProviders_valid : (oneEdgeDesc 2).Valid tableProviders where
  steps step isStep := by
    rcases List.mem_pair.1 isStep with rfl | rfl
    · exact ⟨tableEdge, rfl, rfl, .inr ⟨rfl, rfl⟩, rfl⟩
    · exact ⟨tableEdge, rfl, rfl, .inl ⟨rfl, rfl⟩, rfl⟩
  tails _ impossible := (List.not_mem_nil impossible).elim
  pairs _ impossible := (List.not_mem_nil impossible).elim

theorem sumOf_valid {value : Int} (fits : FitsInt64 value) :
    (sumOf value).Valid 2 tableProviders where
  variable_ := Nat.two_pos
  grouped := nofun
  provider := (by decide : 2 < 3)
  value _ _ isValue := Option.some.inj isValue ▸ fits

theorem tableProviders_covered : Covered 2 tableProviders := by
  unfold Covered
  decide

/-- The rows of the join are the edge with its vertices. -/
theorem fullJoin_tableProviders :
    fullJoin (fun _ => []) tableProviders =
      [[⟨sampleSource, 0, none⟩, ⟨sampleTarget, 0, none⟩,
        ⟨sampleSource, sampleTarget, some sampleEdge⟩]] := by
  have isRow : [⟨sampleSource, 0, none⟩, ⟨sampleTarget, 0, none⟩,
        ⟨sampleSource, sampleTarget, some sampleEdge⟩] ∈
      fullJoin (fun _ => []) tableProviders := by
    refine mem_fullJoin.2 ⟨⟨fun var => if var = 0 then sampleSource else sampleTarget,
      .cons ⟨List.mem_cons_self, rfl, fun isEdge => (nomatch isEdge)⟩
        (.cons ⟨List.mem_cons_self, rfl, fun isEdge => (nomatch isEdge)⟩
          (.cons ⟨List.mem_cons_self, rfl, fun _ => rfl⟩ .nil))⟩, ?_⟩
    intro first second _ _ _ _ _ _ _ _
    rfl
  have sublist : (fullJoin (fun _ => []) tableProviders).Sublist
      [[⟨sampleSource, 0, none⟩, ⟨sampleTarget, 0, none⟩,
        ⟨sampleSource, sampleTarget, some sampleEdge⟩]] := List.filter_sublist
  exact sublist.eq_of_length_le (List.length_pos_of_mem isRow)

/-- A property of 5 is summed. -/
theorem aggregateGenericJoin_positive_sum :
    Described 2 tableProviders ∧ (oneEdgeDesc 2).Valid tableProviders ∧
      (sumOf 5).Valid 2 tableProviders ∧
      ∃ rows result enough, (∀ fuel, enough ≤ fuel →
        accessGenericJoin 2 (oneEdgeDesc 2) (fun _ => []) tableProviders fuel = .ok (some rows) ∧
        aggregateGenericJoin 2 (oneEdgeDesc 2) (fun _ => []) tableProviders (sumOf 5) fuel =
          .ok (some result)) ∧
        Agrees (aggregateRows (sumOf 5) (combinationKey tableProviders 0) rows) result := by
  have valid := @sumOf_valid 5 (by decide)
  obtain ⟨rows, result, enough, ends, agrees⟩ :=
    @aggregateGenericJoin_agrees_iff 2 tableProviders (fun _ => []) (oneEdgeDesc 2) (sumOf 5)
      tableProviders_described tableProviders_valid valid
  refine ⟨tableProviders_described, tableProviders_valid, valid, rows, result, enough, ends,
    agrees.2 fun _ => .inl ⟨⟨fun _ choice _ => ?_, ?_⟩, fun _ value inside => ?_⟩⟩
  · refine (Int.ofNat_le.2 (List.length_filter_le _ _)).trans_lt ?_
    rw [fullJoin_tableProviders]
    decide
  · rw [fullJoin_tableProviders]
    exact ⟨by decide, by decide⟩
  · rw [fullJoin_tableProviders] at inside
    rw [List.mem_singleton.1 inside]
    decide

/-- A property of -5 is not summed, though the sum has 64 bits. -/
theorem aggregateGenericJoin_negative_sum :
    ¬∀ (variableCount : Nat) (providers : List GenericProvider) (desc : ReductionDesc)
      (groups : UniquenessGroups) (consumer : ConsumerDesc), Described variableCount providers →
      desc.Valid providers → consumer.Valid variableCount providers →
      ∀ rows result fuel,
        accessGenericJoin variableCount desc groups providers fuel = .ok (some rows) →
        aggregateGenericJoin variableCount desc groups providers consumer fuel =
          .ok (some result) →
        Agrees (aggregateRows consumer
          (combinationKey providers consumer.distinctVariable) rows) result := by
  intro always
  have valid := @sumOf_valid (-5) (by decide)
  obtain ⟨rows, ready, enough, ends, consumable, lengths, perm, whenCovered, -⟩ :=
    @aggregateGenericJoin_ready 2 tableProviders (fun _ => []) (oneEdgeDesc 2) (sumOf (-5))
      tableProviders_described tableProviders_valid valid
  have isJoin := (whenCovered tableProviders_covered).1
  rw [fullJoin_tableProviders, List.perm_singleton] at isJoin
  subst isJoin
  have agrees := always 2 tableProviders (oneEdgeDesc 2) (fun _ => []) (sumOf (-5))
    tableProviders_described tableProviders_valid valid _ _ enough (ends enough le_rfl).1
    (ends enough le_rfl).2
  have failed : consume (fun _ => []) (sumOf (-5)) ready = .error .bigintOutOfRange := by
    have inRange : ∀ binding ∈ ready, 2 < binding.bags.length := fun binding inside =>
      (lengths binding inside).symm ▸ (by decide : 2 < tableProviders.length)
    have summed := @addSumRows_negative _ ready (fun _ => some (-5)) 2 consumable.right inRange (-5)
      (List.mem_map.2 ⟨_, perm.mem_iff.2 List.mem_cons_self, rfl⟩) (by decide) .initial
    change (addSumRows (fun _ => []) (fun _ => some (-5)) 2 .sum ready .initial >>= _) = _
    rw [summed, error_then]
  rw [failed] at agrees
  obtain ⟨row, isRow, number, isNumber, large⟩ := agrees
  have exact_ : aggregateRows (sumOf (-5)) (combinationKey tableProviders 0)
      [[⟨sampleSource, 0, none⟩, ⟨sampleTarget, 0, none⟩,
        ⟨sampleSource, sampleTarget, some sampleEdge⟩]] = [[.int8 (-5)]] := by
    decide
  rw [show (sumOf (-5)).distinctVariable = 0 from rfl, exact_] at isRow
  rw [List.mem_singleton.1 isRow] at isNumber
  rw [Cell.int8.inj (List.mem_singleton.1 isNumber)] at large
  exact large (by decide)

end Example

end Age.Executor.GenericJoin
