import Mathlib.Data.List.Dedup
import Mathlib.Data.List.Induction
import Age.Adjacency.BlockSkip

/-!
# The directory entry and the postings of its run

The build loop sums a run up in its directory entry.  The label count leaves out next vertices
without a valid label, but the compressed entry ids are compared with the one label that is counted;
and a range without a set of vertices is asked of the entry, but not of the postings.  Only there an
entry can be rejected although a scan accepts a posting of its run.
-/

namespace Age.Adjacency

open BitUnion
open Vle (getGraphidLabelId labelIdIsValid)

section Condition

variable (target : ScanTarget) (run : List MainPosting)

def nextEntryIds : List Nat := run.map fun posting => getGraphidEntryId posting.nextVertexId

/-- The scan asks for no label, all next vertices with a valid label have the same one, the entry ids
of the run fit in the slots, none of them is the one of a vertex of this label in the sorted set, and
a posting is accepted for a next vertex without a valid label. -/
structure HidesUnlabelled : Prop where
  noLabel : labelIdIsValid target.terminalLabelId = false
  searched : target.terminalVertexSetFilter.hasVertices = true
  fits : (nextEntryIds run).dedup.length ≤ 32
  oneLabel : ∃ label ∈ nextLabelIds run, labelIdIsValid label = true ∧
    (∀ other ∈ nextLabelIds run, labelIdIsValid other = true → other = label) ∧
      ∀ vertexId ∈ target.terminalVertexSetFilter.sortedVertexIds,
        getGraphidLabelId vertexId = label → getGraphidEntryId vertexId ∉ nextEntryIds run
  accepted : ∃ posting ∈ run, target.accepts posting = true ∧
    labelIdIsValid (getGraphidLabelId posting.nextVertexId) = false

/-- The scan has a range and no set of vertices, the next vertices of the run are all below or all
above the range, and a posting is accepted. -/
structure HidesOutsideRange : Prop where
  rangeOnly : target.terminalVertexSetFilter.hasRange = true ∧
    target.terminalVertexSetFilter.vertexIds = none ∧
      target.terminalVertexSetFilter.hasSortedVertexIds = false
  notZero : ∃ posting ∈ run, posting.nextVertexId ≠ 0
  outside : (∀ posting ∈ run,
      posting.nextVertexId < target.terminalVertexSetFilter.minVertexId) ∨
    ∀ posting ∈ run, target.terminalVertexSetFilter.maxVertexId < posting.nextVertexId
  accepted : ∃ posting ∈ run, target.accepts posting = true

end Condition

section Labels

variable {labels : List Int} {label : Int}

theorem le_countNextLabel (count : Nat) (previous : Int) :
    count ≤ (labels.foldl countNextLabel (count, previous)).1 ∧
      ((labels.foldl countNextLabel (count, previous)).1 = count ↔
        ∀ label ∈ labels, labelIdIsValid label = true → label = previous) := by
  induction labels generalizing count previous with
  | nil => simp
  | cons first rest inductionHypothesis =>
      rw [List.foldl_cons, countNextLabel]
      split_ifs with changes
      · rw [Bool.and_eq_true, bne_iff_ne] at changes
        dsimp only at changes ⊢
        have more := (inductionHypothesis (count + 1) first).1
        refine ⟨by omega, iff_of_false (by omega) fun same => ?_⟩
        exact changes.2 (same first List.mem_cons_self changes.1)
      · obtain ⟨atLeast, equal⟩ := inductionHypothesis count previous
        refine ⟨atLeast, equal.trans ?_⟩
        rw [List.forall_mem_cons]
        refine ⟨fun later => ⟨fun valid => ?_, later⟩, fun both => both.2⟩
        by_contra differs
        exact changes (by rw [valid, Bool.true_and, bne_iff_ne]; exact differs)

/-- One label is counted when all valid labels are the same. -/
theorem countNextLabel_eq_one :
    (labels.foldl countNextLabel (0, 0)).1 = 1 ↔ ∃ label ∈ labels, labelIdIsValid label = true ∧
      ∀ other ∈ labels, labelIdIsValid other = true → other = label := by
  induction labels with
  | nil => simp
  | cons first rest inductionHypothesis =>
      rw [List.foldl_cons, countNextLabel]
      by_cases valid : labelIdIsValid first = true
      · have notZero : first ≠ 0 := by
          rintro rfl
          cases valid
        rw [valid, Bool.true_and, if_pos (bne_iff_ne.2 notZero), (le_countNextLabel 1 first).2]
        constructor
        · intro same
          refine ⟨first, List.mem_cons_self, valid, fun other isOther otherValid => ?_⟩
          rcases List.mem_cons.1 isOther with rfl | later
          · rfl
          · exact same other later otherValid
        · rintro ⟨label, _, _, same⟩ other later otherValid
          rw [same other (List.mem_cons_of_mem _ later) otherValid,
            same first List.mem_cons_self valid]
      · rw [Bool.eq_false_iff.2 valid, Bool.false_and, if_neg Bool.false_ne_true,
          inductionHypothesis]
        simp [valid]

theorem widenNextLabels_spec (range : Int × Int) :
    (labelIdIsValid range.1 = true → (labels.foldl widenNextLabels range).1 ≤ range.1) ∧
      (labelIdIsValid range.2 = true → range.2 ≤ (labels.foldl widenNextLabels range).2) ∧
        ∀ label ∈ labels, labelIdIsValid label = true →
          (labels.foldl widenNextLabels range).1 ≤ label ∧
            label ≤ (labels.foldl widenNextLabels range).2 := by
  induction labels generalizing range with
  | nil => exact ⟨fun _ => le_rfl, fun _ => le_rfl, nofun⟩
  | cons first rest inductionHypothesis =>
      rw [List.foldl_cons]
      obtain ⟨least, greatest, inside⟩ := inductionHypothesis (widenNextLabels range first)
      by_cases valid : labelIdIsValid first = true
      · have low : labelIdIsValid (widenNextLabels range first).1 = true ∧
            (widenNextLabels range first).1 ≤ first ∧
              (labelIdIsValid range.1 = true → (widenNextLabels range first).1 ≤ range.1) := by
          rw [widenNextLabels, if_pos valid]
          dsimp only
          split_ifs with takes
          · refine ⟨valid, le_rfl, fun rangeValid => ?_⟩
            rw [rangeValid, Bool.not_true, Bool.false_or, decide_eq_true_eq] at takes
            exact takes.le
          · simp only [Bool.or_eq_true, Bool.not_eq_true', decide_eq_true_eq, not_or, not_lt,
              Bool.not_eq_false] at takes
            exact ⟨takes.1, takes.2, fun _ => le_rfl⟩
        have high : labelIdIsValid (widenNextLabels range first).2 = true ∧
            first ≤ (widenNextLabels range first).2 ∧
              (labelIdIsValid range.2 = true → range.2 ≤ (widenNextLabels range first).2) := by
          rw [widenNextLabels, if_pos valid]
          dsimp only
          split_ifs with takes
          · refine ⟨valid, le_rfl, fun rangeValid => ?_⟩
            rw [rangeValid, Bool.not_true, Bool.false_or, decide_eq_true_eq] at takes
            exact takes.le
          · simp only [Bool.or_eq_true, Bool.not_eq_true', decide_eq_true_eq, not_or, not_lt,
              Bool.not_eq_false] at takes
            exact ⟨takes.1, takes.2, fun _ => le_rfl⟩
        refine ⟨fun rangeValid => (least low.1).trans (low.2.2 rangeValid),
          fun rangeValid => (high.2.2 rangeValid).trans (greatest high.1), fun label isLabel => ?_⟩
        rcases List.mem_cons.1 isLabel with rfl | later
        · exact fun _ => ⟨(least low.1).trans low.2.1, high.2.1.trans (greatest high.1)⟩
        · exact inside label later
      · have same : widenNextLabels range first = range := by rw [widenNextLabels, if_neg valid]
        rw [same] at least greatest inside ⊢
        refine ⟨least, greatest, fun label isLabel labelValid => ?_⟩
        rcases List.mem_cons.1 isLabel with rfl | later
        · exact absurd labelValid valid
        · exact inside label later labelValid

/-- With one valid label, the least label is this one as soon as it has come. -/
theorem widenNextLabels_one (labelValid : labelIdIsValid label = true)
    (one : ∀ other ∈ labels, labelIdIsValid other = true → other = label) (range : Int × Int)
    (start : range.1 = label ∨ labelIdIsValid range.1 = false ∧ label ∈ labels) :
    (labels.foldl widenNextLabels range).1 = label := by
  induction labels generalizing range with
  | nil => exact start.elim id fun absent => absurd absent.2 List.not_mem_nil
  | cons first rest inductionHypothesis =>
      rw [List.foldl_cons]
      refine inductionHypothesis (fun other later => one other (List.mem_cons_of_mem _ later)) _ ?_
      by_cases valid : labelIdIsValid first = true
      · obtain rfl := one first List.mem_cons_self valid
        left
        rw [widenNextLabels, if_pos valid]
        dsimp only
        split_ifs with takes
        · rfl
        · rcases start with same | ⟨invalid, _⟩
          · exact same
          · rw [invalid, Bool.not_false, Bool.true_or] at takes
            exact absurd rfl takes
      · rw [widenNextLabels, if_neg valid]
        refine start.imp_right fun absent => ⟨absent.1, ?_⟩
        rcases List.mem_cons.1 absent.2 with rfl | later
        · exact absurd labelValid valid
        · exact later

theorem nextLabelRange_one {run : List MainPosting} (member : label ∈ nextLabelIds run)
    (labelValid : labelIdIsValid label = true)
    (one : ∀ other ∈ nextLabelIds run, labelIdIsValid other = true → other = label) :
    (nextLabelRange run).1 = label := by
  refine widenNextLabels_one labelValid one _ ?_
  cases labels : nextLabelIds run with
  | nil => exact absurd (labels ▸ member) List.not_mem_nil
  | cons first rest =>
      rw [labels] at member one
      by_cases valid : labelIdIsValid first = true
      · exact .inl (one first List.mem_cons_self valid)
      · exact .inr ⟨Bool.eq_false_iff.2 valid, member⟩

end Labels

section Blooms

theorem unites_vertexBloomAdd : Unites vertexBloomAdd (vertexBloomAdd 0) := by
  intro bloom vertexId
  simp only [vertexBloomAdd, UInt64.zero_or, UInt64.or_assoc]

theorem vertexBloomAdd_ne_zero (vertexId : GraphId) : vertexBloomAdd 0 vertexId ≠ 0 := by
  intro none
  have bits := congrArg UInt64.toNat none
  simp only [vertexBloomAdd, UInt64.toNat_or, UInt64.toNat_shiftLeft, UInt64.toNat_zero,
    Nat.or_eq_zero_iff, UInt64.toNat_one, Nat.shiftLeft_eq, Nat.one_mul] at bits
  have small : 2 ^ ((vertexBloomMix vertexId &&& 63).toNat % 64) < 2 ^ 64 :=
    Nat.pow_lt_pow_right (by decide) (Nat.mod_lt _ (by decide))
  have positive := Nat.two_pow_pos ((vertexBloomMix vertexId &&& 63).toNat % 64)
  have first := bits.1.1.2
  rw [Nat.mod_eq_of_lt small] at first
  omega

theorem vertexBloomMayContain_of_or {bloom : UInt64} {vertexId : GraphId}
    (absorbs : bloom ||| vertexBloomAdd 0 vertexId = bloom) :
    vertexBloomMayContain bloom vertexId = true := by
  rw [vertexBloomMayContain, Bool.or_eq_true, beq_iff_eq, beq_iff_eq]
  exact .inr (and_eq_of_or_eq64 absorbs)

theorem vertexBloom256_ne_zero (vertexId : GraphId) : vertexBloom256Add 0 vertexId ≠ 0 :=
  setBloomBit_ne_zero _ _ _

/-- What the slots tell of the vertices that came: a slot has the bits of every vertex of its label,
and with a slot to spare every valid label has one. -/
structure SlotsRight (slots : List LabelBloom) (vertexIds : List GraphId) : Prop where
  valid : ∀ slot ∈ slots, labelIdIsValid slot.labelId = true
  absorbs : ∀ slot ∈ slots, ∀ vertexId ∈ vertexIds, getGraphidLabelId vertexId = slot.labelId →
    slot.bloom ||| vertexBloomAdd 0 vertexId = slot.bloom ∧
      slot.valuePostingBloom ||| valuePostingBloomAdd 0 vertexId = slot.valuePostingBloom
  spare : slots.length < 2 → ∀ vertexId ∈ vertexIds,
    labelIdIsValid (getGraphidLabelId vertexId) = true →
      ∃ slot ∈ slots, slot.labelId = getGraphidLabelId vertexId

theorem SlotsRight.add {slots : List LabelBloom} {vertexIds : List GraphId}
    (right : SlotsRight slots vertexIds) (vertexId : GraphId) :
    SlotsRight (addLabelBloom slots vertexId) (vertexIds ++ [vertexId]) := by
  have noSlot (missing : ∀ slot ∈ slots, slot.labelId ≠ getGraphidLabelId vertexId) :
      ∀ slot ∈ slots, ∀ other ∈ vertexIds ++ [vertexId], getGraphidLabelId other = slot.labelId →
        slot.bloom ||| vertexBloomAdd 0 other = slot.bloom ∧
          slot.valuePostingBloom ||| valuePostingBloomAdd 0 other = slot.valuePostingBloom := by
    intro slot isSlot other isOther label
    rcases List.mem_append.1 isOther with old | new
    · exact right.absorbs slot isSlot other old label
    · rw [List.mem_singleton.1 new] at label
      exact absurd label.symm (missing slot isSlot)
  rw [addLabelBloom]
  split_ifs with invalid present room
  · -- no slot has an invalid label
    rw [Bool.not_eq_true'] at invalid
    refine ⟨right.valid, noSlot fun slot isSlot same => ?_, fun few other isOther otherValid => ?_⟩
    · rw [← same, right.valid slot isSlot] at invalid
      cases invalid
    · rcases List.mem_append.1 isOther with old | new
      · exact right.spare few other old otherValid
      · rw [List.mem_singleton.1 new, invalid] at otherValid
        cases otherValid
  · rw [List.any_eq_true] at present
    obtain ⟨found, isFound, isLabel⟩ := present
    rw [beq_iff_eq] at isLabel
    refine ⟨fun slot isSlot => ?_, fun slot isSlot other isOther label => ?_,
      fun few other isOther otherValid => ?_⟩
    · obtain ⟨old, isOld, rfl⟩ := List.mem_map.1 isSlot
      split_ifs with same
      · rw [beq_iff_eq] at same
        exact same ▸ right.valid old isOld
      · exact right.valid old isOld
    · obtain ⟨old, isOld, rfl⟩ := List.mem_map.1 isSlot
      split_ifs at label ⊢ with same
      · rw [beq_iff_eq] at same
        dsimp only at label ⊢
        rw [unites_vertexBloomAdd old.bloom, unites_valuePostingBloomAdd old.valuePostingBloom]
        rcases List.mem_append.1 isOther with before | new
        · obtain ⟨bloom, posting⟩ := right.absorbs old isOld other before (label.trans same.symm)
          constructor
          · rw [UInt64.or_assoc, UInt64.or_comm (vertexBloomAdd 0 vertexId), ← UInt64.or_assoc, bloom]
          · rw [Nat.or_assoc, Nat.or_comm (valuePostingBloomAdd 0 vertexId), ← Nat.or_assoc, posting]
        · rw [List.mem_singleton.1 new, UInt64.or_assoc, UInt64.or_self, Nat.or_assoc, Nat.or_self]
          exact ⟨rfl, rfl⟩
      · rcases List.mem_append.1 isOther with before | new
        · exact right.absorbs old isOld other before label
        · rw [List.mem_singleton.1 new] at label
          exact absurd (beq_iff_eq.2 label.symm) same
    · rw [List.length_map] at few
      have labelled : ∃ slot ∈ slots, slot.labelId = getGraphidLabelId other := by
        rcases List.mem_append.1 isOther with before | new
        · exact right.spare few other before otherValid
        · rw [List.mem_singleton.1 new]
          exact ⟨found, isFound, isLabel⟩
      obtain ⟨slot, isSlot, label⟩ := labelled
      refine ⟨_, List.mem_map_of_mem isSlot, ?_⟩
      split_ifs with same
      · rw [beq_iff_eq] at same
        exact same.symm.trans label
      · exact label
  · -- a label that gets a slot now has not come before
    rw [Bool.not_eq_true', Bool.not_eq_false] at invalid
    rw [List.any_eq_true, not_exists] at present
    have missing : ∀ slot ∈ slots, slot.labelId ≠ getGraphidLabelId vertexId :=
      fun slot isSlot same => present slot ⟨isSlot, beq_iff_eq.2 same⟩
    refine ⟨fun slot isSlot => ?_, fun slot isSlot other isOther label => ?_,
      fun _ other isOther otherValid => ?_⟩
    · rcases List.mem_append.1 isSlot with old | new
      · exact right.valid slot old
      · rw [List.mem_singleton.1 new]
        exact invalid
    · rcases List.mem_append.1 isSlot with old | new
      · exact noSlot missing slot old other isOther label
      · rw [List.mem_singleton.1 new] at label ⊢
        dsimp only at label ⊢
        rcases List.mem_append.1 isOther with before | isNew
        · obtain ⟨slot, isOld, same⟩ := right.spare room other before (label ▸ invalid)
          exact absurd (same.trans label) (missing slot isOld)
        · rw [List.mem_singleton.1 isNew, UInt64.or_self, Nat.or_self]
          exact ⟨rfl, rfl⟩
    · rcases List.mem_append.1 isOther with before | new
      · obtain ⟨slot, isOld, same⟩ := right.spare room other before otherValid
        exact ⟨slot, List.mem_append_left _ isOld, same⟩
      · rw [List.mem_singleton.1 new]
        exact ⟨_, List.mem_append_right _ (List.mem_singleton_self _), rfl⟩
  · rw [List.any_eq_true, not_exists] at present
    exact ⟨right.valid, noSlot fun slot isSlot same => present slot ⟨isSlot, beq_iff_eq.2 same⟩,
      fun few => absurd few room⟩

theorem slotsRight_foldl (vertexIds : List GraphId) :
    SlotsRight (vertexIds.foldl addLabelBloom []) vertexIds := by
  induction vertexIds using List.reverseRecOn with
  | nil => exact ⟨nofun, nofun, nofun⟩
  | append_singleton vertexIds vertexId inductionHypothesis =>
      rw [List.foldl_concat]
      exact inductionHypothesis.add vertexId

end Blooms

section Entry

variable {target : ScanTarget} {run : List MainPosting} {posting : MainPosting}

theorem mem_nextLabelIds (member : posting ∈ run) :
    getGraphidLabelId posting.nextVertexId ∈ nextLabelIds run :=
  List.mem_map_of_mem (f := fun posting : MainPosting => getGraphidLabelId posting.nextVertexId)
    member

theorem entryMatchesTerminalLabel_of_accepts (member : posting ∈ run)
    (accepted : target.accepts posting = true) : entryMatchesTerminalLabel target run = true := by
  rw [entryMatchesTerminalLabel]
  cases valid : labelIdIsValid target.terminalLabelId with
  | false => rfl
  | true =>
      have label := label_of_accepts valid accepted
      obtain ⟨least, greatest⟩ := (widenNextLabels_spec
        (((nextLabelIds run).headD 0, (nextLabelIds run).headD 0))).2.2
          (getGraphidLabelId posting.nextVertexId) (mem_nextLabelIds member) (label ▸ valid)
      rw [label] at least greatest
      simp only [nextLabelRange, least, greatest, decide_true, Bool.and_true, Bool.or_true]

theorem nextVertexBloom_absorbs (member : posting ∈ run) :
    nextVertexBloom run ||| vertexBloomAdd 0 posting.nextVertexId = nextVertexBloom run :=
  unites_vertexBloomAdd.foldl_absorbs (List.mem_map_of_mem member) 0

theorem foldl_chosen {choose : GraphId → MainPosting → GraphId}
    (chooses : ∀ vertexId posting, choose vertexId posting = vertexId ∨
      choose vertexId posting = posting.nextVertexId) (postings : List MainPosting)
    (start : GraphId) : postings.foldl choose start = start ∨
      ∃ posting ∈ postings, posting.nextVertexId = postings.foldl choose start := by
  induction postings generalizing start with
  | nil => exact .inl rfl
  | cons first rest inductionHypothesis =>
      rw [List.foldl_cons]
      rcases inductionHypothesis (choose start first) with same | ⟨posting, member, isChosen⟩
      · rcases chooses start first with kept | taken
        · exact .inl (same.trans kept)
        · exact .inr ⟨first, List.mem_cons_self, (same.trans taken).symm⟩
      · exact .inr ⟨posting, List.mem_cons_of_mem _ member, isChosen⟩

theorem foldl_chosen_mem {choose : GraphId → MainPosting → GraphId}
    (chooses : ∀ vertexId posting, choose vertexId posting = vertexId ∨
      choose vertexId posting = posting.nextVertexId) (nonempty : run ≠ []) :
    ∃ posting ∈ run, posting.nextVertexId =
      run.foldl choose ((run.head?.map MainPosting.nextVertexId).getD 0) := by
  rcases foldl_chosen chooses run _ with same | found
  · refine ⟨run.head nonempty, List.head_mem nonempty, ?_⟩
    rw [same, List.head?_eq_some_head nonempty]
    rfl
  · exact found

theorem minNextVertexId_mem (nonempty : run ≠ []) :
    ∃ posting ∈ run, posting.nextVertexId = minNextVertexId run :=
  foldl_chosen_mem (fun vertexId posting => by split_ifs <;> simp) nonempty

theorem maxNextVertexId_mem (nonempty : run ≠ []) :
    ∃ posting ∈ run, posting.nextVertexId = maxNextVertexId run :=
  foldl_chosen_mem (fun vertexId posting => by split_ifs <;> simp) nonempty

/-- The least and the greatest next vertex are zero only where all are. -/
theorem nextVertexRange_zero (nonempty : run ≠ []) :
    (minNextVertexId run = 0 ∧ maxNextVertexId run = 0) ↔
      ∀ posting ∈ run, posting.nextVertexId = 0 := by
  constructor
  · rintro ⟨least, greatest⟩ posting member
    have above := minNextVertexId_le member
    have below := le_maxNextVertexId member
    rw [least] at above
    rw [greatest] at below
    exact Int64.le_antisymm below above
  · intro zero
    obtain ⟨low, lowMember, isLow⟩ := minNextVertexId_mem nonempty
    obtain ⟨high, highMember, isHigh⟩ := maxNextVertexId_mem nonempty
    exact ⟨isLow ▸ zero low lowMember, isHigh ▸ zero high highMember⟩

/-- The range rejects a run with an accepted posting only if it is no range of a set. -/
theorem mayMatchRange_of_accepts (shown : ¬ HidesOutsideRange target run) (member : posting ∈ run)
    (accepted : target.accepts posting = true) :
    (minNextVertexId run = 0 ∧ maxNextVertexId run = 0) ∨
      mayMatchVertexRange run target.terminalVertexSetFilter = true := by
  by_cases zero : minNextVertexId run = 0 ∧ maxNextVertexId run = 0
  · exact .inl zero
  by_cases prepared : target.terminalVertexSetFilter.Prepared
  · exact .inr (mayMatchVertexRange_of_accepts prepared member accepted)
  have rangeOnly : target.terminalVertexSetFilter.hasRange = true ∧
      target.terminalVertexSetFilter.vertexIds = none ∧
        target.terminalVertexSetFilter.hasSortedVertexIds = false := by
    by_contra other
    refine prepared ⟨fun ranged => ?_⟩
    by_contra noSet
    rw [not_or, Bool.not_eq_true, Option.isSome_eq_false_iff, Option.isNone_iff_eq_none,
      Bool.not_eq_true] at noSet
    exact other ⟨ranged, noSet⟩
  have nonempty := List.ne_nil_of_mem member
  rw [nextVertexRange_zero nonempty] at zero
  push Not at zero
  right
  by_contra rejected
  refine shown ⟨rangeOnly, zero, ?_, posting, member, accepted⟩
  simp only [mayMatchVertexRange, rangeOnly.1, Bool.not_true, Bool.false_or, Bool.or_eq_true,
    Bool.and_eq_true, decide_eq_true_eq, not_or, not_and_or, Int64.not_le] at rejected
  rcases rejected.2 with above | below
  · exact .inr fun other isOther => Int64.lt_of_lt_of_le above (minNextVertexId_le isOther)
  · exact .inl fun other isOther => Int64.lt_of_le_of_lt (le_maxNextVertexId isOther) below

theorem entryMayMatchVertexSet_of_accepts (shown : ¬ HidesOutsideRange target run)
    (member : posting ∈ run) (accepted : target.accepts posting = true) :
    entryMayMatchVertexSet target run = true := by
  have bloom : (!target.terminalVertexSetFilter.hasVertices || nextVertexBloom run == 0 ||
      target.terminalVertexSetFilter.sortedVertexIds.any
        (vertexBloomMayContain (nextVertexBloom run))) = true := by
    cases searched : target.terminalVertexSetFilter.hasVertices with
    | false => rfl
    | true =>
        rw [Bool.or_eq_true, List.any_eq_true]
        exact .inr ⟨_, mem_of_hasVertices searched accepted,
          vertexBloomMayContain_of_or (nextVertexBloom_absorbs member)⟩
  rw [entryMayMatchVertexSet, mayMatchExactVertex_of_accepts member accepted, bloom]
  rcases mayMatchRange_of_accepts shown member accepted with ⟨least, greatest⟩ | passes
  · simp [least, greatest]
  · simp [passes]

/-- The slot of the target's label has the bits of an accepted posting. -/
theorem terminalLabelBloom_absorbs {slot : LabelBloom}
    (found : terminalLabelBloom target run = some slot) (member : posting ∈ run)
    (accepted : target.accepts posting = true) :
    slot.bloom ||| vertexBloomAdd 0 posting.nextVertexId = slot.bloom ∧
      slot.valuePostingBloom ||| valuePostingBloomAdd 0 posting.nextVertexId =
        slot.valuePostingBloom := by
  rw [terminalLabelBloom] at found
  split_ifs at found with valid
  have isLabel : slot.labelId = target.terminalLabelId := by simpa using List.find?_some found
  exact (slotsRight_foldl _).absorbs slot (List.mem_of_find?_eq_some found) posting.nextVertexId
    (List.mem_map_of_mem member) ((label_of_accepts valid accepted).trans isLabel.symm)

theorem entryLabelBloomMayMatch_of_accepts (member : posting ∈ run)
    (accepted : target.accepts posting = true) : entryLabelBloomMayMatch target run = true := by
  rw [entryLabelBloomMayMatch]
  cases searched : target.terminalVertexSetFilter.hasVertices with
  | false => rfl
  | true =>
      rw [Bool.not_true, Bool.false_or, Option.all_eq_true]
      intro slot found
      rw [Bool.or_eq_true, List.any_eq_true]
      exact .inr ⟨_, mem_of_hasVertices searched accepted,
        vertexBloomMayContain_of_or (terminalLabelBloom_absorbs found member accepted).1⟩

theorem entryMayMatchValueSummary_of_accepts (member : posting ∈ run) (accepted : target.accepts posting = true) :
    entryMayMatchValueSummary target run = true := by
  rw [entryMayMatchValueSummary]
  cases summed : target.terminalVertexSetFilter.hasValueSummary with
  | false => rfl
  | true =>
      have inSet := mem_of_hasVertices (VertexSetFilter.hasVertices_of_hasValueSummary summed) accepted
      have narrow := and_ne_zero64 (nextVertexBloom_absorbs member)
        (unites_vertexBloomAdd.foldl_absorbs inSet 0) (vertexBloomAdd_ne_zero _)
      have wide := and_ne_zero
        (unites_vertexBloom256Add.foldl_absorbs (List.mem_map_of_mem member) 0)
        (unites_vertexBloom256Add.foldl_absorbs inSet 0) (vertexBloom256_ne_zero _)
      rw [Bool.not_true, Bool.false_or, Bool.and_eq_true, Bool.or_eq_true, bne_iff_ne,
        bloomIntersects, Bool.or_eq_true, Bool.or_eq_true, bne_iff_ne]
      exact ⟨.inr narrow, .inl (.inl wide)⟩

theorem entryMayMatchValuePosting_of_accepts (member : posting ∈ run) (accepted : target.accepts posting = true) :
    entryMayMatchValuePosting target run = true := by
  rw [entryMayMatchValuePosting]
  cases summed : target.terminalVertexSetFilter.hasValueSummary with
  | false => rfl
  | true =>
      have inSet := mem_of_hasVertices (VertexSetFilter.hasVertices_of_hasValueSummary summed) accepted
      rw [Bool.not_true, Bool.false_or]
      cases found : terminalLabelBloom target run with
      | some slot =>
          have common := and_ne_zero (terminalLabelBloom_absorbs found member accepted).2
            (unites_valuePostingBloomAdd.foldl_absorbs inSet 0) (valuePostingBloomAdd_ne_zero _)
          dsimp only
          rw [bloomIntersects, Bool.or_eq_true, Bool.or_eq_true, bne_iff_ne]
          exact .inl (.inl common)
      | none =>
          rw [Bool.or_eq_true]
          exact .inr (valuePosting_intersects_of_accepts summed member accepted)

theorem addDistinct_fits {slots : Nat} {start found items : List Nat} (distinct : start.Nodup)
    (room : start.length ≤ slots)
    (added : items.foldl (addDistinct slots) (some start) = some found) :
    found.Nodup ∧ found.length ≤ slots := by
  induction items generalizing start with
  | nil =>
      obtain rfl := Option.some.inj added
      exact ⟨distinct, room⟩
  | cons next rest inductionHypothesis =>
      rw [List.foldl_cons, addDistinct, Option.bind_some] at added
      split_ifs at added with present full
      · exact inductionHypothesis distinct room added
      · obtain ⟨middle, isMiddle, _⟩ := mem_addDistinct _ added
        cases isMiddle
      · rw [List.contains_iff_mem] at present
        refine inductionHypothesis ?_ ?_ added
        · exact List.nodup_append.2 ⟨distinct, List.nodup_singleton _, fun item isItem other isNext => by
            rw [List.mem_singleton.1 isNext]
            exact fun same => present (same ▸ isItem)⟩
        · rw [List.length_append, List.length_singleton]
          omega

theorem addDistinct_of_fits {slots : Nat} {start items whole : List Nat} (distinct : start.Nodup)
    (inStart : start ⊆ whole) (inItems : items ⊆ whole) (fits : whole.length ≤ slots) :
    ∃ found, items.foldl (addDistinct slots) (some start) = some found := by
  induction items generalizing start with
  | nil => exact ⟨start, rfl⟩
  | cons next rest inductionHypothesis =>
      obtain ⟨isWhole, inRest⟩ := List.cons_subset.1 inItems
      rw [List.foldl_cons, addDistinct, Option.bind_some]
      split_ifs with present full
      · exact inductionHypothesis distinct inStart inRest
      · rw [List.contains_iff_mem] at present
        have more : (next :: start).Nodup := List.nodup_cons.2 ⟨present, distinct⟩
        have bound := (more.subperm (List.cons_subset.2 ⟨isWhole, inStart⟩)).length_le
        rw [List.length_cons] at bound
        omega
      · rw [List.contains_iff_mem] at present
        refine inductionHypothesis ?_ (List.append_subset.2 ⟨inStart, by simpa using isWhole⟩) inRest
        exact List.nodup_append.2 ⟨distinct, List.nodup_singleton _, fun item isItem other isNext => by
          rw [List.mem_singleton.1 isNext]
          exact fun same => present (same ▸ isItem)⟩

theorem mem_compressedNextEntries {entries : List Nat}
    (compressed : compressedNextEntries run = some entries) (entryId : Nat) :
    entryId ∈ entries ↔ entryId ∈ nextEntryIds run := by
  obtain ⟨first, isFirst, members⟩ := mem_addDistinct _ compressed
  cases isFirst
  rw [members, nextEntryIds]
  simp

theorem compressedNextEntries_eq_some (fits : (nextEntryIds run).dedup.length ≤ 32) :
    ∃ entries, compressedNextEntries run = some entries :=
  addDistinct_of_fits List.nodup_nil (List.nil_subset _) (List.subset_dedup _) fits

theorem fits_of_compressedNextEntries {entries : List Nat}
    (compressed : compressedNextEntries run = some entries) :
    (nextEntryIds run).dedup.length ≤ 32 := by
  obtain ⟨_, small⟩ := addDistinct_fits List.nodup_nil (Nat.zero_le _) compressed
  have inside : (nextEntryIds run).dedup ⊆ entries := fun entryId isEntry =>
    (mem_compressedNextEntries compressed entryId).2 (List.mem_dedup.1 isEntry)
  exact ((List.nodup_dedup _).subperm inside).length_le.trans small

/-- The compressed entry ids reject a run with an accepted posting only if it hides what has no
label. -/
theorem compressed_of_accepts (shown : ¬ HidesUnlabelled target run) (member : posting ∈ run)
    (accepted : target.accepts posting = true) :
    (nextLabelCount run != 1 || mayMatchCompressedVertex run target.terminalVertexSetFilter
      (nextLabelRange run).1) = true := by
  by_contra rejected
  rw [Bool.or_eq_true, not_or, bne_iff_ne, not_not, nextLabelCount, countNextLabel_eq_one] at rejected
  obtain ⟨⟨label, isLabel, labelValid, one⟩, rejected⟩ := rejected
  rw [nextLabelRange_one isLabel labelValid one] at rejected
  by_cases valid : labelIdIsValid (getGraphidLabelId posting.nextVertexId) = true
  · have same := one _ (List.mem_map.2 ⟨posting, member, rfl⟩) valid
    exact rejected (mayMatchCompressedVertex_of_accepts member same accepted)
  · refine shown ⟨?_, ?_, ?_, ⟨label, isLabel, labelValid, one, ?_⟩,
      ⟨posting, member, accepted, Bool.eq_false_iff.2 valid⟩⟩
    · by_contra asked
      rw [Bool.not_eq_false] at asked
      exact valid (label_of_accepts asked accepted ▸ asked)
    · by_contra searched
      rw [Bool.not_eq_true] at searched
      exact rejected (by rw [mayMatchCompressedVertex, searched]; rfl)
    · cases compressed : compressedNextEntries run with
      | none =>
          rw [mayMatchCompressedVertex, compressed, Bool.or_true] at rejected
          exact absurd rfl rejected
      | some entries => exact fits_of_compressedNextEntries compressed
    · intro vertexId inSet isLabel inside
      refine rejected ?_
      rw [mayMatchCompressedVertex]
      cases compressed : compressedNextEntries run with
      | none => exact Bool.or_true _
      | some entries =>
          have isEntry := (mem_compressedNextEntries compressed _).2 inside
          rw [Bool.or_eq_true, Bool.or_eq_true, List.any_eq_true]
          exact .inr (.inr ⟨vertexId, inSet, by simpa [isLabel] using isEntry⟩)

theorem rejected_of_hides (hides : HidesUnlabelled target run) :
    entryMatchesCompositeTarget target run = false := by
  obtain ⟨label, isLabel, labelValid, one, unlike⟩ := hides.oneLabel
  obtain ⟨entries, compressed⟩ := compressedNextEntries_eq_some hides.fits
  have members := mem_compressedNextEntries compressed
  have count : nextLabelCount run = 1 :=
    countNextLabel_eq_one.2 ⟨label, isLabel, labelValid, one⟩
  have nonempty : entries.isEmpty = false := by
    obtain ⟨posting, member, _⟩ := hides.accepted
    rw [List.isEmpty_eq_false_iff]
    exact List.ne_nil_of_mem ((members _).2 (List.mem_map.2 ⟨posting, member, rfl⟩))
  have rejects : mayMatchCompressedVertex run target.terminalVertexSetFilter
      (nextLabelRange run).1 = false := by
    rw [nextLabelRange_one isLabel labelValid one, mayMatchCompressedVertex, hides.searched,
      compressed]
    dsimp only
    rw [nonempty, Bool.not_true, Bool.false_or, Bool.false_or, List.any_eq_false]
    intro vertexId inSet alike
    rw [Bool.and_eq_true, beq_iff_eq, List.contains_iff_mem, members] at alike
    exact unlike vertexId inSet alike.1 alike.2
  rw [entryMatchesCompositeTarget, count, rejects]
  simp

theorem rejected_of_range (hides : HidesOutsideRange target run) :
    entryMatchesCompositeTarget target run = false := by
  obtain ⟨posting, member, _⟩ := hides.accepted
  have nonempty := List.ne_nil_of_mem member
  have notZero : ¬(minNextVertexId run = 0 ∧ maxNextVertexId run = 0) := by
    rw [nextVertexRange_zero nonempty]
    obtain ⟨other, isOther, differs⟩ := hides.notZero
    exact fun zero => differs (zero other isOther)
  have rejects : entryMayMatchVertexSet target run = false := by
    obtain ⟨low, lowMember, isLow⟩ := minNextVertexId_mem nonempty
    obtain ⟨high, highMember, isHigh⟩ := maxNextVertexId_mem nonempty
    have outside : ¬(minNextVertexId run ≤ target.terminalVertexSetFilter.maxVertexId ∧
        target.terminalVertexSetFilter.minVertexId ≤ maxNextVertexId run) := by
      rintro ⟨least, greatest⟩
      rw [← isLow] at least
      rw [← isHigh] at greatest
      rcases hides.outside with below | above
      · exact Int64.not_le.2 (below high highMember) greatest
      · exact Int64.not_le.2 (above low lowMember) least
    have unmatched : (minNextVertexId run == 0 && maxNextVertexId run == 0) = false := by
      rw [Bool.eq_false_iff, Ne, Bool.and_eq_true, beq_iff_eq, beq_iff_eq]
      exact notZero
    have noRange : mayMatchVertexRange run target.terminalVertexSetFilter = false := by
      rw [mayMatchVertexRange, hides.rangeOnly.1, unmatched, Bool.not_true, Bool.false_or,
        Bool.false_or, Bool.eq_false_iff, Ne, Bool.and_eq_true, decide_eq_true_eq,
        decide_eq_true_eq]
      exact outside
    rw [entryMayMatchVertexSet, hides.rangeOnly.1, unmatched, noRange]
    rfl
  rw [entryMatchesCompositeTarget, rejects]
  simp

/-- A rejected entry has no accepted posting in its run, unless the entry hides what has no
label or is outside a range that the postings are not asked for. -/
theorem entryMatchesCompositeTarget_sound_iff (target : ScanTarget) (run : List MainPosting) :
    (entryMatchesCompositeTarget target run = false →
      ∀ posting ∈ run, target.accepts posting = false) ↔
        ¬ HidesUnlabelled target run ∧ ¬ HidesOutsideRange target run := by
  constructor
  · intro sound
    constructor
    · intro hides
      obtain ⟨posting, member, accepted, _⟩ := hides.accepted
      rw [sound (rejected_of_hides hides) posting member] at accepted
      cases accepted
    · intro hides
      obtain ⟨posting, member, accepted⟩ := hides.accepted
      rw [sound (rejected_of_range hides) posting member] at accepted
      cases accepted
  · rintro ⟨shown, inRange⟩ rejected posting member
    rw [Bool.eq_false_iff]
    intro accepted
    have passes : entryMatchesCompositeTarget target run = true := by
      simp only [entryMatchesCompositeTarget, entryMatchesTerminalLabel_of_accepts member accepted,
        entryMayMatchVertexSet_of_accepts inRange member accepted,
        entryLabelBloomMayMatch_of_accepts member accepted,
        compressed_of_accepts shown member accepted,
        entryMayMatchValueSummary_of_accepts member accepted,
        entryMayMatchValuePosting_of_accepts member accepted,
        mayMatchWideVertexBloom_of_accepts member accepted, Bool.and_true]
    rw [passes] at rejected
    cases rejected

/-- The next vertices 0.5 and 3.7 of a run, and a scan for the vertex 0.5 -/
def unlabelledRun : List MainPosting := [⟨⟨0, 1⟩, 1125899906842625, 5⟩,
  ⟨⟨0, 2⟩, 1125899906842626, 844424930131975⟩]

def vertexTarget (vertexId : GraphId) : ScanTarget :=
  ⟨0, ⟨none, true, [vertexId], true, vertexId, vertexId, false, fun _ other isVertex => by
    rw [List.mem_singleton.1 isVertex]
    exact ⟨Int64.le_refl _, Int64.le_refl _⟩, nofun⟩, none⟩

theorem entryMatchesCompositeTarget_rejects :
    ¬ (entryMatchesCompositeTarget (vertexTarget 5) unlabelledRun = false →
      ∀ posting ∈ unlabelledRun, (vertexTarget 5).accepts posting = false) := by
  intro sound
  have accepted : (vertexTarget 5).accepts ⟨⟨0, 1⟩, 1125899906842625, 5⟩ = true := by
    simp only [ScanTarget.accepts, ScanTarget.matchesTerminalVertexFilter, vertexTarget,
      VertexSetFilter.sortedContains]
    rw [sortedContainsBetween]
    decide
  have rejected : entryMatchesCompositeTarget (vertexTarget 5) unlabelledRun = false := by rfl
  rw [sound rejected _ List.mem_cons_self] at accepted
  cases accepted

/-- The target that `age_adjacency_debug_key_known_empty_range` sets: a range and no vertices -/
def rangeTarget (terminalLabelId : Int) (minVertexId maxVertexId : GraphId) : ScanTarget :=
  ⟨terminalLabelId, .ofRange (some (minVertexId, maxVertexId)), none⟩

/-- It takes a key with postings outside the range for an empty one: no posting is filtered. -/
theorem rangeTarget_hides {minVertexId maxVertexId : GraphId} {run : List MainPosting}
    (nonempty : run ≠ []) (above : ∀ posting ∈ run, maxVertexId < posting.nextVertexId)
    (positive : 0 ≤ maxVertexId) : HidesOutsideRange (rangeTarget 0 minVertexId maxVertexId) run := by
  obtain ⟨posting, member⟩ := List.exists_mem_of_ne_nil run nonempty
  refine ⟨⟨rfl, rfl, rfl⟩, ⟨posting, member, fun zero => ?_⟩, .inr above, posting, member, rfl⟩
  have after := above posting member
  rw [zero] at after
  exact Int64.not_le.2 after positive

end Entry

end Age.Adjacency
