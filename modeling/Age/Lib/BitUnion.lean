import Mathlib.Data.List.Basic

/-!
# Unions of bits

A summary of items is the union of the bits that each of them has.  What has all bits of an item
keeps them, and two summaries with a common item have a common bit if the item has one at all.
-/

namespace Age.BitUnion

section Folds

variable {α β : Type*} [OrOp α] [Std.Associative (α := α) (· ||| ·)]
  [Std.Commutative (α := α) (· ||| ·)]

/-- To add an item is to unite the summary with the bits of the item. -/
def Unites (add : α → β → α) (bits : β → α) : Prop :=
  ∀ summary item, add summary item = summary ||| bits item

variable {add : α → β → α} {bits : β → α}

theorem Unites.foldl_or (unites : Unites add bits) (items : List β) (summary more : α) :
    items.foldl add (summary ||| more) = items.foldl add summary ||| more := by
  induction items generalizing summary with
  | nil => rfl
  | cons item rest inductionHypothesis =>
      have swapped : summary ||| more ||| bits item = summary ||| bits item ||| more := by
        have left : summary ||| more ||| bits item = summary ||| (more ||| bits item) :=
          Std.Associative.assoc summary more (bits item)
        have middle : more ||| bits item = bits item ||| more :=
          Std.Commutative.comm more (bits item)
        have right : summary ||| bits item ||| more = summary ||| (bits item ||| more) :=
          Std.Associative.assoc summary (bits item) more
        rw [left, middle, right]
      rw [List.foldl_cons, List.foldl_cons, unites, unites, swapped, inductionHypothesis]

variable [Std.IdempotentOp (α := α) (· ||| ·)]

/-- The summary of a list has the bits of each of its items. -/
theorem Unites.foldl_absorbs (unites : Unites add bits) {items : List β} {item : β}
    (member : item ∈ items) (summary : α) :
    items.foldl add summary ||| bits item = items.foldl add summary := by
  induction items generalizing summary with
  | nil => cases member
  | cons first rest inductionHypothesis =>
      rw [List.foldl_cons]
      rcases List.mem_cons.1 member with rfl | later
      · have together : (rest.foldl add summary ||| bits item) ||| bits item =
            rest.foldl add summary ||| (bits item ||| bits item) :=
          Std.Associative.assoc _ (bits item) (bits item)
        have once : bits item ||| bits item = bits item := Std.IdempotentOp.idempotent (bits item)
        rw [unites, unites.foldl_or, together, once]
      · exact inductionHypothesis later _

end Folds

section Bits

theorem and_eq_of_or_eq {summary bits : Nat} (absorbs : summary ||| bits = summary) :
    summary &&& bits = bits := by
  refine Nat.eq_of_testBit_eq fun place => ?_
  have atPlace := congrArg (·.testBit place) absorbs
  simp only [Nat.testBit_or] at atPlace
  rw [Nat.testBit_and]
  revert atPlace
  cases summary.testBit place <;> cases bits.testBit place <;> simp

theorem and_ne_zero {left right bits : Nat} (inLeft : left ||| bits = left)
    (inRight : right ||| bits = right) (some : bits ≠ 0) : left &&& right ≠ 0 := by
  intro none
  apply some
  rw [← and_eq_of_or_eq inLeft, ← and_eq_of_or_eq inRight, ← Nat.and_assoc, none, Nat.zero_and]

theorem and_eq_of_or_eq64 {summary bits : UInt64} (absorbs : summary ||| bits = summary) :
    summary &&& bits = bits := by
  rw [← UInt64.toNat_inj] at absorbs ⊢
  rw [UInt64.toNat_or] at absorbs
  rw [UInt64.toNat_and]
  exact and_eq_of_or_eq absorbs

theorem and_ne_zero64 {left right bits : UInt64} (inLeft : left ||| bits = left)
    (inRight : right ||| bits = right) (some : bits ≠ 0) : left &&& right ≠ 0 := by
  intro none
  apply some
  rw [← and_eq_of_or_eq64 inLeft, ← and_eq_of_or_eq64 inRight, ← UInt64.and_assoc,
    none, UInt64.zero_and]

end Bits

end Age.BitUnion
