import Mathlib.Data.List.Basic

/-!
# Writing to the front of the list that is read

A loop reads a list and writes what it keeps to the front of the same list. What has been written
never passes what has been read, so that the rest of the list is the original one.
-/

namespace Age.InPlace

variable {α : Type} {original current emitted : List α} {written read : Nat}

/-- The front of `current` is what has been emitted, and from `read` on it is `original`. -/
structure Overwritten (original current emitted : List α) (written read : Nat) : Prop where
  length : current.length = original.length
  count : written = emitted.length
  written_le : written ≤ read
  front : current.take written = emitted
  rest : current.drop read = original.drop read

theorem Overwritten.start (original : List α) : Overwritten original original [] 0 0 :=
  ⟨rfl, rfl, Nat.le_refl 0, rfl, rfl⟩

theorem Overwritten.getElem? (overwritten : Overwritten original current emitted written read)
    {place : Nat} (isRest : read ≤ place) : current[place]? = original[place]? := by
  obtain ⟨more, rfl⟩ := Nat.exists_eq_add_of_le isRest
  rw [← List.getElem?_drop, overwritten.rest, List.getElem?_drop]

/-- The value that was emitted last -/
theorem Overwritten.last {last : α}
    (overwritten : Overwritten original current (emitted ++ [last]) written read) :
    current[written - 1]? = some last := by
  have count := overwritten.count
  rw [List.length_append, List.length_singleton] at count
  have front := overwritten.front
  rw [count] at front ⊢
  rw [Nat.add_sub_cancel, ← List.getElem?_take_of_lt (Nat.lt_add_one emitted.length), front]
  exact List.getElem?_concat_length

/-- Reading on, with nothing emitted -/
theorem Overwritten.skip (overwritten : Overwritten original current emitted written read)
    {next : Nat} (onward : read ≤ next) :
    Overwritten original current emitted written next := by
  have bound := Nat.le_trans overwritten.written_le onward
  refine ⟨overwritten.length, overwritten.count, bound, overwritten.front, ?_⟩
  obtain ⟨more, rfl⟩ := Nat.exists_eq_add_of_le onward
  rw [← List.drop_drop, overwritten.rest, List.drop_drop]

/-- The element that is read next -/
theorem Overwritten.drop_eq_cons (overwritten : Overwritten original current emitted written read)
    (inside : read < current.length) :
    original.drop read = current[read] :: original.drop (read + 1) := by
  rw [← overwritten.rest, ← (overwritten.skip (Nat.le_succ read)).rest]
  exact List.drop_eq_getElem_cons inside

/-- Emitting a value, with one element read -/
theorem Overwritten.write (overwritten : Overwritten original current emitted written read)
    (value : α) (inside : read < current.length) :
    Overwritten original (current.set written value) (emitted ++ [value]) (written + 1)
      (read + 1) := by
  have bound := overwritten.written_le
  refine ⟨?_, ?_, Nat.succ_le_succ bound, ?_, ?_⟩
  · rw [List.length_set]
    exact overwritten.length
  · rw [List.length_append, overwritten.count]
    rfl
  · rw [List.take_add_one, List.take_set_of_le (Nat.le_refl written), overwritten.front,
      List.getElem?_set_self (Nat.lt_of_le_of_lt bound inside)]
    rfl
  · rw [List.drop_set_of_lt (Nat.lt_succ_of_le bound)]
    exact (overwritten.skip (Nat.le_succ read)).rest

/-- A loop leaves what it has kept in the front of a list of `length` elements, with its count. -/
structure Leaves (length : Nat) (kept : List α) (result : List α × Nat) : Prop where
  length : result.1.length = length
  count : result.2 = kept.length
  front : result.1.take result.2 = kept

theorem Overwritten.leaves (overwritten : Overwritten original current emitted written read) :
    Leaves original.length emitted (current, written) :=
  ⟨overwritten.length, overwritten.count, overwritten.front⟩

end Age.InPlace
