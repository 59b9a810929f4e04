import Age.Lib.Bytes

/-!
# Three-way comparators

Comparison functions in the style of C: a negative, zero or positive integer.
A comparator is lawful when it is the comparison of a linear order.
-/

namespace Lib

/-- The comparator decides a linear order whose equality is equality. -/
structure ThreeWay {α : Type*} (cmp : α → α → Int) : Prop where
  eq_zero_iff : ∀ a b, cmp a b = 0 ↔ a = b
  neg_iff_pos : ∀ a b, cmp a b < 0 ↔ 0 < cmp b a
  neg_trans : ∀ a b c, cmp a b < 0 → cmp b c < 0 → cmp a c < 0

/-- Keep the first result that decides. -/
def thenBy (first second : Int) : Int := if first ≠ 0 then first else second

@[simp]
theorem thenBy_zero (second : Int) : thenBy 0 second = second := rfl

theorem thenBy_of_ne {first : Int} (decided : first ≠ 0) (second : Int) :
    thenBy first second = first := if_pos decided

/-- The usual comparison of a linear order. -/
def compareBy {α : Type*} [LinearOrder α] (a b : α) : Int :=
  if a = b then 0 else if b < a then 1 else -1

/-- Lists in dictionary order, a proper initial part first. -/
def compareLists {α : Type*} (cmp : α → α → Int) : List α → List α → Int
  | [], [] => 0
  | [], _ :: _ => -1
  | _ :: _, [] => 1
  | a :: as, b :: bs => thenBy (cmp a b) (compareLists cmp as bs)

namespace ThreeWay

variable {α β : Type*} {cmp : α → α → Int}

theorem self (lawful : ThreeWay cmp) (a : α) : cmp a a = 0 :=
  (lawful.eq_zero_iff a a).mpr rfl

theorem pos_iff_neg (lawful : ThreeWay cmp) (a b : α) :
    0 < cmp a b ↔ cmp b a < 0 := (lawful.neg_iff_pos b a).symm

theorem ne_zero (lawful : ThreeWay cmp) {a b : α} (different : a ≠ b) :
    cmp a b ≠ 0 := fun equal => different ((lawful.eq_zero_iff a b).mp equal)

theorem compareBy [LinearOrder α] : ThreeWay (compareBy (α := α)) where
  eq_zero_iff a b := by
    unfold Lib.compareBy
    split_ifs <;> simp_all
  neg_iff_pos a b := by
    unfold Lib.compareBy
    rcases lt_trichotomy a b with less | equal | greater
    · simp [less.ne, less.ne', less.not_gt, less]
    · simp [equal]
    · simp [greater.ne, greater.ne', greater.not_gt, greater]
  neg_trans a b c := by
    unfold Lib.compareBy
    intro first second
    have ab : a < b := by
      by_contra notLess
      rcases eq_or_lt_of_le (not_lt.mp notLess) with equal | greater
      · simp [equal] at first
      · simp [greater, greater.ne'] at first
    have bc : b < c := by
      by_contra notLess
      rcases eq_or_lt_of_le (not_lt.mp notLess) with equal | greater
      · simp [equal] at second
      · simp [greater, greater.ne'] at second
    have ac := ab.trans bc
    simp [ac.ne, ac.not_gt]

/-- Comparing by an injective key. -/
theorem comap (lawful : ThreeWay cmp) (key : β → α)
    (injective : Function.Injective key) :
    ThreeWay fun a b => cmp (key a) (key b) where
  eq_zero_iff a b :=
    (lawful.eq_zero_iff (key a) (key b)).trans injective.eq_iff
  neg_iff_pos a b := lawful.neg_iff_pos (key a) (key b)
  neg_trans a b c := lawful.neg_trans (key a) (key b) (key c)

/-- Reducing the results of a comparator to -1, 0 and 1. -/
theorem normalize (lawful : ThreeWay cmp) :
    ThreeWay fun a b => if 0 < cmp a b then 1 else if cmp a b < 0 then -1 else 0 where
  eq_zero_iff a b := by
    rw [← lawful.eq_zero_iff a b]
    split_ifs <;> simp <;> omega
  neg_iff_pos a b := by
    have forward := lawful.neg_iff_pos a b
    have backward := lawful.neg_iff_pos b a
    split_ifs <;> omega
  neg_trans a b c := by
    have trans := lawful.neg_trans a b c
    split_ifs <;> omega

/-- Comparing pairs, the first component first. -/
theorem prod (first : ThreeWay cmp) {cmp' : β → β → Int}
    (second : ThreeWay cmp') :
    ThreeWay fun a b : α × β => thenBy (cmp a.1 b.1) (cmp' a.2 b.2) where
  eq_zero_iff a b := by
    by_cases same : a.1 = b.1
    · simp [same, first.self, second.eq_zero_iff, Prod.ext_iff]
    · simp [thenBy_of_ne (first.ne_zero same), first.ne_zero same, same,
        Prod.ext_iff]
  neg_iff_pos a b := by
    by_cases same : a.1 = b.1
    · simp [same, first.self, second.neg_iff_pos]
    · rw [thenBy_of_ne (first.ne_zero same),
        thenBy_of_ne (first.ne_zero (Ne.symm same)), first.neg_iff_pos]
  neg_trans a b c := by
    intro less less'
    by_cases ab : a.1 = b.1 <;> by_cases bc : b.1 = c.1
    · simp only [ab, bc, first.self, thenBy_zero] at less less' ⊢
      exact second.neg_trans _ _ _ less less'
    · rw [thenBy_of_ne (first.ne_zero bc)] at less'
      rwa [ab, thenBy_of_ne (first.ne_zero bc)]
    · rw [thenBy_of_ne (first.ne_zero ab)] at less
      rwa [← bc, thenBy_of_ne (first.ne_zero ab)]
    · rw [thenBy_of_ne (first.ne_zero ab)] at less
      rw [thenBy_of_ne (first.ne_zero bc)] at less'
      have trans := first.neg_trans _ _ _ less less'
      rwa [thenBy_of_ne (by omega)]

/-- Comparing lists in dictionary order. -/
theorem lists (lawful : ThreeWay cmp) : ThreeWay (compareLists cmp) where
  eq_zero_iff a b := by
    induction a generalizing b with
    | nil => cases b <;> simp [compareLists]
    | cons x xs inductionHypothesis =>
        cases b with
        | nil => simp [compareLists]
        | cons y ys =>
            by_cases same : x = y
            · simp [compareLists, same, lawful.self, inductionHypothesis]
            · simp [compareLists, thenBy_of_ne (lawful.ne_zero same),
                lawful.ne_zero same, same]
  neg_iff_pos a b := by
    induction a generalizing b with
    | nil => cases b <;> simp [compareLists]
    | cons x xs inductionHypothesis =>
        cases b with
        | nil => simp [compareLists]
        | cons y ys =>
            by_cases same : x = y
            · simp [compareLists, same, lawful.self, inductionHypothesis]
            · simp [compareLists, thenBy_of_ne (lawful.ne_zero same),
                thenBy_of_ne (lawful.ne_zero (Ne.symm same)),
                lawful.neg_iff_pos]
  neg_trans a b c := by
    induction a generalizing b c with
    | nil => cases b <;> cases c <;> simp [compareLists]
    | cons x xs inductionHypothesis =>
        cases b with
        | nil => simp [compareLists]
        | cons y ys =>
            cases c with
            | nil => simp [compareLists]
            | cons z zs =>
                simp only [compareLists]
                by_cases xy : x = y <;> by_cases yz : y = z
                · simp only [xy, yz, lawful.self, thenBy_zero]
                  exact inductionHypothesis ys zs
                · intro _ less
                  simpa only [xy, thenBy_of_ne (lawful.ne_zero yz)] using less
                · intro less _
                  simpa only [← yz, thenBy_of_ne (lawful.ne_zero xy)] using less
                · rw [thenBy_of_ne (lawful.ne_zero xy),
                    thenBy_of_ne (lawful.ne_zero yz)]
                  intro less less'
                  have trans := lawful.neg_trans _ _ _ less less'
                  rwa [thenBy_of_ne (by omega)]

end ThreeWay

/-- Bytes in dictionary order, as `memcmp` compares equally long regions. -/
def memcmp : Bytes → Bytes → Int :=
  compareLists fun a b => compareBy a.toNat b.toNat

theorem threeWay_memcmp : ThreeWay memcmp :=
  ((ThreeWay.compareBy (α := Nat)).comap UInt8.toNat
    fun _ _ same => UInt8.toNat_inj.mp same).lists

end Lib
