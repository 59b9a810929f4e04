import Mathlib.Data.List.Perm.Basic
import Mathlib.Data.List.Sections
import Mathlib.Data.Multiset.Bind
import Age.Lib.Backtrack

/-!
# One entry of each list

The sections of some lists do not depend on the order in which the lists are gone through, and
a search that goes one list deeper on each level gives them out.
-/

namespace Age.Backtrack

variable {α ι ν : Type}

section Sections

theorem sections_cons (list : List α) (lists : List (List α)) :
    (list :: lists).sections =
      lists.sections.flatMap fun choice => list.map fun entry => entry :: choice :=
  rfl

theorem flatMap_of_filter (keep : α → Bool) (list : List α) (next : α → List ν) :
    (list.filter keep).flatMap next = list.flatMap fun entry =>
      if keep entry then next entry else [] := by
  induction list with
  | nil => rfl
  | cons entry rest ih =>
      cases isKept : keep entry with
      | true => simp [isKept, ih]
      | false => simp [isKept, ih]

theorem sections_perm {lists others : List (List α)} (perm : List.Forall₂ List.Perm lists others) :
    lists.sections.Perm others.sections := by
  induction perm with
  | nil => exact .refl _
  | cons first _ ih =>
      rw [sections_cons, sections_cons]
      exact ih.flatMap fun choice _ => first.map _

/-- Filtered lists have the sections whose entries are all kept. -/
theorem sections_filter (items : List ι) (listOf : ι → List α) (keep : ι → α → Bool) :
    (items.map fun item => (listOf item).filter (keep item)).sections =
      (items.map listOf).sections.filter fun choice =>
        (items.zip choice).all fun entry => keep entry.1 entry.2 := by
  induction items with
  | nil => rfl
  | cons item rest ih =>
      rw [List.map_cons, List.map_cons, sections_cons, sections_cons, ih, List.filter_flatMap,
        flatMap_of_filter]
      refine List.flatMap_congr fun choice _ => ?_
      rw [List.filter_map]
      cases isKept : (rest.zip choice).all fun entry => keep entry.1 entry.2 with
      | true =>
          rw [if_pos rfl]
          refine congrArg _ (List.filter_congr fun entry _ => ?_)
          simp [isKept]
      | false =>
          rw [if_neg Bool.false_ne_true, eq_comm, List.map_eq_nil_iff, List.filter_eq_nil_iff]
          intro entry _
          simp [isKept]

theorem flatMap_map_comm (first : List α) (second : List ι) (next : α → ι → ν) :
    (first.flatMap fun a => second.map fun b => next a b).Perm
      (second.flatMap fun b => first.map fun a => next a b) := by
  rw [← Multiset.coe_eq_coe, ← Multiset.coe_bind, ← Multiset.coe_bind]
  exact Multiset.bind_map_comm (first : Multiset α) (second : Multiset ι)

/-- The sections of lists that are numbered, as functions of the numbers, are the same in any
order of the numbers. -/
theorem sections_lookup_perm {order other : List Nat} (perm : order.Perm other)
    (distinct : order.Nodup) (listOf : Nat → List α) :
    ((order.map listOf).sections.map fun choice place => (order.zip choice).lookup place).Perm
      ((other.map listOf).sections.map fun choice place => (other.zip choice).lookup place) := by
  have consEq (number : Nat) (rest : List Nat) :
      (((number :: rest).map listOf).sections.map fun choice place =>
          ((number :: rest).zip choice).lookup place) =
        ((rest.map listOf).sections.map fun choice place => (rest.zip choice).lookup place).flatMap
          fun assigned => (listOf number).map fun entry place =>
            if place = number then some entry else assigned place := by
    rw [List.map_cons, sections_cons, List.map_flatMap, List.flatMap_map]
    refine List.flatMap_congr fun choice _ => ?_
    rw [List.map_map]
    refine List.map_congr_left fun entry _ => ?_
    funext place
    simp only [Function.comp_apply, List.zip_cons_cons, List.lookup_cons]
    by_cases same : place = number
    · simp [same]
    · rw [if_neg same, beq_false_of_ne same]
  induction perm with
  | nil => exact .refl _
  | cons number _ ih =>
      rw [consEq, consEq]
      exact (ih (List.nodup_cons.1 distinct).2).flatMap_right _
  | swap number next rest =>
      rw [consEq, consEq, consEq, consEq, List.flatMap_assoc, List.flatMap_assoc]
      have different : next ≠ number := fun same =>
        (List.nodup_cons.1 distinct).1 (same ▸ List.mem_cons_self)
      refine List.Perm.flatMap_left _ fun assigned _ => ?_
      rw [List.flatMap_map, List.flatMap_map]
      refine (flatMap_map_comm (listOf number) (listOf next) _).trans (.of_eq ?_)
      refine List.flatMap_congr fun entry _ => List.map_congr_left fun earlier _ => ?_
      funext place
      by_cases isNext : place = next
      · subst isNext
        simp [different]
      · by_cases isNumber : place = number
        · simp [isNumber, different.symm]
        · simp [isNext, isNumber]
  | trans first _ ihFirst ihSecond =>
      exact (ihFirst distinct).trans (ihSecond (first.nodup_iff.1 distinct))

/-- Filters that exclude each other split a list. -/
theorem flatMap_filter_perm (values : List ν) (distinct : values.Nodup) (list : List α)
    (holds : ν → α → Bool) (exclusive : ∀ entry ∈ list, ∀ first ∈ values, ∀ second ∈ values,
      holds first entry = true → holds second entry = true → first = second) :
    (values.flatMap fun value => list.filter (holds value)).Perm
      (list.filter fun entry => values.any fun value => holds value entry) := by
  induction values with
  | nil => simp
  | cons value rest ih =>
      obtain ⟨fresh, distinctRest⟩ := List.nodup_cons.1 distinct
      rw [List.flatMap_cons]
      refine ((ih distinctRest fun entry isEntry first isFirst second isSecond =>
        exclusive entry isEntry first (List.mem_cons_of_mem value isFirst) second
          (List.mem_cons_of_mem value isSecond)).append_left _).trans ?_
      clear ih distinct
      induction list with
      | nil => exact .refl _
      | cons entry later ih =>
          have exclusiveLater := fun other isOther =>
            exclusive other (List.mem_cons_of_mem entry isOther)
          have step := ih exclusiveLater
          simp only [List.any_cons] at step ⊢
          cases first : holds value entry with
          | true =>
              have noRest : (rest.any fun value => holds value entry) = false := by
                rw [List.any_eq_false]
                intro other isOther isHeld
                have same := exclusive entry List.mem_cons_self value List.mem_cons_self other
                  (List.mem_cons_of_mem value isOther) first isHeld
                exact fresh (same ▸ isOther)
              rw [List.filter_cons_of_pos first, List.filter_cons_of_neg (by simp [noRest]),
                List.filter_cons_of_pos (by simp [first]), List.cons_append]
              exact step.cons _
          | false =>
              rw [List.filter_cons_of_neg (by simp [first])]
              cases second : rest.any fun value => holds value entry with
              | true =>
                  simp only [List.filter_cons, first, second, Bool.false_or, if_true]
                  exact List.perm_middle.trans (step.cons _)
              | false =>
                  rw [List.filter_cons_of_neg (by simp [second]),
                    List.filter_cons_of_neg (by simp [first, second])]
                  exact step

end Sections

section Leaves

variable {Leaf : Type}

/-- Each entry may follow those before it. -/
def Follows (options : List α → List α) : List α → List α → Prop
  | _, [] => True
  | chosen, choice :: rest => choice ∈ options chosen ∧ Follows options (chosen ++ [choice]) rest

theorem follows_iff {options : List α → List α} {chosen rest : List α} :
    Follows options chosen rest ↔ ∀ place choice, rest[place]? = some choice →
      choice ∈ options (chosen ++ rest.take place) := by
  induction rest generalizing chosen with
  | nil => simp [Follows]
  | cons first rest ih =>
      rw [Follows, ih]
      constructor
      · rintro ⟨atFirst, later⟩ place choice found
        cases place with
        | zero =>
            obtain rfl : first = choice := by simpa using found
            simpa using atFirst
        | succ place => simpa using later place choice (by simpa using found)
      · intro all
        exact ⟨by simpa using all 0 first rfl, fun place choice found => by
          simpa using all (place + 1) choice (by simpa using found)⟩

theorem leaves_filterMap (options : List α → List α) (leaf : List α → Option Leaf) (levels : Nat)
    (chosen : List α) :
    leaves options leaf levels chosen = (leaves options some levels chosen).filterMap leaf := by
  induction levels generalizing chosen with
  | zero => cases found : leaf chosen <;> simp [leaves, found]
  | succ levels ih =>
      rw [leaves, leaves, List.filterMap_flatMap]
      exact List.flatMap_congr fun choice _ => ih _

theorem mem_leaves {options : List α → List α} {levels : Nat} {chosen found : List α} :
    found ∈ leaves options some levels chosen ↔
      ∃ rest, found = chosen ++ rest ∧ rest.length = levels ∧ Follows options chosen rest := by
  induction levels generalizing chosen with
  | zero =>
      constructor
      · intro inside
        exact ⟨[], by simpa [leaves] using inside, rfl, trivial⟩
      · rintro ⟨rest, rfl, empty, _⟩
        simp [leaves, List.length_eq_zero_iff.1 empty]
  | succ levels ih =>
      rw [leaves, List.mem_flatMap]
      constructor
      · rintro ⟨choice, isOption, inside⟩
        obtain ⟨rest, rfl, length, follows⟩ := ih.1 inside
        exact ⟨choice :: rest, by simp, by simp [length], isOption, follows⟩
      · rintro ⟨rest, rfl, length, follows⟩
        cases rest with
        | nil => simp at length
        | cons choice rest =>
            exact ⟨choice, follows.1, ih.2 ⟨rest, by simp, by simpa using length, follows.2⟩⟩

theorem nodup_leaves {options : List α → List α} (distinct : ∀ chosen, (options chosen).Nodup)
    (levels : Nat) (chosen : List α) : (leaves options some levels chosen).Nodup := by
  induction levels generalizing chosen with
  | zero => simp [leaves]
  | succ levels ih =>
      rw [leaves, List.nodup_flatMap]
      refine ⟨fun choice _ => ih _, (distinct chosen).imp fun {first second} different => ?_⟩
      intro found isFirst isSecond
      obtain ⟨rest, rfl, _⟩ := mem_leaves.1 isFirst
      obtain ⟨other, same, _⟩ := mem_leaves.1 isSecond
      simp only [List.append_assoc, List.singleton_append, List.append_cancel_left_eq,
        List.cons.injEq] at same
      exact different same.1

/-- Each entry is allowed after those before it. -/
def allowed (ok : List α → α → Bool) : List α → List α → Bool
  | _, [] => true
  | chosen, choice :: rest => ok chosen choice && allowed ok (chosen ++ [choice]) rest

theorem allowed_iff {ok : List α → α → Bool} {chosen rest : List α} :
    allowed ok chosen rest = true ↔ ∀ place choice, rest[place]? = some choice →
      ok (chosen ++ rest.take place) choice = true := by
  induction rest generalizing chosen with
  | nil => simp [allowed]
  | cons first rest ih =>
      rw [allowed, Bool.and_eq_true, ih]
      constructor
      · rintro ⟨atFirst, later⟩ place choice found
        cases place with
        | zero =>
            obtain rfl : first = choice := by simpa using found
            simpa using atFirst
        | succ place => simpa using later place choice (by simpa using found)
      · intro all
        exact ⟨by simpa using all 0 first rfl, fun place choice found => by
          simpa using all (place + 1) choice (by simpa using found)⟩

/-- A search that goes through one list after the other gives out the allowed sections. -/
theorem leaves_sections (listAt : Nat → List α) (ok : List α → α → Bool) (levels : Nat)
    (chosen : List α) :
    (leaves (fun before => (listAt before.length).filter (ok before)) some levels chosen).Perm
      ((((List.range' chosen.length levels).map listAt).sections.filter (allowed ok chosen)).map
        (chosen ++ ·)) := by
  induction levels generalizing chosen with
  | zero => simp [leaves, List.filter_cons, allowed]
  | succ levels ih =>
      rw [leaves, List.range'_succ, List.map_cons, sections_cons]
      refine (List.Perm.flatMap_left _ fun choice _ => ih (chosen ++ [choice])).trans ?_
      simp only [List.length_append, List.length_singleton]
      rw [flatMap_of_filter]
      generalize ((List.range' (chosen.length + 1) levels).map listAt).sections = later
      induction later with
      | nil => simp
      | cons rest more ihMore =>
          rw [List.flatMap_cons, List.filter_append, List.map_append]
          refine List.Perm.trans ?_ (ihMore.append_left _)
          generalize listAt chosen.length = list
          induction list with
          | nil => simp
          | cons choice list ihList =>
              rw [List.flatMap_cons, List.flatMap_cons, List.map_cons]
              cases isOk : ok chosen choice with
              | false =>
                  have isNot : allowed ok chosen (choice :: rest) = false := by
                    simp [allowed, isOk]
                  rw [@List.filter_cons_of_neg _ (allowed ok chosen) _ _ (by simp [isNot])]
                  simp only [Bool.false_eq_true, if_false, List.nil_append]
                  exact ihList
              | true =>
                  simp only [if_true]
                  cases isAllowed : allowed ok (chosen ++ [choice]) rest with
                  | false =>
                      have isNot : allowed ok chosen (choice :: rest) = false := by
                        simp [allowed, isOk, isAllowed]
                      rw [@List.filter_cons_of_neg _ (allowed ok chosen) _ _ (by simp [isNot]),
                        List.filter_cons_of_neg (by simp [isAllowed])]
                      exact (ihList.append_left _).trans (List.perm_append_comm_assoc _ _ _)
                  | true =>
                      have isSection : allowed ok chosen (choice :: rest) = true := by
                        simp [allowed, isOk, isAllowed]
                      rw [List.filter_cons_of_pos isSection, List.filter_cons_of_pos isAllowed,
                        List.map_cons, List.map_cons, List.append_cons chosen choice rest,
                        List.cons_append, List.cons_append]
                      exact ((ihList.append_left _).trans
                        (List.perm_append_comm_assoc _ _ _)).cons _

/-- Runs that each end with enough fuel end together. -/
theorem mapM_enough {α β : Type} {run : Nat → α → Option β} {result : α → β} (list : List α)
    (ends : ∀ entry ∈ list, ∃ enough, ∀ fuel, enough ≤ fuel → run fuel entry = some (result entry)) :
    ∃ enough, ∀ fuel, enough ≤ fuel → list.mapM (run fuel) = some (list.map result) := by
  induction list with
  | nil => exact ⟨0, fun _ _ => rfl⟩
  | cons entry rest ih =>
      obtain ⟨first, endsFirst⟩ := ends entry List.mem_cons_self
      obtain ⟨later, endsLater⟩ := ih fun other isOther =>
        ends other (List.mem_cons_of_mem entry isOther)
      refine ⟨max first later, fun fuel bound => ?_⟩
      rw [List.mapM_cons, endsFirst fuel (le_of_max_le_left bound),
        endsLater fuel (le_of_max_le_right bound)]
      rfl

end Leaves

end Age.Backtrack
