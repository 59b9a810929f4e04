import Mathlib.Data.List.Basic
import Mathlib.Tactic.SplitIfs

/-!
# Backtracking over levels

A search chooses one option on each of its levels.  It keeps the options that are left on
every level it has opened, goes on to the next level after a choice, and back when a level
has no option left.  A choice on the last level is a leaf, which may be given out.  Opening a
level and visiting a leaf may use a store; when what they return does not depend on it, the
search gives out the leaves of a tree.
-/

namespace Age.Backtrack

variable {Choice Store Leaf : Type}

/-- The choices so far, and the options left on the opened levels, the deepest first -/
structure State (Choice Store : Type) where
  chosen : List Choice
  levels : List (List Choice)
  store : Store

/-- How a search opens the level after some choices, and visits a leaf -/
structure Search (Choice Store Leaf : Type) where
  depth : Nat
  openLevel : Store → List Choice → List Choice × Store
  visit : Store → List Choice → Option Leaf × Store

variable (search : Search Choice Store Leaf)

/-- One turn of the loop, with the leaf that it gives out; `none` at the end. -/
def step (state : State Choice Store) : Option (Option Leaf × State Choice Store) :=
  match state.levels with
  | [] => none
  | [] :: outer => some (none, ⟨state.chosen.dropLast, outer, state.store⟩)
  | (choice :: rest) :: outer =>
      let chosen := state.chosen ++ [choice]
      if outer.length + 1 = search.depth then
        let (leaf, store) := search.visit state.store chosen
        some (leaf, ⟨state.chosen, rest :: outer, store⟩)
      else
        let (options, store) := search.openLevel state.store chosen
        some (none, ⟨chosen, options :: rest :: outer, store⟩)

/-- All leaves from a state on; `none` when the fuel ends first. -/
def run : Nat → State Choice Store → Option (List Leaf)
  | 0, _ => none
  | fuel + 1, state =>
      match step search state with
      | none => some []
      | some (leaf, next) => (run fuel next).map (leaf.toList ++ ·)

/-- The search that starts by opening its first level -/
def start (store : Store) : State Choice Store :=
  let (options, store) := search.openLevel store []
  ⟨[], [options], store⟩

/-- The leaves below some choices, when `levels` more are to be made -/
def leaves (options : List Choice → List Choice) (leaf : List Choice → Option Leaf) :
    Nat → List Choice → List Leaf
  | 0, chosen => (leaf chosen).toList
  | levels + 1, chosen =>
      (options chosen).flatMap fun choice => leaves options leaf levels (chosen ++ [choice])

/-- Whatever the store holds, the search sees the same options and leaves. -/
structure Lawful (options : List Choice → List Choice) (leaf : List Choice → Option Leaf)
    (inv : Store → Prop) : Prop where
  openLevel : ∀ store, inv store → ∀ chosen, (search.openLevel store chosen).1 = options chosen ∧
    inv (search.openLevel store chosen).2
  visit : ∀ store, inv store → ∀ chosen, (search.visit store chosen).1 = leaf chosen ∧
    inv (search.visit store chosen).2

variable {search}

theorem run_step {state next : State Choice Store} {leaf : Option Leaf}
    (steps : step search state = some (leaf, next)) {turns : Nat} {after : State Choice Store}
    {given : List Leaf}
    (ran : ∀ fuel, run search (turns + fuel) next = (run search fuel after).map (given ++ ·))
    (fuel : Nat) :
    run search (turns + 1 + fuel) state =
      (run search fuel after).map ((leaf.toList ++ given) ++ ·) := by
  rw [Nat.add_right_comm, run, steps]
  dsimp only
  rw [ran, Option.map_map]
  congr 1
  funext later
  exact (List.append_assoc _ _ _).symm

/-- The options left on a level are searched, and the level is left. -/
theorem run_level {options : List Choice → List Choice} {leaf : List Choice → Option Leaf}
    {inv : Store → Prop} (lawful : Lawful search options leaf inv) {below : Nat}
    {outer : List (List Choice)} (atDepth : outer.length + 1 + below = search.depth)
    (left : List Choice) (chosen : List Choice) {store : Store} (holds : inv store) :
    ∃ turns later, inv later ∧ ∀ fuel,
      run search (turns + fuel) ⟨chosen, left :: outer, store⟩ =
        (run search fuel ⟨chosen.dropLast, outer, later⟩).map
          ((left.flatMap fun choice => leaves options leaf below (chosen ++ [choice])) ++ ·) := by
  induction below generalizing outer left chosen store with
  | zero =>
      induction left generalizing store with
      | nil =>
          refine ⟨1, store, holds, fun fuel => ?_⟩
          have pop : step search ⟨chosen, [] :: outer, store⟩ =
              some (none, ⟨chosen.dropLast, outer, store⟩) := rfl
          exact @run_step _ _ _ search _ _ _ pop 0 _ [] (fun fuel => by simp) fuel
      | cons choice rest ih =>
          obtain ⟨same, holdsNext⟩ := lawful.visit store holds (chosen ++ [choice])
          obtain ⟨turns, later, holdsLater, ran⟩ := ih holdsNext
          refine ⟨turns + 1, later, holdsLater, fun fuel => ?_⟩
          have visited : step search ⟨chosen, (choice :: rest) :: outer, store⟩ =
              some (leaf (chosen ++ [choice]), ⟨chosen, rest :: outer,
                (search.visit store (chosen ++ [choice])).2⟩) := by
            rw [← same]
            exact if_pos (by simpa using atDepth)
          exact run_step visited ran fuel
  | succ below ihBelow =>
      induction left generalizing store with
      | nil =>
          refine ⟨1, store, holds, fun fuel => ?_⟩
          have pop : step search ⟨chosen, [] :: outer, store⟩ =
              some (none, ⟨chosen.dropLast, outer, store⟩) := rfl
          exact @run_step _ _ _ search _ _ _ pop 0 _ [] (fun fuel => by simp) fuel
      | cons choice rest ih =>
          obtain ⟨same, holdsOpen⟩ := lawful.openLevel store holds (chosen ++ [choice])
          obtain ⟨turnsBelow, middle, holdsMiddle, ranBelow⟩ := @ihBelow (rest :: outer)
            (by rw [List.length_cons]; omega) (options (chosen ++ [choice])) (chosen ++ [choice])
            _ holdsOpen
          obtain ⟨turns, later, holdsLater, ran⟩ := ih holdsMiddle
          refine ⟨turnsBelow + turns + 1, later, holdsLater, fun fuel => ?_⟩
          have opened : step search ⟨chosen, (choice :: rest) :: outer, store⟩ =
              some (none, ⟨chosen ++ [choice], options (chosen ++ [choice]) :: rest :: outer,
                (search.openLevel store (chosen ++ [choice])).2⟩) := by
            rw [← same]
            exact if_neg (by omega)
          refine @run_step _ _ _ search _ _ _ opened (turnsBelow + turns)
            ⟨chosen.dropLast, outer, later⟩ ((choice :: rest).flatMap fun other =>
              leaves options leaf (below + 1) (chosen ++ [other])) (fun fuel => ?_) fuel
          rw [Nat.add_assoc, ranBelow, List.dropLast_concat, ran, Option.map_map]
          congr 1
          funext given
          simp [leaves]

/-- With enough fuel the search gives out the leaves of the tree. -/
theorem run_start {options : List Choice → List Choice} {leaf : List Choice → Option Leaf}
    {inv : Store → Prop} (lawful : Lawful search options leaf inv) {below : Nat}
    (atDepth : below + 1 = search.depth) {store : Store} (holds : inv store) :
    ∃ enough, ∀ fuel, enough ≤ fuel →
      run search fuel (start search store) = some (leaves options leaf (below + 1) []) := by
  obtain ⟨same, holdsOpen⟩ := lawful.openLevel store holds []
  obtain ⟨turns, later, _, ran⟩ := @run_level _ _ _ search options leaf inv lawful below []
    (by simpa [Nat.add_comm] using atDepth) (options []) [] _ holdsOpen
  refine ⟨turns + 1, fun fuel bound => ?_⟩
  obtain ⟨more, rfl⟩ := Nat.exists_eq_add_of_le bound
  have started : start search store = ⟨[], [options []], (search.openLevel store []).2⟩ := by
    rw [← same]
    rfl
  rw [started, Nat.add_assoc, ran, Nat.add_comm 1 more]
  simp [run, step, leaves]

end Age.Backtrack
