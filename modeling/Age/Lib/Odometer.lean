import Age.Lib.Choices

/-!
# Enumerators that go on from call to call

An enumerator keeps an index for each of some factors.  It looks for the next index of a factor,
goes on to the factor after it, and back when the factor has no index left.  A call returns as
soon as every factor has an index, and the next call goes on from there.  Together the calls give
out the vectors of a tree.
-/

namespace Age.Odometer

open Backtrack

variable {State Out : Type}

/-- How a turn of the loop ends: at a factor, with a full vector, or before the first factor -/
inductive Turn (State : Type) where
  | goto (depth : Nat) (state : State)
  | emit (state : State)
  | finish (state : State)

/-- The loop of one call; `none` when the fuel ends first. -/
def call (turn : Nat → State → Turn State) : (fuel depth : Nat) → State → Option (Bool × State)
  | 0, _, _ => none
  | fuel + 1, depth, state =>
      match turn depth state with
      | .goto depth state => call turn fuel depth state
      | .emit state => some (true, state)
      | .finish state => some (false, state)

/-- What is read after each call, up to the first that returns false -/
def outputs (next : State → Option (Bool × State)) (read : State → Out) :
    (calls : Nat) → State → Option (List Out)
  | 0, _ => none
  | calls + 1, state =>
      match next state with
      | none => none
      | some (false, _) => some []
      | some (true, state) => (outputs next read calls state).map (read state :: ·)

/-- The loops of all calls as one -/
def drain (turn : Nat → State → Turn State) (read : State → Out) (last : Nat) :
    (fuel depth : Nat) → State → Option (List Out)
  | 0, _, _ => none
  | fuel + 1, depth, state =>
      match turn depth state with
      | .goto depth state => drain turn read last fuel depth state
      | .emit state => (drain turn read last fuel last state).map (read state :: ·)
      | .finish _ => some []

section Untried

variable (count : Nat → Nat) (ok : List Nat → Nat → Bool)

/-- The first index of a factor that goes with those before it -/
def firstFrom (chosen : List Nat) (next : Nat) : Option Nat :=
  (List.range' next (count chosen.length - next)).find? (ok chosen)

/-- The indexes of a factor that are left -/
def untried (chosen : List Nat) (next : Nat) : List Nat :=
  (List.range' next (count chosen.length - next)).filter (ok chosen)

/-- The indexes that a factor may have after those before it -/
def options (chosen : List Nat) : List Nat := (List.range (count chosen.length)).filter (ok chosen)

/-- What is left on the factors before the one at hand, the last of them first -/
inductive Levels : List Nat → List (List Nat) → Prop where
  | nil : Levels [] []
  | snoc {chosen outer} (index : Nat) (levels : Levels chosen outer) :
      Levels (chosen ++ [index]) (untried count ok chosen (index + 1) :: outer)

variable {count ok} {chosen : List Nat} {next index : Nat}

theorem untried_zero (chosen : List Nat) : untried count ok chosen 0 = options count ok chosen := by
  rw [untried, options, List.range_eq_range', Nat.sub_zero]

theorem untried_of_none (none : firstFrom count ok chosen next = none) :
    untried count ok chosen next = [] :=
  List.filter_eq_nil_iff.2 (List.find?_eq_none.1 none)

theorem firstFrom_succ (here : next < count chosen.length) :
    firstFrom count ok chosen next =
      if ok chosen next then some next else firstFrom count ok chosen (next + 1) := by
  obtain ⟨less, isLess⟩ := Nat.exists_eq_add_of_lt here
  rw [firstFrom, firstFrom, isLess, show next + less + 1 - next = less + 1 by omega,
    show next + less + 1 - (next + 1) = less by omega, List.range'_succ, List.find?_cons]
  cases ok chosen next <;> rfl

theorem firstFrom_none (done : count chosen.length ≤ next) :
    firstFrom count ok chosen next = none := by
  rw [firstFrom, Nat.sub_eq_zero_of_le done]
  rfl

theorem untried_of_some (some : firstFrom count ok chosen next = some index) :
    untried count ok chosen next = index :: untried count ok chosen (index + 1) := by
  rw [firstFrom] at some
  rw [untried, untried]
  generalize isRoom : count chosen.length - next = room at some
  induction room generalizing next with
  | zero => cases some
  | succ room inductionHypothesis =>
      have isLess : room = count chosen.length - (next + 1) := by omega
      rw [List.range'_succ, List.find?_cons] at some
      rw [List.range'_succ]
      cases isOk : ok chosen next with
      | true =>
          rw [isOk] at some
          cases some
          rw [List.filter_cons_of_pos isOk, isLess]
      | false =>
          rw [isOk] at some
          rw [List.filter_cons_of_neg (by simp [isOk])]
          exact inductionHypothesis (by omega) some

theorem Levels.length {outer : List (List Nat)} (levels : Levels count ok chosen outer) :
    outer.length = chosen.length := by
  induction levels with
  | nil => rfl
  | snoc index _ inductionHypothesis => simp [inductionHypothesis]

end Untried

section Lawful

/-- A state stands for the indexes of some factors and the next index of the factor after them,
and a turn does what is to be done there. -/
structure Lawful (turn : Nat → State → Turn State) (read : State → Out) (factors : Nat)
    (count : Nat → Nat) (ok : List Nat → Nat → Bool) (vector : List Nat → Out)
    (stands : State → List Nat → Nat → Prop) : Prop where
  deeper : ∀ {state chosen next index}, stands state chosen next →
    firstFrom count ok chosen next = some index → chosen.length + 1 < factors →
    ∃ after, turn chosen.length state = .goto (chosen.length + 1) after ∧
      stands after (chosen ++ [index]) 0
  full : ∀ {state chosen next index}, stands state chosen next →
    firstFrom count ok chosen next = some index → chosen.length + 1 = factors →
    ∃ after, turn chosen.length state = .emit after ∧ stands after chosen (index + 1) ∧
      read after = vector (chosen ++ [index])
  back : ∀ {state chosen last next}, stands state (chosen ++ [last]) next →
    firstFrom count ok (chosen ++ [last]) next = none →
    ∃ after, turn (chosen ++ [last]).length state = .goto chosen.length after ∧
      stands after chosen (last + 1)
  out : ∀ {state next}, stands state [] next → firstFrom count ok [] next = none →
    ∃ after, turn 0 state = .finish after

variable {turn : Nat → State → Turn State} {read : State → Out} {factors : Nat}
  {count : Nat → Nat} {ok : List Nat → Nat → Bool} {vector : List Nat → Out}
  {stands : State → List Nat → Nat → Prop}

/-- The search that the enumerator stands for -/
def search (factors : Nat) (count : Nat → Nat) (ok : List Nat → Nat → Bool)
    (vector : List Nat → Out) : Search Nat Unit Out where
  depth := factors
  openLevel _ chosen := (options count ok chosen, ())
  visit _ chosen := (some (vector chosen), ())

/-- Turn by turn the enumerator does what the search does. -/
theorem drain_of_run (lawful : Lawful turn read factors count ok vector stands) {fuel next : Nat}
    {state : State} {chosen : List Nat} {outer : List (List Nat)} {given : List Out}
    (atState : stands state chosen next) (levels : Levels count ok chosen outer)
    (inside : chosen.length < factors)
    (ran : run (search factors count ok vector) fuel
      ⟨chosen, untried count ok chosen next :: outer, ()⟩ = some given) :
    drain turn read (factors - 1) fuel chosen.length state = some given := by
  induction fuel generalizing state chosen outer next given with
  | zero => cases ran
  | succ fuel inductionHypothesis =>
      rw [run] at ran
      rw [drain]
      cases isFirst : firstFrom count ok chosen next with
      | some index =>
          rw [untried_of_some isFirst] at ran
          by_cases last : chosen.length + 1 = factors
          · obtain ⟨after, turned, stands', isRead⟩ := lawful.full atState isFirst last
            have visited : step (search factors count ok vector)
                ⟨chosen, (index :: untried count ok chosen (index + 1)) :: outer, ()⟩ =
                  some (some (vector (chosen ++ [index])),
                    ⟨chosen, untried count ok chosen (index + 1) :: outer, ()⟩) :=
              if_pos (by rw [levels.length]; exact last)
            rw [turned]
            rw [visited] at ran
            obtain ⟨later, ranLater, rfl⟩ := Option.map_eq_some_iff.1 ran
            have drained := inductionHypothesis stands' levels inside ranLater
            rw [show chosen.length = factors - 1 by omega] at drained
            simp only [drained, Option.map_some, isRead]
            rfl
          · obtain ⟨after, turned, stands'⟩ :=
              lawful.deeper atState isFirst (by omega)
            have opened : step (search factors count ok vector)
                ⟨chosen, (index :: untried count ok chosen (index + 1)) :: outer, ()⟩ =
                  some (none, ⟨chosen ++ [index], options count ok (chosen ++ [index]) ::
                    untried count ok chosen (index + 1) :: outer, ()⟩) :=
              if_neg (by rw [levels.length]; exact last)
            rw [turned]
            rw [opened] at ran
            obtain ⟨later, ranLater, rfl⟩ := Option.map_eq_some_iff.1 ran
            rw [← untried_zero] at ranLater
            have drained := inductionHypothesis stands' (.snoc index levels)
              (by rw [List.length_append, List.length_singleton]; omega) ranLater
            rw [List.length_append, List.length_singleton] at drained
            exact drained
      | none =>
          rw [untried_of_none isFirst, step] at ran
          obtain ⟨later, ranLater, rfl⟩ := Option.map_eq_some_iff.1 ran
          cases levels with
          | nil =>
              obtain ⟨after, turned⟩ := lawful.out atState isFirst
              rw [List.length_nil, turned]
              cases fuel with
              | zero => cases ranLater
              | succ fuel =>
                  rw [run, step] at ranLater
                  cases ranLater
                  rfl
          | @snoc chosen outer index levels =>
              obtain ⟨after, turned, stands'⟩ := lawful.back atState isFirst
              rw [turned]
              rw [List.dropLast_concat] at ranLater
              rw [List.length_append] at inside
              exact inductionHypothesis stands' levels (by omega) ranLater

/-- What every turn keeps -/
def Keeps (turn : Nat → State → Turn State) (keep : State → Prop) : Prop :=
  ∀ depth state, keep state →
    match turn depth state with
    | .goto _ after | .emit after => keep after
    | .finish _ => True

/-- What one call does on the way -/
theorem call_of_drain {keep : State → Prop} (keeps : Keeps turn keep) {last fuel depth : Nat}
    {state : State} {given : List Out} (kept : keep state)
    (drained : drain turn read last fuel depth state = some given) :
    (given = [] ∧ ∃ after, ∀ more, fuel ≤ more → call turn more depth state = some (false, after)) ∨
      ∃ later after fewer, given = read after :: later ∧ fewer ≤ fuel ∧ keep after ∧
        drain turn read last fewer last after = some later ∧
          ∀ more, fuel ≤ more → call turn more depth state = some (true, after) := by
  induction fuel generalizing depth state with
  | zero => cases drained
  | succ fuel inductionHypothesis =>
      rw [drain] at drained
      have unfolded (more : Nat) (enough : fuel + 1 ≤ more) :
          ∃ less, more = less + 1 ∧ fuel ≤ less := ⟨more - 1, by omega, by omega⟩
      have keptNext := keeps depth state kept
      cases isTurn : turn depth state with
      | goto depth' after =>
          rw [isTurn] at drained keptNext
          rcases inductionHypothesis keptNext drained with ⟨empty, final, calls⟩ |
            ⟨later, final, fewer, isGiven, less, keptFinal, rest, calls⟩
          · refine .inl ⟨empty, final, fun more enough => ?_⟩
            obtain ⟨less, rfl, enough'⟩ := unfolded more enough
            rw [call, isTurn]
            exact calls less enough'
          · refine .inr ⟨later, final, fewer, isGiven, less.trans (Nat.le_succ _), keptFinal,
              rest, fun more enough => ?_⟩
            obtain ⟨less, rfl, enough'⟩ := unfolded more enough
            rw [call, isTurn]
            exact calls less enough'
      | emit after =>
          rw [isTurn] at drained keptNext
          obtain ⟨later, rest, rfl⟩ := Option.map_eq_some_iff.1 drained
          refine .inr ⟨later, after, fuel, rfl, Nat.le_succ _, keptNext, rest,
            fun more enough => ?_⟩
          obtain ⟨less, rfl, -⟩ := unfolded more enough
          rw [call, isTurn]
      | finish after =>
          rw [isTurn] at drained
          cases drained
          refine .inl ⟨rfl, after, fun more enough => ?_⟩
          obtain ⟨less, rfl, -⟩ := unfolded more enough
          rw [call, isTurn]

/-- Call after call gives out what the loops give out together. -/
theorem outputs_of_drain {keep : State → Prop} (keeps : Keeps turn keep)
    {next : Nat → State → Option (Bool × State)} {last : Nat}
    (resumes : ∀ state, keep state → ∀ fuel, next fuel state = call turn fuel last state)
    {fuel depth : Nat} {first state : State} {given : List Out} (kept : keep state)
    (enters : ∀ fuel, next fuel first = call turn fuel depth state)
    (drained : drain turn read last fuel depth state = some given) {calls more : Nat}
    (enoughCalls : given.length < calls) (enough : fuel ≤ more) :
    outputs (next more) read calls first = some given := by
  induction given generalizing fuel depth first state calls with
  | nil =>
      obtain ⟨fewer, rfl⟩ := Nat.exists_eq_succ_of_ne_zero (Nat.ne_of_gt enoughCalls)
      rcases call_of_drain keeps kept drained with ⟨-, after, calls⟩ | ⟨_, _, _, isGiven, _⟩
      · rw [outputs, enters, calls more enough]
      · cases isGiven
  | cons out rest inductionHypothesis =>
      obtain ⟨fewer, rfl⟩ := Nat.exists_eq_succ_of_ne_zero (Nat.ne_zero_of_lt enoughCalls)
      rcases call_of_drain keeps kept drained with ⟨isGiven, _⟩ |
        ⟨later, after, less, isGiven, smaller, keptAfter, drainedLater, calls⟩
      · cases isGiven
      · cases isGiven
        rw [outputs, enters, calls more enough]
        dsimp only
        rw [inductionHypothesis keptAfter (resumes after keptAfter) drainedLater
          (Nat.lt_of_succ_lt_succ enoughCalls) (smaller.trans enough)]
        rfl

/-- With enough fuel and calls the enumerator gives out the vectors of the tree. -/
theorem outputs_complete (lawful : Lawful turn read factors count ok vector stands)
    (positive : 0 < factors) {keep : State → Prop} (keeps : Keeps turn keep)
    {next : Nat → State → Option (Bool × State)}
    (resumes : ∀ state, keep state → ∀ fuel, next fuel state = call turn fuel (factors - 1) state)
    {first state : State} (kept : keep state)
    (enters : ∀ fuel, next fuel first = call turn fuel 0 state) (atStart : stands state [] 0) :
    ∃ enough, ∀ calls fuel, enough ≤ calls → enough ≤ fuel →
      outputs (next fuel) read calls first =
        some ((leaves (options count ok) some factors []).map vector) := by
  obtain ⟨below, rfl⟩ := Nat.exists_eq_succ_of_ne_zero positive.ne'
  have searchLawful : Backtrack.Lawful (search (below + 1) count ok vector) (options count ok)
      (fun chosen => some (vector chosen)) fun _ => True :=
    ⟨fun _ _ _ => ⟨rfl, trivial⟩, fun _ _ _ => ⟨rfl, trivial⟩⟩
  obtain ⟨enough, ran⟩ := @run_start _ _ _ _ _ _ _ searchLawful below rfl () trivial
  have drained := drain_of_run lawful atStart .nil positive (by
    rw [untried_zero]
    exact ran enough le_rfl)
  rw [leaves_filterMap] at drained
  refine ⟨max enough ((leaves (options count ok) some (below + 1) []).length + 1), ?_⟩
  intro calls fuel enoughCalls enoughFuel
  have same : (leaves (options count ok) some (below + 1) []).filterMap
      (fun chosen => some (vector chosen)) =
        (leaves (options count ok) some (below + 1) []).map vector := by
    rw [← List.filterMap_eq_map]
    rfl
  rw [same] at drained
  exact outputs_of_drain keeps resumes kept enters drained
    (by rw [List.length_map]; omega) (by omega)

end Lawful

section Vectors

variable {count : Nat → Nat} {ok : List Nat → Nat → Bool} {factors : Nat}

/-- The vectors of the tree are those whose every index goes with the ones before it. -/
theorem mem_leaves_options {choice : List Nat} :
    choice ∈ leaves (options count ok) some factors [] ↔ choice.length = factors ∧
      ∀ place index, choice[place]? = some index →
        index < count place ∧ ok (choice.take place) index = true := by
  rw [mem_leaves]
  constructor
  · rintro ⟨_, rfl, length, follows⟩
    refine ⟨length, fun place index found => ?_⟩
    have inside := follows_iff.1 follows place index found
    have placed : place < choice.length := (List.getElem?_eq_some_iff.1 found).1
    rw [List.nil_append, options, List.mem_filter, List.mem_range, List.length_take,
      Nat.min_eq_left placed.le] at inside
    exact inside
  · rintro ⟨length, each⟩
    refine ⟨choice, rfl, length, follows_iff.2 fun place index found => ?_⟩
    have placed : place < choice.length := (List.getElem?_eq_some_iff.1 found).1
    rw [List.nil_append, options, List.mem_filter, List.mem_range, List.length_take,
      Nat.min_eq_left placed.le]
    exact each place index found

theorem nodup_leaves_options : (leaves (options count ok) some factors []).Nodup :=
  nodup_leaves (fun _ => List.nodup_range.filter _) factors []

/-- Where every index goes with those before it, the tree is the whole product. -/
theorem length_leaves_options (all : ∀ chosen index, ok chosen index = true) (levels : Nat)
    (chosen : List Nat) :
    (leaves (options count ok) some levels chosen).length =
      ((List.range' chosen.length levels).map count).prod := by
  induction levels generalizing chosen with
  | zero => rfl
  | succ levels inductionHypothesis =>
      have whole : options count ok chosen = List.range (count chosen.length) :=
        List.filter_eq_self.2 fun index _ => all chosen index
      have same : (List.range (count chosen.length)).map (fun index =>
          (leaves (options count ok) some levels (chosen ++ [index])).length) =
            List.replicate (count chosen.length)
              ((List.range' (chosen.length + 1) levels).map count).prod := by
        rw [List.eq_replicate_iff]
        refine ⟨by rw [List.length_map, List.length_range], fun length inside => ?_⟩
        obtain ⟨index, -, rfl⟩ := List.mem_map.1 inside
        rw [inductionHypothesis, List.length_append, List.length_singleton]
      rw [leaves, List.length_flatMap, whole, same, List.sum_replicate_nat,
        List.range'_succ, List.map_cons, List.prod_cons]

end Vectors

end Age.Odometer
