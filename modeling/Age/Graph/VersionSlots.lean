import Mathlib.Data.List.Induction
import Age.Graph.VersionCounter

/-!
# The version slots as backends reach them

Each backend remembers one graph with the index of its slot.  `get_graph_version` and
`increment_graph_version` try this index first, and only use it when the slot still has the OID of
the graph.
-/

namespace Age.Graph

section Calls

/-- `cached_version_graph_oid` and `cached_version_graph_index` of a backend -/
structure CachedSlot where
  graphOid : Oid
  graphIndex : Int

def CachedSlot.invalid : CachedSlot := ⟨0, -1⟩

/-- The cached index, if it is below `num_entries` and the slot there is the one of the graph. -/
def CachedSlot.lookup (cached : CachedSlot) (state : GraphVersionState) (graphOid : Oid) :
    Option Nat :=
  if cached.graphOid = graphOid ∧ 0 ≤ cached.graphIndex ∧ cached.graphIndex < state.length ∧
      (state[cached.graphIndex.toNat]?.map VersionEntry.graphOid) = some graphOid then
    some cached.graphIndex.toNat
  else none

/-- The scan of the slots for an OID -/
def findSlot (state : GraphVersionState) (graphOid : Oid) : Option Nat :=
  state.findIdx? fun entry => entry.graphOid == graphOid

/-- `pg_atomic_read_u64`: the counter has 64 bits. -/
def readVersion (state : GraphVersionState) (index : Nat) : UInt64 :=
  UInt64.ofNat ((state[index]?.map VersionEntry.version).getD 0)

/-- `pg_atomic_fetch_add_u64` by one -/
def addVersion (state : GraphVersionState) (index : Nat) : GraphVersionState :=
  state.modify index fun entry => { entry with version := entry.version + 1 }

/-- `get_graph_version` of a backend -/
def getGraphVersionCached (state : GraphVersionState) (cached : CachedSlot) (graphOid : Oid) :
    UInt64 × CachedSlot :=
  if graphOid = 0 then (0, cached)
  else
    match cached.lookup state graphOid with
    | some index => (readVersion state index, cached)
    | none =>
        match findSlot state graphOid with
        | some index => (readVersion state index, ⟨graphOid, index⟩)
        | none => (0, .invalid)

/-- `increment_graph_version` of a backend.  As the call is atomic, the scan under the lock finds
the graph no more than the one before it, and takes the first free slot. -/
def incrementGraphVersionCached (ageMaxGraphs : Nat) (state : GraphVersionState)
    (cached : CachedSlot) (graphOid : Oid) : GraphVersionState × CachedSlot :=
  if graphOid = 0 then (state, cached)
  else
    match cached.lookup state graphOid with
    | some index => (addVersion state index, cached)
    | none =>
        match findSlot state graphOid with
        | some index => (addVersion state index, ⟨graphOid, index⟩)
        | none =>
            match findSlot state 0 with
            | some index => (state.set index ⟨graphOid, 1⟩, ⟨graphOid, index⟩)
            | none =>
                if state.length < ageMaxGraphs then
                  (state ++ [⟨graphOid, 1⟩], ⟨graphOid, state.length⟩)
                else (state, cached)

/-- `remove_graph_version` of a backend: only its own cached index is dropped. -/
def removeGraphVersionCached (state : GraphVersionState) (cached : CachedSlot) (graphOid : Oid) :
    GraphVersionState × CachedSlot :=
  if graphOid = 0 then (state, cached)
  else
    match findSlot state graphOid with
    | some index =>
        (trimEntries (state.set index ⟨0, 0⟩),
          if cached.graphOid = graphOid then .invalid else cached)
    | none => (state, cached)

inductive VersionCall where
  | get (graphOid : Oid)
  | increment (graphOid : Oid)
  | remove (graphOid : Oid)
  deriving DecidableEq

/-- The shared table and what each backend has cached -/
structure VersionSlots where
  state : GraphVersionState
  cached : Nat → CachedSlot

/-- The table when shared memory is set up; a backend may have anything cached. -/
def VersionSlots.start (cached : Nat → CachedSlot) : VersionSlots := ⟨[], cached⟩

/-- A call by a backend -/
def VersionSlots.step (ageMaxGraphs : Nat) (slots : VersionSlots) (call : Nat × VersionCall) :
    VersionSlots :=
  let own := slots.cached call.1
  let (state, cached) :=
    match call.2 with
    | .get graphOid => (slots.state, (getGraphVersionCached slots.state own graphOid).2)
    | .increment graphOid => incrementGraphVersionCached ageMaxGraphs slots.state own graphOid
    | .remove graphOid => removeGraphVersionCached slots.state own graphOid
  ⟨state, fun backend => if backend = call.1 then cached else slots.cached backend⟩

def VersionSlots.run (ageMaxGraphs : Nat) (slots : VersionSlots)
    (calls : List (Nat × VersionCall)) : VersionSlots :=
  calls.foldl (VersionSlots.step ageMaxGraphs) slots

end Calls

section Meaning

/-- Every slot is taken. -/
def Full (ageMaxGraphs : Nat) (state : GraphVersionState) : Prop :=
  ageMaxGraphs ≤ state.length ∧ hasEntry state 0 = false

/-- No call of the run finds the table full. -/
def VersionSlots.NeverFull (ageMaxGraphs : Nat) (slots : VersionSlots)
    (calls : List (Nat × VersionCall)) : Prop :=
  ∀ before call after, calls = before ++ call :: after →
    ¬ Full ageMaxGraphs (slots.run ageMaxGraphs before).state

/-- How often a graph was incremented since it was last removed -/
def incrementsSinceRemoved (calls : List (Nat × VersionCall)) (graphOid : Oid) : Nat :=
  ((calls.map Prod.snd).reverse.takeWhile (· ≠ .remove graphOid)).count (.increment graphOid)

end Meaning

section Table

variable {ageMaxGraphs : Nat} {state : GraphVersionState} {cached : CachedSlot} {graphOid : Oid}
  {index : Nat}

theorem findSlot_cons (entry : VersionEntry) (rest : GraphVersionState) :
    findSlot (entry :: rest) graphOid =
      if entry.graphOid = graphOid then some 0 else (findSlot rest graphOid).map (· + 1) := by
  simp [findSlot, List.findIdx?_cons]

theorem hasEntry_of_findSlot (found : findSlot state graphOid = some index) :
    hasEntry state graphOid = true := by
  obtain ⟨inRange, isEntry, _⟩ := List.findIdx?_eq_some_iff_getElem.1 found
  exact List.any_eq_true.2 ⟨state[index], List.getElem_mem inRange, isEntry⟩

theorem hasEntry_of_findSlot_none (missing : findSlot state graphOid = none) :
    hasEntry state graphOid = false := by
  rw [hasEntry, List.any_eq_false]
  intro entry member isEntry
  rw [List.findIdx?_eq_none_iff.1 missing entry member] at isEntry
  cases isEntry

/-- With unique entries, a slot with the OID of a graph is the one that the scan finds. -/
theorem findSlot_of_unique (unique : UniqueEntries state) (valid : graphOid ≠ 0)
    (isSlot : state[index]?.map VersionEntry.graphOid = some graphOid) :
    findSlot state graphOid = some index := by
  induction state generalizing index with
  | nil => simp at isSlot
  | cons entry rest inductionHypothesis =>
      obtain ⟨first, later⟩ := List.pairwise_cons.mp unique
      rw [findSlot_cons]
      cases index with
      | zero =>
          rw [if_pos (by simpa using isSlot)]
      | succ index =>
          rw [List.getElem?_cons_succ] at isSlot
          obtain ⟨other, isOther, same⟩ := Option.map_eq_some_iff.1 isSlot
          have differs : entry.graphOid ≠ graphOid := fun isEntry =>
            first other (List.mem_of_getElem? isOther) (isEntry ▸ valid) (isEntry.trans same.symm)
          rw [if_neg differs, inductionHypothesis later isSlot]
          rfl

/-- The shortcut finds the slot that the scan would find. -/
theorem CachedSlot.lookup_eq (unique : UniqueEntries state) (valid : graphOid ≠ 0)
    (hit : cached.lookup state graphOid = some index) : findSlot state graphOid = some index := by
  unfold CachedSlot.lookup at hit
  split_ifs at hit with checked
  obtain rfl := Option.some.inj hit
  exact findSlot_of_unique unique valid checked.2.2.2

theorem addVersion_eq (found : findSlot state graphOid = some index) :
    addVersion state index = countUp state graphOid := by
  induction state generalizing index with
  | nil => cases found
  | cons entry rest inductionHypothesis =>
      rw [findSlot_cons] at found
      rw [countUp]
      split_ifs at found ⊢ with isEntry
      · obtain rfl := Option.some.inj found
        rfl
      · obtain ⟨place, inRest, rfl⟩ := Option.map_eq_some_iff.1 found
        rw [← inductionHypothesis inRest]
        rfl

theorem set_eq_reuseEntry (found : findSlot state 0 = some index) :
    state.set index ⟨graphOid, 1⟩ = reuseEntry state graphOid := by
  induction state generalizing index with
  | nil => cases found
  | cons entry rest inductionHypothesis =>
      rw [findSlot_cons] at found
      rw [reuseEntry]
      split_ifs at found ⊢ with isFree
      · obtain rfl := Option.some.inj found
        rfl
      · obtain ⟨place, inRest, rfl⟩ := Option.map_eq_some_iff.1 found
        rw [← inductionHypothesis inRest]
        rfl

theorem set_eq_freeEntry (found : findSlot state graphOid = some index) :
    state.set index ⟨0, 0⟩ = freeEntry state graphOid := by
  induction state generalizing index with
  | nil => cases found
  | cons entry rest inductionHypothesis =>
      rw [findSlot_cons] at found
      rw [freeEntry]
      split_ifs at found ⊢ with isEntry
      · obtain rfl := Option.some.inj found
        rfl
      · obtain ⟨place, inRest, rfl⟩ := Option.map_eq_some_iff.1 found
        rw [← inductionHypothesis inRest]
        rfl

theorem readVersion_eq (found : findSlot state graphOid = some index) :
    readVersion state index = UInt64.ofNat (getGraphVersion state graphOid) := by
  induction state generalizing index with
  | nil => cases found
  | cons entry rest inductionHypothesis =>
      rw [findSlot_cons] at found
      rw [getGraphVersion]
      split_ifs at found ⊢ with isEntry
      · obtain rfl := Option.some.inj found
        rfl
      · obtain ⟨place, inRest, rfl⟩ := Option.map_eq_some_iff.1 found
        exact inductionHypothesis inRest

theorem getGraphVersionCached_eq (unique : UniqueEntries state) (valid : graphOid ≠ 0) :
    (getGraphVersionCached state cached graphOid).1 =
      UInt64.ofNat (getGraphVersion state graphOid) := by
  rw [getGraphVersionCached, if_neg valid]
  cases hit : cached.lookup state graphOid with
  | some index => exact readVersion_eq (CachedSlot.lookup_eq unique valid hit)
  | none =>
      dsimp only
      cases found : findSlot state graphOid with
      | some index => exact readVersion_eq found
      | none =>
          rw [getGraphVersion_of_missing (hasEntry_of_findSlot_none found)]
          rfl

theorem incrementGraphVersionCached_eq (unique : UniqueEntries state) (valid : graphOid ≠ 0) :
    (incrementGraphVersionCached ageMaxGraphs state cached graphOid).1 =
      incrementGraphVersion ageMaxGraphs state graphOid := by
  rw [incrementGraphVersionCached, if_neg valid, incrementGraphVersion]
  cases hit : cached.lookup state graphOid with
  | some index =>
      have found := CachedSlot.lookup_eq unique valid hit
      rw [if_pos (hasEntry_of_findSlot found)]
      exact addVersion_eq found
  | none =>
      dsimp only
      cases found : findSlot state graphOid with
      | some index =>
          rw [if_pos (hasEntry_of_findSlot found)]
          exact addVersion_eq found
      | none =>
          rw [hasEntry_of_findSlot_none found, if_neg Bool.false_ne_true]
          dsimp only
          cases free : findSlot state 0 with
          | some index =>
              rw [if_pos (hasEntry_of_findSlot free)]
              exact set_eq_reuseEntry free
          | none =>
              rw [hasEntry_of_findSlot_none free, if_neg Bool.false_ne_true]
              dsimp only
              split_ifs <;> rfl

theorem removeGraphVersionCached_eq (valid : graphOid ≠ 0) :
    (removeGraphVersionCached state cached graphOid).1 = removeGraphVersion state graphOid := by
  rw [removeGraphVersionCached, if_neg valid, removeGraphVersion]
  cases found : findSlot state graphOid with
  | some index =>
      rw [if_pos (hasEntry_of_findSlot found)]
      dsimp only
      rw [set_eq_freeEntry found]
  | none =>
      rw [hasEntry_of_findSlot_none found, if_neg Bool.false_ne_true]

end Table

section Runs

variable {ageMaxGraphs : Nat} {slots : VersionSlots} {calls : List (Nat × VersionCall)}
  {call : Nat × VersionCall} {graphOid : Oid}

/-- The table after a call, without what backends have cached -/
def VersionCall.change (ageMaxGraphs : Nat) (state : GraphVersionState) :
    VersionCall → GraphVersionState
  | .get _ => state
  | .increment graphOid =>
      if graphOid = 0 then state else incrementGraphVersion ageMaxGraphs state graphOid
  | .remove graphOid => if graphOid = 0 then state else removeGraphVersion state graphOid

theorem VersionSlots.step_state (unique : UniqueEntries slots.state) :
    (slots.step ageMaxGraphs call).state = call.2.change ageMaxGraphs slots.state := by
  obtain ⟨backend, call⟩ := call
  cases call with
  | get graphOid => rfl
  | increment graphOid =>
      rw [VersionCall.change]
      split_ifs with invalid
      · simp [VersionSlots.step, incrementGraphVersionCached, invalid]
      · exact incrementGraphVersionCached_eq unique invalid
  | remove graphOid =>
      rw [VersionCall.change]
      split_ifs with invalid
      · simp [VersionSlots.step, removeGraphVersionCached, invalid]
      · exact removeGraphVersionCached_eq invalid

theorem UniqueEntries.change {state : GraphVersionState} (unique : UniqueEntries state)
    (call : VersionCall) : UniqueEntries (call.change ageMaxGraphs state) := by
  cases call with
  | get graphOid => exact unique
  | increment graphOid =>
      rw [VersionCall.change]
      split_ifs
      · exact unique
      · exact unique.incrementGraphVersion
  | remove graphOid =>
      rw [VersionCall.change]
      split_ifs
      · exact unique
      · exact unique.removeGraphVersion

theorem hasRoom_of_not_full {state : GraphVersionState} (room : ¬ Full ageMaxGraphs state) :
    hasRoom ageMaxGraphs state graphOid = true := by
  by_contra noRoom
  simp only [hasRoom, Bool.not_eq_true, Bool.or_eq_false_iff, decide_eq_false_iff_not,
    Nat.not_lt] at noRoom
  exact room ⟨noRoom.2, noRoom.1.2⟩

theorem incrementsSinceRemoved_concat (backend : Nat) (last : VersionCall) :
    incrementsSinceRemoved (calls ++ [(backend, last)]) graphOid =
      if last = .remove graphOid then 0
      else incrementsSinceRemoved calls graphOid + if last = .increment graphOid then 1 else 0 := by
  rw [incrementsSinceRemoved, List.map_append, List.reverse_append]
  by_cases removed : last = .remove graphOid
  · simp [removed]
  · simp [removed, incrementsSinceRemoved, List.count_cons]

/-- A call changes the count of a graph in the table as it changes the count in the run. -/
theorem getGraphVersion_change {state : GraphVersionState} (unique : UniqueEntries state)
    (room : ¬ Full ageMaxGraphs state) (valid : graphOid ≠ 0) (backend : Nat) (last : VersionCall)
    (counts : getGraphVersion state graphOid = incrementsSinceRemoved calls graphOid) :
    getGraphVersion (last.change ageMaxGraphs state) graphOid =
      incrementsSinceRemoved (calls ++ [(backend, last)]) graphOid := by
  rw [incrementsSinceRemoved_concat]
  cases last with
  | get other => simpa [VersionCall.change] using counts
  | increment other =>
      simp only [VersionCall.change, reduceCtorEq, if_false, VersionCall.increment.injEq]
      by_cases same : other = graphOid
      · rw [if_pos same, same, if_neg valid,
          getGraphVersion_increment (hasRoom_of_not_full room), counts]
      · rw [if_neg same]
        split_ifs
        · exact counts
        · rw [getGraphVersion_increment_other (Ne.symm same) valid]
          exact counts
  | remove other =>
      simp only [VersionCall.change, reduceCtorEq, if_false, VersionCall.remove.injEq]
      by_cases same : other = graphOid
      · rw [if_pos same, same, if_neg valid, getGraphVersion_remove unique valid]
      · rw [if_neg same]
        split_ifs
        · exact counts
        · rw [getGraphVersion_remove_other (Ne.symm same) valid]
          exact counts

theorem VersionSlots.run_concat :
    slots.run ageMaxGraphs (calls ++ [call]) =
      (slots.run ageMaxGraphs calls).step ageMaxGraphs call := by
  rw [VersionSlots.run, VersionSlots.run, List.foldl_concat]

theorem VersionSlots.NeverFull.init
    (never : slots.NeverFull ageMaxGraphs (calls ++ [call])) :
    slots.NeverFull ageMaxGraphs calls ∧ ¬ Full ageMaxGraphs (slots.run ageMaxGraphs calls).state :=
  ⟨fun before next after split => never before next (after ++ [call]) (by simp [split]),
    never calls call [] rfl⟩

/-- In every run the slots have different graphs; while the table has never been full, every
backend reads the number of increments since the last removal, whatever it has cached. -/
theorem VersionSlots.getGraphVersion_counts (ageMaxGraphs : Nat) (cached : Nat → CachedSlot)
    (calls : List (Nat × VersionCall)) :
    UniqueEntries ((VersionSlots.start cached).run ageMaxGraphs calls).state ∧
      ((VersionSlots.start cached).NeverFull ageMaxGraphs calls →
        ∀ backend graphOid, graphOid ≠ 0 →
          (getGraphVersionCached ((VersionSlots.start cached).run ageMaxGraphs calls).state
            (((VersionSlots.start cached).run ageMaxGraphs calls).cached backend) graphOid).1 =
              UInt64.ofNat (incrementsSinceRemoved calls graphOid)) := by
  have invariant : UniqueEntries ((VersionSlots.start cached).run ageMaxGraphs calls).state ∧
      ((VersionSlots.start cached).NeverFull ageMaxGraphs calls → ∀ graphOid, graphOid ≠ 0 →
        getGraphVersion ((VersionSlots.start cached).run ageMaxGraphs calls).state graphOid =
          incrementsSinceRemoved calls graphOid) := by
    induction calls using List.reverseRecOn with
    | nil => exact ⟨List.Pairwise.nil, fun _ _ _ => rfl⟩
    | append_singleton calls call inductionHypothesis =>
        obtain ⟨unique, counts⟩ := inductionHypothesis
        rw [VersionSlots.run_concat, VersionSlots.step_state unique]
        refine ⟨unique.change call.2, fun never graphOid valid => ?_⟩
        exact getGraphVersion_change unique never.init.2 valid call.1 call.2
          (counts never.init.1 graphOid valid)
  refine ⟨invariant.1, fun never backend graphOid valid => ?_⟩
  rw [getGraphVersionCached_eq invariant.1 valid, invariant.2 never graphOid valid]

/-- Backend 1 still has the slot of graph 7 cached after backend 0 gave it to graph 8. -/
theorem VersionSlots.getGraphVersion_counts_reusedSlot :
    (VersionSlots.start fun _ => .invalid).NeverFull 2
        [(0, .increment 7), (1, .get 7), (0, .remove 7), (0, .increment 8)] ∧
      (getGraphVersionCached ((VersionSlots.start fun _ => .invalid).run 2
        [(0, .increment 7), (1, .get 7), (0, .remove 7), (0, .increment 8)]).state ⟨7, 0⟩ 7).1 = 0 ∧
      (getGraphVersionCached ((VersionSlots.start fun _ => .invalid).run 2
        [(0, .increment 7), (1, .get 7), (0, .remove 7), (0, .increment 8)]).state
        (((VersionSlots.start fun _ => .invalid).run 2
          [(0, .increment 7), (1, .get 7), (0, .remove 7), (0, .increment 8)]).cached 1) 8).1 = 1 := by
  have never : (VersionSlots.start fun _ => .invalid).NeverFull 2
      [(0, .increment 7), (1, .get 7), (0, .remove 7), (0, .increment 8)] := by
    intro before call after split full
    have short : ∀ turns, turns ≤ 4 → ((VersionSlots.start fun _ => .invalid).run 2
        ([(0, .increment 7), (1, .get 7), (0, .remove 7), (0, .increment 8)].take turns)).state.length
          < 2 := by decide
    have taken : before = [(0, .increment 7), (1, .get 7), (0, .remove 7),
        (0, VersionCall.increment 8)].take before.length := by
      rw [split, List.take_left]
    have bound : before.length ≤ 4 := by
      have lengths := congrArg List.length split
      simp at lengths
      omega
    have fits := short before.length bound
    rw [← taken] at fits
    exact absurd full.1 (Nat.not_le.2 fits)
  exact ⟨never, rfl, (VersionSlots.getGraphVersion_counts 2 _ _).2 never 1 8 (by decide)⟩

end Runs

end Age.Graph
