import Mathlib.Data.List.Basic
import Mathlib.Tactic.SplitIfs

/-!
# Graph version counters

The table in shared memory that gives each graph a version:
`get_graph_version`, `increment_graph_version` and `remove_graph_version`.  It
is no part of any transaction.
-/

namespace Age.Graph

abbrev Oid := Nat

/-- An entry with the OID `0` is free. -/
structure VersionEntry where
  graphOid : Oid
  version : Nat
  deriving DecidableEq, Repr

/-- `GraphVersionState`: the entries below `num_entries`. -/
abbrev GraphVersionState := List VersionEntry

section Table

variable (ageMaxGraphs : Nat)

def getGraphVersion (state : GraphVersionState) (graphOid : Oid) : Nat :=
  match state with
  | [] => 0
  | entry :: rest =>
      if entry.graphOid = graphOid then entry.version else getGraphVersion rest graphOid

/-- The first entry of an OID is counted up. -/
def countUp (state : GraphVersionState) (graphOid : Oid) : GraphVersionState :=
  match state with
  | [] => []
  | entry :: rest =>
      if entry.graphOid = graphOid then { entry with version := entry.version + 1 } :: rest
      else entry :: countUp rest graphOid

/-- The first free entry is taken. -/
def reuseEntry (state : GraphVersionState) (graphOid : Oid) : GraphVersionState :=
  match state with
  | [] => []
  | entry :: rest =>
      if entry.graphOid = 0 then ⟨graphOid, 1⟩ :: rest else entry :: reuseEntry rest graphOid

def hasEntry (state : GraphVersionState) (graphOid : Oid) : Bool :=
  state.any fun entry => entry.graphOid == graphOid

/-- `increment_graph_version`; a full table only raises a warning. -/
def incrementGraphVersion (state : GraphVersionState) (graphOid : Oid) : GraphVersionState :=
  if hasEntry state graphOid then countUp state graphOid
  else if hasEntry state 0 then reuseEntry state graphOid
  else if state.length < ageMaxGraphs then state ++ [⟨graphOid, 1⟩]
  else state

/-- There is an entry for the graph or room for one. -/
def hasRoom (state : GraphVersionState) (graphOid : Oid) : Bool :=
  hasEntry state graphOid || hasEntry state 0 || state.length < ageMaxGraphs

def freeEntry (state : GraphVersionState) (graphOid : Oid) : GraphVersionState :=
  match state with
  | [] => []
  | entry :: rest =>
      if entry.graphOid = graphOid then ⟨0, 0⟩ :: rest else entry :: freeEntry rest graphOid

/-- The entries below the last one in use. -/
def trimEntries (state : GraphVersionState) : GraphVersionState :=
  match state with
  | [] => []
  | entry :: rest =>
      if trimEntries rest = [] ∧ entry.graphOid = 0 then [] else entry :: trimEntries rest

/-- `remove_graph_version` -/
def removeGraphVersion (state : GraphVersionState) (graphOid : Oid) : GraphVersionState :=
  if hasEntry state graphOid then trimEntries (freeEntry state graphOid) else state

/-- No graph has two entries. -/
def UniqueEntries (state : GraphVersionState) : Prop :=
  state.Pairwise fun entry later => entry.graphOid ≠ 0 → entry.graphOid ≠ later.graphOid

variable {ageMaxGraphs} {state : GraphVersionState} {graphOid other : Oid}

theorem getGraphVersion_of_missing (missing : hasEntry state graphOid = false) :
    getGraphVersion state graphOid = 0 := by
  induction state with
  | nil => rfl
  | cons entry rest inductionHypothesis =>
      simp only [hasEntry, List.any_cons, Bool.or_eq_false_iff, beq_eq_false_iff_ne] at missing
      rw [getGraphVersion, if_neg missing.1, inductionHypothesis missing.2]

theorem getGraphVersion_countUp (present : hasEntry state graphOid = true) :
    getGraphVersion (countUp state graphOid) graphOid = getGraphVersion state graphOid + 1 := by
  induction state with
  | nil => cases present
  | cons entry rest inductionHypothesis =>
      rw [countUp, getGraphVersion]
      split_ifs with isEntry
      · rw [getGraphVersion, if_pos isEntry]
      · rw [getGraphVersion, if_neg isEntry]
        refine inductionHypothesis ?_
        simpa [hasEntry, isEntry] using present

theorem getGraphVersion_countUp_other (differ : other ≠ graphOid) :
    getGraphVersion (countUp state graphOid) other = getGraphVersion state other := by
  induction state with
  | nil => rfl
  | cons entry rest inductionHypothesis =>
      rw [countUp]
      split_ifs with isEntry
      · rw [getGraphVersion, getGraphVersion, if_neg (isEntry ▸ differ.symm),
          if_neg (isEntry ▸ differ.symm)]
      · rw [getGraphVersion, getGraphVersion, inductionHypothesis]

theorem getGraphVersion_reuseEntry (free : hasEntry state 0 = true)
    (missing : hasEntry state graphOid = false) :
    getGraphVersion (reuseEntry state graphOid) graphOid = 1 := by
  induction state with
  | nil => cases free
  | cons entry rest inductionHypothesis =>
      simp only [hasEntry, List.any_cons, Bool.or_eq_false_iff, beq_eq_false_iff_ne] at missing
      rw [reuseEntry]
      split_ifs with isFree
      · rw [getGraphVersion, if_pos rfl]
      · rw [getGraphVersion, if_neg missing.1]
        exact inductionHypothesis (by simpa [hasEntry, isFree] using free) missing.2

theorem getGraphVersion_reuseEntry_other (differ : other ≠ graphOid) (valid : other ≠ 0) :
    getGraphVersion (reuseEntry state graphOid) other = getGraphVersion state other := by
  induction state with
  | nil => rfl
  | cons entry rest inductionHypothesis =>
      rw [reuseEntry]
      split_ifs with isFree
      · rw [getGraphVersion, getGraphVersion, if_neg differ.symm, if_neg (isFree ▸ valid.symm)]
      · rw [getGraphVersion, getGraphVersion, inductionHypothesis]

theorem getGraphVersion_append (missing : hasEntry state graphOid = false)
    (more : GraphVersionState) :
    getGraphVersion (state ++ more) graphOid = getGraphVersion more graphOid := by
  induction state with
  | nil => rfl
  | cons entry rest inductionHypothesis =>
      simp only [hasEntry, List.any_cons, Bool.or_eq_false_iff, beq_eq_false_iff_ne] at missing
      rw [List.cons_append, getGraphVersion, if_neg missing.1, inductionHypothesis missing.2]

theorem getGraphVersion_append_other (entry : VersionEntry) (differ : other ≠ entry.graphOid) :
    getGraphVersion (state ++ [entry]) other = getGraphVersion state other := by
  induction state with
  | nil => simp [getGraphVersion, differ.symm]
  | cons first rest inductionHypothesis =>
      rw [List.cons_append, getGraphVersion, getGraphVersion, inductionHypothesis]

/-- With room in the table a mutation counts the version of its graph up. -/
theorem getGraphVersion_increment (room : hasRoom ageMaxGraphs state graphOid = true) :
    getGraphVersion (incrementGraphVersion ageMaxGraphs state graphOid) graphOid =
      getGraphVersion state graphOid + 1 := by
  rw [incrementGraphVersion]
  split_ifs with present free small
  · exact getGraphVersion_countUp present
  · have missing : hasEntry state graphOid = false := Bool.eq_false_iff.mpr present
    rw [getGraphVersion_reuseEntry free missing, getGraphVersion_of_missing missing]
  · have missing : hasEntry state graphOid = false := Bool.eq_false_iff.mpr present
    rw [getGraphVersion_append missing, getGraphVersion_of_missing missing, getGraphVersion,
      if_pos rfl]
  · simp [hasRoom, present, free, small] at room

theorem getGraphVersion_increment_other (differ : other ≠ graphOid) (valid : other ≠ 0) :
    getGraphVersion (incrementGraphVersion ageMaxGraphs state graphOid) other =
      getGraphVersion state other := by
  rw [incrementGraphVersion]
  split_ifs
  · exact getGraphVersion_countUp_other differ
  · exact getGraphVersion_reuseEntry_other differ valid
  · exact getGraphVersion_append_other _ differ
  · rfl

theorem getGraphVersion_trimEntries (valid : graphOid ≠ 0) :
    getGraphVersion (trimEntries state) graphOid = getGraphVersion state graphOid := by
  induction state with
  | nil => rfl
  | cons entry rest inductionHypothesis =>
      rw [trimEntries]
      split_ifs with isFree
      · rw [isFree.1] at inductionHypothesis
        rw [getGraphVersion.eq_2, if_neg (isFree.2 ▸ valid.symm), ← inductionHypothesis]
      · rw [getGraphVersion, getGraphVersion, inductionHypothesis]

theorem getGraphVersion_freeEntry (unique : UniqueEntries state) (valid : graphOid ≠ 0) :
    getGraphVersion (freeEntry state graphOid) graphOid = 0 := by
  induction state with
  | nil => rfl
  | cons entry rest inductionHypothesis =>
      obtain ⟨first, later⟩ := List.pairwise_cons.mp unique
      rw [freeEntry]
      split_ifs with isEntry
      · rw [getGraphVersion, if_neg valid.symm]
        refine getGraphVersion_of_missing ?_
        rw [hasEntry, List.any_eq_false]
        intro other member same
        exact first other member (isEntry ▸ valid) (isEntry.trans (eq_of_beq same).symm)
      · rw [getGraphVersion, if_neg isEntry, inductionHypothesis later]

theorem getGraphVersion_freeEntry_other (differ : other ≠ graphOid) (valid : other ≠ 0) :
    getGraphVersion (freeEntry state graphOid) other = getGraphVersion state other := by
  induction state with
  | nil => rfl
  | cons entry rest inductionHypothesis =>
      rw [freeEntry]
      split_ifs with isEntry
      · rw [getGraphVersion, getGraphVersion, if_neg valid.symm, if_neg (isEntry ▸ differ.symm)]
      · rw [getGraphVersion, getGraphVersion, inductionHypothesis]

theorem getGraphVersion_remove (unique : UniqueEntries state) (valid : graphOid ≠ 0) :
    getGraphVersion (removeGraphVersion state graphOid) graphOid = 0 := by
  rw [removeGraphVersion]
  split_ifs with present
  · rw [getGraphVersion_trimEntries valid, getGraphVersion_freeEntry unique valid]
  · exact getGraphVersion_of_missing (Bool.eq_false_iff.mpr present)

theorem getGraphVersion_remove_other (differ : other ≠ graphOid) (valid : other ≠ 0) :
    getGraphVersion (removeGraphVersion state graphOid) other = getGraphVersion state other := by
  rw [removeGraphVersion]
  split_ifs
  · rw [getGraphVersion_trimEntries valid, getGraphVersion_freeEntry_other differ valid]
  · rfl

section Unique

theorem mem_countUp {entry : VersionEntry} (member : entry ∈ countUp state graphOid) :
    ∃ before ∈ state, before.graphOid = entry.graphOid := by
  induction state with
  | nil => cases member
  | cons first rest inductionHypothesis =>
      rw [countUp] at member
      split_ifs at member with isFirst
      · rcases List.mem_cons.mp member with rfl | later
        · exact ⟨first, List.mem_cons_self, rfl⟩
        · exact ⟨entry, List.mem_cons_of_mem _ later, rfl⟩
      · rcases List.mem_cons.mp member with rfl | later
        · exact ⟨entry, List.mem_cons_self, rfl⟩
        · obtain ⟨before, inside, same⟩ := inductionHypothesis later
          exact ⟨before, List.mem_cons_of_mem _ inside, same⟩

theorem UniqueEntries.countUp (unique : UniqueEntries state) :
    UniqueEntries (countUp state graphOid) := by
  induction state with
  | nil => exact unique
  | cons entry rest inductionHypothesis =>
      obtain ⟨first, later⟩ := List.pairwise_cons.mp unique
      rw [Graph.countUp]
      split_ifs
      · exact List.pairwise_cons.mpr ⟨first, later⟩
      · refine List.pairwise_cons.mpr ⟨fun other member inUse => ?_, inductionHypothesis later⟩
        obtain ⟨before, inside, same⟩ := mem_countUp member
        rw [← same]
        exact first before inside inUse

theorem mem_reuseEntry {entry : VersionEntry} (member : entry ∈ reuseEntry state graphOid) :
    entry ∈ state ∨ entry.graphOid = graphOid := by
  induction state with
  | nil => cases member
  | cons first rest inductionHypothesis =>
      rw [reuseEntry] at member
      split_ifs at member
      · rcases List.mem_cons.mp member with rfl | later
        · exact .inr rfl
        · exact .inl (List.mem_cons_of_mem _ later)
      · rcases List.mem_cons.mp member with rfl | later
        · exact .inl List.mem_cons_self
        · exact (inductionHypothesis later).imp_left (List.mem_cons_of_mem _)

theorem UniqueEntries.reuseEntry (unique : UniqueEntries state)
    (missing : hasEntry state graphOid = false) : UniqueEntries (reuseEntry state graphOid) := by
  induction state with
  | nil => exact unique
  | cons entry rest inductionHypothesis =>
      obtain ⟨first, later⟩ := List.pairwise_cons.mp unique
      simp only [hasEntry, List.any_cons, Bool.or_eq_false_iff, beq_eq_false_iff_ne,
        List.any_eq_false] at missing
      rw [Graph.reuseEntry]
      split_ifs
      · refine List.pairwise_cons.mpr ⟨fun other member _ same => ?_, later⟩
        exact missing.2 other member (beq_iff_eq.mpr same.symm)
      · refine List.pairwise_cons.mpr ⟨fun other member inUse => ?_, inductionHypothesis later ?_⟩
        · rcases mem_reuseEntry member with old | isNew
          · exact first other old inUse
          · rw [isNew]
            exact missing.1
        · rw [hasEntry, List.any_eq_false]
          exact missing.2

theorem UniqueEntries.incrementGraphVersion (unique : UniqueEntries state) :
    UniqueEntries (incrementGraphVersion ageMaxGraphs state graphOid) := by
  rw [Graph.incrementGraphVersion]
  split_ifs with present
  · exact unique.countUp
  · exact unique.reuseEntry (Bool.eq_false_iff.mpr present)
  · refine List.pairwise_append.mpr ⟨unique, List.pairwise_singleton _ _, ?_⟩
    intro entry member added isAdded _
    rw [List.mem_singleton.mp isAdded]
    intro same
    exact present (List.any_eq_true.mpr ⟨entry, member, beq_iff_eq.mpr same⟩)
  · exact unique

theorem UniqueEntries.freeEntry (unique : UniqueEntries state) :
    UniqueEntries (freeEntry state graphOid) ∧
      ∀ entry ∈ freeEntry state graphOid, entry ∈ state ∨ entry.graphOid = 0 := by
  induction state with
  | nil => exact ⟨unique, fun entry member => .inl member⟩
  | cons entry rest inductionHypothesis =>
      obtain ⟨first, later⟩ := List.pairwise_cons.mp unique
      obtain ⟨restUnique, kept⟩ := inductionHypothesis later
      rw [Graph.freeEntry]
      split_ifs
      · refine ⟨List.pairwise_cons.mpr ⟨fun _ _ isFree => absurd rfl isFree, later⟩, ?_⟩
        intro other member
        rcases List.mem_cons.mp member with rfl | inRest
        · exact .inr rfl
        · exact .inl (List.mem_cons_of_mem _ inRest)
      · refine ⟨List.pairwise_cons.mpr ⟨fun other member inUse => ?_, restUnique⟩, ?_⟩
        · rcases kept other member with old | isFree
          · exact first other old inUse
          · rw [isFree]
            exact inUse
        · intro other member
          rcases List.mem_cons.mp member with rfl | inRest
          · exact .inl List.mem_cons_self
          · exact (kept other inRest).imp_left (List.mem_cons_of_mem _)

theorem trimEntries_sublist (state : GraphVersionState) : (trimEntries state).Sublist state := by
  induction state with
  | nil => exact List.Sublist.slnil
  | cons entry rest inductionHypothesis =>
      rw [trimEntries]
      split_ifs
      · exact List.nil_sublist _
      · exact inductionHypothesis.cons_cons entry

theorem UniqueEntries.removeGraphVersion (unique : UniqueEntries state) :
    UniqueEntries (removeGraphVersion state graphOid) := by
  rw [Graph.removeGraphVersion]
  split_ifs
  · exact unique.freeEntry.1.sublist (trimEntries_sublist _)
  · exact unique

end Unique

end Table

end Age.Graph
