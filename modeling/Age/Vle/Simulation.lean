import Mathlib.Data.List.Forall2
import Age.Lib.Agrees
import Age.Vle.Compaction

/-!
# The arena and the paths

A traversal state simulates a path machine when its frame indexes denote the
machine's paths.  Each operation keeps this, whether the arena is compacted or
not, so that compaction changes nothing the caller can see.
-/

namespace Age.Vle

variable {Entry : Type}

section References

variable {frames : List (Frame Entry)} {segments : List ArenaSegment}

/-- Every segment on the way from a frame to the root is marked. -/
inductive Marked (frames : List (Frame Entry)) (referenced : List Bool) : Option Nat → Prop where
  | root : Marked frames referenced none
  | frame {index : Nat} {frame : Frame Entry} : frames[index]? = some frame →
      referenced[frame.arenaSegmentIndex]? = some true →
      Marked frames referenced frame.parentFrameIndex → Marked frames referenced (some index)

theorem Marked.mono {before after : List Bool}
    (grows : ∀ place : Nat, before[place]? = some true → after[place]? = some true)
    {index : Option Nat} (marked : Marked frames before index) : Marked frames after index := by
  induction marked with
  | root => exact .root
  | frame found mark _ inductionHypothesis => exact .frame found (grows _ mark) inductionHypothesis

/-- Frames of one segment have one parent. -/
theorem Denotes.same_segment {i j : Nat} {p q : Path Entry}
    (one : Denotes frames segments (some i) p) (two : Denotes frames segments (some j) q)
    {f g : Frame Entry} (foundOne : frames[i]? = some f) (foundTwo : frames[j]? = some g)
    (same : f.arenaSegmentIndex = g.arenaSegmentIndex) :
    f.parentFrameIndex = g.parentFrameIndex ∧ p.length = q.length := by
  cases one with
  | @frame _ frameOne segmentOne parentOne found segment _ _ link _ denotesOne =>
      cases two with
      | @frame _ frameTwo segmentTwo parentTwo found' segment' _ _ link' _ denotesTwo =>
          rw [foundOne] at found
          rw [foundTwo] at found'
          cases found
          cases found'
          rw [same, segment'] at segment
          cases segment
          have links : f.parentFrameIndex = g.parentFrameIndex := link.symm.trans link'
          rw [links] at denotesOne
          rw [denotesOne.unique denotesTwo]
          simp [links]

/-- The marked segments are closed under parents, up to a path length. -/
def ClosedMarks (frames : List (Frame Entry)) (segments : List ArenaSegment)
    (referenced : List Bool) (bound : Nat) : Prop :=
  ∀ index path frame, Denotes frames segments (some index) path → path.length ≤ bound →
    frames[index]? = some frame → referenced[frame.arenaSegmentIndex]? = some true →
    Marked frames referenced (some index)

structure MarkSpec (frames : List (Frame Entry)) (segments : List ArenaSegment)
    (before after : List Bool) (index : Option Nat) : Prop where
  marked : Marked frames after index
  length : after.length = before.length
  grows : ∀ place : Nat, before[place]? = some true → after[place]? = some true
  fresh : ∀ place : Nat, after[place]? = some true → before[place]? = some true ∨
    ∃ i p f, Denotes frames segments (some i) p ∧ frames[i]? = some f ∧
      f.arenaSegmentIndex = place ∧ Marked frames after (some i)

theorem markReferencedChain_spec {index : Option Nat} {path : Path Entry}
    (denotes : Denotes frames segments index path) {fuel : Nat} (enough : path.length ≤ fuel)
    {referenced : List Bool} (lengths : referenced.length = segments.length)
    (closed : ClosedMarks frames segments referenced path.length) :
    MarkSpec frames segments referenced
      (markReferencedChain frames segments fuel referenced index) index := by
  induction denotes generalizing fuel referenced with
  | root =>
      have same : markReferencedChain frames segments fuel referenced none = referenced := by
        cases fuel <;> rfl
      rw [same]
      exact ⟨.root, rfl, fun _ mark => mark, fun _ mark => .inl mark⟩
  | @frame index frame segment parent found segmentFound live kept link below denotesParent
      inductionHypothesis =>
      have denotesFrame : Denotes frames segments (some index) (parent ++ [frame.step]) :=
        .frame found segmentFound live kept link below denotesParent
      rw [List.length_append, List.length_singleton] at enough closed
      obtain ⟨fuel, rfl⟩ : ∃ rest, fuel = rest + 1 := ⟨fuel - 1, by omega⟩
      rw [markReferencedChain]
      simp only [found]
      split_ifs with already
      · exact ⟨closed index _ frame denotesFrame (by simp) found already, rfl,
          fun _ mark => mark, fun _ mark => .inl mark⟩
      · simp only [segmentFound, link]
        have inside : frame.arenaSegmentIndex < referenced.length := by
          rw [lengths]
          exact (List.getElem?_eq_some_iff.mp segmentFound).1
        have setGrows : ∀ place : Nat, referenced[place]? = some true →
            (referenced.set frame.arenaSegmentIndex true)[place]? = some true := by
          intro place mark
          rw [List.getElem?_set]
          split_ifs <;> first | rfl | exact mark
        have setFresh : ∀ place : Nat,
            (referenced.set frame.arenaSegmentIndex true)[place]? = some true →
            referenced[place]? = some true ∨ place = frame.arenaSegmentIndex := by
          intro place mark
          rw [List.getElem?_set] at mark
          split_ifs at mark with here
          · exact .inr here.symm
          · exact .inl mark
        -- a shorter path does not lead through this segment
        have closedParent : ClosedMarks frames segments
            (referenced.set frame.arenaSegmentIndex true) parent.length := by
          intro other otherPath otherFrame denotesOther short foundOther mark
          rcases setFresh _ mark with old | here
          · exact (closed other otherPath otherFrame denotesOther (by omega) foundOther old).mono
              setGrows
          · have equal := (denotesOther.same_segment denotesFrame foundOther found here).2
            simp at equal
            omega
        have spec := @inductionHypothesis fuel (by omega)
          (referenced.set frame.arenaSegmentIndex true) (by simpa using lengths) closedParent
        have here : (markReferencedChain frames segments fuel
            (referenced.set frame.arenaSegmentIndex true) frame.parentFrameIndex)[
              frame.arenaSegmentIndex]? = some true := by
          apply spec.grows
          rw [List.getElem?_set]
          simp [inside]
        have marked := Marked.frame found here spec.marked
        refine ⟨marked, by simpa using spec.length, fun place mark =>
          spec.grows place (setGrows place mark), fun place mark => ?_⟩
        rcases spec.fresh place mark with old | new
        · rcases setFresh place old with old | rfl
          · exact .inl old
          · exact .inr ⟨index, _, frame, denotesFrame, found, rfl, marked⟩
        · exact .inr new

theorem ClosedMarks.after {before after : List Bool} {index : Option Nat} {bound : Nat}
    (closed : ∀ bound, ClosedMarks frames segments before bound)
    (spec : MarkSpec frames segments before after index) :
    ClosedMarks frames segments after bound := by
  intro other path frame denotes short found mark
  rcases spec.fresh _ mark with old | ⟨i, p, f, denotesNew, foundNew, same, marked⟩
  · exact (closed _ other path frame denotes short found old).mono spec.grows
  · have links := (denotesNew.same_segment denotes foundNew found same).1
    cases marked with
    | frame foundAgain _ markedParent =>
        rw [foundNew] at foundAgain
        cases foundAgain
        rw [links] at markedParent
        exact .frame found mark markedParent

/-- After a probe's walk over all references, each of their chains is marked. -/
theorem foldl_markReferencedChain {indexes : List (Option Nat)}
    (denotes : ∀ index ∈ indexes, ∃ path, Denotes frames segments index path)
    {referenced : List Bool} (lengths : referenced.length = segments.length)
    (closed : ∀ bound, ClosedMarks frames segments referenced bound) :
    let after := indexes.foldl (markReferencedChain frames segments frames.length) referenced
    (∀ index ∈ indexes, Marked frames after index) ∧ after.length = segments.length ∧
      ∀ place : Nat, referenced[place]? = some true → after[place]? = some true := by
  induction indexes generalizing referenced with
  | nil => exact ⟨by simp, lengths, fun _ mark => mark⟩
  | cons index rest inductionHypothesis =>
      obtain ⟨path, denotesIndex⟩ := denotes index List.mem_cons_self
      have enough : path.length ≤ frames.length := by
        cases index with
        | none => cases denotesIndex; simp
        | some place =>
            have length := denotesIndex.length_le
            have inside := denotesIndex.inside
            omega
      have spec := markReferencedChain_spec denotesIndex enough lengths (closed _)
      obtain ⟨marked, length, grows⟩ := inductionHypothesis
        (fun other membership => denotes other (List.mem_cons_of_mem _ membership))
        (spec.length.trans lengths) (fun bound => ClosedMarks.after closed spec)
      refine ⟨fun other membership => ?_, length, fun place mark =>
        grows place (spec.grows place mark)⟩
      rcases List.mem_cons.mp membership with rfl | inRest
      · exact spec.marked.mono grows
      · exact marked other inRest

/-- A chain whose segments are marked outlives the probe. -/
theorem Denotes.probe {referenced : List Bool} {index : Option Nat} {path : Path Entry}
    (denotes : Denotes frames segments index path) (marked : Marked frames referenced index) :
    Denotes frames (List.zipWith probeSegment segments referenced) index path := by
  induction denotes with
  | root => exact .root
  | @frame index frame segment parent found segmentFound live kept link below _
      inductionHypothesis =>
      cases marked with
      | frame foundAgain mark markedParent =>
          rw [found] at foundAgain
          cases foundAgain
          have same : (List.zipWith probeSegment segments referenced)[frame.arenaSegmentIndex]? =
              some segment := by
            rw [List.getElem?_zipWith, segmentFound, mark]
            simp [probeSegment, becomesCandidate]
          exact .frame found same live kept link below (inductionHypothesis markedParent)

end References

section Layout

/-- Segments that own the same frames. -/
def SameBlock (a b : ArenaSegment) : Prop :=
  a.framesCompacted = b.framesCompacted ∧ a.frameStart = b.frameStart ∧
    a.frameCount = b.frameCount

theorem Layout.congr {index position : Nat} {segments changed : List ArenaSegment}
    {frames : List (Frame Entry)} (layout : Layout index position segments frames)
    (same : List.Forall₂ SameBlock segments changed) :
    Layout index position changed frames := by
  induction layout generalizing changed with
  | nil => cases same; exact .nil
  | compacted dead _ inductionHypothesis =>
      cases same with
      | cons block rest => exact .compacted (block.1 ▸ dead) (inductionHypothesis rest)
  | block live start length nonempty owned _ inductionHypothesis =>
      cases same with
      | cons block rest =>
          refine .block (block.1 ▸ live) (block.2.1 ▸ start) (block.2.2 ▸ length) nonempty owned ?_
          rw [← block.2.2]
          exact inductionHypothesis rest

/-- A new segment with one frame. -/
theorem Layout.append {index position : Nat} {segments : List ArenaSegment}
    {frames : List (Frame Entry)} (layout : Layout index position segments frames)
    {segment : ArenaSegment} {frame : Frame Entry} (live : segment.framesCompacted = false)
    (start : segment.frameStart = some (position + frames.length)) (count : segment.frameCount = 1)
    (owner : frame.arenaSegmentIndex = index + segments.length) :
    Layout index position (segments ++ [segment]) (frames ++ [frame]) := by
  induction layout with
  | nil =>
      have result : Layout _ _ [segment] ([frame] ++ []) :=
        .block live start count.symm (by simp) (by simpa using owner) .nil
      exact result
  | compacted dead _ inductionHypothesis =>
      refine .compacted dead (inductionHypothesis start ?_)
      rw [owner, List.length_cons]
      omega
  | block liveHead startHead length nonempty owned _ inductionHypothesis =>
      rw [List.append_assoc]
      refine .block liveHead startHead length nonempty owned (inductionHypothesis ?_ ?_)
      · rw [start, List.length_append, length]
        congr 1
        omega
      · rw [owner, List.length_cons]
        omega

/-- One more frame for the last segment. -/
theorem Layout.extend {index position : Nat} {segments : List ArenaSegment}
    {last : ArenaSegment} {frames : List (Frame Entry)}
    (layout : Layout index position (segments ++ [last]) frames) {frame : Frame Entry}
    (live : last.framesCompacted = false)
    (owner : frame.arenaSegmentIndex = index + segments.length) :
    Layout index position (segments ++ [recordFrameWork last]) (frames ++ [frame]) := by
  induction segments generalizing index position frames with
  | nil =>
      cases layout with
      | compacted dead _ => rw [live] at dead; cases dead
      | @block _ _ _ _ own others _ start length nonempty owned rest =>
          cases rest
          rw [List.append_nil]
          have result : Layout index position [recordFrameWork last] ((own ++ [frame]) ++ []) := by
            refine .block live start (by simp [recordFrameWork, length]) (by simp) ?_ .nil
            intro other membership
            rcases List.mem_append.mp membership with old | new
            · exact owned other old
            · rw [List.mem_singleton.mp new]
              simpa using owner
          simpa using result
  | cons head tail inductionHypothesis =>
      rw [List.length_cons] at owner
      cases layout with
      | compacted dead rest => exact .compacted dead (inductionHypothesis rest (by omega))
      | block liveHead start length nonempty owned rest =>
          rw [List.append_assoc]
          exact .block liveHead start length nonempty owned (inductionHypothesis rest (by omega))

end Layout

section Simulates

/-- A pending item stands for a visit or a backtrack of a path. -/
structure ItemDenotes (frames : List (Frame Entry)) (segments : List ArenaSegment)
    (item : WorkItem) (work : WorkPath Entry) : Prop where
  kind : item.kind = work.kind
  pathLength : item.pathLength = work.step.pathLength
  denotes : Denotes frames segments (some item.frameIndex) (work.parent ++ [work.step])

/-- A traversal state stands for a path machine. -/
structure Simulates (state : TraversalState Entry) (machine : PathMachine Entry) : Prop where
  path : state.path = machine.path
  iteratorPolicy : state.iteratorPolicy = machine.iteratorPolicy
  active : Denotes state.frames state.arenaSegments.array state.activeFrameIndex machine.active
  work : List.Forall₂ (ItemDenotes state.frames state.arenaSegments.array) state.items machine.work
  layout : Layout 0 0 state.arenaSegments.array state.frames
  follows : machine.iteratorPolicy = .levelBatch → machine.path.Follows machine.active

variable {state : TraversalState Entry} {machine : PathMachine Entry}

theorem ItemDenotes.mono {frames later : List (Frame Entry)}
    {segments changed : List ArenaSegment} {item : WorkItem} {work : WorkPath Entry}
    (denotes : ItemDenotes frames segments item work)
    (keep : ∀ path, Denotes frames segments (some item.frameIndex) path →
      Denotes later changed (some item.frameIndex) path) :
    ItemDenotes later changed item work :=
  ⟨denotes.kind, denotes.pathLength, keep _ denotes.denotes⟩

/-- The frame of an item that denotes a path. -/
theorem Denotes.last {frames : List (Frame Entry)} {segments : List ArenaSegment} {index : Nat}
    {parent : Path Entry} {step : PathStep Entry}
    (denotes : Denotes frames segments (some index) (parent ++ [step])) :
    ∃ frame, frames[index]? = some frame ∧ frame.step = step ∧
      Denotes frames segments frame.parentFrameIndex parent := by
  generalize target : parent ++ [step] = path at denotes
  cases denotes with
  | frame found _ _ _ _ _ denotesParent =>
      obtain ⟨same, steps⟩ := List.append_inj' target rfl
      rw [← same] at denotesParent
      exact ⟨_, found, (List.cons.inj steps).1.symm, denotesParent⟩

theorem simulates_init (storePathEdges : Bool) (iteratorPolicy : IteratorPolicy)
    (edgeState : EdgeState) (startVertexId : GraphId) (unused : edgeState.UsedExactly []) :
    Simulates (traversalStateInit storePathEdges iteratorPolicy edgeState startVertexId)
      (⟨[], iteratorPolicy, (@traversalStateInit Entry storePathEdges iteratorPolicy
        edgeState startVertexId).path, []⟩ : PathMachine Entry) where
  path := rfl
  iteratorPolicy := rfl
  active := .root
  work := .nil
  layout := .nil
  follows _ := by
    refine ⟨fun stack found => ?_, rfl, ⟨startVertexId, rfl⟩, unused, rfl⟩
    cases storePathEdges <;> simp_all [traversalStateInit]

theorem forall₂_left {α β : Type} {relation : α → β → Prop} {as : List α} {bs : List β}
    (related : List.Forall₂ relation as bs) {a : α} (membership : a ∈ as) :
    ∃ b ∈ bs, relation a b := by
  induction related with
  | nil => cases membership
  | cons first _ inductionHypothesis =>
      rcases List.mem_cons.mp membership with rfl | inRest
      · exact ⟨_, List.mem_cons_self, first⟩
      · obtain ⟨b, inside, holds⟩ := inductionHypothesis inRest
        exact ⟨b, List.mem_cons_of_mem _ inside, holds⟩

theorem forall₂_mono {α β : Type} {first second : α → β → Prop} {as : List α} {bs : List β}
    (related : List.Forall₂ first as bs)
    (weaker : ∀ a ∈ as, ∀ b, first a b → second a b) : List.Forall₂ second as bs := by
  induction related with
  | nil => exact .nil
  | cons head _ inductionHypothesis =>
      exact .cons (weaker _ List.mem_cons_self _ head)
        (inductionHypothesis fun a membership => weaker a (List.mem_cons_of_mem _ membership))

theorem sameBlock_probe (segments : List ArenaSegment) {referenced : List Bool}
    (lengths : referenced.length = segments.length) :
    List.Forall₂ SameBlock segments (List.zipWith probeSegment segments referenced) := by
  induction segments generalizing referenced with
  | nil => simp
  | cons segment rest inductionHypothesis =>
      cases referenced with
      | nil => simp at lengths
      | cons mark marks =>
          refine .cons ?_ (inductionHypothesis (by simpa using lengths))
          unfold probeSegment
          cases becomesCandidate segment mark <;> exact ⟨rfl, rfl, rfl⟩

theorem Simulates.probe (simulates : Simulates state machine) :
    Simulates (probeReferences state) machine := by
  have denotes : ∀ index ∈ state.activeFrameIndex :: state.items.map fun item =>
      some item.frameIndex, ∃ path, Denotes state.frames state.arenaSegments.array index path := by
    intro index membership
    rcases List.mem_cons.mp membership with rfl | inItems
    · exact ⟨_, simulates.active⟩
    · obtain ⟨item, inside, rfl⟩ := List.mem_map.mp inItems
      obtain ⟨work, -, related⟩ := forall₂_left simulates.work inside
      exact ⟨_, related.denotes⟩
  obtain ⟨marked, lengths, -⟩ := @foldl_markReferencedChain Entry state.frames
    state.arenaSegments.array _ denotes (List.replicate state.arenaSegments.array.length false)
    (by simp) (by
      intro bound index path frame _ _ _ mark
      simp [List.getElem?_replicate] at mark)
  refine ⟨simulates.path, simulates.iteratorPolicy, ?_, ?_, ?_, simulates.follows⟩
  · exact simulates.active.probe (marked _ List.mem_cons_self)
  · refine forall₂_mono simulates.work fun item inside work related => related.mono ?_
    intro path denotesItem
    refine denotesItem.probe (marked _ (List.mem_cons_of_mem _ ?_))
    exact List.mem_map.mpr ⟨item, inside, rfl⟩
  · exact simulates.layout.congr (sameBlock_probe _ lengths)

theorem Simulates.compact (simulates : Simulates state machine) :
    Simulates (compactWindows state) machine := by
  unfold compactWindows
  dsimp only
  split_ifs with nothing
  · exact simulates
  · have moved := (moveFrameWindows_collect simulates.layout rfl).1
    have places := (frameIndexAfter_collect simulates.layout rfl).1
    refine ⟨simulates.path, simulates.iteratorPolicy, ?_, ?_, ?_, simulates.follows⟩
    · simp only [moved]
      exact (simulates.active.compact simulates.layout).1
    · simp only [moved]
      rw [List.forall₂_map_left_iff]
      refine forall₂_mono simulates.work fun item _ work related => ?_
      obtain ⟨denotes, place⟩ := related.denotes.compact simulates.layout
      refine ⟨related.kind, related.pathLength, ?_⟩
      have index := place item.frameIndex rfl
      rw [frameIndexAfterCompactionWindows, Option.bind_some, index] at denotes
      simp only [index, Option.getD_some]
      exact denotes
    · simp only [moved]
      refine simulates.layout.compact rfl fun offset frame found => ?_
      have after := places 0 (Nat.le_refl _) offset frame found
      simpa using after

/-- A refresh of the arena is invisible. -/
theorem Simulates.refresh (simulates : Simulates state machine) (limits : Option ArenaLimits) :
    Simulates (refreshCompactableCandidates limits state) machine := by
  cases limits with
  | none => exact simulates
  | some limits =>
      have probed : Simulates (bif probes limits state then probeReferences state else state)
          machine := by
        cases probes limits state with
        | false => exact simulates
        | true => exact simulates.probe
      simp only [refreshCompactableCandidates]
      cases compacts limits (bif probes limits state then probeReferences state else state) with
      | false => exact probed
      | true => exact probed.compact

end Simulates

section Push

variable {state : TraversalState Entry} {machine : PathMachine Entry}

/-- The last segment takes more frames of the active path. -/
def OpenSegment (state : TraversalState Entry) (index : Nat) : Prop :=
  ∃ before last, state.arenaSegments.array = before ++ [last] ∧ index = before.length ∧
    last.compactableCandidate = false ∧ last.framesCompacted = false ∧
    last.parentFrameIndex = state.activeFrameIndex

theorem modify_last {α : Type} (before : List α) (last : α) (f : α → α) :
    (before ++ [last]).modify before.length f = before ++ [f last] := by
  induction before with
  | nil => rfl
  | cons head tail inductionHypothesis =>
      rw [List.cons_append, List.length_cons, List.modify_succ_cons, inductionHypothesis,
        List.cons_append]

/-- A frame at the end, in a segment at the end that is not a candidate. -/
theorem Simulates.pushed (simulates : Simulates state machine) (candidate : Candidate Entry)
    {opened : TraversalState Entry} {before : List ArenaSegment} {last : ArenaSegment}
    (frames : opened.frames = state.frames) (items : opened.items = state.items)
    (policy : opened.iteratorPolicy = state.iteratorPolicy) (path : opened.path = state.path)
    (active : opened.activeFrameIndex = state.activeFrameIndex)
    (segments : opened.arenaSegments.array = before ++ [last])
    (live : last.compactableCandidate = false) (kept : last.framesCompacted = false)
    (link : last.parentFrameIndex = state.activeFrameIndex)
    (older : ∀ (place : Nat) segment, state.arenaSegments.array[place]? = some segment →
      (before ++ [last])[place]? = some segment)
    (layout : ∀ frame : Frame Entry, frame.arenaSegmentIndex = before.length →
      Layout 0 0 (before ++ [recordFrameWork last]) (state.frames ++ [frame])) :
    Simulates (pushFrame before.length state.activeFrameIndex opened candidate)
        (machine.push candidate) ∧
      OpenSegment (pushFrame before.length state.activeFrameIndex opened candidate)
        before.length := by
  have recorded : ∀ (place : Nat) segment, state.arenaSegments.array[place]? = some segment →
      segment.compactableCandidate = false →
      ∃ after, (before ++ [recordFrameWork last])[place]? = some after ∧
        after.compactableCandidate = false ∧ after.framesCompacted = segment.framesCompacted ∧
        after.parentFrameIndex = segment.parentFrameIndex := by
    intro place segment found candidateFree
    have there := older place segment found
    rw [List.getElem?_append] at there ⊢
    split_ifs at there ⊢ with inside
    · exact ⟨segment, there, candidateFree, rfl, rfl⟩
    · obtain ⟨zero, rfl⟩ := List.getElem?_eq_some_iff.mp there
      have place_eq : place - before.length = 0 := by simpa using zero
      simp only [place_eq, List.getElem_singleton] at *
      exact ⟨recordFrameWork last, rfl, live, rfl, rfl⟩
  have appended : ∀ (frame : Frame Entry) (place : Nat) other,
      state.frames[place]? = some other → (state.frames ++ [frame])[place]? = some other := by
    intro frame place other found
    rw [List.getElem?_append_left (List.getElem?_eq_some_iff.mp found).1]
    exact found
  have newSegments : (pushFrame before.length state.activeFrameIndex opened
      candidate).arenaSegments.array = before ++ [recordFrameWork last] := by
    simp [pushFrame, worklistPush, segments, modify_last]
  refine ⟨⟨?_, ?_, ?_, ?_, ?_, ?_⟩, before, recordFrameWork last, newSegments, rfl, live, kept, ?_⟩
  · exact path.trans simulates.path
  · exact policy.trans simulates.iteratorPolicy
  · rw [newSegments]
    simp only [pushFrame, worklistPush, frames, active]
    exact simulates.active.mono (appended _) recorded
  · rw [newSegments]
    simp only [pushFrame, worklistPush, frames, items, PathMachine.push]
    refine List.rel_append (forall₂_mono simulates.work fun item _ work related =>
      related.mono fun path denotes => denotes.mono (appended _) recorded) (.cons ?_ .nil)
    refine ⟨rfl, rfl, ?_⟩
    have found : (state.frames ++ [candidate.frame state.activeFrameIndex before.length])[
        state.frames.length]? = some (candidate.frame state.activeFrameIndex before.length) := by
      simp
    have owner : (before ++ [recordFrameWork last])[before.length]? =
        some (recordFrameWork last) := by
      simp
    refine .frame found owner live kept link ?_ (simulates.active.mono (appended _) recorded)
    intro place membership
    have denotes := simulates.active
    have activeIndex : state.activeFrameIndex = some place := membership
    rw [activeIndex] at denotes
    exact denotes.inside
  · rw [newSegments]
    simp only [pushFrame, worklistPush, frames]
    exact layout _ rfl
  · exact simulates.follows
  · simp [pushFrame, worklistPush, active, recordFrameWork, link]

theorem Simulates.pushNew (simulates : Simulates state machine) (candidate : Candidate Entry) :
    Simulates (pushFrame state.arenaSegments.array.length state.activeFrameIndex
        (beginSegment state candidate.pathLength) candidate) (machine.push candidate) ∧
      OpenSegment (pushFrame state.arenaSegments.array.length state.activeFrameIndex
        (beginSegment state candidate.pathLength) candidate)
        state.arenaSegments.array.length := by
  refine simulates.pushed candidate rfl rfl rfl rfl rfl rfl rfl rfl rfl ?_ ?_
  · intro place segment found
    rw [List.getElem?_append_left (List.getElem?_eq_some_iff.mp found).1]
    exact found
  · intro frame owner
    exact simulates.layout.append rfl (by simp [recordFrameWork, arenaSegmentBegin]) rfl
      (by rw [owner, Nat.zero_add])

theorem Simulates.pushMore (simulates : Simulates state machine) (candidate : Candidate Entry)
    {index : Nat} (segment : OpenSegment state index) :
    Simulates (pushFrame index state.activeFrameIndex state candidate) (machine.push candidate) ∧
      OpenSegment (pushFrame index state.activeFrameIndex state candidate) index := by
  obtain ⟨before, last, segments, rfl, live, kept, link⟩ := segment
  refine simulates.pushed candidate rfl rfl rfl rfl rfl segments live kept link ?_ ?_
  · intro place segment found
    rw [← segments]
    exact found
  · intro frame owner
    have layout := simulates.layout
    rw [segments] at layout
    exact layout.extend kept (by rw [owner, Nat.zero_add])

/-- Results of an operation on a state and on a machine. -/
def SameResult {α : Type} (a : α × TraversalState Entry) (b : α × PathMachine Entry) : Prop :=
  a.1 = b.1 ∧ Simulates a.2 b.2

theorem pushCandidateIfMatched_agrees (simulates : Simulates state machine)
    (candidate : Candidate Entry) :
    Agrees SameResult (pushCandidateIfMatched state candidate)
      (machine.pushCandidate candidate) := by
  rw [pushCandidateIfMatched, PathMachine.pushCandidate, simulates.path]
  refine Agrees.bind (Agrees.refl (fun _ => rfl) _) ?_
  rintro pushable _ rfl
  cases pushable with
  | false => exact ⟨rfl, simulates⟩
  | true => exact ⟨rfl, (simulates.pushNew candidate).1⟩

theorem pushBatchLoop_agrees (targetLabelId : Int) (candidates : List (Candidate Entry))
    (segment : Option Nat) (simulates : Simulates state machine)
    (isOpen : ∀ index ∈ segment, OpenSegment state index) :
    Agrees SameResult (pushBatchLoop targetLabelId segment state candidates)
      (machine.pushBatch targetLabelId candidates) := by
  induction candidates generalizing segment state machine with
  | nil => exact ⟨rfl, simulates⟩
  | cons candidate rest inductionHypothesis =>
      rw [pushBatchLoop, PathMachine.pushBatch, simulates.path]
      refine Agrees.bind (Agrees.refl (fun _ => rfl) _) ?_
      rintro pushable _ rfl
      cases pushable with
      | false =>
          refine Agrees.bind (inductionHypothesis segment simulates isOpen) ?_
          rintro ⟨pushed, final⟩ ⟨_, finalMachine⟩ ⟨rfl, simulatesFinal⟩
          exact ⟨rfl, simulatesFinal⟩
      | true =>
          obtain ⟨simulatesNext, openNext⟩ : Simulates (pushFrame
              (segment.getD state.arenaSegments.array.length) state.activeFrameIndex
              (if segment.isSome then state else beginSegment state candidate.pathLength)
              candidate) (machine.push candidate) ∧ OpenSegment (pushFrame
              (segment.getD state.arenaSegments.array.length) state.activeFrameIndex
              (if segment.isSome then state else beginSegment state candidate.pathLength)
              candidate) (segment.getD state.arenaSegments.array.length) := by
            cases segment with
            | none => exact simulates.pushNew candidate
            | some index => exact simulates.pushMore candidate (isOpen index rfl)
          refine Agrees.bind (inductionHypothesis _ simulatesNext
            (fun index membership => by
              cases membership
              exact openNext)) ?_
          rintro ⟨pushed, final⟩ ⟨_, finalMachine⟩ ⟨rfl, simulatesFinal⟩
          exact ⟨rfl, simulatesFinal⟩

end Push

section Consume

variable {state : TraversalState Entry} {machine : PathMachine Entry}

theorem switchActivePath_agrees (simulates : Simulates state machine)
    (replays : machine.iteratorPolicy = .levelBatch) {target : Option Nat} {path : Path Entry}
    (denotes : Denotes state.frames state.arenaSegments.array target path) :
    Agrees (fun next other => Simulates next other ∧ next.frames = state.frames ∧
        next.arenaSegments = state.arenaSegments ∧ next.items = state.items ∧ other.active = path)
      (switchActivePath state target) (machine.switchTo path) := by
  have follows := simulates.follows replays
  rw [switchActivePath, PathMachine.switchTo]
  split_ifs with same
  · subst same
    have whole : path = machine.active := denotes.unique simulates.active
    subst whole
    have again := follows.switch_self
    cases cleared : machine.path.clear with
    | error error => rw [cleared] at again; cases again
    | ok clearedPath =>
        rw [cleared] at again
        have replayed : machine.active.foldlM ActivePath.enter clearedPath = .ok machine.path :=
          again
        simp only [bind, Except.bind, replayed]
        exact ⟨simulates, rfl, rfl, rfl, rfl⟩
  · rw [simulates.path, denotes.chain]
    cases cleared : machine.path.clear with
    | error error => exact rfl
    | ok clearedPath =>
        simp only [bind, Except.bind]
        cases replayed : path.foldlM ActivePath.enter clearedPath with
        | error error => exact rfl
        | ok next =>
            refine ⟨⟨rfl, simulates.iteratorPolicy, denotes, simulates.work, simulates.layout,
              fun _ => ?_⟩, rfl, rfl, rfl, rfl⟩
            obtain ⟨other, run, followsNone, -⟩ := follows.clear
            rw [cleared] at run
            cases run
            simpa using followsNone.of_replay replayed

theorem sameBlock_recordWorkConsumed (segments : ArenaSegmentList) (index : Option Nat) :
    List.Forall₂ (fun a b => SameBlock a b ∧ a.compactableCandidate = b.compactableCandidate ∧
        a.parentFrameIndex = b.parentFrameIndex)
      segments.array (recordWorkConsumed segments index).array := by
  have same (list : List ArenaSegment) : List.Forall₂ (fun a b => SameBlock a b ∧
      a.compactableCandidate = b.compactableCandidate ∧
      a.parentFrameIndex = b.parentFrameIndex) list list :=
    List.forall₂_same.mpr fun _ _ => ⟨⟨rfl, rfl, rfl⟩, rfl, rfl⟩
  have set (list : List ArenaSegment) (place : Nat) {old changed : ArenaSegment}
      (found : list[place]? = some old) (block : SameBlock old changed ∧
        old.compactableCandidate = changed.compactableCandidate ∧
        old.parentFrameIndex = changed.parentFrameIndex) :
      List.Forall₂ (fun a b => SameBlock a b ∧ a.compactableCandidate = b.compactableCandidate ∧
        a.parentFrameIndex = b.parentFrameIndex) list (list.set place changed) := by
    induction list generalizing place with
    | nil => exact .nil
    | cons head tail inductionHypothesis =>
        cases place with
        | zero =>
            cases found
            exact .cons block (same tail)
        | succ place =>
            exact .cons ⟨⟨rfl, rfl, rfl⟩, rfl, rfl⟩ (inductionHypothesis place found)
  unfold recordWorkConsumed
  cases index with
  | none => exact same _
  | some place =>
      dsimp only
      cases found : segments.array[place]? with
      | none => exact same _
      | some old =>
          dsimp only
          split_ifs
          · exact set _ _ found ⟨⟨rfl, rfl, rfl⟩, rfl, rfl⟩
          · exact set _ _ found ⟨⟨rfl, rfl, rfl⟩, rfl, rfl⟩

/-- Counting an item as consumed leaves what the indexes denote. -/
theorem Denotes.recorded {frames : List (Frame Entry)} {segments : ArenaSegmentList}
    {index : Option Nat} {path : Path Entry} (denotes : Denotes frames segments.array index path)
    (consumed : Option Nat) :
    Denotes frames (recordWorkConsumed segments consumed).array index path := by
  have blocks := sameBlock_recordWorkConsumed segments consumed
  refine denotes.mono (fun _ _ found => found) ?_
  intro place segment found live
  have lengths := blocks.length_eq
  obtain ⟨inside, here⟩ := List.getElem?_eq_some_iff.mp found
  have there := blocks.get inside (lengths ▸ inside)
  rw [List.get_eq_getElem, List.get_eq_getElem] at there
  refine ⟨_, List.getElem?_eq_getElem (lengths ▸ inside), ?_, ?_, ?_⟩
  · rw [← there.2.1, ← live, ← here]
  · rw [← there.1.1, ← here]
  · rw [← there.2.2, ← here]

theorem Simulates.recorded (simulates : Simulates state machine) (consumed : Option Nat) :
    Simulates { state with
      arenaSegments := recordWorkConsumed state.arenaSegments consumed } machine := by
  refine ⟨simulates.path, simulates.iteratorPolicy, simulates.active.recorded consumed, ?_, ?_,
    simulates.follows⟩
  · exact forall₂_mono simulates.work fun item _ work related =>
      related.mono fun path denotes => denotes.recorded consumed
  · exact simulates.layout.congr ((sameBlock_recordWorkConsumed _ _).imp fun _ _ block => block.1)

theorem forall₂_eraseIdx {α β : Type} {relation : α → β → Prop} {as : List α} {bs : List β}
    (related : List.Forall₂ relation as bs) (place : Nat) :
    List.Forall₂ relation (as.eraseIdx place) (bs.eraseIdx place) := by
  induction related generalizing place with
  | nil => exact .nil
  | cons head tail inductionHypothesis =>
      cases place with
      | zero => exact tail
      | succ place => exact .cons head (inductionHypothesis place)

theorem Simulates.removed (simulates : Simulates state machine) (workIndex : Nat) :
    Simulates (state.removeItem workIndex) (machine.removeItem workIndex) :=
  ⟨simulates.path, simulates.iteratorPolicy, simulates.active,
    forall₂_eraseIdx simulates.work workIndex, simulates.layout, simulates.follows⟩

theorem Simulates.entered (simulates : Simulates state machine) {item : WorkItem}
    {work : WorkPath Entry}
    (related : ItemDenotes state.frames state.arenaSegments.array item work) {path : ActivePath}
    (run : machine.path.enter work.step = .ok path)
    (parent : machine.iteratorPolicy = .levelBatch → machine.active = work.parent) :
    Simulates { state with path := path, activeFrameIndex := some item.frameIndex }
      { machine with path := path, active := work.parent ++ [work.step] } := by
  refine ⟨rfl, simulates.iteratorPolicy, related.denotes, simulates.work, simulates.layout,
    fun replays => ?_⟩
  obtain ⟨entered, same, follows, -⟩ :=
    (simulates.follows replays).enter (ActivePath.inside_of_enter run)
  rw [run] at same
  cases same
  rw [← parent replays]
  exact follows

theorem Simulates.backtrackPushed (simulates : Simulates state machine) {item : WorkItem}
    {work : WorkPath Entry}
    (related : ItemDenotes state.frames state.arenaSegments.array item work) {pathLength : Nat}
    (length : pathLength = work.step.pathLength) :
    Simulates (worklistPush state item.frameIndex pathLength none .backtrack)
      { machine with work := machine.work ++ [{ work with kind := .backtrack }] } :=
  ⟨simulates.path, simulates.iteratorPolicy, simulates.active,
    List.rel_append simulates.work (.cons ⟨rfl, length, related.denotes⟩ .nil),
    simulates.layout, simulates.follows⟩

theorem visitFrame_agrees (simulates : Simulates state machine) {item : WorkItem}
    {work : WorkPath Entry} (workIndex : Nat)
    (related : ItemDenotes state.frames state.arenaSegments.array item work)
    {frame : Frame Entry} (step : frame.step = work.step)
    (parent : machine.iteratorPolicy = .levelBatch → machine.active = work.parent) :
    Agrees SameResult (visitFrame state workIndex item frame) (machine.visit workIndex work) := by
  have edgeIndex : frame.edgeIndex = work.step.edgeIndex := by rw [← step]; rfl
  have returned : (⟨frame.nextVertexId, frame.nextVertexEntry, frame.pathLength⟩ : Step Entry) =
      ⟨work.step.nextVertexId, work.step.nextVertexEntry, work.step.pathLength⟩ := by
    rw [← step]
    rfl
  have removed := (simulates.removed workIndex).recorded item.arenaSegmentIndex
  have relatedAfter : ItemDenotes state.frames
      (recordWorkConsumed state.arenaSegments item.arenaSegmentIndex).array item work :=
    related.mono fun path denotes => denotes.recorded _
  rw [visitFrame, PathMachine.visit, edgeIndex, step, simulates.path]
  refine Agrees.bind (Agrees.refl (fun _ => rfl) _) ?_
  rintro flags _ rfl
  cases flags.used with
  | true => exact ⟨rfl, removed⟩
  | false =>
      simp only [Bool.false_eq_true, if_false]
      cases run : machine.path.enter work.step with
      | error error => exact rfl
      | ok path =>
          cases policy : machine.iteratorPolicy with
          | levelBatch =>
              simp only [simulates.iteratorPolicy, policy, if_true]
              exact ⟨congrArg some returned, removed.entered relatedAfter run parent⟩
          | lifo =>
              simp only [simulates.iteratorPolicy, policy, reduceCtorEq, if_false]
              have length : frame.pathLength = work.step.pathLength := by rw [← step]; rfl
              exact ⟨congrArg some returned,
                (removed.backtrackPushed relatedAfter length).entered relatedAfter run parent⟩

theorem consumeItem_agrees (simulates : Simulates state machine) {item : WorkItem}
    {work : WorkPath Entry} (workIndex : Nat)
    (related : ItemDenotes state.frames state.arenaSegments.array item work) :
    Agrees SameResult (consumeItem state workIndex item) (machine.consumeItem workIndex work) := by
  obtain ⟨frame, found, step, denotesParent⟩ := related.denotes.last
  have edgeIndex : frame.edgeIndex = work.step.edgeIndex := by rw [← step]; rfl
  have frameOk : frameAt state.frames item.frameIndex = .ok frame := by rw [frameAt, found]
  rw [consumeItem, frameOk, PathMachine.consumeItem]
  change Agrees SameResult (state.path.edgeState.flagAt frame.edgeIndex >>= _) _
  rw [edgeIndex, related.kind, simulates.path]
  refine Agrees.bind (Agrees.refl (fun _ => rfl) _) ?_
  rintro _ _ -
  cases kind : work.kind with
  | backtrack =>
      simp only [if_true]
      cases policy : machine.iteratorPolicy with
      | levelBatch =>
          simp only [simulates.iteratorPolicy, policy, if_true]
          exact ⟨rfl, simulates.removed workIndex⟩
      | lifo =>
          simp only [simulates.iteratorPolicy, policy, reduceCtorEq, if_false]
          refine Agrees.bind (Agrees.refl (fun _ => rfl) _) ?_
          rintro path _ rfl
          have removed := simulates.removed workIndex
          refine ⟨rfl, rfl, simulates.iteratorPolicy, denotesParent, removed.work,
            simulates.layout, fun replays => ?_⟩
          simp [PathMachine.removeItem, policy] at replays
  | visit =>
      simp only [reduceCtorEq, if_false]
      cases policy : machine.iteratorPolicy with
      | lifo =>
          simp only [simulates.iteratorPolicy, policy, reduceCtorEq, if_false]
          exact visitFrame_agrees simulates workIndex related step (by simp [policy])
      | levelBatch =>
          simp only [simulates.iteratorPolicy, policy, if_true]
          refine Agrees.bind (switchActivePath_agrees simulates policy denotesParent) ?_
          rintro next other ⟨simulatesNext, frames, segments, -, active⟩
          refine visitFrame_agrees simulatesNext workIndex ?_ step (fun _ => active)
          rw [frames, segments]
          exact related

theorem finishFrames_agrees (simulates : Simulates state machine) (limits : Option ArenaLimits) :
    Agrees Simulates (finishFrames limits state) machine.finish := by
  rw [finishFrames, PathMachine.finish]
  cases policy : machine.iteratorPolicy with
  | lifo =>
      simp only [simulates.iteratorPolicy, policy, reduceCtorEq, if_false]
      exact simulates.refresh limits
  | levelBatch =>
      rw [if_pos (simulates.iteratorPolicy.trans policy), if_pos rfl, simulates.path,
        PathMachine.switchTo]
      obtain ⟨cleared, run, follows, -⟩ := (simulates.follows policy).clear
      rw [run]
      have finished : Simulates { state with path := cleared, activeFrameIndex := none }
          { machine with path := cleared, active := [] } :=
        ⟨rfl, simulates.iteratorPolicy, .root, simulates.work, simulates.layout, fun _ => follows⟩
      exact finished.refresh limits

theorem Agrees.map_none {x : Except TraversalError (TraversalState Entry)}
    {y : Except TraversalError (PathMachine Entry)} (agrees : Agrees Simulates x y) :
    Agrees SameResult (x.map fun state => ((none : Option (Step Entry)), state))
      (y.map fun machine => (none, machine)) := by
  cases x <;> cases y <;> first | exact agrees | exact ⟨rfl, agrees⟩

theorem consumeLoop_agrees (simulates : Simulates state machine) (limits : Option ArenaLimits)
    (fuel : Nat) :
    Agrees SameResult (consumeLoop limits fuel state) (PathMachine.consumeLoop fuel machine) := by
  induction fuel generalizing state machine with
  | zero => exact Agrees.map_none (finishFrames_agrees simulates limits)
  | succ fuel inductionHypothesis =>
      have views : (state.items.map fun item => (item.kind, item.pathLength)) =
          machine.work.map fun item => (item.kind, item.step.pathLength) := by
        have work := simulates.work
        generalize state.items = items at work
        generalize machine.work = works at work
        induction work with
        | nil => rfl
        | cons related _ inductionHypothesis =>
            rw [List.map_cons, List.map_cons, inductionHypothesis, related.kind,
              related.pathLength]
      rw [consumeLoop, PathMachine.consumeLoop, simulates.iteratorPolicy, views]
      cases selectNext machine.iteratorPolicy
          (machine.work.map fun item => (item.kind, item.step.pathLength)) with
      | none => exact Agrees.map_none (finishFrames_agrees simulates limits)
      | some workIndex =>
          have lengths := simulates.work.length_eq
          cases found : machine.work[workIndex]? with
          | none =>
              have missing : state.items[workIndex]? = none := by
                rw [List.getElem?_eq_none_iff] at found ⊢
                omega
              simp only [missing, found]
              exact rfl
          | some work =>
              obtain ⟨inside, here⟩ := List.getElem?_eq_some_iff.mp found
              have insideItems : workIndex < state.items.length := by omega
              have related := simulates.work.get insideItems inside
              rw [List.get_eq_getElem, List.get_eq_getElem, here] at related
              simp only [List.getElem?_eq_getElem insideItems, found]
              refine Agrees.bind (consumeItem_agrees simulates workIndex related) ?_
              rintro ⟨step, next⟩ ⟨_, nextMachine⟩ ⟨rfl, simulatesNext⟩
              have refreshed := Simulates.refresh simulatesNext limits
              cases step with
              | none => exact inductionHypothesis refreshed
              | some step => exact ⟨rfl, refreshed⟩

theorem consumeNextFrame_agrees (simulates : Simulates state machine)
    (limits : Option ArenaLimits) :
    Agrees SameResult (consumeNextFrame limits state) machine.consumeNext := by
  rw [consumeNextFrame, PathMachine.consumeNext, simulates.work.length_eq]
  exact consumeLoop_agrees simulates limits _

end Consume

section Runs

/-- What a caller asks of the traversal: pushes, what is known of an edge, the
number of an edge, and the next frame. -/
inductive TraversalOp (Entry : Type) where
  | pushCandidate (candidate : Candidate Entry)
  | pushBatch (candidates : List (Candidate Entry)) (targetLabelId : Int)
  | applyMatch (edgeIndex : Nat) (matched : Bool)
  | localEdgeIndex (edgeId : GraphId)
  | consume

inductive TraversalOutput (Entry : Type) where
  | pushed (accepted : List Bool)
  | matchApplied
  | edgeIndex (index : Nat)
  | step (step : Option (Step Entry))
  deriving DecidableEq, Repr

def runOp (limits : Option ArenaLimits) (state : TraversalState Entry) :
    TraversalOp Entry → Except TraversalError (TraversalOutput Entry × TraversalState Entry)
  | .pushCandidate candidate => do
      let (accepted, next) ← pushCandidateIfMatched state candidate
      return (.pushed [accepted], next)
  | .pushBatch candidates targetLabelId => do
      let (accepted, next) ← pushCandidateBatchIfMatched state candidates targetLabelId
      return (.pushed accepted, next)
  | .applyMatch edgeIndex matched => do
      let edgeState ← state.path.edgeState.applyCandidateMatchResult edgeIndex matched
      return (.matchApplied, { state with path := { state.path with edgeState := edgeState } })
  | .localEdgeIndex edgeId =>
      let (index, edgeState) := state.path.edgeState.getOrCreateIndex edgeId
      .ok (.edgeIndex index, { state with path := { state.path with edgeState := edgeState } })
  | .consume => do
      let (step, next) ← consumeNextFrame limits state
      return (.step step, next)

def runOps (limits : Option ArenaLimits) : TraversalState Entry → List (TraversalOp Entry) →
    Except TraversalError (List (TraversalOutput Entry) × TraversalState Entry)
  | state, [] => .ok ([], state)
  | state, op :: rest => do
      let (output, next) ← runOp limits state op
      let (outputs, final) ← runOps limits next rest
      return (output :: outputs, final)

/-- The same operation on a path machine. -/
def PathMachine.runOp (machine : PathMachine Entry) :
    TraversalOp Entry → Except TraversalError (TraversalOutput Entry × PathMachine Entry)
  | .pushCandidate candidate => do
      let (accepted, next) ← machine.pushCandidate candidate
      return (.pushed [accepted], next)
  | .pushBatch candidates targetLabelId => do
      let (accepted, next) ← machine.pushBatch targetLabelId candidates
      return (.pushed accepted, next)
  | .applyMatch edgeIndex matched => do
      let edgeState ← machine.path.edgeState.applyCandidateMatchResult edgeIndex matched
      return (.matchApplied, { machine with path := { machine.path with edgeState := edgeState } })
  | .localEdgeIndex edgeId =>
      let (index, edgeState) := machine.path.edgeState.getOrCreateIndex edgeId
      .ok (.edgeIndex index, { machine with path := { machine.path with edgeState := edgeState } })
  | .consume => do
      let (step, next) ← machine.consumeNext
      return (.step step, next)

def PathMachine.runOps : PathMachine Entry → List (TraversalOp Entry) →
    Except TraversalError (List (TraversalOutput Entry) × PathMachine Entry)
  | machine, [] => .ok ([], machine)
  | machine, op :: rest => do
      let (output, next) ← machine.runOp op
      let (outputs, final) ← runOps next rest
      return (output :: outputs, final)

variable {state : TraversalState Entry} {machine : PathMachine Entry}

theorem EdgeState.UsedExactly.setMatched {edgeState : EdgeState} {used : List Nat}
    (exactly : edgeState.UsedExactly used) {index : Nat} {flags : EdgeFlags}
    (found : edgeState.flags[index]? = some flags) {changed : EdgeFlags}
    (same : changed.used = flags.used) : (edgeState.setFlags index changed).UsedExactly used := by
  refine ⟨fun other membership => ?_, fun other otherFlags here => ?_⟩
  · simpa [setFlags] using exactly.1 other membership
  · simp only [setFlags, List.getElem?_set] at here
    split_ifs at here with equal
    · cases here
      subst equal
      rw [same]
      exact exactly.2 index flags found
    · exact exactly.2 other otherFlags here

theorem EdgeState.UsedExactly.applyMatch {edgeState after : EdgeState} {used : List Nat}
    (exactly : edgeState.UsedExactly used) {index : Nat} {matched : Bool}
    (run : edgeState.applyCandidateMatchResult index matched = .ok after) :
    after.UsedExactly used := by
  unfold applyCandidateMatchResult candidateNeedsMatchCheck candidateMarkMatch at run
  cases found : edgeState.flagAt index with
  | error error => simp [found, bind, Except.bind] at run
  | ok flags =>
      simp only [found, bind, Except.bind, pure, Except.pure] at run
      split_ifs at run with check isUsed
      · cases run
        exact exactly
      · cases run
        exact exactly.setMatched (flagAt_ok.mp found) rfl
      · cases run
        exact exactly

theorem EdgeState.UsedExactly.getOrCreateIndex {edgeState : EdgeState} {used : List Nat}
    (exactly : edgeState.UsedExactly used) (edgeId : GraphId) :
    (edgeState.getOrCreateIndex edgeId).2.UsedExactly used := by
  unfold EdgeState.getOrCreateIndex
  cases edgeState.localEdgeIndex.lookup edgeId with
  | some index => exact exactly
  | none =>
      refine ⟨fun other membership => ?_, fun other flags here => ?_⟩
      · have inside := exactly.1 other membership
        simp
        omega
      · simp only [List.getElem?_append] at here
        split_ifs at here with inside
        · exact exactly.2 other flags here
        · obtain ⟨-, rfl⟩ := List.getElem?_eq_some_iff.mp here
          have absent : other ∉ used := fun membership => inside (exactly.1 other membership)
          simp [absent]

theorem Simulates.edgeState (simulates : Simulates state machine) {edgeState : EdgeState}
    (keeps : ∀ used, machine.path.edgeState.UsedExactly used → edgeState.UsedExactly used) :
    Simulates { state with path := { state.path with edgeState := edgeState } }
      { machine with path := { machine.path with edgeState := edgeState } } := by
  refine ⟨by rw [simulates.path], simulates.iteratorPolicy, simulates.active, simulates.work,
    simulates.layout, fun replays => ?_⟩
  have follows := simulates.follows replays
  exact ⟨follows.edgeIds, follows.edgeIndexes, follows.vertices, keeps _ follows.used,
    follows.depth⟩

theorem runOp_agrees (simulates : Simulates state machine) (limits : Option ArenaLimits)
    (op : TraversalOp Entry) :
    Agrees SameResult (runOp limits state op) (machine.runOp op) := by
  cases op with
  | pushCandidate candidate =>
      refine Agrees.bind (pushCandidateIfMatched_agrees simulates candidate) ?_
      rintro ⟨accepted, next⟩ ⟨_, other⟩ ⟨rfl, simulatesNext⟩
      exact ⟨rfl, simulatesNext⟩
  | pushBatch candidates targetLabelId =>
      refine Agrees.bind (pushBatchLoop_agrees targetLabelId candidates none simulates (by simp)) ?_
      rintro ⟨accepted, next⟩ ⟨_, other⟩ ⟨rfl, simulatesNext⟩
      exact ⟨rfl, simulatesNext⟩
  | applyMatch edgeIndex matched =>
      rw [runOp, PathMachine.runOp, simulates.path]
      cases run : machine.path.edgeState.applyCandidateMatchResult edgeIndex matched with
      | error error => exact rfl
      | ok edgeState =>
          refine ⟨rfl, ?_⟩
          have next := simulates.edgeState fun used exactly => exactly.applyMatch run
          rw [simulates.path] at next
          exact next
  | localEdgeIndex edgeId =>
      rw [runOp, PathMachine.runOp, simulates.path]
      refine ⟨rfl, ?_⟩
      have next := simulates.edgeState fun used exactly => exactly.getOrCreateIndex edgeId
      rw [simulates.path] at next
      exact next
  | consume =>
      refine Agrees.bind (consumeNextFrame_agrees simulates limits) ?_
      rintro ⟨step, next⟩ ⟨_, other⟩ ⟨rfl, simulatesNext⟩
      exact ⟨rfl, simulatesNext⟩

theorem runOps_agrees (simulates : Simulates state machine) (limits : Option ArenaLimits)
    (ops : List (TraversalOp Entry)) :
    Agrees SameResult (runOps limits state ops) (machine.runOps ops) := by
  induction ops generalizing state machine with
  | nil => exact ⟨rfl, simulates⟩
  | cons op rest inductionHypothesis =>
      refine Agrees.bind (runOp_agrees simulates limits op) ?_
      rintro ⟨output, next⟩ ⟨_, other⟩ ⟨rfl, simulatesNext⟩
      refine Agrees.bind (inductionHypothesis simulatesNext) ?_
      rintro ⟨outputs, final⟩ ⟨_, finalMachine⟩ ⟨rfl, simulatesFinal⟩
      exact ⟨rfl, simulatesFinal⟩

/-- Two states that a caller cannot tell apart: the active path, the path read
off its frame, and the path of each pending item are the same. -/
structure SameView (a b : TraversalState Entry) : Prop where
  path : a.path = b.path
  active : ∃ chain, a.chain a.activeFrameIndex = .ok chain ∧ b.chain b.activeFrameIndex = .ok chain
  work : List.Forall₂ (fun i j => i.kind = j.kind ∧ i.pathLength = j.pathLength ∧
    ∃ chain, a.chain (some i.frameIndex) = .ok chain ∧ b.chain (some j.frameIndex) = .ok chain)
    a.items b.items

theorem sameView_of_simulates {a b : TraversalState Entry} (one : Simulates a machine)
    (two : Simulates b machine) : SameView a b := by
  refine ⟨one.path.trans two.path.symm, ⟨_, one.active.chain, two.active.chain⟩, ?_⟩
  have left := one.work
  have right := two.work
  generalize machine.work = work at left right
  generalize a.items = items at left
  generalize b.items = others at right
  induction left generalizing others with
  | nil => cases right; exact .nil
  | cons first _ inductionHypothesis =>
      cases right with
      | cons second rest =>
          refine .cons ⟨first.kind.trans second.kind.symm,
            first.pathLength.trans second.pathLength.symm, _, first.denotes.chain,
            second.denotes.chain⟩ (inductionHypothesis _ rest)

theorem edgeStateInit_unused (useLocal : Bool) (estimatedEdgeCount : Nat) :
    (edgeStateInit useLocal estimatedEdgeCount).UsedExactly [] := by
  refine ⟨by simp, fun index flags found => ?_⟩
  cases useLocal with
  | true => simp [edgeStateInit] at found
  | false =>
      simp only [edgeStateInit, Bool.false_eq_true, if_false, List.getElem?_replicate] at found
      split_ifs at found
      cases found
      simp

/-- Whatever the thresholds, a run on the arena that is compacted gives what the
run on the arena that never is compacted gives. -/
theorem runOps_compaction_invisible (limits : ArenaLimits) (storePathEdges : Bool)
    (iteratorPolicy : IteratorPolicy) (useLocal : Bool) (estimatedEdgeCount : Nat)
    (startVertexId : GraphId) (ops : List (TraversalOp Entry)) :
    Agrees (fun a b => a.1 = b.1 ∧ SameView a.2 b.2)
      (runOps (some limits) (traversalStateInit storePathEdges iteratorPolicy
        (edgeStateInit useLocal estimatedEdgeCount) startVertexId) ops)
      (runOps none (traversalStateInit storePathEdges iteratorPolicy
        (edgeStateInit useLocal estimatedEdgeCount) startVertexId) ops) := by
  have simulates := @simulates_init Entry storePathEdges iteratorPolicy
    (edgeStateInit useLocal estimatedEdgeCount) startVertexId
    (edgeStateInit_unused useLocal estimatedEdgeCount)
  refine (runOps_agrees simulates (some limits) ops).join (runOps_agrees simulates none ops) ?_
  rintro ⟨outputs, final⟩ ⟨otherOutputs, other⟩ ⟨machineOutputs, machine⟩ ⟨sameA, simA⟩ ⟨sameB, simB⟩
  exact ⟨sameA.trans sameB.symm, sameView_of_simulates simA simB⟩

end Runs

end Age.Vle
