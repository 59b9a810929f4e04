import Age.Vle.PathMachine

/-!
# Compaction of the frame arena

The segments own the frames of the arena block by block.  A compaction deletes
the blocks of the candidates, and an index that pointed at a frame of another
block points at the same frame afterwards.
-/

namespace Age.Vle

variable {Entry : Type}

/-- The segments from number `index` on own the frames from `position` on. -/
inductive Layout : Nat → Nat → List ArenaSegment → List (Frame Entry) → Prop where
  | nil {index position : Nat} : Layout index position [] []
  | compacted {index position : Nat} {segment : ArenaSegment} {rest : List ArenaSegment}
      {frames : List (Frame Entry)} :
      segment.framesCompacted = true → Layout (index + 1) position rest frames →
      Layout index position (segment :: rest) frames
  | block {index position : Nat} {segment : ArenaSegment} {rest : List ArenaSegment}
      {own others : List (Frame Entry)} :
      segment.framesCompacted = false → segment.frameStart = some position →
      own.length = segment.frameCount → own ≠ [] →
      (∀ frame ∈ own, frame.arenaSegmentIndex = index) →
      Layout (index + 1) (position + segment.frameCount) rest others →
      Layout index position (segment :: rest) (own ++ others)

/-- Whether a compaction leaves a frame in the arena. -/
def keeps (segments : List ArenaSegment) (frame : Frame Entry) : Bool :=
  match segments[frame.arenaSegmentIndex]? with
  | some segment => !segment.compactableCandidate
  | none => true

theorem keeps_of_getElem {segments : List ArenaSegment} {frame : Frame Entry}
    {segment : ArenaSegment} (found : segments[frame.arenaSegmentIndex]? = some segment) :
    keeps segments frame = !segment.compactableCandidate := by
  rw [keeps, found]

section Windows

variable {all segments : List ArenaSegment} {frames : List (Frame Entry)} {index position : Nat}

/-- The window that is open when a collection starts is the first one it gives. -/
theorem collectCompactionWindows_some (window : CompactionWindow) (segments : List ArenaSegment) :
    ∃ first rest, collectCompactionWindows (some window) segments = first :: rest ∧
      first.frameStart = window.frameStart ∧ window.frameCount ≤ first.frameCount := by
  induction segments generalizing window with
  | nil => exact ⟨window, [], rfl, rfl, Nat.le_refl _⟩
  | cons segment rest inductionHypothesis =>
      unfold collectCompactionWindows
      split_ifs with skipped candidate
      · exact inductionHypothesis window
      · exact ⟨window, _, rfl, rfl, Nat.le_refl _⟩
      · dsimp only
        split_ifs with adjacent
        · obtain ⟨first, others, collected, start, count⟩ := inductionHypothesis
            ⟨window.frameStart, window.frameCount + segment.frameCount⟩
          exact ⟨first, others, collected, start, Nat.le_trans (Nat.le_add_right _ _) count⟩
        · exact ⟨window, _, rfl, rfl, Nat.le_refl _⟩

theorem drop_cons {segment : ArenaSegment} {rest : List ArenaSegment}
    (suffix : all.drop index = segment :: rest) :
    all[index]? = some segment ∧ all.drop (index + 1) = rest := by
  constructor
  · have head := congrArg List.head? suffix
    simpa [List.head?_drop] using head
  · rw [← List.drop_drop, suffix]
    rfl

/-- The cases of a collection at a block. -/
theorem collectCompactionWindows_block {segment : ArenaSegment} {rest : List ArenaSegment}
    (window : Option CompactionWindow) (live : segment.framesCompacted = false)
    (start : segment.frameStart = some position) (count : segment.frameCount ≠ 0)
    (adjacent : ∀ w ∈ window, w.frameStart + w.frameCount = position) :
    collectCompactionWindows window (segment :: rest) =
      if segment.compactableCandidate then
        collectCompactionWindows (some ⟨(window.map CompactionWindow.frameStart).getD position,
          (window.map CompactionWindow.frameCount).getD 0 + segment.frameCount⟩) rest
      else window.toList ++ collectCompactionWindows none rest := by
  rw [collectCompactionWindows]
  have notSkipped : (segment.framesCompacted || segment.frameCount == 0) = false := by
    simp [live, count]
  rw [if_neg (by simp [notSkipped])]
  cases candidate : segment.compactableCandidate with
  | false => simp
  | true =>
      cases window with
      | none => simp [start]
      | some window =>
          have next := adjacent window rfl
          simp [start, next]

/-- A collection that starts without a window finds none before its position. -/
theorem position_le_window (layout : Layout index position segments frames) :
    ∀ window ∈ (collectCompactionWindows none segments).head?, position ≤ window.frameStart := by
  induction layout with
  | nil => simp [collectCompactionWindows]
  | compacted dead _ inductionHypothesis =>
      simpa [collectCompactionWindows, dead] using inductionHypothesis
  | @block index position segment rest own others live start length nonempty _ _
      inductionHypothesis =>
      have count : segment.frameCount ≠ 0 := by
        rw [← length]
        exact fun zero => nonempty (List.length_eq_zero_iff.mp zero)
      rw [collectCompactionWindows_block none live start count (by simp)]
      split_ifs with candidate
      · obtain ⟨first, windows, collected, firstStart, -⟩ := collectCompactionWindows_some
          ⟨position, 0 + segment.frameCount⟩ rest
        intro window found
        simp only [Option.map_none, Option.getD_none, collected, List.head?_cons,
          Option.mem_some_iff] at found
        exact Nat.le_of_eq (firstStart.symm.trans (congrArg _ found))
      · intro window found
        exact Nat.le_trans (Nat.le_add_right _ _) (inductionHypothesis window found)

theorem moveFrameWindows_append (own others : List (Frame Entry))
    {windows : List CompactionWindow}
    (after : ∀ window ∈ windows.head?, position + own.length ≤ window.frameStart) :
    moveFrameWindows position (own ++ others) windows =
      own ++ moveFrameWindows (position + own.length) others windows := by
  cases windows with
  | nil => rfl
  | cons window rest =>
      have bound := after window rfl
      have taken : (own ++ others).take (window.frameStart - position) =
          own ++ others.take (window.frameStart - (position + own.length)) := by
        rw [List.take_append, List.take_of_length_le (by omega)]
        congr 2
        omega
      have dropped : (own ++ others).drop (window.frameStart + window.frameCount - position) =
          others.drop (window.frameStart + window.frameCount - (position + own.length)) := by
        rw [List.drop_append, List.drop_of_length_le (by omega), List.nil_append]
        congr 1
        omega
      rw [moveFrameWindows, moveFrameWindows, taken, dropped, List.append_assoc]

theorem filter_block {segment : ArenaSegment} {own : List (Frame Entry)}
    (found : all[index]? = some segment)
    (owned : ∀ frame ∈ own, frame.arenaSegmentIndex = index) :
    own.filter (keeps all) = if segment.compactableCandidate then [] else own := by
  have same : ∀ frame ∈ own, keeps all frame = !segment.compactableCandidate := by
    intro frame membership
    exact keeps_of_getElem (by rw [owned frame membership, found])
  cases candidate : segment.compactableCandidate with
  | true =>
      rw [candidate] at same
      exact List.filter_eq_nil_iff.mpr fun frame membership => by simp [same frame membership]
  | false =>
      rw [candidate] at same
      exact List.filter_eq_self.mpr same

/-- Moving the frames between the windows keeps the frames of the other blocks. -/
theorem moveFrameWindows_collect (layout : Layout index position segments frames)
    (suffix : all.drop index = segments) :
    moveFrameWindows position frames (collectCompactionWindows none segments) =
        frames.filter (keeps all) ∧
      ∀ (window : CompactionWindow) (dead : List (Frame Entry)),
        window.frameStart + window.frameCount = position → dead.length = window.frameCount →
        moveFrameWindows window.frameStart (dead ++ frames)
          (collectCompactionWindows (some window) segments) = frames.filter (keeps all) := by
  induction layout with
  | nil =>
      refine ⟨rfl, fun window dead _ length => ?_⟩
      simp [collectCompactionWindows, moveFrameWindows, length]
  | compacted dead _ inductionHypothesis =>
      obtain ⟨-, suffixRest⟩ := drop_cons suffix
      simpa [collectCompactionWindows, dead] using inductionHypothesis suffixRest
  | @block index position segment rest own others live start length nonempty owned layoutRest
      inductionHypothesis =>
      obtain ⟨found, suffixRest⟩ := drop_cons suffix
      obtain ⟨closed, opened⟩ := inductionHypothesis suffixRest
      have count : segment.frameCount ≠ 0 := by
        rw [← length]
        exact fun zero => nonempty (List.length_eq_zero_iff.mp zero)
      rw [List.filter_append, filter_block found owned]
      have blocks := @collectCompactionWindows_block position segment rest
      refine ⟨?_, fun window dead ends deadLength => ?_⟩
      · rw [blocks none live start count (by simp)]
        split_ifs with candidate
        · have moved := opened ⟨position, 0 + segment.frameCount⟩ own (by simp) (by simp [length])
          simpa using moved
        · rw [Option.toList_none, List.nil_append, moveFrameWindows_append own others, length,
            closed]
          rw [length]
          exact position_le_window layoutRest
      · rw [blocks (some window) live start count (by simpa using ends)]
        split_ifs with candidate
        · have moved := opened ⟨window.frameStart, window.frameCount + segment.frameCount⟩
            (dead ++ own) (by rw [← ends]; simp [Nat.add_assoc]) (by simp [deadLength, length])
          simpa using moved
        · have skip : moveFrameWindows window.frameStart (dead ++ (own ++ others))
              (window :: collectCompactionWindows none rest) =
              moveFrameWindows position (own ++ others) (collectCompactionWindows none rest) := by
            rw [moveFrameWindows, Nat.sub_self, List.take_zero, List.nil_append, ends,
              List.drop_append, List.drop_of_length_le (by omega), List.nil_append]
            congr 1
            rw [show position - window.frameStart - dead.length = 0 by omega, List.drop_zero]
          rw [Option.toList_some, List.singleton_append, skip,
            moveFrameWindows_append own others, length, closed]
          rw [length]
          exact position_le_window layoutRest

/-- Before the first window an index moves down by what was removed so far. -/
theorem frameIndexAfter_before {windows : List CompactionWindow} {place : Nat} (removed : Nat)
    (before : ∀ window ∈ windows.head?, place < window.frameStart) :
    frameIndexAfter removed place windows = some (place - removed) := by
  cases windows with
  | nil => rfl
  | cons window rest => rw [frameIndexAfter, if_pos (before window rfl)]

theorem countP_block {segment : ArenaSegment} {own : List (Frame Entry)}
    (found : all[index]? = some segment)
    (owned : ∀ frame ∈ own, frame.arenaSegmentIndex = index) :
    own.countP (keeps all) = if segment.compactableCandidate then 0 else own.length := by
  rw [List.countP_eq_length_filter, filter_block found owned]
  split_ifs <;> rfl

/-- The index of a frame that stays is the number of frames that stay before it. -/
theorem frameIndexAfter_collect (layout : Layout index position segments frames)
    (suffix : all.drop index = segments) :
    (∀ removed, removed ≤ position → ∀ offset frame, frames[offset]? = some frame →
      frameIndexAfter removed (position + offset) (collectCompactionWindows none segments) =
        if keeps all frame then
          some (position - removed + (frames.take offset).countP (keeps all))
        else none) ∧
      ∀ (window : CompactionWindow) (removed : Nat),
        window.frameStart + window.frameCount = position → removed ≤ window.frameStart →
        ∀ offset frame, frames[offset]? = some frame →
        frameIndexAfter removed (position + offset)
            (collectCompactionWindows (some window) segments) =
          if keeps all frame then
            some (window.frameStart - removed + (frames.take offset).countP (keeps all))
          else none := by
  induction layout with
  | nil => exact ⟨fun _ _ _ _ found => by simp at found, fun _ _ _ _ _ _ found => by simp at found⟩
  | compacted dead _ inductionHypothesis =>
      obtain ⟨-, suffixRest⟩ := drop_cons suffix
      simpa [collectCompactionWindows, dead] using inductionHypothesis suffixRest
  | @block index position segment rest own others live start length nonempty owned layoutRest
      inductionHypothesis =>
      obtain ⟨found, suffixRest⟩ := drop_cons suffix
      obtain ⟨closed, opened⟩ := inductionHypothesis suffixRest
      have count : segment.frameCount ≠ 0 := by
        rw [← length]
        exact fun zero => nonempty (List.length_eq_zero_iff.mp zero)
      have blocks := @collectCompactionWindows_block position segment rest
      have inOwn {offset : Nat} {frame : Frame Entry} (inside : offset < own.length)
          (here : (own ++ others)[offset]? = some frame) :
          keeps all frame = !segment.compactableCandidate := by
        rw [List.getElem?_append_left inside] at here
        exact keeps_of_getElem (by rw [owned frame (List.mem_of_getElem? here), found])
      have inOthers {offset : Nat} {frame : Frame Entry} (outside : own.length ≤ offset)
          (here : (own ++ others)[offset]? = some frame) :
          others[offset - own.length]? = some frame ∧
            ((own ++ others).take offset).countP (keeps all) =
              (if segment.compactableCandidate then 0 else own.length) +
                (others.take (offset - own.length)).countP (keeps all) := by
        rw [List.getElem?_append_right outside] at here
        refine ⟨here, ?_⟩
        rw [List.take_append, List.take_of_length_le outside, List.countP_append,
          countP_block found owned]
      -- an index past the block, with the windows that were closed before it
      have past (removed : Nat) (bound : removed ≤ position)
          (stays : segment.compactableCandidate = false) {offset : Nat} {frame : Frame Entry}
          (here : (own ++ others)[offset]? = some frame) :
          frameIndexAfter removed (position + offset) (collectCompactionWindows none rest) =
            if keeps all frame then
              some (position - removed + ((own ++ others).take offset).countP (keeps all))
            else none := by
        by_cases inside : offset < own.length
        · rw [inOwn inside here, stays, frameIndexAfter_before]
          · have kept : ((own ++ others).take offset).countP (keeps all) = offset := by
              rw [List.take_append_of_le_length (by omega),
                countP_block found fun frame membership =>
                  owned frame (List.mem_of_mem_take membership), stays]
              simp
              omega
            rw [kept]
            simp
            omega
          · intro window membership
            have bound := position_le_window layoutRest window membership
            omega
        · obtain ⟨there, kept⟩ := inOthers (by omega) here
          have moved := closed removed (by omega) _ _ there
          rw [kept, stays, show position + offset =
            position + segment.frameCount + (offset - own.length) by omega, moved]
          simp only [Bool.false_eq_true, if_false]
          split_ifs
          · congr 1
            omega
          · rfl
      refine ⟨fun removed bound offset frame here => ?_,
        fun window removed ends bound offset frame here => ?_⟩
      · rw [blocks none live start count (by simp)]
        cases candidate : segment.compactableCandidate with
        | false => simpa using past removed bound candidate here
        | true =>
            by_cases inside : offset < own.length
            · rw [inOwn inside here, candidate]
              obtain ⟨first, windows, collected, firstStart, firstCount⟩ :=
                collectCompactionWindows_some ⟨position, 0 + segment.frameCount⟩ rest
              simp only [if_true, Option.map_none, Option.getD_none, collected, frameIndexAfter,
                firstStart]
              rw [if_neg (by omega), if_pos (by simp at firstCount; omega)]
              simp
            · obtain ⟨there, kept⟩ := inOthers (by omega) here
              have moved := opened ⟨position, 0 + segment.frameCount⟩ removed (by simp) bound _ _
                there
              rw [kept, candidate, show position + offset =
                position + segment.frameCount + (offset - own.length) by omega]
              simpa using moved
      · rw [blocks (some window) live start count (by simpa using ends)]
        cases candidate : segment.compactableCandidate with
        | false =>
            have moved := past (removed + window.frameCount) (by omega) candidate here
            simp only [Bool.false_eq_true, if_false, Option.toList_some, List.singleton_append,
              frameIndexAfter]
            rw [if_neg (by omega), if_neg (by omega), moved]
            split_ifs
            · congr 1
              omega
            · rfl
        | true =>
            by_cases inside : offset < own.length
            · rw [inOwn inside here, candidate]
              obtain ⟨first, windows, collected, firstStart, firstCount⟩ :=
                collectCompactionWindows_some
                  ⟨window.frameStart, window.frameCount + segment.frameCount⟩ rest
              simp only [if_true, Option.map_some, Option.getD_some, collected, frameIndexAfter,
                firstStart]
              rw [if_neg (by omega), if_pos (by simp at firstCount; omega)]
              simp
            · obtain ⟨there, kept⟩ := inOthers (by omega) here
              have moved := opened ⟨window.frameStart, window.frameCount + segment.frameCount⟩
                removed (by simp; omega) bound _ _ there
              rw [kept, candidate, show position + offset =
                position + segment.frameCount + (offset - own.length) by omega]
              simpa using moved

end Windows

section Denotes

/-- A frame index denotes a path when its parent links lead to the root through
segments that are not to be compacted, and agree with the links of the segments. -/
inductive Denotes (frames : List (Frame Entry)) (segments : List ArenaSegment) :
    Option Nat → Path Entry → Prop where
  | root : Denotes frames segments none []
  | frame {index : Nat} {frame : Frame Entry} {segment : ArenaSegment} {parent : Path Entry} :
      frames[index]? = some frame → segments[frame.arenaSegmentIndex]? = some segment →
      segment.compactableCandidate = false → segment.framesCompacted = false →
      segment.parentFrameIndex = frame.parentFrameIndex →
      (∀ place ∈ frame.parentFrameIndex, place < index) →
      Denotes frames segments frame.parentFrameIndex parent →
      Denotes frames segments (some index) (parent ++ [frame.step])

variable {frames : List (Frame Entry)} {segments : List ArenaSegment}

theorem Denotes.inside {index : Nat} {path : Path Entry}
    (denotes : Denotes frames segments (some index) path) : index < frames.length := by
  cases denotes with
  | frame found => exact (List.getElem?_eq_some_iff.mp found).1

theorem Denotes.unique {index : Option Nat} {first second : Path Entry}
    (one : Denotes frames segments index first) (two : Denotes frames segments index second) :
    first = second := by
  induction one generalizing second with
  | root => cases two; rfl
  | @frame index frame segment parent found _ _ _ _ _ _ inductionHypothesis =>
      cases two with
      | frame foundTwo _ _ _ _ _ denotesTwo =>
          rw [found] at foundTwo
          cases foundTwo
          rw [inductionHypothesis denotesTwo]

theorem Denotes.length_le {index : Nat} {path : Path Entry}
    (denotes : Denotes frames segments (some index) path) : path.length ≤ index + 1 := by
  generalize target : some index = place at denotes
  induction denotes generalizing index with
  | root => cases target
  | @frame other frame segment parent _ _ _ _ _ below denotesParent inductionHypothesis =>
      cases target
      rw [List.length_append, List.length_singleton]
      cases link : frame.parentFrameIndex with
      | none =>
          rw [link] at denotesParent
          cases denotesParent
          simp
      | some place =>
          have shorter := inductionHypothesis link.symm
          have less := below place link
          omega

/-- The parent links of a frame read off the path it denotes. -/
theorem Denotes.parentChain {index : Option Nat} {path : Path Entry}
    (denotes : Denotes frames segments index path) {fuel : Nat} (enough : path.length ≤ fuel) :
    parentChain frames fuel index = .ok path := by
  induction denotes generalizing fuel with
  | root => cases fuel <;> rfl
  | @frame index frame segment parent found _ _ _ _ _ _ inductionHypothesis =>
      rw [List.length_append, List.length_singleton] at enough
      obtain ⟨fuel, rfl⟩ : ∃ rest, fuel = rest + 1 := ⟨fuel - 1, by omega⟩
      rw [Vle.parentChain, frameAt, found]
      simp only [bind, Except.bind]
      rw [inductionHypothesis (by omega)]
      rfl

theorem Denotes.chain {state : TraversalState Entry} {index : Option Nat} {path : Path Entry}
    (denotes : Denotes state.frames state.arenaSegments.array index path) :
    state.chain index = .ok path := by
  refine denotes.parentChain ?_
  cases index with
  | none => cases denotes; simp
  | some place =>
      have length := denotes.length_le
      have inside := denotes.inside
      omega

/-- Frames may be appended and segments changed, as long as no segment on the
way becomes a candidate. -/
theorem Denotes.mono {later : List (Frame Entry)} {changed : List ArenaSegment}
    {index : Option Nat} {path : Path Entry} (denotes : Denotes frames segments index path)
    (framesStay : ∀ (place : Nat) frame, frames[place]? = some frame → later[place]? = some frame)
    (segmentsStay : ∀ (place : Nat) segment, segments[place]? = some segment →
      segment.compactableCandidate = false →
      ∃ after, changed[place]? = some after ∧ after.compactableCandidate = false ∧
        after.framesCompacted = segment.framesCompacted ∧
        after.parentFrameIndex = segment.parentFrameIndex) :
    Denotes later changed index path := by
  induction denotes with
  | root => exact .root
  | frame found foundSegment live kept link below _ inductionHypothesis =>
      obtain ⟨after, foundAfter, liveAfter, keptAfter, linkAfter⟩ :=
        segmentsStay _ _ foundSegment live
      exact .frame (framesStay _ _ found) foundAfter liveAfter (keptAfter.trans kept)
        (linkAfter.trans link) below inductionHypothesis

end Denotes

section Compact

variable {all segments : List ArenaSegment} {frames : List (Frame Entry)} {index position : Nat}
  {windows : List CompactionWindow}

/-- The first frame of a block that was not compacted. -/
theorem Layout.first (layout : Layout index position segments frames) {place : Nat}
    {segment : ArenaSegment} (found : segments[place]? = some segment)
    (live : segment.framesCompacted = false) :
    ∃ offset frame, segment.frameStart = some (position + offset) ∧
      frames[offset]? = some frame ∧ frame.arenaSegmentIndex = index + place := by
  induction layout generalizing place with
  | nil => simp at found
  | compacted dead _ inductionHypothesis =>
      cases place with
      | zero =>
          injection found with same
          rw [same, live] at dead
          cases dead
      | succ place =>
          obtain ⟨offset, frame, start, here, owner⟩ := inductionHypothesis found
          exact ⟨offset, frame, start, here, by omega⟩
  | @block index position head rest own others _ start length nonempty owned _
      inductionHypothesis =>
      cases place with
      | zero =>
          injection found with same
          subst same
          obtain ⟨frame, tail, rfl⟩ := List.exists_cons_of_ne_nil nonempty
          exact ⟨0, frame, start, rfl, owned frame List.mem_cons_self⟩
      | succ place =>
          obtain ⟨offset, frame, startRest, here, owner⟩ := inductionHypothesis found
          refine ⟨head.frameCount + offset, frame, by rw [startRest]; congr 1; omega, ?_, by omega⟩
          rw [List.getElem?_append_right (by omega), length, Nat.add_sub_cancel_left]
          exact here

theorem rewriteSegment_live {segment : ArenaSegment} {place : Nat}
    (live : segment.framesCompacted = false)
    (moved : frameIndexAfterCompactionWindows segment.frameStart windows = some place) :
    rewriteSegment windows segment = { segment with
      parentFrameIndex := frameIndexAfterCompactionWindows segment.parentFrameIndex windows
      frameStart := some place } := by
  simp [rewriteSegment, live, moved]

/-- What stays after a compaction is laid out as before. -/
theorem Layout.compact (layout : Layout index position segments frames)
    (suffix : all.drop index = segments) {moved : Nat}
    (after : ∀ offset frame, frames[offset]? = some frame →
      frameIndexAfter 0 (position + offset) windows =
        if keeps all frame then some (moved + (frames.take offset).countP (keeps all))
        else none) :
    Layout index moved (segments.map (rewriteSegment windows))
      ((frames.filter (keeps all)).map (rewriteFrame windows)) := by
  induction layout generalizing moved with
  | nil => exact .nil
  | @compacted index position segment rest frames dead _ inductionHypothesis =>
      obtain ⟨-, suffixRest⟩ := drop_cons suffix
      have same : rewriteSegment windows segment = segment := by simp [rewriteSegment, dead]
      rw [List.map_cons, same]
      exact .compacted dead (inductionHypothesis suffixRest after)
  | @block index position segment rest own others live start length nonempty owned _
      inductionHypothesis =>
      obtain ⟨found, suffixRest⟩ := drop_cons suffix
      obtain ⟨first, tail, rfl⟩ := List.exists_cons_of_ne_nil nonempty
      have kept : keeps all first = !segment.compactableCandidate :=
        keeps_of_getElem (by rw [owned first List.mem_cons_self, found])
      have atStart : frameIndexAfterCompactionWindows segment.frameStart windows =
          if segment.compactableCandidate then none else some moved := by
        have there := after 0 first rfl
        rw [start, frameIndexAfterCompactionWindows, Option.bind_some]
        cases candidate : segment.compactableCandidate <;> simp_all
      have inRest : ∀ offset frame, others[offset]? = some frame →
          frameIndexAfter 0 (position + segment.frameCount + offset) windows =
            if keeps all frame then
              some (moved + (if segment.compactableCandidate then 0 else segment.frameCount) +
                (others.take offset).countP (keeps all))
            else none := by
        intro offset frame here
        have there := after ((first :: tail).length + offset) frame (by
          rw [List.getElem?_append_right (by omega), Nat.add_sub_cancel_left]
          exact here)
        rw [List.take_length_add_append, List.countP_append, countP_block found owned, length,
          ← Nat.add_assoc] at there
        rw [there]
        split_ifs <;> first | rfl | (congr 1; omega)
      rw [List.filter_append, filter_block found owned, List.map_append, List.map_cons]
      have layoutRest := inductionHypothesis suffixRest inRest
      cases candidate : segment.compactableCandidate with
      | true =>
          rw [candidate] at atStart layoutRest
          refine .compacted ?_ (by simpa using layoutRest)
          simp [rewriteSegment, live, atStart]
      | false =>
          rw [candidate] at atStart layoutRest
          rw [rewriteSegment_live live (by simpa using atStart)]
          refine .block live rfl (by simpa using length) (by simp) ?_ (by simpa using layoutRest)
          intro frame membership
          obtain ⟨old, inOld, rfl⟩ := List.mem_map.mp membership
          exact owned old (by simpa using inOld)

theorem getElem?_filter_countP {α : Type} (p : α → Bool) {list : List α} {place : Nat} {value : α}
    (found : list[place]? = some value) (kept : p value = true) :
    (list.filter p)[(list.take place).countP p]? = some value := by
  induction list generalizing place with
  | nil => simp at found
  | cons head tail inductionHypothesis =>
      cases place with
      | zero =>
          injection found with same
          simp [same, kept]
      | succ place =>
          have inTail := @inductionHypothesis place found
          by_cases headKept : p head = true
          · simpa [headKept] using inTail
          · simpa [headKept] using inTail

theorem countP_take_lt {α : Type} (p : α → Bool) {list : List α} {first second : Nat} {value : α}
    (less : first < second) (found : list[first]? = some value) (kept : p value = true) :
    (list.take first).countP p < (list.take second).countP p := by
  obtain ⟨more, rfl⟩ : ∃ more, second = first + (more + 1) := ⟨second - first - 1, by omega⟩
  obtain ⟨inside, same⟩ := List.getElem?_eq_some_iff.mp found
  rw [List.take_add, List.drop_eq_getElem_cons inside, List.take_succ_cons, same,
    List.countP_append, List.countP_cons]
  simp [kept]

/-- A live frame index denotes the same path after the compaction. -/
theorem Denotes.compact (layout : Layout 0 0 all frames) {index : Option Nat} {path : Path Entry}
    (denotes : Denotes frames all index path) :
    Denotes ((frames.filter (keeps all)).map (rewriteFrame (collectCompactionWindows none all)))
        (all.map (rewriteSegment (collectCompactionWindows none all)))
        (frameIndexAfterCompactionWindows index (collectCompactionWindows none all)) path ∧
      ∀ place ∈ index, frameIndexAfter 0 place (collectCompactionWindows none all) =
        some ((frames.take place).countP (keeps all)) := by
  have after {place : Nat} {frame : Frame Entry} {segment : ArenaSegment}
      (here : frames[place]? = some frame)
      (found : all[frame.arenaSegmentIndex]? = some segment)
      (stays : segment.compactableCandidate = false) :
      frameIndexAfter 0 place (collectCompactionWindows none all) =
        some ((frames.take place).countP (keeps all)) := by
    have moved := (frameIndexAfter_collect layout rfl).1 0 (Nat.le_refl _) place frame here
    rw [keeps_of_getElem found, stays] at moved
    simpa using moved
  induction denotes with
  | root => exact ⟨.root, by simp⟩
  | @frame index frame segment parent here found stays live link below denotesParent
      inductionHypothesis =>
      have moved := after here found stays
      refine ⟨?_, by simpa using moved⟩
      obtain ⟨denotesMoved, parentMoved⟩ := inductionHypothesis
      rw [frameIndexAfterCompactionWindows, Option.bind_some, moved]
      have kept : keeps all frame = true := by rw [keeps_of_getElem found, stays]; rfl
      obtain ⟨offset, first, start, firstHere, owner⟩ := layout.first found live
      rw [Nat.zero_add] at start owner
      have startMoved : frameIndexAfterCompactionWindows segment.frameStart
          (collectCompactionWindows none all) =
            some ((frames.take offset).countP (keeps all)) := by
        rw [start, frameIndexAfterCompactionWindows, Option.bind_some]
        exact after firstHere (by rw [owner]; exact found) stays
      have placed := getElem?_filter_countP (keeps all) here kept
      have stepSame : (rewriteFrame (collectCompactionWindows none all) frame).step =
          frame.step := rfl
      rw [← stepSame]
      have segmentMoved := congrArg (Option.map (rewriteSegment
        (collectCompactionWindows none all))) found
      rw [Option.map_some, rewriteSegment_live live startMoved, ← List.getElem?_map]
        at segmentMoved
      refine .frame (by rw [List.getElem?_map, placed]; rfl) segmentMoved ?_ ?_ ?_ ?_ ?_
      · exact stays
      · exact live
      · exact congrArg (frameIndexAfterCompactionWindows · _) link
      · intro place membership
        simp only [rewriteFrame, frameIndexAfterCompactionWindows] at membership
        cases parentLink : frame.parentFrameIndex with
        | none => simp [parentLink] at membership
        | some parentIndex =>
            rw [parentLink, Option.bind_some, parentMoved parentIndex parentLink,
              Option.mem_some_iff] at membership
            rw [← membership]
            rw [parentLink] at denotesParent
            cases denotesParent with
            | frame parentHere parentFound parentStays =>
                exact countP_take_lt _ (below parentIndex parentLink) parentHere
                  (by rw [keeps_of_getElem parentFound, parentStays]; rfl)
      · exact denotesMoved

end Compact

end Age.Vle
