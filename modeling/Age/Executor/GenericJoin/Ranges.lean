import Age.Executor.GenericJoin.Reduction

/-!
# The prefix ranges of the providers

The rows of a first key are a range of the sorted rows.  A provider finds it by two bisections
and remembers it in two small caches; after some misses it builds a directory of all ranges,
which it bisects itself.
-/

namespace Age.Executor.GenericJoin

open SortedKeys

section Caches

abbrev Range := Nat × Nat

/-- The caches of `AgeGenericProvider`; the directory is there while `prefix_ranges_valid`. -/
structure RangeCaches where
  childRanges : List (GraphId × Range)
  prefixRanges : List (GraphId × Range)
  misses : Nat
  directory : Option (List (GraphId × Range))
  cursor : Option (GraphId × Range)

/-- `invalidate_generic_provider_prefix_ranges` -/
def RangeCaches.empty : RangeCaches := ⟨[], [], 0, none, none⟩

/-- `AGE_GENERIC_PREFIX_RANGE_CACHE_SIZE` -/
def prefixRangeCacheSize : Nat := 8

/-- `AGE_GENERIC_PREFIX_RANGE_DIRECTORY_MIN_MISSES` -/
def prefixRangeDirectoryMinMisses : Nat := 8

/-- `generic_provider_prefix_cache_lookup`, and the lookup of child ranges: a hit moves to
the front. -/
def cacheLookup (cache : List (GraphId × Range)) (key : GraphId) :
    Option (Range × List (GraphId × Range)) :=
  (cache.find? (·.1 = key)).map fun hit => (hit.2, hit :: cache.eraseP (·.1 = key))

/-- `generic_provider_prefix_cache_store`, and the store of child ranges -/
def cacheStore (cache : List (GraphId × Range)) (key : GraphId) (range : Range) :
    List (GraphId × Range) :=
  (key, range) :: cache.take (prefixRangeCacheSize - 1)

/-- The loop of `build_generic_provider_prefix_range_directory`: the current key, where its
rows start, and the index of the next row. -/
def directoryLoop (key : GraphId) (start index : Nat) :
    List GenericRow → List (GraphId × Range)
  | [] => [(key, start, index)]
  | row :: rest =>
      if row.key1 = key then directoryLoop key start (index + 1) rest
      else (key, start, index) :: directoryLoop row.key1 index (index + 1) rest

/-- `build_generic_provider_prefix_range_directory` -/
def buildDirectory : List GenericRow → List (GraphId × Range)
  | [] => []
  | row :: rest => directoryLoop row.key1 0 1 rest

/-- The bisection of the directory; an absent key has the empty range where it would be. -/
def searchDirectory (rows : List GenericRow) (directory : List (GraphId × Range))
    (key : GraphId) : Range :=
  match directory[bisect (before (directory.map (·.1)) key) directory.length 0
    directory.length]? with
  | some entry => if entry.1 = key then entry.2 else (entry.2.1, entry.2.1)
  | none => (rows.length, rows.length)

/-- `generic_provider_prefix_directory_lookup` -/
def directoryLookup (rows : List GenericRow) (caches : RangeCaches) (key : GraphId) :
    Option (Range × RangeCaches) :=
  match caches.directory with
  | none => none
  | some directory =>
      match caches.cursor.filter (·.1 = key) with
      | some hit => some (hit.2, caches)
      | none =>
          let range := searchDirectory rows directory key
          some (range, { caches with cursor := some (key, range) })

/-- The two bisections for a key -/
def boundsRange (keys : List GraphId) (key : GraphId) : Range :=
  (bisect (before keys key) keys.length 0 keys.length,
    bisect (upTo keys key) keys.length 0 keys.length)

/-- `sorted_array_provider_key1_range` -/
def sortedArrayKey1Range (rows : List GenericRow) (caches : RangeCaches) (key : GraphId) :
    Range × RangeCaches :=
  match directoryLookup rows caches key with
  | some found => found
  | none =>
      match cacheLookup caches.prefixRanges key with
      | some (range, moved) => (range, { caches with prefixRanges := moved })
      | none =>
          let built : RangeCaches :=
            if prefixRangeDirectoryMinMisses ≤ caches.misses + 1 ∧
                prefixRangeCacheSize < rows.length then
              { RangeCaches.empty with directory := some (buildDirectory rows) }
            else { caches with misses := caches.misses + 1 }
          match directoryLookup rows built key with
          | some found => found
          | none =>
              let range := boundsRange (rows.map (·.key1)) key
              (range, { built with prefixRanges := cacheStore built.prefixRanges key range })

/-- `generic_provider_open_child_range` for a prefix of one key -/
def openChildRange (rows : List GenericRow) (caches : RangeCaches) (key : GraphId) :
    Range × RangeCaches :=
  match cacheLookup caches.childRanges key with
  | some (range, moved) => (range, { caches with childRanges := moved })
  | none =>
      let (range, opened) := sortedArrayKey1Range rows caches key
      (range, { opened with childRanges := cacheStore opened.childRanges key range })

end Caches

section Right

variable {rows : List GenericRow} {caches : RangeCaches} {key : GraphId}

/-- The range has the rows of the key. -/
def IsRange (rows : List GenericRow) (key : GraphId) (range : Range) : Prop :=
  slice rows range.1 range.2 = rows.filter (·.key1 = key)

/-- Everything in the caches is a range of its key. -/
structure RangeCaches.Right (rows : List GenericRow) (caches : RangeCaches) : Prop where
  childRanges : ∀ entry ∈ caches.childRanges, IsRange rows entry.1 entry.2
  prefixRanges : ∀ entry ∈ caches.prefixRanges, IsRange rows entry.1 entry.2
  directory : ∀ directory, caches.directory = some directory → directory = buildDirectory rows
  cursor : ∀ entry, caches.cursor = some entry → IsRange rows entry.1 entry.2

theorem RangeCaches.right_empty : RangeCaches.empty.Right rows :=
  ⟨fun _ impossible => (List.not_mem_nil impossible).elim,
    fun _ impossible => (List.not_mem_nil impossible).elim,
    fun _ impossible => by simp [RangeCaches.empty] at impossible,
    fun _ impossible => by simp [RangeCaches.empty] at impossible⟩

theorem boundsRange_eq (sorted : (rows.map (·.key1)).Pairwise (· ≤ ·)) :
    boundsRange (rows.map (·.key1)) key =
      (lowerBound (rows.map (·.key1)) key, upperBound (rows.map (·.key1)) key) := by
  rw [boundsRange, bisect_eq (isBound_lowerBound sorted) (Nat.zero_le _)
    lowerBound_le_length (Nat.sub_le _ _), bisect_eq (isBound_upperBound sorted) (Nat.zero_le _)
    upperBound_le_length (Nat.sub_le _ _)]

theorem isRange_boundsRange (sorted : (rows.map (·.key1)).Pairwise (· ≤ ·)) :
    IsRange rows key (boundsRange (rows.map (·.key1)) key) := by
  rw [IsRange, boundsRange_eq sorted]
  exact slice_bounds sorted

theorem slice_middle (first middle last : List GenericRow) :
    slice (first ++ middle ++ last) first.length (first.length + middle.length) = middle := by
  rw [slice, ← List.length_append, List.take_left', List.drop_left']
  · rfl
  · rfl

/-- What the directory loop adds for the rows from the current key on -/
structure DirectorySpec (rows : List GenericRow) (key : GraphId) (rest : List GenericRow)
    (directory : List (GraphId × Range)) : Prop where
  increasing : (directory.map (·.1)).Pairwise (· < ·)
  atLeast : ∀ entry ∈ directory, key ≤ entry.1
  isRange : ∀ entry ∈ directory, IsRange rows entry.1 entry.2
  hasKey : key ∈ directory.map (·.1)
  complete : ∀ row ∈ rest, row.key1 ∈ directory.map (·.1)

/-- Nothing before or after its rows has the key. -/
theorem isRange_run {first run rest : List GenericRow}
    (isRun : ∀ row ∈ run, row.key1 = key) (isFirst : ∀ row ∈ first, row.key1 < key)
    (isRest : ∀ row ∈ rest, key < row.key1) :
    IsRange (first ++ run ++ rest) key (first.length, first.length + run.length) := by
  have noFirst : first.filter (·.key1 = key) = [] :=
    List.filter_eq_nil_iff.2 fun row isRow => by simpa using (isFirst row isRow).ne
  have noRest : rest.filter (·.key1 = key) = [] :=
    List.filter_eq_nil_iff.2 fun row isRow => by simpa using (isRest row isRow).ne'
  have allRun : run.filter (·.key1 = key) = run :=
    List.filter_eq_self.2 fun row isRow => by simpa using isRun row isRow
  rw [IsRange, slice_middle, List.filter_append, List.filter_append, noFirst, noRest, allRun,
    List.nil_append, List.append_nil]

theorem directoryLoop_spec (rest : List GenericRow) {first run : List GenericRow}
    (sorted : ((first ++ run ++ rest).map (·.key1)).Pairwise (· ≤ ·))
    (isRun : ∀ row ∈ run, row.key1 = key) (isFirst : ∀ row ∈ first, row.key1 < key)
    (isRest : ∀ row ∈ rest, key ≤ row.key1) :
    DirectorySpec (first ++ run ++ rest) key rest
      (directoryLoop key first.length (first.length + run.length) rest) := by
  induction rest generalizing first run key with
  | nil =>
      rw [directoryLoop]
      refine ⟨List.pairwise_singleton _ _, ?_, ?_, List.mem_cons_self,
        fun _ impossible => (List.not_mem_nil impossible).elim⟩
      · intro entry isEntry
        rw [List.mem_singleton.1 isEntry]
      · intro entry isEntry
        rw [List.mem_singleton.1 isEntry]
        exact isRange_run isRun isFirst fun _ impossible => (List.not_mem_nil impossible).elim
  | cons row rest ih =>
      have later : ∀ other ∈ rest, row.key1 ≤ other.key1 := fun other isOther => by
        rw [List.map_append, List.pairwise_append] at sorted
        exact (List.pairwise_cons.1 sorted.2.1).1 _ (List.mem_map_of_mem isOther)
      rw [directoryLoop]
      split_ifs with same
      · have spec := @ih key first (run ++ [row]) (by simpa using sorted)
          (fun other isOther => by
            rcases List.mem_append.1 isOther with inRun | isRow
            · exact isRun other inRun
            · rw [List.mem_singleton.1 isRow, same])
          isFirst (fun other isOther => same ▸ later other isOther)
        have atEnd : first.length + (run ++ [row]).length = first.length + run.length + 1 := by
          rw [List.length_append, List.length_singleton, Nat.add_assoc]
        have rowsSame : first ++ (run ++ [row]) ++ rest = first ++ run ++ row :: rest := by simp
        rw [atEnd, rowsSame] at spec
        refine ⟨spec.increasing, spec.atLeast, spec.isRange, spec.hasKey, fun other isOther => ?_⟩
        rcases List.mem_cons.1 isOther with rfl | isOther
        · exact same ▸ spec.hasKey
        · exact spec.complete other isOther
      · have above : key < row.key1 := lt_of_le_of_ne (isRest row List.mem_cons_self) (Ne.symm same)
        have spec := @ih row.key1 (first ++ run) [row] (by simpa using sorted)
          (fun other isOther => by rw [List.mem_singleton.1 isOther])
          (fun other isOther => by
            rcases List.mem_append.1 isOther with inFirst | inRun
            · exact (isFirst other inFirst).trans above
            · exact (isRun other inRun).trans_lt above)
          later
        have rowsSame : first ++ run ++ [row] ++ rest = first ++ run ++ row :: rest := by simp
        rw [rowsSame, List.length_append, List.length_singleton] at spec
        refine ⟨?_, ?_, ?_, List.mem_cons_self, fun other isOther => ?_⟩
        · rw [List.map_cons, List.pairwise_cons]
          refine ⟨fun other isOther => ?_, spec.increasing⟩
          obtain ⟨entry, isEntry, rfl⟩ := List.mem_map.1 isOther
          exact above.trans_le (spec.atLeast entry isEntry)
        · intro entry isEntry
          rcases List.mem_cons.1 isEntry with rfl | isEntry
          · exact le_rfl
          · exact above.le.trans (spec.atLeast entry isEntry)
        · intro entry isEntry
          rcases List.mem_cons.1 isEntry with rfl | isEntry
          · refine isRange_run isRun isFirst fun other isOther => ?_
            rcases List.mem_cons.1 isOther with rfl | isOther
            · exact above
            · exact above.trans_le (later other isOther)
          · exact spec.isRange entry isEntry
        · rcases List.mem_cons.1 isOther with rfl | isOther
          · exact List.mem_cons_of_mem _ spec.hasKey
          · exact List.mem_cons_of_mem _ (spec.complete other isOther)

/-- The entries of the directory loop are the bounds of their keys. -/
theorem directoryLoop_bounds (rest : List GenericRow) {start index : Nat}
    (sorted : (key :: rest.map (·.key1)).Pairwise (· ≤ ·)) :
    ∀ entry ∈ directoryLoop key start index rest,
      entry = (key, start, index + upperBound (rest.map (·.key1)) key) ∨
        key < entry.1 ∧ entry.2 = (index + lowerBound (rest.map (·.key1)) entry.1,
          index + upperBound (rest.map (·.key1)) entry.1) := by
  induction rest generalizing key start index with
  | nil =>
      intro entry isEntry
      exact .inl (List.mem_singleton.1 isEntry)
  | cons row rest ih =>
      rw [List.map_cons, List.pairwise_cons] at sorted
      have after : (row.key1 :: rest.map (·.key1)).Pairwise (· ≤ ·) := sorted.2
      have atLeast : key ≤ row.key1 := sorted.1 _ List.mem_cons_self
      intro entry isEntry
      rw [directoryLoop] at isEntry
      rw [List.map_cons, lowerBound, upperBound, upperBound]
      split_ifs at isEntry with same
      · rcases ih (same ▸ after) entry isEntry with rfl | ⟨above, bounds⟩
        · left
          simp [same, upperBound, Nat.add_assoc, Nat.add_comm 1]
        · refine .inr ⟨above, ?_⟩
          rw [bounds]
          simp [same, above, above.le, lowerBound, upperBound, Nat.add_assoc, Nat.add_comm 1]
      · have below : key < row.key1 := lt_of_le_of_ne atLeast (Ne.symm same)
        rcases List.mem_cons.1 isEntry with rfl | isEntry
        · left
          simp [below]
        · right
          rcases ih after entry isEntry with rfl | ⟨above, bounds⟩
          · refine ⟨below, ?_⟩
            simp [upperBound, Nat.add_assoc, Nat.add_comm 1]
          · refine ⟨below.trans above, ?_⟩
            rw [bounds]
            simp [above, above.le, lowerBound, upperBound, Nat.add_assoc, Nat.add_comm 1]

theorem buildDirectory_bounds (sorted : (rows.map (·.key1)).Pairwise (· ≤ ·)) :
    ∀ entry ∈ buildDirectory rows, entry.2 =
      (lowerBound (rows.map (·.key1)) entry.1, upperBound (rows.map (·.key1)) entry.1) := by
  cases rows with
  | nil => exact fun _ impossible => (List.not_mem_nil impossible).elim
  | cons row rest =>
      intro entry isEntry
      rw [List.map_cons] at sorted ⊢
      rcases directoryLoop_bounds rest sorted entry isEntry with rfl | ⟨above, bounds⟩
      · simp [lowerBound, upperBound, Nat.add_comm 1]
      · rw [bounds]
        simp [above, above.le, lowerBound, upperBound, Nat.add_comm 1]

/-- The keys of the directory are those of the rows, in order. -/
theorem buildDirectory_keys (sorted : (rows.map (·.key1)).Pairwise (· ≤ ·)) :
    ((buildDirectory rows).map (·.1)).Pairwise (· < ·) ∧
      ∀ row ∈ rows, row.key1 ∈ (buildDirectory rows).map (·.1) := by
  cases rows with
  | nil => exact ⟨List.Pairwise.nil, fun _ impossible => (List.not_mem_nil impossible).elim⟩
  | cons row rest =>
      rw [List.map_cons, List.pairwise_cons] at sorted
      have spec := @directoryLoop_spec row.key1 rest [] [row]
        (by simpa using sorted) (fun other isOther => by rw [List.mem_singleton.1 isOther])
        (fun _ impossible => (List.not_mem_nil impossible).elim)
        (fun other isOther => sorted.1 _ (List.mem_map_of_mem isOther))
      have isDirectory : buildDirectory (row :: rest) =
          directoryLoop row.key1 ([] : List GenericRow).length
            (([] : List GenericRow).length + [row].length) rest := rfl
      rw [← isDirectory] at spec
      refine ⟨spec.increasing, fun other isOther => ?_⟩
      rcases List.mem_cons.1 isOther with rfl | isOther
      · exact spec.hasKey
      · exact spec.complete other isOther

/-- The directory gives the bounds that the two bisections find. -/
theorem searchDirectory_eq (sorted : (rows.map (·.key1)).Pairwise (· ≤ ·)) :
    searchDirectory rows (buildDirectory rows) key = boundsRange (rows.map (·.key1)) key := by
  obtain ⟨strict, complete⟩ := buildDirectory_keys sorted
  have bounds := buildDirectory_bounds sorted
  have increasing := le_of_lt_pairwise strict
  generalize buildDirectory rows = directory at strict complete bounds increasing ⊢
  have place := @getElem?_lowerBound GraphId _ (directory.map (·.1)) key increasing
  have absent (missing : key ∉ directory.map (·.1)) :
      upperBound (rows.map (·.key1)) key = lowerBound (rows.map (·.key1)) key := by
    refine upperBound_eq_lowerBound fun inside => ?_
    obtain ⟨row, isRow, rfl⟩ := List.mem_map.1 inside
    exact missing (complete row isRow)
  have entryOf (row : GenericRow) (isRow : row ∈ rows) :=
    List.mem_iff_getElem?.1 (complete row isRow)
  rw [searchDirectory, ← List.length_map (f := (·.1)), bisect_eq
    (isBound_lowerBound increasing) (Nat.zero_le _) lowerBound_le_length (Nat.sub_le _ _),
    boundsRange_eq sorted]
  rw [List.getElem?_map] at place
  cases found : directory[lowerBound (directory.map (·.1)) key]? with
  | none =>
      rw [found] at place
      have missing : key ∉ directory.map (·.1) := mt place.2 (by simp)
      have whole : lowerBound (rows.map (·.key1)) key = rows.length := by
        rw [← List.length_map (f := (·.key1))]
        refine lowerBound_eq_length (List.forall_mem_map.2 fun row isRow => ?_)
        obtain ⟨earlier, at_earlier⟩ := entryOf row isRow
        have inside := (List.getElem?_eq_some_iff.1 at_earlier).1
        have outside := List.getElem?_eq_none_iff.1 found
        rw [List.length_map] at inside
        exact lt_of_lt_lowerBound increasing at_earlier (by omega)
      rw [absent missing, whole]
  | some entry =>
      rw [found] at place
      dsimp only
      split_ifs with same
      · rw [bounds entry (List.mem_of_getElem? found), same]
      · have missing : key ∉ directory.map (·.1) := mt place.2 (by simpa using same)
        rw [absent missing, bounds entry (List.mem_of_getElem? found)]
        have sameBound : lowerBound (rows.map (·.key1)) entry.1 =
            lowerBound (rows.map (·.key1)) key := by
          have at_place : (directory.map (·.1))[lowerBound (directory.map (·.1)) key]? =
              some entry.1 := by rw [List.getElem?_map, found, Option.map_some]
          have above : key < entry.1 := lt_of_le_of_ne
            (le_of_not_gt fun less => lt_irrefl _ (lowerBound_lt_of_lt increasing at_place less))
            (Ne.symm same)
          refine lowerBound_congr (List.forall_mem_map.2 fun row isRow =>
            ⟨fun less => ?_, fun less => less.trans above⟩)
          obtain ⟨earlier, at_earlier⟩ := entryOf row isRow
          refine lt_of_lt_lowerBound increasing at_earlier ?_
          by_contra notEarlier
          have later := lowerBound_lt_of_lt increasing at_earlier less
          exact lt_irrefl _ (lt_of_lt_lowerBound increasing at_place
            ((not_lt.1 notEarlier).trans_lt later))
        rw [sameBound]

/-- Everything in the caches holds of its key, and the directory is the one of the rows. -/
structure RangeCaches.Keep (rows : List GenericRow) (holds : GraphId → Range → Prop)
    (caches : RangeCaches) : Prop where
  childRanges : ∀ entry ∈ caches.childRanges, holds entry.1 entry.2
  prefixRanges : ∀ entry ∈ caches.prefixRanges, holds entry.1 entry.2
  directory : ∀ directory, caches.directory = some directory → directory = buildDirectory rows
  cursor : ∀ entry, caches.cursor = some entry → holds entry.1 entry.2

theorem RangeCaches.keep_empty {holds : GraphId → Range → Prop} :
    RangeCaches.empty.Keep rows holds :=
  ⟨fun _ impossible => (List.not_mem_nil impossible).elim,
    fun _ impossible => (List.not_mem_nil impossible).elim,
    fun _ impossible => by simp [RangeCaches.empty] at impossible,
    fun _ impossible => by simp [RangeCaches.empty] at impossible⟩

section Keep

variable {holds : GraphId → Range → Prop}

theorem cacheLookup_keep {cache moved : List (GraphId × Range)} {range : Range}
    (right : ∀ entry ∈ cache, holds entry.1 entry.2)
    (hit : cacheLookup cache key = some (range, moved)) :
    holds key range ∧ ∀ entry ∈ moved, holds entry.1 entry.2 := by
  obtain ⟨entry, found, same⟩ := Option.map_eq_some_iff.1 hit
  obtain ⟨rfl, rfl⟩ := Prod.mk.inj same
  have inside := List.mem_of_find?_eq_some found
  have atKey : entry.1 = key := by simpa using List.find?_some found
  refine ⟨atKey ▸ right entry inside, fun other isOther => ?_⟩
  rcases List.mem_cons.1 isOther with rfl | isOther
  · exact right other inside
  · exact right other (List.mem_of_mem_eraseP isOther)

theorem cacheStore_keep {cache : List (GraphId × Range)} {range : Range}
    (right : ∀ entry ∈ cache, holds entry.1 entry.2) (isHeld : holds key range) :
    ∀ entry ∈ cacheStore cache key range, holds entry.1 entry.2 := fun entry isEntry => by
  rcases List.mem_cons.1 isEntry with rfl | isEntry
  · exact isHeld
  · exact right entry (List.mem_of_mem_take isEntry)

theorem directoryLookup_keep (sorted : (rows.map (·.key1)).Pairwise (· ≤ ·))
    (bounds : ∀ key, holds key (boundsRange (rows.map (·.key1)) key))
    (keep : caches.Keep rows holds) {found : Range × RangeCaches}
    (hit : directoryLookup rows caches key = some found) :
    holds key found.1 ∧ found.2.Keep rows holds := by
  unfold directoryLookup at hit
  cases isDirectory : caches.directory with
  | none => simp [isDirectory] at hit
  | some directory =>
      rw [isDirectory] at hit
      dsimp only at hit
      cases atCursor : caches.cursor.filter (·.1 = key) with
      | some entry =>
          rw [atCursor] at hit
          obtain rfl := Option.some.inj hit
          obtain ⟨isCursor, atKey⟩ := Option.filter_eq_some_iff.1 atCursor
          rw [decide_eq_true_eq] at atKey
          exact ⟨atKey ▸ keep.cursor entry isCursor, keep⟩
      | none =>
          rw [atCursor] at hit
          obtain rfl := Option.some.inj hit
          have isHeld : holds key (searchDirectory rows directory key) := by
            rw [keep.directory directory isDirectory, searchDirectory_eq sorted]
            exact bounds key
          refine ⟨isHeld, keep.childRanges, keep.prefixRanges,
            isDirectory ▸ keep.directory, ?_⟩
          intro entry same
          obtain rfl := Option.some.inj same
          exact isHeld

theorem sortedArrayKey1Range_keep (sorted : (rows.map (·.key1)).Pairwise (· ≤ ·))
    (bounds : ∀ key, holds key (boundsRange (rows.map (·.key1)) key))
    (keep : caches.Keep rows holds) :
    holds key (sortedArrayKey1Range rows caches key).1 ∧
      (sortedArrayKey1Range rows caches key).2.Keep rows holds := by
  unfold sortedArrayKey1Range
  cases inDirectory : directoryLookup rows caches key with
  | some found => exact directoryLookup_keep sorted bounds keep inDirectory
  | none =>
      dsimp only
      cases inCache : cacheLookup caches.prefixRanges key with
      | some hit =>
          obtain ⟨isHeld, moved⟩ := cacheLookup_keep keep.prefixRanges inCache
          exact ⟨isHeld, keep.childRanges, moved, keep.directory, keep.cursor⟩
      | none =>
          dsimp only
          generalize isBuilt : (if prefixRangeDirectoryMinMisses ≤ caches.misses + 1 ∧
              prefixRangeCacheSize < rows.length then
            { RangeCaches.empty with directory := some (buildDirectory rows) }
            else { caches with misses := caches.misses + 1 } : RangeCaches) = built
          have builtKeep : built.Keep rows holds := by
            rw [← isBuilt]
            have empty := @RangeCaches.keep_empty rows holds
            split_ifs
            · exact ⟨empty.childRanges, empty.prefixRanges, fun _ same => (Option.some.inj same).symm,
                empty.cursor⟩
            · exact ⟨keep.childRanges, keep.prefixRanges, keep.directory, keep.cursor⟩
          cases again : directoryLookup rows built key with
          | some found => exact directoryLookup_keep sorted bounds builtKeep again
          | none =>
              exact ⟨bounds key, builtKeep.childRanges,
                cacheStore_keep builtKeep.prefixRanges (bounds key), builtKeep.directory,
                builtKeep.cursor⟩

theorem openChildRange_keep (sorted : (rows.map (·.key1)).Pairwise (· ≤ ·))
    (bounds : ∀ key, holds key (boundsRange (rows.map (·.key1)) key))
    (keep : caches.Keep rows holds) :
    holds key (openChildRange rows caches key).1 ∧
      (openChildRange rows caches key).2.Keep rows holds := by
  unfold openChildRange
  cases inCache : cacheLookup caches.childRanges key with
  | some hit =>
      obtain ⟨isHeld, moved⟩ := cacheLookup_keep keep.childRanges inCache
      exact ⟨isHeld, moved, keep.prefixRanges, keep.directory, keep.cursor⟩
  | none =>
      obtain ⟨isHeld, opened⟩ := @sortedArrayKey1Range_keep rows caches key holds sorted bounds keep
      exact ⟨isHeld, cacheStore_keep opened.childRanges isHeld, opened.prefixRanges,
        opened.directory, opened.cursor⟩

end Keep

/-- Whatever the caches hold, the range has the rows of the key. -/
theorem openChildRange_spec (sorted : (rows.map (·.key1)).Pairwise (· ≤ ·))
    (right : caches.Right rows) :
    IsRange rows key (openChildRange rows caches key).1 ∧
      (openChildRange rows caches key).2.Right rows := by
  obtain ⟨isRange, keep⟩ := @openChildRange_keep rows caches key (IsRange rows) sorted
    (fun _ => isRange_boundsRange sorted)
    ⟨right.childRanges, right.prefixRanges, right.directory, right.cursor⟩
  exact ⟨isRange, keep.childRanges, keep.prefixRanges, keep.directory, keep.cursor⟩

end Right

end Age.Executor.GenericJoin
