import Age.Adjacency.Contents

/-!
# The directory pages

The build writes the directory after all blocks of the main chain, so its pages stand next to each
other and a lookup can search them by halves: a page tells the least and the greatest of its keys.
-/

namespace Age.Adjacency

/-- A page of directory entries -/
structure DirectoryPage where
  minKey : GraphId
  maxKey : GraphId
  entries : List DirectoryEntry
  deriving DecidableEq, Repr

section Pages

/-- A page after `age_adjacency_append_item`; an empty one takes the key of the entry. -/
def DirectoryPage.append (page : DirectoryPage) (entry : DirectoryEntry) : DirectoryPage :=
  if page.entries.isEmpty then ⟨entry.key, entry.key, [entry]⟩
  else
    { minKey := if page.minKey < entry.key then page.minKey else entry.key
      maxKey := if entry.key < page.maxKey then page.maxKey else entry.key
      entries := page.entries ++ [entry] }

/-- `age_adjacency_append_directory_entry`; `room` tells from the number of entries on the last page
whether one more has enough free space there. -/
def appendDirectoryEntry (room : Nat → Bool) (pages : List DirectoryPage)
    (entry : DirectoryEntry) : List DirectoryPage :=
  match pages.getLast? with
  | none => [DirectoryPage.append ⟨0, 0, []⟩ entry]
  | some last =>
      if room last.entries.length then pages.dropLast ++ [last.append entry]
      else pages ++ [DirectoryPage.append ⟨0, 0, []⟩ entry]

/-- The search of `age_adjacency_search_directory_with_meta`, with the block numbers counted from
`first_directory_blkno`; `turns` bounds the turns of its loop. -/
def searchDirectoryPages (pages : List DirectoryPage) (key : GraphId) :
    (turns : Nat) → (low high : Int) → Option DirectoryEntry
  | 0, _, _ => none
  | turns + 1, low, high =>
      if low ≤ high then
        let blkno := low + (high - low) / 2
        match pages[blkno.toNat]? with
        | none => none
        | some page =>
            if key < page.minKey then searchDirectoryPages pages key turns low (blkno - 1)
            else if page.maxKey < key then searchDirectoryPages pages key turns (blkno + 1) high
            else page.entries.find? fun entry => entry.key == key
      else none

/-- `age_adjacency_search_directory_with_meta` -/
def searchDirectory (pages : List DirectoryPage) (key : GraphId) : Option DirectoryEntry :=
  searchDirectoryPages pages key pages.length 0 (pages.length - 1)

/-- What is known of one page: its range is the one of its keys. -/
structure DirectoryPage.Ranged (page : DirectoryPage) : Prop where
  inside : ∀ entry ∈ page.entries,
    page.minKey.toInt ≤ entry.key.toInt ∧ entry.key.toInt ≤ page.maxKey.toInt
  least : ∃ entry ∈ page.entries, entry.key = page.minKey
  greatest : ∃ entry ∈ page.entries, entry.key = page.maxKey

theorem DirectoryPage.ranged_single (entry : DirectoryEntry) :
    (DirectoryPage.append ⟨0, 0, []⟩ entry).Ranged := by
  refine ⟨fun other inside => ?_, ⟨entry, List.mem_singleton_self _, rfl⟩,
    ⟨entry, List.mem_singleton_self _, rfl⟩⟩
  rw [List.mem_singleton.1 inside]
  exact ⟨le_rfl, le_rfl⟩

theorem DirectoryPage.Ranged.append {page : DirectoryPage} (ranged : page.Ranged)
    (entry : DirectoryEntry) : (page.append entry).Ranged := by
  have notEmpty : page.entries.isEmpty = false := by
    obtain ⟨first, inside, _⟩ := ranged.least
    rw [List.isEmpty_eq_false_iff]
    exact List.ne_nil_of_mem inside
  rw [DirectoryPage.append, notEmpty, if_neg Bool.false_ne_true]
  obtain ⟨first, isFirst, least⟩ := ranged.least
  obtain ⟨last, isLast, greatest⟩ := ranged.greatest
  refine ⟨fun other inside => ?_, ?_, ?_⟩
  · dsimp only at inside ⊢
    simp only [Int64.lt_iff_toInt_lt]
    rcases List.mem_append.1 inside with old | new
    · obtain ⟨low, high⟩ := ranged.inside other old
      split_ifs <;> omega
    · rw [List.mem_singleton.1 new]
      split_ifs <;> omega
  · dsimp only
    split_ifs
    · exact ⟨first, List.mem_append_left _ isFirst, least⟩
    · exact ⟨entry, List.mem_append_right _ (List.mem_singleton_self _), rfl⟩
  · dsimp only
    split_ifs
    · exact ⟨last, List.mem_append_left _ isLast, greatest⟩
    · exact ⟨entry, List.mem_append_right _ (List.mem_singleton_self _), rfl⟩

theorem DirectoryPage.entries_append (page : DirectoryPage) (entry : DirectoryEntry) :
    (page.append entry).entries = page.entries ++ [entry] := by
  rw [DirectoryPage.append]
  by_cases empty : page.entries.isEmpty = true
  · rw [if_pos empty, List.isEmpty_iff.1 empty]
    rfl
  · rw [if_neg empty]

/-- The pages hold the entries in order, each with its range. -/
structure Filed (pages : List DirectoryPage) (entries : List DirectoryEntry) : Prop where
  all : pages.flatMap DirectoryPage.entries = entries
  ranged : ∀ page ∈ pages, page.Ranged

theorem Filed.append {pages : List DirectoryPage} {entries : List DirectoryEntry}
    (filed : Filed pages entries) (room : Nat → Bool) (entry : DirectoryEntry) :
    Filed (appendDirectoryEntry room pages entry) (entries ++ [entry]) := by
  obtain ⟨rfl, ranged⟩ := filed
  unfold appendDirectoryEntry
  cases last : pages.getLast? with
  | none =>
      rw [List.getLast?_eq_none_iff] at last
      subst last
      refine ⟨rfl, fun page inside => ?_⟩
      rw [List.mem_singleton.1 inside]
      exact DirectoryPage.ranged_single entry
  | some page =>
      obtain ⟨init, rfl⟩ := List.getLast?_eq_some_iff.1 last
      dsimp only
      split_ifs
      · refine ⟨by simp [DirectoryPage.entries_append], fun other inside => ?_⟩
        rw [List.dropLast_concat] at inside
        rcases List.mem_append.1 inside with old | new
        · exact ranged other (List.mem_append_left _ old)
        · rw [List.mem_singleton.1 new]
          exact (ranged page (List.mem_append_right _ (List.mem_singleton_self _))).append entry
      · refine ⟨by simp [DirectoryPage.entries_append], fun other inside => ?_⟩
        rcases List.mem_append.1 inside with old | new
        · exact ranged other old
        · rw [List.mem_singleton.1 new]
          exact DirectoryPage.ranged_single entry

theorem filed_foldl (room : Nat → Bool) (entries : List DirectoryEntry) :
    Filed (entries.foldl (appendDirectoryEntry room) []) entries := by
  induction entries using List.reverseRecOn with
  | nil => exact ⟨rfl, nofun⟩
  | append_singleton entries entry ih =>
      rw [List.foldl_concat]
      exact ih.append room entry

end Pages

section Search

variable {pages : List DirectoryPage} {key : GraphId}

theorem find?_of_outside {pages : List DirectoryPage} (ranged : ∀ page ∈ pages, page.Ranged)
    (outside : ∀ page ∈ pages, page.maxKey.toInt < key.toInt ∨ key.toInt < page.minKey.toInt) :
    (pages.flatMap DirectoryPage.entries).find? (fun entry => entry.key == key) = none := by
  rw [List.find?_eq_none]
  intro entry inside isKey
  obtain ⟨page, isPage, onPage⟩ := List.mem_flatMap.1 inside
  obtain ⟨low, high⟩ := (ranged page isPage).inside entry onPage
  rw [eq_of_beq isKey] at low high
  rcases outside page isPage with above | below <;> omega

/-- A key in the range of a page can stand on this page only. -/
theorem find?_onPage (ranged : ∀ page ∈ pages, page.Ranged)
    (increasing : pages.Pairwise fun page later => page.maxKey.toInt < later.minKey.toInt)
    {middle : Nat} (inRange : middle < pages.length)
    (least : pages[middle].minKey.toInt ≤ key.toInt)
    (greatest : key.toInt ≤ pages[middle].maxKey.toInt) :
    (pages.flatMap DirectoryPage.entries).find? (fun entry => entry.key == key) =
      pages[middle].entries.find? fun entry => entry.key == key := by
  have split : pages = pages.take middle ++ pages[middle] :: pages.drop (middle + 1) := by
    rw [← List.drop_eq_getElem_cons inRange, List.take_append_drop]
  have before : ((pages.take middle).flatMap DirectoryPage.entries).find?
      (fun entry => entry.key == key) = none := by
    refine find?_of_outside (fun page isPage => ranged page (List.mem_of_mem_take isPage))
      fun page isPage => .inl ?_
    obtain ⟨place, isPlace, rfl⟩ := List.mem_take_iff_getElem.1 isPage
    have across := List.pairwise_iff_getElem.1 increasing place middle (by omega) inRange
      (by omega)
    omega
  have after : ((pages.drop (middle + 1)).flatMap DirectoryPage.entries).find?
      (fun entry => entry.key == key) = none := by
    refine find?_of_outside (fun page isPage => ranged page (List.mem_of_mem_drop isPage))
      fun page isPage => .inr ?_
    obtain ⟨place, isPlace, rfl⟩ := List.mem_drop_iff_getElem.1 isPage
    have across := List.pairwise_iff_getElem.1 increasing middle (middle + 1 + place)
      inRange (by omega) (by omega)
    omega
  conv_lhs => rw [split, List.flatMap_append, List.flatMap_cons, List.find?_append, before,
    Option.none_or, List.find?_append, after, Option.or_none]

/-- The halving search finds what a search from the start would: the pages that it has left out
have smaller or greater keys. -/
theorem searchDirectoryPages_eq (ranged : ∀ page ∈ pages, page.Ranged)
    (increasing : pages.Pairwise fun page later => page.maxKey.toInt < later.minKey.toInt)
    {turns : Nat} {low high : Int} (enough : high - low < turns) (start : 0 ≤ low)
    (stop : high < pages.length)
    (below : ∀ place (inRange : place < pages.length), (place : Int) < low →
      pages[place].maxKey.toInt < key.toInt)
    (above : ∀ place (inRange : place < pages.length), high < (place : Int) →
      key.toInt < pages[place].minKey.toInt) :
    searchDirectoryPages pages key turns low high =
      (pages.flatMap DirectoryPage.entries).find? fun entry => entry.key == key := by
  induction turns generalizing low high with
  | zero =>
      rw [find?_of_outside ranged fun page isPage => ?_]
      · rfl
      · obtain ⟨place, inRange, rfl⟩ := List.mem_iff_getElem.1 isPage
        rcases lt_or_ge (place : Int) low with before | onward
        · exact .inl (below place inRange before)
        · exact .inr (above place inRange (by omega))
  | succ turns ih =>
      rw [searchDirectoryPages]
      split_ifs with more
      · dsimp only
        obtain ⟨middle, isMiddle⟩ : ∃ middle : Nat, low + (high - low) / 2 = middle :=
          ⟨(low + (high - low) / 2).toNat, by omega⟩
        have inRange : middle < pages.length := by omega
        have onPage := ranged _ (List.getElem_mem inRange)
        obtain ⟨entry, isEntry, least⟩ := onPage.least
        have ordered := onPage.inside entry isEntry
        rw [isMiddle, Int.toNat_natCast, List.getElem?_eq_getElem inRange]
        simp only [Int64.lt_iff_toInt_lt]
        split_ifs with isBelow isAbove
        · refine ih (by omega) start (by omega) below fun place placeInRange after => ?_
          rcases Nat.eq_or_lt_of_le (show middle ≤ place by omega) with rfl | later
          · exact isBelow
          · have across := List.pairwise_iff_getElem.1 increasing middle place inRange placeInRange later
            omega
        · refine ih (by omega) (by omega) stop (fun place placeInRange before => ?_) above
          rcases Nat.eq_or_lt_of_le (show place ≤ middle by omega) with rfl | earlier
          · exact isAbove
          · have across :=
              List.pairwise_iff_getElem.1 increasing place middle placeInRange inRange earlier
            omega
        · exact (find?_onPage ranged increasing inRange (by omega) (by omega)).symm
      · rw [find?_of_outside ranged fun page isPage => ?_]
        obtain ⟨place, inRange, rfl⟩ := List.mem_iff_getElem.1 isPage
        rcases lt_or_ge (place : Int) low with before | onward
        · exact .inl (below place inRange before)
        · exact .inr (above place inRange (by omega))

/-- The pages of entries in order do not overlap. -/
theorem Filed.increasing {entries : List DirectoryEntry} (filed : Filed pages entries)
    (sorted : entries.Pairwise fun entry later => entry.key.toInt < later.key.toInt) :
    pages.Pairwise fun page later => page.maxKey.toInt < later.minKey.toInt := by
  rw [← filed.all, List.pairwise_flatMap] at sorted
  refine sorted.2.imp_of_mem fun {page later} isPage isLater across => ?_
  obtain ⟨last, isLast, greatest⟩ := (filed.ranged page isPage).greatest
  obtain ⟨first, isFirst, least⟩ := (filed.ranged later isLater).least
  rw [← greatest, ← least]
  exact across last isLast first isFirst

/-- The lookup finds the entry of a key, wherever the entries went. -/
theorem searchDirectory_eq {entries : List DirectoryEntry} (filed : Filed pages entries)
    (sorted : entries.Pairwise fun entry later => entry.key.toInt < later.key.toInt) :
    searchDirectory pages key = entries.find? fun entry => entry.key == key := by
  rw [searchDirectory, searchDirectoryPages_eq filed.ranged (filed.increasing sorted) (by omega) le_rfl (by omega)
    (fun place _ before => by omega) (fun place inRange after => by omega), filed.all]

end Search

section Build

variable (geometry : Geometry) (room : Nat → Bool)

/-- An index with the pages of its directory -/
structure PagedIndex where
  stored : Stored
  directoryPages : List DirectoryPage

/-- `age_adjacency_build`; `none` when a key has too many postings for a directory entry. -/
def buildPaged (postings : List Posting) : Option PagedIndex :=
  if (keyRuns postings).any fun run => decide (4294967295 < run.length) then none
  else
    let stored := Stored.build geometry postings
    some ⟨stored, stored.directory.foldl (appendDirectoryEntry room) []⟩

/-- `age_adjacency_scan_payload`: of the directory it sees the entry that the lookup finds. -/
def PagedIndex.scanPayload (index : PagedIndex) (key : GraphId) : Option (List Posting) :=
  { index.stored with
    directory := (searchDirectory index.directoryPages key).toList }.scanPayload key

variable {geometry room}

theorem build_directory_increasing (postings : List Posting) :
    (Stored.build geometry postings).directory.Pairwise
      fun entry later => entry.key.toInt < later.key.toInt := by
  have keys := (@buildMainRuns_laid geometry postings).keys
  have increasing : ((keyRuns postings).map runKey).Pairwise
      fun key later => key.toInt < later.toInt :=
    List.pairwise_map.2 (keyRuns_increasing postings)
  rw [← keys] at increasing
  exact (List.pairwise_map (f := DirectoryEntry.key)).1 increasing

theorem find?_toList_find? {α : Type*} (test : α → Bool) (items : List α) :
    (items.find? test).toList.find? test = items.find? test := by
  cases found : items.find? test with
  | none => rfl
  | some item => simp [List.find?_some found]

/-- The scan of a key of a built index -/
theorem scanPayload_built {postings : List Posting} (key : GraphId) :
    ∃ out, (Stored.build geometry postings).scanPayload key = some out ∧
      out.Perm (postings.filter fun posting => posting.key == key) := by
  have ends : DeletedFromTheEnd postings [] := fun _ _ gone => nomatch gone
  have run := @scanPostingRun_perm geometry postings [] ends key
  have all : postings.filter (fun posting => survives [] posting.heapTid) = postings :=
    List.filter_eq_self.2 fun _ _ => rfl
  rw [all] at run
  exact ⟨(Stored.build geometry postings).scanPostingRun key ++ [], rfl, by
    rw [List.append_nil]
    exact run⟩

theorem sum_postingCount (postings : List Posting) :
    ((Stored.build geometry postings).directory.map DirectoryEntry.postingCount).sum =
      postings.length := by
  have laid := @buildMainRuns_laid geometry postings
  have counts : (Stored.build geometry postings).directory.map DirectoryEntry.postingCount =
      (keyRuns postings).map List.length := by
    have sameLength : (buildMainRuns geometry postings).directory.length =
        (keyRuns postings).length := by
      simpa using congrArg List.length laid.keys
    refine List.ext_getElem (by simpa [Stored.build] using sameLength) fun place first second => ?_
    rw [List.length_map] at first second
    rw [List.getElem_map, List.getElem_map]
    exact (laid.located place _ _ (List.getElem?_eq_getElem first)
      (List.getElem?_eq_getElem second)).1
  rw [counts, ← List.length_flatten, (keyRuns_perm postings).length_eq]

/-- No run is too long where all postings together are not. -/
theorem buildPaged_of_length {postings : List Posting} (short : postings.length ≤ 4294967295) :
    ∃ index, buildPaged geometry room postings = some index := by
  have none : (keyRuns postings).any (fun run => decide (4294967295 < run.length)) = false := by
    rw [List.any_eq_false]
    intro run isRun tooLong
    have inside := (List.sublist_flatten_of_mem isRun).length_le
    rw [(keyRuns_perm postings).length_eq] at inside
    have := of_decide_eq_true tooLong
    omega
  rw [buildPaged, none]
  exact ⟨_, rfl⟩

/-- After a build, the scan of a key emits its postings; the directory has an entry for each key
that occurs, in order, and their counts add up. -/
theorem buildPaged_scan {postings : List Posting} {index : PagedIndex}
    (built : buildPaged geometry room postings = some index) :
    (∀ key, ∃ out, index.scanPayload key = some out ∧
      out.Perm (postings.filter fun posting => posting.key == key)) ∧
    (index.directoryPages.flatMap DirectoryPage.entries).Pairwise
      (fun entry later => entry.key.toInt < later.key.toInt) ∧
    (∀ key, key ∈ (index.directoryPages.flatMap DirectoryPage.entries).map DirectoryEntry.key ↔
      ∃ posting ∈ postings, posting.key = key) ∧
    ((index.directoryPages.flatMap DirectoryPage.entries).map DirectoryEntry.postingCount).sum =
      postings.length := by
  unfold buildPaged at built
  split_ifs at built
  cases built
  have filed := filed_foldl room (Stored.build geometry postings).directory
  have increasing := @build_directory_increasing geometry postings
  dsimp only
  rw [filed.all]
  refine ⟨fun key => ?_, increasing, fun key => ?_, sum_postingCount postings⟩
  · have lookup := @searchDirectory_eq _ key _ filed increasing
    have same : PagedIndex.scanPayload ⟨Stored.build geometry postings,
        (Stored.build geometry postings).directory.foldl (appendDirectoryEntry room) []⟩ key =
          (Stored.build geometry postings).scanPayload key := by
      have found : Index.findDirectoryEntry ⟨(Stored.build geometry postings).main,
          (searchDirectory ((Stored.build geometry postings).directory.foldl
            (appendDirectoryEntry room) []) key).toList, []⟩ key =
          (Stored.build geometry postings).mainIndex.findDirectoryEntry key := by
        rw [Index.findDirectoryEntry, lookup]
        exact find?_toList_find? _ _
      simp only [PagedIndex.scanPayload, Stored.scanPayload, Stored.scanPostingRun, Index.runCount,
        Index.runPages, Stored.mainIndex] at found ⊢
      rw [found]
      rfl
    rw [same]
    exact scanPayload_built key
  · have keys : (Stored.build geometry postings).directory.map DirectoryEntry.key =
        (keyRuns postings).map runKey := (@buildMainRuns_laid geometry postings).keys
    rw [keys, List.mem_map]
    constructor
    · rintro ⟨run, isRun, rfl⟩
      obtain ⟨posting, inside⟩ := List.exists_mem_of_ne_nil _ (List.ne_nil_of_mem_splitBy isRun)
      exact ⟨posting, (keyRuns_perm postings).mem_iff.1 (List.mem_flatten_of_mem isRun inside),
        keyRuns_key isRun inside⟩
    · rintro ⟨posting, isPosting, rfl⟩
      obtain ⟨run, isRun, inside⟩ :=
        List.mem_flatten.1 ((keyRuns_perm postings).mem_iff.2 isPosting)
      exact ⟨run, isRun, (keyRuns_key isRun inside).symm⟩

/-- Two edges of vertex 1.2, one of vertex 1.1, and no edge of vertex 1.3 -/
theorem buildPaged_scan_three :
    let postings : List Posting := [⟨281474976710658, ⟨0, 3⟩, 844424930131971, 281474976710657⟩,
      ⟨281474976710657, ⟨0, 1⟩, 844424930131969, 281474976710658⟩,
      ⟨281474976710658, ⟨0, 2⟩, 844424930131970, 281474976710659⟩]
    ∃ index, buildPaged ⟨fun _ count => count ≤ 1, fun _ _ => false, fun _ => true⟩
        (fun count => count < 1) postings = some index ∧
      index.scanPayload 281474976710659 = some [] ∧
      ((index.directoryPages.flatMap DirectoryPage.entries).map DirectoryEntry.postingCount).sum =
        3 := by
  intro postings
  obtain ⟨index, built⟩ := @buildPaged_of_length
    ⟨fun _ count => count ≤ 1, fun _ _ => false, fun _ => true⟩ (fun count => count < 1) postings
    (by decide)
  obtain ⟨scans, _, _, total⟩ := buildPaged_scan built
  obtain ⟨out, scanned, perm⟩ := scans 281474976710659
  have nothing : postings.filter (fun posting => posting.key == 281474976710659) = [] := by decide
  rw [nothing, List.perm_nil] at perm
  exact ⟨index, built, perm ▸ scanned, total⟩

end Build

end Age.Adjacency
