import Age.Adjacency.Directory

/-!
# The cached directory lookup

A visible payload scan keeps a copy of the directory page that it read last.  A key in the range
of this page is looked up there alone; for another key the pages are searched by halves, and each
page on the way replaces the copy.
-/

namespace Age.Adjacency

section Cache

/-- `AgeAdjacencyDirectoryPageCache` while it is valid: the block, with the block numbers counted
from `first_directory_blkno`, and the copy of its page -/
structure DirectoryCache where
  blkno : Nat
  page : DirectoryPage
  deriving DecidableEq

/-- The key lies between `min_key` and `max_key` of the copy. -/
def DirectoryCache.covers (cache : DirectoryCache) (key : GraphId) : Bool :=
  decide (cache.page.minKey ≤ key) && decide (key ≤ cache.page.maxKey)

/-- The loop over the entries of the copy -/
def DirectoryCache.find (cache : DirectoryCache) (key : GraphId) : Option DirectoryEntry :=
  cache.page.entries.find? fun entry => entry.key == key

/-- `age_adjacency_load_directory_cache`; `none` when the block is no directory page. -/
def loadDirectoryCache (pages : List DirectoryPage) (cache : Option DirectoryCache)
    (blkno : Nat) : Option DirectoryCache :=
  match cache.filter (·.blkno = blkno) with
  | some loaded => some loaded
  | none => pages[blkno]?.map fun page => ⟨blkno, page⟩

/-- The loop of `age_adjacency_find_directory_entry_cached`, with the entry and the cache that it
leaves; `none` when it raises an error.  `turns` bounds the turns. -/
def searchCachedPages (pages : List DirectoryPage) (key : GraphId) :
    (turns : Nat) → (low high : Int) → Option DirectoryCache →
      Option (Option DirectoryEntry × Option DirectoryCache)
  | 0, low, high, cache => if low ≤ high then none else some (none, cache)
  | turns + 1, low, high, cache =>
      if low ≤ high then
        let blkno := low + (high - low) / 2
        (loadDirectoryCache pages cache blkno.toNat).bind fun loaded =>
          if key < loaded.page.minKey then
            searchCachedPages pages key turns low (blkno - 1) (some loaded)
          else if loaded.page.maxKey < key then
            searchCachedPages pages key turns (blkno + 1) high (some loaded)
          else some (loaded.find key, some loaded)
      else some (none, cache)

/-- `age_adjacency_find_directory_entry_cached` -/
def findDirectoryEntryCached (pages : List DirectoryPage) (cache : Option DirectoryCache)
    (key : GraphId) : Option (Option DirectoryEntry × Option DirectoryCache) :=
  if pages.isEmpty then some (none, cache)
  else
    match cache.filter (·.covers key) with
    | some loaded => some (loaded.find key, cache)
    | none => searchCachedPages pages key pages.length 0 (pages.length - 1) cache

/-- The lookups of a scan, one after another -/
def directoryLookups (pages : List DirectoryPage) :
    Option DirectoryCache → List GraphId →
      Option (List (Option DirectoryEntry) × Option DirectoryCache)
  | cache, [] => some ([], cache)
  | cache, key :: rest =>
      (findDirectoryEntryCached pages cache key).bind fun (found, cache) =>
        (directoryLookups pages cache rest).map fun (later, cache) => (found :: later, cache)

end Cache

section Right

variable {pages : List DirectoryPage} {cache : Option DirectoryCache} {key : GraphId}

/-- The copy is the page of its block. -/
def CacheRight (pages : List DirectoryPage) (cache : Option DirectoryCache) : Prop :=
  ∀ loaded, cache = some loaded → pages[loaded.blkno]? = some loaded.page

theorem loadDirectoryCache_eq (right : CacheRight pages cache) {blkno : Nat}
    (inRange : blkno < pages.length) :
    loadDirectoryCache pages cache blkno = some ⟨blkno, pages[blkno]⟩ := by
  unfold loadDirectoryCache
  cases hit : cache.filter (·.blkno = blkno) with
  | some loaded =>
      obtain ⟨isCache, isBlock⟩ := Option.filter_eq_some_iff.1 hit
      obtain ⟨place, page⟩ := loaded
      obtain rfl : place = blkno := by simpa using isBlock
      have isPage := right _ isCache
      rw [List.getElem?_eq_getElem inRange] at isPage
      rw [Option.some.inj isPage]
  | none =>
      rw [List.getElem?_eq_getElem inRange]
      rfl

theorem cacheRight_none : CacheRight pages none := by
  intro loaded isLoaded
  cases isLoaded

theorem cacheRight_page {blkno : Nat} (inRange : blkno < pages.length) :
    CacheRight pages (some ⟨blkno, pages[blkno]⟩) := by
  intro loaded isLoaded
  obtain rfl := Option.some.inj isLoaded
  exact List.getElem?_eq_getElem inRange

/-- The loop through the cache goes the way of the loop over the pages. -/
theorem searchCachedPages_eq {turns : Nat} {low high : Int} (right : CacheRight pages cache)
    (enough : high - low < turns) (start : 0 ≤ low) (stop : high < pages.length) :
    ∃ after, searchCachedPages pages key turns low high cache =
        some (searchDirectoryPages pages key turns low high, after) ∧ CacheRight pages after := by
  induction turns generalizing low high cache with
  | zero =>
      rw [searchCachedPages, if_neg (by omega)]
      exact ⟨cache, rfl, right⟩
  | succ turns ih =>
      rw [searchCachedPages, searchDirectoryPages]
      by_cases more : low ≤ high
      · rw [if_pos more, if_pos more]
        dsimp only
        obtain ⟨middle, isMiddle⟩ : ∃ middle : Nat, low + (high - low) / 2 = middle :=
          ⟨(low + (high - low) / 2).toNat, by omega⟩
        have inRange : middle < pages.length := by omega
        have loaded := cacheRight_page inRange
        rw [isMiddle, Int.toNat_natCast, loadDirectoryCache_eq right inRange,
          List.getElem?_eq_getElem inRange, Option.bind_some]
        dsimp only
        split_ifs
        · exact ih loaded (by omega) start (by omega)
        · exact ih loaded (by omega) (by omega) stop
        · exact ⟨_, rfl, loaded⟩
      · rw [if_neg more, if_neg more]
        exact ⟨cache, rfl, right⟩

variable {entries : List DirectoryEntry}

/-- A lookup through the cache finds what the lookup without it finds. -/
theorem findDirectoryEntryCached_eq (filed : Filed pages entries)
    (sorted : entries.Pairwise fun entry later => entry.key.toInt < later.key.toInt)
    (right : CacheRight pages cache) :
    ∃ after, findDirectoryEntryCached pages cache key = some (searchDirectory pages key, after) ∧
      CacheRight pages after := by
  rw [findDirectoryEntryCached]
  split_ifs with empty
  · rw [List.isEmpty_iff.1 empty]
    exact ⟨cache, rfl, List.isEmpty_iff.1 empty ▸ right⟩
  cases hit : cache.filter (·.covers key) with
  | none => exact searchCachedPages_eq right (by omega) le_rfl (by omega)
  | some loaded =>
      obtain ⟨isCache, covered⟩ := Option.filter_eq_some_iff.1 hit
      obtain ⟨inRange, isPage⟩ := List.getElem?_eq_some_iff.1 (right loaded isCache)
      rw [DirectoryCache.covers, Bool.and_eq_true, decide_eq_true_eq, decide_eq_true_eq,
        Int64.le_iff_toInt_le, Int64.le_iff_toInt_le, ← isPage] at covered
      refine ⟨cache, ?_, right⟩
      rw [searchDirectory_eq filed sorted, ← filed.all,
        find?_onPage filed.ranged (filed.increasing sorted) inRange covered.1 covered.2, isPage]
      rfl

theorem directoryLookups_eq (filed : Filed pages entries)
    (sorted : entries.Pairwise fun entry later => entry.key.toInt < later.key.toInt)
    (right : CacheRight pages cache) (keys : List GraphId) :
    ∃ after, directoryLookups pages cache keys =
      some (keys.map (searchDirectory pages), after) := by
  induction keys generalizing cache with
  | nil => exact ⟨cache, rfl⟩
  | cons key rest ih =>
      obtain ⟨next, found, nextRight⟩ := @findDirectoryEntryCached_eq _ _ key _ filed sorted right
      obtain ⟨after, later⟩ := ih nextRight
      refine ⟨after, ?_⟩
      rw [directoryLookups, found, Option.bind_some]
      dsimp only
      rw [later]
      rfl

/-- In a built index both lookups find the entry of a key if there is one, and the cached one
does so whatever was looked up before. -/
theorem directoryLookups_built {geometry : Geometry} {room : Nat → Bool} {postings : List Posting}
    {index : PagedIndex} (built : buildPaged geometry room postings = some index)
    (keys : List GraphId) :
    (∀ key entry, searchDirectory index.directoryPages key = some entry ↔
      entry ∈ index.stored.directory ∧ entry.key = key) ∧
    ∃ after, directoryLookups index.directoryPages none keys =
      some (keys.map (searchDirectory index.directoryPages), after) := by
  unfold buildPaged at built
  split_ifs at built
  cases built
  have filed := filed_foldl room (Stored.build geometry postings).directory
  have sorted := @build_directory_increasing geometry postings
  refine ⟨fun key entry => ?_, directoryLookups_eq filed sorted cacheRight_none keys⟩
  rw [searchDirectory_eq filed sorted]
  dsimp only
  constructor
  · intro found
    exact ⟨List.mem_of_find?_eq_some found, by simpa using List.find?_some found⟩
  · rintro ⟨isEntry, rfl⟩
    cases found : (Stored.build geometry postings).directory.find? fun other =>
        other.key == entry.key with
    | none => simpa using List.find?_eq_none.1 found entry isEntry
    | some other =>
        have same : other.key = entry.key := by simpa using List.find?_some found
        obtain ⟨first, firstInRange, isFirst⟩ := List.mem_iff_getElem.1 isEntry
        obtain ⟨second, secondInRange, isSecond⟩ :=
          List.mem_iff_getElem.1 (List.mem_of_find?_eq_some found)
        have across := List.pairwise_iff_getElem.1 sorted
        rcases lt_trichotomy first second with earlier | rfl | later
        · have less := across first second firstInRange secondInRange earlier
          rw [isFirst, isSecond, same] at less
          exact absurd less (lt_irrefl _)
        · rw [← isSecond, isFirst]
        · have less := across second first secondInRange firstInRange later
          rw [isFirst, isSecond, same] at less
          exact absurd less (lt_irrefl _)

/-- Lookups of a key, of one on another page, and of one that no posting has -/
theorem directoryLookups_built_three :
    let postings : List Posting := [⟨281474976710658, ⟨0, 3⟩, 844424930131971, 281474976710657⟩,
      ⟨281474976710657, ⟨0, 1⟩, 844424930131969, 281474976710658⟩]
    let keys : List GraphId := [281474976710657, 281474976710658, 281474976710659]
    ∃ index, buildPaged ⟨fun _ count => count ≤ 1, fun _ _ => false, fun _ => true⟩
        (fun count => count < 1) postings = some index ∧
      ∃ after, directoryLookups index.directoryPages none keys =
        some (keys.map (searchDirectory index.directoryPages), after) := by
  intro postings keys
  obtain ⟨index, built⟩ := @buildPaged_of_length
    ⟨fun _ count => count ≤ 1, fun _ _ => false, fun _ => true⟩ (fun count => count < 1) postings
    (by decide)
  exact ⟨index, built, (directoryLookups_built built keys).2⟩

end Right

end Age.Adjacency
