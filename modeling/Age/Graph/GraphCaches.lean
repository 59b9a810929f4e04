import Mathlib.Data.List.Basic

/-!
# Caches of the graph catalog

A backend keeps the rows of `ag_graph` in two hash tables, one by name and one by namespace, and the
last lookups in each of them in a few slots, with those that found nothing.  An invalidation of
namespaces destroys both tables, also in the middle of a lookup; the slots point into the tables and
are told from older ones by a generation.
-/

namespace Age.Graph.GraphCaches

section Code

abbrev Oid := UInt32

/-- `NAMEDATALEN` -/
def nameDataLen : Nat := 64

/-- The bytes of a `NameData` before its end -/
abbrev Name := { bytes : List UInt8 // bytes.length < nameDataLen }

/-- `namestrcpy` -/
def namestrcpy (name : List UInt8) : Name :=
  ⟨name.take (nameDataLen - 1), Nat.lt_of_le_of_lt (List.length_take_le _ _) (by decide)⟩

/-- `LAST_GRAPH_CACHE_SIZE` -/
def lastGraphCacheSize : Nat := 8

/-- `graph_cache_data` -/
structure GraphCacheData where
  oid : Oid
  name : Name
  graphNamespace : Oid
  deriving DecidableEq, Repr

/-- The rows of `ag_graph`, with its unique indexes -/
structure AgGraph where
  rows : List GraphCacheData
  nameUnique : (rows.map GraphCacheData.name).Nodup
  namespaceUnique : (rows.map GraphCacheData.graphNamespace).Nodup

/-- A hash table; the tables that are created one after the other differ in their `created`. -/
structure HashTable (Key : Type) where
  created : Nat
  entries : List (Key × GraphCacheData)

/-- A pointer to the data of an entry -/
structure Pointer (Key : Type) where
  created : Nat
  key : Key

/-- One place of the arrays `cached_names`, `cached_generations`, `cached_graphs` and
`cached_valid` -/
structure Slot (Key : Type) where
  key : Key
  generation : Nat
  graph : Option (Pointer Key)
  valid : Bool

/-- The static variables of `search_graph_name_cache_cached` -/
structure LastLookups (Key : Type) where
  slots : List (Slot Key)
  nextSlot : Nat

/-- The caches as one of the lookups sees them: its own table and slots, and those of the other -/
structure Caches (Key Other : Type) where
  hash : HashTable Key
  lookups : LastLookups Key
  otherHash : HashTable Other
  otherLookups : LastLookups Other
  generation : Nat

variable {Key Other : Type} [DecidableEq Key] [DecidableEq Other]

def Caches.swap (caches : Caches Key Other) : Caches Other Key where
  hash := caches.otherHash
  lookups := caches.otherLookups
  otherHash := caches.hash
  otherLookups := caches.lookups
  generation := caches.generation

/-- `hash_search` with `HASH_FIND` -/
def HashTable.find (table : HashTable Key) (key : Key) : Option GraphCacheData :=
  (table.entries.find? (·.1 = key)).map (·.2)

/-- `hash_search` with `HASH_ENTER`, and the data of the entry -/
def HashTable.put (table : HashTable Key) (key : Key) (data : GraphCacheData) : HashTable Key :=
  { table with entries := (key, data) :: table.entries.filter (·.1 ≠ key) }

/-- The entry at a pointer; there is none where the table of the pointer has been destroyed. -/
def HashTable.deref (table : HashTable Key) (pointer : Pointer Key) : Option GraphCacheData :=
  if pointer.created = table.created then table.find pointer.key else none

/-- `flush_graph_name_cache` and `flush_graph_namespace_cache` -/
def HashTable.flush (table : HashTable Key) : HashTable Key where
  created := table.created + 1
  entries := []

/-- `invalidate_graph_caches` -/
def Caches.invalidateGraphCaches (caches : Caches Key Other) : Caches Key Other :=
  { caches with
    generation := caches.generation + 1, hash := caches.hash.flush
    otherHash := caches.otherHash.flush }

/-- `invalidate_graph_cache` -/
def Caches.invalidateGraphCache (caches : Caches Key Other) : Caches Key Other :=
  { caches with generation := caches.generation + 1 }

/-- The messages of namespaces that `table_open` accepts -/
def Caches.acceptInvalidations (caches : Caches Key Other) : (accepted : Nat) → Caches Key Other
  | 0 => caches
  | accepted + 1 => caches.invalidateGraphCaches.acceptInvalidations accepted

/-- One of the two parts of `cache_graph_data_in_all_caches` -/
def HashTable.cacheGraphData (table : HashTable Key) (key : Key) (data : GraphCacheData) :
    HashTable Key :=
  if (table.find key).isSome then table else table.put key data

variable (keyOf : GraphCacheData → Key) (otherKeyOf : GraphCacheData → Other)

/-- `search_graph_name_cache_miss` and `search_graph_namespace_cache_miss`: the entry is filled,
then both tables are given the data. -/
def Caches.searchMiss (caches : Caches Key Other) (agGraph : AgGraph) (key : Key)
    (accepted : Nat) : Option (Pointer Key) × Caches Key Other :=
  let caches := caches.acceptInvalidations accepted
  match agGraph.rows.find? (keyOf · = key) with
  | none => (none, caches)
  | some data =>
      let hash := (caches.hash.put key data).cacheGraphData (keyOf data) data
      (some ⟨hash.created, key⟩, { caches with
        hash := hash
        otherHash := caches.otherHash.cacheGraphData (otherKeyOf data) data })

/-- `search_graph_name_cache` and `search_graph_namespace_cache` -/
def Caches.search (caches : Caches Key Other) (agGraph : AgGraph) (key : Key) (accepted : Nat) :
    Option (Pointer Key) × Caches Key Other :=
  if (caches.hash.find key).isSome then (some ⟨caches.hash.created, key⟩, caches)
  else caches.searchMiss keyOf otherKeyOf agGraph key accepted

/-- The slot for a new lookup, and `next_slot` after it -/
def LastLookups.place (lookups : LastLookups Key) (generation : Nat) : Nat × Nat :=
  match lookups.slots.findIdx? fun slot => !slot.valid || slot.generation ≠ generation with
  | some slot => (slot, lookups.nextSlot)
  | none => (lookups.nextSlot, (lookups.nextSlot + 1) % lastGraphCacheSize)

/-- `search_graph_name_cache_cached` and `search_graph_namespace_cache_cached`: the generation of a
slot is the one before the search. -/
def Caches.searchCached (caches : Caches Key Other) (agGraph : AgGraph) (isCached : Key → Bool)
    (key : Key) (accepted : Nat) : Option (Pointer Key) × Caches Key Other :=
  let generation := caches.generation
  match caches.lookups.slots.find? fun slot =>
      slot.valid && slot.generation = generation && isCached slot.key with
  | some slot => (slot.graph, caches)
  | none =>
      let (place, nextSlot) := caches.lookups.place generation
      let (graph, caches) := caches.search keyOf otherKeyOf agGraph key accepted
      (graph, { caches with
        lookups :=
          { slots := caches.lookups.slots.set place
              { key := key, generation := generation, graph := graph, valid := true }
            nextSlot := nextSlot } })

/-- `search_graph_name_cache_cached`: `namestrcmp` meets no name that is too long. -/
def searchGraphNameCacheCached (caches : Caches Name Oid) (agGraph : AgGraph) (name : List UInt8)
    (accepted : Nat) : Option (Pointer Name) × Caches Name Oid :=
  caches.searchCached GraphCacheData.name GraphCacheData.graphNamespace agGraph
    (·.val = name) (namestrcpy name) accepted

/-- `search_graph_name_cache` -/
def searchGraphNameCache (caches : Caches Name Oid) (agGraph : AgGraph) (name : List UInt8)
    (accepted : Nat) : Option (Pointer Name) × Caches Name Oid :=
  caches.search GraphCacheData.name GraphCacheData.graphNamespace agGraph (namestrcpy name) accepted

/-- `search_graph_namespace_cache_cached` -/
def searchGraphNamespaceCacheCached (caches : Caches Oid Name) (agGraph : AgGraph)
    (graphNamespace : Oid) (accepted : Nat) : Option (Pointer Oid) × Caches Oid Name :=
  caches.searchCached GraphCacheData.graphNamespace GraphCacheData.name agGraph
    (· = graphNamespace) graphNamespace accepted

/-- `search_graph_namespace_cache` -/
def searchGraphNamespaceCache (caches : Caches Oid Name) (agGraph : AgGraph)
    (graphNamespace : Oid) (accepted : Nat) : Option (Pointer Oid) × Caches Oid Name :=
  caches.search GraphCacheData.graphNamespace GraphCacheData.name agGraph graphNamespace accepted

def LastLookups.start (key : Key) : LastLookups Key where
  slots := List.replicate lastGraphCacheSize ⟨key, 0, none, false⟩
  nextSlot := 0

/-- `initialize_graph_caches` -/
def initializeGraphCaches : Caches Name Oid where
  hash := ⟨0, []⟩
  lookups := .start (namestrcpy [])
  otherHash := ⟨0, []⟩
  otherLookups := .start 0
  generation := 1

end Code

section Catalogs

variable {Key Other : Type} [DecidableEq Key] [DecidableEq Other]

/-- The catalogs that have been there since the tables were flushed, and since the generation was
counted up -/
structure Times where
  sinceFlush : List AgGraph
  sinceGeneration : List AgGraph

def Times.only (agGraph : AgGraph) : Times := ⟨[agGraph], [agGraph]⟩

/-- A table and its slots hold nothing older than the times, and no slot of the current generation
points into a table that is gone. -/
structure ViewOk (keyOf : GraphCacheData → Key) (hash : HashTable Key)
    (lookups : LastLookups Key) (generation : Nat) (times : Times) : Prop where
  table : ∀ key data, hash.find key = some data →
    keyOf data = key ∧ ∃ agGraph ∈ times.sinceFlush, data ∈ agGraph.rows
  older : ∀ slot ∈ lookups.slots, slot.generation ≤ generation
  points : ∀ slot ∈ lookups.slots, slot.valid = true → slot.generation = generation →
    ∀ pointer, slot.graph = some pointer →
      pointer.created = hash.created ∧ pointer.key = slot.key ∧ (hash.find slot.key).isSome = true
  absent : ∀ slot ∈ lookups.slots, slot.valid = true → slot.generation = generation →
    slot.graph = none →
      ∃ agGraph ∈ times.sinceGeneration, agGraph.rows.find? (keyOf · = slot.key) = none

variable {keyOf : GraphCacheData → Key} {otherKeyOf : GraphCacheData → Other}
  {hash next : HashTable Key} {lookups : LastLookups Key} {generation : Nat} {times : Times}

theorem find_put_self {key : Key} {data : GraphCacheData} :
    (hash.put key data).find key = some data := by
  simp [HashTable.put, HashTable.find]

theorem find_put_ne {key other : Key} {data : GraphCacheData} (differs : key ≠ other) :
    (hash.put key data).find other = hash.find other := by
  rw [HashTable.put, HashTable.find, HashTable.find]
  simp only
  rw [List.find?_cons_of_neg (by simpa using differs), List.find?_filter]
  apply congrArg (Option.map Prod.snd)
  apply congrArg (List.find? · hash.entries)
  funext entry
  by_cases same : entry.1 = other
  · simp [same, differs.symm]
  · simp [same]

/-- A table that has been filled with rows of the current catalog -/
structure Filled (keyOf : GraphCacheData → Key) (agGraph : AgGraph) (hash next : HashTable Key) :
    Prop where
  created : next.created = hash.created
  holds : ∀ key, (hash.find key).isSome = true → (next.find key).isSome = true
  rows : ∀ key data, next.find key = some data →
    hash.find key = some data ∨ keyOf data = key ∧ data ∈ agGraph.rows

theorem Filled.refl (agGraph : AgGraph) (hash : HashTable Key) : Filled keyOf agGraph hash hash :=
  ⟨rfl, fun _ held => held, fun _ _ found => .inl found⟩

theorem Filled.put {agGraph : AgGraph} {data : GraphCacheData} (inside : data ∈ agGraph.rows) :
    Filled keyOf agGraph hash (hash.put (keyOf data) data) := by
  refine ⟨rfl, ?_, ?_⟩
  · intro key held
    by_cases same : keyOf data = key
    · rw [← same, find_put_self]
      rfl
    · rw [find_put_ne same]
      exact held
  · intro key found isFound
    by_cases same : keyOf data = key
    · rw [← same, find_put_self] at isFound
      obtain rfl := Option.some.inj isFound
      exact .inr ⟨same, inside⟩
    · rw [find_put_ne same] at isFound
      exact .inl isFound

theorem Filled.cacheGraphData {agGraph : AgGraph} {data : GraphCacheData}
    (inside : data ∈ agGraph.rows) :
    Filled keyOf agGraph hash (hash.cacheGraphData (keyOf data) data) := by
  rw [HashTable.cacheGraphData]
  split_ifs
  · exact Filled.refl agGraph hash
  · exact Filled.put inside

theorem ViewOk.filled (ok : ViewOk keyOf hash lookups generation times) {agGraph : AgGraph}
    (now : agGraph ∈ times.sinceFlush) (filled : Filled keyOf agGraph hash next) :
    ViewOk keyOf next lookups generation times := by
  refine ⟨?_, ok.older, ?_, ok.absent⟩
  · intro key data found
    rcases filled.rows key data found with before | ⟨isKey, inside⟩
    · exact ok.table key data before
    · exact ⟨isKey, agGraph, now, inside⟩
  · intro slot inside valid current pointer isPointer
    obtain ⟨created, isKey, held⟩ := ok.points slot inside valid current pointer isPointer
    exact ⟨created.trans filled.created.symm, isKey, filled.holds slot.key held⟩

/-- Slots of older generations are not read any more. -/
theorem ViewOk.invalidateGraphCache (ok : ViewOk keyOf hash lookups generation times)
    (agGraph : AgGraph) :
    ViewOk keyOf hash lookups (generation + 1) { times with sinceGeneration := [agGraph] } := by
  have older (slot : Slot Key) (inside : slot ∈ lookups.slots) :
      slot.generation ≠ generation + 1 :=
    Nat.ne_of_lt (Nat.lt_succ_of_le (ok.older slot inside))
  refine ⟨ok.table, ?_, ?_, ?_⟩
  · intro slot inside
    exact Nat.le_succ_of_le (ok.older slot inside)
  · intro slot inside _ current
    exact absurd current (older slot inside)
  · intro slot inside _ current
    exact absurd current (older slot inside)

theorem ViewOk.flush (ok : ViewOk keyOf hash lookups generation times) (agGraph : AgGraph) :
    ViewOk keyOf hash.flush lookups (generation + 1) (.only agGraph) := by
  have counted := ok.invalidateGraphCache agGraph
  refine ⟨?_, counted.older, ?_, counted.absent⟩
  · intro key data impossible
    cases impossible
  · intro slot inside _ current
    exact absurd current (Nat.ne_of_lt (Nat.lt_succ_of_le (ok.older slot inside)))

theorem ViewOk.later (ok : ViewOk keyOf hash lookups generation times) (agGraph : AgGraph) :
    ViewOk keyOf hash lookups generation
      ⟨agGraph :: times.sinceFlush, agGraph :: times.sinceGeneration⟩ := by
  refine ⟨?_, ok.older, ok.points, ?_⟩
  · intro key data found
    obtain ⟨isKey, past, inside, isRow⟩ := ok.table key data found
    exact ⟨isKey, past, List.mem_cons_of_mem _ inside, isRow⟩
  · intro slot inside valid current none
    obtain ⟨past, isThen, absent⟩ := ok.absent slot inside valid current none
    exact ⟨past, List.mem_cons_of_mem _ isThen, absent⟩

theorem ViewOk.record (ok : ViewOk keyOf hash lookups generation times) {slot : Slot Key}
    (place nextSlot : Nat) (older : slot.generation ≤ generation)
    (points : slot.generation = generation → ∀ pointer, slot.graph = some pointer →
      pointer.created = hash.created ∧ pointer.key = slot.key ∧ (hash.find slot.key).isSome = true)
    (absent : slot.generation = generation → slot.graph = none →
      ∃ agGraph ∈ times.sinceGeneration, agGraph.rows.find? (keyOf · = slot.key) = none) :
    ViewOk keyOf hash ⟨lookups.slots.set place slot, nextSlot⟩ generation times := by
  refine ⟨ok.table, ?_, ?_, ?_⟩
  · intro other inside
    rcases List.mem_or_eq_of_mem_set inside with before | rfl
    · exact ok.older other before
    · exact older
  · intro other inside valid current
    rcases List.mem_or_eq_of_mem_set inside with before | rfl
    · exact ok.points other before valid current
    · exact points current
  · intro other inside valid current
    rcases List.mem_or_eq_of_mem_set inside with before | rfl
    · exact ok.absent other before valid current
    · exact absent current

/-- Both tables with their slots -/
structure CachesOk (keyOf : GraphCacheData → Key) (otherKeyOf : GraphCacheData → Other)
    (caches : Caches Key Other) (times : Times) : Prop where
  own : ViewOk keyOf caches.hash caches.lookups caches.generation times
  other : ViewOk otherKeyOf caches.otherHash caches.otherLookups caches.generation times

variable {caches : Caches Key Other}

theorem CachesOk.swap (ok : CachesOk keyOf otherKeyOf caches times) :
    CachesOk otherKeyOf keyOf caches.swap times :=
  ⟨ok.other, ok.own⟩

theorem CachesOk.invalidateGraphCaches (ok : CachesOk keyOf otherKeyOf caches times)
    (agGraph : AgGraph) :
    CachesOk keyOf otherKeyOf caches.invalidateGraphCaches (.only agGraph) :=
  ⟨ok.own.flush agGraph, ok.other.flush agGraph⟩

theorem CachesOk.invalidateGraphCache (ok : CachesOk keyOf otherKeyOf caches times)
    (agGraph : AgGraph) :
    CachesOk keyOf otherKeyOf caches.invalidateGraphCache
      { times with sinceGeneration := [agGraph] } :=
  ⟨ok.own.invalidateGraphCache agGraph, ok.other.invalidateGraphCache agGraph⟩

/-- The times after a lookup, in which a new generation comes of a flush only -/
def Times.after (times : Times) (agGraph : AgGraph) (before after : Nat) : Times :=
  if after = before then times else .only agGraph

/-- The current catalog is among those of the times. -/
structure Times.Now (times : Times) (agGraph : AgGraph) : Prop where
  sinceFlush : agGraph ∈ times.sinceFlush
  sinceGeneration : agGraph ∈ times.sinceGeneration

theorem Times.now_only (agGraph : AgGraph) : (Times.only agGraph).Now agGraph :=
  ⟨List.mem_cons_self, List.mem_cons_self⟩

theorem Times.Now.after {agGraph : AgGraph} (now : times.Now agGraph) (before after : Nat) :
    (times.after agGraph before after).Now agGraph := by
  rw [Times.after]
  split_ifs
  · exact now
  · exact now_only agGraph

theorem CachesOk.acceptInvalidations (ok : CachesOk keyOf otherKeyOf caches times)
    (agGraph : AgGraph) (accepted : Nat) :
    CachesOk keyOf otherKeyOf (caches.acceptInvalidations accepted)
        (times.after agGraph caches.generation (caches.acceptInvalidations accepted).generation) ∧
      caches.generation ≤ (caches.acceptInvalidations accepted).generation := by
  induction accepted generalizing caches times with
  | zero =>
      rw [Caches.acceptInvalidations, Times.after, if_pos rfl]
      exact ⟨ok, Nat.le_refl _⟩
  | succ accepted inductionHypothesis =>
      obtain ⟨later, grows⟩ := inductionHypothesis (ok.invalidateGraphCaches agGraph)
      rw [Caches.acceptInvalidations]
      have less : caches.generation <
          (caches.invalidateGraphCaches.acceptInvalidations accepted).generation := grows
      refine ⟨?_, Nat.le_of_lt less⟩
      rw [Times.after, if_neg (Nat.ne_of_gt less)]
      rw [Times.after, Times.only] at later
      split_ifs at later
      · exact later
      · exact later

/-- What a search returns: a pointer to a row with the key, or nothing where the catalog has no
such row -/
structure Searched (keyOf : GraphCacheData → Key) (agGraph : AgGraph) (key : Key)
    (hash : HashTable Key) (graph : Option (Pointer Key)) : Prop where
  points : ∀ pointer, graph = some pointer →
    pointer.created = hash.created ∧ pointer.key = key ∧ (hash.find key).isSome = true
  absent : graph = none → agGraph.rows.find? (keyOf · = key) = none

theorem search_spec (ok : CachesOk keyOf otherKeyOf caches times) {agGraph : AgGraph}
    (now : times.Now agGraph) (key : Key) (accepted : Nat) :
    ∃ graph after, caches.search keyOf otherKeyOf agGraph key accepted = (graph, after) ∧
      CachesOk keyOf otherKeyOf after
        (times.after agGraph caches.generation after.generation) ∧
      Searched keyOf agGraph key after.hash graph ∧ caches.generation ≤ after.generation := by
  rw [Caches.search]
  by_cases held : (caches.hash.find key).isSome = true
  · rw [if_pos held]
    refine ⟨_, caches, rfl, ?_, ⟨?_, ?_⟩, Nat.le_refl _⟩
    · rw [Times.after, if_pos rfl]
      exact ok
    · intro pointer isPointer
      obtain rfl := Option.some.inj isPointer
      exact ⟨rfl, rfl, held⟩
    · intro impossible
      cases impossible
  · rw [if_neg held, Caches.searchMiss]
    obtain ⟨okNext, grows⟩ := ok.acceptInvalidations agGraph accepted
    have nowNext := now.after caches.generation (caches.acceptInvalidations accepted).generation
    generalize caches.acceptInvalidations accepted = next at okNext grows nowNext
    dsimp only
    cases found : agGraph.rows.find? (keyOf · = key) with
    | none =>
        refine ⟨none, next, rfl, okNext, ⟨?_, fun _ => found⟩, grows⟩
        intro pointer impossible
        cases impossible
    | some data =>
        have inside := List.mem_of_find?_eq_some found
        have isKey : keyOf data = key := by simpa using List.find?_some found
        subst isKey
        have filled : Filled keyOf agGraph (next.hash.put (keyOf data) data)
            ((next.hash.put (keyOf data) data).cacheGraphData (keyOf data) data) :=
          Filled.cacheGraphData inside
        have okPut := okNext.own.filled nowNext.sinceFlush (Filled.put inside)
        refine ⟨_, _, rfl, ⟨okPut.filled nowNext.sinceFlush filled,
          okNext.other.filled nowNext.sinceFlush (Filled.cacheGraphData inside)⟩, ⟨?_, ?_⟩, grows⟩
        · intro pointer isPointer
          obtain rfl := Option.some.inj isPointer
          refine ⟨rfl, rfl, filled.holds _ ?_⟩
          rw [find_put_self]
          rfl
        · intro impossible
          cases impossible

/-- What a lookup may return: a row with the key that the catalog had since the tables were
flushed, or nothing where it had no such row at a time since the generation was counted up -/
def Times.MayReturn (keyOf : GraphCacheData → Key) (times : Times) (key : Key) :
    Option GraphCacheData → Prop
  | some data => keyOf data = key ∧ ∃ agGraph ∈ times.sinceFlush, data ∈ agGraph.rows
  | none => ∃ agGraph ∈ times.sinceGeneration, agGraph.rows.find? (keyOf · = key) = none

/-- The row behind what a lookup returns; a pointer into a table that is gone has none. -/
def Caches.graphAt (caches : Caches Key Other) :
    Option (Pointer Key) → Option (Option GraphCacheData)
  | none => some none
  | some pointer => (caches.hash.deref pointer).map some

theorem deref_of_points (ok : ViewOk keyOf hash lookups generation times) {key : Key}
    {pointer : Pointer Key} (created : pointer.created = hash.created) (isKey : pointer.key = key)
    (held : (hash.find key).isSome = true) :
    ∃ data, hash.deref pointer = some data ∧ Times.MayReturn keyOf times key (some data) := by
  obtain ⟨data, found⟩ := Option.isSome_iff_exists.1 held
  refine ⟨data, ?_, ok.table key data found⟩
  rw [HashTable.deref, if_pos created, isKey, found]

theorem Searched.answer (ok : CachesOk keyOf otherKeyOf caches times) {agGraph : AgGraph}
    {key : Key} {graph : Option (Pointer Key)} (now : times.Now agGraph)
    (searched : Searched keyOf agGraph key caches.hash graph) :
    ∃ answer, caches.graphAt graph = some answer ∧ times.MayReturn keyOf key answer := by
  cases graph with
  | none => exact ⟨none, rfl, agGraph, now.sinceGeneration, searched.absent rfl⟩
  | some pointer =>
      obtain ⟨created, isKey, held⟩ := searched.points pointer rfl
      obtain ⟨data, derefs, may⟩ := deref_of_points ok.own created isKey held
      exact ⟨some data, congrArg (Option.map some) derefs, may⟩

/-- A slot is hit in its own generation only, so what it points to is still there. -/
theorem searchCached_spec (ok : CachesOk keyOf otherKeyOf caches times) {agGraph : AgGraph}
    (now : times.Now agGraph) {isCached : Key → Bool} {key : Key}
    (meets : ∀ other, isCached other = true → other = key) (accepted : Nat) :
    ∃ graph after,
      caches.searchCached keyOf otherKeyOf agGraph isCached key accepted = (graph, after) ∧
      CachesOk keyOf otherKeyOf after
        (times.after agGraph caches.generation after.generation) ∧
      ∃ answer, after.graphAt graph = some answer ∧
        (times.after agGraph caches.generation after.generation).MayReturn keyOf key answer := by
  rw [Caches.searchCached]
  dsimp only
  cases hit : caches.lookups.slots.find? fun slot =>
      slot.valid && slot.generation = caches.generation && isCached slot.key with
  | some slot =>
      have inside := List.mem_of_find?_eq_some hit
      have isHit := List.find?_some hit
      simp only [Bool.and_eq_true, decide_eq_true_eq] at isHit
      obtain ⟨⟨valid, current⟩, cached⟩ := isHit
      have isKey := meets slot.key cached
      refine ⟨slot.graph, caches, rfl, ?_⟩
      rw [Times.after, if_pos rfl]
      refine ⟨ok, ?_⟩
      cases isGraph : slot.graph with
      | none =>
          obtain ⟨past, isThen, absent⟩ := ok.own.absent slot inside valid current isGraph
          rw [isKey] at absent
          exact ⟨none, rfl, past, isThen, absent⟩
      | some pointer =>
          obtain ⟨created, pointerKey, held⟩ :=
            ok.own.points slot inside valid current pointer isGraph
          rw [isKey] at pointerKey held
          obtain ⟨data, derefs, may⟩ := deref_of_points ok.own created pointerKey held
          exact ⟨some data, congrArg (Option.map some) derefs, may⟩
  | none =>
      obtain ⟨graph, after, ran, okAfter, searched, grows⟩ :=
        search_spec ok now key accepted
      have nowAfter := now.after caches.generation after.generation
      rw [ran]
      refine ⟨graph, _, rfl, ⟨?_, okAfter.other⟩, searched.answer okAfter nowAfter⟩
      exact okAfter.own.record _ _ grows (fun _ => searched.points) fun _ none =>
        ⟨agGraph, nowAfter.sinceGeneration, searched.absent none⟩

end Catalogs

section Backends

/-- A backend with the catalog that its scans see -/
structure Backend where
  agGraph : AgGraph
  caches : Caches Name Oid

/-- What happens to a backend: other catalogs become visible, messages are accepted, its own
commands count the generation up, and graphs are looked up, through the slots or without them. -/
inductive CacheEvent where
  | catalog (agGraph : AgGraph)
  | invalidateGraphCaches
  | invalidateGraphCache
  | searchName (cached : Bool) (name : List UInt8) (accepted : Nat)
  | searchNamespace (cached : Bool) (graphNamespace : Oid) (accepted : Nat)

def Backend.start (agGraph : AgGraph) : Backend := ⟨agGraph, initializeGraphCaches⟩

/-- A lookup of a name, with the row that its pointer leads to -/
def Backend.lookupName (backend : Backend) (cached : Bool) (name : List UInt8) (accepted : Nat) :
    Option (Option GraphCacheData) × Backend :=
  let (graph, caches) :=
    if cached then searchGraphNameCacheCached backend.caches backend.agGraph name accepted
    else searchGraphNameCache backend.caches backend.agGraph name accepted
  (caches.graphAt graph, { backend with caches := caches })

/-- A lookup of a namespace, with the row that its pointer leads to -/
def Backend.lookupNamespace (backend : Backend) (cached : Bool) (graphNamespace : Oid)
    (accepted : Nat) : Option (Option GraphCacheData) × Backend :=
  let (graph, caches) :=
    if cached then
      searchGraphNamespaceCacheCached backend.caches.swap backend.agGraph graphNamespace accepted
    else searchGraphNamespaceCache backend.caches.swap backend.agGraph graphNamespace accepted
  (caches.graphAt graph, { backend with caches := caches.swap })

def Backend.step (backend : Backend) : CacheEvent → Backend
  | .catalog agGraph => { backend with agGraph := agGraph }
  | .invalidateGraphCaches =>
      { backend with caches := backend.caches.invalidateGraphCaches }
  | .invalidateGraphCache => { backend with caches := backend.caches.invalidateGraphCache }
  | .searchName cached name accepted => (backend.lookupName cached name accepted).2
  | .searchNamespace cached graphNamespace accepted =>
      (backend.lookupNamespace cached graphNamespace accepted).2

/-- The times after an event -/
def Times.step (times : Times) (backend : Backend) : CacheEvent → Times
  | .catalog agGraph => ⟨agGraph :: times.sinceFlush, agGraph :: times.sinceGeneration⟩
  | .invalidateGraphCaches => .only backend.agGraph
  | .invalidateGraphCache => { times with sinceGeneration := [backend.agGraph] }
  | .searchName cached name accepted =>
      times.after backend.agGraph backend.caches.generation
        (backend.lookupName cached name accepted).2.caches.generation
  | .searchNamespace cached graphNamespace accepted =>
      times.after backend.agGraph backend.caches.generation
        (backend.lookupNamespace cached graphNamespace accepted).2.caches.generation

def runEvents : Backend × Times → List CacheEvent → Backend × Times
  | state, [] => state
  | (backend, times), event :: events =>
      runEvents (backend.step event, times.step backend event) events

/-- What holds of a backend between two events -/
structure BackendOk (backend : Backend) (times : Times) : Prop where
  caches : CachesOk GraphCacheData.name GraphCacheData.graphNamespace backend.caches times
  now : times.Now backend.agGraph
  later : ∀ agGraph ∈ times.sinceGeneration, agGraph ∈ times.sinceFlush

variable {backend : Backend} {times : Times}

theorem later_after (later : ∀ agGraph ∈ times.sinceGeneration, agGraph ∈ times.sinceFlush)
    (agGraph : AgGraph) (before after : Nat) :
    ∀ past ∈ (times.after agGraph before after).sinceGeneration,
      past ∈ (times.after agGraph before after).sinceFlush := by
  rw [Times.after]
  split_ifs
  · exact later
  · exact fun _ inside => inside

theorem lookupName_spec (ok : BackendOk backend times) (cached : Bool) (name : List UInt8)
    (accepted : Nat) :
    ∃ answer, (backend.lookupName cached name accepted).1 = some answer ∧
      (times.step backend (.searchName cached name accepted)).MayReturn GraphCacheData.name
        (namestrcpy name) answer ∧
      BackendOk (backend.step (.searchName cached name accepted))
        (times.step backend (.searchName cached name accepted)) := by
  have searches : ∃ graph after, (if cached then
        searchGraphNameCacheCached backend.caches backend.agGraph name accepted
      else searchGraphNameCache backend.caches backend.agGraph name accepted) = (graph, after) ∧
      CachesOk GraphCacheData.name GraphCacheData.graphNamespace after
        (times.after backend.agGraph backend.caches.generation after.generation) ∧
      ∃ answer, after.graphAt graph = some answer ∧
        (times.after backend.agGraph backend.caches.generation after.generation).MayReturn
          GraphCacheData.name (namestrcpy name) answer := by
    split_ifs
    · apply searchCached_spec ok.caches ok.now
      intro other same
      have same : other.val = name := of_decide_eq_true same
      -- A name that is cut off is longer than any that a slot holds.
      have short : name.length ≤ nameDataLen - 1 := same ▸ Nat.le_pred_of_lt other.property
      apply Subtype.ext
      rw [same]
      exact (List.take_of_length_le short).symm
    · obtain ⟨graph, after, ran, okAfter, searched, -⟩ :=
        search_spec ok.caches ok.now (namestrcpy name) accepted
      exact ⟨graph, after, ran, okAfter, searched.answer okAfter (ok.now.after _ _)⟩
  obtain ⟨graph, after, ran, okAfter, answer, derefs, may⟩ := searches
  have lookup : backend.lookupName cached name accepted =
      (after.graphAt graph, { backend with caches := after }) := by
    rw [Backend.lookupName, ran]
  rw [Backend.step, Times.step, lookup]
  exact ⟨answer, derefs, may, okAfter, ok.now.after _ _, later_after ok.later _ _ _⟩

theorem lookupNamespace_spec (ok : BackendOk backend times) (cached : Bool)
    (graphNamespace : Oid) (accepted : Nat) :
    ∃ answer, (backend.lookupNamespace cached graphNamespace accepted).1 = some answer ∧
      (times.step backend (.searchNamespace cached graphNamespace accepted)).MayReturn
        GraphCacheData.graphNamespace graphNamespace answer ∧
      BackendOk (backend.step (.searchNamespace cached graphNamespace accepted))
        (times.step backend (.searchNamespace cached graphNamespace accepted)) := by
  have searches : ∃ graph after, (if cached then
        searchGraphNamespaceCacheCached backend.caches.swap backend.agGraph graphNamespace accepted
      else searchGraphNamespaceCache backend.caches.swap backend.agGraph graphNamespace accepted) =
        (graph, after) ∧
      CachesOk GraphCacheData.graphNamespace GraphCacheData.name after
        (times.after backend.agGraph backend.caches.generation after.generation) ∧
      ∃ answer, after.graphAt graph = some answer ∧
        (times.after backend.agGraph backend.caches.generation after.generation).MayReturn
          GraphCacheData.graphNamespace graphNamespace answer := by
    split_ifs
    · apply searchCached_spec ok.caches.swap ok.now
      intro other same
      exact of_decide_eq_true same
    · obtain ⟨graph, after, ran, okAfter, searched, -⟩ :=
        search_spec ok.caches.swap ok.now graphNamespace accepted
      exact ⟨graph, after, ran, okAfter, searched.answer okAfter (ok.now.after _ _)⟩
  obtain ⟨graph, after, ran, okAfter, answer, derefs, may⟩ := searches
  have lookup : backend.lookupNamespace cached graphNamespace accepted =
      (after.graphAt graph, { backend with caches := after.swap }) := by
    rw [Backend.lookupNamespace, ran]
  rw [Backend.step, Times.step, lookup]
  exact ⟨answer, derefs, may, okAfter.swap, ok.now.after _ _, later_after ok.later _ _ _⟩

theorem BackendOk.step (ok : BackendOk backend times) (event : CacheEvent) :
    BackendOk (backend.step event) (times.step backend event) := by
  cases event with
  | catalog agGraph =>
      refine ⟨⟨ok.caches.own.later agGraph, ok.caches.other.later agGraph⟩,
        ⟨List.mem_cons_self, List.mem_cons_self⟩, ?_⟩
      intro past inside
      rcases List.mem_cons.1 inside with rfl | before
      · exact List.mem_cons_self
      · exact List.mem_cons_of_mem _ (ok.later past before)
  | invalidateGraphCaches =>
      exact ⟨ok.caches.invalidateGraphCaches backend.agGraph, Times.now_only backend.agGraph,
        fun _ inside => inside⟩
  | invalidateGraphCache =>
      refine ⟨ok.caches.invalidateGraphCache backend.agGraph,
        ⟨ok.now.sinceFlush, List.mem_cons_self⟩, ?_⟩
      intro past inside
      rw [List.mem_singleton.1 inside]
      exact ok.now.sinceFlush
  | searchName cached name accepted =>
      obtain ⟨-, -, -, okNext⟩ := lookupName_spec ok cached name accepted
      exact okNext
  | searchNamespace cached graphNamespace accepted =>
      obtain ⟨-, -, -, okNext⟩ := lookupNamespace_spec ok cached graphNamespace accepted
      exact okNext

theorem start_ok (agGraph : AgGraph) : BackendOk (.start agGraph) (.only agGraph) := by
  have empty {Key : Type} [DecidableEq Key] (keyOf : GraphCacheData → Key) (key : Key) :
      ViewOk keyOf ⟨0, []⟩ (.start key) 1 (.only agGraph) := by
    have invalid (slot : Slot Key) (inside : slot ∈ (LastLookups.start key).slots) :
        slot.generation ≤ 1 ∧ slot.valid = false := by
      rw [List.eq_of_mem_replicate inside]
      exact ⟨Nat.zero_le 1, rfl⟩
    refine ⟨?_, fun slot inside => (invalid slot inside).1, ?_, ?_⟩
    · intro key data impossible
      cases impossible
    · intro slot inside valid
      rw [(invalid slot inside).2] at valid
      cases valid
    · intro slot inside valid
      rw [(invalid slot inside).2] at valid
      cases valid
  exact ⟨⟨empty _ _, empty _ _⟩, Times.now_only agGraph, fun _ inside => inside⟩

theorem BackendOk.run (ok : BackendOk backend times) (events : List CacheEvent) :
    BackendOk (runEvents (backend, times) events).1 (runEvents (backend, times) events).2 := by
  induction events generalizing backend times with
  | nil => exact ok
  | cons event events inductionHypothesis => exact inductionHypothesis (ok.step event)

/-- A catalog that has stayed the same since the flush is answered for exactly. -/
theorem Times.MayReturn.exact {Key : Type} [DecidableEq Key] {keyOf : GraphCacheData → Key} {key : Key}
    {answer : Option GraphCacheData} {agGraph : AgGraph}
    (may : times.MayReturn keyOf key answer) (unique : (agGraph.rows.map keyOf).Nodup)
    (later : ∀ past ∈ times.sinceGeneration, past ∈ times.sinceFlush)
    (same : ∀ past ∈ times.sinceFlush, past = agGraph) :
    answer = agGraph.rows.find? (keyOf · = key) := by
  cases answer with
  | none =>
      obtain ⟨past, isPast, absent⟩ := may
      rw [← same past (later past isPast), absent]
  | some data =>
      obtain ⟨isKey, past, isPast, inside⟩ := may
      rw [same past isPast] at inside
      symm
      rw [List.find?_eq_some_iff_append]
      obtain ⟨before, after, rows⟩ := List.append_of_mem inside
      refine ⟨decide_eq_true isKey, before, after, rows, ?_⟩
      intro other isBefore
      rw [rows, List.map_append, List.nodup_append] at unique
      have differs := unique.2.2 (keyOf other) (List.mem_map_of_mem isBefore) (keyOf data)
        (List.mem_map_of_mem List.mem_cons_self)
      simpa [isKey] using differs

/-- What a lookup returns leads to an entry that is there, and to what the times allow; it is what
the catalog holds where that has not changed since the flush. -/
def Answered {Key : Type} [DecidableEq Key] (keyOf : GraphCacheData → Key) (times : Times)
    (key : Key) (graph : Option (Option GraphCacheData)) : Prop :=
  ∃ answer, graph = some answer ∧ times.MayReturn keyOf key answer ∧
    ∀ current : AgGraph, (∀ past ∈ times.sinceFlush, past = current) →
      answer = current.rows.find? (keyOf · = key)

/-- A backend that begins with the catalog -/
def runFrom (agGraph : AgGraph) (events : List CacheEvent) : Backend × Times :=
  runEvents (.start agGraph, .only agGraph) events

theorem runEvents_concat (state : Backend × Times) (events : List CacheEvent)
    (event : CacheEvent) :
    runEvents state (events ++ [event]) =
      ((runEvents state events).1.step event,
        (runEvents state events).2.step (runEvents state events).1 event) := by
  induction events generalizing state with
  | nil => rfl
  | cons first events inductionHypothesis =>
      exact inductionHypothesis (state.1.step first, state.2.step state.1 first)

/-- In every run, whatever is invalidated in the middle of a lookup, no lookup follows a pointer
into a table that is gone; a row that it returns has been in the catalog since the last flush, and
it returns none only where the catalog had none since the generation was counted up. -/
theorem lookups_run (agGraph : AgGraph) (events : List CacheEvent) (cached : Bool)
    (accepted : Nat) :
    (∀ name, Answered GraphCacheData.name
      (runFrom agGraph (events ++ [.searchName cached name accepted])).2 (namestrcpy name)
      ((runFrom agGraph events).1.lookupName cached name accepted).1) ∧
    ∀ graphNamespace, Answered GraphCacheData.graphNamespace
      (runFrom agGraph (events ++ [.searchNamespace cached graphNamespace accepted])).2
      graphNamespace
      ((runFrom agGraph events).1.lookupNamespace cached graphNamespace accepted).1 := by
  have ok := (start_ok agGraph).run events
  constructor
  · intro name
    obtain ⟨answer, derefs, may, okNext⟩ := lookupName_spec ok cached name accepted
    rw [runFrom, runEvents_concat]
    exact ⟨answer, derefs, may, fun current same =>
      may.exact current.nameUnique okNext.later same⟩
  · intro graphNamespace
    obtain ⟨answer, derefs, may, okNext⟩ := lookupNamespace_spec ok cached graphNamespace accepted
    rw [runFrom, runEvents_concat]
    exact ⟨answer, derefs, may, fun current same =>
      may.exact current.namespaceUnique okNext.later same⟩

end Backends

end Age.Graph.GraphCaches
