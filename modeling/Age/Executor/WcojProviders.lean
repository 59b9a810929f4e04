import Age.Executor.WcojIntersection
import Age.Lib.CommonKeys

/-!
# Posting providers of the WCOJ join

A provider stands before the distinct keys of its rows.  The rows of a sorted plan are read one by
one and a group of equal keys at a time; an adjacency provider collects its terminals, sorts them
and searches them.  Through `first_distinct`, `next_distinct`, `seek_ge` and `materialize_group`
both are the same cursor in a strictly increasing list of keys.
-/

namespace Age.Executor.WcojJoin

open SortedKeys CommonKeys
open scoped GenericJoin
open GenericJoin (sortedDistinct mem_sortedDistinct sortedDistinct_sorted)

section Code

inductive WcojError where
  /-- `AGE WCOJ plan-stream provider received unsorted graphids` -/
  | unsortedGraphids
  /-- `invalid AGE WCOJ execution engine` -/
  | invalidEngine
  /-- `AGE WCOJ provider lost an aligned survivor` -/
  | lostSurvivor
  /-- `AGE WCOJ could not buffer a plan-stream group` -/
  | noGroup
  /-- There is no provider at a place. -/
  | noProvider
  /-- A loop has not ended within its fuel. -/
  | outOfFuel
  deriving DecidableEq, Repr

/-- `AgeWCOJProviderKind` -/
inductive ProviderKind where
  | planStream
  | adjacency
  deriving DecidableEq, Repr

/-- `AgeWCOJAdjacencyBuildResult` -/
inductive AdjacencyBuildResult where
  | empty
  | ready
  | oversize
  deriving DecidableEq, Repr

/-- `AgeWCOJPostingProvider`: `rows` is what the plan returns, or the payloads of the source bags
in their order; `lastKey` is there when `has_last_key`. -/
structure Provider (Row : Type) where
  kind : ProviderKind
  rows : List Row
  localQual : Row → Bool
  pending : List Row
  currentSlot : Option Row
  currentKey : GraphId
  lastKey : Option GraphId
  hasCurrent : Bool
  exhausted : Bool
  terminals : List GraphId
  terminalIndex : Nat
  built : Bool
  rowsScanned : Nat

variable {Row : Type} (keyOf : Row → Option GraphId)

/-- `plan_stream_rescan` and `adjacency_rescan` -/
def Provider.rescan (provider : Provider Row) : Provider Row :=
  match provider.kind with
  | .planStream =>
      { provider with
        pending := provider.rows, currentSlot := none, hasCurrent := false, lastKey := none
        exhausted := false }
  | .adjacency =>
      { provider with
        terminals := [], terminalIndex := 0, hasCurrent := false, exhausted := false
        built := false }

/-- The loop of `plan_stream_fetch_row` over the rows that are to come -/
def fetchFrom (provider : Provider Row) : List Row → Except WcojError (Bool × Provider Row)
  | [] =>
      .ok (false, { provider with
        pending := [], currentSlot := none, hasCurrent := false, exhausted := true })
  | row :: rest =>
      match keyOf row with
      | none => fetchFrom provider rest
      | some key =>
          if provider.lastKey.any (key < ·) then .error .unsortedGraphids
          else
            .ok (true, { provider with
              pending := rest, currentSlot := some row, currentKey := key, lastKey := some key
              hasCurrent := true })

/-- `plan_stream_fetch_row` -/
def planStreamFetchRow (provider : Provider Row) : Except WcojError (Bool × Provider Row) :=
  fetchFrom keyOf provider provider.pending

/-- `plan_stream_first_distinct` -/
def planStreamFirstDistinct (provider : Provider Row) : Except WcojError (Bool × Provider Row) :=
  if provider.hasCurrent then .ok (true, provider)
  else if provider.exhausted then .ok (false, provider)
  else planStreamFetchRow keyOf provider

/-- The loop of `plan_stream_next_distinct` -/
def fetchOtherKey (previousKey : GraphId) :
    (fuel : Nat) → Provider Row → Except WcojError (Bool × Provider Row)
  | 0, _ => .error .outOfFuel
  | fuel + 1, provider => do
      let (more, provider) ← planStreamFetchRow keyOf provider
      if !more then return (false, provider)
      else if provider.currentKey ≠ previousKey then return (true, provider)
      else fetchOtherKey previousKey fuel provider

/-- `plan_stream_next_distinct` -/
def planStreamNextDistinct (provider : Provider Row) : Except WcojError (Bool × Provider Row) := do
  let (more, provider) ← planStreamFirstDistinct keyOf provider
  if !more then return (false, provider)
  else fetchOtherKey keyOf provider.currentKey (provider.pending.length + 1) provider

/-- The loop of `plan_stream_seek_ge` -/
def planStreamSeekLoop (target : GraphId) :
    (fuel : Nat) → Provider Row → Except WcojError (Bool × Provider Row)
  | 0, _ => .error .outOfFuel
  | fuel + 1, provider =>
      if provider.currentKey < target then do
        let (more, provider) ← planStreamNextDistinct keyOf provider
        if !more then return (false, provider)
        else planStreamSeekLoop target fuel provider
      else .ok (true, provider)

/-- `plan_stream_seek_ge` -/
def planStreamSeekGe (provider : Provider Row) (target : GraphId) :
    Except WcojError (Bool × Provider Row) := do
  let (more, provider) ← planStreamFirstDistinct keyOf provider
  if !more then return (false, provider)
  else planStreamSeekLoop keyOf target (provider.pending.length + 1) provider

/-- The loop of `plan_stream_materialize_group` -/
def planStreamGroupLoop (terminal : GraphId) :
    (fuel : Nat) → List Row → Provider Row → Except WcojError (List Row × Provider Row)
  | 0, _, _ => .error .outOfFuel
  | fuel + 1, group, provider => do
      let group := group ++ provider.currentSlot.toList
      let (more, provider) ← planStreamFetchRow keyOf provider
      if !more then return (group, provider)
      else if provider.currentKey ≠ terminal then return (group, provider)
      else planStreamGroupLoop terminal fuel group provider

/-- `plan_stream_materialize_group` without a survivor block; the group is empty where it returns
`false`. -/
def planStreamMaterializeGroup (provider : Provider Row) (terminal : GraphId) :
    Except WcojError (List Row × Provider Row) := do
  let (more, provider) ← planStreamFirstDistinct keyOf provider
  if !more || provider.currentKey ≠ terminal then return ([], provider)
  else planStreamGroupLoop keyOf terminal (provider.pending.length + 1) [] provider

/-- `build_adjacency_provider_filtered`: the scan of terminals returns those among the
candidates. -/
def buildAdjacencyProviderFiltered (provider : Provider Row) (candidates : Option (List GraphId))
    (postingLimit : Nat) : AdjacencyBuildResult × Provider Row :=
  if provider.built then (if provider.terminals = [] then .empty else .ready, provider)
  else if candidates = some [] then (.empty, provider)
  else
    let collected := (provider.rows.filterMap keyOf).filter fun terminal =>
      candidates.all (terminal ∈ ·)
    if 0 < postingLimit ∧ postingLimit < provider.rowsScanned + collected.length then
      (.oversize, { provider with
        terminals := provider.terminals ++ collected.take (postingLimit - provider.rowsScanned)
        rowsScanned := max provider.rowsScanned postingLimit + 1
        hasCurrent := false, exhausted := false, built := false })
    else
      let terminals := counted (deduplicateAdjacencyTerminals (provider.terminals ++ collected))
      let provider := { provider with
        terminals := terminals, terminalIndex := 0, built := true
        rowsScanned := provider.rowsScanned + collected.length }
      match terminals with
      | [] => (.empty, { provider with exhausted := true })
      | first :: _ =>
          (.ready, { provider with exhausted := false, currentKey := first, hasCurrent := true })

/-- `adjacency_first_distinct`, once the provider is built -/
def adjacencyCurrent (provider : Provider Row) : Bool × Provider Row :=
  if provider.exhausted then (false, { provider with hasCurrent := false })
  else
    match provider.terminals[provider.terminalIndex]? with
    | none => (false, { provider with hasCurrent := false })
    | some terminal => (true, { provider with currentKey := terminal, hasCurrent := true })

/-- `adjacency_first_distinct` -/
def adjacencyFirstDistinct (provider : Provider Row) : Bool × Provider Row :=
  if provider.built then adjacencyCurrent provider
  else
    match buildAdjacencyProviderFiltered keyOf provider none 0 with
    | (.ready, provider) => adjacencyCurrent provider
    | (_, provider) => (false, provider)

/-- The end of `adjacency_next_distinct` and of `adjacency_seek_ge` -/
def adjacencyMoveTo (provider : Provider Row) (terminalIndex : Nat) : Bool × Provider Row :=
  match provider.terminals[terminalIndex]? with
  | none =>
      (false, { provider with
        terminalIndex := terminalIndex, hasCurrent := false, exhausted := true })
  | some terminal => (true, { provider with terminalIndex := terminalIndex, currentKey := terminal })

/-- `adjacency_next_distinct` -/
def adjacencyNextDistinct (provider : Provider Row) : Bool × Provider Row :=
  match adjacencyFirstDistinct keyOf provider with
  | (false, provider) => (false, provider)
  | (true, provider) => adjacencyMoveTo provider (provider.terminalIndex + 1)

/-- `adjacency_seek_ge` -/
def adjacencySeekGe (provider : Provider Row) (target : GraphId) : Bool × Provider Row :=
  match adjacencyFirstDistinct keyOf provider with
  | (false, provider) => (false, provider)
  | (true, provider) =>
      if target ≤ provider.currentKey then (true, provider)
      else
        adjacencyMoveTo provider (bisect (before provider.terminals target)
          provider.terminals.length (provider.terminalIndex + 1) provider.terminals.length)

/-- `adjacency_materialize_group` without a survivor block -/
def adjacencyMaterializeGroup (provider : Provider Row) (terminal : GraphId) :
    List Row × Provider Row :=
  match adjacencyFirstDistinct keyOf provider with
  | (false, provider) => ([], provider)
  | (true, provider) =>
      if provider.currentKey ≠ terminal then ([], provider)
      else
        (provider.rows.filter fun row => keyOf row = some terminal && provider.localQual row,
          (adjacencyNextDistinct keyOf provider).2)

/-- `provider->ops->first_distinct` -/
def Provider.firstDistinct (provider : Provider Row) : Except WcojError (Bool × Provider Row) :=
  match provider.kind with
  | .planStream => planStreamFirstDistinct keyOf provider
  | .adjacency => .ok (adjacencyFirstDistinct keyOf provider)

/-- `provider->ops->next_distinct` -/
def Provider.nextDistinct (provider : Provider Row) : Except WcojError (Bool × Provider Row) :=
  match provider.kind with
  | .planStream => planStreamNextDistinct keyOf provider
  | .adjacency => .ok (adjacencyNextDistinct keyOf provider)

/-- `provider->ops->seek_ge` -/
def Provider.seekGe (provider : Provider Row) (target : GraphId) :
    Except WcojError (Bool × Provider Row) :=
  match provider.kind with
  | .planStream => planStreamSeekGe keyOf provider target
  | .adjacency => .ok (adjacencySeekGe keyOf provider target)

/-- `provider->ops->materialize_group` -/
def Provider.materializeGroup (provider : Provider Row) (terminal : GraphId) :
    Except WcojError (List Row × Provider Row) :=
  match provider.kind with
  | .planStream => planStreamMaterializeGroup keyOf provider terminal
  | .adjacency => .ok (adjacencyMaterializeGroup keyOf provider terminal)

/-- `AgeWCOJPostingProviderOps` without `rescan` -/
inductive ProviderCall where
  | firstDistinct
  | nextDistinct
  | seekGe (target : GraphId)
  | materializeGroup (terminal : GraphId)
  deriving DecidableEq, Repr

/-- One call: the current key where the operation returns `true`, and the rows of a group -/
def Provider.call (provider : Provider Row) :
    ProviderCall → Except WcojError ((Option GraphId × List Row) × Provider Row)
  | .firstDistinct => do
      let (more, provider) ← provider.firstDistinct keyOf
      return ((if more then some provider.currentKey else none, []), provider)
  | .nextDistinct => do
      let (more, provider) ← provider.nextDistinct keyOf
      return ((if more then some provider.currentKey else none, []), provider)
  | .seekGe target => do
      let (more, provider) ← provider.seekGe keyOf target
      return ((if more then some provider.currentKey else none, []), provider)
  | .materializeGroup terminal => do
      let (group, provider) ← provider.materializeGroup keyOf terminal
      return ((none, group), provider)

/-- Calls in their order, and what they return -/
def Provider.calls (provider : Provider Row) :
    List ProviderCall → Except WcojError (List (Option GraphId × List Row))
  | [] => .ok []
  | call :: calls => do
      let (answer, provider) ← provider.call keyOf call
      let answers ← provider.calls calls
      return answer :: answers

end Code

section Contract

variable {Row : Type} (keyOf : Row → Option GraphId)

/-- The rows of a plan stream from the current one on -/
def Provider.ahead (provider : Provider Row) : List Row :=
  provider.currentSlot.toList ++ provider.pending

/-- What `materialize_group` is to return for a key -/
def Provider.group (provider : Provider Row) (key : GraphId) : List Row :=
  provider.rows.filter fun row => keyOf row = some key &&
    (provider.kind = .planStream || provider.localQual row)

/-- A plan stream stands before the keys, with all rows of the `grouped` ones ahead. -/
structure StreamAt (provider : Provider Row) (keys grouped : List GraphId) : Prop where
  kind : provider.kind = .planStream
  keys : keys = distinct (provider.ahead.filterMap keyOf)
  sorted : (provider.ahead.filterMap keyOf).Pairwise (· ≤ ·)
  last : ∀ last ∈ provider.lastKey, ∀ key ∈ provider.pending.filterMap keyOf, last ≤ key
  current : provider.hasCurrent = true →
    ∃ row, provider.currentSlot = some row ∧ keyOf row = some provider.currentKey
  noCurrent : provider.hasCurrent = false → provider.currentSlot = none
  exhausted : provider.exhausted = true → provider.hasCurrent = false ∧ provider.pending = []
  groups : ∀ key ∈ grouped, (provider.ahead.filter fun row => keyOf row = some key) =
    provider.rows.filter fun row => keyOf row = some key

/-- An adjacency provider stands before the keys. -/
structure AdjacencyAt (provider : Provider Row) (keys : List GraphId) : Prop where
  kind : provider.kind = .adjacency
  sorted : keys.Pairwise (· < ·)
  toBuild : provider.built = false →
    provider.terminals = [] ∧ keys = sortedDistinct (provider.rows.filterMap keyOf)
  built : provider.built = true → keys = provider.terminals.drop provider.terminalIndex ∧
    provider.terminals.Pairwise (· < ·) ∧ (provider.exhausted = true → keys = [])

/-- A provider stands before the keys. -/
inductive Stands (provider : Provider Row) (keys : List GraphId) : Prop where
  | planStream : StreamAt keyOf provider keys keys → Stands provider keys
  | adjacency : AdjacencyAt keyOf provider keys → Stands provider keys

/-- What no operation on a provider changes -/
structure SameSource (provider next : Provider Row) : Prop where
  kind : next.kind = provider.kind
  rows : next.rows = provider.rows
  localQual : next.localQual = provider.localQual

/-- An operation has moved a provider to the keys, and to the first of them if there is one. -/
structure Reached (provider next : Provider Row) (keys : List GraphId) : Prop where
  stands : Stands keyOf next keys
  source : SameSource provider next
  atKey : ∀ key ∈ keys.head?, next.currentKey = key
  current : keys ≠ [] → next.hasCurrent = true

end Contract

section Streams

variable {Row : Type} {keyOf : Row → Option GraphId} {provider : Provider Row}

theorem ahead_of_current {row : Row} {key : GraphId} (slot : provider.currentSlot = some row)
    (isKey : keyOf row = some key) :
    provider.ahead.filterMap keyOf = key :: provider.pending.filterMap keyOf := by
  rw [Provider.ahead, slot, Option.toList_some, List.singleton_append, List.filterMap_cons, isKey]

theorem ahead_of_noCurrent (slot : provider.currentSlot = none) :
    provider.ahead = provider.pending := by
  rw [Provider.ahead, slot, Option.toList_none, List.nil_append]

/-- What a fetch of a row comes to -/
inductive Fetched (keyOf : Row → Option GraphId) (provider : Provider Row) : Bool → Provider Row →
    Prop where
  | ended : provider.pending.filterMap keyOf = [] → Fetched keyOf provider false
      { provider with pending := [], currentSlot := none, hasCurrent := false, exhausted := true }
  | row {row : Row} {key : GraphId} {rest : List Row} : keyOf row = some key →
      provider.pending.filterMap keyOf = key :: rest.filterMap keyOf →
      (∀ other, (provider.pending.filter fun row => keyOf row = some other) =
        (row :: rest).filter fun row => keyOf row = some other) →
      rest.length < provider.pending.length →
      Fetched keyOf provider true { provider with
        pending := rest, currentSlot := some row, currentKey := key, lastKey := some key
        hasCurrent := true }

theorem planStreamFetchRow_spec
    (last : ∀ last ∈ provider.lastKey, ∀ key ∈ provider.pending.filterMap keyOf, last ≤ key) :
    ∃ more next, planStreamFetchRow keyOf provider = .ok (more, next) ∧
      Fetched keyOf provider more next := by
  have fetches (pending : List Row)
      (last : ∀ last ∈ provider.lastKey, ∀ key ∈ pending.filterMap keyOf, last ≤ key) :
      (pending.filterMap keyOf = [] ∧ fetchFrom keyOf provider pending = .ok (false, { provider with
        pending := [], currentSlot := none, hasCurrent := false, exhausted := true })) ∨
      ∃ row key rest, keyOf row = some key ∧
        pending.filterMap keyOf = key :: rest.filterMap keyOf ∧
        (∀ other, (pending.filter fun row => keyOf row = some other) =
          (row :: rest).filter fun row => keyOf row = some other) ∧
        rest.length < pending.length ∧
        fetchFrom keyOf provider pending = .ok (true, { provider with
          pending := rest, currentSlot := some row, currentKey := key, lastKey := some key
          hasCurrent := true }) := by
    induction pending with
    | nil => exact .inl ⟨rfl, rfl⟩
    | cons row rest inductionHypothesis =>
        rw [fetchFrom]
        cases isKey : keyOf row with
        | none =>
            have skips : (row :: rest).filterMap keyOf = rest.filterMap keyOf := by
              rw [List.filterMap_cons, isKey]
            rw [skips] at last ⊢
            rcases inductionHypothesis last with ended | ⟨found, key, later, isFound, keys, groups,
              shorter, fetched⟩
            · exact .inl ended
            · refine .inr ⟨found, key, later, isFound, keys, ?_, Nat.lt_succ_of_lt shorter, fetched⟩
              intro other
              rw [← groups other, List.filter_cons_of_neg]
              simp [isKey]
        | some key =>
            have keys : (row :: rest).filterMap keyOf = key :: rest.filterMap keyOf := by
              rw [List.filterMap_cons, isKey]
            have inOrder : provider.lastKey.any (key < ·) = false := by
              cases lastIs : provider.lastKey with
              | none => rfl
              | some lastKey =>
                  have reached := last lastKey lastIs key (by rw [keys]; exact List.mem_cons_self)
                  simpa using reached
            refine .inr ⟨row, key, rest, isKey, keys, fun _ => rfl, Nat.lt_succ_self _, ?_⟩
            dsimp only
            rw [inOrder]
            rfl
  rcases fetches provider.pending last with ⟨ended, fetched⟩ | ⟨row, key, rest, isKey, keys, groups,
    shorter, fetched⟩
  · exact ⟨false, _, fetched, .ended ended⟩
  · exact ⟨true, _, fetched, .row isKey keys groups shorter⟩

theorem SameSource.trans {middle next : Provider Row} (first : SameSource provider middle)
    (second : SameSource middle next) : SameSource provider next :=
  ⟨second.kind.trans first.kind, second.rows.trans first.rows,
    second.localQual.trans first.localQual⟩

theorem head?_distinct {key : GraphId} {rest : List GraphId} :
    (distinct (key :: rest)).head? = some key := by
  induction rest generalizing key with
  | nil => rfl
  | cons second rest inductionHypothesis =>
      rw [distinct]
      split_ifs with same
      · rw [inductionHypothesis, same]
      · rfl

theorem filter_absent {rows : List Row} {key : GraphId} (absent : key ∉ rows.filterMap keyOf) :
    (rows.filter fun row => keyOf row = some key) = [] := by
  rw [List.filter_eq_nil_iff]
  intro row inside isKey
  apply absent
  exact List.mem_filterMap.2 ⟨row, inside, of_decide_eq_true isKey⟩

theorem StreamAt.increasing {keys grouped : List GraphId}
    (stands : StreamAt keyOf provider keys grouped) : keys.Pairwise (· < ·) := by
  rw [stands.keys]
  exact distinct_sorted stands.sorted

theorem StreamAt.head {keys grouped : List GraphId} (stands : StreamAt keyOf provider keys grouped)
    (current : provider.hasCurrent = true) : keys.head? = some provider.currentKey := by
  obtain ⟨row, slot, isKey⟩ := stands.current current
  rw [stands.keys, ahead_of_current slot isKey]
  exact head?_distinct

/-- A fetched row is the current one. -/
theorem Fetched.streamAt {more : Bool} {next : Provider Row} {grouped : List GraphId}
    (fetched : Fetched keyOf provider more next) (kind : provider.kind = .planStream)
    (sorted : (provider.pending.filterMap keyOf).Pairwise (· ≤ ·))
    (groups : ∀ key ∈ grouped, (provider.pending.filter fun row => keyOf row = some key) =
      provider.rows.filter fun row => keyOf row = some key)
    (going : more = true → provider.exhausted = false) :
    StreamAt keyOf next (distinct (provider.pending.filterMap keyOf)) grouped ∧
      SameSource provider next ∧ next.hasCurrent = more ∧
      (more = false → next.exhausted = true) := by
  cases fetched with
  | ended none =>
      refine ⟨?_, ⟨rfl, rfl, rfl⟩, rfl, fun _ => rfl⟩
      rw [none]
      refine ⟨kind, rfl, .nil, ?_, ?_, fun _ => rfl, fun _ => ⟨rfl, rfl⟩, ?_⟩
      · intro last _ key inside
        cases inside
      · intro impossible
        cases impossible
      · intro key inside
        have absent : key ∉ provider.pending.filterMap keyOf := by
          rw [none]
          exact List.not_mem_nil
        rw [← groups key inside, filter_absent absent]
        rfl
  | @row row key rest isKey keys sameGroups shorter =>
      refine ⟨?_, ⟨rfl, rfl, rfl⟩, rfl, fun impossible => Bool.noConfusion impossible⟩
      rw [keys] at sorted ⊢
      have ahead : ∀ next : Provider Row, next.currentSlot = some row → next.pending = rest →
          next.ahead = row :: rest := by
        intro next slot pending
        rw [Provider.ahead, slot, pending]
        rfl
      have aheadKeys : (row :: rest).filterMap keyOf = key :: rest.filterMap keyOf := by
        rw [List.filterMap_cons, isKey]
      refine ⟨kind, ?_, ?_, ?_, fun _ => ⟨row, rfl, isKey⟩, ?_, ?_, ?_⟩
      · rw [ahead _ rfl rfl, aheadKeys]
      · rw [ahead _ rfl rfl, aheadKeys]
        exact sorted
      · intro last isLast other inside
        obtain rfl := Option.some.inj isLast
        exact (List.pairwise_cons.1 sorted).1 other inside
      · intro impossible
        cases impossible
      · intro exhausted
        exact absurd exhausted (by rw [going rfl]; exact Bool.false_ne_true)
      · intro other inside
        rw [ahead _ rfl rfl, ← sameGroups other]
        exact groups other inside

/-- One fetch with a current row: the keys end, the next key is met, or the key again. -/
inductive Step (keyOf : Row → Option GraphId) (provider : Provider Row) (keys : List GraphId) :
    Bool → Provider Row → Prop where
  | passed {more : Bool} {next : Provider Row} : StreamAt keyOf next keys.tail keys.tail →
      next.hasCurrent = more → more = !keys.tail.isEmpty →
      (more = false → next.exhausted = true) →
      (more = true → next.currentKey ≠ provider.currentKey) →
      provider.currentKey ∉ provider.pending.filterMap keyOf → Step keyOf provider keys more next
  | again {next : Provider Row} : StreamAt keyOf next keys keys.tail → next.hasCurrent = true →
      next.currentKey = provider.currentKey → next.pending.length < provider.pending.length →
      (next.ahead.filter fun row => keyOf row = some provider.currentKey) =
        (provider.pending.filter fun row => keyOf row = some provider.currentKey) →
      Step keyOf provider keys true next

theorem StreamAt.fetch {keys : List GraphId} (stands : StreamAt keyOf provider keys keys.tail)
    (current : provider.hasCurrent = true) :
    ∃ more next, planStreamFetchRow keyOf provider = .ok (more, next) ∧
      Step keyOf provider keys more next ∧ SameSource provider next := by
  obtain ⟨more, next, ran, fetched⟩ := planStreamFetchRow_spec stands.last
  obtain ⟨row, slot, isKey⟩ := stands.current current
  have aheadKeys := ahead_of_current slot isKey
  have sorted := stands.sorted
  rw [aheadKeys] at sorted
  obtain ⟨least, sortedPending⟩ := List.pairwise_cons.1 sorted
  have increasing := stands.increasing
  have head := stands.head current
  obtain ⟨later, keysAre⟩ := List.head?_eq_some_iff.1 head
  have groups : ∀ key ∈ keys.tail, (provider.pending.filter fun row => keyOf row = some key) =
      provider.rows.filter fun row => keyOf row = some key := by
    intro key inside
    rw [← stands.groups key inside, Provider.ahead, slot, Option.toList_some,
      List.singleton_append, List.filter_cons_of_neg]
    rw [keysAre] at increasing inside
    have differs := ((List.pairwise_cons.1 increasing).1 key inside).ne
    simpa [isKey] using differs
  have going : more = true → provider.exhausted = false := by
    intro _
    cases exhausted : provider.exhausted with
    | false => rfl
    | true =>
        have none := (stands.exhausted exhausted).1
        rw [current] at none
        cases none
  obtain ⟨standsNext, source, hasCurrent, ended⟩ :=
    fetched.streamAt stands.kind sortedPending groups going
  refine ⟨more, next, ran, ?_, source⟩
  have keysOf := stands.keys
  rw [aheadKeys] at keysOf
  cases fetched with
  | ended none =>
      rw [none] at keysOf standsNext
      rw [keysOf] at standsNext ⊢
      refine .passed standsNext hasCurrent rfl ended ?_ (none ▸ List.not_mem_nil)
      intro impossible
      cases impossible
  | @row nextRow key rest isNextKey keys' sameGroups shorter =>
      rw [keys', distinct] at keysOf
      rw [keys'] at standsNext least
      by_cases same : provider.currentKey = key
      · rw [if_pos same] at keysOf
        rw [← keysOf] at standsNext
        refine .again standsNext rfl same.symm shorter ?_
        exact (sameGroups provider.currentKey).symm
      · rw [if_neg same] at keysOf
        have tail : keys.tail = distinct (key :: rest.filterMap keyOf) := by
          rw [keysOf]
          rfl
        rw [← tail] at standsNext
        refine .passed standsNext rfl ?_ ended (fun _ => Ne.symm same) ?_
        · rw [tail]
          have nonempty := @head?_distinct key (rest.filterMap keyOf)
          obtain ⟨others, isHead⟩ := List.head?_eq_some_iff.1 nonempty
          rw [isHead]
          rfl
        · rw [keys']
          intro inside
          have below := lt_of_le_of_ne (least key List.mem_cons_self) same
          rw [keys'] at sortedPending
          rcases List.mem_cons.1 inside with equal | inside
          · exact same equal
          · exact absurd ((List.pairwise_cons.1 sortedPending).1 _ inside) (not_le.2 below)

/-- A plan stream has been moved to the keys. -/
structure StreamReached (keyOf : Row → Option GraphId) (provider next : Provider Row)
    (keys : List GraphId) : Prop where
  stands : StreamAt keyOf next keys keys
  source : SameSource provider next
  hasCurrent : next.hasCurrent = !keys.isEmpty
  ended : keys = [] → next.exhausted = true

theorem isEmpty_tail_of_ended {keys : List GraphId} {more : Bool}
    (isMore : more = !keys.tail.isEmpty) (none : keys.tail = []) : more = false := by
  rw [isMore, none]
  rfl

theorem planStreamFirstDistinct_spec {keys : List GraphId}
    (stands : StreamAt keyOf provider keys keys) :
    ∃ next, planStreamFirstDistinct keyOf provider = .ok (!keys.isEmpty, next) ∧
      StreamReached keyOf provider next keys := by
  rw [planStreamFirstDistinct]
  cases current : provider.hasCurrent with
  | true =>
      obtain ⟨rest, keysAre⟩ := List.head?_eq_some_iff.1 (stands.head current)
      have nonempty : (!keys.isEmpty) = true := by
        rw [keysAre]
        rfl
      refine ⟨provider, by rw [nonempty]; rfl, stands, ⟨rfl, rfl, rfl⟩, ?_, ?_⟩
      · rw [current, nonempty]
      · intro none
        rw [none] at keysAre
        cases keysAre
  | false =>
      have ahead := ahead_of_noCurrent (stands.noCurrent current)
      have keysAre := stands.keys
      rw [ahead] at keysAre
      cases exhausted : provider.exhausted with
      | true =>
          have none : keys = [] := by
            rw [keysAre, (stands.exhausted exhausted).2]
            rfl
          refine ⟨provider, by rw [none]; rfl, stands, ⟨rfl, rfl, rfl⟩, ?_, fun _ => exhausted⟩
          rw [current, none]
          rfl
      | false =>
          have sorted := stands.sorted
          have groups := stands.groups
          rw [ahead] at sorted groups
          obtain ⟨more, next, ran, fetched⟩ := planStreamFetchRow_spec stands.last
          obtain ⟨standsNext, source, hasCurrent, ended⟩ :=
            fetched.streamAt stands.kind sorted groups fun _ => exhausted
          have isMore : more = !keys.isEmpty := by
            rw [keysAre]
            cases fetched with
            | ended none =>
                rw [none]
                rfl
            | @row _ key rest _ keys' _ _ =>
                obtain ⟨others, isHead⟩ :=
                  List.head?_eq_some_iff.1 (@head?_distinct key (rest.filterMap keyOf))
                rw [keys', isHead]
                rfl
          rw [← keysAre] at standsNext
          refine ⟨next, ?_, standsNext, source, ?_, ?_⟩
          · rw [← isMore]
            exact ran
          · rw [hasCurrent, isMore]
          · intro none
            apply ended
            rw [isMore, none]
            rfl

theorem fetchOtherKey_spec {keys : List GraphId} {fuel : Nat}
    (stands : StreamAt keyOf provider keys keys.tail) (current : provider.hasCurrent = true)
    (enough : provider.pending.length < fuel) :
    ∃ next, fetchOtherKey keyOf provider.currentKey fuel provider = .ok (!keys.tail.isEmpty, next) ∧
      StreamReached keyOf provider next keys.tail := by
  induction fuel generalizing provider with
  | zero => exact absurd enough (Nat.not_lt_zero _)
  | succ fuel inductionHypothesis =>
      obtain ⟨more, next, ran, step, source⟩ := stands.fetch current
      rw [fetchOtherKey, ran]
      cases step with
      | passed standsNext hasCurrent isMore ended differs _ =>
          refine ⟨next, ?_, standsNext, source, hasCurrent.trans isMore,
            fun none => ended (isEmpty_tail_of_ended isMore none)⟩
          rw [← isMore]
          cases more with
          | false => rfl
          | true => exact if_pos (differs rfl)
      | again standsNext hasCurrent same shorter _ =>
          obtain ⟨after, ranOn, reached⟩ :=
            inductionHypothesis standsNext hasCurrent (by omega)
          refine ⟨after, ?_, reached.stands, source.trans reached.source, reached.hasCurrent,
            reached.ended⟩
          rw [← ranOn, same]
          exact if_neg (not_not.2 same)

theorem planStreamNextDistinct_spec {keys : List GraphId}
    (stands : StreamAt keyOf provider keys keys) :
    ∃ next, planStreamNextDistinct keyOf provider = .ok (!keys.tail.isEmpty, next) ∧
      StreamReached keyOf provider next keys.tail := by
  obtain ⟨first, ran, reached⟩ := planStreamFirstDistinct_spec stands
  rw [planStreamNextDistinct, ran]
  have standsFirst := reached.stands
  cases keys with
  | nil => exact ⟨first, rfl, standsFirst, reached.source, reached.hasCurrent, reached.ended⟩
  | cons key rest =>
      have grouped : StreamAt keyOf first (key :: rest) (key :: rest).tail :=
        { standsFirst with
          groups := fun other inside => standsFirst.groups other (List.mem_of_mem_tail inside) }
      obtain ⟨next, ranOn, after⟩ :=
        fetchOtherKey_spec grouped reached.hasCurrent (Nat.lt_succ_self _)
      exact ⟨next, ranOn, after.stands, reached.source.trans after.source, after.hasCurrent,
        after.ended⟩

theorem seek_of_reached {keys : List GraphId} {key target : GraphId}
    (head : keys.head? = some key) (reached : ¬key < target) : seek keys target = keys := by
  obtain ⟨rest, rfl⟩ := List.head?_eq_some_iff.1 head
  simp [seek, reached]

theorem seek_of_below {keys : List GraphId} {key target : GraphId}
    (head : keys.head? = some key) (below : key < target) :
    seek keys target = seek keys.tail target := by
  obtain ⟨rest, rfl⟩ := List.head?_eq_some_iff.1 head
  simp [seek, below]

theorem planStreamSeekLoop_spec {keys : List GraphId} {target : GraphId} {fuel : Nat}
    (stands : StreamAt keyOf provider keys keys) (current : provider.hasCurrent = true)
    (enough : keys.length ≤ fuel) :
    ∃ next, planStreamSeekLoop keyOf target fuel provider =
        .ok (!(seek keys target).isEmpty, next) ∧
      StreamReached keyOf provider next (seek keys target) := by
  induction fuel generalizing provider keys with
  | zero =>
      have head := stands.head current
      rw [List.length_eq_zero_iff.1 (Nat.le_zero.1 enough)] at head
      cases head
  | succ fuel inductionHypothesis =>
      have head := stands.head current
      have nonempty : (!keys.isEmpty) = true := by
        obtain ⟨rest, rfl⟩ := List.head?_eq_some_iff.1 head
        rfl
      rw [planStreamSeekLoop]
      by_cases below : provider.currentKey < target
      · obtain ⟨next, ran, reached⟩ := planStreamNextDistinct_spec stands
        rw [if_pos below, ran, seek_of_below head below]
        cases more : keys.tail with
        | nil =>
            rw [more] at reached
            exact ⟨next, rfl, reached⟩
        | cons key rest =>
            rw [more] at reached
            obtain ⟨after, ranOn, seeks⟩ := inductionHypothesis reached.stands reached.hasCurrent (by
              rw [← more, List.length_tail]
              omega)
            exact ⟨after, ranOn, seeks.stands, reached.source.trans seeks.source, seeks.hasCurrent,
              seeks.ended⟩
      · rw [if_neg below, seek_of_reached head below, nonempty]
        refine ⟨provider, rfl, stands, ⟨rfl, rfl, rfl⟩, ?_, ?_⟩
        · rw [current, nonempty]
        · intro none
          rw [none] at nonempty
          cases nonempty

theorem planStreamSeekGe_spec {keys : List GraphId} (stands : StreamAt keyOf provider keys keys)
    (target : GraphId) :
    ∃ next, planStreamSeekGe keyOf provider target = .ok (!(seek keys target).isEmpty, next) ∧
      StreamReached keyOf provider next (seek keys target) := by
  obtain ⟨first, ran, reached⟩ := planStreamFirstDistinct_spec stands
  rw [planStreamSeekGe, ran]
  cases keys with
  | nil => exact ⟨first, rfl, reached⟩
  | cons key rest =>
      have short : (key :: rest).length ≤ first.pending.length + 1 := by
        obtain ⟨row, slot, isKey⟩ := reached.stands.current reached.hasCurrent
        rw [reached.stands.keys, ahead_of_current slot isKey]
        have fewer := (distinct_sublist (first.currentKey :: first.pending.filterMap keyOf)).length_le
        rw [List.length_cons] at fewer
        have pending := List.length_filterMap_le keyOf first.pending
        omega
      obtain ⟨next, ranOn, seeks⟩ :=
        @planStreamSeekLoop_spec _ _ _ _ target _ reached.stands reached.hasCurrent short
      exact ⟨next, ranOn, seeks.stands, reached.source.trans seeks.source, seeks.hasCurrent,
        seeks.ended⟩

/-- The loop appends the rows of the key and ends at the next key. -/
theorem planStreamGroupLoop_spec {keys : List GraphId} {rows : List Row} {fuel : Nat}
    (stands : StreamAt keyOf provider keys keys.tail) (current : provider.hasCurrent = true)
    (enough : provider.pending.length < fuel) :
    ∃ next, planStreamGroupLoop keyOf provider.currentKey fuel rows provider =
        .ok (rows ++ provider.ahead.filter fun row => keyOf row = some provider.currentKey, next) ∧
      StreamReached keyOf provider next keys.tail := by
  induction fuel generalizing provider rows with
  | zero => exact absurd enough (Nat.not_lt_zero _)
  | succ fuel inductionHypothesis =>
      obtain ⟨more, next, ran, step, source⟩ := stands.fetch current
      obtain ⟨row, slot, isKey⟩ := stands.current current
      have ahead : (provider.ahead.filter fun row => keyOf row = some provider.currentKey) =
          provider.currentSlot.toList ++
            provider.pending.filter fun row => keyOf row = some provider.currentKey := by
        rw [Provider.ahead, List.filter_append, slot, Option.toList_some, List.filter_cons_of_pos,
          List.filter_nil]
        exact decide_eq_true isKey
      rw [planStreamGroupLoop, ran, ahead, ← List.append_assoc]
      cases step with
      | passed standsNext hasCurrent isMore ended differs absent =>
          refine ⟨next, ?_, standsNext, source, hasCurrent.trans isMore,
            fun none => ended (isEmpty_tail_of_ended isMore none)⟩
          rw [filter_absent absent, List.append_nil]
          cases more with
          | false => rfl
          | true => exact if_pos (differs rfl)
      | again standsNext hasCurrent same shorter groups =>
          obtain ⟨after, ranOn, reached⟩ := @inductionHypothesis next
            (rows ++ provider.currentSlot.toList) standsNext hasCurrent (by omega)
          refine ⟨after, ?_, reached.stands, source.trans reached.source, reached.hasCurrent,
            reached.ended⟩
          rw [← groups, ← same, ← ranOn]
          exact if_neg (not_not.2 rfl)

theorem planStreamMaterializeGroup_spec {keys : List GraphId} {key : GraphId}
    (stands : StreamAt keyOf provider keys keys) (head : keys.head? = some key) :
    ∃ next, planStreamMaterializeGroup keyOf provider key =
        .ok (provider.rows.filter fun row => keyOf row = some key, next) ∧
      StreamReached keyOf provider next keys.tail := by
  obtain ⟨first, ran, reached⟩ := planStreamFirstDistinct_spec stands
  obtain ⟨rest, rfl⟩ := List.head?_eq_some_iff.1 head
  have standsFirst := reached.stands
  have current := reached.hasCurrent
  have same : first.currentKey = key := by
    have := standsFirst.head current
    exact (Option.some.inj this).symm
  have grouped : StreamAt keyOf first (key :: rest) (key :: rest).tail :=
    { standsFirst with
      groups := fun other inside => standsFirst.groups other (List.mem_of_mem_tail inside) }
  obtain ⟨next, ranOn, after⟩ := @planStreamGroupLoop_spec _ _ _ _ [] _ grouped current
    (Nat.lt_succ_self _)
  refine ⟨next, ?_, after.stands, reached.source.trans after.source, after.hasCurrent, after.ended⟩
  rw [planStreamMaterializeGroup, ran]
  change (if (!true || decide (first.currentKey ≠ key)) = true then _ else _) = _
  rw [if_neg (by simp [same]), ← reached.source.rows,
    ← standsFirst.groups key List.mem_cons_self, ← same]
  exact ranOn

end Streams

section Adjacency

variable {Row : Type} {keyOf : Row → Option GraphId} {provider : Provider Row}

/-- An adjacency provider has been moved to the keys. -/
structure AdjacencyReached (keyOf : Row → Option GraphId) (provider next : Provider Row)
    (keys : List GraphId) : Prop where
  stands : AdjacencyAt keyOf next keys
  source : SameSource provider next
  isBuilt : next.built = true
  atKey : ∀ key ∈ keys.head?, next.currentKey = key
  current : keys ≠ [] → next.hasCurrent = true

theorem counted_deduplicated (terminals : List GraphId) :
    counted (deduplicateAdjacencyTerminals terminals) = sortedDistinct terminals :=
  (deduplicateAdjacencyTerminals_leaves terminals).front

theorem adjacencyCurrent_spec {keys : List GraphId} (stands : AdjacencyAt keyOf provider keys)
    (isBuilt : provider.built = true) :
    ∃ next, adjacencyCurrent provider = (!keys.isEmpty, next) ∧
      AdjacencyReached keyOf provider next keys ∧ next.terminals = provider.terminals ∧
      next.terminalIndex = provider.terminalIndex ∧ next.exhausted = provider.exhausted := by
  obtain ⟨keysAre, sorted, exhausted⟩ := stands.built isBuilt
  rw [adjacencyCurrent]
  by_cases isExhausted : provider.exhausted = true
  · rw [if_pos isExhausted, exhausted isExhausted]
    rw [exhausted isExhausted] at stands
    refine ⟨{ provider with hasCurrent := false }, rfl,
      ⟨⟨stands.kind, stands.sorted, stands.toBuild, stands.built⟩, ⟨rfl, rfl, rfl⟩, isBuilt, ?_,
        fun nonempty => absurd rfl nonempty⟩, rfl,
      rfl, rfl⟩
    intro key impossible
    cases impossible
  · rw [if_neg isExhausted]
    cases found : provider.terminals[provider.terminalIndex]? with
    | none =>
        have none : keys = [] := by
          rw [keysAre]
          exact List.drop_eq_nil_of_le (List.getElem?_eq_none_iff.1 found)
        rw [none] at stands ⊢
        refine ⟨{ provider with hasCurrent := false }, rfl,
          ⟨⟨stands.kind, stands.sorted, stands.toBuild, stands.built⟩, ⟨rfl, rfl, rfl⟩, isBuilt, ?_,
            fun nonempty => absurd rfl nonempty⟩,
          rfl, rfl, rfl⟩
        intro key impossible
        cases impossible
    | some terminal =>
        obtain ⟨inside, isTerminal⟩ := List.getElem?_eq_some_iff.1 found
        have keysCons : keys = terminal :: provider.terminals.drop (provider.terminalIndex + 1) := by
          rw [keysAre, List.drop_eq_getElem_cons inside, isTerminal]
        refine ⟨{ provider with currentKey := terminal, hasCurrent := true }, ?_,
          ⟨⟨stands.kind, stands.sorted, stands.toBuild, stands.built⟩, ⟨rfl, rfl, rfl⟩, isBuilt, ?_, fun _ => rfl⟩,
          rfl, rfl, rfl⟩
        · rw [keysCons]
          rfl
        · rw [keysCons]
          intro key isHead
          exact Option.some.inj isHead

/-- A build keeps the keys that are among the candidates, unless it has to give up. -/
theorem buildAdjacencyProviderFiltered_spec {keys : List GraphId}
    {candidates : Option (List GraphId)} {postingLimit : Nat}
    (stands : AdjacencyAt keyOf provider keys) (notBuilt : provider.built = false)
    (anyCandidate : candidates ≠ some []) :
    (0 < postingLimit ∧ ∃ next,
      buildAdjacencyProviderFiltered keyOf provider candidates postingLimit = (.oversize, next)) ∨
    ∃ next, buildAdjacencyProviderFiltered keyOf provider candidates postingLimit =
        (if keys.filter (fun key => candidates.all (key ∈ ·)) = [] then .empty else .ready, next) ∧
      AdjacencyAt keyOf next (keys.filter fun key => candidates.all (key ∈ ·)) ∧
      SameSource provider next ∧ next.built = true ∧
      next.terminals = keys.filter fun key => candidates.all (key ∈ ·) := by
  obtain ⟨fresh, keysAre⟩ := stands.toBuild notBuilt
  have kept : counted (deduplicateAdjacencyTerminals (provider.terminals ++
      (provider.rows.filterMap keyOf).filter fun key => candidates.all (key ∈ ·))) =
        keys.filter fun key => candidates.all (key ∈ ·) := by
    rw [fresh, List.nil_append, counted_deduplicated, keysAre]
    apply eq_of_sorted (sortedDistinct_sorted _) ((sortedDistinct_sorted _).filter _)
    intro key
    rw [mem_sortedDistinct, List.mem_filter, List.mem_filter, mem_sortedDistinct]
  have sorted : (keys.filter fun key => candidates.all (key ∈ ·)).Pairwise (· < ·) :=
    stands.sorted.filter _
  rw [buildAdjacencyProviderFiltered, notBuilt, if_neg Bool.false_ne_true, if_neg anyCandidate]
  dsimp only
  by_cases oversize : 0 < postingLimit ∧ postingLimit < provider.rowsScanned +
      ((provider.rows.filterMap keyOf).filter fun key => candidates.all (key ∈ ·)).length
  · rw [if_pos oversize]
    exact .inl ⟨oversize.1, _, rfl⟩
  · apply Or.inr
    rw [if_neg oversize, kept]
    cases keptIs : keys.filter fun key => candidates.all (key ∈ ·) with
    | nil =>
        refine ⟨_, rfl, ⟨stands.kind, .nil, ?_, ?_⟩, ⟨rfl, rfl, rfl⟩, rfl, rfl⟩
        · intro impossible
          cases impossible
        · intro _
          exact ⟨rfl, .nil, fun _ => rfl⟩
    | cons first rest =>
        rw [keptIs] at sorted
        refine ⟨_, rfl, ⟨stands.kind, sorted, ?_, ?_⟩, ⟨rfl, rfl, rfl⟩, rfl, rfl⟩
        · intro impossible
          cases impossible
        · intro _
          refine ⟨rfl, sorted, ?_⟩
          intro impossible
          cases impossible

theorem adjacencyFirstDistinct_spec {keys : List GraphId}
    (stands : AdjacencyAt keyOf provider keys) :
    ∃ next, adjacencyFirstDistinct keyOf provider = (!keys.isEmpty, next) ∧
      AdjacencyReached keyOf provider next keys := by
  rw [adjacencyFirstDistinct]
  cases isBuilt : provider.built with
  | true =>
      obtain ⟨next, ran, reached, -⟩ := adjacencyCurrent_spec stands isBuilt
      exact ⟨next, ran, reached⟩
  | false =>
      rw [if_neg Bool.false_ne_true]
      have whole : (keys.filter fun key => (none : Option (List GraphId)).all (key ∈ ·)) = keys := by
        simp
      obtain ⟨impossible, -⟩ | ⟨built, ran, standsBuilt, source, hasBuilt, -⟩ :=
        @buildAdjacencyProviderFiltered_spec _ _ _ _ none 0 stands isBuilt (Option.some_ne_none _).symm
      · exact absurd impossible (Nat.lt_irrefl 0)
      · rw [whole] at ran standsBuilt
        rw [ran]
        cases keys with
        | nil =>
            refine ⟨built, rfl, standsBuilt, source, hasBuilt, ?_, fun nonempty => absurd rfl nonempty⟩
            intro key impossible
            cases impossible
        | cons first rest =>
            obtain ⟨next, moved, reached, -⟩ := adjacencyCurrent_spec standsBuilt hasBuilt
            exact ⟨next, moved, reached.stands, source.trans reached.source, reached.isBuilt,
              reached.atKey, reached.current⟩

/-- Moving on in the terminals -/
theorem adjacencyMoveTo_spec {keys : List GraphId} (stands : AdjacencyAt keyOf provider keys)
    (isBuilt : provider.built = true) (current : provider.hasCurrent = true) (terminalIndex : Nat)
    (notExhausted : provider.exhausted = true → provider.terminals.drop terminalIndex = []) :
    ∃ next, adjacencyMoveTo provider terminalIndex =
        (!(provider.terminals.drop terminalIndex).isEmpty, next) ∧
      AdjacencyReached keyOf provider next (provider.terminals.drop terminalIndex) := by
  obtain ⟨-, sorted, -⟩ := stands.built isBuilt
  rw [adjacencyMoveTo]
  cases found : provider.terminals[terminalIndex]? with
  | none =>
      have none : provider.terminals.drop terminalIndex = [] :=
        List.drop_eq_nil_of_le (List.getElem?_eq_none_iff.1 found)
      refine ⟨{ provider with
          terminalIndex := terminalIndex, hasCurrent := false, exhausted := true }, ?_,
        ⟨stands.kind, sorted.drop, ?_, ?_⟩, ⟨rfl, rfl, rfl⟩, isBuilt, ?_,
        fun nonempty => absurd none nonempty⟩
      · rw [none]
        rfl
      · intro notBuilt
        rw [isBuilt] at notBuilt
        cases notBuilt
      · intro _
        exact ⟨rfl, sorted, fun _ => none⟩
      · rw [none]
        intro key impossible
        cases impossible
  | some terminal =>
      obtain ⟨inside, isTerminal⟩ := List.getElem?_eq_some_iff.1 found
      refine ⟨{ provider with terminalIndex := terminalIndex, currentKey := terminal }, ?_,
        ⟨stands.kind, sorted.drop, ?_, ?_⟩, ⟨rfl, rfl, rfl⟩, isBuilt, ?_, fun _ => current⟩
      · rw [List.drop_eq_getElem_cons inside]
        rfl
      · intro notBuilt
        rw [isBuilt] at notBuilt
        cases notBuilt
      · intro _
        exact ⟨rfl, sorted, notExhausted⟩
      · rw [List.drop_eq_getElem_cons inside, isTerminal]
        intro key isHead
        exact Option.some.inj isHead

theorem AdjacencyReached.after {middle next : Provider Row} {keys later : List GraphId}
    (first : AdjacencyReached keyOf provider middle keys)
    (second : AdjacencyReached keyOf middle next later) :
    AdjacencyReached keyOf provider next later :=
  ⟨second.stands, first.source.trans second.source, second.isBuilt, second.atKey, second.current⟩

theorem adjacencyNextDistinct_spec {keys : List GraphId}
    (stands : AdjacencyAt keyOf provider keys) :
    ∃ next, adjacencyNextDistinct keyOf provider = (!keys.tail.isEmpty, next) ∧
      AdjacencyReached keyOf provider next keys.tail := by
  obtain ⟨first, ran, reached⟩ := adjacencyFirstDistinct_spec stands
  rw [adjacencyNextDistinct, ran]
  cases keys with
  | nil => exact ⟨first, rfl, reached⟩
  | cons key rest =>
      obtain ⟨keysAre, -, exhausted⟩ := reached.stands.built reached.isBuilt
      have restIs : first.terminals.drop (first.terminalIndex + 1) = rest := by
        rw [← List.tail_drop, ← keysAre]
        rfl
      have notExhausted : first.exhausted = true →
          first.terminals.drop (first.terminalIndex + 1) = [] := by
        intro isExhausted
        exact absurd (exhausted isExhausted) (List.cons_ne_nil key rest)
      obtain ⟨next, moved, after⟩ :=
        adjacencyMoveTo_spec reached.stands reached.isBuilt
          (reached.current (List.cons_ne_nil key rest)) _ notExhausted
      rw [restIs] at moved after
      exact ⟨next, moved, reached.after after⟩

theorem drop_lowerBound {keys : List GraphId} (sorted : keys.Pairwise (· < ·)) {place : Nat}
    {target : GraphId} (notPast : place ≤ lowerBound keys target) :
    keys.drop (lowerBound keys target) = seek (keys.drop place) target := by
  have passes : (keys.takeWhile (· < target)).length = lowerBound keys target := rfl
  have whole : keys.drop (lowerBound keys target) = seek keys target := by
    rw [← passes, seek]
    nth_rewrite 2 [← @List.takeWhile_append_dropWhile _ (· < target) keys]
    exact List.drop_left
  have below : ∀ key ∈ keys.take place, decide (key < target) = true := by
    intro key inside
    obtain ⟨index, within, rfl⟩ := List.mem_take_iff_getElem.1 inside
    have found := List.getElem?_eq_getElem (Nat.lt_of_lt_of_le within (Nat.min_le_right _ _))
    apply decide_eq_true
    apply lt_of_lt_lowerBound (le_of_lt_pairwise sorted) found
    exact (Nat.lt_of_lt_of_le within (Nat.min_le_left _ _)).trans_le notPast
  rw [whole, seek, seek]
  nth_rewrite 1 [← List.take_append_drop place keys]
  exact List.dropWhile_append_of_pos below

/-- The halving search from the next terminal on reaches the keys from the target on. -/
theorem adjacencySeekGe_spec {keys : List GraphId} (stands : AdjacencyAt keyOf provider keys)
    (target : GraphId) :
    ∃ next, adjacencySeekGe keyOf provider target = (!(seek keys target).isEmpty, next) ∧
      AdjacencyReached keyOf provider next (seek keys target) := by
  obtain ⟨first, ran, reached⟩ := adjacencyFirstDistinct_spec stands
  cases keys with
  | nil =>
      rw [adjacencySeekGe, ran]
      exact ⟨first, rfl, reached⟩
  | cons key rest =>
      have ran : adjacencyFirstDistinct keyOf provider = (true, first) := ran
      obtain ⟨keysAre, sorted, exhausted⟩ := reached.stands.built reached.isBuilt
      have current : first.currentKey = key := reached.atKey key rfl
      rw [adjacencySeekGe, ran]
      dsimp only
      by_cases below : key < target
      · have found : first.terminals[first.terminalIndex]? = some key := by
          rw [← List.head?_drop, ← keysAre]
          rfl
        have sortedLe := le_of_lt_pairwise sorted
        have less := lowerBound_lt_of_lt sortedLe found below
        have place : bisect (before first.terminals target) first.terminals.length
            (first.terminalIndex + 1) first.terminals.length = lowerBound first.terminals target :=
          bisect_eq (isBound_lowerBound sortedLe) less lowerBound_le_length (Nat.sub_le _ _)
        have ahead : first.terminals.drop (lowerBound first.terminals target) =
            seek (key :: rest) target := by
          rw [drop_lowerBound sorted less.le, ← keysAre]
        have notExhausted : first.exhausted = true →
            first.terminals.drop (lowerBound first.terminals target) = [] := by
          intro isExhausted
          exact absurd (exhausted isExhausted) (List.cons_ne_nil key rest)
        obtain ⟨next, moved, after⟩ :=
          adjacencyMoveTo_spec reached.stands reached.isBuilt
            (reached.current (List.cons_ne_nil key rest)) _ notExhausted
        rw [if_neg (by rw [current]; exact not_le.2 below), place]
        rw [ahead] at moved after
        exact ⟨next, moved, reached.after after⟩
      · rw [if_pos (by rw [current]; exact not_lt.1 below), seek_of_reached rfl below]
        exact ⟨first, rfl, reached⟩

/-- The payloads are read again, whatever the terminals were filtered with. -/
theorem adjacencyMaterializeGroup_spec {keys : List GraphId} {key : GraphId}
    (stands : AdjacencyAt keyOf provider keys) (head : keys.head? = some key) :
    ∃ next, adjacencyMaterializeGroup keyOf provider key = (provider.group keyOf key, next) ∧
      AdjacencyReached keyOf provider next keys.tail := by
  obtain ⟨first, ran, reached⟩ := adjacencyFirstDistinct_spec stands
  obtain ⟨rest, rfl⟩ := List.head?_eq_some_iff.1 head
  have ran : adjacencyFirstDistinct keyOf provider = (true, first) := ran
  obtain ⟨next, moved, after⟩ := adjacencyNextDistinct_spec reached.stands
  have current : first.currentKey = key := reached.atKey key rfl
  have group : provider.group keyOf key =
      first.rows.filter fun row => keyOf row = some key && first.localQual row := by
    rw [Provider.group, reached.source.rows, reached.source.localQual, stands.kind]
    rfl
  rw [adjacencyMaterializeGroup, ran]
  dsimp only
  rw [if_neg (not_not.2 current), moved, group]
  exact ⟨next, rfl, reached.after after⟩

end Adjacency

section Uniform

variable {Row : Type} {keyOf : Row → Option GraphId} {provider : Provider Row}
  {keys : List GraphId}

theorem StreamReached.reached {next : Provider Row} (reached : StreamReached keyOf provider next keys) :
    Reached keyOf provider next keys := by
  refine ⟨.planStream reached.stands, reached.source, ?_, ?_⟩
  · intro key isHead
    have nonempty : (!keys.isEmpty) = true := by
      obtain ⟨rest, rfl⟩ := List.head?_eq_some_iff.1 isHead
      rfl
    have head := reached.stands.head (reached.hasCurrent.trans nonempty)
    rw [isHead] at head
    exact (Option.some.inj head).symm
  · intro nonempty
    obtain ⟨key, rest, rfl⟩ := List.exists_cons_of_ne_nil nonempty
    exact reached.hasCurrent

theorem AdjacencyReached.reached {next : Provider Row}
    (reached : AdjacencyReached keyOf provider next keys) : Reached keyOf provider next keys :=
  ⟨.adjacency reached.stands, reached.source, reached.atKey, reached.current⟩

theorem Stands.sorted (stands : Stands keyOf provider keys) : keys.Pairwise (· < ·) := by
  cases stands with
  | planStream stream => exact stream.increasing
  | adjacency adjacency => exact adjacency.sorted

theorem firstDistinct_spec (stands : Stands keyOf provider keys) :
    ∃ next, provider.firstDistinct keyOf = .ok (!keys.isEmpty, next) ∧
      Reached keyOf provider next keys := by
  rw [Provider.firstDistinct]
  cases stands with
  | planStream stream =>
      obtain ⟨next, ran, reached⟩ := planStreamFirstDistinct_spec stream
      rw [stream.kind]
      exact ⟨next, ran, reached.reached⟩
  | adjacency adjacency =>
      obtain ⟨next, ran, reached⟩ := adjacencyFirstDistinct_spec adjacency
      rw [adjacency.kind]
      exact ⟨next, congrArg Except.ok ran, reached.reached⟩

theorem nextDistinct_spec (stands : Stands keyOf provider keys) :
    ∃ next, provider.nextDistinct keyOf = .ok (!keys.tail.isEmpty, next) ∧
      Reached keyOf provider next keys.tail := by
  rw [Provider.nextDistinct]
  cases stands with
  | planStream stream =>
      obtain ⟨next, ran, reached⟩ := planStreamNextDistinct_spec stream
      rw [stream.kind]
      exact ⟨next, ran, reached.reached⟩
  | adjacency adjacency =>
      obtain ⟨next, ran, reached⟩ := adjacencyNextDistinct_spec adjacency
      rw [adjacency.kind]
      exact ⟨next, congrArg Except.ok ran, reached.reached⟩

theorem seekGe_spec (stands : Stands keyOf provider keys) (target : GraphId) :
    ∃ next, provider.seekGe keyOf target = .ok (!(seek keys target).isEmpty, next) ∧
      Reached keyOf provider next (seek keys target) := by
  rw [Provider.seekGe]
  cases stands with
  | planStream stream =>
      obtain ⟨next, ran, reached⟩ := planStreamSeekGe_spec stream target
      rw [stream.kind]
      exact ⟨next, ran, reached.reached⟩
  | adjacency adjacency =>
      obtain ⟨next, ran, reached⟩ := adjacencySeekGe_spec adjacency target
      rw [adjacency.kind]
      exact ⟨next, congrArg Except.ok ran, reached.reached⟩

theorem materializeGroup_spec {key : GraphId} (stands : Stands keyOf provider keys)
    (head : keys.head? = some key) :
    ∃ next, provider.materializeGroup keyOf key = .ok (provider.group keyOf key, next) ∧
      Reached keyOf provider next keys.tail := by
  rw [Provider.materializeGroup]
  cases stands with
  | planStream stream =>
      obtain ⟨next, ran, reached⟩ := planStreamMaterializeGroup_spec stream head
      have group : provider.group keyOf key =
          provider.rows.filter fun row => keyOf row = some key := by
        simp [Provider.group, stream.kind]
      rw [stream.kind, group]
      exact ⟨next, ran, reached.reached⟩
  | adjacency adjacency =>
      obtain ⟨next, ran, reached⟩ := adjacencyMaterializeGroup_spec adjacency head
      rw [adjacency.kind]
      exact ⟨next, congrArg Except.ok ran, reached.reached⟩

/-- The keys of all rows -/
def Provider.allKeys (keyOf : Row → Option GraphId) (provider : Provider Row) : List GraphId :=
  sortedDistinct (provider.rows.filterMap keyOf)

theorem allKeys_eq (sorted : keys.Pairwise (· < ·))
    (same : ∀ key, key ∈ provider.rows.filterMap keyOf ↔ key ∈ keys) :
    provider.allKeys keyOf = keys := by
  apply eq_of_sorted (sortedDistinct_sorted _) sorted
  intro key
  rw [mem_sortedDistinct, same]

/-- The plan of a stream returns its rows in the order of their keys. -/
def Provider.InOrder (keyOf : Row → Option GraphId) (provider : Provider Row) : Prop :=
  provider.kind = .planStream → (provider.rows.filterMap keyOf).Pairwise (· ≤ ·)

theorem rescan_sameSource : SameSource provider provider.rescan := by
  rw [Provider.rescan]
  split
  · exact ⟨rfl, rfl, rfl⟩
  · exact ⟨rfl, rfl, rfl⟩

/-- A rescan puts a provider before all its keys. -/
theorem rescan_stands (inOrder : provider.InOrder keyOf) :
    Stands keyOf provider.rescan (provider.allKeys keyOf) := by
  have sorted : (provider.allKeys keyOf).Pairwise (· < ·) :=
    sortedDistinct_sorted _
  rw [Provider.rescan]
  split
  case h_1 kind =>
      have rowsSorted := inOrder kind
      have keysAre : provider.allKeys keyOf = distinct (provider.rows.filterMap keyOf) :=
        allKeys_eq (distinct_sorted rowsSorted) fun _ => mem_distinct.symm
      apply Stands.planStream
      refine ⟨kind, keysAre, rowsSorted, ?_, ?_, fun _ => rfl, ?_, fun _ _ => rfl⟩
      · intro last impossible
        cases impossible
      · intro impossible
        cases impossible
      · intro impossible
        cases impossible
  case h_2 kind =>
      apply Stands.adjacency
      refine ⟨kind, sorted, fun _ => ⟨rfl, rfl⟩, ?_⟩
      intro impossible
      cases impossible

/-- A group of another key than the current one is empty. -/
theorem materializeGroup_other {terminal : GraphId} (stands : Stands keyOf provider keys)
    (other : keys.head? ≠ some terminal) :
    ∃ next, provider.materializeGroup keyOf terminal = .ok ([], next) ∧
      Reached keyOf provider next keys := by
  rw [Provider.materializeGroup]
  cases stands with
  | planStream stream =>
      obtain ⟨next, ran, reached⟩ := planStreamFirstDistinct_spec stream
      refine ⟨next, ?_, reached.reached⟩
      rw [stream.kind]
      change planStreamMaterializeGroup keyOf provider terminal = _
      rw [planStreamMaterializeGroup, ran]
      cases keys with
      | nil => rfl
      | cons key rest =>
          have current : next.currentKey ≠ terminal := by
            rw [reached.reached.atKey key rfl]
            exact fun same => other (congrArg some same)
          change (if (!true || decide (next.currentKey ≠ terminal)) = true then _ else _) = _
          rw [if_pos (by simp [current])]
          rfl
  | adjacency adjacency =>
      obtain ⟨next, ran, reached⟩ := adjacencyFirstDistinct_spec adjacency
      refine ⟨next, ?_, reached.reached⟩
      rw [adjacency.kind]
      apply congrArg Except.ok
      rw [adjacencyMaterializeGroup, ran]
      cases keys with
      | nil => rfl
      | cons key rest =>
          have current : next.currentKey ≠ terminal := by
            rw [reached.atKey key rfl]
            exact fun same => other (congrArg some same)
          exact if_pos current

/-- The cursor that a provider is: a list of keys with their groups -/
def keysCall (group : GraphId → List Row) (keys : List GraphId) :
    ProviderCall → (Option GraphId × List Row) × List GraphId
  | .firstDistinct => ((keys.head?, []), keys)
  | .nextDistinct => ((keys.tail.head?, []), keys.tail)
  | .seekGe target => (((seek keys target).head?, []), seek keys target)
  | .materializeGroup terminal =>
      if keys.head? = some terminal then ((none, group terminal), keys.tail) else ((none, []), keys)

/-- What the cursor returns to calls in their order -/
def keysCalls (group : GraphId → List Row) (keys : List GraphId) :
    List ProviderCall → List (Option GraphId × List Row)
  | [] => []
  | call :: calls =>
      (keysCall group keys call).1 :: keysCalls group (keysCall group keys call).2 calls

theorem Reached.answer {next : Provider Row} (reached : Reached keyOf provider next keys) :
    (if (!keys.isEmpty) = true then some next.currentKey else none) = keys.head? := by
  cases keys with
  | nil => rfl
  | cons key rest => exact congrArg some (reached.atKey key rfl)

theorem group_of_sameSource {next : Provider Row} (same : SameSource provider next) :
    next.group keyOf = provider.group keyOf := by
  funext key
  rw [Provider.group, Provider.group, same.rows, same.kind, same.localQual]

theorem call_spec (stands : Stands keyOf provider keys) (call : ProviderCall) :
    ∃ next, provider.call keyOf call = .ok ((keysCall (provider.group keyOf) keys call).1, next) ∧
      Stands keyOf next (keysCall (provider.group keyOf) keys call).2 ∧
      SameSource provider next := by
  cases call with
  | firstDistinct =>
      obtain ⟨next, ran, reached⟩ := firstDistinct_spec stands
      refine ⟨next, ?_, reached.stands, reached.source⟩
      rw [Provider.call, ran, keysCall, ← reached.answer]
      rfl
  | nextDistinct =>
      obtain ⟨next, ran, reached⟩ := nextDistinct_spec stands
      refine ⟨next, ?_, reached.stands, reached.source⟩
      rw [Provider.call, ran, keysCall, ← reached.answer]
      rfl
  | seekGe target =>
      obtain ⟨next, ran, reached⟩ := seekGe_spec stands target
      refine ⟨next, ?_, reached.stands, reached.source⟩
      rw [Provider.call, ran, keysCall, ← reached.answer]
      rfl
  | materializeGroup terminal =>
      rw [Provider.call, keysCall]
      by_cases atKey : keys.head? = some terminal
      · obtain ⟨next, ran, reached⟩ := materializeGroup_spec stands atKey
        rw [ran, if_pos atKey]
        exact ⟨next, rfl, reached.stands, reached.source⟩
      · obtain ⟨next, ran, reached⟩ := materializeGroup_other stands atKey
        rw [ran, if_neg atKey]
        exact ⟨next, rfl, reached.stands, reached.source⟩

theorem calls_spec (stands : Stands keyOf provider keys) (calls : List ProviderCall) :
    provider.calls keyOf calls = .ok (keysCalls (provider.group keyOf) keys calls) := by
  induction calls generalizing provider keys with
  | nil => rfl
  | cons call calls inductionHypothesis =>
      obtain ⟨next, ran, standsNext, source⟩ := call_spec stands call
      rw [Provider.calls, ran]
      change (next.calls keyOf calls >>= _) = _
      rw [inductionHypothesis standsNext, group_of_sameSource source]
      rfl

/-- Both kinds of providers answer all calls as the list of their keys does. -/
theorem calls_rescan (inOrder : provider.InOrder keyOf) (calls : List ProviderCall) :
    provider.rescan.calls keyOf calls =
      .ok (keysCalls (provider.group keyOf) (provider.allKeys keyOf) calls) := by
  rw [calls_spec (rescan_stands inOrder) calls, group_of_sameSource rescan_sameSource]

/-- A stream that has passed a key with all its rows, and is asked for it once more -/
theorem calls_rescan_stream : ∃ provider : Provider (GraphId × Nat),
    provider.kind = .planStream ∧
    provider.rows = [(844424930131969, 0), (844424930131971, 1), (844424930131971, 2),
      (844424930131973, 3)] ∧
    provider.rescan.calls (fun row => some row.1)
        [.seekGe 844424930131970, .materializeGroup 844424930131971, .seekGe 844424930131971,
          .materializeGroup 844424930131971, .nextDistinct] =
      .ok [(some 844424930131971, []), (none, [(844424930131971, 1), (844424930131971, 2)]),
        (some 844424930131973, []), (none, []), (none, [])] := by
  let stream : Provider (GraphId × Nat) :=
    { kind := .planStream
      rows := [(844424930131969, 0), (844424930131971, 1), (844424930131971, 2), (844424930131973, 3)]
      localQual := fun _ => true
      pending := [], currentSlot := none, currentKey := 0, lastKey := none, hasCurrent := false
      exhausted := false, terminals := [], terminalIndex := 0, built := false, rowsScanned := 0 }
  refine ⟨stream, rfl, rfl, ?_⟩
  have keys : stream.allKeys (fun row => some row.1) =
      [844424930131969, 844424930131971, 844424930131973] := by
    apply allKeys_eq (by decide)
    simp [stream]
  have answers := @calls_rescan _ (fun row => some row.1) stream (fun _ => by decide)
    [.seekGe 844424930131970, .materializeGroup 844424930131971, .seekGe 844424930131971,
      .materializeGroup 844424930131971, .nextDistinct]
  rw [keys] at answers
  exact answers.trans rfl

end Uniform

end Age.Executor.WcojJoin
