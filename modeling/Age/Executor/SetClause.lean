import Mathlib.Logic.Function.Basic
import Age.Agtype.Builder

/-!
# The SET clause

`apply_update_list` changes the entities of an input row in the row itself and
writes an entity to its table at the last item of its variable.  A terminal
clause does all rows in one command, a clause that others follow does each row
in its own.
-/

namespace Age.Executor

open Agtype Lib

abbrev GraphId := Int64

abbrev Properties := List AgtypePair

section Properties

/-- `cypher_update_item`: one property of an entity, or a map for all of them. -/
structure UpdateItem where
  entityPosition : Nat
  propName : Option Bytes
  isAdd : Bool
  removeItem : Bool
  deriving DecidableEq

/-- `alter_property_value` -/
def alterPropertyValue (properties : Properties) (name : Bytes) (newValue : Option AgtypeValue) :
    Properties :=
  let pushed := properties.filterMap fun pair =>
    if pair.1 = name then newValue.map fun value => (name, value) else some pair
  let added := match newValue with
    | some value => if properties.any fun pair => pair.1 = name then [] else [(name, value)]
    | none => []
  uniqueifyAgtypeObject (pushed ++ added)

/-- `alter_properties` -/
def alterProperties (original new : Properties) : Properties :=
  uniqueifyAgtypeObject (original ++ new)

/-- `remove_null_from_agtype_object` -/
def removeNull (properties : Properties) : Properties :=
  properties.filter fun pair =>
    match pair.2 with
    | .null => false
    | _ => true

/-- What an item makes of the properties of its entity; `none` for the error
`a map is expected`. -/
def UpdateItem.assignment (item : UpdateItem) (new : Option AgtypeValue) :
    Option (Properties → Properties) :=
  match item.propName with
  | some name =>
      some fun properties =>
        alterPropertyValue properties name (if item.removeItem then none else new)
  | none =>
      match new with
      | some (.object pairs) =>
          some fun properties =>
            if item.isAdd then removeNull (alterProperties properties pairs)
            else alterProperties [] pairs
      | _ => none

end Properties

section Table

/-- A version of an entity, as the running transaction sees it. -/
structure TupleVersion where
  properties : Properties
  cmin : Nat
  cmax : Option Nat

/-- The versions of each entity in their tables. -/
abbrev EntityHeap := GraphId → List TupleVersion

/-- A scan with this command id returns the version. -/
def TupleVersion.visible (version : TupleVersion) (curcid : Nat) : Bool :=
  version.cmin < curcid && version.cmax.all fun cmax => curcid ≤ cmax

/-- `update_entity_tuple` on the version that the scan by id finds.  Locking a version
that was updated gives `TM_SelfModified`: the update is left out, or it is the error
`tuple to be updated was already modified`. -/
def updateVersions (cid : Nat) (properties : Properties) :
    List TupleVersion → Option (List TupleVersion)
  | [] => some []
  | version :: rest =>
      if version.visible cid then
        match version.cmax with
        | none => some ({ version with cmax := some cid } :: rest ++ [⟨properties, cid, none⟩])
        | some cmax => if cmax = cid then some (version :: rest) else none
      else (updateVersions cid properties rest).map fun later => version :: later

/-- The properties that a later command reads. -/
def storedProperties (heap : EntityHeap) (id : GraphId) : Option Properties :=
  ((heap id).find? fun version => version.cmax.isNone).map TupleVersion.properties

end Table

section Clause

structure Entity where
  id : GraphId
  properties : Properties

/-- An input row: the entity at each position, and the value of each item. -/
structure InputRow where
  entities : Nat → Option Entity
  values : Nat → Option AgtypeValue

/-- `ensure_last_update_indexes`: the last item for a position. -/
def lastUpdateIndex (position : Nat) : List UpdateItem → Nat → Nat → Nat
  | [], _, found => found
  | item :: rest, index, found =>
      lastUpdateIndex position rest (index + 1)
        (if item.entityPosition = position then index else found)

/-- The row and the tables while the items are done. -/
structure UpdateState where
  entities : Nat → Option Entity
  lidx : Nat
  heap : EntityHeap

variable (items : List UpdateItem) (cid : Nat)

/-- One item of `apply_update_list`.  An item of a NULL entity is skipped before
`lidx` is counted up. -/
def applyUpdateItem (row : InputRow) (index : Nat) (item : UpdateItem) (state : UpdateState) :
    Option UpdateState :=
  match state.entities item.entityPosition with
  | none => some state
  | some entity =>
      match item.assignment (row.values index) with
      | none => none
      | some assign =>
          let updated : Entity := { entity with properties := assign entity.properties }
          let entities := Function.update state.entities item.entityPosition (some updated)
          if items.length = 1 ∨
              lastUpdateIndex item.entityPosition items 0 0 = state.lidx then
            (updateVersions cid updated.properties (state.heap entity.id)).map fun versions =>
              ⟨entities, state.lidx + 1, Function.update state.heap entity.id versions⟩
          else some ⟨entities, state.lidx + 1, state.heap⟩

def applyUpdateItems (row : InputRow) : Nat → List UpdateItem → UpdateState → Option UpdateState
  | _, [], state => some state
  | index, item :: rest, state =>
      (applyUpdateItem items cid row index item state).bind
        (applyUpdateItems row (index + 1) rest)

/-- `apply_update_list` -/
def applyUpdateList (row : InputRow) (heap : EntityHeap) : Option EntityHeap :=
  (applyUpdateItems items cid row 0 items ⟨row.entities, 0, heap⟩).map UpdateState.heap

/-- The rows of a clause, with the command id `advance` higher for each row. -/
def setRows (items : List UpdateItem) (advance : Nat) :
    Nat → List InputRow → EntityHeap → Option EntityHeap
  | _, [], heap => some heap
  | cid, row :: rest, heap =>
      (applyUpdateList items cid row heap).bind (setRows items advance (cid + advance) rest)

/-- `exec_cypher_set` of a terminal clause: all rows in one command. -/
def setTerminal (items : List UpdateItem) (cid : Nat) (rows : List InputRow)
    (heap : EntityHeap) : Option EntityHeap :=
  setRows items 0 cid rows heap

/-- `exec_cypher_set` of another clause: a command for each row. -/
def setFollowed (items : List UpdateItem) (cid : Nat) (rows : List InputRow)
    (heap : EntityHeap) : Option EntityHeap :=
  setRows items 1 cid rows heap

end Clause

section Meaning

/-- The stored properties of each entity. -/
abbrev Store := GraphId → Option Properties

/-- An item changes the stored properties of the entity of its row. -/
def assignItem (row : InputRow) (index : Nat) (item : UpdateItem) (store : Store) :
    Option Store :=
  match row.entities item.entityPosition with
  | none => some store
  | some entity =>
      (item.assignment (row.values index)).map fun assign =>
        Function.update store entity.id ((store entity.id).map assign)

def assignItems (row : InputRow) : Nat → List UpdateItem → Store → Option Store
  | _, [], store => some store
  | index, item :: rest, store =>
      (assignItem row index item store).bind (assignItems row (index + 1) rest)

/-- Every assignment, in the order of the rows and of the items. -/
def assignRows (items : List UpdateItem) : List InputRow → Store → Option Store
  | [], store => some store
  | row :: rest, store => (assignItems row 0 items store).bind (assignRows items rest)

end Meaning

section Condition

/-- The rows and variables of a clause name each entity once. -/
structure NamedOnce (items : List UpdateItem) (rows : List InputRow) : Prop where
  inRow : ∀ row ∈ rows, ∀ first ∈ items, ∀ second ∈ items,
    first.entityPosition ≠ second.entityPosition → ∀ entity other,
      row.entities first.entityPosition = some entity →
        row.entities second.entityPosition = some other → entity.id ≠ other.id
  acrossRows : rows.Pairwise fun row later => ∀ first ∈ items, ∀ second ∈ items,
    ∀ entity other, row.entities first.entityPosition = some entity →
      later.entities second.entityPosition = some other → entity.id ≠ other.id

/-- With several items, no item of an entity comes after an item of a NULL. -/
def NullsLast (items : List UpdateItem) (row : InputRow) : Prop :=
  items.length = 1 ∨ items.Pairwise fun item later =>
    row.entities item.entityPosition = none → row.entities later.entityPosition = none

end Condition

section Agreement

theorem rel_bind {α β γ δ : Type} {r : α → β → Prop} {s : γ → δ → Prop} {a : Option α}
    {b : Option β} {f : α → Option γ} {g : β → Option δ} (rel : Option.Rel r a b)
    (next : ∀ x y, r x y → Option.Rel s (f x) (g y)) : Option.Rel s (a.bind f) (b.bind g) := by
  cases rel with
  | none => exact .none
  | some related => exact next _ _ related

theorem rel_mono {α β : Type} {r s : α → β → Prop} {a : Option α} {b : Option β}
    (rel : Option.Rel r a b) (weaker : ∀ x y, r x y → s x y) : Option.Rel s a b := by
  cases rel with
  | none => exact .none
  | some related => exact .some (weaker _ _ related)

theorem lastUpdateIndex_of_missing {position : Nat} {items : List UpdateItem} {index found : Nat}
    (missing : ∀ item ∈ items, item.entityPosition ≠ position) :
    lastUpdateIndex position items index found = found := by
  induction items generalizing index found with
  | nil => rfl
  | cons item rest inductionHypothesis =>
      rw [lastUpdateIndex, if_neg (missing item List.mem_cons_self)]
      exact inductionHypothesis fun other member => missing other (List.mem_cons_of_mem _ member)

theorem lastUpdateIndex_of_mem {position : Nat} {items : List UpdateItem} {index found : Nat}
    (present : ∃ item ∈ items, item.entityPosition = position) :
    index ≤ lastUpdateIndex position items index found := by
  induction items generalizing index found with
  | nil =>
      obtain ⟨item, member, -⟩ := present
      cases member
  | cons item rest inductionHypothesis =>
      rw [lastUpdateIndex]
      by_cases later : ∃ other ∈ rest, other.entityPosition = position
      · exact Nat.le_of_succ_le (inductionHypothesis later)
      · have here : item.entityPosition = position := by
          obtain ⟨other, member, isPosition⟩ := present
          rcases List.mem_cons.mp member with rfl | inRest
          · exact isPosition
          · exact absurd ⟨other, inRest, isPosition⟩ later
        rw [if_pos here, lastUpdateIndex_of_missing fun other member isPosition =>
          later ⟨other, member, isPosition⟩]

theorem lastUpdateIndex_append (before rest : List UpdateItem) (item : UpdateItem)
    (index found : Nat) :
    lastUpdateIndex item.entityPosition (before ++ item :: rest) index found =
      lastUpdateIndex item.entityPosition rest (index + before.length + 1)
        (index + before.length) := by
  induction before generalizing index found with
  | nil =>
      rw [List.nil_append, lastUpdateIndex, if_pos rfl]
      rfl
  | cons first others inductionHypothesis =>
      rw [List.cons_append, lastUpdateIndex, inductionHypothesis, List.length_cons]
      congr 1 <;> omega

theorem le_lastUpdateIndex {items before rest : List UpdateItem} {item : UpdateItem}
    (split : items = before ++ item :: rest) :
    before.length ≤ lastUpdateIndex item.entityPosition items 0 0 := by
  rw [split, lastUpdateIndex_append, Nat.zero_add]
  by_cases again : ∃ other ∈ rest, other.entityPosition = item.entityPosition
  · exact Nat.le_of_succ_le (lastUpdateIndex_of_mem again)
  · rw [lastUpdateIndex_of_missing fun other member isPosition => again ⟨other, member, isPosition⟩]

/-- An item is the last of its position when no later item has it. -/
theorem lastUpdateIndex_eq {items before rest : List UpdateItem} {item : UpdateItem}
    (split : items = before ++ item :: rest) :
    lastUpdateIndex item.entityPosition items 0 0 = before.length ↔
      ∀ other ∈ rest, other.entityPosition ≠ item.entityPosition := by
  rw [split, lastUpdateIndex_append, Nat.zero_add]
  constructor
  · intro same other member isPosition
    have beyond := @lastUpdateIndex_of_mem item.entityPosition rest (before.length + 1)
      before.length ⟨other, member, isPosition⟩
    omega
  · intro missing
    rw [lastUpdateIndex_of_missing missing]

/-- Versions that earlier commands left behind. -/
def Replaced (cid : Nat) (versions : List TupleVersion) : Prop :=
  ∀ version ∈ versions, ∃ cmax, version.cmax = some cmax ∧ cmax < cid

theorem updateVersions_live {cid cmin : Nat} {old new : Properties} {before : List TupleVersion}
    (replaced : Replaced cid before) (early : cmin < cid) :
    updateVersions cid new (before ++ [⟨old, cmin, none⟩]) =
      some (before ++ [⟨old, cmin, some cid⟩, ⟨new, cid, none⟩]) := by
  induction before with
  | nil =>
      rw [List.nil_append, updateVersions, if_pos (by simp [TupleVersion.visible, early])]
      rfl
  | cons version rest inductionHypothesis =>
      obtain ⟨cmax, isMax, gone⟩ := replaced version List.mem_cons_self
      rw [List.cons_append, updateVersions, if_neg (by
        simp [TupleVersion.visible, isMax]
        omega), inductionHypothesis fun other member =>
          replaced other (List.mem_cons_of_mem _ member)]
      rfl

theorem find?_live {cid cmin : Nat} {properties : Properties} {before : List TupleVersion}
    (replaced : Replaced cid before) :
    (before ++ [(⟨properties, cmin, none⟩ : TupleVersion)]).find?
      (fun version => version.cmax.isNone) = some ⟨properties, cmin, none⟩ := by
  induction before with
  | nil => rfl
  | cons version rest inductionHypothesis =>
      obtain ⟨cmax, isMax, -⟩ := replaced version List.mem_cons_self
      rw [List.cons_append, List.find?_cons_of_neg (by rw [isMax]; exact Bool.false_ne_true)]
      exact inductionHypothesis fun other member => replaced other (List.mem_cons_of_mem _ member)

variable {items : List UpdateItem} {cid : Nat} {row : InputRow}

/-- The last version is one that the scan of a command finds. -/
def Untouched (heap : EntityHeap) (cid : Nat) (id : GraphId) : Prop :=
  ∃ before properties cmin, heap id = before ++ [⟨properties, cmin, none⟩] ∧
    Replaced cid before ∧ cmin < cid

theorem Untouched.mono {heap : EntityHeap} {later : Nat} {id : GraphId}
    (untouched : Untouched heap cid id) (order : cid ≤ later) : Untouched heap later id := by
  obtain ⟨before, properties, cmin, versions, replaced, early⟩ := untouched
  refine ⟨before, properties, cmin, versions, fun version member => ?_,
    Nat.lt_of_lt_of_le early order⟩
  obtain ⟨cmax, isMax, gone⟩ := replaced version member
  exact ⟨cmax, isMax, Nat.lt_of_lt_of_le gone order⟩

/-- The entities of a row that items change. -/
def InputRow.Names (row : InputRow) (items : List UpdateItem) (id : GraphId) : Prop :=
  ∃ item ∈ items, ∃ entity, row.entities item.entityPosition = some entity ∧ entity.id = id

/-- The row and the tables against the store, before the items that are left. -/
structure RowInv (items rest : List UpdateItem) (cid : Nat) (row : InputRow)
    (state : UpdateState) (store : Store) : Prop where
  ids : ∀ position, (state.entities position).map Entity.id =
    (row.entities position).map Entity.id
  current : ∀ item ∈ items, ∀ entity, state.entities item.entityPosition = some entity →
    store entity.id = some entity.properties
  pending : ∀ id, row.Names rest id → Untouched state.heap cid id
  written : ∀ id, ¬ row.Names rest id → storedProperties state.heap id = store id

theorem storedProperties_update (heap : EntityHeap) {before : List TupleVersion}
    (replaced : Replaced cid before) (old new : Properties) (cmin : Nat) (id : GraphId) :
    storedProperties (Function.update heap id
      (before ++ [⟨old, cmin, some cid⟩, ⟨new, cid, none⟩])) id = some new := by
  have found := @find?_live (cid + 1) cid new (before ++ [⟨old, cmin, some cid⟩]) (by
    intro version member
    rcases List.mem_append.mp member with earlier | here
    · obtain ⟨cmax, isMax, gone⟩ := replaced version earlier
      exact ⟨cmax, isMax, Nat.lt_succ_of_lt gone⟩
    · rw [List.mem_singleton.mp here]
      exact ⟨cid, rfl, Nat.lt_succ_self cid⟩)
  rw [List.append_assoc] at found
  rw [storedProperties, Function.update_self]
  exact congrArg (Option.map TupleVersion.properties) found

theorem storedProperties_update_of_ne (heap : EntityHeap) {id other : GraphId}
    (differ : other ≠ id) (versions : List TupleVersion) :
    storedProperties (Function.update heap id versions) other = storedProperties heap other := by
  rw [storedProperties, storedProperties, Function.update_of_ne differ]

/-- Where the items stand: `lidx` is the place of the next item, or nothing is left. -/
def Placed (items rest : List UpdateItem) (row : InputRow) (index lidx : Nat) : Prop :=
  items.length = 1 ∨ lidx = index ∨ ∀ item ∈ rest, row.entities item.entityPosition = none

theorem RowInv.step {before rest : List UpdateItem} {item : UpdateItem} {state : UpdateState}
    {store : Store} (inv : RowInv items (item :: rest) cid row state store)
    (split : items = before ++ item :: rest)
    (distinct : ∀ first ∈ items, ∀ second ∈ items,
      first.entityPosition ≠ second.entityPosition → ∀ entity other,
        row.entities first.entityPosition = some entity →
          row.entities second.entityPosition = some other → entity.id ≠ other.id)
    (placed : Placed items (item :: rest) row before.length state.lidx)
    (nulls : NullsLast items row) :
    Option.Rel (fun next after => RowInv items rest cid row next after ∧
        Placed items rest row (before.length + 1) next.lidx ∧
        ∀ id, ¬ row.Names items id → next.heap id = state.heap id ∧ after id = store id)
      (applyUpdateItem items cid row before.length item state)
      (assignItem row before.length item store) := by
  have isItem : item ∈ items := by simp [split]
  have later {other : UpdateItem} (member : other ∈ rest) : other ∈ items := by
    rw [split]
    exact List.mem_append_right _ (List.mem_cons_of_mem _ member)
  have sameId := inv.ids item.entityPosition
  rw [applyUpdateItem, assignItem]
  cases inRow : row.entities item.entityPosition with
  | none =>
      rw [inRow] at sameId
      rw [Option.map_eq_none_iff.mp sameId]
      have names (id : GraphId) : row.Names rest id ↔ row.Names (item :: rest) id := by
        constructor
        · rintro ⟨other, member, found⟩
          exact ⟨other, List.mem_cons_of_mem _ member, found⟩
        · rintro ⟨other, member, entity, found, isId⟩
          rcases List.mem_cons.mp member with rfl | inRest
          · rw [inRow] at found
            cases found
          · exact ⟨other, inRest, entity, found, isId⟩
      refine .some ⟨⟨inv.ids, inv.current, fun id named => inv.pending id ((names id).mp named),
        fun id unnamed => inv.written id fun named => unnamed ((names id).mpr named)⟩, ?_,
        fun id _ => ⟨rfl, rfl⟩⟩
      rcases nulls with single | ordered
      · exact .inl single
      · refine .inr (.inr fun other member => ?_)
        rw [split] at ordered
        exact List.rel_of_pairwise_cons (List.pairwise_append.mp ordered).2.1 member inRow
  | some start =>
      rw [inRow] at sameId
      obtain ⟨entity, inState, isId⟩ := Option.map_eq_some_iff.mp sameId
      rw [inState]
      dsimp only
      cases item.assignment (row.values before.length) with
      | none => exact .none
      | some assign =>
          dsimp only [Option.map_some]
          have stored := inv.current item isItem entity inState
          rw [← isId, stored, Option.map_some]
          have named : row.Names (item :: rest) entity.id :=
            ⟨item, List.mem_cons_self, start, inRow, isId.symm⟩
          have elsewhere {other : UpdateItem} (member : other ∈ items)
              (differ : other.entityPosition ≠ item.entityPosition) {found : Entity}
              (isFound : row.entities other.entityPosition = some found) :
              found.id ≠ entity.id := by
            rw [isId]
            exact distinct other member item isItem differ found start isFound inRow
          have ids (position : Nat) : (Function.update state.entities item.entityPosition
              (some { entity with properties := assign entity.properties }) position).map
                Entity.id = (row.entities position).map Entity.id := by
            by_cases here : position = item.entityPosition
            · rw [here, Function.update_self, ← inv.ids, inState]
              rfl
            · rw [Function.update_of_ne here]
              exact inv.ids position
          have current (other : UpdateItem) (member : other ∈ items) (found : Entity)
              (isFound : Function.update state.entities item.entityPosition
                (some { entity with properties := assign entity.properties })
                other.entityPosition = some found) :
              Function.update store entity.id (some (assign entity.properties)) found.id =
                some found.properties := by
            by_cases here : other.entityPosition = item.entityPosition
            · rw [here, Function.update_self] at isFound
              cases isFound
              exact Function.update_self ..
            · rw [Function.update_of_ne here] at isFound
              have sameOther := inv.ids other.entityPosition
              rw [isFound] at sameOther
              obtain ⟨before, isBefore, sameBefore⟩ := Option.map_eq_some_iff.mp sameOther.symm
              rw [Function.update_of_ne (sameBefore ▸ elsewhere member here isBefore)]
              exact inv.current other member found isFound
          have notLeft : Placed items (item :: rest) row before.length state.lidx →
              items.length = 1 ∨ state.lidx = before.length := by
            rintro (single | place | nothing)
            · exact .inl single
            · exact .inr place
            · have none := nothing item List.mem_cons_self
              rw [inRow] at none
              cases none
          have frame (id : GraphId) (unnamed : ¬ row.Names items id) : id ≠ entity.id := by
            rintro rfl
            exact unnamed ⟨item, isItem, start, inRow, isId.symm⟩
          have nextPlaced : Placed items rest row (before.length + 1) (state.lidx + 1) :=
            (notLeft placed).imp_right fun place => .inl (congrArg (· + 1) place)
          have isLast : (items.length = 1 ∨
              lastUpdateIndex item.entityPosition items 0 0 = state.lidx) ↔
                ∀ other ∈ rest, other.entityPosition ≠ item.entityPosition := by
            rcases notLeft placed with single | place
            · have nothing : rest = [] := by
                rw [split, List.length_append, List.length_cons] at single
                exact List.length_eq_zero_iff.mp (by omega)
              simp [single, nothing]
            · rw [place, lastUpdateIndex_eq split]
              constructor
              · rintro (single | last)
                · have nothing : rest = [] := by
                    rw [split, List.length_append, List.length_cons] at single
                    exact List.length_eq_zero_iff.mp (by omega)
                  simp [nothing]
                · exact last
              · exact .inr
          by_cases last : items.length = 1 ∨
              lastUpdateIndex item.entityPosition items 0 0 = state.lidx
          · obtain ⟨earlier, old, cmin, versions, replaced, early⟩ := inv.pending entity.id named
            rw [if_pos last, versions, updateVersions_live replaced early, Option.map_some]
            have gone (id : GraphId) (isNamed : row.Names rest id) : id ≠ entity.id := by
              obtain ⟨other, member, found, isFound, rfl⟩ := isNamed
              exact elsewhere (later member) (isLast.mp last other member) isFound
            refine .some ⟨⟨ids, current, fun id isNamed => ?_, fun id unnamed => ?_⟩, nextPlaced,
              fun id unnamed => ?_⟩
            · obtain ⟨other, member, found, isFound, isOther⟩ := isNamed
              have untouched := inv.pending id
                ⟨other, List.mem_cons_of_mem _ member, found, isFound, isOther⟩
              have differ := gone id ⟨other, member, found, isFound, isOther⟩
              rw [Untouched]
              dsimp only
              rw [Function.update_of_ne differ]
              exact untouched
            · by_cases isEntity : id = entity.id
              · rw [isEntity, storedProperties_update _ replaced, Function.update_self]
              · rw [storedProperties_update_of_ne _ isEntity, Function.update_of_ne isEntity]
                refine inv.written id ?_
                rintro ⟨other, member, found, isFound, isOther⟩
                rcases List.mem_cons.mp member with rfl | inRest
                · rw [inRow] at isFound
                  cases isFound
                  exact isEntity (isOther.symm.trans isId.symm)
                · exact unnamed ⟨other, inRest, found, isFound, isOther⟩
            · exact ⟨Function.update_of_ne (frame id unnamed) ..,
                Function.update_of_ne (frame id unnamed) ..⟩
          · rw [if_neg last]
            have again : ∃ other ∈ rest, other.entityPosition = item.entityPosition := by
              by_contra none
              exact last (isLast.mpr fun other member same => none ⟨other, member, same⟩)
            obtain ⟨other, member, samePosition⟩ := again
            have stillNamed : row.Names rest entity.id :=
              ⟨other, member, start, samePosition ▸ inRow, isId.symm⟩
            refine .some ⟨⟨ids, current, fun id isNamed => ?_, fun id unnamed => ?_⟩, nextPlaced,
              fun id unnamed => ⟨rfl, Function.update_of_ne (frame id unnamed) ..⟩⟩
            · obtain ⟨found, inRest, isFound⟩ := isNamed
              exact inv.pending id ⟨found, List.mem_cons_of_mem _ inRest, isFound⟩
            · have isOther : id ≠ entity.id := by
                rintro rfl
                exact unnamed stillNamed
              rw [Function.update_of_ne isOther]
              refine inv.written id ?_
              rintro ⟨found, inItems, value, isValue, isNamed⟩
              rcases List.mem_cons.mp inItems with rfl | inRest
              · rw [inRow] at isValue
                cases isValue
                exact isOther (isNamed.symm.trans isId.symm)
              · exact unnamed ⟨found, inRest, value, isValue, isNamed⟩

/-- The rest of the items of a row. -/
theorem RowInv.run {before rest : List UpdateItem} {state : UpdateState} {store : Store}
    (inv : RowInv items rest cid row state store) (split : items = before ++ rest)
    (distinct : ∀ first ∈ items, ∀ second ∈ items,
      first.entityPosition ≠ second.entityPosition → ∀ entity other,
        row.entities first.entityPosition = some entity →
          row.entities second.entityPosition = some other → entity.id ≠ other.id)
    (placed : Placed items rest row before.length state.lidx) (nulls : NullsLast items row) :
    Option.Rel (fun final after => RowInv items [] cid row final after ∧
        ∀ id, ¬ row.Names items id → final.heap id = state.heap id ∧ after id = store id)
      (applyUpdateItems items cid row before.length rest state)
      (assignItems row before.length rest store) := by
  induction rest generalizing before state store with
  | nil => exact .some ⟨inv, fun id _ => ⟨rfl, rfl⟩⟩
  | cons item rest inductionHypothesis =>
      refine rel_bind (inv.step split distinct placed nulls) ?_
      rintro next after ⟨nextInv, nextPlaced, frame⟩
      have later := inductionHypothesis nextInv (by rw [split, List.append_cons])
        (by rw [List.length_append]; exact nextPlaced)
      rw [List.length_append] at later
      refine rel_mono later fun final last ⟨lastInv, lastFrame⟩ => ⟨lastInv, fun id unnamed => ?_⟩
      exact ⟨(lastFrame id unnamed).1.trans (frame id unnamed).1,
        (lastFrame id unnamed).2.trans (frame id unnamed).2⟩

theorem applyUpdateList_assigns {heap : EntityHeap}
    (distinct : ∀ first ∈ items, ∀ second ∈ items,
      first.entityPosition ≠ second.entityPosition → ∀ entity other,
        row.entities first.entityPosition = some entity →
          row.entities second.entityPosition = some other → entity.id ≠ other.id)
    (nulls : NullsLast items row) (ready : ∀ id, row.Names items id → Untouched heap cid id)
    (copies : ∀ item ∈ items, ∀ entity, row.entities item.entityPosition = some entity →
      storedProperties heap entity.id = some entity.properties) :
    Option.Rel (fun final after => storedProperties final = after ∧
        ∀ id, ¬ row.Names items id → final id = heap id)
      (applyUpdateList items cid row heap)
      (assignItems row 0 items (storedProperties heap)) := by
  have inv : RowInv items items cid row ⟨row.entities, 0, heap⟩ (storedProperties heap) :=
    ⟨fun _ => rfl, copies, ready, fun _ _ => rfl⟩
  have ran := @RowInv.run items cid row [] items _ _ inv rfl distinct (.inr (.inl rfl)) nulls
  rw [applyUpdateList]
  rw [List.length_nil] at ran
  generalize applyUpdateItems items cid row 0 items ⟨row.entities, 0, heap⟩ = final at ran
  generalize assignItems row 0 items (storedProperties heap) = after at ran
  cases ran with
  | none => exact .none
  | some related =>
      refine .some ⟨funext fun id => related.1.written id ?_, fun id unnamed =>
        (related.2 id unnamed).1⟩
      rintro ⟨item, member, -⟩
      cases member

theorem setRows_assigns {rows : List InputRow} {heap : EntityHeap} {advance : Nat}
    (once : NamedOnce items rows) (nulls : ∀ row ∈ rows, NullsLast items row)
    (ready : ∀ row ∈ rows, ∀ id, row.Names items id → Untouched heap cid id)
    (copies : ∀ row ∈ rows, ∀ item ∈ items, ∀ entity,
      row.entities item.entityPosition = some entity →
        storedProperties heap entity.id = some entity.properties) :
    (setRows items advance cid rows heap).map storedProperties =
      assignRows items rows (storedProperties heap) := by
  induction rows generalizing cid heap with
  | nil => rfl
  | cons row rest inductionHypothesis =>
      have first := @applyUpdateList_assigns items cid row heap
        (once.inRow row List.mem_cons_self) (nulls row List.mem_cons_self)
        (ready row List.mem_cons_self) (copies row List.mem_cons_self)
      rw [setRows, assignRows]
      generalize applyUpdateList items cid row heap = final at first
      generalize assignItems row 0 items (storedProperties heap) = after at first
      cases first with
      | none => rfl
      | @some written _ related =>
          obtain ⟨rfl, frame⟩ := related
          rw [Option.bind_some, Option.bind_some]
          obtain ⟨apart, restOnce⟩ := List.pairwise_cons.mp once.acrossRows
          -- the entities of later rows are as they were
          have same {later : InputRow} (member : later ∈ rest) {id : GraphId}
              (named : later.Names items id) : written id = heap id := by
            refine frame id ?_
            rintro ⟨item, isItem, entity, found, isId⟩
            obtain ⟨other, isOther, second, isSecond, isSame⟩ := named
            exact apart later member item isItem other isOther entity second found isSecond
              (isId.trans isSame.symm)
          refine inductionHypothesis
            ⟨fun later member => once.inRow later (List.mem_cons_of_mem _ member), restOnce⟩
            (fun later member => nulls later (List.mem_cons_of_mem _ member))
            (fun later member id named => ?_) fun later member item isItem entity found => ?_
          · have untouched := (ready later (List.mem_cons_of_mem _ member) id named).mono
              (Nat.le_add_right cid advance)
            rw [Untouched, same member named]
            exact untouched
          · rw [storedProperties, same member ⟨item, isItem, entity, found, rfl⟩]
            exact copies later (List.mem_cons_of_mem _ member) item isItem entity found

/-- When rows and variables name each entity once and no item follows one of a NULL, both
ways to run a SET clause do every assignment in order. -/
theorem setClause_assigns (items : List UpdateItem) (rows : List InputRow) (heap : EntityHeap)
    (cid : Nat)
    (settled : ∀ id, (storedProperties heap id).isSome = true → Untouched heap cid id)
    (copies : ∀ row ∈ rows, ∀ item ∈ items, ∀ entity,
      row.entities item.entityPosition = some entity →
        storedProperties heap entity.id = some entity.properties)
    (once : NamedOnce items rows) (nulls : ∀ row ∈ rows, NullsLast items row) :
    (setTerminal items cid rows heap).map storedProperties =
        (setFollowed items cid rows heap).map storedProperties ∧
      (setTerminal items cid rows heap).map storedProperties =
        assignRows items rows (storedProperties heap) := by
  have ready : ∀ row ∈ rows, ∀ id, row.Names items id → Untouched heap cid id := by
    rintro row member id ⟨item, isItem, entity, found, rfl⟩
    refine settled entity.id ?_
    rw [copies row member item isItem entity found]
    rfl
  have assigns (advance : Nat) := @setRows_assigns items cid rows heap advance once nulls ready
    copies
  exact ⟨(assigns 0).trans (assigns 1).symm, assigns 0⟩

/-- `SET n.x = value` on a row whose first column is `n`. -/
def setX : UpdateItem := ⟨0, some [120], false, false⟩
def rowX (id : GraphId) (value : Int64) : InputRow :=
  ⟨fun position => if position = 0 then some ⟨id, []⟩ else none, fun _ => some (.integer value)⟩
def bare : EntityHeap := fun _ => [⟨[], 0, none⟩]

theorem setClause_assigns_twoEntities :
    (setTerminal [setX] 1 [rowX 1 1, rowX 2 2] bare).map storedProperties =
        (setFollowed [setX] 1 [rowX 1 1, rowX 2 2] bare).map storedProperties ∧
      (setTerminal [setX] 1 [rowX 1 1, rowX 2 2] bare).map storedProperties =
        assignRows [setX] [rowX 1 1, rowX 2 2] (storedProperties bare) := by
  have single {item : UpdateItem} (isItem : item ∈ [setX]) : item.entityPosition = 0 := by
    rw [List.mem_singleton.mp isItem]
    rfl
  have entityOf {id : GraphId} {value : Int64} {item : UpdateItem} (isItem : item ∈ [setX])
      {entity : Entity}
      (found : (rowX id value).entities item.entityPosition = some entity) : entity = ⟨id, []⟩ := by
    rw [single isItem] at found
    exact (Option.some.inj found).symm
  refine setClause_assigns [setX] [rowX 1 1, rowX 2 2] bare 1
    (fun id _ => ⟨[], [], 0, rfl, by simp [Replaced], Nat.one_pos⟩) ?_ ⟨?_, ?_⟩ fun _ _ => .inl rfl
  · intro row member item isItem entity found
    rcases List.mem_cons.mp member with rfl | later
    · rw [entityOf isItem found]
      rfl
    · rw [List.mem_singleton.mp later] at found
      rw [entityOf isItem found]
      rfl
  · intro row _ first isFirst second isSecond differ
    exact absurd ((single isFirst).trans (single isSecond).symm) differ
  · refine List.pairwise_pair.mpr fun first isFirst second isSecond entity other found isOther => ?_
    rw [entityOf isFirst found, entityOf isSecond isOther]
    decide

/-- `SET m.y = value` on a row with the entity 1 as `n` and as `m` -/
def setY : UpdateItem := ⟨1, some [121], false, false⟩
def rowBoth (value : Int64) : InputRow := ⟨fun _ => some ⟨1, []⟩, fun _ => some (.integer value)⟩

/-- `SET n.x = 1 SET m.y = 1`: the second clause writes its old copy back, without `x`. -/
theorem setClause_old_copy :
    (setFollowed [setX] 1 [rowBoth 1] bare).bind (fun heap =>
        (setTerminal [setY] 2 [rowBoth 1] heap).map (storedProperties · 1)) =
      some (some [([121], .integer 1)]) :=
  rfl

/-- Two rows of one entity: a terminal clause keeps the first value, the other the last. -/
theorem setTerminal_keeps_first :
    ¬ ((setTerminal [setX] 1 [rowX 1 1, rowX 1 2] bare).map (storedProperties · 1) =
        (setFollowed [setX] 1 [rowX 1 1, rowX 1 2] bare).map (storedProperties · 1)) := by
  have terminal : (setTerminal [setX] 1 [rowX 1 1, rowX 1 2] bare).map (storedProperties · 1) =
      some (some [([120], .integer 1)]) := rfl
  have followed : (setFollowed [setX] 1 [rowX 1 1, rowX 1 2] bare).map (storedProperties · 1) =
      some (some [([120], .integer 2)]) := rfl
  rw [terminal, followed]
  intro same
  cases same

end Agreement

end Age.Executor
