import Age.Executor.SetClause

/-!
# One row of the SET clause

The items of a row change its entities in the tuple slot, and with them the paths that they are in.
What reaches the table is decided by a counter that leaves out the items of NULL entities, while the
last index of each position counts them.
-/

namespace Age.Executor

open Agtype

section Slot

/-- `check_path` -/
def checkPath (path : List Entity) (updatedId : GraphId) : Bool :=
  path.any fun elem => elem.id = updatedId

/-- `replace_entity_in_path` -/
def replaceEntityInPath (updated : Entity) (path : List Entity) : List Entity :=
  path.map fun elem => if elem.id = updated.id then updated else elem

/-- `update_all_paths` -/
def updateAllPaths (updated : Entity) (paths : List (List Entity)) : List (List Entity) :=
  paths.map fun path =>
    if checkPath path updated.id then replaceEntityInPath updated path else path

/-- The row, its path values and the tables while the items are done. -/
structure SlotState where
  update : UpdateState
  paths : List (List Entity)

variable (items : List UpdateItem) (cid : Nat) (row : InputRow)

/-- One item of `apply_update_list` with the paths of the row -/
def applySlotItem (index : Nat) (item : UpdateItem) (state : SlotState) : Option SlotState :=
  (applyUpdateItem items cid row index item state.update).map fun update =>
    ⟨update, match update.entities item.entityPosition with
      | some updated => updateAllPaths updated state.paths
      | none => state.paths⟩

def applySlotItems : Nat → List UpdateItem → SlotState → Option SlotState
  | _, [], state => some state
  | index, item :: rest, state =>
      (applySlotItem items cid row index item state).bind (applySlotItems (index + 1) rest)

/-- `apply_update_list` on a row with paths -/
def applySlotList (paths : List (List Entity)) (heap : EntityHeap) : Option SlotState :=
  applySlotItems items cid row 0 items ⟨⟨row.entities, 0, heap⟩, paths⟩

end Slot

section Meaning

/-- What the items of a position make of properties, in the order of the list -/
def targetedProperties (values : Nat → Option AgtypeValue) (position : Nat) :
    Nat → List UpdateItem → Properties → Option Properties
  | _, [], properties => some properties
  | index, item :: rest, properties =>
      if item.entityPosition = position then
        (item.assignment (values index)).bind fun assign =>
          targetedProperties values position (index + 1) rest (assign properties)
      else targetedProperties values position (index + 1) rest properties

variable (items : List UpdateItem) (cid : Nat) (row : InputRow) (heap : EntityHeap)

/-- A scan of the command finds a row of the entity. -/
def Backed (id : GraphId) : Prop := ∃ version ∈ heap id, version.visible cid = true

/-- The version that the scan finds has been replaced by the command itself. -/
def ChangedByCommand (id : GraphId) : Prop :=
  ∃ before old cmin after, heap id = before ++ ⟨old, cmin, some cid⟩ :: after ∧
    (∀ version ∈ before, version.visible cid = false) ∧ cmin < cid

/-- What the versions of an entity can be while a command runs -/
def InOrder (id : GraphId) : Prop :=
  ¬ Backed cid heap id ∨ Untouched heap cid id ∨ ChangedByCommand cid heap id

/-- An element of a path after some items: the entity of the slot if an item changed it. -/
structure Follows (done : List UpdateItem) (entities : Nat → Option Entity) (old new : Entity) :
    Prop where
  sameId : new.id = old.id
  shows : ∀ item ∈ done, ∀ entity, entities item.entityPosition = some entity →
    entity.id = old.id → new = entity
  kept : ¬ row.Names done old.id → new = old

/-- Every item has been applied: in the slot, in the paths and to each entity with a visible row.
NULL entities stay NULL, and no other entity is changed. -/
structure AppliesAll (paths : List (List Entity)) (final : SlotState) : Prop where
  slot : ∀ position entity, row.entities position = some entity → ∃ properties,
    targetedProperties row.values position 0 items entity.properties = some properties ∧
      final.update.entities position = some { entity with properties := properties }
  nulls : ∀ position, row.entities position = none → final.update.entities position = none
  paths : List.Forall₂ (List.Forall₂ (Follows row items final.update.entities)) paths final.paths
  stored : ∀ item ∈ items, ∀ entity, final.update.entities item.entityPosition = some entity →
    Backed cid heap entity.id →
      storedProperties final.update.heap entity.id = some entity.properties
  frame : ∀ id, ¬ row.Names items id → final.update.heap id = heap id

/-- Before the last item of the position there is one of a NULL entity. -/
def NullBefore (position : Nat) : Prop :=
  ∃ before item rest, items = before ++ item :: rest ∧ item.entityPosition = position ∧
    (∀ other ∈ rest, other.entityPosition ≠ position) ∧
      ∃ null ∈ before, row.entities null.entityPosition = none

/-- No item is an error, and the items of an entity with a visible row would change what is stored,
but one of a NULL entity comes before the last of them, or the command has replaced the row. -/
structure LosesUpdate : Prop where
  assigns : ∀ index (item : UpdateItem), items[index]? = some item →
    (row.entities item.entityPosition).isSome = true →
      (item.assignment (row.values index)).isSome = true
  lost : ∃ item ∈ items, ∃ entity properties,
    row.entities item.entityPosition = some entity ∧ Backed cid heap entity.id ∧
      targetedProperties row.values item.entityPosition 0 items entity.properties =
        some properties ∧
        storedProperties heap entity.id ≠ some properties ∧
          (NullBefore items row item.entityPosition ∨ ChangedByCommand cid heap entity.id)

end Meaning

section Run

variable {items before rest : List UpdateItem} {item : UpdateItem} {cid : Nat} {row : InputRow}
  {heap : EntityHeap} {paths : List (List Entity)} {state next : SlotState}

theorem targetedProperties_append (values : Nat → Option AgtypeValue) (position index : Nat)
    (properties : Properties) :
    targetedProperties values position index (before ++ rest) properties =
      (targetedProperties values position index before properties).bind
        (targetedProperties values position (index + before.length) rest) := by
  induction before generalizing index properties with
  | nil => rfl
  | cons first others inductionHypothesis =>
      rw [List.cons_append, targetedProperties, targetedProperties, List.length_cons,
        Nat.add_comm others.length, ← Nat.add_assoc]
      split_ifs
      · cases first.assignment (values index) with
        | none => rfl
        | some assign => exact inductionHypothesis (index + 1) (assign properties)
      · exact inductionHypothesis (index + 1) properties

theorem targetedProperties_concat (values : Nat → Option AgtypeValue) (position : Nat)
    (properties : Properties) :
    targetedProperties values position 0 (before ++ [item]) properties =
      (targetedProperties values position 0 before properties).bind fun shown =>
        if item.entityPosition = position then
          (item.assignment (values before.length)).map fun assign => assign shown
        else some shown := by
  rw [targetedProperties_append, Nat.zero_add]
  congr 1
  funext shown
  rw [targetedProperties]
  split_ifs
  · cases item.assignment (values before.length) <;> rfl
  · rfl

/-- The items of a position whose last one is written: nothing comes after it for the position, and
no item of a NULL entity before it. -/
def WrittenAt (row : InputRow) (before rest : List UpdateItem) (position : Nat) : Prop :=
  ∃ first item later, before = first ++ item :: later ∧ item.entityPosition = position ∧
    (∀ other ∈ later ++ rest, other.entityPosition ≠ position) ∧
      ∀ other ∈ first, (row.entities other.entityPosition).isSome = true

/-- The row and the tables after the items before. -/
structure SlotInv (cid : Nat) (row : InputRow) (heap : EntityHeap) (paths : List (List Entity))
    (before rest : List UpdateItem) (state : SlotState) : Prop where
  slot : ∀ position entity, row.entities position = some entity → ∃ properties,
    targetedProperties row.values position 0 before entity.properties = some properties ∧
      state.update.entities position = some { entity with properties := properties }
  nulls : ∀ position, row.entities position = none → state.update.entities position = none
  paths : List.Forall₂ (List.Forall₂ (Follows row before state.update.entities)) paths state.paths
  lidx : state.update.lidx =
    (before.filter fun item => (row.entities item.entityPosition).isSome).length
  written : ∀ position entity, state.update.entities position = some entity →
    WrittenAt row before rest position →
      updateVersions cid entity.properties (heap entity.id) = some (state.update.heap entity.id)
  kept : ∀ id, (∀ position entity, row.entities position = some entity → entity.id = id →
    ¬ WrittenAt row before rest position) → state.update.heap id = heap id

/-- The counter meets the last index of a position at its last item, if no item of a NULL came. -/
theorem reaches_iff (split : items = before ++ item :: rest) {lidx : Nat}
    (counted : lidx =
      (before.filter fun item => (row.entities item.entityPosition).isSome).length) :
    (items.length = 1 ∨ lastUpdateIndex item.entityPosition items 0 0 = lidx) ↔
      (∀ other ∈ rest, other.entityPosition ≠ item.entityPosition) ∧
        ∀ other ∈ before, (row.entities other.entityPosition).isSome = true := by
  rw [← lastUpdateIndex_eq split, ← List.length_filter_eq_length_iff, ← counted]
  have fewer := List.length_filter_le
    (fun item : UpdateItem => (row.entities item.entityPosition).isSome) before
  rw [← counted] at fewer
  have beyond := le_lastUpdateIndex split
  constructor
  · rintro (single | same)
    · rw [split, List.length_append, List.length_cons] at single
      have nothing : before = [] := List.length_eq_zero_iff.1 (by omega)
      have nothingLater : rest = [] := List.length_eq_zero_iff.1 (by omega)
      rw [lastUpdateIndex_eq split, counted]
      simp [nothing, nothingLater]
    · omega
  · rintro ⟨last, all⟩
    exact .inr (last.trans all.symm)

theorem writtenAt_concat {position : Nat} :
    WrittenAt row (before ++ [item]) rest position ↔ WrittenAt row before (item :: rest) position ∨
      item.entityPosition = position ∧ (∀ other ∈ rest, other.entityPosition ≠ position) ∧
        ∀ other ∈ before, (row.entities other.entityPosition).isSome = true := by
  constructor
  · rintro ⟨first, found, later, isSplit, isPosition, last, all⟩
    rcases List.eq_nil_or_concat later with rfl | ⟨later, final, rfl⟩
    · obtain ⟨rfl, same⟩ := List.append_inj' isSplit rfl
      obtain rfl := (List.cons.inj same).1
      exact .inr ⟨isPosition, last, all⟩
    · rw [List.concat_eq_append, ← List.cons_append, ← List.append_assoc] at isSplit
      obtain ⟨rfl, same⟩ := List.append_inj' isSplit rfl
      obtain rfl := (List.cons.inj same).1
      rw [List.concat_eq_append, List.append_assoc, List.singleton_append] at last
      exact .inl ⟨first, found, later, rfl, isPosition, last, all⟩
  · rintro (⟨first, found, later, rfl, isPosition, last, all⟩ | ⟨isPosition, last, all⟩)
    · refine ⟨first, found, later ++ [item], by simp, isPosition, ?_, all⟩
      rwa [List.append_assoc, List.singleton_append]
    · exact ⟨before, item, [], rfl, isPosition, last, all⟩

theorem not_writtenAt : ¬ WrittenAt row before (item :: rest) item.entityPosition := by
  rintro ⟨_, _, later, _, _, last, _⟩
  exact last item (List.mem_append_right _ List.mem_cons_self) rfl

theorem names_concat {id : GraphId} (named : row.Names before id) :
    row.Names (before ++ [item]) id := by
  obtain ⟨other, member, found⟩ := named
  exact ⟨other, List.mem_append_left _ member, found⟩

theorem updateAllPaths_eq (updated : Entity) (paths : List (List Entity)) :
    updateAllPaths updated paths = paths.map (replaceEntityInPath updated) := by
  refine List.map_congr_left fun path _ => ?_
  split_ifs with inside
  · rfl
  · rw [checkPath, Bool.not_eq_true, List.any_eq_false] at inside
    refine (List.map_id' path).symm.trans (List.map_congr_left fun elem isElem => ?_)
    rw [if_neg (by simpa using inside elem isElem)]

/-- The entity of the slot has the id that the row came with. -/
theorem SlotInv.id (inv : SlotInv cid row heap paths before rest state) {position : Nat}
    {entity : Entity} (found : state.update.entities position = some entity) :
    ∃ start, row.entities position = some start ∧ start.id = entity.id := by
  cases inRow : row.entities position with
  | none =>
      rw [inv.nulls position inRow] at found
      cases found
  | some start =>
      obtain ⟨properties, _, inSlot⟩ := inv.slot position start inRow
      obtain rfl := Option.some.inj (inSlot.symm.trans found)
      exact ⟨start, rfl, rfl⟩

theorem SlotInv.skip (inv : SlotInv cid row heap paths before (item :: rest) state)
    (isNull : row.entities item.entityPosition = none) :
    SlotInv cid row heap paths (before ++ [item]) rest state := by
  have other {position : Nat} {entity : Entity}
      (found : row.entities position = some entity) : item.entityPosition ≠ position := by
    rintro rfl
    rw [isNull] at found
    cases found
  refine ⟨fun position entity found => ?_, inv.nulls, ?_, ?_, fun position entity found written => ?_,
    fun id unwritten => ?_⟩
  · obtain ⟨properties, targeted, inSlot⟩ := inv.slot position entity found
    refine ⟨properties, ?_, inSlot⟩
    rw [targetedProperties_concat, targeted, Option.bind_some, if_neg (other found)]
  · refine inv.paths.imp fun path shown same => same.imp fun old new follows =>
      ⟨follows.sameId, fun changed member entity found isId => ?_, fun unnamed =>
        follows.kept fun named => unnamed (names_concat named)⟩
    rcases List.mem_append.1 member with earlier | here
    · exact follows.shows changed earlier entity found isId
    · rw [List.mem_singleton.1 here, inv.nulls _ isNull] at found
      cases found
  · rw [List.filter_append, List.filter_cons_of_neg (by simp [isNull]), List.filter_nil,
      List.append_nil]
    exact inv.lidx
  · obtain ⟨start, inRow, _⟩ := inv.id found
    rcases writtenAt_concat.1 written with earlier | ⟨here, _⟩
    · exact inv.written position entity found earlier
    · exact absurd here (other inRow)
  · exact inv.kept id fun position entity found isId earlier =>
      unwritten position entity found isId (writtenAt_concat.2 (.inl earlier))

section Apply

variable {entity : Entity} {assign : Properties → Properties}

/-- The entity of the slot that an item leaves -/
def assigned (entity : Entity) (assign : Properties → Properties) : Entity :=
  { entity with properties := assign entity.properties }

/-- A path follows the item. -/
theorem SlotInv.replace (inv : SlotInv cid row heap paths before (item :: rest) state)
    (distinct : ∀ first second, first ≠ second → ∀ entity other,
      row.entities first = some entity → row.entities second = some other → entity.id ≠ other.id)
    (inSlot : state.update.entities item.entityPosition = some entity) :
    List.Forall₂ (List.Forall₂ (Follows row (before ++ [item]) (Function.update
      state.update.entities item.entityPosition (some (assigned entity assign))))) paths
        (updateAllPaths (assigned entity assign) state.paths) := by
  rw [updateAllPaths_eq, List.forall₂_map_right_iff]
  refine inv.paths.imp fun path shown same => ?_
  rw [replaceEntityInPath, List.forall₂_map_right_iff]
  refine same.imp fun old new follows => ⟨?_, fun changed member found isFound isId => ?_,
    fun unnamed => ?_⟩
  · split_ifs with isEntity
    · exact isEntity.symm.trans follows.sameId
    · exact follows.sameId
  · by_cases here : changed.entityPosition = item.entityPosition
    · rw [here, Function.update_self] at isFound
      obtain rfl := Option.some.inj isFound
      rw [if_pos (follows.sameId.trans isId.symm)]
    · rw [Function.update_of_ne here] at isFound
      obtain ⟨start, inRow, isStart⟩ := inv.id inSlot
      obtain ⟨other, isOther, sameOther⟩ := inv.id isFound
      have differs : found.id ≠ entity.id := by
        rw [← sameOther, ← isStart]
        exact distinct _ _ here other start isOther inRow
      have notHere : ¬ new.id = (assigned entity assign).id := fun same =>
        differs (isId.trans (follows.sameId.symm.trans same))
      rw [if_neg notHere]
      rcases List.mem_append.1 member with earlier | isItem
      · exact follows.shows changed earlier found isFound isId
      · exact absurd (congrArg _ (List.mem_singleton.1 isItem)) here
  · obtain ⟨start, inRow, isStart⟩ := inv.id inSlot
    rw [if_neg fun same => unnamed ⟨item, List.mem_append_right _ List.mem_cons_self, start, inRow,
      isStart.trans (same.symm.trans follows.sameId)⟩]
    exact follows.kept fun named => unnamed (names_concat named)

/-- An item of an entity: what is written is what the slot shows. -/
theorem SlotInv.apply (inv : SlotInv cid row heap paths before (item :: rest) state)
    (distinct : ∀ first second, first ≠ second → ∀ entity other,
      row.entities first = some entity → row.entities second = some other → entity.id ≠ other.id)
    (inSlot : state.update.entities item.entityPosition = some entity)
    (isAssign : item.assignment (row.values before.length) = some assign)
    {after : EntityHeap}
    (writes : (∀ other ∈ rest, other.entityPosition ≠ item.entityPosition) →
      (∀ other ∈ before, (row.entities other.entityPosition).isSome = true) →
        ∃ versions, updateVersions cid (assign entity.properties) (state.update.heap entity.id) =
          some versions ∧ after = Function.update state.update.heap entity.id versions)
    (keeps : ¬ ((∀ other ∈ rest, other.entityPosition ≠ item.entityPosition) ∧
      ∀ other ∈ before, (row.entities other.entityPosition).isSome = true) →
        after = state.update.heap) :
    SlotInv cid row heap paths (before ++ [item]) rest
      ⟨⟨Function.update state.update.entities item.entityPosition (some (assigned entity assign)),
        state.update.lidx + 1, after⟩, updateAllPaths (assigned entity assign) state.paths⟩ := by
  obtain ⟨start, inRow, isStart⟩ := inv.id inSlot
  have elsewhere {position : Nat} {found : Entity} (isFound : row.entities position = some found)
      (differs : position ≠ item.entityPosition) : found.id ≠ entity.id := by
    rw [← isStart]
    exact distinct _ _ differs found start isFound inRow
  have kept : state.update.heap entity.id = heap entity.id := by
    refine inv.kept _ fun position found isFound isId => ?_
    by_cases here : position = item.entityPosition
    · rw [here]
      exact not_writtenAt
    · exact absurd isId (elsewhere isFound here)
  have outside {id : GraphId} (differs : id ≠ entity.id) : after id = state.update.heap id := by
    by_cases reached : (∀ other ∈ rest, other.entityPosition ≠ item.entityPosition) ∧
        ∀ other ∈ before, (row.entities other.entityPosition).isSome = true
    · obtain ⟨versions, _, rfl⟩ := writes reached.1 reached.2
      exact Function.update_of_ne differs _ _
    · rw [keeps reached]
  refine ⟨fun position found isFound => ?_, fun position isNull => ?_, inv.replace distinct inSlot,
    ?_, fun position found isFound written => ?_, fun id unwritten => ?_⟩
  · obtain ⟨properties, targeted, shown⟩ := inv.slot position found isFound
    rw [targetedProperties_concat, targeted, Option.bind_some, isAssign]
    by_cases here : position = item.entityPosition
    · subst here
      obtain rfl := Option.some.inj (shown.symm.trans inSlot)
      exact ⟨_, if_pos rfl, Function.update_self _ _ _⟩
    · refine ⟨properties, if_neg (Ne.symm here), ?_⟩
      exact (Function.update_of_ne here _ _).trans shown
  · have differs : position ≠ item.entityPosition := by
      rintro rfl
      rw [inRow] at isNull
      cases isNull
    exact (Function.update_of_ne differs _ _).trans (inv.nulls position isNull)
  · rw [List.filter_append, List.filter_cons_of_pos (by simp [inRow]), List.filter_nil,
      List.length_append, List.length_singleton, inv.lidx]
  · by_cases here : position = item.entityPosition
    · subst here
      dsimp only at isFound ⊢
      rw [Function.update_self] at isFound
      obtain rfl := Option.some.inj isFound
      rcases writtenAt_concat.1 written with earlier | ⟨_, last, all⟩
      · exact absurd earlier not_writtenAt
      · obtain ⟨versions, isWritten, rfl⟩ := writes last all
        rw [kept] at isWritten
        refine isWritten.trans (congrArg some ?_)
        exact (Function.update_self entity.id versions state.update.heap).symm
    · dsimp only at isFound ⊢
      rw [Function.update_of_ne here] at isFound
      obtain ⟨other, isOther, sameOther⟩ := inv.id isFound
      rw [outside (sameOther ▸ elsewhere isOther here)]
      refine inv.written position found isFound ?_
      exact (writtenAt_concat.1 written).resolve_right fun isItem => here isItem.1.symm
  · have previous : state.update.heap id = heap id :=
      inv.kept id fun position found isFound isId earlier =>
        unwritten position found isFound isId (writtenAt_concat.2 (.inl earlier))
    by_cases isEntity : id = entity.id
    · have unreached : ¬ ((∀ other ∈ rest, other.entityPosition ≠ item.entityPosition) ∧
          ∀ other ∈ before, (row.entities other.entityPosition).isSome = true) := fun reached =>
        unwritten item.entityPosition start inRow (isStart.trans isEntity.symm)
          (writtenAt_concat.2 (.inr ⟨rfl, reached⟩))
      rw [← previous, keeps unreached]
    · exact (outside isEntity).trans previous

end Apply

theorem SlotInv.step (inv : SlotInv cid row heap paths before (item :: rest) state)
    (split : items = before ++ item :: rest)
    (distinct : ∀ first second, first ≠ second → ∀ entity other,
      row.entities first = some entity → row.entities second = some other → entity.id ≠ other.id)
    (ran : applySlotItem items cid row before.length item state = some next) :
    SlotInv cid row heap paths (before ++ [item]) rest next := by
  obtain ⟨update, isUpdate, rfl⟩ := Option.map_eq_some_iff.1 ran
  rw [applyUpdateItem] at isUpdate
  cases inSlot : state.update.entities item.entityPosition with
  | none =>
      rw [inSlot] at isUpdate
      obtain rfl := Option.some.inj isUpdate
      rw [inSlot]
      refine inv.skip ?_
      cases inRow : row.entities item.entityPosition with
      | none => rfl
      | some start =>
          obtain ⟨properties, _, shown⟩ := inv.slot _ start inRow
          rw [inSlot] at shown
          cases shown
  | some entity =>
      rw [inSlot] at isUpdate
      dsimp only at isUpdate
      have reaches := reaches_iff split inv.lidx
      cases isAssign : item.assignment (row.values before.length) with
      | none =>
          rw [isAssign] at isUpdate
          cases isUpdate
      | some assign =>
          rw [isAssign] at isUpdate
          dsimp only at isUpdate
          split_ifs at isUpdate with reached
          · obtain ⟨versions, isWritten, rfl⟩ := Option.map_eq_some_iff.1 isUpdate
            dsimp only
            rw [Function.update_self]
            exact inv.apply distinct inSlot isAssign (fun _ _ => ⟨versions, isWritten, rfl⟩)
              fun unreached => absurd (reaches.1 reached) unreached
          · obtain rfl := Option.some.inj isUpdate
            dsimp only
            rw [Function.update_self]
            exact inv.apply distinct inSlot isAssign
              (fun last all => absurd (reaches.2 ⟨last, all⟩) reached) fun _ => rfl

/-- The rest of the items keeps the row and the tables together. -/
theorem SlotInv.run (inv : SlotInv cid row heap paths before rest state)
    (split : items = before ++ rest)
    (distinct : ∀ first second, first ≠ second → ∀ entity other,
      row.entities first = some entity → row.entities second = some other → entity.id ≠ other.id)
    (ran : applySlotItems items cid row before.length rest state = some next) :
    SlotInv cid row heap paths items [] next := by
  induction rest generalizing before state with
  | nil =>
      obtain rfl := Option.some.inj ran
      rw [split, List.append_nil]
      exact inv
  | cons item rest inductionHypothesis =>
      obtain ⟨middle, first, later⟩ := Option.bind_eq_some_iff.1 ran
      refine inductionHypothesis (inv.step split distinct first) (by rw [split, List.append_cons]) ?_
      rw [List.length_append, List.length_singleton]
      exact later

theorem slotInv_start : SlotInv cid row heap paths [] items ⟨⟨row.entities, 0, heap⟩, paths⟩ := by
  refine ⟨fun position entity found => ⟨_, rfl, found⟩, fun position isNull => isNull, ?_, rfl,
    fun position entity _ written => ?_, fun id _ => rfl⟩
  · refine List.forall₂_same.2 fun path _ => List.forall₂_same.2 fun elem _ =>
      ⟨rfl, fun item member => absurd member List.not_mem_nil, fun _ => rfl⟩
  · obtain ⟨first, item, later, isSplit, _⟩ := written
    exact absurd isSplit.symm (by simp)

theorem updateVersions_of_unseen {versions : List TupleVersion} (properties : Properties)
    (unseen : ∀ version ∈ versions, version.visible cid = false) :
    updateVersions cid properties versions = some versions := by
  induction versions with
  | nil => rfl
  | cons version rest inductionHypothesis =>
      rw [updateVersions, unseen version List.mem_cons_self, if_neg Bool.false_ne_true,
        inductionHypothesis fun other member => unseen other (List.mem_cons_of_mem _ member)]
      rfl

theorem updateVersions_of_changed {id : GraphId} (properties : Properties)
    (changed : ChangedByCommand cid heap id) :
    updateVersions cid properties (heap id) = some (heap id) := by
  obtain ⟨before, old, cmin, after, versions, unseen, early⟩ := changed
  rw [versions]
  clear versions
  induction before with
  | nil =>
      rw [List.nil_append, updateVersions, if_pos (by simp [TupleVersion.visible, early])]
      exact if_pos rfl
  | cons version rest inductionHypothesis =>
      rw [List.cons_append, updateVersions, unseen version List.mem_cons_self,
        if_neg Bool.false_ne_true,
        inductionHypothesis fun other member => unseen other (List.mem_cons_of_mem _ member)]
      rfl

theorem updateVersions_of_inOrder {id : GraphId} (properties : Properties)
    (inOrder : InOrder cid heap id) :
    ∃ versions, updateVersions cid properties (heap id) = some versions := by
  rcases inOrder with unbacked | ⟨before, old, cmin, versions, replaced, early⟩ | changed
  · refine ⟨_, updateVersions_of_unseen properties fun version member => ?_⟩
    by_contra seen
    exact unbacked ⟨version, member, by simpa using seen⟩
  · rw [versions]
    exact ⟨_, updateVersions_live replaced early⟩
  · exact ⟨_, updateVersions_of_changed properties changed⟩

/-- Without an error of an item, the items of a row are done. -/
theorem SlotInv.succeeds (inv : SlotInv cid row heap paths before rest state)
    (split : items = before ++ rest)
    (distinct : ∀ first second, first ≠ second → ∀ entity other,
      row.entities first = some entity → row.entities second = some other → entity.id ≠ other.id)
    (inOrder : ∀ id, row.Names items id → InOrder cid heap id)
    (assigns : ∀ index (item : UpdateItem), items[index]? = some item →
      (row.entities item.entityPosition).isSome = true →
        (item.assignment (row.values index)).isSome = true) :
    ∃ final, applySlotItems items cid row before.length rest state = some final := by
  induction rest generalizing before state with
  | nil => exact ⟨state, rfl⟩
  | cons item rest inductionHypothesis =>
      have done : ∃ next, applySlotItem items cid row before.length item state = some next := by
        rw [applySlotItem, applyUpdateItem]
        cases inSlot : state.update.entities item.entityPosition with
        | none => exact ⟨_, rfl⟩
        | some entity =>
            obtain ⟨start, inRow, isStart⟩ := inv.id inSlot
            obtain ⟨assign, isAssign⟩ := Option.isSome_iff_exists.1
              (assigns before.length item (by simp [split]) (by rw [inRow]; rfl))
            dsimp only
            rw [isAssign]
            dsimp only
            split_ifs
            · have kept : state.update.heap entity.id = heap entity.id := by
                refine inv.kept _ fun position found isFound isId => ?_
                by_cases here : position = item.entityPosition
                · rw [here]
                  exact not_writtenAt
                · exact absurd (isId.trans isStart.symm)
                    (distinct _ _ here found start isFound inRow)
              obtain ⟨versions, written⟩ := updateVersions_of_inOrder (assign entity.properties)
                (inOrder entity.id ⟨item, by simp [split], start, inRow, isStart⟩)
              rw [kept, written]
              exact ⟨_, rfl⟩
            · exact ⟨_, rfl⟩
      obtain ⟨next, isNext⟩ := done
      have later := inductionHypothesis (inv.step split distinct isNext)
        (by rw [split, List.append_cons])
      rw [List.length_append, List.length_singleton] at later
      rw [applySlotItems, isNext]
      exact later

theorem exists_last {position : Nat} (targeted : ∃ item ∈ items, item.entityPosition = position) :
    ∃ before item rest, items = before ++ item :: rest ∧ item.entityPosition = position ∧
      ∀ other ∈ rest, other.entityPosition ≠ position := by
  induction items with
  | nil =>
      obtain ⟨item, member, _⟩ := targeted
      cases member
  | cons first others inductionHypothesis =>
      by_cases later : ∃ item ∈ others, item.entityPosition = position
      · obtain ⟨before, item, rest, rfl, isPosition, last⟩ := inductionHypothesis later
        exact ⟨first :: before, item, rest, rfl, isPosition, last⟩
      · refine ⟨[], first, others, rfl, ?_, fun other member same => later ⟨other, member, same⟩⟩
        obtain ⟨item, member, isPosition⟩ := targeted
        rcases List.mem_cons.1 member with rfl | inOthers
        · exact isPosition
        · exact absurd ⟨item, inOthers, isPosition⟩ later

theorem writtenAt_or_nullBefore {position : Nat}
    (targeted : ∃ item ∈ items, item.entityPosition = position) :
    WrittenAt row items [] position ∨ NullBefore items row position := by
  obtain ⟨before, item, rest, isSplit, isPosition, last⟩ := exists_last targeted
  by_cases null : ∃ other ∈ before, row.entities other.entityPosition = none
  · exact .inr ⟨before, item, rest, isSplit, isPosition, last, null⟩
  · refine .inl ⟨before, item, rest, isSplit, isPosition, by rwa [List.append_nil],
      fun other member => ?_⟩
    rw [Option.isSome_iff_ne_none]
    exact fun isNull => null ⟨other, member, isNull⟩

theorem not_writtenAt_of_nullBefore {position : Nat} (null : NullBefore items row position) :
    ¬ WrittenAt row items [] position := by
  rintro ⟨first, found, later, isSplit, rfl, last, all⟩
  obtain ⟨before, item, rest, otherSplit, isPosition, otherLast, other, member, isNull⟩ := null
  rw [List.append_nil] at last
  have sameLength : before.length = first.length := by
    rw [← (lastUpdateIndex_eq isSplit).2 last, ← isPosition]
    exact ((lastUpdateIndex_eq otherSplit).2 (isPosition ▸ otherLast)).symm
  obtain ⟨rfl, _⟩ := List.append_inj (otherSplit.symm.trans isSplit) sameLength
  have isSome := all other member
  rw [isNull] at isSome
  cases isSome

/-- A row that has come through had no error. -/
theorem SlotInv.assigns (inv : SlotInv cid row heap paths items [] state) (index : Nat)
    (item : UpdateItem) (at_index : items[index]? = some item)
    (isSome : (row.entities item.entityPosition).isSome = true) :
    (item.assignment (row.values index)).isSome = true := by
  obtain ⟨entity, found⟩ := Option.isSome_iff_exists.1 isSome
  obtain ⟨properties, targeted, _⟩ := inv.slot _ entity found
  obtain ⟨inside, isItem⟩ := List.getElem?_eq_some_iff.1 at_index
  have split : items = items.take index ++ item :: items.drop (index + 1) := by
    rw [← isItem, ← List.drop_eq_getElem_cons inside, List.take_append_drop]
  rw [split, targetedProperties_append, List.length_take_of_le inside.le, Nat.zero_add] at targeted
  obtain ⟨shown, _, later⟩ := Option.bind_eq_some_iff.1 targeted
  rw [targetedProperties, if_pos rfl] at later
  obtain ⟨assign, isAssign, _⟩ := Option.bind_eq_some_iff.1 later
  rw [isAssign]
  rfl

theorem SlotInv.heap_of_lost (inv : SlotInv cid row heap paths items [] state)
    (distinct : ∀ first second, first ≠ second → ∀ entity other,
      row.entities first = some entity → row.entities second = some other → entity.id ≠ other.id)
    {position : Nat} {entity : Entity} (inRow : row.entities position = some entity)
    (lost : NullBefore items row position ∨ ChangedByCommand cid heap entity.id) :
    state.update.heap entity.id = heap entity.id := by
  by_cases written : WrittenAt row items [] position
  · obtain ⟨properties, _, inSlot⟩ := inv.slot position entity inRow
    have isWritten := inv.written position _ inSlot written
    rcases lost with null | changed
    · exact absurd written (not_writtenAt_of_nullBefore null)
    · rw [updateVersions_of_changed _ changed] at isWritten
      exact (Option.some.inj isWritten).symm
  · refine inv.kept _ fun other found isFound isId => ?_
    by_cases here : other = position
    · rw [here]
      exact written
    · exact absurd isId (distinct _ _ here found entity isFound inRow)

/-- A row of a SET clause has every item applied exactly if no update of it is lost. -/
theorem applySlotList_appliesAll_iff (items : List UpdateItem) (cid : Nat) (row : InputRow)
    (heap : EntityHeap) (paths : List (List Entity))
    (distinct : ∀ first second, first ≠ second → ∀ entity other,
      row.entities first = some entity → row.entities second = some other → entity.id ≠ other.id)
    (inOrder : ∀ id, row.Names items id → InOrder cid heap id) :
    (∀ final, applySlotList items cid row paths heap = some final →
      AppliesAll items cid row heap paths final) ↔ ¬ LosesUpdate items cid row heap := by
  have reached {final : SlotState} (ran : applySlotList items cid row paths heap = some final) :
      SlotInv cid row heap paths items [] final := slotInv_start.run rfl distinct ran
  constructor
  · rintro applies ⟨assigns, item, isItem, entity, properties, inRow, backed, targeted, differ, lost⟩
    obtain ⟨final, ran⟩ := slotInv_start.succeeds rfl distinct inOrder assigns
    obtain ⟨shown, isShown, inSlot⟩ := (reached ran).slot _ entity inRow
    obtain rfl := Option.some.inj (targeted.symm.trans isShown)
    have stored := (applies final ran).stored item isItem _ inSlot backed
    rw [storedProperties, (reached ran).heap_of_lost distinct inRow lost] at stored
    exact differ stored
  · intro keeps final ran
    have inv := reached ran
    refine ⟨inv.slot, inv.nulls, inv.paths, fun item isItem entity inSlot backed => ?_,
      fun id unnamed => inv.kept id fun position entity found isId written => ?_⟩
    · obtain ⟨start, inRow, isStart⟩ := inv.id inSlot
      obtain ⟨properties, targeted, shown⟩ := inv.slot _ start inRow
      obtain rfl := Option.some.inj (shown.symm.trans inSlot)
      dsimp only at backed ⊢
      -- what is not written was stored before
      have unchanged (lost : NullBefore items row item.entityPosition ∨
          ChangedByCommand cid heap start.id) :
          storedProperties final.update.heap start.id = some properties := by
        rw [storedProperties, inv.heap_of_lost distinct inRow lost]
        by_contra differ
        exact keeps ⟨inv.assigns, item, isItem, start, properties, inRow, backed, targeted, differ,
          lost⟩
      rcases writtenAt_or_nullBefore ⟨item, isItem, rfl⟩ with written | null
      · rcases inOrder start.id ⟨item, isItem, start, inRow, rfl⟩ with unbacked | live | changed
        · exact absurd backed unbacked
        · obtain ⟨before, old, cmin, versions, replaced, early⟩ := live
          have isWritten := inv.written _ _ inSlot written
          rw [versions, updateVersions_live replaced early] at isWritten
          have stored := storedProperties_update heap replaced old properties cmin start.id
          rw [storedProperties, Function.update_self] at stored
          rw [storedProperties, ← Option.some.inj isWritten]
          exact stored
        · exact unchanged (.inr changed)
      · exact unchanged (.inl null)
    · obtain ⟨first, item, later, isSplit, rfl, _⟩ := written
      exact unnamed ⟨item, by simp [isSplit], entity, found, isId⟩

/-- `SET a.x = 1, n.x = 1` on a row where `a` is NULL -/
def optionalRow : InputRow :=
  ⟨fun position => if position = 1 then some ⟨7, []⟩ else none, fun _ => some (.integer 1)⟩

def setBothX : List UpdateItem := [⟨0, some [120], false, false⟩, ⟨1, some [120], false, false⟩]

theorem applySlotList_loses : ¬ ∀ final, applySlotList setBothX 1 optionalRow [] bare = some final →
    AppliesAll setBothX 1 optionalRow bare [] final := by
  intro applies
  have ran : (applySlotList setBothX 1 optionalRow [] bare).isSome = true := rfl
  obtain ⟨final, isFinal⟩ := Option.isSome_iff_exists.1 ran
  have slot : (applySlotList setBothX 1 optionalRow [] bare).map
      (fun final => final.update.entities 1) = some (some ⟨7, [([120], .integer 1)]⟩) := rfl
  have heap : (applySlotList setBothX 1 optionalRow [] bare).map
      (fun final => storedProperties final.update.heap 7) = some (some []) := rfl
  rw [isFinal] at slot heap
  have stored := (applies final isFinal).stored ⟨1, some [120], false, false⟩ (by simp [setBothX]) _
    (Option.some.inj slot) ⟨⟨[], 0, none⟩, List.mem_cons_self, rfl⟩
  have unchanged : storedProperties final.update.heap 7 = some [] := Option.some.inj heap
  have same := unchanged.symm.trans stored
  cases same

theorem applySlotList_appliesAll_single :
    (∀ final, applySlotList [setX] 1 (rowX 1 1) [[⟨1, []⟩]] bare = some final →
      AppliesAll [setX] 1 (rowX 1 1) bare [[⟨1, []⟩]] final) ↔
        ¬ LosesUpdate [setX] 1 (rowX 1 1) bare := by
  refine applySlotList_appliesAll_iff [setX] 1 (rowX 1 1) bare [[⟨1, []⟩]]
    (fun first second differ entity other isEntity isOther => ?_) fun id _ =>
      .inr (.inl ⟨[], [], 0, rfl, by simp [Replaced], Nat.one_pos⟩)
  have isZero {position : Nat} {found : Entity}
      (isFound : (rowX 1 1).entities position = some found) : position = 0 := by
    by_contra other
    rw [rowX] at isFound
    dsimp only at isFound
    rw [if_neg other] at isFound
    cases isFound
  exact absurd ((isZero isEntity).trans (isZero isOther).symm) differ

end Run

end Age.Executor
