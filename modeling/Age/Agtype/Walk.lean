import Age.Lib.ThreeWay

/-!
# Comparing walks with one step of lookahead

The comparator reads two trees as walks: a map or a list is opened, scalars and
keys are met, and containers are closed.  Walks are compared symbol by symbol
in the order of the symbols, with one exception: where a list meets a map, the
list stands for whatever comes first in it.  This module finds out how far that
comparison is an order.
-/

namespace Age.Agtype

open Lib

/-- What the comparator reads at one step of a walk. -/
structure Sym where
  rank : Nat
  numbers : List Int
  text : Bytes
  deriving DecidableEq, Repr

namespace Sym

def closing : Sym := ⟨0, [], []⟩

def openMap : Sym := ⟨4, [], []⟩

def openList : Sym := ⟨5, [], []⟩

/-- Paths, edges and vertices come before maps. -/
def isEntity (s : Sym) : Bool := 0 < s.rank && s.rank < 4

/-- Symbols with these two ranks carry nothing else. -/
structure Proper (s : Sym) : Prop where
  closing : s.rank = 0 → s = closing
  openMap : s.rank = 4 → s = openMap
  openList : s.rank = 5 → s = openList

/-- The order of the symbols: rank, then numbers, then text. -/
def compare (textCmp : Bytes → Bytes → Int) (s t : Sym) : Int :=
  thenBy (compareBy s.rank t.rank)
    (thenBy (compareLists compareBy s.numbers t.numbers)
      (textCmp s.text t.text))

theorem threeWay_compare {textCmp : Bytes → Bytes → Int}
    (lawful : ThreeWay textCmp) : ThreeWay (compare textCmp) := by
  have tuples := ThreeWay.prod (ThreeWay.compareBy (α := Nat))
    (ThreeWay.prod (ThreeWay.lists (ThreeWay.compareBy (α := Int))) lawful)
  refine tuples.comap (fun s : Sym => (s.rank, s.numbers, s.text)) ?_
  rintro ⟨rank, numbers, text⟩ ⟨rank', numbers', text'⟩ same
  simpa using same

theorem compare_of_rank_lt {textCmp : Bytes → Bytes → Int} {s t : Sym}
    (less : s.rank < t.rank) : compare textCmp s t = -1 := by
  simp [compare, compareBy, thenBy, less.ne, less.not_gt]

theorem compare_of_rank_gt {textCmp : Bytes → Bytes → Int} {s t : Sym}
    (greater : t.rank < s.rank) : compare textCmp s t = 1 := by
  simp [compare, compareBy, thenBy, greater.ne', greater]

theorem isEntity_rank {s : Sym} (entity : s.isEntity = true) :
    0 < s.rank ∧ s.rank < 4 := by
  simpa [isEntity] using entity

end Sym

/-- A walk is the list of the symbols still to be read. -/
abbrev Walk := List Sym

namespace Walk

/-- The rank a list gets from what it starts with.  A list that ends at once
keeps its own rank. -/
def headRank : Walk → Nat
  | [] => 5
  | s :: _ => if s.rank = 0 then 5 else s.rank

/-- Symbol by symbol, with a list read as its first element where it meets a
map. -/
def compare (textCmp : Bytes → Bytes → Int) : Walk → Walk → Int
  | [], [] => 0
  | [], _ :: _ => -1
  | _ :: _, [] => 1
  | s :: a, t :: b =>
      if s.rank = 5 ∧ t.rank = 4 then if headRank a < 4 then -1 else 1
      else if s.rank = 4 ∧ t.rank = 5 then if 4 < headRank b then -1 else 1
      else thenBy (Sym.compare textCmp s t) (compare textCmp a b)

/-- After `common`, the walk opens a map. -/
def MapAt (common walk : Walk) : Prop :=
  ∃ rest, walk = common ++ .openMap :: rest

/-- After `common`, the walk opens a list and meets no element of it. -/
def EmptyListAt (common walk : Walk) : Prop :=
  ∃ rest, (∀ s ∈ rest.head?, s = .closing) ∧
    walk = common ++ .openList :: rest

/-- After `common`, the walk opens a list whose first element is a map. -/
def MapListAt (common walk : Walk) : Prop :=
  ∃ rest, walk = common ++ .openList :: .openMap :: rest

/-- After `common`, the walk opens a list whose first element is a vertex, an
edge or a path. -/
def EntityListAt (common walk : Walk) : Prop :=
  ∃ entity rest, entity.isEntity = true ∧
    walk = common ++ .openList :: entity :: rest

/-- After `common`, the walk opens a list whose first element is again a list,
and that one starts with a vertex, an edge or a path. -/
def NestedEntityListAt (common walk : Walk) : Prop :=
  ∃ entity rest, entity.isEntity = true ∧
    walk = common ++ .openList :: .openList :: entity :: rest

/-- One walk has a map where the other has a list that starts with a map. -/
def Entangled (a b : Walk) : Prop :=
  ∃ common, (MapAt common a ∧ MapListAt common b) ∨
    (MapListAt common a ∧ MapAt common b)

/-- In one place the three walks have a map, an empty list and a list of
entities, in an order that closes the cycle
`map < empty list < list of entities < map`.  A list of maps may take the place
of the list of entities, and is not above the map either. -/
def Cyclic (a b c : Walk) : Prop :=
  ∃ common,
    (MapAt common a ∧ EmptyListAt common b ∧ EntityListAt common c) ∨
    (EmptyListAt common a ∧ EntityListAt common b ∧ MapAt common c) ∨
    (EntityListAt common a ∧ MapAt common b ∧ EmptyListAt common c) ∨
    (MapAt common a ∧ EmptyListAt common b ∧ MapListAt common c) ∨
    (MapAt common a ∧ NestedEntityListAt common b ∧ MapListAt common c)

/-- The walk's symbols are determined by their rank where they carry nothing. -/
def Proper (walk : Walk) : Prop := ∀ s ∈ walk, s.Proper

theorem Proper.head {s : Sym} {a : Walk} (proper : Proper (s :: a)) : s.Proper :=
  proper s (by simp)

theorem Proper.tail {s : Sym} {a : Walk} (proper : Proper (s :: a)) : Proper a :=
  fun t membership => proper t (by simp [membership])

section Compare

variable {textCmp : Bytes → Bytes → Int}

theorem compare_openList_openMap (a b : Walk) :
    compare textCmp (.openList :: a) (.openMap :: b) =
      if headRank a < 4 then -1 else 1 := by
  simp [compare, Sym.openList, Sym.openMap]

theorem compare_openMap_openList (a b : Walk) :
    compare textCmp (.openMap :: a) (.openList :: b) =
      if 4 < headRank b then -1 else 1 := by
  simp [compare, Sym.openList, Sym.openMap]

theorem compare_of_rank_lt {s t : Sym} (less : s.rank < t.rank)
    (notMixed : ¬(s.rank = 4 ∧ t.rank = 5)) (a b : Walk) :
    compare textCmp (s :: a) (t :: b) = -1 := by
  rw [compare, if_neg (by omega), if_neg notMixed,
    Sym.compare_of_rank_lt less, thenBy_of_ne (by decide)]

theorem compare_of_rank_gt {s t : Sym} (greater : t.rank < s.rank)
    (notMixed : ¬(s.rank = 5 ∧ t.rank = 4)) (a b : Walk) :
    compare textCmp (s :: a) (t :: b) = 1 := by
  rw [compare, if_neg notMixed, if_neg (by omega),
    Sym.compare_of_rank_gt greater, thenBy_of_ne (by decide)]

/-- A list stands against a map. -/
def Mixed (s t : Sym) : Prop :=
  (s = .openList ∧ t = .openMap) ∨ (s = .openMap ∧ t = .openList)

theorem Mixed.symm {s t : Sym} (mixed : Mixed s t) : Mixed t s :=
  Or.symm (mixed.imp And.symm And.symm)

theorem compare_of_not_mixed {s t : Sym} (sProper : s.Proper) (tProper : t.Proper)
    (notMixed : ¬Mixed s t) (a b : Walk) :
    compare textCmp (s :: a) (t :: b) =
      thenBy (Sym.compare textCmp s t) (compare textCmp a b) := by
  rw [compare, if_neg, if_neg]
  · rintro ⟨sRank, tRank⟩
    exact notMixed (.inr ⟨sProper.openMap sRank, tProper.openList tRank⟩)
  · rintro ⟨sRank, tRank⟩
    exact notMixed (.inl ⟨sProper.openList sRank, tProper.openMap tRank⟩)

variable (lawful : ThreeWay textCmp)
include lawful

theorem compare_cons_self (s : Sym) (a b : Walk) :
    compare textCmp (s :: a) (s :: b) = compare textCmp a b := by
  rw [compare, if_neg (by omega), if_neg (by omega),
    (Sym.threeWay_compare lawful).self, thenBy_zero]

theorem compare_append_left (common a b : Walk) :
    compare textCmp (common ++ a) (common ++ b) = compare textCmp a b := by
  induction common with
  | nil => rfl
  | cons s rest inductionHypothesis =>
      simp only [List.cons_append, compare_cons_self lawful, inductionHypothesis]

theorem compare_of_ne {s t : Sym} (sProper : s.Proper) (tProper : t.Proper)
    (notMixed : ¬Mixed s t) (different : s ≠ t) (a b : Walk) :
    compare textCmp (s :: a) (t :: b) = Sym.compare textCmp s t := by
  rw [compare_of_not_mixed sProper tProper notMixed,
    thenBy_of_ne ((Sym.threeWay_compare lawful).ne_zero different)]

theorem compare_self (a : Walk) : compare textCmp a a = 0 := by
  simpa [compare] using compare_append_left lawful a [] []

end Compare

/-- How a list can go on after it was opened. -/
inductive Head : Walk → Prop where
  | empty {a : Walk} : (∀ s ∈ a.head?, s = .closing) → Head a
  | entity {s : Sym} {a : Walk} : s.isEntity = true → Head (s :: a)
  | map {a : Walk} : Head (.openMap :: a)
  | other {s : Sym} {a : Walk} : 4 < s.rank → Head (s :: a)

theorem head_of_proper {a : Walk} (proper : Proper a) : Head a := by
  cases a with
  | nil => exact .empty (by simp)
  | cons s rest =>
      rcases Nat.lt_trichotomy s.rank 4 with less | equal | greater
      · rcases Nat.eq_zero_or_pos s.rank with zero | positive
        · exact .empty (by simpa using proper.head.closing zero)
        · exact .entity (by simp [Sym.isEntity, positive, less])
      · rw [proper.head.openMap equal]
        exact .map
      · exact .other greater

theorem headRank_empty {a : Walk} (empty : ∀ s ∈ a.head?, s = .closing) :
    headRank a = 5 := by
  cases a with
  | nil => rfl
  | cons s rest =>
      have isClosing : s = .closing := empty s (by simp)
      simp [headRank, isClosing, Sym.closing]

theorem headRank_entity {s : Sym} (entity : s.isEntity = true) (a : Walk) :
    headRank (s :: a) < 4 := by
  simp only [Sym.isEntity, Bool.and_eq_true, decide_eq_true_eq] at entity
  simp only [headRank]
  split_ifs <;> omega

theorem headRank_map (a : Walk) : headRank (.openMap :: a) = 4 := by
  simp [headRank, Sym.openMap]

theorem headRank_other {s : Sym} (high : 4 < s.rank) (a : Walk) :
    4 < headRank (s :: a) := by
  simp only [headRank]
  split_ifs <;> omega

theorem headRank_lt_iff {a : Walk} (proper : Proper a) :
    headRank a < 4 ↔ ∃ entity rest, entity.isEntity = true ∧ a = entity :: rest := by
  constructor
  · intro low
    cases head_of_proper proper with
    | empty empty =>
        rw [headRank_empty empty] at low
        omega
    | entity entity => exact ⟨_, _, entity, rfl⟩
    | map =>
        rw [headRank_map] at low
        omega
    | @other s rest high =>
        have above := headRank_other high rest
        omega
  · rintro ⟨entity, rest, isEntity, rfl⟩
    exact headRank_entity isEntity rest

theorem headRank_eq_iff {a : Walk} (proper : Proper a) :
    headRank a = 4 ↔ ∃ rest, a = .openMap :: rest := by
  constructor
  · intro middle
    cases head_of_proper proper with
    | empty empty =>
        rw [headRank_empty empty] at middle
        omega
    | @entity s rest entity =>
        have below := headRank_entity entity rest
        omega
    | map => exact ⟨_, rfl⟩
    | @other s rest high =>
        have above := headRank_other high rest
        omega
  · rintro ⟨rest, rfl⟩
    exact headRank_map rest

section Swap

theorem entangled_nil_left (b : Walk) : ¬Entangled [] b := by
  rintro ⟨common, ⟨⟨rest, equal⟩, -⟩ | ⟨⟨rest, equal⟩, -⟩⟩ <;> simp at equal

theorem Entangled.symm {a b : Walk} (entangled : Entangled a b) : Entangled b a := by
  obtain ⟨common, left | right⟩ := entangled
  · exact ⟨common, .inr left.symm⟩
  · exact ⟨common, .inl right.symm⟩

theorem entangled_cons_self (s : Sym) (a b : Walk) :
    Entangled (s :: a) (s :: b) ↔ Entangled a b := by
  constructor
  · rintro ⟨common, ⟨⟨rest, mapEq⟩, rest', listEq⟩ | ⟨⟨rest, listEq⟩, rest', mapEq⟩⟩
    all_goals
      cases common with
      | nil => simp_all [Sym.openMap, Sym.openList]
      | cons t common =>
          simp only [List.cons_append, List.cons.injEq] at mapEq listEq
          refine ⟨common, ?_⟩
          first
          | exact .inl ⟨⟨_, mapEq.2⟩, _, listEq.2⟩
          | exact .inr ⟨⟨_, listEq.2⟩, _, mapEq.2⟩
  · rintro ⟨common, ⟨⟨rest, mapEq⟩, rest', listEq⟩ | ⟨⟨rest, listEq⟩, rest', mapEq⟩⟩
    · exact ⟨s :: common, .inl ⟨⟨rest, by simp [mapEq]⟩, rest', by simp [listEq]⟩⟩
    · exact ⟨s :: common, .inr ⟨⟨rest, by simp [listEq]⟩, rest', by simp [mapEq]⟩⟩

theorem entangled_openList_openMap (a b : Walk) :
    Entangled (.openList :: a) (.openMap :: b) ↔ ∃ rest, a = .openMap :: rest := by
  constructor
  · rintro ⟨common, ⟨⟨rest, mapEq⟩, rest', listEq⟩ | ⟨⟨rest, listEq⟩, rest', mapEq⟩⟩
    all_goals
      cases common with
      | nil => simp_all [Sym.openMap, Sym.openList]
      | cons t common =>
          simp only [List.cons_append, List.cons.injEq] at mapEq listEq
          have impossible := mapEq.1.trans listEq.1.symm
          simp [Sym.openMap, Sym.openList] at impossible
  · rintro ⟨rest, rfl⟩
    exact ⟨[], .inr ⟨⟨rest, rfl⟩, b, rfl⟩⟩

theorem not_entangled_of_ne {s t : Sym} (notMixed : ¬Mixed s t) (different : s ≠ t)
    (a b : Walk) : ¬Entangled (s :: a) (t :: b) := by
  rintro ⟨common, ⟨⟨rest, mapEq⟩, rest', listEq⟩ | ⟨⟨rest, listEq⟩, rest', mapEq⟩⟩
  all_goals
    cases common with
    | nil =>
        simp only [List.nil_append, List.cons.injEq] at mapEq listEq
        first
        | exact notMixed (.inr ⟨mapEq.1, listEq.1⟩)
        | exact notMixed (.inl ⟨listEq.1, mapEq.1⟩)
    | cons u common =>
        simp only [List.cons_append, List.cons.injEq] at mapEq listEq
        first
        | exact different (mapEq.1.trans listEq.1.symm)
        | exact different (listEq.1.trans mapEq.1.symm)

variable {textCmp : Bytes → Bytes → Int}

theorem sign_swap_openList_openMap {a : Walk} (proper : Proper a) (b : Walk) :
    (compare textCmp (.openList :: a) (.openMap :: b)).sign =
        -(compare textCmp (.openMap :: b) (.openList :: a)).sign ↔
      ¬Entangled (.openList :: a) (.openMap :: b) := by
  rw [compare_openList_openMap, compare_openMap_openList,
    entangled_openList_openMap, ← headRank_eq_iff proper]
  rcases Nat.lt_trichotomy (headRank a) 4 with less | equal | greater
  · simp [less, less.ne, less.not_gt]
  · simp [equal]
  · simp [greater, greater.ne', greater.not_gt]

/-- Exchanging the arguments reverses the sign unless the walks are entangled. -/
theorem sign_swap_iff (lawful : ThreeWay textCmp) {a b : Walk} (aProper : Proper a) (bProper : Proper b) :
    (compare textCmp a b).sign = -(compare textCmp b a).sign ↔
      ¬Entangled a b := by
  induction a generalizing b with
  | nil =>
      cases b <;> simp [compare, entangled_nil_left]
  | cons s a inductionHypothesis =>
      cases b with
      | nil =>
          have apart : ¬Entangled (s :: a) [] := fun entangled =>
            entangled_nil_left _ entangled.symm
          simp [compare, apart]
      | cons t b =>
          by_cases same : s = t
          · subst same
            rw [compare_cons_self lawful, compare_cons_self lawful,
              entangled_cons_self]
            exact inductionHypothesis aProper.tail bProper.tail
          · by_cases mixed : Mixed s t
            · rcases mixed with ⟨rfl, rfl⟩ | ⟨rfl, rfl⟩
              · exact sign_swap_openList_openMap aProper.tail b
              · have swapped :=
                  @sign_swap_openList_openMap textCmp _ bProper.tail a
                rw [← neg_eq_iff_eq_neg, eq_comm, swapped, not_iff_not]
                exact ⟨Entangled.symm, Entangled.symm⟩
            · rw [compare_of_ne lawful aProper.head bProper.head mixed same,
                compare_of_ne lawful bProper.head aProper.head
                  (fun other => mixed other.symm) (Ne.symm same)]
              have order := Sym.threeWay_compare lawful
              have apart := not_entangled_of_ne mixed same a b
              have decided := order.ne_zero same
              rcases lt_or_gt_of_ne decided with less | greater
              · have reversed := (order.neg_iff_pos s t).mp less
                simp [Int.sign_eq_neg_one_of_neg less,
                  Int.sign_eq_one_of_pos reversed, apart]
              · have reversed := (order.pos_iff_neg s t).mp greater
                simp [Int.sign_eq_neg_one_of_neg reversed,
                  Int.sign_eq_one_of_pos greater, apart]

end Swap

section Transitivity

variable {textCmp : Bytes → Bytes → Int}

/-- The comparison is transitive on the walks, taken in this order. -/
def TransitiveOn (textCmp : Bytes → Bytes → Int) (a b c : Walk) : Prop :=
  compare textCmp a b ≤ 0 → compare textCmp b c ≤ 0 → compare textCmp a c ≤ 0

theorem MapAt.cons (s : Sym) {common a : Walk} (found : MapAt common a) :
    MapAt (s :: common) (s :: a) := by
  obtain ⟨rest, rfl⟩ := found
  exact ⟨rest, rfl⟩

theorem EmptyListAt.cons (s : Sym) {common a : Walk}
    (found : EmptyListAt common a) : EmptyListAt (s :: common) (s :: a) := by
  obtain ⟨rest, empty, rfl⟩ := found
  exact ⟨rest, empty, rfl⟩

theorem MapListAt.cons (s : Sym) {common a : Walk}
    (found : MapListAt common a) : MapListAt (s :: common) (s :: a) := by
  obtain ⟨rest, rfl⟩ := found
  exact ⟨rest, rfl⟩

theorem EntityListAt.cons (s : Sym) {common a : Walk}
    (found : EntityListAt common a) : EntityListAt (s :: common) (s :: a) := by
  obtain ⟨entity, rest, isEntity, rfl⟩ := found
  exact ⟨entity, rest, isEntity, rfl⟩

theorem NestedEntityListAt.cons (s : Sym) {common a : Walk}
    (found : NestedEntityListAt common a) :
    NestedEntityListAt (s :: common) (s :: a) := by
  obtain ⟨entity, rest, isEntity, rfl⟩ := found
  exact ⟨entity, rest, isEntity, rfl⟩

theorem Cyclic.cons (s : Sym) {a b c : Walk} (cyclic : Cyclic a b c) :
    Cyclic (s :: a) (s :: b) (s :: c) := by
  obtain ⟨common, cases⟩ := cyclic
  refine ⟨s :: common, ?_⟩
  rcases cases with ⟨map, empty, list⟩ | ⟨empty, list, map⟩ | ⟨list, map, empty⟩ |
    ⟨map, empty, list⟩ | ⟨map, nested, list⟩
  · exact .inl ⟨map.cons s, empty.cons s, list.cons s⟩
  · exact .inr (.inl ⟨empty.cons s, list.cons s, map.cons s⟩)
  · exact .inr (.inr (.inl ⟨list.cons s, map.cons s, empty.cons s⟩))
  · exact .inr (.inr (.inr (.inl ⟨map.cons s, empty.cons s, list.cons s⟩)))
  · exact .inr (.inr (.inr (.inr ⟨map.cons s, nested.cons s, list.cons s⟩)))

/-- A list with no element comes before a list with one. -/
theorem compare_empty_nonempty {a : Walk} (empty : ∀ s ∈ a.head?, s = .closing)
    {s : Sym} (positive : 0 < s.rank) (b : Walk) :
    compare textCmp a (s :: b) = -1 := by
  cases a with
  | nil => rfl
  | cons t rest =>
      have isClosing : t = .closing := empty t (by simp)
      subst isClosing
      exact compare_of_rank_lt positive (by simp [Sym.closing]) rest b

theorem compare_nonempty_empty {a : Walk} (empty : ∀ s ∈ a.head?, s = .closing)
    {s : Sym} (positive : 0 < s.rank) (b : Walk) :
    compare textCmp (s :: b) a = 1 := by
  cases a with
  | nil => rfl
  | cons t rest =>
      have isClosing : t = .closing := empty t (by simp)
      subst isClosing
      exact compare_of_rank_gt positive (by simp [Sym.closing]) b rest

/-- The three walks at a place where they close the cycle. -/
theorem not_transitiveOn_of_cyclic (lawful : ThreeWay textCmp) {a b c : Walk}
    (cyclic : Cyclic a b c) : ¬TransitiveOn textCmp a b c := by
  obtain ⟨common, cases⟩ := cyclic
  rcases cases with
    ⟨⟨aRest, rfl⟩, ⟨bRest, empty, rfl⟩, ⟨entity, cRest, isEntity, rfl⟩⟩ |
    ⟨⟨aRest, empty, rfl⟩, ⟨entity, bRest, isEntity, rfl⟩, ⟨cRest, rfl⟩⟩ |
    ⟨⟨entity, aRest, isEntity, rfl⟩, ⟨bRest, rfl⟩, ⟨cRest, empty, rfl⟩⟩ |
    ⟨⟨aRest, rfl⟩, ⟨bRest, empty, rfl⟩, ⟨cRest, rfl⟩⟩ |
    ⟨⟨aRest, rfl⟩, ⟨entity, bRest, isEntity, rfl⟩, ⟨cRest, rfl⟩⟩
  · have notAbove := (headRank_entity isEntity cRest).not_gt
    simp [TransitiveOn, compare_append_left lawful, compare_openMap_openList,
      compare_cons_self lawful, headRank_empty empty, notAbove,
      compare_empty_nonempty empty (Sym.isEntity_rank isEntity).1]
  · simp [TransitiveOn, compare_append_left lawful, compare_openList_openMap,
      compare_cons_self lawful, headRank_empty empty,
      headRank_entity isEntity,
      compare_empty_nonempty empty (Sym.isEntity_rank isEntity).1]
  · simp [TransitiveOn, compare_append_left lawful, compare_openList_openMap,
      compare_openMap_openList, compare_cons_self lawful,
      headRank_empty empty, headRank_entity isEntity,
      compare_nonempty_empty empty (Sym.isEntity_rank isEntity).1]
  · have first : compare textCmp bRest (.openMap :: cRest) = -1 :=
      compare_empty_nonempty empty (by simp [Sym.openMap]) cRest
    simp [TransitiveOn, compare_append_left lawful, compare_openMap_openList,
      compare_cons_self lawful, headRank_empty empty, headRank_map, first]
  · have nestedRank : headRank (.openList :: entity :: bRest) = 5 := rfl
    simp [TransitiveOn, compare_append_left lawful, compare_openMap_openList,
      compare_openList_openMap, compare_cons_self lawful, headRank_map,
      nestedRank, headRank_entity isEntity]

/-- Rank decides what may stand below an entity. -/
theorem head_below_entity {a b : Walk} {entity : Sym}
    (isEntity : entity.isEntity = true)
    (below : compare textCmp a (entity :: b) ≤ 0) (aProper : Proper a) :
    (∀ s ∈ a.head?, s = .closing) ∨
      ∃ first rest, first.isEntity = true ∧ a = first :: rest := by
  have bounds := Sym.isEntity_rank isEntity
  cases head_of_proper aProper with
  | empty empty => exact .inl empty
  | entity first => exact .inr ⟨_, _, first, rfl⟩
  | @map rest =>
      have above : compare textCmp (.openMap :: rest) (entity :: b) = 1 :=
        compare_of_rank_gt bounds.2 (by simp [Sym.openMap]) rest b
      omega
  | @other s rest high =>
      have above : compare textCmp (s :: rest) (entity :: b) = 1 :=
        compare_of_rank_gt (by omega) (by omega) rest b
      omega

/-- A list that is above a map and not above the list `b` keeps `b` above the
map, unless one of them is empty, `b` starts with a map, or `a` is a list of
lists of entities. -/
theorem headRank_of_above {a b : Walk} (above : compare textCmp a b ≤ 0)
    (aProper : Proper a) (bProper : Proper b) (aHigh : 4 < headRank a) :
    4 < headRank b ∨
      ((∀ s ∈ a.head?, s = .closing) ∧
        ((∃ entity rest, entity.isEntity = true ∧ b = entity :: rest) ∨
          ∃ rest, b = .openMap :: rest)) ∨
      ((∃ entity rest, entity.isEntity = true ∧ a = .openList :: entity :: rest) ∧
        ∃ rest, b = .openMap :: rest) := by
  cases head_of_proper bProper with
  | empty bEmpty =>
      rw [headRank_empty bEmpty]
      exact .inl (by omega)
  | @other t rest high => exact .inl (headRank_other high rest)
  | @entity t rest isEntity =>
      rcases head_below_entity isEntity above aProper with empty | entity
      · exact .inr (.inl ⟨empty, .inl ⟨t, rest, isEntity, rfl⟩⟩)
      · have low := (headRank_lt_iff aProper).mpr entity
        omega
  | @map rest =>
      cases head_of_proper aProper with
      | empty aEmpty => exact .inr (.inl ⟨aEmpty, .inr ⟨rest, rfl⟩⟩)
      | @entity s aRest isEntity =>
          have low := headRank_entity isEntity aRest
          omega
      | @map aRest =>
          rw [headRank_map] at aHigh
          omega
      | @other s aRest high =>
          by_cases list : s.rank = 5
          · have isList := aProper.head.openList list
            subst isList
            have low : headRank aRest < 4 := by
              by_contra notLow
              rw [compare_openList_openMap, if_neg notLow] at above
              omega
            obtain ⟨entity, tail, isEntity, rfl⟩ :=
              (headRank_lt_iff aProper.tail).mp low
            exact .inr (.inr ⟨⟨entity, tail, isEntity, rfl⟩, rest, rfl⟩)
          · have greater : compare textCmp (s :: aRest) (.openMap :: rest) = 1 :=
              compare_of_rank_gt high (by omega) aRest rest
            omega

/-- Walks that part at a list against a map, where the other two agree. -/
theorem transitiveOn_mixed {a b c : Walk} (lawful : ThreeWay textCmp)
    (aProper : Proper a) (bProper : Proper b) (cProper : Proper c) :
    (¬Cyclic (.openList :: a) (.openList :: b) (.openMap :: c) →
      TransitiveOn textCmp (.openList :: a) (.openList :: b) (.openMap :: c)) ∧
    (¬Cyclic (.openMap :: a) (.openList :: b) (.openList :: c) →
      TransitiveOn textCmp (.openMap :: a) (.openList :: b) (.openList :: c)) ∧
    (¬Cyclic (.openList :: a) (.openMap :: b) (.openList :: c) →
      TransitiveOn textCmp (.openList :: a) (.openMap :: b) (.openList :: c)) := by
  simp only [TransitiveOn, compare_cons_self lawful, compare_openList_openMap,
    compare_openMap_openList]
  refine ⟨fun acyclic below low => ?_, fun acyclic high below => ?_,
    fun acyclic low high => ?_⟩
  · have bLow : headRank b < 4 := by
      by_contra notLow
      simp [notLow] at low
    obtain ⟨entity, rest, isEntity, rfl⟩ := (headRank_lt_iff bProper).mp bLow
    rcases head_below_entity isEntity below aProper with empty | found
    · exact absurd ⟨[], .inr (.inl ⟨⟨a, empty, rfl⟩,
        ⟨entity, rest, isEntity, rfl⟩, c, rfl⟩)⟩ acyclic
    · simp [(headRank_lt_iff aProper).mpr found]
  · have bHigh : 4 < headRank b := by
      by_contra notHigh
      simp [notHigh] at high
    rcases headRank_of_above below bProper cProper bHigh with
      cHigh | ⟨empty, ⟨entity, rest, isEntity, rfl⟩ | ⟨rest, rfl⟩⟩ |
      ⟨⟨entity, tail, isEntity, rfl⟩, rest, rfl⟩
    · simp [cHigh]
    · exact absurd ⟨[], .inl ⟨⟨a, rfl⟩, ⟨b, empty, rfl⟩,
        entity, rest, isEntity, rfl⟩⟩ acyclic
    · exact absurd ⟨[], .inr (.inr (.inr (.inl ⟨⟨a, rfl⟩, ⟨b, empty, rfl⟩,
        rest, rfl⟩)))⟩ acyclic
    · exact absurd ⟨[], .inr (.inr (.inr (.inr ⟨⟨a, rfl⟩,
        ⟨entity, tail, isEntity, rfl⟩, rest, rfl⟩)))⟩ acyclic
  · have aLow : headRank a < 4 := by
      by_contra notLow
      simp [notLow] at low
    have cHigh : 4 < headRank c := by
      by_contra notHigh
      simp [notHigh] at high
    obtain ⟨entity, rest, isEntity, rfl⟩ := (headRank_lt_iff aProper).mp aLow
    have bounds := Sym.isEntity_rank isEntity
    cases head_of_proper cProper with
    | empty empty =>
        exact absurd ⟨[], .inr (.inr (.inl ⟨⟨entity, rest, isEntity, rfl⟩,
          ⟨b, rfl⟩, c, empty, rfl⟩))⟩ acyclic
    | @entity s tail sEntity =>
        have sLow := headRank_entity sEntity tail
        omega
    | @map tail =>
        rw [headRank_map] at cHigh
        omega
    | @other s tail sHigh =>
        rw [compare_of_rank_lt (by omega) (by omega)]
        omega

theorem Mixed.rank {s t : Sym} (mixed : Mixed s t) :
    4 ≤ s.rank ∧ s.rank ≤ 5 ∧ 4 ≤ t.rank ∧ t.rank ≤ 5 := by
  rcases mixed with ⟨rfl, rfl⟩ | ⟨rfl, rfl⟩ <;> simp [Sym.openList, Sym.openMap]

/-- Ranks 4 and 5 belong to the two symbols of a mixed pair. -/
theorem Mixed.rank_ne {s t u : Sym} (mixed : Mixed s t) (uProper : u.Proper)
    (notFirst : u ≠ s) (notSecond : u ≠ t) : u.rank < 4 ∨ 5 < u.rank := by
  by_contra inside
  have middle : u.rank = 4 ∨ u.rank = 5 := by omega
  rcases mixed with ⟨rfl, rfl⟩ | ⟨rfl, rfl⟩ <;>
    rcases middle with four | five
  · exact notSecond (uProper.openMap four)
  · exact notFirst (uProper.openList five)
  · exact notFirst (uProper.openMap four)
  · exact notSecond (uProper.openList five)

theorem rank_le_of_compare {s t : Sym} (below : Sym.compare textCmp s t ≤ 0) :
    s.rank ≤ t.rank := by
  by_contra greater
  rw [Sym.compare_of_rank_gt (by omega)] at below
  omega

/-- Walks whose first symbols are three different ones. -/
theorem transitiveOn_of_distinct (lawful : ThreeWay textCmp) {s t u : Sym}
    (sProper : s.Proper) (tProper : t.Proper) (uProper : u.Proper)
    (st : s ≠ t) (tu : t ≠ u) (su : s ≠ u) (a b c : Walk) :
    TransitiveOn textCmp (s :: a) (t :: b) (u :: c) := by
  intro first second
  by_cases stMixed : Mixed s t
  · have outside := stMixed.rank_ne uProper su.symm tu.symm
    have bounds := stMixed.rank
    have tuPlain : ¬Mixed t u := fun mixed => by have := mixed.rank; omega
    rw [compare_of_ne lawful tProper uProper tuPlain tu] at second
    have order := rank_le_of_compare second
    rw [compare_of_rank_lt (by omega) (by omega)]
    omega
  by_cases tuMixed : Mixed t u
  · have outside := tuMixed.rank_ne sProper st su
    have bounds := tuMixed.rank
    rw [compare_of_ne lawful sProper tProper stMixed st] at first
    have order := rank_le_of_compare first
    rw [compare_of_rank_lt (by omega) (by omega)]
    omega
  rw [compare_of_ne lawful sProper tProper stMixed st] at first
  rw [compare_of_ne lawful tProper uProper tuMixed tu] at second
  by_cases suMixed : Mixed s u
  · have outside := suMixed.rank_ne tProper st.symm tu
    have bounds := suMixed.rank
    have lower := rank_le_of_compare first
    have upper := rank_le_of_compare second
    omega
  · rw [compare_of_ne lawful sProper uProper suMixed su]
    have order := Sym.threeWay_compare lawful
    have firstStrict := lt_of_le_of_ne first (order.ne_zero st)
    have secondStrict := lt_of_le_of_ne second (order.ne_zero tu)
    exact (order.neg_trans s t u firstStrict secondStrict).le

/-- Walks of which two start with one symbol and the third with another, where
that is no list against a map. -/
theorem transitiveOn_of_plain (lawful : ThreeWay textCmp) {s t : Sym}
    (sProper : s.Proper) (tProper : t.Proper) (different : s ≠ t)
    (plain : ¬Mixed s t) (a b c : Walk) :
    TransitiveOn textCmp (s :: a) (s :: b) (t :: c) ∧
      TransitiveOn textCmp (s :: a) (t :: b) (t :: c) ∧
      TransitiveOn textCmp (s :: a) (t :: b) (s :: c) := by
  have plain' : ¬Mixed t s := fun mixed => plain mixed.symm
  simp only [TransitiveOn, compare_of_ne lawful sProper tProper plain different,
    compare_of_ne lawful tProper sProper plain' different.symm]
  refine ⟨fun _ below => below, fun below _ => below, fun below above => ?_⟩
  have order := Sym.threeWay_compare lawful
  have strict := lt_of_le_of_ne below (order.ne_zero different)
  have reversed := (order.neg_iff_pos s t).mp strict
  omega

/-- Away from the cycle the comparison is transitive. -/
theorem transitiveOn_of_not_cyclic (lawful : ThreeWay textCmp) {a b c : Walk}
    (aProper : Proper a) (bProper : Proper b) (cProper : Proper c)
    (acyclic : ¬Cyclic a b c) : TransitiveOn textCmp a b c := by
  induction a generalizing b c with
  | nil =>
      intro _ _
      cases c <;> simp [compare]
  | cons s a inductionHypothesis =>
      cases b with
      | nil => simp [TransitiveOn, compare]
      | cons t b =>
          cases c with
          | nil => simp [TransitiveOn, compare]
          | cons u c =>
              by_cases st : s = t <;> by_cases tu : t = u
              · subst st tu
                simp only [TransitiveOn, compare_cons_self lawful]
                exact inductionHypothesis aProper.tail bProper.tail cProper.tail
                  fun cyclic => acyclic (cyclic.cons s)
              · subst st
                by_cases mixed : Mixed s u
                · rcases mixed with ⟨rfl, rfl⟩ | ⟨rfl, rfl⟩
                  · exact (transitiveOn_mixed lawful aProper.tail bProper.tail
                      cProper.tail).1 acyclic
                  · simp [TransitiveOn, compare_openMap_openList]
                · exact (transitiveOn_of_plain lawful aProper.head cProper.head
                    tu mixed a b c).1
              · subst tu
                by_cases mixed : Mixed s t
                · rcases mixed with ⟨rfl, rfl⟩ | ⟨rfl, rfl⟩
                  · intro below _
                    simpa [compare_openList_openMap] using below
                  · exact (transitiveOn_mixed lawful aProper.tail bProper.tail
                      cProper.tail).2.1 acyclic
                · exact (transitiveOn_of_plain lawful aProper.head cProper.head
                    st mixed a b c).2.1
              · by_cases su : s = u
                · subst su
                  by_cases mixed : Mixed s t
                  · rcases mixed with ⟨rfl, rfl⟩ | ⟨rfl, rfl⟩
                    · exact (transitiveOn_mixed lawful aProper.tail bProper.tail
                        cProper.tail).2.2 acyclic
                    · intro high low
                      rw [compare_openMap_openList] at high
                      rw [compare_openList_openMap] at low
                      split_ifs at high low <;> omega
                  · exact (transitiveOn_of_plain lawful aProper.head
                      bProper.head st mixed a b c).2.2
                · exact transitiveOn_of_distinct lawful aProper.head bProper.head
                    cProper.head st tu su a b c

theorem transitiveOn_iff (lawful : ThreeWay textCmp) {a b c : Walk}
    (aProper : Proper a) (bProper : Proper b) (cProper : Proper c) :
    TransitiveOn textCmp a b c ↔ ¬Cyclic a b c :=
  ⟨fun transitive cyclic => not_transitiveOn_of_cyclic lawful cyclic transitive,
    transitiveOn_of_not_cyclic lawful aProper bProper cProper⟩

end Transitivity

end Walk

end Age.Agtype
