import Mathlib.Data.List.Forall2
import Mathlib.Data.List.Sort
import Mathlib.Order.Defs.LinearOrder

/-!
# Keys that sorted lists have in common

Cursors stand in strictly increasing lists of keys and only move on.  As long as they pass no key
that all of them have, wherever they agree on a key is the least key that they have in common.
-/

namespace Age.CommonKeys

variable {α : Type}

/-- Every list has the key. -/
def Common (cursors : List (List α)) (key : α) : Prop :=
  ∀ keys ∈ cursors, key ∈ keys

/-- The lists lose keys, but none that all of them have. -/
structure Advance (before after : List (List α)) : Prop where
  sublists : List.Forall₂ (fun (keys : List α) (ahead : List α) => ahead.Sublist keys) before after
  keeps : ∀ key, Common before key → Common after key

theorem sublists_refl (cursors : List (List α)) :
    List.Forall₂ (fun (keys : List α) (ahead : List α) => ahead.Sublist keys) cursors cursors :=
  List.forall₂_same.2 fun keys _ => List.Sublist.refl keys

theorem Advance.refl (cursors : List (List α)) : Advance cursors cursors :=
  ⟨sublists_refl cursors, fun _ common => common⟩

theorem Advance.trans {before middle after : List (List α)} (first : Advance before middle)
    (second : Advance middle after) : Advance before after := by
  constructor
  · have sublists := first.sublists
    have later := second.sublists
    clear first second
    induction sublists generalizing after with
    | nil => exact later
    | @cons keys ahead _ _ lost _ inductionHypothesis =>
        cases later with
        | cons lostLater rest =>
            exact .cons (lostLater.trans lost) (inductionHypothesis rest)
  · intro key common
    exact second.keeps key (first.keeps key common)

theorem common_of_forall₂ {before after : List (List α)} {key : α}
    (sublists : List.Forall₂ (fun (keys : List α) (ahead : List α) => ahead.Sublist keys) before
      after) (common : Common after key) : Common before key := by
  induction sublists with
  | nil =>
      intro keys inside
      cases inside
  | @cons keys ahead _ _ lost _ inductionHypothesis =>
      obtain ⟨here, later⟩ := List.forall_mem_cons.1 common
      exact List.forall_mem_cons.2 ⟨lost.subset here, inductionHypothesis later⟩

theorem Advance.common_iff {before after : List (List α)} (advance : Advance before after)
    {key : α} : Common after key ↔ Common before key :=
  ⟨common_of_forall₂ advance.sublists, advance.keeps key⟩

/-- One list is replaced. -/
theorem Advance.set {cursors : List (List α)} {place : Nat} {keys ahead : List α}
    (found : cursors[place]? = some keys) (lost : ahead.Sublist keys)
    (keeps : ∀ key, Common cursors key → key ∈ ahead) : Advance cursors (cursors.set place ahead) := by
  constructor
  · clear keeps
    induction cursors generalizing place with
    | nil => exact .nil
    | cons first rest inductionHypothesis =>
        cases place with
        | zero =>
            obtain rfl := Option.some.inj found
            exact .cons lost (sublists_refl rest)
        | succ place => exact .cons (List.Sublist.refl first) (inductionHypothesis found)
  · intro key common other inside
    rcases List.mem_or_eq_of_mem_set inside with inside | rfl
    · exact common other inside
    · exact keeps key common

/-- All lists lose keys at once. -/
theorem Advance.map {cursors : List (List α)} {move : List α → List α}
    (lost : ∀ keys ∈ cursors, (move keys).Sublist keys)
    (keeps : ∀ key, Common cursors key → ∀ keys ∈ cursors, key ∈ move keys) :
    Advance cursors (cursors.map move) := by
  constructor
  · rw [List.forall₂_map_right_iff, List.forall₂_same]
    exact lost
  · intro key common moved inside
    obtain ⟨keys, isKeys, rfl⟩ := List.mem_map.1 inside
    exact keeps key common keys isKeys

/-- How many keys are ahead of the cursors -/
def total : List (List α) → Nat
  | [] => 0
  | keys :: rest => keys.length + total rest

theorem total_le {before after : List (List α)}
    (sublists : List.Forall₂ (fun (keys : List α) (ahead : List α) => ahead.Sublist keys) before
      after) : total after ≤ total before := by
  induction sublists with
  | nil => exact Nat.le_refl _
  | cons lost _ inductionHypothesis => exact Nat.add_le_add lost.length_le inductionHypothesis

theorem total_map_lt {cursors : List (List α)} {move : List α → List α}
    (lost : ∀ keys ∈ cursors, (move keys).Sublist keys)
    (loses : ∃ keys ∈ cursors, (move keys).length < keys.length) :
    total (cursors.map move) < total cursors := by
  induction cursors with
  | nil =>
      obtain ⟨keys, inside, -⟩ := loses
      cases inside
  | cons first rest inductionHypothesis =>
      obtain ⟨lostHere, lostLater⟩ := List.forall_mem_cons.1 lost
      have later : total (rest.map move) ≤ total rest := by
        apply total_le
        rw [List.forall₂_map_right_iff, List.forall₂_same]
        exact lostLater
      obtain ⟨keys, inside, loses⟩ := loses
      rcases List.mem_cons.1 inside with rfl | inside
      · exact Nat.add_lt_add_of_lt_of_le loses later
      · exact Nat.add_lt_add_of_le_of_lt lostHere.length_le
          (inductionHypothesis lostLater ⟨keys, inside, loses⟩)

theorem total_set_lt {cursors : List (List α)} {place : Nat} {keys ahead : List α}
    (found : cursors[place]? = some keys) (loses : ahead.length < keys.length) :
    total (cursors.set place ahead) < total cursors := by
  induction cursors generalizing place with
  | nil => cases found
  | cons first rest inductionHypothesis =>
      cases place with
      | zero =>
          obtain rfl := Option.some.inj found
          exact Nat.add_lt_add_right loses _
      | succ place => exact Nat.add_lt_add_left (inductionHypothesis found) _

section Related

variable {β : Type} {relation : β → List α → Prop} {owners : List β} {cursors : List (List α)}

theorem related_getElem? (related : List.Forall₂ relation owners cursors) {place : Nat}
    {keys : List α} (found : cursors[place]? = some keys) :
    ∃ owner, owners[place]? = some owner ∧ relation owner keys := by
  induction related generalizing place with
  | nil => cases found
  | @cons owner first _ _ here _ inductionHypothesis =>
      cases place with
      | zero =>
          obtain rfl := Option.some.inj found
          exact ⟨owner, rfl, here⟩
      | succ place => exact inductionHypothesis found

theorem related_set (related : List.Forall₂ relation owners cursors) (place : Nat) {owner : β}
    {keys : List α} (here : relation owner keys) :
    List.Forall₂ relation (owners.set place owner) (cursors.set place keys) := by
  induction related generalizing place with
  | nil => exact .nil
  | cons first others inductionHypothesis =>
      cases place with
      | zero => exact .cons here others
      | succ place => exact .cons first (inductionHypothesis place)

end Related

theorem set_found {β : Type} {values : List β} {place : Nat} {value : β}
    (found : values[place]? = some value) : values.set place value = values := by
  obtain ⟨inside, rfl⟩ := List.getElem?_eq_some_iff.1 found
  exact List.set_getElem_self inside

section Sorted

variable [LinearOrder α]

def Sorted (cursors : List (List α)) : Prop :=
  ∀ keys ∈ cursors, keys.Pairwise (· < ·)

theorem Advance.sorted {before after : List (List α)} (advance : Advance before after)
    (sorted : Sorted before) : Sorted after := by
  have sublists := advance.sublists
  clear advance
  induction sublists with
  | nil => exact sorted
  | @cons keys ahead _ _ lost _ inductionHypothesis =>
      obtain ⟨here, later⟩ := List.forall_mem_cons.1 sorted
      exact List.forall_mem_cons.2 ⟨here.sublist lost, inductionHypothesis later⟩

/-- The keys that are reached when those below the target are passed -/
def seek (keys : List α) (target : α) : List α :=
  keys.dropWhile (· < target)

theorem seek_sublist (keys : List α) (target : α) : (seek keys target).Sublist keys :=
  (List.dropWhile_suffix _).sublist

theorem mem_seek {keys : List α} (sorted : keys.Pairwise (· < ·)) {key target : α} :
    key ∈ seek keys target ↔ key ∈ keys ∧ target ≤ key := by
  induction keys with
  | nil => simp [seek]
  | cons first rest inductionHypothesis =>
      rw [List.pairwise_cons] at sorted
      by_cases below : first < target
      · have passed : seek (first :: rest) target = seek rest target := by simp [seek, below]
        rw [passed, inductionHypothesis sorted.2, List.mem_cons]
        constructor
        · rintro ⟨inside, reached⟩
          exact ⟨.inr inside, reached⟩
        · rintro ⟨rfl | inside, reached⟩
          · exact absurd reached (not_le.2 below)
          · exact ⟨inside, reached⟩
      · have stays : seek (first :: rest) target = first :: rest := by simp [seek, below]
        rw [stays]
        constructor
        · intro inside
          refine ⟨inside, ?_⟩
          rcases List.mem_cons.1 inside with rfl | later
          · exact not_lt.1 below
          · exact (not_lt.1 below).trans (sorted.1 key later).le
        · exact And.left

theorem le_of_head {keys : List α} (sorted : keys.Pairwise (· < ·)) {first key : α}
    (head : keys.head? = some first) (inside : key ∈ keys) : first ≤ key := by
  obtain ⟨rest, rfl⟩ := List.head?_eq_some_iff.1 head
  rcases List.mem_cons.1 inside with rfl | later
  · exact le_refl _
  · exact ((List.pairwise_cons.1 sorted).1 key later).le

theorem common_mem_seek {cursors : List (List α)} (sorted : Sorted cursors) {keys : List α}
    (inside : keys ∈ cursors) {target key : α} (reached : target ≤ key)
    (common : Common cursors key) : key ∈ seek keys target :=
  (mem_seek (sorted keys inside)).2 ⟨common keys inside, reached⟩

/-- Where one cursor passes all its keys, there is no common one left. -/
theorem not_common_of_seek_nil {cursors : List (List α)} (sorted : Sorted cursors) {keys : List α}
    (inside : keys ∈ cursors) {target : α} (reached : ∀ key, Common cursors key → target ≤ key)
    (passed : seek keys target = []) (key : α) : ¬Common cursors key := by
  intro common
  have impossible := common_mem_seek sorted inside (reached key common) common
  rw [passed] at impossible
  cases impossible

/-- A cursor may pass the keys that are below another one. -/
theorem advance_seek {cursors : List (List α)} (sorted : Sorted cursors) {place : Nat}
    {keys : List α} (found : cursors[place]? = some keys) {target : α}
    (reached : ∀ key, Common cursors key → target ≤ key) :
    Advance cursors (cursors.set place (seek keys target)) := by
  apply Advance.set found (seek_sublist keys target)
  intro key common
  exact common_mem_seek sorted (List.mem_of_getElem? found) (reached key common) common

/-- What is common to all lists, in the order of the first one -/
def commonKeys : List (List α) → List α
  | [] => []
  | first :: rest => first.filter fun key => rest.all fun keys => keys.contains key

theorem mem_commonKeys {cursors : List (List α)} (nonempty : cursors ≠ []) {key : α} :
    key ∈ commonKeys cursors ↔ Common cursors key := by
  cases cursors with
  | nil => exact absurd rfl nonempty
  | cons first rest => simp [commonKeys, Common]

theorem commonKeys_sorted {cursors : List (List α)} (sorted : Sorted cursors) :
    (commonKeys cursors).Pairwise (· < ·) := by
  cases cursors with
  | nil => exact .nil
  | cons first rest => exact (sorted first List.mem_cons_self).filter _

theorem eq_of_sorted {left right : List α} (sortedLeft : left.Pairwise (· < ·))
    (sortedRight : right.Pairwise (· < ·)) (same : ∀ key, key ∈ left ↔ key ∈ right) :
    left = right := by
  apply List.Perm.eq_of_pairwise _ sortedLeft sortedRight
  · exact (List.perm_ext_iff_of_nodup sortedLeft.nodup sortedRight.nodup).2 same
  · intro first second _ _ less greater
    exact absurd greater (not_lt_of_gt less)

theorem sublist_of_sorted {keys whole : List α} (sortedKeys : keys.Pairwise (· < ·))
    (sorted : whole.Pairwise (· < ·)) (among : ∀ key ∈ keys, key ∈ whole) :
    keys.Sublist whole := by
  have kept : keys = whole.filter (· ∈ keys) := by
    apply eq_of_sorted sortedKeys (sorted.filter _)
    intro key
    simpa using among key
  rw [kept]
  exact List.filter_sublist

theorem Advance.commonKeys_eq {before after : List (List α)} (advance : Advance before after)
    (sorted : Sorted before) : commonKeys after = commonKeys before := by
  cases beforeIs : before with
  | nil =>
      have sublists := advance.sublists
      rw [beforeIs] at sublists
      cases sublists
      rfl
  | cons first rest =>
      have nonempty : before ≠ [] := by
        rw [beforeIs]
        exact List.cons_ne_nil first rest
      have nonemptyAfter : after ≠ [] := by
        intro empty
        rw [empty] at advance
        exact nonempty (List.forall₂_nil_right_iff.1 advance.sublists)
      rw [← beforeIs]
      apply eq_of_sorted (commonKeys_sorted (advance.sorted sorted)) (commonKeys_sorted sorted)
      intro key
      rw [mem_commonKeys nonempty, mem_commonKeys nonemptyAfter, advance.common_iff]

/-- The cursors agree on a key. -/
def Agree (cursors : List (List α)) (key : α) : Prop :=
  cursors ≠ [] ∧ ∀ keys ∈ cursors, keys.head? = some key

/-- Where the cursors agree is the first key that they have in common; past it are the others. -/
theorem Agree.commonKeys_eq {cursors : List (List α)} {key : α} (agree : Agree cursors key)
    (sorted : Sorted cursors) :
    commonKeys cursors = key :: commonKeys (cursors.map List.tail) := by
  obtain ⟨nonempty, heads⟩ := agree
  have tails : Sorted (cursors.map List.tail) := by
    intro keys inside
    obtain ⟨whole, isWhole, rfl⟩ := List.mem_map.1 inside
    exact (sorted whole isWhole).tail
  have commonTails (other : α) : Common (cursors.map List.tail) other ↔
      Common cursors other ∧ other ≠ key := by
    constructor
    · intro common
      constructor
      · intro keys inside
        exact List.mem_of_mem_tail (common keys.tail (List.mem_map_of_mem inside))
      · rintro rfl
        obtain ⟨keys, inside⟩ := List.exists_mem_of_ne_nil cursors nonempty
        obtain ⟨rest, rfl⟩ := List.head?_eq_some_iff.1 (heads keys inside)
        have later := common rest (List.mem_map_of_mem (f := List.tail) inside)
        exact lt_irrefl _ ((List.pairwise_cons.1 (sorted _ inside)).1 other later)
    · rintro ⟨common, differs⟩ keys inside
      obtain ⟨whole, isWhole, rfl⟩ := List.mem_map.1 inside
      obtain ⟨rest, rfl⟩ := List.head?_eq_some_iff.1 (heads whole isWhole)
      rcases List.mem_cons.1 (common _ isWhole) with same | later
      · exact absurd same differs
      · exact later
  have tailsNonempty : cursors.map List.tail ≠ [] := by simpa using nonempty
  have isCommon : Common cursors key := by
    intro keys inside
    exact List.mem_of_mem_head? (heads keys inside)
  apply eq_of_sorted (commonKeys_sorted sorted)
  · apply List.pairwise_cons.2
    constructor
    · intro other inside
      obtain ⟨common, differs⟩ := (commonTails other).1 ((mem_commonKeys tailsNonempty).1 inside)
      obtain ⟨keys, isKeys⟩ := List.exists_mem_of_ne_nil cursors nonempty
      exact lt_of_le_of_ne (le_of_head (sorted keys isKeys) (heads keys isKeys)
        (common keys isKeys)) (Ne.symm differs)
    · exact commonKeys_sorted tails
  · intro other
    rw [List.mem_cons, mem_commonKeys nonempty, mem_commonKeys tailsNonempty, commonTails]
    by_cases same : other = key
    · simp [same, isCommon]
    · simp [same]

end Sorted

end Age.CommonKeys
