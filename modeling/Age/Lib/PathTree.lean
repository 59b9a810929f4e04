import Mathlib.Data.List.Perm.Basic
import Mathlib.Data.List.Nodup

/-!
# The tree of bounded paths

A path is a list; `next` gives the letters that may follow it, and none once
the path has `bound` letters.  Whoever takes nodes off a frontier in any order
and puts their children on it lists every path of the tree once.
-/

namespace Age.PathTree

variable {β : Type} (next : List β → List β) (bound : Nat)

def children (path : List β) : List (List β) :=
  (next path).map fun letter => path ++ [letter]

/-- The paths that extend a path, itself included. -/
def treeOf : Nat → List β → List (List β)
  | 0, path => [path]
  | fuel + 1, path => path :: (children next path).flatMap (treeOf fuel)

def tree (path : List β) : List (List β) :=
  treeOf next (bound - path.length) path

/-- The letters of `rest` may follow `path` one after the other. -/
def Extends : List β → List β → Prop
  | _, [] => True
  | path, letter :: rest => letter ∈ next path ∧ Extends (path ++ [letter]) rest

theorem extends_append (path rest : List β) (letter : β) :
    Extends next path (rest ++ [letter]) ↔
      Extends next path rest ∧ letter ∈ next (path ++ rest) := by
  induction rest generalizing path with
  | nil => simp [Extends]
  | cons head rest inductionHypothesis =>
      rw [List.cons_append, Extends, inductionHypothesis, Extends, List.append_assoc,
        List.singleton_append, and_assoc]

variable {next bound} (bounded : ∀ path, bound ≤ path.length → next path = [])

include bounded

theorem tree_eq (path : List β) :
    tree next bound path = path :: (children next path).flatMap (tree next bound) := by
  unfold tree
  cases fuel : bound - path.length with
  | zero => simp [treeOf, children, bounded path (by omega)]
  | succ rest =>
      rw [treeOf]
      congr 1
      refine List.flatMap_congr fun child membership => ?_
      obtain ⟨letter, -, rfl⟩ := List.mem_map.mp membership
      rw [List.length_append, List.length_singleton, show bound - (path.length + 1) = rest by omega]

theorem mem_tree {path other : List β} :
    other ∈ tree next bound path ↔ ∃ rest, other = path ++ rest ∧ Extends next path rest := by
  induction fuel : bound - path.length generalizing path with
  | zero =>
      rw [tree_eq bounded, children, bounded path (by omega)]
      simp only [List.map_nil, List.flatMap_nil, List.mem_singleton]
      constructor
      · rintro rfl
        exact ⟨[], by simp, trivial⟩
      · rintro ⟨rest, rfl, follows⟩
        cases rest with
        | nil => simp
        | cons letter rest =>
            have impossible := follows.1
            rw [bounded path (by omega)] at impossible
            cases impossible
  | succ fuel inductionHypothesis =>
      rw [tree_eq bounded, List.mem_cons, List.mem_flatMap]
      have step {letter : β} := @inductionHypothesis (path ++ [letter]) (by simp; omega)
      constructor
      · rintro (rfl | ⟨child, isChild, inside⟩)
        · exact ⟨[], by simp, trivial⟩
        · obtain ⟨letter, follows, rfl⟩ := List.mem_map.mp isChild
          obtain ⟨rest, rfl, follows'⟩ := step.mp inside
          exact ⟨letter :: rest, by simp, follows, follows'⟩
      · rintro ⟨rest, rfl, follows⟩
        cases rest with
        | nil => exact .inl (by simp)
        | cons letter rest =>
            refine .inr ⟨path ++ [letter], List.mem_map.mpr ⟨letter, follows.1, rfl⟩, ?_⟩
            exact step.mpr ⟨rest, by simp, follows.2⟩

theorem nodup_tree (distinct : ∀ path, (next path).Nodup) (path : List β) :
    (tree next bound path).Nodup := by
  induction fuel : bound - path.length generalizing path with
  | zero => rw [tree_eq bounded, children, bounded path (by omega)]; simp
  | succ fuel inductionHypothesis =>
      rw [tree_eq bounded, List.nodup_cons, List.nodup_flatMap]
      refine ⟨fun inside => ?_, fun child isChild => ?_, ?_⟩
      · obtain ⟨child, isChild, below⟩ := List.mem_flatMap.mp inside
        obtain ⟨letter, -, rfl⟩ := List.mem_map.mp isChild
        obtain ⟨rest, equal, -⟩ := (mem_tree bounded).mp below
        have lengths := congrArg List.length equal
        simp at lengths
      · obtain ⟨letter, -, rfl⟩ := List.mem_map.mp isChild
        exact inductionHypothesis _ (by simp; omega)
      · -- two children that share a descendant are the same child
        have different := distinct path
        rw [children, List.pairwise_map]
        refine different.imp fun {a b} apart other inA inB => apart ?_
        obtain ⟨restA, rfl, -⟩ := (mem_tree bounded).mp inA
        obtain ⟨restB, equal, -⟩ := (mem_tree bounded).mp inB
        rw [List.append_assoc, List.append_assoc] at equal
        exact (List.cons.inj (List.append_cancel_left equal)).1

/-- A frontier and the nodes taken off it list the tree: one step. -/
theorem frontier_step {taken frontier after all : List (List β)} {node : List β}
    (listed : (taken ++ frontier.flatMap (tree next bound)).Perm all)
    (replaced : frontier.Perm (node :: after)) :
    ((taken ++ [node]) ++ (after ++ children next node).flatMap (tree next bound)).Perm all := by
  refine List.Perm.trans ?_ listed
  rw [List.append_assoc]
  refine List.Perm.append_left taken ?_
  refine List.Perm.trans ?_ (replaced.flatMap_right (tree next bound)).symm
  rw [List.flatMap_append, List.flatMap_cons, tree_eq bounded node]
  simp only [List.cons_append, List.nil_append]
  exact List.Perm.cons _ List.perm_append_comm

end Age.PathTree
