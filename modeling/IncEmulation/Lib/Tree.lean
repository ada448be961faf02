import Mathlib.Algebra.BigOperators.Group.Finset.Basic
import Mathlib.Algebra.BigOperators.Group.List.Basic
import Mathlib.Data.List.Nodup

/-!
# Trees of a fixed arity

The nodes of a tree are named by the way up to its root, so that the name of a
child extends the name of its parent.  A sum over the leaves is the sum of the
sums below the children.
-/

namespace Hierarchy

/-- A tree; the children from the arity on do not belong to it. -/
inductive Layout where
  | leaf
  | node (child : Nat → Layout)

/-- The way from a node up to the root, its own position first. -/
abbrev Path := List Nat

/-- The tree below a node. -/
def Layout.subtree (arity : Nat) (tree : Layout) : Path → Option Layout
  | [] => some tree
  | position :: path =>
      match tree.subtree arity path with
      | some (.node child) =>
          if position < arity then some (child position) else none
      | _ => none

/-- The leaves of the tree below a node. -/
def Layout.leaves (arity : Nat) : Layout → Path → List Path
  | .leaf, path => [path]
  | .node child, path =>
      (List.range arity).flatMap fun position =>
        (child position).leaves arity (position :: path)

variable {arity position : Nat} {tree sub : Layout} {path name : Path}

theorem subtree_cons_eq_some :
    tree.subtree arity (position :: path) = some sub ↔
      position < arity ∧ ∃ child, tree.subtree arity path = some (.node child) ∧
        sub = child position := by
  rw [Layout.subtree]
  constructor
  · intro found
    split at found
    · rename_i child isNode
      split at found
      · rename_i bound
        exact ⟨bound, child, isNode, (Option.some.inj found).symm⟩
      · cases found
    · cases found
  · rintro ⟨bound, child, isNode, rfl⟩
    rw [isNode]
    exact if_pos bound

theorem subtree_child {child : Nat → Layout}
    (found : tree.subtree arity path = some (.node child))
    (bound : position < arity) :
    tree.subtree arity (position :: path) = some (child position) :=
  subtree_cons_eq_some.mpr ⟨bound, child, found, rfl⟩

/-- What every node has from its children, all nodes have. -/
theorem ascend {motive : Path → Layout → Prop}
    (leaf : ∀ path, tree.subtree arity path = some .leaf → motive path .leaf)
    (node : ∀ path child, tree.subtree arity path = some (.node child) →
      (∀ position < arity, motive (position :: path) (child position)) →
        motive path (.node child))
    (found : tree.subtree arity path = some sub) : motive path sub := by
  induction sub generalizing path with
  | leaf => exact leaf path found
  | node child induction =>
      exact node path child found fun position bound =>
        induction position (subtree_child found bound)

/-- What every node has from its parent, all nodes have. -/
theorem descend {motive : Path → Prop} (root : motive [])
    (node : ∀ position path, position < arity →
      (∃ child, tree.subtree arity path = some (.node child)) →
        motive path → motive (position :: path))
    (found : tree.subtree arity path = some sub) : motive path := by
  induction path generalizing sub with
  | nil => exact root
  | cons position path induction =>
      obtain ⟨bound, child, isNode, -⟩ := subtree_cons_eq_some.mp found
      exact node position path bound ⟨child, isNode⟩ (induction isNode)

theorem exists_leaf (positive : 0 < arity) (sub : Layout) (path : Path) :
    ∃ name, name ∈ sub.leaves arity path := by
  induction sub generalizing path with
  | leaf => exact ⟨path, List.mem_singleton_self path⟩
  | node child induction =>
      obtain ⟨name, member⟩ := induction 0 (0 :: path)
      exact ⟨name, List.mem_flatMap.mpr
        ⟨0, List.mem_range.mpr positive, member⟩⟩

theorem mem_leaves_node {child : Nat → Layout} :
    name ∈ (Layout.node child).leaves arity path ↔ ∃ position < arity,
      name ∈ (child position).leaves arity (position :: path) := by
  simp only [Layout.leaves, List.mem_flatMap, List.mem_range]

theorem sum_leaves_node {Value : Type*} [AddCommMonoid Value]
    {child : Nat → Layout} (value : Path → Value) :
    (((Layout.node child).leaves arity path).map value).sum =
      ∑ position ∈ Finset.range arity,
        (((child position).leaves arity (position :: path)).map value).sum := by
  have sums : ∀ (below : Nat → List Path) (count : Nat),
      (((List.range count).flatMap below).map value).sum =
        ∑ position ∈ Finset.range count, ((below position).map value).sum := by
    intro below count
    induction count with
    | zero => rfl
    | succ count induction =>
        rw [List.range_succ, List.flatMap_append, List.map_append,
          List.sum_append, induction, Finset.sum_range_succ]
        simp
  exact sums _ arity

end Hierarchy
