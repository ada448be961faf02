import Mathlib.Data.List.Nodup
import Mathlib.Data.List.Perm.Basic

/-!
# Lists with one element of a kind
-/

namespace Unique

variable {Item Other : Type*} {items : List Item} {item : Item}

theorem filter_eq_singleton [DecidableEq Item] (kind : Item → Bool)
    (nodup : items.Nodup) (member : item ∈ items)
    (only : ∀ other ∈ items, (kind other = true ↔ other = item)) :
    items.filter kind = [item] := by
  have same : items.filter kind = items.filter (· == item) := by
    refine List.filter_congr fun other inside => ?_
    rw [Bool.eq_iff_iff, only other inside, beq_iff_eq]
  rw [same, List.filter_beq, List.count_eq_one_of_mem nodup member]
  rfl

theorem mem_of_filter_eq {kind : Item → Bool}
    (filtered : items.filter kind = [item]) :
    item ∈ items ∧ kind item = true := by
  have member : item ∈ items.filter kind := by
    rw [filtered]
    exact List.mem_singleton_self item
  exact List.mem_filter.mp member

theorem eq_of_filter_eq {kind : Item → Bool}
    (filtered : items.filter kind = [item]) {other : Item}
    (inside : other ∈ items) (ofKind : kind other = true) : other = item := by
  have member : other ∈ items.filter kind :=
    List.mem_filter.mpr ⟨inside, ofKind⟩
  rw [filtered] at member
  exact List.mem_singleton.mp member

theorem flatMap_eq_of_unique (expand : Item → List Other)
    (nodup : items.Nodup) (member : item ∈ items)
    (others : ∀ other ∈ items, other ≠ item → expand other = []) :
    items.flatMap expand = expand item := by
  obtain ⟨before, after, rfl⟩ := List.append_of_mem member
  obtain ⟨-, nodupRest, apart⟩ := List.nodup_append.mp nodup
  have notAfter : item ∉ after := (List.nodup_cons.mp nodupRest).1
  have silentBefore : before.flatMap expand = [] :=
    List.flatMap_eq_nil_iff.mpr fun other inside =>
      others other (List.mem_append_left _ inside)
        (apart other inside item List.mem_cons_self)
  have silentAfter : after.flatMap expand = [] :=
    List.flatMap_eq_nil_iff.mpr fun other inside =>
      others other (List.mem_append_right _ (List.mem_cons_of_mem _ inside))
        fun same => notAfter (same ▸ inside)
  rw [List.flatMap_append, List.flatMap_cons, silentBefore, silentAfter,
    List.nil_append, List.append_nil]

theorem take_flatMap {expand : Item → List Other} {size : Nat}
    (sized : ∀ item ∈ items, (expand item).length = size) (count : Nat) :
    (items.flatMap expand).take (count * size) =
      (items.take count).flatMap expand := by
  induction items generalizing count with
  | nil => simp
  | cons item items induction =>
      cases count with
      | zero => simp
      | succ count =>
          have here := sized item List.mem_cons_self
          have rest := induction (fun other inside =>
            sized other (List.mem_cons_of_mem _ inside)) count
          rw [List.flatMap_cons, List.take_append, here, Nat.succ_mul,
            Nat.add_sub_cancel, rest, List.take_succ_cons, List.flatMap_cons,
            List.take_of_length_le (by omega)]

theorem find?_eq_some_of_perm {order : List Item} {kind : Item → Bool}
    (perm : order.Perm items) (single : items.filter kind = [item]) :
    order.find? kind = some item := by
  have filtered := perm.filter kind
  rw [single] at filtered
  rw [← List.head?_filter, List.perm_singleton.mp filtered]
  rfl

theorem find?_eq_none_of_perm {order : List Item} {kind : Item → Bool}
    (perm : order.Perm items) (none : items.filter kind = []) :
    order.find? kind = .none := by
  have filtered := perm.filter kind
  rw [none] at filtered
  rw [← List.head?_filter, List.perm_nil.mp filtered]
  rfl

end Unique
