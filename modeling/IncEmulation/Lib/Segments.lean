import Mathlib.Data.List.Basic

/-!
# A stream that arrives in segments

A transport delivers a stream in pieces of its own choice.  Whoever collects a
fixed number of items sees the stream and not the pieces.
-/

namespace Segments

variable {Item : Type*}

/-- The next `count` items, or all there are, and what is left. -/
def collect : Nat → List (List Item) → List Item × List (List Item)
  | _, [] => ([], [])
  | count, segment :: segments =>
      if count ≤ segment.length then
        (segment.take count, segment.drop count :: segments)
      else
        let later := collect (count - segment.length) segments
        (segment ++ later.1, later.2)

theorem collect_fst (count : Nat) (segments : List (List Item)) :
    (collect count segments).1 = segments.flatten.take count := by
  induction segments generalizing count with
  | nil => simp [collect]
  | cons segment segments induction =>
      rw [collect, List.flatten_cons, List.take_append]
      split_ifs with within
      · rw [Nat.sub_eq_zero_of_le within, List.take_zero, List.append_nil]
      · have whole : segment.take count = segment :=
          List.take_of_length_le (by omega)
        simp only [induction, whole]

theorem flatten_collect_snd (count : Nat) (segments : List (List Item)) :
    (collect count segments).2.flatten = segments.flatten.drop count := by
  induction segments generalizing count with
  | nil => simp [collect]
  | cons segment segments induction =>
      rw [collect, List.flatten_cons, List.drop_append]
      split_ifs with within
      · rw [List.flatten_cons, Nat.sub_eq_zero_of_le within, List.drop_zero]
      · have passed : segment.drop count = [] :=
          List.drop_of_length_le (by omega)
        simp only [induction, passed, List.nil_append]

end Segments
