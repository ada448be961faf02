import IncEmulation.Lib.Machine
import Mathlib.Data.List.Range

/-!
# Go-back-N receivers

A go-back-N receiver takes the packet with the next number and no other.  A
handler that reports the numbers it takes behaves like one when each of its
steps either reports nothing and stays where it is, or reports the next number
and moves on by one.  What it reports over a run is then a gap-free and
duplicate-free prefix of the stream.
-/

namespace GoBackN

open Machine

variable {State Input : Type*}

/-- One step of a receiver whose next number is `next`. -/
def Takes (next : State → Nat) (before after : State)
    (reported : List Nat) : Prop :=
  (reported = [] ∧ next after = next before) ∨
    (reported = [next before] ∧ next after = next before + 1)

variable {handler : State → Input → State × List Nat}
  {condition : State → Input → Prop} {next : State → Nat}

/-- A run reports the numbers between the next numbers at its two ends. -/
theorem feed_eq_range'
    (takes : ∀ state input, condition state input →
      Takes next state (handler state input).1 (handler state input).2)
    {state : State} {inputs : List Input}
    (admitted : Admits handler condition state inputs) :
    ∃ count, next (feed handler state inputs).1 = next state + count ∧
      (feed handler state inputs).2 = List.range' (next state) count := by
  induction inputs generalizing state with
  | nil => exact ⟨0, rfl, rfl⟩
  | cons input inputs induction =>
      obtain ⟨count, final, reported⟩ := induction admitted.2
      rcases takes state input admitted.1 with ⟨nothing, same⟩ | ⟨one, moved⟩
      · refine ⟨count, ?_, ?_⟩
        · rw [feed_cons, final, same]
        · rw [feed_cons, nothing, reported, same, List.nil_append]
      · refine ⟨count + 1, ?_, ?_⟩
        · rw [feed_cons, final, moved, Nat.add_assoc, Nat.add_comm 1]
        · rw [feed_cons, one, reported, moved, List.range'_succ]
          rfl

/-- A receiver that starts at 0 has taken a prefix of the stream. -/
theorem feed_eq_range
    (takes : ∀ state input, condition state input →
      Takes next state (handler state input).1 (handler state input).2)
    {state : State} {inputs : List Input} (fresh : next state = 0)
    (admitted : Admits handler condition state inputs) :
    (feed handler state inputs).2 =
      List.range (next (feed handler state inputs).1) := by
  obtain ⟨count, final, reported⟩ := feed_eq_range' takes admitted
  rw [fresh] at final reported
  rw [reported, final, Nat.zero_add, List.range_eq_range']

end GoBackN
