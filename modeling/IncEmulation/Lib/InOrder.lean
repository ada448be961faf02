import Mathlib.Data.List.Range

/-!
# Events of several classes that are served in order

A queue that serves several classes of events may interleave them freely while
the events of one class keep the order of their positions.  `Holds` says which
consecutive positions of a class are in a list of events; lists are taken from
at the head and added to at the end.
-/

namespace InOrder

variable {Event Class : Type*} [DecidableEq Class]

/-- Of its class the list holds the positions from `start` up to `stop`, each
once and in order. -/
structure Holds (classOf : Event → Class) (position : Event → Nat)
    (cls : Class) (events : List Event) (start stop : Nat) : Prop where
  le : start ≤ stop
  positions : (events.filter fun event => classOf event = cls).map position =
    List.range' start (stop - start)

variable {classOf : Event → Class} {position : Event → Nat} {cls : Class}
  {events : List Event} {event : Event} {start stop : Nat}

theorem Holds.nil (start : Nat) :
    Holds classOf position cls [] start start :=
  ⟨le_rfl, by simp⟩

theorem Holds.count (holds : Holds classOf position cls events start stop) :
    start + events.countP (fun event => classOf event = cls) = stop := by
  have length := congrArg List.length holds.positions
  have le := holds.le
  simp only [List.length_map, List.length_range', ← List.countP_eq_length_filter]
    at length
  omega

/-- The head of the list is the oldest event of its class. -/
theorem Holds.head
    (holds : Holds classOf position cls (event :: events) start stop)
    (own : classOf event = cls) :
    position event = start ∧ start < stop ∧
      Holds classOf position cls events (start + 1) stop := by
  obtain ⟨le, positions⟩ := holds
  simp only [List.filter_cons, own, decide_true, if_true, List.map_cons]
    at positions
  have nonempty : start < stop := by
    by_contra empty
    have zero : stop - start = 0 := by omega
    simp [zero] at positions
  have count : stop - start = stop - (start + 1) + 1 := by omega
  rw [count, List.range'_succ] at positions
  injection positions with first rest
  exact ⟨first, nonempty, nonempty, rest⟩

theorem Holds.tail_of_ne
    (holds : Holds classOf position cls (event :: events) start stop)
    (other : classOf event ≠ cls) :
    Holds classOf position cls events start stop :=
  ⟨holds.le, by simpa [other] using holds.positions⟩

theorem Holds.concat (holds : Holds classOf position cls events start stop)
    (own : classOf event = cls) (next : position event = stop) :
    Holds classOf position cls (events ++ [event]) start (stop + 1) := by
  obtain ⟨le, positions⟩ := holds
  have count : stop + 1 - start = stop - start + 1 := by omega
  have last : start + (stop - start) = stop := by omega
  refine ⟨by omega, ?_⟩
  rw [count, List.range'_concat]
  simp [own, next, positions, last]

theorem Holds.concat_of_ne
    (holds : Holds classOf position cls events start stop)
    (other : classOf event ≠ cls) :
    Holds classOf position cls (events ++ [event]) start stop :=
  ⟨holds.le, by simpa [other] using holds.positions⟩

theorem Holds.ne_of_mem
    (holds : Holds classOf position cls events start start)
    (member : event ∈ events) : classOf event ≠ cls := by
  intro own
  have empty := holds.positions
  simp only [Nat.sub_self, List.range'_zero, List.map_eq_nil_iff] at empty
  have filtered : event ∈ events.filter fun event => classOf event = cls :=
    List.mem_filter.mpr ⟨member, by simp [own]⟩
  simp [empty] at filtered

end InOrder
