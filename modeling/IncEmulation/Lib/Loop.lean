import Mathlib.Data.Option.Basic
import Mathlib.Logic.Basic
import Mathlib.Tactic.Common

/-!
# Loops that only their body leaves

A round of `while (1)` either stops with a result or goes on from a new state.
`iterate` runs a body for at most so many rounds.  Invariants and measures give
what a loop returns, that it ends, and that it never does.
-/

namespace Loop

inductive Round (State Result : Type*) where
  | stop (result : Result)
  | again (state : State)

variable {State Result : Type*}

/-- The result of the loop, if it stops within `fuel` rounds. -/
def iterate (body : State → Round State Result) : Nat → State → Option Result
  | 0, _ => none
  | fuel + 1, state =>
      match body state with
      | .stop result => some result
      | .again next => iterate body fuel next

/-- The loop stops. -/
def Ends (body : State → Round State Result) (start : State) : Prop :=
  ∃ fuel, (iterate body fuel start).isSome

/-- The states in which the body runs. -/
inductive Visits (body : State → Round State Result) :
    State → State → Prop where
  | here (state : State) : Visits body state state
  | later {state next final : State} :
      body state = .again next → Visits body next final →
      Visits body state final

variable {body : State → Round State Result} {start state next : State}
  {result : Result}

@[simp]
theorem iterate_zero : iterate body 0 state = none := rfl

theorem iterate_of_stop (stops : body state = .stop result) (fuel : Nat) :
    iterate body (fuel + 1) state = some result := by
  simp only [iterate, stops]

theorem iterate_of_again (again : body state = .again next) (fuel : Nat) :
    iterate body (fuel + 1) state = iterate body fuel next := by
  simp only [iterate, again]

/-- Where the first computation returns, the second returns the same. -/
def Extends {Value : Type*} (first second : Option Value) : Prop :=
  ∀ value, first = some value → second = some value

namespace Extends

variable {Value Other : Type*} {first second : Option Value}

theorem refl (first : Option Value) : Extends first first := fun _ same => same

theorem bind {after later : Value → Option Other}
    (earlier : Extends first second)
    (rest : ∀ value, Extends (after value) (later value)) :
    Extends (first.bind after) (second.bind later) := by
  intro result returned
  obtain ⟨value, found, returned⟩ := Option.bind_eq_some_iff.mp returned
  exact Option.bind_eq_some_iff.mpr
    ⟨value, earlier value found, rest value result returned⟩

theorem map (function : Value → Other) (earlier : Extends first second) :
    Extends (first.map function) (second.map function) := by
  intro result returned
  obtain ⟨value, found, same⟩ := Option.map_eq_some_iff.mp returned
  exact Option.map_eq_some_iff.mpr ⟨value, earlier value found, same⟩

theorem ite {condition : Prop} [Decidable condition]
    {first' second' : Option Value} (positive : Extends first second)
    (negative : Extends first' second') :
    Extends (if condition then first else first')
      (if condition then second else second') := by
  split
  · exact positive
  · exact negative

end Extends

theorem iterate_extends {fuel more : Nat} (enough : fuel ≤ more) :
    Extends (iterate body fuel state) (iterate body more state) := by
  induction fuel generalizing state more with
  | zero =>
      intro result returned
      simp at returned
  | succ fuel induction =>
      obtain ⟨more, rfl⟩ : ∃ other, more = other + 1 := ⟨more - 1, by omega⟩
      cases round : body state with
      | stop value =>
          rw [iterate_of_stop round, iterate_of_stop round]
          exact .refl _
      | again next =>
          rw [iterate_of_again round, iterate_of_again round]
          exact induction (by omega)

/-- The rule of a loop that has returned. -/
theorem iterate_invariant (invariant : State → Prop) (post : Result → Prop)
    (preserved : ∀ state next, invariant state → body state = .again next →
      invariant next)
    (final : ∀ state result, invariant state → body state = .stop result →
      post result)
    {fuel : Nat} (initially : invariant start)
    (returned : iterate body fuel start = some result) : post result := by
  induction fuel generalizing start with
  | zero => simp at returned
  | succ fuel induction =>
      cases round : body start with
      | stop value =>
          rw [iterate_of_stop round, Option.some.injEq] at returned
          exact returned ▸ final start value initially round
      | again next =>
          rw [iterate_of_again round] at returned
          exact induction (preserved start next initially round) returned

/-- A loop that lowers a measure as often as it goes on ends. -/
theorem ends_of_measure (invariant : State → Prop) (measure : State → Nat)
    (lowered : ∀ state next, invariant state → body state = .again next →
      invariant next ∧ measure next < measure state)
    (initially : invariant start) : Ends body start := by
  suffices bounded : ∀ fuel state, invariant state → measure state < fuel →
      (iterate body fuel state).isSome from
    ⟨measure start + 1, bounded _ start initially (Nat.lt_succ_self _)⟩
  intro fuel
  induction fuel with
  | zero => intro state _ bound; omega
  | succ fuel induction =>
      intro state holds bound
      cases round : body state with
      | stop value => rw [iterate_of_stop round]; rfl
      | again next =>
          obtain ⟨nextHolds, less⟩ := lowered state next holds round
          rw [iterate_of_again round]
          exact induction next nextHolds (by omega)

/-- A loop that goes on wherever an invariant holds never ends. -/
theorem not_ends_of_invariant (invariant : State → Prop)
    (continues : ∀ state, invariant state →
      ∃ next, body state = .again next ∧ invariant next)
    (initially : invariant start) : ¬Ends body start := by
  rintro ⟨fuel, returned⟩
  induction fuel generalizing start with
  | zero => simp at returned
  | succ fuel induction =>
      obtain ⟨next, again, nextHolds⟩ := continues start initially
      rw [iterate_of_again again] at returned
      exact induction nextHolds returned

theorem ends_iff : Ends body start ↔ ∃ fuel result,
    iterate body fuel start = some result := by
  simp only [Ends, Option.isSome_iff_exists]

theorem ends_of_again (again : body state = .again next) :
    Ends body state ↔ Ends body next := by
  constructor
  · rintro ⟨fuel, returned⟩
    cases fuel with
    | zero => simp at returned
    | succ fuel => exact ⟨fuel, by rwa [iterate_of_again again] at returned⟩
  · rintro ⟨fuel, returned⟩
    exact ⟨fuel + 1, by rwa [iterate_of_again again]⟩

theorem Visits.invariant (invariant : State → Prop)
    (preserved : ∀ state next, invariant state → body state = .again next →
      invariant next)
    (visits : Visits body start state) (initially : invariant start) :
    invariant state := by
  induction visits with
  | here => exact initially
  | later again _ induction =>
      exact induction (preserved _ _ initially again)

end Loop
