import Mathlib.Data.List.Basic

/-!
# Machines, their runs and their invariants

Two kinds of machine are used by verification developments of event-driven
programs.  A handler is total: it maps a state and an input to the next state
and the outputs it produces.  A guarded system is partial: an action is only
enabled in some states.  Both come with one induction rule for invariants, and
handlers with one rule for output equivalence, so that a client proves what one
step does and never repeats the induction over runs.
-/

namespace Machine

section Handler

variable {State Input Output : Type*}

/-- Run a total handler over a list of inputs and collect its outputs. -/
def feed (handler : State → Input → State × List Output) :
    State → List Input → State × List Output
  | state, [] => (state, [])
  | state, input :: inputs =>
      let first := handler state input
      let rest := feed handler first.1 inputs
      (rest.1, first.2 ++ rest.2)

/-- Every input of the list meets `condition` in the state it arrives in. -/
def Admits (handler : State → Input → State × List Output)
    (condition : State → Input → Prop) : State → List Input → Prop
  | _, [] => True
  | state, input :: inputs =>
      condition state input ∧
        Admits handler condition (handler state input).1 inputs

variable {handler : State → Input → State × List Output}

@[simp]
theorem feed_nil (state : State) : feed handler state [] = (state, []) := rfl

theorem feed_cons (state : State) (input : Input) (inputs : List Input) :
    feed handler state (input :: inputs) =
      ((feed handler (handler state input).1 inputs).1,
        (handler state input).2 ++
          (feed handler (handler state input).1 inputs).2) := rfl

theorem feed_append (state : State) (first second : List Input) :
    feed handler state (first ++ second) =
      ((feed handler (feed handler state first).1 second).1,
        (feed handler state first).2 ++
          (feed handler (feed handler state first).1 second).2) := by
  induction first generalizing state with
  | nil => simp
  | cons input inputs induction =>
      simp only [List.cons_append, feed_cons, induction, List.append_assoc]

@[simp]
theorem admits_nil (condition : State → Input → Prop) (state : State) :
    Admits handler condition state [] := trivial

@[simp]
theorem admits_cons (condition : State → Input → Prop) (state : State)
    (input : Input) (inputs : List Input) :
    Admits handler condition state (input :: inputs) ↔
      condition state input ∧
        Admits handler condition (handler state input).1 inputs := Iff.rfl

theorem Admits.mono {weak strong : State → Input → Prop}
    (implies : ∀ state input, strong state input → weak state input)
    {state : State} {inputs : List Input}
    (admitted : Admits handler strong state inputs) :
    Admits handler weak state inputs := by
  induction inputs generalizing state with
  | nil => trivial
  | cons input inputs induction =>
      exact ⟨implies state input admitted.1, induction admitted.2⟩

theorem Admits.and {left right : State → Input → Prop} {state : State}
    {inputs : List Input} (first : Admits handler left state inputs)
    (second : Admits handler right state inputs) :
    Admits handler (fun state input => left state input ∧ right state input)
      state inputs := by
  induction inputs generalizing state with
  | nil => trivial
  | cons input inputs induction =>
      exact ⟨⟨first.1, second.1⟩, induction first.2 second.2⟩

/-- Conditions that agree wherever a third one holds admit the same inputs. -/
theorem admits_congr_of {assumed left right : State → Input → Prop}
    (agree : ∀ state input, assumed state input →
      (left state input ↔ right state input))
    {state : State} {inputs : List Input}
    (admitted : Admits handler assumed state inputs) :
    Admits handler left state inputs ↔ Admits handler right state inputs := by
  induction inputs generalizing state with
  | nil => exact Iff.rfl
  | cons input inputs induction =>
      exact and_congr (agree state input admitted.1) (induction admitted.2)

theorem admits_congr {left right : State → Input → Prop}
    (agree : ∀ state input, left state input ↔ right state input)
    (state : State) (inputs : List Input) :
    Admits handler left state inputs ↔ Admits handler right state inputs :=
  ⟨Admits.mono fun state input => (agree state input).mp,
    Admits.mono fun state input => (agree state input).mpr⟩

/-- The invariant rule: a relation between the state and everything output so
far that one admitted step preserves holds after every admitted run. -/
theorem feed_invariant {condition : State → Input → Prop}
    (invariant : State → List Output → Prop)
    (preserved : ∀ state outputs input, invariant state outputs →
      condition state input →
        invariant (handler state input).1
          (outputs ++ (handler state input).2))
    {state : State} {outputs : List Output} {inputs : List Input}
    (initially : invariant state outputs)
    (admitted : Admits handler condition state inputs) :
    invariant (feed handler state inputs).1
      (outputs ++ (feed handler state inputs).2) := by
  induction inputs generalizing state outputs with
  | nil => simpa using initially
  | cons input inputs induction =>
      have next := preserved state outputs input initially admitted.1
      have final := induction next admitted.2
      simpa only [feed_cons, List.append_assoc] using final

/-- What an invariant gives at every admitted input holds along the run. -/
theorem Admits.derive {condition derived : State → Input → Prop}
    (invariant : State → List Output → Prop)
    (preserved : ∀ state outputs input, invariant state outputs →
      condition state input →
        invariant (handler state input).1
          (outputs ++ (handler state input).2))
    (given : ∀ state outputs input, invariant state outputs →
      condition state input → derived state input)
    {state : State} {outputs : List Output} {inputs : List Input}
    (initially : invariant state outputs)
    (admitted : Admits handler condition state inputs) :
    Admits handler derived state inputs := by
  induction inputs generalizing state outputs with
  | nil => trivial
  | cons input inputs induction =>
      have next := preserved state outputs input initially admitted.1
      exact ⟨given state outputs input initially admitted.1,
        induction next admitted.2⟩

/-- The bisimulation rule: related states answer every input sequence with
the same outputs when one step keeps them related and answers alike. -/
theorem feed_outputs_eq_of_bisimulation {condition : Input → Prop}
    (related : State → State → Prop)
    (preserved : ∀ left right input, related left right → condition input →
      related (handler left input).1 (handler right input).1 ∧
        (handler left input).2 = (handler right input).2)
    {left right : State} (initially : related left right)
    {inputs : List Input} (allowed : ∀ input ∈ inputs, condition input) :
    (feed handler left inputs).2 = (feed handler right inputs).2 := by
  induction inputs generalizing left right with
  | nil => rfl
  | cons input inputs induction =>
      obtain ⟨nextRelated, sameOutput⟩ :=
        preserved left right input initially (allowed input (by simp))
      have rest := induction nextRelated
        (fun later member => allowed later (by simp [member]))
      simp only [feed_cons, sameOutput, rest]

end Handler

section Guarded

variable {State Action : Type*}

/-- Run a guarded system over a list of actions; `none` when one of them is
not enabled. -/
def run (step : State → Action → Option State) :
    State → List Action → Option State
  | state, [] => some state
  | state, action :: actions =>
      (step state action).bind fun next => run step next actions

/-- Every action of the list meets `condition` in the state it is taken in. -/
def Meets (step : State → Action → Option State)
    (condition : State → Action → Prop) : State → List Action → Prop
  | _, [] => True
  | state, action :: actions =>
      condition state action ∧
        ∀ next, step state action = some next →
          Meets step condition next actions

instance Meets.decidable {step : State → Action → Option State}
    {condition : State → Action → Prop}
    [∀ state action, Decidable (condition state action)] :
    ∀ state actions, Decidable (Meets step condition state actions)
  | _, [] => .isTrue trivial
  | state, action :: actions =>
      match taken : step state action with
      | none =>
          decidable_of_iff (condition state action)
            ⟨fun met => ⟨met, fun _ enabled => by simp [taken] at enabled⟩,
              And.left⟩
      | some next =>
          have : Decidable (Meets step condition next actions) :=
            Meets.decidable next actions
          decidable_of_iff
            (condition state action ∧ Meets step condition next actions)
            ⟨fun met => ⟨met.1, fun _ enabled => by
              rw [taken] at enabled
              exact Option.some.inj enabled ▸ met.2⟩,
              fun met => ⟨met.1, met.2 next taken⟩⟩

/-- Every state of the run has `property`. -/
def Throughout (step : State → Action → Option State)
    (property : State → Prop) : State → List Action → Prop
  | state, [] => property state
  | state, action :: actions =>
      property state ∧
        ∀ next, step state action = some next →
          Throughout step property next actions

/-- The states some list of actions leads to. -/
def Reachable (step : State → Action → Option State)
    (initial final : State) : Prop :=
  ∃ actions, run step initial actions = some final

variable {step : State → Action → Option State}

@[simp]
theorem run_nil (state : State) : run step state [] = some state := rfl

theorem run_cons (state : State) (action : Action) (actions : List Action) :
    run step state (action :: actions) =
      (step state action).bind fun next => run step next actions := rfl

theorem run_append (state : State) (first second : List Action) :
    run step state (first ++ second) =
      (run step state first).bind fun next => run step next second := by
  induction first generalizing state with
  | nil => simp
  | cons action actions induction =>
      simp only [List.cons_append, run_cons]
      cases step state action with
      | none => rfl
      | some next => simpa using induction next

/-- Two machines that agree on the actions of a run. -/
theorem run_congr {other : State → Action → Option State}
    {actions : List Action}
    (same : ∀ state, ∀ action ∈ actions, step state action = other state action)
    (state : State) : run step state actions = run other state actions := by
  induction actions generalizing state with
  | nil => rfl
  | cons action actions induction =>
      rw [run_cons, run_cons, same state action List.mem_cons_self]
      cases other state action with
      | none => rfl
      | some next =>
          exact induction
            (fun any later member =>
              same any later (List.mem_cons_of_mem _ member))
            next

/-- A machine that takes every step of another one takes its runs. -/
theorem run_mono {other : State → Action → Option State}
    (steps : ∀ state action next, step state action = some next →
      other state action = some next)
    {state final : State} {actions : List Action}
    (taken : run step state actions = some final) :
    run other state actions = some final := by
  induction actions generalizing state with
  | nil => exact taken
  | cons action actions induction =>
      rw [run_cons] at taken ⊢
      obtain ⟨next, stepped, rest⟩ := Option.bind_eq_some_iff.mp taken
      rw [steps state action next stepped, Option.bind_some]
      exact induction rest

theorem Reachable.refl (state : State) : Reachable step state state :=
  ⟨[], rfl⟩

theorem Reachable.trans {first second third : State}
    (left : Reachable step first second)
    (right : Reachable step second third) : Reachable step first third := by
  obtain ⟨leftActions, leftRun⟩ := left
  obtain ⟨rightActions, rightRun⟩ := right
  exact ⟨leftActions ++ rightActions, by simp [run_append, leftRun, rightRun]⟩

theorem Reachable.single {first second : State} (action : Action)
    (enabled : step first action = some second) :
    Reachable step first second :=
  ⟨[action], by simp [run_cons, enabled]⟩

theorem Reachable.tail {first second third : State}
    (left : Reachable step first second) (action : Action)
    (enabled : step second action = some third) :
    Reachable step first third :=
  left.trans (.single action enabled)

theorem meets_of_always {condition : State → Action → Prop}
    (always : ∀ state action, condition state action)
    (state : State) (actions : List Action) :
    Meets step condition state actions := by
  induction actions generalizing state with
  | nil => trivial
  | cons action actions induction =>
      exact ⟨always state action, fun next _ => induction next⟩

theorem Meets.and {left right : State → Action → Prop} {state : State}
    {actions : List Action} (first : Meets step left state actions)
    (second : Meets step right state actions) :
    Meets step (fun state action => left state action ∧ right state action)
      state actions := by
  induction actions generalizing state with
  | nil => trivial
  | cons action actions induction =>
      exact ⟨⟨first.1, second.1⟩, fun next enabled =>
        induction (first.2 next enabled) (second.2 next enabled)⟩

theorem meets_of_forall {condition : State → Action → Prop}
    {actions : List Action}
    (always : ∀ action ∈ actions, ∀ state, condition state action)
    (state : State) : Meets step condition state actions := by
  induction actions generalizing state with
  | nil => trivial
  | cons action actions induction =>
      refine ⟨always action List.mem_cons_self state, fun next _ => ?_⟩
      exact induction
        (fun later member => always later (List.mem_cons_of_mem _ member)) next

/-- The invariant rule of a guarded system, for runs whose every step meets a
condition on the state before it. -/
theorem run_invariant {condition : State → Action → Prop}
    (invariant : State → Prop)
    (preserved : ∀ state action next, invariant state →
      condition state action → step state action = some next →
        invariant next)
    {initial final : State} {actions : List Action}
    (initially : invariant initial)
    (meets : Meets step condition initial actions)
    (taken : run step initial actions = some final) : invariant final := by
  induction actions generalizing initial with
  | nil =>
      simp only [run_nil, Option.some.injEq] at taken
      exact taken ▸ initially
  | cons action actions induction =>
      rw [run_cons] at taken
      cases enabled : step initial action with
      | none => simp [enabled] at taken
      | some next =>
          simp only [enabled, Option.bind_some] at taken
          have nextInvariant :=
            preserved initial action next initially meets.1 enabled
          exact induction nextInvariant (meets.2 next enabled) taken

/-- What the actions of a run cost together. -/
def bill (cost : Action → Nat) : List Action → Nat
  | [] => 0
  | action :: actions => cost action + bill cost actions

/-- The accounting rule: when every step costs more than the measure grows by,
the costs of a run bound its length. -/
theorem length_le_of_measure (measure : State → Nat) (cost : Action → Nat)
    (invariant : State → Prop)
    (preserved : ∀ state action next, invariant state →
      step state action = some next → invariant next)
    (paid : ∀ state action next, invariant state →
      step state action = some next →
        measure next + 1 ≤ measure state + cost action)
    {initial final : State} {actions : List Action}
    (initially : invariant initial)
    (taken : run step initial actions = some final) :
    actions.length + measure final ≤ measure initial + bill cost actions := by
  induction actions generalizing initial with
  | nil =>
      obtain rfl := Option.some.inj taken
      simp [bill]
  | cons action actions induction =>
      obtain ⟨next, enabled, rest⟩ := Option.bind_eq_some_iff.mp taken
      have later := induction (preserved initial action next initially enabled)
        rest
      have now := paid initial action next initially enabled
      rw [List.length_cons, bill]
      omega

/-- How many of the actions of a run are counted. -/
def count (step : State → Action → Option State)
    (counted : State → Action → Prop)
    [∀ state action, Decidable (counted state action)] :
    State → List Action → Nat
  | _, [] => 0
  | state, action :: actions =>
      (if counted state action then 1 else 0) +
        (step state action).elim 0 fun next => count step counted next actions

section Agreeing

variable {other : State → Action → Option State}
  {condition : State → Action → Prop} {initial : State}
  {actions : List Action}

/-- Two machines that agree where a condition is met have the same runs there. -/
theorem run_congr_of_meets (invariant : State → Prop)
    (preserved : ∀ state action next, invariant state →
      other state action = some next → invariant next)
    (agree : ∀ state action, invariant state → condition state action →
      step state action = other state action)
    (initially : invariant initial)
    (meets : Meets step condition initial actions) :
    run step initial actions = run other initial actions := by
  induction actions generalizing initial with
  | nil => rfl
  | cons action actions induction =>
      have same := agree initial action initially meets.1
      rw [run_cons, run_cons, same]
      cases enabled : other initial action with
      | none => rfl
      | some next =>
          exact induction (preserved initial action next initially enabled)
            (meets.2 next (same.trans enabled))

/-- There they count the same actions. -/
theorem count_congr_of_meets {counted : State → Action → Prop}
    [∀ state action, Decidable (counted state action)]
    (invariant : State → Prop)
    (preserved : ∀ state action next, invariant state →
      other state action = some next → invariant next)
    (agree : ∀ state action, invariant state → condition state action →
      step state action = other state action)
    (initially : invariant initial)
    (meets : Meets step condition initial actions) :
    count step counted initial actions =
      count other counted initial actions := by
  induction actions generalizing initial with
  | nil => rfl
  | cons action actions induction =>
      have same := agree initial action initially meets.1
      rw [count, count, same]
      cases enabled : other initial action with
      | none => rfl
      | some next =>
          have later :=
            induction (preserved initial action next initially enabled)
              (meets.2 next (same.trans enabled))
          rw [Option.elim_some, Option.elim_some, later]

end Agreeing

/-- The progress rule: when no step adds to the measure and every counted one
takes from it, the measure bounds how many there are. -/
theorem count_add_measure_le {counted : State → Action → Prop}
    [∀ state action, Decidable (counted state action)]
    (measure : State → Nat) (invariant : State → Prop)
    (preserved : ∀ state action next, invariant state →
      step state action = some next → invariant next)
    (falls : ∀ state action next, invariant state →
      step state action = some next →
        measure next + (if counted state action then 1 else 0) ≤ measure state)
    {initial final : State} {actions : List Action}
    (initially : invariant initial)
    (taken : run step initial actions = some final) :
    count step counted initial actions + measure final ≤ measure initial := by
  induction actions generalizing initial with
  | nil =>
      obtain rfl := Option.some.inj taken
      exact Nat.le_of_eq (Nat.zero_add _)
  | cons action actions induction =>
      obtain ⟨next, enabled, rest⟩ := Option.bind_eq_some_iff.mp taken
      have later := induction (preserved initial action next initially enabled)
        rest
      have now := falls initial action next initially enabled
      rw [count, enabled, Option.elim_some]
      omega

/-- The unconditional invariant rule. -/
theorem Reachable.invariant (invariant : State → Prop)
    (preserved : ∀ state action next, invariant state →
      step state action = some next → invariant next)
    {initial final : State} (initially : invariant initial)
    (reachable : Reachable step initial final) : invariant final := by
  obtain ⟨actions, taken⟩ := reachable
  exact run_invariant invariant
    (fun state action next holds _ => preserved state action next holds)
    initially (meets_of_always (fun _ _ => trivial) initial actions) taken

/-- The steps of a run that meet one condition meet another one, if an invariant
that they keep gives it. -/
theorem Meets.derive {assumed derived : State → Action → Prop}
    (invariant : State → Prop)
    (preserved : ∀ state action next, invariant state →
      assumed state action → step state action = some next → invariant next)
    (enough : ∀ state action next, invariant state →
      assumed state action → step state action = some next →
        derived state action)
    {initial final : State} {actions : List Action}
    (initially : invariant initial)
    (meets : Meets step assumed initial actions)
    (taken : run step initial actions = some final) :
    Meets step derived initial actions := by
  induction actions generalizing initial with
  | nil => trivial
  | cons action actions induction =>
      rw [run_cons] at taken
      cases enabled : step initial action with
      | none => simp [enabled] at taken
      | some next =>
          simp only [enabled, Option.bind_some] at taken
          refine ⟨enough initial action next initially meets.1 enabled, ?_⟩
          intro other same
          obtain rfl := Option.some.inj (enabled.symm.trans same)
          exact induction
            (preserved initial action next initially meets.1 enabled)
            (meets.2 next enabled) taken

/-- Every run meets a condition that all enabled actions meet where an invariant
holds. -/
theorem meets_of_enabled {condition : State → Action → Prop}
    (invariant : State → Prop)
    (preserved : ∀ state action next, invariant state →
      step state action = some next → invariant next)
    (enough : ∀ state action next, invariant state →
      step state action = some next → condition state action)
    {initial final : State} {actions : List Action}
    (initially : invariant initial)
    (taken : run step initial actions = some final) :
    Meets step condition initial actions :=
  Meets.derive invariant
    (fun state action next holds _ => preserved state action next holds)
    (fun state action next holds _ => enough state action next holds)
    initially (meets_of_always (fun _ _ => trivial) initial actions) taken

/-- The dichotomy rule: when an invariant and a condition on a step give the
invariant again, and the invariant without the condition spoils a property, the
runs with the property in every state are those that always meet the condition. -/
theorem throughout_iff_meets {condition : State → Action → Prop}
    {property : State → Prop} (invariant : State → Prop)
    (sound : ∀ state, invariant state → property state)
    (preserved : ∀ state action next, invariant state →
      condition state action → step state action = some next →
        invariant next)
    (spoiled : ∀ state action next, invariant state →
      ¬condition state action → step state action = some next →
        ¬property next)
    {initial final : State} {actions : List Action}
    (initially : invariant initial)
    (taken : run step initial actions = some final) :
    Throughout step property initial actions ↔
      Meets step condition initial actions := by
  induction actions generalizing initial with
  | nil => exact iff_of_true (sound initial initially) trivial
  | cons action actions induction =>
      rw [run_cons] at taken
      cases enabled : step initial action with
      | none => simp [enabled] at taken
      | some next =>
          simp only [enabled, Option.bind_some] at taken
          by_cases met : condition initial action
          · have nextInvariant :=
              preserved initial action next initially met enabled
            have rest := induction nextInvariant taken
            simp only [Throughout, Meets, enabled, Option.some.injEq,
              forall_eq', rest, met, sound initial initially, true_and]
          · refine iff_of_false ?_ fun meets => met meets.1
            intro throughout
            have onNext := throughout.2 next enabled
            have property := spoiled initial action next initially met enabled
            cases actions with
            | nil => exact property onNext
            | cons later actions => exact property onNext.1

/-- What a step cannot establish holds at the start of a run if at its end. -/
theorem run_reflects {property : State → Prop}
    (before : ∀ state action next, step state action = some next →
      property next → property state)
    {initial final : State} {actions : List Action}
    (taken : run step initial actions = some final)
    (last : property final) : property initial := by
  induction actions generalizing initial with
  | nil => exact Option.some.inj taken ▸ last
  | cons action actions induction =>
      obtain ⟨next, enabled, rest⟩ := Option.bind_eq_some_iff.mp taken
      exact before initial action next enabled (induction rest)

/-- The dichotomy rule for a property of what has happened: a state never has
it again once it is lost. -/
theorem final_iff_meets {assumed condition : State → Action → Prop}
    {property : State → Prop} (invariant : State → Prop)
    (sound : ∀ state, invariant state → property state)
    (before : ∀ state action next, step state action = some next →
      property next → property state)
    (preserved : ∀ state action next, invariant state →
      assumed state action → condition state action →
        step state action = some next → invariant next)
    (spoiled : ∀ state action next, invariant state → assumed state action →
      ¬condition state action → step state action = some next →
        ¬property next)
    {initial final : State} {actions : List Action}
    (initially : invariant initial)
    (meets : Meets step assumed initial actions)
    (taken : run step initial actions = some final) :
    property final ↔ Meets step condition initial actions := by
  induction actions generalizing initial with
  | nil =>
      obtain rfl := Option.some.inj taken
      exact iff_of_true (sound initial initially) trivial
  | cons action actions induction =>
      rw [run_cons] at taken
      cases enabled : step initial action with
      | none => simp [enabled] at taken
      | some next =>
          simp only [enabled, Option.bind_some] at taken
          by_cases met : condition initial action
          · have nextInvariant :=
              preserved initial action next initially meets.1 met enabled
            rw [induction nextInvariant (meets.2 next enabled) taken]
            simp only [Meets, met, enabled, Option.some.injEq, forall_eq',
              true_and]
          · refine iff_of_false ?_ fun also => met also.1
            intro last
            have lost :=
              spoiled initial action next initially meets.1 met enabled
            exact lost (run_reflects before taken last)

/-- The runs of a system that keeps a record of another one are runs of that
one. -/
theorem run_project {Recorded : Type*}
    {recorded : Recorded → Action → Option Recorded}
    (project : Recorded → State)
    (agree : ∀ state action next, recorded state action = some next →
      step (project state) action = some (project next))
    {initial final : Recorded} {actions : List Action}
    (taken : run recorded initial actions = some final) :
    run step (project initial) actions = some (project final) := by
  induction actions generalizing initial with
  | nil => exact congrArg (Option.map project) taken
  | cons action actions induction =>
      rw [run_cons] at taken ⊢
      cases enabled : recorded initial action with
      | none => simp [enabled] at taken
      | some next =>
          simp only [enabled, Option.bind_some] at taken
          rw [agree initial action next enabled, Option.bind_some]
          exact induction taken

/-- A system that keeps a record of another one takes all of its runs. -/
theorem run_lift {Recorded : Type*}
    {recorded : Recorded → Action → Option Recorded}
    (project : Recorded → State)
    (agree : ∀ state action next, step (project state) action = some next →
      ∃ after, recorded state action = some after ∧ project after = next)
    {initial : Recorded} {final : State} {actions : List Action}
    (taken : run step (project initial) actions = some final) :
    ∃ after, run recorded initial actions = some after ∧
      project after = final := by
  induction actions generalizing initial with
  | nil => exact ⟨initial, rfl, Option.some.inj taken⟩
  | cons action actions induction =>
      rw [run_cons] at taken
      cases enabled : step (project initial) action with
      | none => simp [enabled] at taken
      | some next =>
          simp only [enabled, Option.bind_some] at taken
          obtain ⟨after, recordedStep, rfl⟩ := agree initial action next enabled
          obtain ⟨last, rest, same⟩ := induction taken
          exact ⟨last, by rw [run_cons, recordedStep]; exact rest, same⟩

end Guarded

end Machine
