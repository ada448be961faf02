import IncEmulation.ThreadPool.Jobs

/-!
# Waiting for the thread pool

`thpool_wait` reads `len` and then `num_threads_working`, while threads pull
jobs in between.  A thread counts itself before it pulls, and the lock keeps
the count from changing between the two reads, so that two zeros say that all
jobs there were at the call are completed.
-/

namespace IncEmulation.ThreadPool

open Crowd Function Machine

variable {Work : Type*}

def Thread.share (stage : Thread Work) : Nat :=
  stage.working.toNat

/-- `num_threads_working` is what its name says. -/
structure Counted (numThreads : Nat) (pool : Pool Work) : Prop where
  working : pool.numThreadsWorking =
    (weigh numThreads Thread.share pool.threads : Nat)
  outside : ∀ index, numThreads ≤ index → pool.threads index = .testing

section Counting

variable {numThreads numCallers : Nat} {pool next : Pool Work}
  {event : Event Work}

theorem counted_init (numThreads : Nat) :
    Counted numThreads (thpoolInit : Pool Work) where
  working := by
    have nobody : weigh numThreads Thread.share
        (thpoolInit : Pool Work).threads = 0 :=
      weigh_eq_zero_iff.mpr fun _ _ => rfl
    rw [nobody]
    rfl
  outside _ _ := rfl

theorem share_signal {threads after : Nat → Thread Work}
    {woken : Option Nat}
    (signalled : signal numThreads Thread.sleeps .testing threads woken =
      some after) :
    weigh numThreads Thread.share after =
      weigh numThreads Thread.share threads := by
  refine weigh_signal (fun stage down => ?_) signalled
  rw [Thread.sleeps_iff.mp down]
  rfl

theorem Counted.update {index : Nat} {before after : Thread Work}
    (counted : Counted numThreads pool) (bound : index < numThreads)
    (stage : pool.threads index = before)
    (threads : next.threads = update pool.threads index after)
    (working : next.numThreadsWorking =
      pool.numThreadsWorking + after.share - before.share) :
    Counted numThreads next := by
  constructor
  · have changed := weigh_update Thread.share pool.threads bound after
    have was := counted.working
    rw [stage] at changed
    rw [threads, working]
    omega
  · intro other beyond
    rw [threads, update_of_ne (by omega), counted.outside other beyond]

theorem Counted.signal {woken : Option Nat}
    (counted : Counted numThreads pool)
    (signalled : signal numThreads Thread.sleeps .testing pool.threads
      woken = some next.threads)
    (working : next.numThreadsWorking = pool.numThreadsWorking) :
    Counted numThreads next := by
  constructor
  · rw [share_signal signalled, working]
    exact counted.working
  · intro other beyond
    rcases signal_frame signalled other with same | ⟨within, _⟩
    · rw [same, counted.outside other beyond]
    · omega

theorem Counted.moves (counted : Counted numThreads pool)
    (moves : Moves numThreads numCallers pool event next) :
    Counted numThreads next := by
  cases moves with
  | takes bound stage =>
      exact counted.update bound stage rfl (by simp [Thread.share, Thread.working])
  | dozes bound stage =>
      exact counted.update bound stage rfl (by simp [Thread.share, Thread.working])
  | counts bound stage =>
      exact counted.update bound stage rfl (by simp [Thread.share, Thread.working])
  | misses bound stage =>
      exact counted.update bound stage rfl (by simp [Thread.share, Thread.working])
  | pullsLast bound stage =>
      exact counted.update bound stage rfl (by simp [Thread.share, Thread.working])
  | pulls bound stage =>
      exact counted.update bound stage rfl (by simp [Thread.share, Thread.working])
  | @reposts index _ job threads bound stage signalled =>
      have posted : Counted numThreads { pool with threads := threads } :=
        counted.signal signalled rfl
      have kept : threads index = .reposting job := by
        rw [signal_of_awake signalled (by rw [stage]; rfl), stage]
      exact posted.update bound kept rfl (by simp [Thread.share, Thread.working])
  | completes bound stage =>
      exact counted.update bound stage rfl (by simp [Thread.share, Thread.working])
  | leaves bound stage =>
      exact counted.update bound stage rfl (by simp [Thread.share, Thread.working])
  | leavesLast bound stage _ last =>
      refine counted.update bound stage rfl ?_
      rw [← last]
      simp [Thread.share, Thread.working]
  | posts _ _ signalled => exact counted.signal signalled rfl
  | rousesThread bound stage =>
      exact counted.update bound stage rfl (by simp [Thread.share, Thread.working])
  | _ => exact ⟨counted.working, counted.outside⟩

theorem working_of_job? {stage : Thread Work} {job : Job Work}
    (holds : stage.job? = some job) : stage.working = true := by
  cases stage <;> first | rfl | cases holds

theorem Counted.holds_of_idle (counted : Counted numThreads pool)
    (idle : pool.numThreadsWorking = 0) (index : Nat) :
    pool.holds index = none := by
  rw [Option.eq_none_iff_forall_ne_some]
  intro job holds
  have works := working_of_job? holds
  have bound : index < numThreads := by
    by_contra beyond
    rw [counted.outside index (not_lt.mp beyond)] at works
    cases works
  have working := counted.working
  rw [idle] at working
  have nobody : weigh numThreads Thread.share pool.threads = 0 := by omega
  have unshared := weigh_eq_zero_iff.mp nobody index bound
  rw [Thread.share, works] at unshared
  cases unshared

end Counting

/-- What the callers of `thpool_wait` know about the jobs there were at their
calls. -/
structure Awaited (pool : Pool Work) : Prop where
  bound : ∀ caller, pool.due caller ≤ pool.added.length
  emptied : ∀ caller, pool.callers caller = .emptied →
    ∀ job ∈ pool.added, job.serial < pool.due caller → job ∈ pool.pulled
  returned : ∀ caller, (pool.callers caller).waits = false →
    ∀ job ∈ pool.added, job.serial < pool.due caller → job ∈ pool.completed

section Waiting

variable {numThreads numCallers : Nat} {pool next : Pool Work}
  {event : Event Work}

/-- What a step means for one caller: only two kinds of step let it know more
about the jobs. -/
theorem Moves.caller (moves : Moves numThreads numCallers pool event next)
    (caller : Nat) :
    (next.due caller = pool.due caller ∧
      ((next.callers caller).waits = false →
        (pool.callers caller).waits = false) ∧
      (next.callers caller = .emptied → pool.callers caller = .emptied)) ∨
    (next.due caller = pool.added.length ∧
      (next.callers caller).waits = true ∧
        next.callers caller ≠ .emptied) ∨
    (next.due caller = pool.due caller ∧ pool.queue = [] ∧
      next.callers caller = .emptied) ∨
    (next.due caller = pool.due caller ∧ pool.numThreadsWorking = 0 ∧
      pool.callers caller = .emptied ∧ next.callers caller = .away) := by
  have unchanged : ∀ stage : Caller, (stage.waits = false →
      stage.waits = false) ∧ (stage = .emptied → stage = .emptied) :=
    fun _ => ⟨id, id⟩
  cases moves with
  | @adds other _ bound stage =>
      by_cases same : caller = other
      · subst same
        simp [jobqueuePush, stage, Caller.waits]
      · simp [jobqueuePush, same]
  | @waits other bound stage =>
      by_cases same : caller = other
      · subst same
        simp [Caller.waits]
      · simp [same]
  | @leavesLast _ _ callers _ _ _ _ signalled =>
      rcases signal_frame signalled caller with same | ⟨_, _, up⟩
      · simp [same]
      · simp [up, Caller.waits]
  | @posts other _ _ bound stage =>
      by_cases same : caller = other
      · subst same
        simp [stage, Caller.waits]
      · simp [same]
  | @locks other _ bound stage =>
      by_cases same : caller = other
      · subst same
        simp [Caller.waits]
      · simp [same]
  | @seesJobs other _ bound stage =>
      by_cases same : caller = other
      · subst same
        simp [condWait, Caller.waits]
      · simp [condWait, same]
  | @seesEmpty other _ bound stage queue =>
      by_cases same : caller = other
      · subst same
        simp [queue]
      · simp [same]
  | @seesWorking other _ bound stage =>
      by_cases same : caller = other
      · subst same
        simp [condWait, Caller.waits]
      · simp [condWait, same]
  | @returns other _ bound stage idle =>
      by_cases same : caller = other
      · subst same
        simp [idle, stage]
      · simp [same]
  | @rousesCaller other bound stage =>
      by_cases same : caller = other
      · subst same
        simp [Caller.waits]
      · simp [same]
  | _ => exact .inl ⟨rfl, unchanged _⟩

theorem awaited_init : Awaited (thpoolInit : Pool Work) where
  bound _ := Nat.zero_le _
  emptied _ stage := by cases stage
  returned _ _ _ member := absurd member List.not_mem_nil

theorem Moved.length_le (moved : Moved pool next) :
    pool.added.length ≤ next.added.length := by
  rcases moved.added with same | ⟨_, _, grown⟩
  · rw [same]
  · rw [grown, List.length_append]
    exact Nat.le_add_right ..

theorem Moved.mem_added_of_lt (moved : Moved pool next) {job : Job Work}
    (member : job ∈ next.added) (early : job.serial < pool.added.length) :
    job ∈ pool.added := by
  rcases moved.added with same | ⟨_, _, grown⟩
  · rwa [same] at member
  · rw [grown] at member
    rcases List.mem_append.mp member with old | new
    · exact old
    · rw [List.mem_singleton.mp new] at early
      exact absurd early (lt_irrefl _)

theorem Awaited.moves (awaited : Awaited pool) (tracked : Tracked pool)
    (counted : Counted numThreads pool)
    (moves : Moves numThreads numCallers pool event next) :
    Awaited next := by
  have moved := moves.moved
  have early : ∀ caller, next.due caller = pool.due caller →
      ∀ job ∈ next.added, job.serial < next.due caller →
        job ∈ pool.added ∧ job.serial < pool.due caller := by
    intro caller due job member before
    rw [due] at before
    exact ⟨moved.mem_added_of_lt member
      (before.trans_le (awaited.bound caller)), before⟩
  refine ⟨fun caller => ?_, fun caller => ?_, fun caller => ?_⟩
  · have grown := moved.length_le
    have bound := awaited.bound caller
    rcases moves.caller caller with
      ⟨due, _⟩ | ⟨due, _⟩ | ⟨due, _⟩ | ⟨due, _⟩ <;> omega
  · intro stage job member before
    rcases moves.caller caller with
      ⟨due, _, also⟩ | ⟨_, _, never⟩ | ⟨due, empty, _⟩ | ⟨_, _, _, away⟩
    · have old := early caller due job member before
      exact moved.mem_pulled
        (awaited.emptied caller (also stage) job old.1 old.2)
    · exact absurd stage never
    · have old := (early caller due job member before).1
      rw [Pool.added, empty, List.append_nil] at old
      exact moved.mem_pulled old
    · rw [away] at stage
      cases stage
  · intro stage job member before
    rcases moves.caller caller with
      ⟨due, also, _⟩ | ⟨_, waits, _⟩ | ⟨_, _, emptied⟩ |
        ⟨due, idle, emptied, _⟩
    · have old := early caller due job member before
      exact moved.mem_completed
        (awaited.returned caller (also stage) job old.1 old.2)
    · rw [waits] at stage
      cases stage
    · rw [emptied] at stage
      cases stage
    · have old := early caller due job member before
      have pulled := awaited.emptied caller emptied job old.1 old.2
      rcases tracked.covered job pulled with done | ⟨index, held⟩
      · exact moved.mem_completed done
      · rw [counted.holds_of_idle idle index] at held
        cases held

end Waiting

/-- What is known of every state of the pool. -/
structure Invariant (numThreads : Nat) (pool : Pool Work) : Prop where
  tracked : Tracked pool
  counted : Counted numThreads pool
  awaited : Awaited pool

section Runs

variable {numThreads numCallers : Nat} {pool next final : Pool Work}
  {event : Event Work} {events : List (Event Work)}

theorem invariant_init (numThreads : Nat) :
    Invariant numThreads (thpoolInit : Pool Work) :=
  ⟨tracked_init, counted_init numThreads, awaited_init⟩

theorem Invariant.moves (invariant : Invariant numThreads pool)
    (moves : Moves numThreads numCallers pool event next) :
    Invariant numThreads next :=
  ⟨invariant.tracked.moved moves.moved, invariant.counted.moves moves,
    invariant.awaited.moves invariant.tracked invariant.counted moves⟩

theorem Invariant.run (invariant : Invariant numThreads pool)
    (taken : Machine.run (step numThreads numCallers) pool events = some final) :
    Invariant numThreads final :=
  Reachable.invariant (Invariant numThreads)
    (fun _ _ _ before stepped => before.moves (step_moves stepped))
    invariant ⟨events, taken⟩

end Runs

end IncEmulation.ThreadPool
