import IncEmulation.Lib.Crowd
import IncEmulation.Lib.Machine
import Mathlib.Logic.Function.Basic

/-!
# The thread pool

The pool of `thpool.c`: threads that loop over `bsem_wait`, `jobqueue_pull` and
the job, and callers of `thpool_add_work` and `thpool_wait`.  A step of the
machine is one critical section of one of the locks, so all interleavings of
threads and callers are its runs.  `pulled`, `completed` and `due` only record
what has happened.
-/

namespace IncEmulation.ThreadPool

open Crowd Function

variable {Work : Type*}

/-- A job: its function and argument are the `work`.  The call that added it is
known by its caller and by the number of jobs added before. -/
structure Job (Work : Type*) where
  owner : Nat
  serial : Nat
  work : Work
  deriving DecidableEq

/-- Where a thread is in the loop of `thread_do`. -/
inductive Thread (Work : Type*) where
  /-- in `bsem_wait`, about to test the semaphore -/
  | testing
  /-- in `pthread_cond_wait` of `bsem_wait` -/
  | asleep
  /-- out of `bsem_wait`, not yet counted as working -/
  | awake
  /-- about to call `jobqueue_pull` -/
  | counted
  /-- in `jobqueue_pull`, about to post the semaphore again -/
  | reposting (job : Job Work)
  | running (job : Job Work)
  /-- about to leave the count of working threads -/
  | finished
  deriving DecidableEq

/-- Where a caller is. -/
inductive Caller where
  | away
  /-- in `jobqueue_push`, about to post the semaphore -/
  | posting
  /-- in `thpool_wait`, without `thcount_lock` -/
  | locking
  /-- about to read `len` -/
  | testing
  /-- has read `len = 0`, about to read `num_threads_working` -/
  | emptied
  /-- in `pthread_cond_wait` of `thpool_wait` -/
  | asleep
  deriving DecidableEq

inductive Party where
  | thread (index : Nat)
  | caller (index : Nat)
  deriving DecidableEq

structure Pool (Work : Type*) where
  /-- `front` to `rear` -/
  queue : List (Job Work)
  /-- the value of `has_jobs` -/
  v : Bool
  rwmutex : Option Party
  thcountLock : Option Nat
  numThreadsWorking : Int
  threads : Nat → Thread Work
  callers : Nat → Caller
  pulled : List (Job Work)
  completed : List (Job Work)
  /-- how many jobs there were at the last call of `thpool_wait` -/
  due : Nat → Nat

/-- A signal of a condition variable names the party it wakes. -/
inductive Event (Work : Type*) where
  | addWork (caller : Nat) (work : Work)
  | wait (caller : Nat)
  | thread (index : Nat) (woken : Option Nat)
  | caller (index : Nat) (woken : Option Nat)
  /-- a spurious wakeup in `bsem_wait` -/
  | rouseThread (index : Nat)
  /-- a spurious wakeup in `thpool_wait` -/
  | rouseCaller (index : Nat)

/-- The job a thread has pulled and not completed. -/
def Thread.job? : Thread Work → Option (Job Work)
  | .reposting job => some job
  | .running job => some job
  | _ => none

/-- Between `num_threads_working++` and `num_threads_working--`. -/
def Thread.working : Thread Work → Bool
  | .counted | .reposting _ | .running _ | .finished => true
  | _ => false

def Thread.sleeps : Thread Work → Bool
  | .asleep => true
  | _ => false

def Caller.sleeps : Caller → Bool
  | .asleep => true
  | _ => false

/-- In `thpool_wait`. -/
def Caller.waits : Caller → Bool
  | .away | .posting => false
  | _ => true

namespace Pool

/-- All jobs, in the order they were added in. -/
def added (pool : Pool Work) : List (Job Work) :=
  pool.pulled ++ pool.queue

end Pool

def thpoolInit : Pool Work where
  queue := []
  v := false
  rwmutex := none
  thcountLock := none
  numThreadsWorking := 0
  threads _ := .testing
  callers _ := .away
  pulled := []
  completed := []
  due _ := 0

variable (numThreads numCallers : Nat) (pool : Pool Work)

def bsemWait (index : Nat) : Pool Work :=
  if pool.v then
    { pool with v := false, threads := update pool.threads index .awake }
  else
    { pool with threads := update pool.threads index .asleep }

/-- The call signals: one thread goes on, or none sleeps. -/
def bsemPost (woken : Option Nat) : Option (Pool Work) :=
  (signal numThreads Thread.sleeps .testing pool.threads woken).map
    fun threads => { pool with v := true, threads := threads }

/-- `jobqueue_push` up to its call of `bsem_post`. -/
def jobqueuePush (caller : Nat) (work : Work) : Pool Work :=
  { pool with
    queue := pool.queue ++ [⟨caller, pool.added.length, work⟩]
    rwmutex := some (.caller caller)
    callers := update pool.callers caller .posting }

/-- `jobqueue_pull`: only with more than one job it goes on to `bsem_post`,
within the lock. -/
def jobqueuePull (index : Nat) : Pool Work :=
  match pool.queue with
  | [] => { pool with threads := update pool.threads index .finished }
  | [job] =>
      { pool with
        queue := []
        pulled := pool.pulled ++ [job]
        threads := update pool.threads index (.running job) }
  | job :: rest =>
      { pool with
        queue := rest
        pulled := pool.pulled ++ [job]
        rwmutex := some (.thread index)
        threads := update pool.threads index (.reposting job) }

/-- The end of a round of `thread_do`: the last working thread signals
`threads_all_idle`. -/
def leaveCount (index : Nat) (woken : Option Nat) : Option (Pool Work) :=
  let working := pool.numThreadsWorking - 1
  let left := { pool with
    numThreadsWorking := working
    threads := update pool.threads index .testing }
  if working = 0 then
    (signal numCallers Caller.sleeps .locking pool.callers woken).map
      fun callers => { left with callers := callers }
  else
    some left

/-- The next step of a thread in the loop of `thread_do`. -/
def threadDo (index : Nat) (woken : Option Nat) : Option (Pool Work) :=
  match pool.threads index with
  | .testing => some (bsemWait pool index)
  | .asleep => none
  | .awake =>
      if pool.thcountLock = none then
        some { pool with
          numThreadsWorking := pool.numThreadsWorking + 1
          threads := update pool.threads index .counted }
      else
        none
  | .counted =>
      if pool.rwmutex = none then some (jobqueuePull pool index) else none
  | .reposting job =>
      (bsemPost numThreads pool woken).map fun posted =>
        { posted with
          rwmutex := none
          threads := update posted.threads index (.running job) }
  | .running job =>
      some { pool with
        completed := pool.completed ++ [job]
        threads := update pool.threads index .finished }
  | .finished =>
      if pool.thcountLock = none then
        leaveCount numCallers pool index woken
      else
        none

/-- `pthread_cond_wait` gives the lock back. -/
def condWait (caller : Nat) : Pool Work :=
  { pool with
    thcountLock := none
    callers := update pool.callers caller .asleep }

/-- The next step of a caller in `thpool_add_work` or `thpool_wait`. -/
def callerDo (index : Nat) (woken : Option Nat) : Option (Pool Work) :=
  match pool.callers index with
  | .away => none
  | .posting =>
      (bsemPost numThreads pool woken).map fun posted =>
        { posted with
          rwmutex := none
          callers := update pool.callers index .away }
  | .locking =>
      if pool.thcountLock = none then
        some { pool with
          thcountLock := some index
          callers := update pool.callers index .testing }
      else
        none
  | .testing =>
      if pool.queue.length ≠ 0 then
        some (condWait pool index)
      else
        some { pool with callers := update pool.callers index .emptied }
  | .emptied =>
      if pool.numThreadsWorking ≠ 0 then
        some (condWait pool index)
      else
        some { pool with
          thcountLock := none
          callers := update pool.callers index .away }
  | .asleep => none

/-- One step of one thread or caller. -/
def step : Event Work → Option (Pool Work)
  | .addWork caller work =>
      if caller < numCallers ∧ pool.callers caller = .away ∧
          pool.rwmutex = none then
        some (jobqueuePush pool caller work)
      else
        none
  | .wait caller =>
      if caller < numCallers ∧ pool.callers caller = .away then
        some { pool with
          callers := update pool.callers caller .locking
          due := update pool.due caller pool.added.length }
      else
        none
  | .thread index woken =>
      if index < numThreads then
        threadDo numThreads numCallers pool index woken
      else
        none
  | .caller index woken =>
      if index < numCallers then
        callerDo numThreads pool index woken
      else
        none
  | .rouseThread index =>
      if index < numThreads ∧ (pool.threads index).sleeps = true then
        some { pool with threads := update pool.threads index .testing }
      else
        none
  | .rouseCaller index =>
      if index < numCallers ∧ (pool.callers index).sleeps = true then
        some { pool with callers := update pool.callers index .locking }
      else
        none

variable {numThreads numCallers pool}

section Steps

variable {next : Pool Work} {event : Event Work}

/-- What a step can do. -/
inductive Moves (numThreads numCallers : Nat) (pool : Pool Work) :
    Event Work → Pool Work → Prop where
  | adds {caller : Nat} {work : Work} (bound : caller < numCallers)
      (stage : pool.callers caller = .away) (free : pool.rwmutex = none) :
      Moves numThreads numCallers pool (.addWork caller work)
        (jobqueuePush pool caller work)
  | waits {caller : Nat} (bound : caller < numCallers)
      (stage : pool.callers caller = .away) :
      Moves numThreads numCallers pool (.wait caller)
        { pool with
          callers := update pool.callers caller .locking
          due := update pool.due caller pool.added.length }
  | takes {index : Nat} {woken : Option Nat} (bound : index < numThreads)
      (stage : pool.threads index = .testing) (posted : pool.v = true) :
      Moves numThreads numCallers pool (.thread index woken)
        { pool with
          v := false
          threads := update pool.threads index .awake }
  | dozes {index : Nat} {woken : Option Nat} (bound : index < numThreads)
      (stage : pool.threads index = .testing) (down : pool.v = false) :
      Moves numThreads numCallers pool (.thread index woken)
        { pool with threads := update pool.threads index .asleep }
  | counts {index : Nat} {woken : Option Nat} (bound : index < numThreads)
      (stage : pool.threads index = .awake) (free : pool.thcountLock = none) :
      Moves numThreads numCallers pool (.thread index woken)
        { pool with
          numThreadsWorking := pool.numThreadsWorking + 1
          threads := update pool.threads index .counted }
  | misses {index : Nat} {woken : Option Nat} (bound : index < numThreads)
      (stage : pool.threads index = .counted) (free : pool.rwmutex = none)
      (queue : pool.queue = []) :
      Moves numThreads numCallers pool (.thread index woken)
        { pool with threads := update pool.threads index .finished }
  | pullsLast {index : Nat} {woken : Option Nat} {job : Job Work}
      (bound : index < numThreads) (stage : pool.threads index = .counted)
      (free : pool.rwmutex = none) (queue : pool.queue = [job]) :
      Moves numThreads numCallers pool (.thread index woken)
        { pool with
          queue := []
          pulled := pool.pulled ++ [job]
          threads := update pool.threads index (.running job) }
  | pulls {index : Nat} {woken : Option Nat} {job : Job Work}
      {rest : List (Job Work)} (bound : index < numThreads)
      (stage : pool.threads index = .counted) (free : pool.rwmutex = none)
      (queue : pool.queue = job :: rest) (more : rest ≠ []) :
      Moves numThreads numCallers pool (.thread index woken)
        { pool with
          queue := rest
          pulled := pool.pulled ++ [job]
          rwmutex := some (.thread index)
          threads := update pool.threads index (.reposting job) }
  | reposts {index : Nat} {woken : Option Nat} {job : Job Work}
      {threads : Nat → Thread Work} (bound : index < numThreads)
      (stage : pool.threads index = .reposting job)
      (signalled : signal numThreads Thread.sleeps .testing pool.threads
        woken = some threads) :
      Moves numThreads numCallers pool (.thread index woken)
        { pool with
          v := true
          rwmutex := none
          threads := update threads index (.running job) }
  | completes {index : Nat} {woken : Option Nat} {job : Job Work}
      (bound : index < numThreads)
      (stage : pool.threads index = .running job) :
      Moves numThreads numCallers pool (.thread index woken)
        { pool with
          completed := pool.completed ++ [job]
          threads := update pool.threads index .finished }
  | leaves {index : Nat} {woken : Option Nat} (bound : index < numThreads)
      (stage : pool.threads index = .finished)
      (free : pool.thcountLock = none)
      (others : pool.numThreadsWorking - 1 ≠ 0) :
      Moves numThreads numCallers pool (.thread index woken)
        { pool with
          numThreadsWorking := pool.numThreadsWorking - 1
          threads := update pool.threads index .testing }
  | leavesLast {index : Nat} {woken : Option Nat} {callers : Nat → Caller}
      (bound : index < numThreads) (stage : pool.threads index = .finished)
      (free : pool.thcountLock = none)
      (last : pool.numThreadsWorking - 1 = 0)
      (signalled : signal numCallers Caller.sleeps .locking pool.callers
        woken = some callers) :
      Moves numThreads numCallers pool (.thread index woken)
        { pool with
          numThreadsWorking := 0
          threads := update pool.threads index .testing
          callers := callers }
  | posts {index : Nat} {woken : Option Nat} {threads : Nat → Thread Work}
      (bound : index < numCallers) (stage : pool.callers index = .posting)
      (signalled : signal numThreads Thread.sleeps .testing pool.threads
        woken = some threads) :
      Moves numThreads numCallers pool (.caller index woken)
        { pool with
          v := true
          rwmutex := none
          threads := threads
          callers := update pool.callers index .away }
  | locks {index : Nat} {woken : Option Nat} (bound : index < numCallers)
      (stage : pool.callers index = .locking)
      (free : pool.thcountLock = none) :
      Moves numThreads numCallers pool (.caller index woken)
        { pool with
          thcountLock := some index
          callers := update pool.callers index .testing }
  | seesJobs {index : Nat} {woken : Option Nat} (bound : index < numCallers)
      (stage : pool.callers index = .testing) (queue : pool.queue ≠ []) :
      Moves numThreads numCallers pool (.caller index woken)
        (condWait pool index)
  | seesEmpty {index : Nat} {woken : Option Nat} (bound : index < numCallers)
      (stage : pool.callers index = .testing) (queue : pool.queue = []) :
      Moves numThreads numCallers pool (.caller index woken)
        { pool with callers := update pool.callers index .emptied }
  | seesWorking {index : Nat} {woken : Option Nat}
      (bound : index < numCallers) (stage : pool.callers index = .emptied)
      (working : pool.numThreadsWorking ≠ 0) :
      Moves numThreads numCallers pool (.caller index woken)
        (condWait pool index)
  | returns {index : Nat} {woken : Option Nat} (bound : index < numCallers)
      (stage : pool.callers index = .emptied)
      (idle : pool.numThreadsWorking = 0) :
      Moves numThreads numCallers pool (.caller index woken)
        { pool with
          thcountLock := none
          callers := update pool.callers index .away }
  | rousesThread {index : Nat} (bound : index < numThreads)
      (stage : pool.threads index = .asleep) :
      Moves numThreads numCallers pool (.rouseThread index)
        { pool with threads := update pool.threads index .testing }
  | rousesCaller {index : Nat} (bound : index < numCallers)
      (stage : pool.callers index = .asleep) :
      Moves numThreads numCallers pool (.rouseCaller index)
        { pool with callers := update pool.callers index .locking }

theorem threadDo_moves {index : Nat} {woken : Option Nat}
    (bound : index < numThreads)
    (taken : threadDo numThreads numCallers pool index woken = some next) :
    Moves numThreads numCallers pool (.thread index woken) next := by
  unfold threadDo at taken
  cases stage : pool.threads index with
  | testing =>
      simp only [stage, bsemWait, Option.some.injEq] at taken
      cases value : pool.v with
      | true =>
          rw [if_pos value] at taken
          exact taken ▸ .takes bound stage value
      | false =>
          rw [if_neg (by simp [value])] at taken
          exact taken ▸ .dozes bound stage value
  | asleep => simp [stage] at taken
  | awake =>
      simp only [stage, Option.ite_none_right_eq_some,
        Option.some.injEq] at taken
      exact taken.2 ▸ .counts bound stage taken.1
  | counted =>
      simp only [stage, Option.ite_none_right_eq_some,
        Option.some.injEq] at taken
      obtain ⟨free, rfl⟩ := taken
      unfold jobqueuePull
      split
      · rename_i queue
        exact .misses bound stage free queue
      · rename_i job queue
        exact .pullsLast bound stage free queue
      · rename_i job rest more queue
        refine .pulls bound stage free queue fun none => ?_
        exact more (by rw [none])
  | reposting job =>
      simp only [stage, bsemPost, Option.map_map,
        Option.map_eq_some_iff] at taken
      obtain ⟨threads, signalled, rfl⟩ := taken
      exact .reposts bound stage signalled
  | running job =>
      simp only [stage, Option.some.injEq] at taken
      exact taken ▸ .completes bound stage
  | finished =>
      simp only [stage, leaveCount, Option.ite_none_right_eq_some] at taken
      obtain ⟨free, taken⟩ := taken
      split at taken
      · rename_i last
        obtain ⟨callers, signalled, rfl⟩ := Option.map_eq_some_iff.mp taken
        rw [last]
        exact .leavesLast bound stage free last signalled
      · rename_i others
        exact Option.some.inj taken ▸ .leaves bound stage free others

theorem callerDo_moves {index : Nat} {woken : Option Nat}
    (bound : index < numCallers)
    (taken : callerDo numThreads pool index woken = some next) :
    Moves numThreads numCallers pool (.caller index woken) next := by
  unfold callerDo at taken
  cases stage : pool.callers index with
  | away => simp [stage] at taken
  | posting =>
      simp only [stage, bsemPost, Option.map_map,
        Option.map_eq_some_iff] at taken
      obtain ⟨threads, signalled, rfl⟩ := taken
      exact .posts bound stage signalled
  | locking =>
      simp only [stage, Option.ite_none_right_eq_some,
        Option.some.injEq] at taken
      exact taken.2 ▸ .locks bound stage taken.1
  | testing =>
      simp only [stage] at taken
      split at taken
      · rename_i jobs
        refine Option.some.inj taken ▸ .seesJobs bound stage ?_
        exact fun empty => jobs (by rw [empty]; rfl)
      · rename_i none
        refine Option.some.inj taken ▸ .seesEmpty bound stage ?_
        exact List.length_eq_zero_iff.mp (not_not.mp none)
  | emptied =>
      simp only [stage] at taken
      split at taken
      · rename_i working
        exact Option.some.inj taken ▸ .seesWorking bound stage working
      · rename_i idle
        exact Option.some.inj taken ▸ .returns bound stage (not_not.mp idle)
  | asleep => simp [stage] at taken

theorem Thread.sleeps_iff {stage : Thread Work} :
    stage.sleeps = true ↔ stage = .asleep := by
  cases stage <;> simp [Thread.sleeps]

theorem Caller.sleeps_iff {stage : Caller} :
    stage.sleeps = true ↔ stage = .asleep := by
  cases stage <;> simp [Caller.sleeps]

theorem step_moves (taken : step numThreads numCallers pool event = some next) :
    Moves numThreads numCallers pool event next := by
  cases event with
  | addWork caller work =>
      simp only [step, Option.ite_none_right_eq_some,
        Option.some.injEq] at taken
      obtain ⟨⟨bound, stage, free⟩, rfl⟩ := taken
      exact .adds bound stage free
  | wait caller =>
      simp only [step, Option.ite_none_right_eq_some,
        Option.some.injEq] at taken
      obtain ⟨⟨bound, stage⟩, rfl⟩ := taken
      exact .waits bound stage
  | thread index woken =>
      simp only [step, Option.ite_none_right_eq_some] at taken
      exact threadDo_moves taken.1 taken.2
  | caller index woken =>
      simp only [step, Option.ite_none_right_eq_some] at taken
      exact callerDo_moves taken.1 taken.2
  | rouseThread index =>
      simp only [step, Option.ite_none_right_eq_some,
        Option.some.injEq] at taken
      obtain ⟨⟨bound, down⟩, rfl⟩ := taken
      exact .rousesThread bound (Thread.sleeps_iff.mp down)
  | rouseCaller index =>
      simp only [step, Option.ite_none_right_eq_some,
        Option.some.injEq] at taken
      obtain ⟨⟨bound, down⟩, rfl⟩ := taken
      exact .rousesCaller bound (Caller.sleeps_iff.mp down)

end Steps

end IncEmulation.ThreadPool
