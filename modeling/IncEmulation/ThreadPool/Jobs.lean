import IncEmulation.ThreadPool.Machine
import Mathlib.Data.List.Nodup
import Mathlib.Data.List.Perm.Basic

/-!
# The jobs of the thread pool

For its callers the pool is a queue, the jobs that threads hold and the
completed jobs.  Every step of a thread or a caller adds a job, moves one
on or leaves all of them where they are, so each job is run once, and
`thpool_wait` returns when those added before are completed.
-/

namespace IncEmulation.ThreadPool

open Crowd Function

variable {Work : Type*}

/-- The job each thread holds. -/
def Pool.holds (pool : Pool Work) : Nat → Option (Job Work) :=
  Thread.job? ∘ pool.threads

/-- What the steps of threads and callers do to the jobs. -/
inductive Moved (pool : Pool Work) : Pool Work → Prop where
  | stays {next : Pool Work} (queue : next.queue = pool.queue)
      (holds : next.holds = pool.holds) (pulled : next.pulled = pool.pulled)
      (completed : next.completed = pool.completed) : Moved pool next
  | adds {next : Pool Work} (caller : Nat) (work : Work)
      (queue : next.queue =
        pool.queue ++ [⟨caller, pool.added.length, work⟩])
      (holds : next.holds = pool.holds) (pulled : next.pulled = pool.pulled)
      (completed : next.completed = pool.completed) : Moved pool next
  | pulls {next : Pool Work} (index : Nat) (job : Job Work)
      (queue : pool.queue = job :: next.queue)
      (before : pool.holds index = none)
      (holds : next.holds = update pool.holds index (some job))
      (pulled : next.pulled = pool.pulled ++ [job])
      (completed : next.completed = pool.completed) : Moved pool next
  | completes {next : Pool Work} (index : Nat) (job : Job Work)
      (queue : next.queue = pool.queue)
      (before : pool.holds index = some job)
      (holds : next.holds = update pool.holds index none)
      (pulled : next.pulled = pool.pulled)
      (completed : next.completed = pool.completed ++ [job]) :
      Moved pool next

section Steps

variable {numThreads numCallers : Nat} {pool next : Pool Work}
  {event : Event Work} {threads : Nat → Thread Work} {index : Nat}

theorem job?_update (stage : Thread Work) :
    Thread.job? ∘ update threads index stage =
      update (Thread.job? ∘ threads) index stage.job? :=
  comp_update ..

theorem job?_update_of_eq {stage : Thread Work}
    (same : stage.job? = (threads index).job?) :
    Thread.job? ∘ update threads index stage = Thread.job? ∘ threads := by
  rw [job?_update, same]
  exact update_eq_self ..

theorem job?_signal {woken : Option Nat} {after : Nat → Thread Work}
    (signalled : signal numThreads Thread.sleeps .testing threads woken =
      some after) : Thread.job? ∘ after = Thread.job? ∘ threads := by
  funext party
  rcases signal_frame signalled party with same | ⟨_, down, up⟩
  · exact congrArg Thread.job? same
  · rw [comp_apply, comp_apply, up, Thread.sleeps_iff.mp down]
    rfl

theorem Moves.moved (moves : Moves numThreads numCallers pool event next) :
    Moved pool next := by
  cases moves with
  | adds => exact .adds _ _ rfl rfl rfl rfl
  | waits => exact .stays rfl rfl rfl rfl
  | takes _ stage =>
      exact .stays rfl (job?_update_of_eq (by rw [stage]; rfl)) rfl rfl
  | dozes _ stage =>
      exact .stays rfl (job?_update_of_eq (by rw [stage]; rfl)) rfl rfl
  | counts _ stage =>
      exact .stays rfl (job?_update_of_eq (by rw [stage]; rfl)) rfl rfl
  | misses _ stage =>
      exact .stays rfl (job?_update_of_eq (by rw [stage]; rfl)) rfl rfl
  | pullsLast _ stage _ queue =>
      exact .pulls _ _ queue (congrArg Thread.job? stage) (job?_update _)
        rfl rfl
  | pulls _ stage _ queue =>
      exact .pulls _ _ queue (congrArg Thread.job? stage) (job?_update _)
        rfl rfl
  | @reposts index _ job threads _ stage signalled =>
      -- the poster itself is not touched by its signal
      have kept : threads index = .reposting job := by
        rw [signal_of_awake signalled (by rw [stage]; rfl), stage]
      refine .stays rfl ?_ rfl rfl
      exact (job?_update_of_eq (by rw [kept]; rfl)).trans
        (job?_signal signalled)
  | completes _ stage =>
      exact .completes _ _ rfl (congrArg Thread.job? stage) (job?_update _)
        rfl rfl
  | leaves _ stage =>
      exact .stays rfl (job?_update_of_eq (by rw [stage]; rfl)) rfl rfl
  | leavesLast _ stage =>
      exact .stays rfl (job?_update_of_eq (by rw [stage]; rfl)) rfl rfl
  | posts _ _ signalled => exact .stays rfl (job?_signal signalled) rfl rfl
  | locks => exact .stays rfl rfl rfl rfl
  | seesJobs => exact .stays rfl rfl rfl rfl
  | seesEmpty => exact .stays rfl rfl rfl rfl
  | seesWorking => exact .stays rfl rfl rfl rfl
  | returns => exact .stays rfl rfl rfl rfl
  | rousesThread _ stage =>
      exact .stays rfl (job?_update_of_eq (by rw [stage]; rfl)) rfl rfl
  | rousesCaller => exact .stays rfl rfl rfl rfl

end Steps

/-- Each job is known by its place in the order of adding, and the pulled ones
are completed or held by one thread. -/
structure Tracked (pool : Pool Work) : Prop where
  numbered : pool.added.map Job.serial = List.range pool.added.length
  held : ∀ index job, pool.holds index = some job →
    job ∈ pool.pulled ∧ job ∉ pool.completed
  single : ∀ index other job, pool.holds index = some job →
    pool.holds other = some job → index = other
  began : ∀ job ∈ pool.completed, job ∈ pool.pulled
  once : pool.completed.Nodup
  covered : ∀ job ∈ pool.pulled,
    job ∈ pool.completed ∨ ∃ index, pool.holds index = some job

section Tracking

variable {pool next : Pool Work}

theorem Tracked.nodup (tracked : Tracked pool) : pool.added.Nodup := by
  refine List.Nodup.of_map Job.serial ?_
  rw [tracked.numbered]
  exact List.nodup_range

theorem tracked_init : Tracked (thpoolInit : Pool Work) where
  numbered := rfl
  held _ _ held := by cases held
  single _ _ _ held := by cases held
  began _ member := absurd member List.not_mem_nil
  once := List.nodup_nil
  covered _ member := absurd member List.not_mem_nil

theorem Moved.added (moved : Moved pool next) :
    next.added = pool.added ∨ ∃ caller work,
      next.added = pool.added ++ [⟨caller, pool.added.length, work⟩] := by
  cases moved with
  | stays queue _ pulled _ =>
      left
      rw [Pool.added, Pool.added, queue, pulled]
  | adds caller work queue _ pulled _ =>
      right
      refine ⟨caller, work, ?_⟩
      rw [Pool.added, queue, pulled, ← List.append_assoc]
      rfl
  | pulls index job queue _ _ pulled _ =>
      left
      rw [Pool.added, Pool.added, queue, pulled, List.append_assoc,
        List.singleton_append]
  | completes index job queue _ _ pulled _ =>
      left
      rw [Pool.added, Pool.added, queue, pulled]

theorem Moved.mem_pulled (moved : Moved pool next) {job : Job Work}
    (member : job ∈ pool.pulled) : job ∈ next.pulled := by
  cases moved with
  | stays _ _ pulled _ => rwa [pulled]
  | adds _ _ _ _ pulled _ => rwa [pulled]
  | pulls _ _ _ _ _ pulled _ =>
      rw [pulled]
      exact List.mem_append_left _ member
  | completes _ _ _ _ _ pulled _ => rwa [pulled]

theorem Moved.mem_completed (moved : Moved pool next) {job : Job Work}
    (member : job ∈ pool.completed) : job ∈ next.completed := by
  cases moved with
  | stays _ _ _ completed => rwa [completed]
  | adds _ _ _ _ _ completed => rwa [completed]
  | pulls _ _ _ _ _ _ completed => rwa [completed]
  | completes _ _ _ _ _ _ completed =>
      rw [completed]
      exact List.mem_append_left _ member

theorem Moved.numbered (moved : Moved pool next)
    (numbered : pool.added.map Job.serial = List.range pool.added.length) :
    next.added.map Job.serial = List.range next.added.length := by
  rcases moved.added with same | ⟨caller, work, grown⟩
  · rw [same]
    exact numbered
  · rw [grown, List.map_append, numbered, List.length_append,
      List.length_singleton, List.range_succ]
    rfl

theorem Tracked.front_notMem (tracked : Tracked pool) {job : Job Work}
    {rest : List (Job Work)} (queue : pool.queue = job :: rest) :
    job ∉ pool.pulled := by
  have nodup := tracked.nodup
  rw [Pool.added, queue] at nodup
  intro member
  exact (List.nodup_append.mp nodup).2.2 job member job List.mem_cons_self rfl

theorem Tracked.moved (tracked : Tracked pool) (moved : Moved pool next) :
    Tracked next := by
  have numbered := moved.numbered tracked.numbered
  cases moved with
  | stays queue holds pulled completed =>
      exact ⟨numbered, by rw [holds, pulled, completed]; exact tracked.held,
        by rw [holds]; exact tracked.single,
        by rw [pulled, completed]; exact tracked.began,
        by rw [completed]; exact tracked.once,
        by rw [holds, pulled, completed]; exact tracked.covered⟩
  | adds caller work queue holds pulled completed =>
      exact ⟨numbered, by rw [holds, pulled, completed]; exact tracked.held,
        by rw [holds]; exact tracked.single,
        by rw [pulled, completed]; exact tracked.began,
        by rw [completed]; exact tracked.once,
        by rw [holds, pulled, completed]; exact tracked.covered⟩
  | pulls index job queue before holds pulled completed =>
      have fresh := tracked.front_notMem queue
      have unheld : ∀ other, pool.holds other ≠ some job :=
        fun other held => fresh (tracked.held other job held).1
      refine ⟨numbered, ?_, ?_, ?_, by rw [completed]; exact tracked.once, ?_⟩
      · intro other held same
        rw [pulled, completed]
        rw [holds, update_apply] at same
        split at same
        · cases same
          exact ⟨List.mem_append_right _ List.mem_cons_self,
            fun member => fresh (tracked.began _ member)⟩
        · have known := tracked.held other held same
          exact ⟨List.mem_append_left _ known.1, known.2⟩
      · intro left right held onLeft onRight
        rw [holds, update_apply] at onLeft onRight
        split at onLeft <;> split at onRight
        · rename_i leftSame rightSame
          rw [leftSame, rightSame]
        · cases onLeft
          exact absurd onRight (unheld right)
        · cases onRight
          exact absurd onLeft (unheld left)
        · exact tracked.single left right held onLeft onRight
      · intro other member
        rw [pulled]
        rw [completed] at member
        exact List.mem_append_left _ (tracked.began other member)
      · intro other member
        rw [pulled] at member
        rw [completed, holds]
        rcases List.mem_append.mp member with old | new
        · rcases tracked.covered other old with done | ⟨thread, held⟩
          · exact .inl done
          · refine .inr ⟨thread, ?_⟩
            rw [update_of_ne ?_, held]
            intro same
            rw [same, before] at held
            cases held
        · obtain rfl := List.mem_singleton.mp new
          exact .inr ⟨index, update_self ..⟩
  | completes index job queue before holds pulled completed =>
      have known := tracked.held index job before
      refine ⟨numbered, ?_, ?_, ?_, ?_, ?_⟩
      · intro other held same
        rw [holds, update_apply] at same
        split at same
        · cases same
        · rename_i different
          rw [pulled, completed]
          refine ⟨(tracked.held other held same).1, fun member => ?_⟩
          rcases List.mem_append.mp member with old | new
          · exact (tracked.held other held same).2 old
          · obtain rfl := List.mem_singleton.mp new
            exact different (tracked.single other index held same before)
      · intro left right held onLeft onRight
        rw [holds, update_apply] at onLeft onRight
        split at onLeft
        · cases onLeft
        · split at onRight
          · cases onRight
          · exact tracked.single left right held onLeft onRight
      · intro other member
        rw [pulled]
        rw [completed] at member
        rcases List.mem_append.mp member with old | new
        · exact tracked.began other old
        · obtain rfl := List.mem_singleton.mp new
          exact known.1
      · rw [completed]
        exact List.nodup_append.mpr ⟨tracked.once, List.nodup_singleton _,
          fun first member second new same => known.2 (by
            rw [← List.mem_singleton.mp new, ← same]
            exact member)⟩
      · intro other member
        rw [pulled] at member
        rw [completed, holds]
        rcases tracked.covered other member with done | ⟨thread, held⟩
        · exact .inl (List.mem_append_left _ done)
        · by_cases same : thread = index
          · rw [same, before] at held
            cases held
            exact .inl (List.mem_append_right _ List.mem_cons_self)
          · exact .inr ⟨thread, by rw [update_of_ne same, held]⟩

end Tracking

end IncEmulation.ThreadPool
