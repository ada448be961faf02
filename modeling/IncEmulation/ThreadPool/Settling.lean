import IncEmulation.ThreadPool.Waiting

/-!
# The thread pool settles

No lock is held for ever, no posted semaphore is overheard and no job is left
without a thread that comes for it.  After finitely many calls the pool
therefore takes finitely many steps, and when it has none left all jobs are
completed.  `leaveCount` signals one caller only: of several callers in
`thpool_wait` some may sleep on.
-/

namespace IncEmulation.ThreadPool

open Crowd Function Machine

variable {Work : Type*}

/-- On the way to the queue. -/
def Thread.alert : Thread Work → Bool
  | .awake | .counted | .reposting _ => true
  | _ => false

/-- In the critical section of `thpool_wait`. -/
def Caller.tests : Caller → Bool
  | .testing | .emptied => true
  | _ => false

/-- A lock is held by a party in its critical section. -/
structure Locked (numCallers : Nat) (pool : Pool Work) : Prop where
  rwThread : ∀ index, pool.rwmutex = some (.thread index) →
    ∃ job, pool.threads index = .reposting job
  rwCaller : ∀ index, pool.rwmutex = some (.caller index) →
    pool.callers index = .posting
  thcount : ∀ index, pool.thcountLock = some index →
    (pool.callers index).tests = true
  outside : ∀ index, numCallers ≤ index → pool.callers index = .away

/-- The semaphore is up, or about to be, while there are jobs that no thread
comes for; and somebody looks at it. -/
structure Posted (numThreads : Nat) (pool : Pool Work) : Prop where
  noticed : pool.queue ≠ [] → pool.v = true ∨
    (∃ index, (pool.threads index).alert = true) ∨
      ∃ caller, pool.callers caller = .posting
  heard : pool.v = true →
    ∃ index < numThreads, (pool.threads index).sleeps = false

section Steps

variable {numThreads numCallers : Nat} {pool next : Pool Work}
  {event : Event Work}

theorem locked_init (numCallers : Nat) :
    Locked numCallers (thpoolInit : Pool Work) where
  rwThread _ held := by cases held
  rwCaller _ held := by cases held
  thcount _ held := by cases held
  outside _ _ := rfl

theorem posted_init (positive : 0 < numThreads) :
    Posted numThreads (thpoolInit : Pool Work) where
  noticed jobs := absurd rfl jobs
  heard _ := ⟨0, positive, rfl⟩

theorem update_of_stage_ne {Stage : Type*} {stages : Nat → Stage}
    {mover index : Nat} {before kept : Stage}
    (stage : stages mover = before) (held : stages index = kept)
    (different : kept ≠ before) (after : Stage) :
    update stages mover after index = kept := by
  rw [update_of_ne _, held]
  intro same
  exact different (by rw [← held, same, stage])

theorem update_self_of {Stage : Type*} {property : Stage → Bool}
    {stages : Nat → Stage} {mover : Nat} {after : Stage} {answer : Bool}
    (holds : property after = answer) :
    property (update stages mover after mover) = answer := by
  rw [update_self, holds]

theorem signal_of_ne {Stage : Type*} {size : Nat} {asleep : Stage → Bool}
    {awake kept : Stage} {stages after : Nat → Stage} {woken : Option Nat}
    {index : Nat}
    (signalled : signal size asleep awake stages woken = some after)
    (held : stages index = kept) (up : asleep kept = false) :
    after index = kept := by
  rw [signal_of_awake signalled (by rw [held, up]), held]

theorem Locked.rwThread_moves (locked : Locked numCallers pool)
    (moves : Moves numThreads numCallers pool event next) (index : Nat)
    (held : next.rwmutex = some (.thread index)) :
    ∃ job, next.threads index = .reposting job := by
  cases moves with
  | adds => cases held
  | takes _ stage =>
      obtain ⟨job, kept⟩ := locked.rwThread index held
      exact ⟨job, update_of_stage_ne stage kept (by simp) _⟩
  | dozes _ stage =>
      obtain ⟨job, kept⟩ := locked.rwThread index held
      exact ⟨job, update_of_stage_ne stage kept (by simp) _⟩
  | counts _ stage =>
      obtain ⟨job, kept⟩ := locked.rwThread index held
      exact ⟨job, update_of_stage_ne stage kept (by simp) _⟩
  | misses _ stage =>
      obtain ⟨job, kept⟩ := locked.rwThread index held
      exact ⟨job, update_of_stage_ne stage kept (by simp) _⟩
  | pullsLast _ stage =>
      obtain ⟨job, kept⟩ := locked.rwThread index held
      exact ⟨job, update_of_stage_ne stage kept (by simp) _⟩
  | pulls =>
      cases held
      exact ⟨_, update_self ..⟩
  | reposts => cases held
  | completes _ stage =>
      obtain ⟨job, kept⟩ := locked.rwThread index held
      exact ⟨job, update_of_stage_ne stage kept (by simp) _⟩
  | leaves _ stage =>
      obtain ⟨job, kept⟩ := locked.rwThread index held
      exact ⟨job, update_of_stage_ne stage kept (by simp) _⟩
  | leavesLast _ stage =>
      obtain ⟨job, kept⟩ := locked.rwThread index held
      exact ⟨job, update_of_stage_ne stage kept (by simp) _⟩
  | posts => cases held
  | rousesThread _ stage =>
      obtain ⟨job, kept⟩ := locked.rwThread index held
      exact ⟨job, update_of_stage_ne stage kept (by simp) _⟩
  | _ => exact locked.rwThread index held

theorem Locked.rwCaller_moves (locked : Locked numCallers pool)
    (moves : Moves numThreads numCallers pool event next) (index : Nat)
    (held : next.rwmutex = some (.caller index)) :
    next.callers index = .posting := by
  cases moves with
  | adds =>
      cases held
      exact update_self ..
  | waits _ stage =>
      exact update_of_stage_ne stage (locked.rwCaller index held) (by simp) _
  | pulls => cases held
  | reposts => cases held
  | leavesLast _ _ _ _ signalled =>
      exact signal_of_ne signalled (locked.rwCaller index held) rfl
  | posts => cases held
  | locks _ stage =>
      exact update_of_stage_ne stage (locked.rwCaller index held) (by simp) _
  | seesJobs _ stage =>
      exact update_of_stage_ne stage (locked.rwCaller index held) (by simp) _
  | seesEmpty _ stage =>
      exact update_of_stage_ne stage (locked.rwCaller index held) (by simp) _
  | seesWorking _ stage =>
      exact update_of_stage_ne stage (locked.rwCaller index held) (by simp) _
  | returns _ stage =>
      exact update_of_stage_ne stage (locked.rwCaller index held) (by simp) _
  | rousesCaller _ stage =>
      exact update_of_stage_ne stage (locked.rwCaller index held) (by simp) _
  | _ => exact locked.rwCaller index held

theorem Locked.thcount_moves (locked : Locked numCallers pool)
    (moves : Moves numThreads numCallers pool event next) (index : Nat)
    (held : next.thcountLock = some index) :
    (next.callers index).tests = true := by
  have kept : ∀ {mover : Nat} {before : Caller} (after : Caller),
      pool.callers mover = before → before.tests = false →
        pool.thcountLock = some index →
          (update pool.callers mover after index).tests = true := by
    intro mover before after stage out held
    have inside := locked.thcount index held
    rwa [update_of_ne]
    intro same
    rw [same, stage, out] at inside
    cases inside
  cases moves with
  | adds _ stage => exact kept _ stage rfl held
  | waits _ stage => exact kept _ stage rfl held
  | leavesLast _ _ free => rw [free] at held; cases held
  | posts _ stage => exact kept _ stage rfl held
  | locks =>
      cases held
      exact update_self_of rfl
  | seesJobs => cases held
  | @seesEmpty mover _ _ stage =>
      by_cases same : index = mover
      · subst same
        exact update_self_of rfl
      · have inside := locked.thcount index held
        rwa [← update_of_ne same Caller.emptied pool.callers] at inside
  | seesWorking => cases held
  | returns => cases held
  | rousesCaller _ stage => exact kept _ stage rfl held
  | _ => exact locked.thcount index held

theorem Locked.outside_moves (locked : Locked numCallers pool)
    (moves : Moves numThreads numCallers pool event next) (index : Nat)
    (beyond : numCallers ≤ index) : next.callers index = .away := by
  have away := locked.outside index beyond
  have kept : ∀ {mover : Nat} (after : Caller), mover < numCallers →
      update pool.callers mover after index = .away := by
    intro mover after bound
    rw [update_of_ne (by omega), away]
  cases moves with
  | adds bound => exact kept _ bound
  | waits bound => exact kept _ bound
  | leavesLast _ _ _ _ signalled => exact signal_of_ne signalled away rfl
  | posts bound => exact kept _ bound
  | locks bound => exact kept _ bound
  | seesJobs bound => exact kept _ bound
  | seesEmpty bound => exact kept _ bound
  | seesWorking bound => exact kept _ bound
  | returns bound => exact kept _ bound
  | rousesCaller bound => exact kept _ bound
  | _ => exact away

theorem Locked.moves (locked : Locked numCallers pool)
    (moves : Moves numThreads numCallers pool event next) :
    Locked numCallers next :=
  ⟨locked.rwThread_moves moves, locked.rwCaller_moves moves,
    locked.thcount_moves moves, locked.outside_moves moves⟩

theorem Posted.noticed_moves (posted : Posted numThreads pool)
    (moves : Moves numThreads numCallers pool event next)
    (jobs : next.queue ≠ []) :
    next.v = true ∨ (∃ index, (next.threads index).alert = true) ∨
      ∃ caller, next.callers caller = .posting := by
  have before : next.queue = pool.queue → pool.v = next.v →
      (∀ index, (pool.threads index).alert = true →
        (next.threads index).alert = true) →
      (∀ caller, pool.callers caller = .posting →
        next.callers caller = .posting) →
      next.v = true ∨ (∃ index, (next.threads index).alert = true) ∨
        ∃ caller, next.callers caller = .posting := by
    intro queue value threads callers
    rcases posted.noticed (queue ▸ jobs) with up | ⟨index, alert⟩ |
      ⟨caller, posting⟩
    · exact .inl (value ▸ up)
    · exact .inr (.inl ⟨index, threads index alert⟩)
    · exact .inr (.inr ⟨caller, callers caller posting⟩)
  have threads : ∀ {mover : Nat} {stage : Thread Work} (after : Thread Work),
      pool.threads mover = stage → stage.alert = false → ∀ index,
        (pool.threads index).alert = true →
          (update pool.threads mover after index).alert = true := by
    intro mover stage after was calm index alert
    rwa [update_of_ne]
    intro same
    rw [same, was, calm] at alert
    cases alert
  cases moves with
  | @adds caller => exact .inr (.inr ⟨caller, update_self ..⟩)
  | waits _ stage =>
      exact before rfl rfl (fun _ => id) fun caller posting =>
        update_of_stage_ne stage posting (by simp) _
  | @takes index => exact .inr (.inl ⟨index, update_self_of rfl⟩)
  | dozes _ stage => exact before rfl rfl (threads _ stage rfl) fun _ => id
  | @counts index => exact .inr (.inl ⟨index, update_self_of rfl⟩)
  | misses _ _ _ queue => exact absurd queue jobs
  | pullsLast => exact absurd rfl jobs
  | @pulls index => exact .inr (.inl ⟨index, update_self_of rfl⟩)
  | reposts => exact .inl rfl
  | completes _ stage =>
      exact before rfl rfl (threads _ stage rfl) fun _ => id
  | leaves _ stage => exact before rfl rfl (threads _ stage rfl) fun _ => id
  | leavesLast _ stage _ _ signalled =>
      exact before rfl rfl (threads _ stage rfl) fun caller posting =>
        signal_of_ne signalled posting rfl
  | posts => exact .inl rfl
  | locks _ stage =>
      exact before rfl rfl (fun _ => id) fun caller posting =>
        update_of_stage_ne stage posting (by simp) _
  | seesJobs _ stage =>
      exact before rfl rfl (fun _ => id) fun caller posting =>
        update_of_stage_ne stage posting (by simp) _
  | seesEmpty _ stage =>
      exact before rfl rfl (fun _ => id) fun caller posting =>
        update_of_stage_ne stage posting (by simp) _
  | seesWorking _ stage =>
      exact before rfl rfl (fun _ => id) fun caller posting =>
        update_of_stage_ne stage posting (by simp) _
  | returns _ stage =>
      exact before rfl rfl (fun _ => id) fun caller posting =>
        update_of_stage_ne stage posting (by simp) _
  | rousesThread _ stage =>
      exact before rfl rfl (threads _ stage rfl) fun _ => id
  | rousesCaller _ stage =>
      exact before rfl rfl (fun _ => id) fun caller posting =>
        update_of_stage_ne stage posting (by simp) _

theorem Posted.heard_moves (positive : 0 < numThreads)
    (posted : Posted numThreads pool)
    (moves : Moves numThreads numCallers pool event next)
    (up : next.v = true) :
    ∃ index < numThreads, (next.threads index).sleeps = false := by
  have moved : ∀ {mover : Nat} {after : Thread Work}, pool.v = true →
      after.sleeps = false → ∃ index < numThreads,
        (update pool.threads mover after index).sleeps = false := by
    intro mover after up awake
    obtain ⟨index, bound, wakes⟩ := posted.heard up
    refine ⟨index, bound, ?_⟩
    rw [update_apply]
    split
    · exact awake
    · exact wakes
  cases moves with
  | takes => cases up
  | dozes _ _ down => rw [down] at up; cases up
  | counts => exact moved up rfl
  | misses => exact moved up rfl
  | pullsLast => exact moved up rfl
  | pulls => exact moved up rfl
  | @reposts index _ _ _ bound =>
      exact ⟨index, bound, update_self_of rfl⟩
  | completes => exact moved up rfl
  | leaves => exact moved up rfl
  | leavesLast => exact moved up rfl
  | posts _ _ signalled => exact exists_awake_of_signal signalled rfl positive
  | rousesThread => exact moved up rfl
  | _ => exact posted.heard up

theorem Posted.moves (positive : 0 < numThreads) (posted : Posted numThreads pool)
    (moves : Moves numThreads numCallers pool event next) :
    Posted numThreads next :=
  ⟨posted.noticed_moves moves, posted.heard_moves positive moves⟩

end Steps

/-! ## Nothing left to do -/

/-- No thread and no caller has a next step of its own. -/
def Settled (numThreads numCallers : Nat) (pool : Pool Work) : Prop :=
  ∀ index woken,
    step numThreads numCallers pool (.thread index woken) = none ∧
      step numThreads numCallers pool (.caller index woken) = none

section Settling

variable {numThreads numCallers : Nat} {pool next : Pool Work}
  {event : Event Work}

theorem exists_bsemPost (numThreads : Nat) (pool : Pool Work) :
    ∃ woken posted, bsemPost numThreads pool woken = some posted := by
  obtain ⟨woken, threads, signalled⟩ :=
    exists_signal numThreads Thread.sleeps .testing pool.threads
  exact ⟨woken, _, Option.map_eq_some_iff.mpr ⟨threads, signalled, rfl⟩⟩

theorem exists_leaveCount (numCallers : Nat) (pool : Pool Work)
    (index : Nat) :
    ∃ woken left, leaveCount numCallers pool index woken = some left := by
  obtain ⟨woken, callers, signalled⟩ :=
    exists_signal numCallers Caller.sleeps .locking pool.callers
  refine ⟨woken, ?_⟩
  unfold leaveCount
  simp only
  split
  · exact ⟨_, Option.map_eq_some_iff.mpr ⟨callers, signalled, rfl⟩⟩
  · exact ⟨_, rfl⟩

/-- A thread without a next step sleeps or waits for a lock. -/
theorem stage_of_stuck {index : Nat}
    (stuck : ∀ woken, threadDo numThreads numCallers pool index woken = none) :
    pool.threads index = .asleep ∨
      ((pool.threads index = .awake ∨ pool.threads index = .finished) ∧
        pool.thcountLock ≠ none) ∨
      (pool.threads index = .counted ∧ pool.rwmutex ≠ none) := by
  unfold threadDo at stuck
  cases stage : pool.threads index with
  | testing => simp [stage] at stuck
  | asleep => exact .inl rfl
  | awake =>
      simp only [stage, ite_eq_right_iff, reduceCtorEq, imp_false,
        forall_const] at stuck
      exact .inr (.inl ⟨.inl rfl, stuck⟩)
  | counted =>
      simp only [stage, ite_eq_right_iff, reduceCtorEq, imp_false,
        forall_const] at stuck
      exact .inr (.inr ⟨rfl, stuck⟩)
  | reposting job =>
      obtain ⟨woken, posted, done⟩ := exists_bsemPost numThreads pool
      have none := stuck woken
      simp [stage, done] at none
  | running job => simp [stage] at stuck
  | finished =>
      refine .inr (.inl ⟨.inr rfl, fun free => ?_⟩)
      obtain ⟨woken, left, done⟩ := exists_leaveCount numCallers pool index
      have none := stuck woken
      simp [stage, free, done] at none

/-- A caller without a next step is away, sleeps or waits for the lock. -/
theorem stage_of_stuck_caller {index : Nat}
    (stuck : ∀ woken, callerDo numThreads pool index woken = none) :
    pool.callers index = .away ∨ pool.callers index = .asleep ∨
      (pool.callers index = .locking ∧ pool.thcountLock ≠ none) := by
  unfold callerDo at stuck
  cases stage : pool.callers index with
  | away => exact .inl rfl
  | posting =>
      obtain ⟨woken, posted, done⟩ := exists_bsemPost numThreads pool
      have none := stuck woken
      simp [stage, done] at none
  | locking =>
      simp only [stage, ite_eq_right_iff, reduceCtorEq, imp_false,
        forall_const] at stuck
      exact .inr (.inr ⟨rfl, stuck⟩)
  | testing =>
      simp only [stage] at stuck
      split at stuck <;> simp at stuck
  | emptied =>
      simp only [stage] at stuck
      split at stuck <;> simp at stuck
  | asleep => exact .inr (.inl rfl)

theorem Settled.threadDo
    (settled : Settled numThreads numCallers pool) {index : Nat}
    (bound : index < numThreads) (woken : Option Nat) :
    threadDo numThreads numCallers pool index woken = none := by
  have none := (settled index woken).1
  rwa [step, if_pos bound] at none

theorem Settled.callerDo
    (settled : Settled numThreads numCallers pool) {index : Nat}
    (bound : index < numCallers) (woken : Option Nat) :
    callerDo numThreads pool index woken = none := by
  have none := (settled index woken).2
  rwa [step, if_pos bound] at none

theorem Counted.lt_of_ne (counted : Counted numThreads pool) {index : Nat}
    (moved : pool.threads index ≠ .testing) : index < numThreads := by
  by_contra beyond
  exact moved (counted.outside index (not_lt.mp beyond))

theorem Locked.lt_of_ne (locked : Locked numCallers pool) {index : Nat}
    (moved : pool.callers index ≠ .away) : index < numCallers := by
  by_contra beyond
  exact moved (locked.outside index (not_lt.mp beyond))

theorem Settled.free (settled : Settled numThreads numCallers pool)
    (counted : Counted numThreads pool) (locked : Locked numCallers pool) :
    pool.rwmutex = none ∧ pool.thcountLock = none := by
  constructor
  · rcases held : pool.rwmutex with _ | ⟨index | index⟩
    · rfl
    · obtain ⟨job, stage⟩ := locked.rwThread index held
      have bound := counted.lt_of_ne (by simp [stage] : pool.threads index ≠ _)
      have stuck := stage_of_stuck (settled.threadDo bound)
      simp [stage] at stuck
    · have stage := locked.rwCaller index held
      have bound := locked.lt_of_ne (by simp [stage] : pool.callers index ≠ _)
      have stuck := stage_of_stuck_caller (settled.callerDo bound)
      simp [stage] at stuck
  · rcases held : pool.thcountLock with _ | index
    · rfl
    · have tests := locked.thcount index held
      have present : pool.callers index ≠ .away := by
        intro away
        rw [away] at tests
        cases tests
      have bound := locked.lt_of_ne present
      rcases stage_of_stuck_caller (settled.callerDo bound) with
        stage | stage | ⟨stage, _⟩ <;> rw [stage] at tests <;> cases tests

theorem settled_of_stages
    (threads : ∀ index < numThreads, pool.threads index = .asleep)
    (callers : ∀ index < numCallers,
      pool.callers index = .away ∨ pool.callers index = .asleep) :
    Settled numThreads numCallers pool := by
  intro index woken
  constructor
  · rw [step]
    split
    · rename_i bound
      rw [ThreadPool.threadDo, threads index bound]
    · rfl
  · rw [step]
    split
    · rename_i bound
      rcases callers index bound with away | asleep
      · rw [ThreadPool.callerDo, away]
      · rw [ThreadPool.callerDo, asleep]
    · rfl

/-- A settled pool has nothing to do. -/
theorem Settled.idle (settled : Settled numThreads numCallers pool)
    (counted : Counted numThreads pool) (locked : Locked numCallers pool)
    (posted : Posted numThreads pool) :
    pool.queue = [] ∧ pool.numThreadsWorking = 0 ∧
      ∀ index, pool.callers index = .away ∨ pool.callers index = .asleep := by
  obtain ⟨rwmutex, thcountLock⟩ := settled.free counted locked
  have threads : ∀ index < numThreads, pool.threads index = .asleep := by
    intro index bound
    rcases stage_of_stuck (settled.threadDo bound) with
      stage | ⟨_, taken⟩ | ⟨_, taken⟩
    · exact stage
    · exact absurd thcountLock taken
    · exact absurd rwmutex taken
  have callers : ∀ index,
      pool.callers index = .away ∨ pool.callers index = .asleep := by
    intro index
    by_cases bound : index < numCallers
    · rcases stage_of_stuck_caller (settled.callerDo bound) with
        stage | stage | ⟨_, taken⟩
      · exact .inl stage
      · exact .inr stage
      · exact absurd thcountLock taken
    · exact .inl (locked.outside index (not_lt.mp bound))
  refine ⟨?_, ?_, callers⟩
  · by_contra jobs
    rcases posted.noticed jobs with up | ⟨index, alert⟩ | ⟨caller, posting⟩
    · obtain ⟨index, bound, wakes⟩ := posted.heard up
      rw [threads index bound] at wakes
      cases wakes
    · have started : pool.threads index ≠ .testing := by
        intro stage
        rw [stage] at alert
        cases alert
      have bound := counted.lt_of_ne started
      rw [threads index bound] at alert
      cases alert
    · rcases callers caller with stage | stage <;> rw [stage] at posting <;>
        cases posting
  · have nobody : weigh numThreads Thread.share pool.threads = 0 :=
      weigh_eq_zero_iff.mpr fun index bound => by rw [threads index bound]; rfl
    rw [counted.working, nobody]
    rfl

theorem Tracked.mem_completed_of_idle (tracked : Tracked pool)
    (counted : Counted numThreads pool) (queue : pool.queue = [])
    (idle : pool.numThreadsWorking = 0) {job : Job Work}
    (member : job ∈ pool.added) : job ∈ pool.completed := by
  rw [Pool.added, queue, List.append_nil] at member
  rcases tracked.covered job member with done | ⟨index, held⟩
  · exact done
  · rw [counted.holds_of_idle idle index] at held
    cases held

end Settling

/-! ## One caller that waits -/

/-- A caller goes into `thpool_wait` while no other one is in it. -/
def Alone (numCallers : Nat) (pool : Pool Work) : Event Work → Prop
  | .wait _ => ∀ other < numCallers, (pool.callers other).waits = false
  | _ => True

instance Alone.decidable (numCallers : Nat) (pool : Pool Work) :
    ∀ event, Decidable (Alone numCallers pool event)
  | .wait _ => inferInstanceAs
      (Decidable (∀ other < numCallers, (pool.callers other).waits = false))
  | .addWork .. => .isTrue trivial
  | .thread .. => .isTrue trivial
  | .caller .. => .isTrue trivial
  | .rouseThread _ => .isTrue trivial
  | .rouseCaller _ => .isTrue trivial

/-- A caller that sleeps in `thpool_wait` has a thread to wait for. -/
structure Solitary (pool : Pool Work) : Prop where
  single : ∀ caller other, (pool.callers caller).waits = true →
    (pool.callers other).waits = true → caller = other
  slept : ∀ caller, pool.callers caller = .asleep →
    pool.queue ≠ [] ∨ pool.numThreadsWorking ≠ 0

section Waiting

variable {numThreads numCallers : Nat} {pool next : Pool Work}
  {event : Event Work}

theorem solitary_init : Solitary (thpoolInit : Pool Work) where
  single _ _ waits := by cases waits
  slept _ stage := by cases stage

theorem Moves.waits_of_waits
    (moves : Moves numThreads numCallers pool event next) {caller : Nat}
    (waits : (next.callers caller).waits = true) :
    (pool.callers caller).waits = true ∨ event = .wait caller := by
  have moved : ∀ {mover : Nat} {before : Caller} {after : Caller},
      pool.callers mover = before →
        (after.waits = true → before.waits = true) →
          (update pool.callers mover after caller).waits = true →
            (pool.callers caller).waits = true := by
    intro mover before after stage implies waits
    rw [update_apply] at waits
    split at waits
    · rename_i same
      rw [same, stage]
      exact implies waits
    · exact waits
  cases moves with
  | adds _ stage =>
      exact .inl (moved stage (fun absurd => by cases absurd) waits)
  | @waits mover _ stage =>
      by_cases same : caller = mover
      · exact .inr (by rw [same])
      · left
        rwa [← update_of_ne same Caller.locking pool.callers]
  | leavesLast _ _ _ _ signalled =>
      left
      rcases signal_frame signalled caller with same | ⟨_, down, _⟩
      · rwa [← same]
      · rw [Caller.sleeps_iff.mp down]
        rfl
  | posts _ stage =>
      exact .inl (moved stage (fun absurd => by cases absurd) waits)
  | locks _ stage => exact .inl (moved stage (fun _ => rfl) waits)
  | seesJobs _ stage => exact .inl (moved stage (fun _ => rfl) waits)
  | seesEmpty _ stage => exact .inl (moved stage (fun _ => rfl) waits)
  | seesWorking _ stage => exact .inl (moved stage (fun _ => rfl) waits)
  | returns _ stage =>
      exact .inl (moved stage (fun absurd => by cases absurd) waits)
  | rousesCaller _ stage => exact .inl (moved stage (fun _ => rfl) waits)
  | _ => exact .inl waits

theorem Solitary.single_moves (solitary : Solitary pool)
    (locked : Locked numCallers pool) (alone : Alone numCallers pool event)
    (moves : Moves numThreads numCallers pool event next)
    (caller other : Nat) (first : (next.callers caller).waits = true)
    (second : (next.callers other).waits = true) : caller = other := by
  have nobody : ∀ {entering inside : Nat}, event = .wait entering →
      (pool.callers inside).waits = true → False := by
    intro entering inside same waits
    rw [same] at alone
    have bound : inside < numCallers := locked.lt_of_ne (by
      intro away
      rw [away] at waits
      cases waits)
    rw [alone inside bound] at waits
    cases waits
  rcases moves.waits_of_waits first with left | left
  · rcases moves.waits_of_waits second with right | right
    · exact solitary.single caller other left right
    · exact (nobody right left).elim
  · rcases moves.waits_of_waits second with right | right
    · exact (nobody left right).elim
    · rw [left] at right
      exact Event.wait.inj right

theorem Counted.working_ne_zero (counted : Counted numThreads pool)
    {index : Nat} (works : (pool.threads index).working = true)
    (bound : index < numThreads) : pool.numThreadsWorking ≠ 0 := by
  have one := le_weigh Thread.share pool.threads bound
  have working := counted.working
  rw [Thread.share, works, Bool.toNat_true] at one
  omega

/-- The last thread wakes the one caller that sleeps. -/
theorem Solitary.awake_of_signal (solitary : Solitary pool)
    (locked : Locked numCallers pool) {callers : Nat → Caller}
    {woken : Option Nat}
    (signalled : signal numCallers Caller.sleeps .locking pool.callers
      woken = some callers) (caller : Nat) : callers caller ≠ .asleep := by
  intro asleep
  have slept : pool.callers caller = .asleep := by
    rcases signal_frame signalled caller with same | ⟨_, _, up⟩
    · rw [← same, asleep]
    · rw [up] at asleep
      cases asleep
  have bound : caller < numCallers := locked.lt_of_ne (by simp [slept])
  cases woken with
  | none =>
      simp only [signal] at signalled
      split at signalled
      · rename_i nobody
        have wakes := nobody caller bound
        rw [slept] at wakes
        cases wakes
      · cases signalled
  | some other =>
      simp only [signal] at signalled
      split at signalled
      · rename_i sleeping
        cases signalled
        have same : caller = other := solitary.single caller other
          (by rw [slept]; rfl)
          (by rw [Caller.sleeps_iff.mp sleeping.2]; rfl)
        rw [same, update_self] at asleep
        cases asleep
      · cases signalled

theorem Solitary.slept_moves (solitary : Solitary pool)
    (counted : Counted numThreads pool) (locked : Locked numCallers pool)
    (moves : Moves numThreads numCallers pool event next) (caller : Nat)
    (asleep : next.callers caller = .asleep) :
    next.queue ≠ [] ∨ next.numThreadsWorking ≠ 0 := by
  have moved : ∀ {mover : Nat} {after : Caller}, after ≠ .asleep →
      update pool.callers mover after caller = .asleep →
        pool.callers caller = .asleep := by
    intro mover after up asleep
    rw [update_apply] at asleep
    split at asleep
    · exact absurd asleep up
    · exact asleep
  have slept := solitary.slept caller
  have working := counted.working
  cases moves with
  | adds => exact .inl (by simp [jobqueuePush])
  | waits => exact slept (moved (by simp) asleep)
  | takes => exact slept asleep
  | dozes => exact slept asleep
  | counts =>
      right
      simp only
      omega
  | misses => exact slept asleep
  | pullsLast bound stage =>
      exact .inr (counted.working_ne_zero (by rw [stage]; rfl) bound)
  | pulls bound stage =>
      exact .inr (counted.working_ne_zero (by rw [stage]; rfl) bound)
  | reposts bound stage =>
      exact .inr (counted.working_ne_zero (by rw [stage]; rfl) bound)
  | completes bound stage =>
      exact .inr (counted.working_ne_zero (by rw [stage]; rfl) bound)
  | leaves _ _ _ others => exact .inr others
  | leavesLast _ _ _ _ signalled =>
      exact absurd asleep (solitary.awake_of_signal locked signalled caller)
  | posts => exact slept (moved (by simp) asleep)
  | locks => exact slept (moved (by simp) asleep)
  | seesJobs _ _ queue => exact .inl queue
  | seesEmpty => exact slept (moved (by simp) asleep)
  | seesWorking _ _ working => exact .inr working
  | returns => exact slept (moved (by simp) asleep)
  | rousesThread => exact slept asleep
  | rousesCaller => exact slept (moved (by simp) asleep)

end Waiting

/-! ## How many steps there are -/

/-- The steps a thread can still take. -/
def Thread.weight : Thread Work → Nat
  | .asleep => 0
  | .testing => 1
  | .finished => 5
  | .counted | .running _ => 6
  | .awake => 7
  | .reposting _ => 15

def Caller.weight : Caller → Nat
  | .away | .asleep => 0
  | .emptied => 1
  | .testing => 2
  | .locking => 3
  | .posting => 9

/-- The steps the pool can still take without another call or a spurious
wakeup. -/
def measure (numThreads numCallers : Nat) (pool : Pool Work) : Nat :=
  10 * pool.queue.length + 7 * pool.v.toNat +
    weigh numThreads Thread.weight pool.threads +
      weigh numCallers Caller.weight pool.callers

/-- The steps that follow from an event of the environment. -/
def Event.cost : Event Work → Nat
  | .addWork .. => 20
  | .wait _ => 4
  | .thread .. | .caller .. => 0
  | .rouseThread _ => 2
  | .rouseCaller _ => 4

section Measure

variable {numThreads numCallers : Nat} {pool next : Pool Work}
  {event : Event Work}

theorem Moves.measure_lt
    (moves : Moves numThreads numCallers pool event next) :
    measure numThreads numCallers next + 1 ≤
      measure numThreads numCallers pool + event.cost := by
  have threads : ∀ {mover : Nat} {stages : Nat → Thread Work}
      {before : Thread Work} (after : Thread Work), mover < numThreads →
        stages mover = before →
          weigh numThreads Thread.weight (update stages mover after) +
              before.weight =
            weigh numThreads Thread.weight stages + after.weight := by
    intro mover stages before after bound stage
    rw [← stage]
    exact weigh_update _ _ bound after
  have callers : ∀ {mover : Nat} {before : Caller} (after : Caller),
      mover < numCallers → pool.callers mover = before →
        weigh numCallers Caller.weight (update pool.callers mover after) +
            before.weight =
          weigh numCallers Caller.weight pool.callers + after.weight := by
    intro mover before after bound stage
    rw [← stage]
    exact weigh_update _ _ bound after
  unfold measure
  cases moves with
  | adds bound stage =>
      have changed := callers .posting bound stage
      simp only [jobqueuePush, List.length_append, List.length_singleton,
        Caller.weight, Event.cost] at changed ⊢
      omega
  | waits bound stage =>
      have changed := callers .locking bound stage
      simp only [Caller.weight, Event.cost] at changed ⊢
      omega
  | takes bound stage up =>
      have changed := threads .awake bound stage
      simp only [up, Bool.toNat_true, Bool.toNat_false, Thread.weight,
        Event.cost] at changed ⊢
      omega
  | dozes bound stage =>
      have changed := threads .asleep bound stage
      simp only [Thread.weight, Event.cost] at changed ⊢
      omega
  | counts bound stage =>
      have changed := threads .counted bound stage
      simp only [Thread.weight, Event.cost] at changed ⊢
      omega
  | misses bound stage =>
      have changed := threads .finished bound stage
      simp only [Thread.weight, Event.cost] at changed ⊢
      omega
  | @pullsLast _ _ job bound stage _ queue =>
      have changed := threads (.running job) bound stage
      simp only [queue, List.length_nil, List.length_singleton, Thread.weight,
        Event.cost] at changed ⊢
      omega
  | @pulls _ _ job _ bound stage _ queue =>
      have changed := threads (.reposting job) bound stage
      simp only [queue, List.length_cons, Thread.weight, Event.cost]
        at changed ⊢
      omega
  | @reposts index _ job stages bound stage signalled =>
      have kept : stages index = .reposting job :=
        signal_of_ne signalled stage rfl
      have woken := weigh_signal_le Thread.weight signalled
      have changed := threads (.running job) bound kept
      have one := Bool.toNat_le pool.v
      simp only [Bool.toNat_true, Thread.weight, Event.cost]
        at changed woken ⊢
      omega
  | completes bound stage =>
      have changed := threads .finished bound stage
      simp only [Thread.weight, Event.cost] at changed ⊢
      omega
  | leaves bound stage =>
      have changed := threads .testing bound stage
      simp only [Thread.weight, Event.cost] at changed ⊢
      omega
  | leavesLast bound stage _ _ signalled =>
      have woken := weigh_signal_le Caller.weight signalled
      have changed := threads .testing bound stage
      simp only [Thread.weight, Caller.weight, Event.cost] at changed woken ⊢
      omega
  | posts bound stage signalled =>
      have woken := weigh_signal_le Thread.weight signalled
      have changed := callers .away bound stage
      simp only [Bool.toNat_true, Thread.weight, Caller.weight, Event.cost]
        at changed woken ⊢
      omega
  | locks bound stage =>
      have changed := callers .testing bound stage
      simp only [Caller.weight, Event.cost] at changed ⊢
      omega
  | seesJobs bound stage =>
      have changed := callers .asleep bound stage
      simp only [condWait, Caller.weight, Event.cost] at changed ⊢
      omega
  | seesEmpty bound stage =>
      have changed := callers .emptied bound stage
      simp only [Caller.weight, Event.cost] at changed ⊢
      omega
  | seesWorking bound stage =>
      have changed := callers .asleep bound stage
      simp only [condWait, Caller.weight, Event.cost] at changed ⊢
      omega
  | returns bound stage =>
      have changed := callers .away bound stage
      simp only [Caller.weight, Event.cost] at changed ⊢
      omega
  | rousesThread bound stage =>
      have changed := threads .testing bound stage
      simp only [Thread.weight, Event.cost] at changed ⊢
      omega
  | rousesCaller bound stage =>
      have changed := callers .locking bound stage
      simp only [Caller.weight, Event.cost] at changed ⊢
      omega

theorem measure_init (numThreads numCallers : Nat) :
    measure numThreads numCallers (thpoolInit : Pool Work) = numThreads := by
  simp [measure, thpoolInit, weigh, Thread.weight, Caller.weight]

end Measure

/-- What keeps the pool going, in every state. -/
structure Live (numThreads numCallers : Nat) (pool : Pool Work) : Prop where
  invariant : Invariant numThreads pool
  locked : Locked numCallers pool
  posted : Posted numThreads pool

section Runs

variable {numThreads numCallers : Nat} {pool next final : Pool Work}
  {event : Event Work} {events : List (Event Work)}

theorem live_init (positive : 0 < numThreads) :
    Live numThreads numCallers (thpoolInit : Pool Work) :=
  ⟨invariant_init numThreads, locked_init numCallers, posted_init positive⟩

theorem Live.step (positive : 0 < numThreads)
    (live : Live numThreads numCallers pool)
    (stepped : step numThreads numCallers pool event = some next) :
    Live numThreads numCallers next :=
  have moves := step_moves stepped
  ⟨live.invariant.moves moves, live.locked.moves moves,
    live.posted.moves positive moves⟩

theorem Live.run (positive : 0 < numThreads)
    (live : Live numThreads numCallers pool)
    (taken : run (ThreadPool.step numThreads numCallers) pool events =
      some final) : Live numThreads numCallers final :=
  Reachable.invariant (Live numThreads numCallers)
    (fun _ _ _ before stepped => before.step positive stepped) live ⟨events, taken⟩

theorem solitary_of_alone (positive : 0 < numThreads)
    (taken : run (step numThreads numCallers) thpoolInit events = some pool)
    (alone : Meets (step numThreads numCallers) (Alone numCallers) thpoolInit
      events) : Solitary pool := by
  have kept := run_invariant
    (fun pool : Pool Work => Live numThreads numCallers pool ∧ Solitary pool)
    (fun state event next before alone stepped =>
      have moves := step_moves stepped
      ⟨before.1.step positive stepped,
        before.2.single_moves before.1.locked alone moves,
        before.2.slept_moves before.1.invariant.counted before.1.locked moves⟩)
    ⟨live_init positive, solitary_init⟩ alone taken
  exact kept.2

/-- Calls and spurious wakeups pay for all steps, so the pool settles, and then
all jobs are completed.  A caller that never waits together with another one
is back. -/
theorem pool_settles (positive : 0 < numThreads)
    (taken : run (step numThreads numCallers) thpoolInit events =
      some pool) :
    events.length ≤ numThreads + bill Event.cost events ∧
      (Settled numThreads numCallers pool →
        (∀ job ∈ pool.added, job ∈ pool.completed) ∧
          (Meets (step numThreads numCallers) (Alone numCallers) thpoolInit
            events → ∀ caller, pool.callers caller = .away)) := by
  have live := (live_init positive).run positive taken
  have counted := live.invariant.counted
  constructor
  · have paid := length_le_of_measure (measure numThreads numCallers)
      Event.cost (fun _ => True) (fun _ _ _ _ _ => trivial)
      (fun _ _ _ _ stepped => (step_moves stepped).measure_lt) trivial taken
    rw [measure_init] at paid
    omega
  · intro settled
    obtain ⟨queue, idle, callers⟩ :=
      settled.idle counted live.locked live.posted
    refine ⟨fun job member => live.invariant.tracked.mem_completed_of_idle
      counted queue idle member, fun alone caller => ?_⟩
    rcases callers caller with away | asleep
    · exact away
    · rcases (solitary_of_alone positive taken alone).slept caller asleep with
        jobs | working
      · exact absurd queue jobs
      · exact absurd idle working

end Runs

/-- One thread does a job that one caller waits for. -/
def oneJob : List (Event String) :=
  [.addWork 0 "job", .caller 0 none, .wait 0, .caller 0 none, .caller 0 none,
    .thread 0 none, .thread 0 none, .thread 0 none, .thread 0 none,
    .thread 0 (some 0), .thread 0 none, .caller 0 none, .caller 0 none,
    .caller 0 none]

theorem pool_settles_oneJob :
    ∃ pool, run (step 1 1) thpoolInit oneJob = some pool ∧
      pool.added.length = 1 ∧ (∀ job ∈ pool.added, job ∈ pool.completed) ∧
        ∀ caller, pool.callers caller = .away := by
  refine ⟨_, rfl, rfl, ?_⟩
  have settles := @pool_settles String 1 1 _ oneJob (by decide) rfl
  have done := settles.2 (settled_of_stages (by decide) (by decide))
  exact ⟨done.1, done.2 (by decide)⟩

/-- Two callers wait for one job; the signal at its end is for one of them. -/
def together : List (Event String) :=
  [.addWork 0 "job", .caller 0 none, .wait 0, .wait 1, .caller 0 none,
    .caller 0 none, .caller 1 none, .caller 1 none, .thread 0 none,
    .thread 0 none, .thread 0 none, .thread 0 none, .thread 0 (some 0),
    .thread 0 none, .caller 0 none, .caller 0 none, .caller 0 none]

/-- The other one sleeps on, with all jobs completed. -/
theorem together_sleeps_on :
    ∃ pool, run (step 1 2) thpoolInit together = some pool ∧
      Settled 1 2 pool ∧ pool.queue = [] ∧ pool.callers 1 = .asleep :=
  ⟨_, rfl, settled_of_stages (by decide) (by decide), rfl, rfl⟩

end IncEmulation.ThreadPool
