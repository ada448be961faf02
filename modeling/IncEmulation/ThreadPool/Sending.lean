import IncEmulation.ThreadPool.Waiting
import IncEmulation.Switch.Handler
import Mathlib.Data.List.Forall2
import Mathlib.Data.List.Induction
import Mathlib.Data.List.Perm.Basic

/-!
# Multicast through the thread pool

`send_packets_multithread` hands one job for each outgoing connection to the
pool and waits.  The arguments of the jobs lie on its stack, so a job that
still ran after the return would read memory that is gone.
-/

namespace IncEmulation.ThreadPool

open Function Machine

variable {Work : Type*}

/-- A call of a function of the pool. -/
inductive Request (Work : Type*) where
  | addWork (work : Work)
  | wait

/-- The call that begins with this event, if it is one of the caller. -/
def Event.requestOf (caller : Nat) : Event Work → Option (Request Work)
  | .addWork other work => if other = caller then some (.addWork work) else none
  | .wait other => if other = caller then some .wait else none
  | _ => none

/-- The calls a caller has made, in order. -/
def requests (caller : Nat) (events : List (Event Work)) :
    List (Request Work) :=
  events.filterMap (Event.requestOf caller)

def Request.work? : Request Work → Option Work
  | .addWork work => some work
  | .wait => none

def worksOf (calls : List (Request Work)) : List Work :=
  calls.filterMap Request.work?

/-- The jobs of one caller. -/
def jobsOf (caller : Nat) (jobs : List (Job Work)) : List (Job Work) :=
  jobs.filter fun job => job.owner = caller

section Requests

variable {numThreads numCallers caller : Nat} {pool next final : Pool Work}
  {event : Event Work} {events : List (Event Work)}

@[simp]
theorem requests_cons :
    requests caller (event :: events) =
      (event.requestOf caller).toList ++ requests caller events := by
  unfold requests
  cases called : event.requestOf caller with
  | none => simp [called]
  | some call => simp [called]

@[simp]
theorem worksOf_append (first second : List (Request Work)) :
    worksOf (first ++ second) = worksOf first ++ worksOf second :=
  List.filterMap_append

@[simp]
theorem worksOf_map_addWork (works : List Work) :
    worksOf (works.map Request.addWork) = works := by
  unfold worksOf
  rw [List.filterMap_map]
  exact List.filterMap_some

@[simp]
theorem jobsOf_append (first second : List (Job Work)) :
    jobsOf caller (first ++ second) =
      jobsOf caller first ++ jobsOf caller second :=
  List.filter_append ..

theorem mem_jobsOf {jobs : List (Job Work)} {job : Job Work} :
    job ∈ jobsOf caller jobs ↔ job ∈ jobs ∧ job.owner = caller := by
  simp [jobsOf]

/-- The job an event adds. -/
def Event.newJobs (serial : Nat) : Event Work → List (Job Work)
  | .addWork caller work => [⟨caller, serial, work⟩]
  | _ => []

theorem Moves.added (moves : Moves numThreads numCallers pool event next) :
    next.added = pool.added ++ event.newJobs pool.added.length := by
  cases moves with
  | adds => exact (List.append_assoc ..).symm
  | pullsLast _ _ _ queue =>
      simp [Pool.added, Event.newJobs, queue]
  | pulls _ _ _ queue => simp [Pool.added, Event.newJobs, queue]
  | _ => exact (List.append_nil _).symm

theorem newJobs_requestOf (event : Event Work) (serial : Nat) :
    (jobsOf caller (event.newJobs serial)).map Job.work =
      worksOf (event.requestOf caller).toList := by
  cases event with
  | addWork other work =>
      by_cases same : other = caller
      · simp [Event.newJobs, Event.requestOf, same, jobsOf, worksOf,
          Request.work?]
      · simp [Event.newJobs, Event.requestOf, same, jobsOf, worksOf]
  | wait other =>
      by_cases same : other = caller
      · simp [Event.newJobs, Event.requestOf, same, jobsOf, worksOf,
          Request.work?]
      · simp [Event.newJobs, Event.requestOf, same, jobsOf, worksOf]
  | _ => rfl

theorem run_jobsOf (caller : Nat)
    (taken : run (step numThreads numCallers) pool events = some final) :
    (jobsOf caller final.added).map Job.work =
      (jobsOf caller pool.added).map Job.work ++
        worksOf (requests caller events) := by
  induction events generalizing pool with
  | nil =>
      cases taken
      exact (List.append_nil _).symm
  | cons event events induction =>
      rw [run_cons] at taken
      obtain ⟨next, stepped, rest⟩ := Option.bind_eq_some_iff.mp taken
      rw [induction rest, (step_moves stepped).added, jobsOf_append,
        List.map_append, newJobs_requestOf, requests_cons, worksOf_append,
        List.append_assoc]

/-- Nothing was added by the caller since its last call of `thpool_wait`. -/
def Quiet (caller : Nat) (pool : Pool Work) : Prop :=
  ∀ job ∈ pool.added, job.owner = caller → job.serial < pool.due caller

theorem Tracked.serial_lt (tracked : Tracked pool) {job : Job Work}
    (member : job ∈ pool.added) : job.serial < pool.added.length := by
  rw [← List.mem_range, ← tracked.numbered]
  exact List.mem_map_of_mem member

theorem quiet_of_wait (tracked : Tracked pool)
    (stepped : step numThreads numCallers pool (.wait caller) = some next) :
    Quiet caller next := by
  have moves := step_moves stepped
  have added := moves.added
  intro job member _
  simp only [added, Event.newJobs, List.append_nil] at member
  have early := tracked.serial_lt member
  cases moves with
  | waits =>
      change job.serial < update pool.due caller pool.added.length caller
      rwa [update_self]

theorem Moves.due (moves : Moves numThreads numCallers pool event next)
    (other : event.requestOf caller = none) :
    next.due caller = pool.due caller := by
  cases moves with
  | @waits index =>
      have different : index ≠ caller := by
        intro same
        simp [Event.requestOf, same] at other
      exact update_of_ne different.symm ..
  | _ => rfl

theorem Quiet.moves (quiet : Quiet caller pool)
    (moves : Moves numThreads numCallers pool event next)
    (other : event.requestOf caller = none) : Quiet caller next := by
  intro job member owner
  rw [moves.due other]
  rw [moves.added] at member
  rcases List.mem_append.mp member with old | new
  · exact quiet job old owner
  · cases event with
    | addWork index work =>
        obtain rfl := List.mem_singleton.mp new
        simp only at owner
        simp [Event.requestOf, owner] at other
    | _ => cases new

/-- A caller whose last call is `thpool_wait` has added nothing since. -/
theorem quiet_of_requests (invariant : Invariant numThreads pool)
    (taken : Machine.run (step numThreads numCallers) pool events = some final)
    {earlier : List (Request Work)}
    (calls : requests caller events = earlier ++ [.wait]) :
    Quiet caller final := by
  obtain ⟨before, rest, rfl, -, last⟩ :=
    List.filterMap_eq_append_iff.mp calls
  obtain ⟨middle, event, after, rfl, -, called, none⟩ :=
    List.filterMap_eq_cons_iff.mp last
  rw [run_append, Option.bind_eq_some_iff] at taken
  obtain ⟨first, beforeRun, taken⟩ := taken
  rw [run_append, Option.bind_eq_some_iff] at taken
  obtain ⟨second, middleRun, taken⟩ := taken
  rw [run_cons, Option.bind_eq_some_iff] at taken
  obtain ⟨third, stepped, afterRun⟩ := taken
  have event_eq : event = .wait caller := by
    cases event with
    | wait other =>
        simp only [Event.requestOf, Option.ite_none_right_eq_some] at called
        rw [called.1]
    | addWork other work => simp [Event.requestOf] at called
    | _ => cases called
  subst event_eq
  have tracked := ((invariant.run beforeRun).run middleRun).tracked
  have silent : Meets (step numThreads numCallers)
      (fun _ event => event.requestOf caller = Option.none) third after :=
    meets_of_forall (fun event member _ =>
      List.filterMap_eq_nil_iff.mp none event member) third
  exact run_invariant (Quiet caller)
    (fun _ _ _ quiet other taken => quiet.moves (step_moves taken) other)
    (quiet_of_wait tracked stepped) silent afterRun

/-- In every interleaving of threads and callers, a caller that is back from
`thpool_wait` has each job it asked for run once, and none of them is queued or
in the hands of a thread. -/
theorem completed_of_back
    (taken : Machine.run (step numThreads numCallers) thpoolInit events =
      some pool) {earlier : List (Request Work)}
    (calls : requests caller events = earlier ++ [.wait])
    (back : (pool.callers caller).waits = false) :
    ((jobsOf caller pool.completed).map Job.work).Perm (worksOf earlier) ∧
      (∀ job ∈ pool.queue, job.owner ≠ caller) ∧
        ∀ index job, pool.holds index = some job → job.owner ≠ caller := by
  have invariant := (invariant_init numThreads).run taken
  have quiet := quiet_of_requests (invariant_init numThreads) taken calls
  have tracked := invariant.tracked
  have done : ∀ job ∈ pool.added, job.owner = caller →
      job ∈ pool.completed := fun job member owner =>
    invariant.awaited.returned caller back job member
      (quiet job member owner)
  have pulled_added : ∀ job ∈ pool.pulled, job ∈ pool.added :=
    fun job member => List.mem_append_left _ member
  refine ⟨?_, ?_, ?_⟩
  · have asked := run_jobsOf caller taken
    have same : (jobsOf caller pool.completed).Perm
        (jobsOf caller pool.added) := by
      refine (List.perm_ext_iff_of_nodup (tracked.once.filter _)
        (tracked.nodup.filter _)).mpr fun job => ?_
      constructor
      · intro member
        obtain ⟨completed, owner⟩ := mem_jobsOf.mp member
        exact mem_jobsOf.mpr
          ⟨pulled_added job (tracked.began job completed), owner⟩
      · intro member
        obtain ⟨added, owner⟩ := mem_jobsOf.mp member
        exact mem_jobsOf.mpr ⟨done job added owner, owner⟩
    rw [calls, worksOf_append] at asked
    refine (same.map Job.work).trans (List.Perm.of_eq ?_)
    rw [asked]
    exact List.append_nil _
  · intro job member owner
    have completed := done job (List.mem_append_right _ member) owner
    exact (List.nodup_append.mp tracked.nodup).2.2 job
      (tracked.began job completed) job member rfl
  · intro index job held owner
    have known := tracked.held index job held
    exact known.2 (done job (pulled_added job known.1) owner)

theorem run_completed
    (taken : Machine.run (step numThreads numCallers) pool events = some final) :
    ∃ extra, final.completed = pool.completed ++ extra := by
  refine Reachable.invariant
    (fun state => ∃ extra, state.completed = pool.completed ++ extra)
    (fun state event next grown stepped => ?_)
    ⟨[], (List.append_nil _).symm⟩ ⟨events, taken⟩
  obtain ⟨extra, grown⟩ := grown
  cases (step_moves stepped).moved with
  | stays _ _ _ completed => exact ⟨extra, completed.trans grown⟩
  | adds _ _ _ _ _ completed => exact ⟨extra, completed.trans grown⟩
  | pulls _ _ _ _ _ _ completed => exact ⟨extra, completed.trans grown⟩
  | completes _ job _ _ _ _ completed =>
      exact ⟨extra ++ [job], by rw [completed, grown, List.append_assoc]⟩

/-- A caller makes its next call when it is back from the one before. -/
theorem back_of_request {call : Request Work}
    (stepped : step numThreads numCallers pool event = some next)
    (called : event.requestOf caller = some call) :
    (pool.callers caller).waits = false := by
  have moves := step_moves stepped
  cases moves with
  | @adds other _ _ stage =>
      simp only [Event.requestOf, Option.ite_none_right_eq_some] at called
      rw [← called.1, stage]
      rfl
  | @waits other _ stage =>
      simp only [Event.requestOf, Option.ite_none_right_eq_some] at called
      rw [← called.1, stage]
      rfl
  | _ => cases called

/-- The state in which a caller makes the first call of `later`. -/
theorem exists_before_request
    (taken : Machine.run (step numThreads numCallers) pool events = some final)
    {earlier later : List (Request Work)} {call : Request Work}
    (calls : requests caller events = earlier ++ call :: later) :
    ∃ before middle after,
      Machine.run (step numThreads numCallers) pool before = some middle ∧
        Machine.run (step numThreads numCallers) middle after = some final ∧
          requests caller before = earlier ∧
            (middle.callers caller).waits = false := by
  obtain ⟨first, rest, rfl, firstCalls, restCalls⟩ :=
    List.filterMap_eq_append_iff.mp calls
  obtain ⟨between, event, after, rfl, silent, called, -⟩ :=
    List.filterMap_eq_cons_iff.mp restCalls
  rw [← List.append_assoc, run_append, Option.bind_eq_some_iff] at taken
  obtain ⟨middle, beforeRun, taken⟩ := taken
  refine ⟨first ++ between, middle, event :: after, beforeRun, taken, ?_, ?_⟩
  · rw [requests, List.filterMap_append, firstCalls,
      List.filterMap_eq_nil_iff.mpr silent, List.append_nil]
  · rw [run_cons, Option.bind_eq_some_iff] at taken
    obtain ⟨next, stepped, -⟩ := taken
    exact back_of_request stepped called

/-- The calls that add some jobs and wait for them. -/
def batch (works : List Work) : List (Request Work) :=
  works.map .addWork ++ [.wait]

theorem worksOf_batches (batches : List (List Work)) :
    worksOf (batches.flatMap batch) = batches.flatten := by
  induction batches with
  | nil => rfl
  | cons works batches induction =>
      rw [List.flatMap_cons, worksOf_append, induction, batch, worksOf_append,
        worksOf_map_addWork, List.flatten_cons]
      exact congrArg (· ++ _) (List.append_nil _)

/-- Batch after batch: the pool permutes the jobs of a caller only between two
of its calls of `thpool_wait`. -/
theorem completed_in_batches {batches : List (List Work)}
    (taken : Machine.run (step numThreads numCallers) thpoolInit events =
      some pool)
    (calls : requests caller events = batches.flatMap batch)
    (back : (pool.callers caller).waits = false) :
    ∃ done, List.Forall₂ List.Perm done batches ∧
      (jobsOf caller pool.completed).map Job.work = done.flatten := by
  induction batches using List.reverseRecOn generalizing events pool with
  | nil =>
      refine ⟨[], .nil, ?_⟩
      have asked := run_jobsOf caller taken
      rw [calls] at asked
      have nothing := List.map_eq_nil_iff.mp asked
      have tracked := ((invariant_init numThreads).run taken).tracked
      rw [List.flatten_nil, List.map_eq_nil_iff,
        List.eq_nil_iff_forall_not_mem]
      intro job member
      obtain ⟨completed, owner⟩ := mem_jobsOf.mp member
      have added := List.mem_append_left pool.queue
        (tracked.began job completed)
      have asked := mem_jobsOf.mpr ⟨added, owner⟩
      exact List.not_mem_nil (nothing ▸ asked)
  | append_singleton batches last induction =>
      rw [List.flatMap_append, List.flatMap_singleton] at calls
      obtain ⟨call, later, lastCalls⟩ :
          ∃ call later, batch last = call :: later :=
        List.exists_cons_of_ne_nil (by simp [batch])
      have split := calls
      rw [lastCalls] at split
      obtain ⟨before, middle, after, beforeRun, afterRun, earlier, idle⟩ :=
        exists_before_request taken split
      obtain ⟨done, permuted, completed⟩ :=
        induction beforeRun earlier idle
      obtain ⟨extra, grown⟩ := run_completed afterRun
      have all : (jobsOf caller pool.completed).map Job.work =
          done.flatten ++ (jobsOf caller extra).map Job.work := by
        rw [grown, jobsOf_append, List.map_append, completed]
      refine ⟨done ++ [(jobsOf caller extra).map Job.work], ?_, ?_⟩
      · refine List.rel_append permuted (.cons ?_ .nil)
        rw [batch, ← List.append_assoc] at calls
        have asked := (completed_of_back taken calls back).1
        rw [all, worksOf_append, worksOf_map_addWork, worksOf_batches]
          at asked
        have same : done.flatten.Perm batches.flatten :=
          List.Perm.flatten_congr permuted
        exact (List.perm_append_left_iff _).mp
          ((same.symm.append_right _).trans asked)
      · rw [all, List.flatten_append, List.flatten_singleton]

/-- Between its batches a caller has no job with the pool. -/
theorem not_owner_of_back {batches : List (List Work)}
    (taken : Machine.run (step numThreads numCallers) thpoolInit events =
      some pool)
    (calls : requests caller events = batches.flatMap batch)
    (back : (pool.callers caller).waits = false) :
    (∀ job ∈ pool.queue, job.owner ≠ caller) ∧
      ∀ index job, pool.holds index = some job → job.owner ≠ caller := by
  rcases List.eq_nil_or_concat batches with rfl | ⟨batches, last, rfl⟩
  · have asked := run_jobsOf caller taken
    rw [calls] at asked
    have nothing := List.map_eq_nil_iff.mp asked
    have tracked := ((invariant_init numThreads).run taken).tracked
    have unowned : ∀ job ∈ pool.added, job.owner ≠ caller := by
      intro job member owner
      have asked := mem_jobsOf.mpr ⟨member, owner⟩
      exact List.not_mem_nil (nothing ▸ asked)
    exact ⟨fun job member => unowned job (List.mem_append_right _ member),
      fun index job held => unowned job
        (List.mem_append_left _ (tracked.held index job held).1)⟩
  · rw [List.concat_eq_append, List.flatMap_append, List.flatMap_singleton,
      batch, ← List.append_assoc] at calls
    exact (completed_of_back taken calls back).2

end Requests

/-! ## The jobs of the switch -/

open Switch

/-- The functions that `switch.c` gives to the pool, with their arguments. -/
inductive Task where
  | sendPacketThread (frame : Frame)
  | reThread (id : Nat)
  deriving DecidableEq

def sendPacketsMultithread (rule : Rule) (type : PacketType)
    (data : List UInt32) (psn : Int) (packetType : UInt8) :
    List (Request Task) :=
  batch (rule.outConns.map fun conn =>
    .sendPacketThread ⟨conn, type, psn, packetType, data⟩)

/-- A multicast of a receiving thread, and the `re_thread`s it has started
since the one before.  `forwarding` sends to a single connection itself, and
there is room for the arguments of 16 jobs. -/
structure Multicast where
  reThreads : List Nat
  rule : Rule
  psn : Int
  data : List UInt32
  packetType : UInt8
  several : rule.outConns.length ≠ 1
  room : rule.outConns.length ≤ 16

namespace Multicast

variable (multicast : Multicast)

def frames : List Frame :=
  forwarding multicast.rule multicast.psn .data multicast.data
    multicast.packetType

def requests : List (Request Task) :=
  multicast.reThreads.map (fun id => .addWork (.reThread id)) ++
    sendPacketsMultithread multicast.rule .data multicast.data multicast.psn
      multicast.packetType

def tasks : List Task :=
  multicast.reThreads.map .reThread ++
    multicast.frames.map .sendPacketThread

theorem requests_eq : multicast.requests = batch multicast.tasks := by
  simp only [requests, tasks, frames, sendPacketsMultithread, batch,
    forwarding, List.map_append, List.map_map, List.append_assoc]
  rfl

end Multicast

/-- The frames that tasks give to one connection, in order. -/
def framesTo (conn : Nat) (tasks : List Task) : List Frame :=
  tasks.filterMap fun task =>
    match task with
    | .sendPacketThread frame => if frame.conn = conn then some frame else none
    | .reThread _ => none

section Multicasts

variable {conn : Nat}

@[simp]
theorem framesTo_append (first second : List Task) :
    framesTo conn (first ++ second) =
      framesTo conn first ++ framesTo conn second :=
  List.filterMap_append

theorem framesTo_map (frames : List Frame) :
    framesTo conn (frames.map .sendPacketThread) =
      frames.filter fun frame => frame.conn = conn := by
  induction frames with
  | nil => rfl
  | cons frame frames induction =>
      rw [List.map_cons, ← List.singleton_append, framesTo_append, induction,
        List.filter_cons]
      by_cases same : frame.conn = conn
      · simp [framesTo, same]
      · simp [framesTo, same]

theorem framesTo_tasks (multicast : Multicast) :
    framesTo conn multicast.tasks =
      multicast.frames.filter fun frame => frame.conn = conn := by
  have started : framesTo conn (multicast.reThreads.map .reThread) = [] :=
    List.filterMap_eq_nil_iff.mpr fun task member => by
      obtain ⟨id, -, rfl⟩ := List.mem_map.mp member
      rfl
  rw [Multicast.tasks, framesTo_append, started, List.nil_append,
    framesTo_map]

theorem length_framesTo_le {multicast : Multicast}
    (distinct : multicast.rule.outConns.Nodup) :
    (framesTo conn multicast.tasks).length ≤ 1 := by
  rw [framesTo_tasks, Multicast.frames, forwarding, List.filter_map,
    List.length_map]
  have once := List.nodup_iff_count_le_one.mp distinct conn
  rw [List.count, List.countP_eq_length_filter] at once
  exact once

theorem framesTo_flatten {done batches : List (List Task)}
    (permuted : List.Forall₂ List.Perm done batches)
    (few : ∀ tasks ∈ batches, (framesTo conn tasks).length ≤ 1) :
    framesTo conn done.flatten = framesTo conn batches.flatten := by
  induction permuted with
  | nil => rfl
  | @cons ran tasks done batches perm _ induction =>
      rw [List.flatten_cons, List.flatten_cons, framesTo_append,
        framesTo_append,
        induction fun other member => few other (List.mem_cons_of_mem _ member)]
      congr 1
      have same : (framesTo conn ran).Perm (framesTo conn tasks) :=
        perm.filterMap _
      have one := few tasks List.mem_cons_self
      rcases listed : framesTo conn tasks with _ | ⟨frame, _ | ⟨second, rest⟩⟩
      · exact (listed ▸ same).eq_nil
      · exact (listed ▸ same).eq_singleton
      · rw [listed, List.length_cons, List.length_cons] at one
        omega

end Multicasts

/-- The pool against the sequential `forwarding`: in every interleaving of
threads and receiving threads, the multicasts of one of them put its frames on
each link in the order of its calls of `forwarding`, each once, and leave no
job behind that still needs their arguments. -/
theorem multicasts_in_order {numThreads numCallers caller : Nat}
    {events : List (Event Task)} {pool : Pool Task}
    {multicasts : List Multicast}
    (distinct : ∀ multicast ∈ multicasts, multicast.rule.outConns.Nodup)
    (taken : run (step numThreads numCallers) thpoolInit events = some pool)
    (calls : requests caller events = multicasts.flatMap Multicast.requests)
    (back : (pool.callers caller).waits = false) :
    (∀ conn, framesTo conn ((jobsOf caller pool.completed).map Job.work) =
      (multicasts.flatMap Multicast.frames).filter
        fun frame => frame.conn = conn) ∧
      (∀ job ∈ pool.queue, job.owner ≠ caller) ∧
        ∀ index job, pool.holds index = some job → job.owner ≠ caller := by
  have batches : requests caller events =
      (multicasts.map Multicast.tasks).flatMap batch := by
    rw [calls, List.flatMap_map]
    exact List.flatMap_congr fun multicast _ => multicast.requests_eq
  refine ⟨fun conn => ?_, not_owner_of_back taken batches back⟩
  obtain ⟨done, permuted, completed⟩ := completed_in_batches taken batches back
  rw [completed, framesTo_flatten permuted]
  · clear completed permuted batches calls
    induction multicasts with
    | nil => rfl
    | cons multicast multicasts induction =>
        rw [List.map_cons, List.flatten_cons, framesTo_append, framesTo_tasks,
          induction fun other member =>
            distinct other (List.mem_cons_of_mem _ member),
          List.flatMap_cons, List.filter_append]
  · intro tasks member
    obtain ⟨multicast, listed, rfl⟩ := List.mem_map.mp member
    exact length_framesTo_le (distinct multicast listed)

def twoLinks : Multicast where
  reThreads := []
  rule := ⟨3, .down, 3, [1, 2]⟩
  psn := 7
  data := [5]
  packetType := 0x04
  several := by decide
  room := by decide

/-- The multicast `twoLinks` by two threads, which send the second frame
first. -/
def crossed : List (Event Task) :=
  [.addWork 0 (.sendPacketThread ⟨1, .data, 7, 0x04, [5]⟩), .caller 0 none,
    .addWork 0 (.sendPacketThread ⟨2, .data, 7, 0x04, [5]⟩), .caller 0 none,
    .wait 0, .caller 0 none, .thread 0 none, .caller 0 none,
    .thread 0 none, .thread 0 none, .thread 0 none,
    .thread 1 none, .thread 1 none, .thread 1 none, .thread 1 none,
    .thread 0 none, .thread 1 none, .thread 0 (some 0),
    .caller 0 none, .caller 0 none, .caller 0 none]

theorem multicasts_in_order_crossed :
    ∃ pool, run (step 2 1) thpoolInit crossed = some pool ∧
      ∀ conn, framesTo conn ((jobsOf 0 pool.completed).map Job.work) =
        twoLinks.frames.filter fun frame => frame.conn = conn :=
  ⟨_, rfl, (@multicasts_in_order 2 1 0 crossed _ [twoLinks] (by decide)
    rfl rfl rfl).1⟩

end IncEmulation.ThreadPool
