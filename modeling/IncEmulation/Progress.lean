import IncEmulation.Host
import IncEmulation.Lib.InOrder
import IncEmulation.Lib.Machine

/-!
# How far a rank has come

`sendWrs` and `recvWrs` are the requests a call posts in the end.  `Inside` says
which of them a running call has posted and which completions are still on their
way, `Between` the same between two calls.  Every step of the program and of the
NIC keeps one of them.
-/

namespace IncEmulation

namespace Collective

/-- Whether a rank sends anything in the call. -/
def sends (rank : Nat) : Collective → Bool
  | allreduce => true
  | reduce _ => true
  | broadcast root => rank = root

/-- Whether a rank receives anything in the call. -/
def receives (rank : Nat) : Collective → Bool
  | allreduce => true
  | reduce root => rank = root
  | broadcast root => rank ≠ root

def loop (rank : Nat) : Collective → PollLoop
  | allreduce => .allreduce
  | reduce root => if rank = root then .reduceRoot else .reduceOther
  | broadcast root => if rank = root then .broadcastRoot else .broadcastOther

end Collective

/-- The stages of a call by what the rank does in it. -/
theorem Call.stages_eq (call : Call) (rank : Nat) :
    call.stages rank =
      (if call.collective.sends rank then
        [.postControl call.collective, .awaitControl] else []) ++
      (if call.collective.receives rank then [.postReceives] else []) ++
      (if call.collective.sends rank then [.prepare, .window] else []) ++
      [.poll (call.collective.loop rank)] := by
  unfold Call.stages
  cases call.collective with
  | allreduce => rfl
  | reduce root =>
      by_cases own : rank = root <;>
        simp [incclReduceSendrecv, sendControlMessage, Collective.sends,
          Collective.receives, Collective.loop, own]
  | broadcast root =>
      by_cases own : rank = root <;>
        simp [incclBroadcastSendrecv, sendControlMessage, Collective.sends,
          Collective.receives, Collective.loop, own]

namespace Collective

theorem loop_counts (collective : Collective) (rank : Nat) :
    (collective.loop rank).counts =
      if collective.receives rank then .recv else .send := by
  cases collective with
  | allreduce => rfl
  | reduce root =>
      by_cases own : rank = root <;>
        simp [loop, receives, PollLoop.counts, own]
  | broadcast root =>
      by_cases own : rank = root <;>
        simp [loop, receives, PollLoop.counts, own]

theorem loop_refills (collective : Collective) (rank : Nat) :
    (collective.loop rank).refills = collective.sends rank := by
  cases collective with
  | allreduce => rfl
  | reduce root =>
      by_cases own : rank = root <;>
        simp [loop, sends, PollLoop.refills, own]
  | broadcast root =>
      by_cases own : rank = root <;>
        simp [loop, sends, PollLoop.refills, own]

/-- When its loop ends a rank has seen every message of the call. -/
theorem loop_ended {collective : Collective} {rank messages : Nat}
    {locals : Locals}
    (ended : (collective.loop rank).continues locals messages = false) :
    (collective.receives rank = true → messages ≤ locals.receiveNum) ∧
      (collective.receives rank = false →
        locals.sendNum ≤ locals.sendComplete ∨
          messages ≤ locals.sendComplete) := by
  cases collective with
  | allreduce =>
      simp_all [loop, receives, PollLoop.continues]
  | reduce root =>
      by_cases own : rank = root <;>
        simp_all [loop, receives, PollLoop.continues]
  | broadcast root =>
      by_cases own : rank = root <;>
        simp_all [loop, receives, PollLoop.continues]

theorem sends_of_not_receives {collective : Collective} {rank : Nat}
    (receivesNot : collective.receives rank = false) :
    collective.sends rank = true := by
  cases collective <;> simp_all [sends, receives]

theorem sends_of_aggregates {collective : Collective}
    (aggregates : collective.aggregates = true) (rank : Nat) :
    collective.sends rank = true := by
  cases collective <;> simp_all [sends, Collective.aggregates]

end Collective

namespace Job

variable (job : Job)

def controlWr (number : Nat) (call : Call) : SendWr where
  wrId := controlWrId
  immData := some call.collective.immData
  address := job.payloadBufSize - 1
  length := 1
  call := number

def sendWrsOf (number : Nat) (call : Call) : List SendWr :=
  if call.collective.sends job.rank then
    job.controlWr number call :: (List.range call.messageNum).map fun i =>
      { wrId := i
        immData := none
        address := i * payloadCount
        length := payloadCount
        call := number }
  else []

def recvWrsOf (number : Nat) (call : Call) : List RecvWr :=
  if call.collective.receives job.rank then
    (List.range call.messageNum).map fun i =>
      { wrId := i
        address := i * payloadCount
        length := payloadCount
        call := number }
  else []

/-- The send requests of call `number` of the program. -/
def sendWrs (number : Nat) : List SendWr :=
  match job.program[number]? with
  | some call => job.sendWrsOf number call
  | none => []

def recvWrs (number : Nat) : List RecvWr :=
  match job.program[number]? with
  | some call => job.recvWrsOf number call
  | none => []

/-- The send requests of the first `calls` calls. -/
def sendsBefore (calls : Nat) : List SendWr :=
  (List.range calls).flatMap job.sendWrs

def receivesBefore (calls : Nat) : List RecvWr :=
  (List.range calls).flatMap job.recvWrs

variable {job} {number : Nat} {call : Call}

theorem sendsBefore_succ :
    job.sendsBefore (number + 1) =
      job.sendsBefore number ++ job.sendWrs number := by
  simp [sendsBefore, List.range_succ]

theorem receivesBefore_succ :
    job.receivesBefore (number + 1) =
      job.receivesBefore number ++ job.recvWrs number := by
  simp [receivesBefore, List.range_succ]

theorem sendWrs_of_call (current : job.program[number]? = some call) :
    job.sendWrs number = job.sendWrsOf number call := by
  simp [sendWrs, current]

theorem recvWrs_of_call (current : job.program[number]? = some call) :
    job.recvWrs number = job.recvWrsOf number call := by
  simp [recvWrs, current]

theorem length_sendWrsOf :
    (job.sendWrsOf number call).length =
      if call.collective.sends job.rank then call.messageNum + 1 else 0 := by
  unfold sendWrsOf
  split_ifs <;> simp

theorem length_recvWrsOf :
    (job.recvWrsOf number call).length =
      if call.collective.receives job.rank then call.messageNum else 0 := by
  unfold recvWrsOf
  split_ifs <;> simp

theorem call_of_mem_sendWrs {wr : SendWr} (member : wr ∈ job.sendWrs number) :
    wr.call = number := by
  unfold sendWrs sendWrsOf at member
  split at member
  · split_ifs at member
    · rcases List.mem_cons.mp member with rfl | data
      · rfl
      · obtain ⟨i, -, rfl⟩ := List.mem_map.mp data
        rfl
    · cases member
  · cases member

theorem call_of_mem_recvWrs {wr : RecvWr} (member : wr ∈ job.recvWrs number) :
    wr.call = number := by
  unfold recvWrs recvWrsOf at member
  split at member
  · split_ifs at member
    · obtain ⟨i, -, rfl⟩ := List.mem_map.mp member
      rfl
    · cases member
  · cases member

theorem call_lt_of_mem_sendsBefore {wr : SendWr}
    (member : wr ∈ job.sendsBefore number) : wr.call < number := by
  obtain ⟨earlier, bound, posted⟩ := List.mem_flatMap.mp member
  rw [call_of_mem_sendWrs posted]
  exact List.mem_range.mp bound

theorem call_lt_of_mem_receivesBefore {wr : RecvWr}
    (member : wr ∈ job.receivesBefore number) : wr.call < number := by
  obtain ⟨earlier, bound, posted⟩ := List.mem_flatMap.mp member
  rw [call_of_mem_recvWrs posted]
  exact List.mem_range.mp bound

end Job

namespace Stage

/-- The place of a stage in the course of a call. -/
def order : Stage → Nat
  | postControl _ => 0
  | awaitControl => 1
  | postReceives => 2
  | prepare => 3
  | window => 4
  | poll _ => 5

/-- The place of what is left of a call. -/
def reached : List Stage → Nat
  | [] => 6
  | stage :: _ => stage.order

end Stage

/-- What is left of a call behind each of its stages. -/
theorem Call.stage_cases {call : Call} {rank : Nat} {stage : Stage}
    {rest : List Stage} (suffix : stage :: rest <:+ call.stages rank) :
    rest <:+ call.stages rank ∧
      ((stage = .postControl call.collective ∧
          call.collective.sends rank = true ∧ Stage.reached rest = 1) ∨
        (stage = .awaitControl ∧ call.collective.sends rank = true ∧
          Stage.reached rest =
            if call.collective.receives rank then 2 else 3) ∨
        (stage = .postReceives ∧ call.collective.receives rank = true ∧
          Stage.reached rest = if call.collective.sends rank then 3 else 5) ∨
        (stage = .prepare ∧ call.collective.sends rank = true ∧
          Stage.reached rest = 4) ∨
        (stage = .window ∧ call.collective.sends rank = true ∧
          Stage.reached rest = 5) ∨
        (stage = .poll (call.collective.loop rank) ∧ rest = [])) := by
  refine ⟨(List.suffix_cons stage rest).trans suffix, ?_⟩
  rw [call.stages_eq] at suffix
  cases sends : call.collective.sends rank <;>
    cases receives : call.collective.receives rank <;>
    simp only [sends, receives, if_true, Bool.false_eq_true, if_false,
      List.nil_append, List.cons_append, List.suffix_cons_iff,
      List.suffix_nil, List.cons.injEq, reduceCtorEq, or_false] at suffix
  case false.false =>
    rw [Collective.sends_of_not_receives receives] at sends
    cases sends
  all_goals
    rcases suffix with ⟨rfl, rfl⟩ | suffix
    · simp [Stage.reached, Stage.order]
    · grind [Stage.reached, Stage.order]

/-- The loop of a call is its last stage. -/
theorem Call.poll_cases {call : Call} {rank : Nat} {loop : PollLoop}
    {rest : List Stage} (suffix : .poll loop :: rest <:+ call.stages rank) :
    loop = call.collective.loop rank ∧ rest = [] := by
  simpa using (Call.stage_cases suffix).2

theorem Call.reached_stages (call : Call) (rank : Nat) :
    Stage.reached (call.stages rank) =
      if call.collective.sends rank then 0 else 2 := by
  rw [call.stages_eq]
  cases sends : call.collective.sends rank with
  | true => rfl
  | false =>
      cases receives : call.collective.receives rank with
      | true => rfl
      | false =>
          rw [Collective.sends_of_not_receives receives] at sends
          cases sends

/-- The counters of a call, by the stage it has reached. -/
structure Counters (sends receives : Bool) (messages : Nat) (reached : Nat)
    (locals : Locals) : Prop where
  posted_le : locals.posted ≤ messages
  posted_before : reached < 2 → locals.posted = 0
  posted_after : receives = true → 2 < reached → locals.posted = messages
  posted_none : receives = false → locals.posted = 0
  prepared_le : locals.prepared ≤ messages
  prepared_before : reached < 3 → locals.prepared = 0
  prepared_after : sends = true → 3 < reached → locals.prepared = messages
  sendNum_before : reached < 4 → locals.sendNum = 0
  sendNum_window : reached = 4 → locals.sendNum ≤ min messages windowMessages
  sendNum_after : sends = true → 4 < reached → locals.sendNum =
    min messages (windowMessages +
      if receives then locals.receiveNum else locals.sendComplete)
  sendNum_none : sends = false → locals.sendNum = 0
  receiveNum_before : reached < 5 → locals.receiveNum = 0
  receiveNum_none : receives = false → locals.receiveNum = 0
  sendComplete_before : reached < 5 → locals.sendComplete = 0
  sendComplete_none : receives = true → locals.sendComplete = 0
  wc_before : reached < 5 → locals.wc = []
  wc_after : 5 < reached → locals.wc = []
  received : receives = true → 5 < reached → messages ≤ locals.receiveNum
  completed : receives = false → 5 < reached → messages ≤ locals.sendComplete

namespace Locals

theorem init_counters {sends receives : Bool} {messages reached : Nat}
    (early : reached < 3) :
    Counters sends receives messages reached .init := by
  constructor <;> simp [init] <;> omega

end Locals

/-- What the completion queue and the batch of the last poll hold once
`consumed` receives have been counted. -/
structure QueuePair.Delivered (qp : QueuePair) (wc : List Wc)
    (consumed : Nat) : Prop where
  intact : qp.broken = false
  success : ∀ each ∈ wc ++ qp.cq, each.success = true
  sendsDone_le : qp.sendsDone ≤ qp.sends.length
  receivesDone_le : qp.receivesDone ≤ qp.receives.length
  receives : InOrder.Holds Wc.opcode Wc.request .recv (wc ++ qp.cq) consumed
    qp.receivesDone
  wrId : ∀ each ∈ wc ++ qp.cq, each.opcode = .recv →
    ∃ wr, qp.receives[each.request]? = some wr ∧ each.wrId = wr.wrId

namespace QueuePair.Delivered

variable {qp : QueuePair} {wc batch : List Wc} {each : Wc} {consumed : Nat}

theorem head_recv (delivered : qp.Delivered (each :: wc) consumed)
    (recv : each.opcode = .recv) :
    each.request = consumed ∧ qp.Delivered wc (consumed + 1) := by
  obtain ⟨position, -, rest⟩ := delivered.receives.head recv
  exact ⟨position, {
    delivered with
    success := fun other member => delivered.success other (.tail each member)
    receives := rest
    wrId := fun other member => delivered.wrId other (.tail each member) }⟩

theorem head_send (delivered : qp.Delivered (each :: wc) consumed)
    (send : each.opcode = .send) : qp.Delivered wc consumed where
  intact := delivered.intact
  success := fun other member => delivered.success other (.tail each member)
  sendsDone_le := delivered.sendsDone_le
  receivesDone_le := delivered.receivesDone_le
  receives := delivered.receives.tail_of_ne (by simp [send])
  wrId := fun other member => delivered.wrId other (.tail each member)

theorem opcode_eq_send (delivered : qp.Delivered wc consumed)
    (drained : consumed = qp.receives.length) {other : Wc}
    (member : other ∈ wc ++ qp.cq) : other.opcode = .send := by
  have all : qp.receivesDone = consumed := by
    have le := delivered.receives.le
    have bound := delivered.receivesDone_le
    omega
  have holds := delivered.receives
  rw [all] at holds
  have notRecv := holds.ne_of_mem member
  cases opcode : other.opcode with
  | send => rfl
  | recv => exact absurd opcode notRecv

theorem poll {next : QueuePair} {count : Nat}
    (delivered : qp.Delivered [] consumed)
    (polled : qp.pollCq count = some (batch, next)) :
    next.Delivered batch consumed ∧ batch ++ next.cq = qp.cq ∧
      next.sends = qp.sends ∧ next.receives = qp.receives ∧
      next.sendsDone = qp.sendsDone ∧ next.receivesDone = qp.receivesDone := by
  obtain ⟨rfl, rfl⟩ := QueuePair.eq_of_pollCq polled
  have whole : qp.cq.take count ++ qp.cq.drop count = qp.cq :=
    List.take_append_drop count qp.cq
  refine ⟨⟨delivered.intact, ?_, delivered.sendsDone_le,
    delivered.receivesDone_le, ?_, ?_⟩, whole, rfl, rfl, rfl, rfl⟩
  · rw [whole]
    exact delivered.success
  · rw [whole]
    exact delivered.receives
  · rw [whole]
    exact delivered.wrId

theorem poll_ne_none (delivered : qp.Delivered wc consumed) (count : Nat) :
    qp.pollCq count ≠ none := by
  simp [pollCq, delivered.intact]

theorem postSend (delivered : qp.Delivered wc consumed) (wr : SendWr) :
    (qp.postSend wr).Delivered wc consumed where
  intact := delivered.intact
  success := delivered.success
  sendsDone_le := by
    have bound := delivered.sendsDone_le
    simp only [QueuePair.postSend, List.length_append]
    omega
  receivesDone_le := delivered.receivesDone_le
  receives := delivered.receives
  wrId := delivered.wrId

theorem postRecv (delivered : qp.Delivered wc consumed) (wr : RecvWr) :
    (qp.postRecv wr).Delivered wc consumed where
  intact := delivered.intact
  success := delivered.success
  sendsDone_le := delivered.sendsDone_le
  receivesDone_le := by
    have bound := delivered.receivesDone_le
    simp only [QueuePair.postRecv, List.length_append]
    omega
  receives := delivered.receives
  wrId := by
    intro other member recv
    obtain ⟨found, present, same⟩ := delivered.wrId other member recv
    refine ⟨found, ?_, same⟩
    have bound := (List.getElem?_eq_some_iff.mp present).1
    simp only [QueuePair.postRecv]
    rw [List.getElem?_append_left bound, present]

theorem completeSend {next : QueuePair}
    (delivered : qp.Delivered wc consumed)
    (completes : qp.completeSend = some next) :
    next.Delivered wc consumed ∧ next.sends = qp.sends ∧
      next.receives = qp.receives ∧ next.sendsDone = qp.sendsDone + 1 ∧
      next.receivesDone = qp.receivesDone := by
  obtain ⟨wr, present, rfl⟩ := Option.map_eq_some_iff.mp completes
  have bound := (List.getElem?_eq_some_iff.mp present).1
  refine ⟨⟨delivered.intact, ?_, bound, delivered.receivesDone_le, ?_, ?_⟩,
    rfl, rfl, rfl, rfl⟩
  · intro other member
    rw [← List.append_assoc, List.mem_append, List.mem_singleton] at member
    rcases member with old | rfl
    · exact delivered.success other old
    · rfl
  · rw [← List.append_assoc]
    exact delivered.receives.concat_of_ne (by simp)
  · intro other member recv
    rw [← List.append_assoc, List.mem_append, List.mem_singleton] at member
    rcases member with old | rfl
    · exact delivered.wrId other old recv
    · cases recv

theorem completeReceive {next : QueuePair}
    (delivered : qp.Delivered wc consumed)
    (completes : qp.completeReceive = some next) :
    next.Delivered wc consumed ∧ next.sends = qp.sends ∧
      next.receives = qp.receives ∧ next.sendsDone = qp.sendsDone ∧
      next.receivesDone = qp.receivesDone + 1 := by
  obtain ⟨wr, present, rfl⟩ := Option.map_eq_some_iff.mp completes
  have bound := (List.getElem?_eq_some_iff.mp present).1
  refine ⟨⟨delivered.intact, ?_, delivered.sendsDone_le, bound, ?_, ?_⟩,
    rfl, rfl, rfl, rfl⟩
  · intro other member
    rw [← List.append_assoc, List.mem_append, List.mem_singleton] at member
    rcases member with old | rfl
    · exact delivered.success other old
    · rfl
  · rw [← List.append_assoc]
    exact delivered.receives.concat rfl rfl
  · intro other member recv
    rw [← List.append_assoc, List.mem_append, List.mem_singleton] at member
    rcases member with old | rfl
    · exact delivered.wrId other old recv
    · exact ⟨wr, present, rfl⟩

end QueuePair.Delivered

namespace Host

/-- A running call of which `stages` are left. -/
structure Inside (host : Host) (job : Job) (call : Call)
    (stages : List Stage) : Prop where
  suffix : stages <:+ call.stages job.rank
  counters : Counters (call.collective.sends job.rank)
    (call.collective.receives job.rank) call.messageNum
    (Stage.reached stages) host.locals
  sends : host.qp.sends = job.sendsBefore host.calls ++
    (job.sendWrsOf host.calls call).take
      (if Stage.reached stages = 0 then 0 else host.locals.sendNum + 1)
  receives : host.qp.receives = job.receivesBefore host.calls ++
    (job.recvWrsOf host.calls call).take host.locals.posted
  delivered : host.qp.Delivered host.locals.wc
    ((job.receivesBefore host.calls).length + host.locals.receiveNum)

/-- A rank between two calls. -/
structure Between (host : Host) (job : Job) : Prop where
  sends : host.qp.sends = job.sendsBefore host.calls
  receives : host.qp.receives = job.receivesBefore host.calls
  delivered : host.qp.Delivered [] (job.receivesBefore host.calls).length

structure Invariant (job : Job) (host : Host) : Prop where
  succeeded : host.succeeded = true
  between : host.stages = none → host.Between job
  inside : ∀ stages, host.stages = some stages →
    ∃ call, job.program[host.calls]? = some call ∧
      host.Inside job call stages

/-- A round leaves its call running. -/
structure Continues (host next : Host) (job : Job) (call : Call) : Prop where
  calls : next.calls = host.calls
  succeeded : next.succeeded = host.succeeded
  inside : ∃ stages, next.stages = some stages ∧ next.Inside job call stages

/-- What a step of the program does. -/
inductive Moved (job : Job) (host : Host) : Host → Prop
  | enter {call : Call} (idle : host.stages = none)
      (current : job.program[host.calls]? = some call) :
      Moved job host (host.enter (call.stages job.rank))
  | leave {call : Call} (ended : host.stages = some [])
      (current : job.program[host.calls]? = some call)
      (inside : host.Inside job call []) : Moved job host (host.leave true)
  | round {call : Call} {stage : Stage} {rest : List Stage}
      (running : host.stages = some (stage :: rest))
      (current : job.program[host.calls]? = some call)
      (inside : host.Inside job call (stage :: rest)) :
      Moved job host (host.round job call stage rest)

variable {host next : Host} {job : Job} {call : Call} {stage : Stage}
  {rest : List Stage}

theorem Invariant.inside_of_current {stages : List Stage}
    (invariant : Invariant job host) (running : host.stages = some stages)
    (current : job.program[host.calls]? = some call) :
    host.Inside job call stages := by
  obtain ⟨own, ownCurrent, inside⟩ := invariant.inside stages running
  obtain rfl := Option.some.inj (current.symm.trans ownCurrent)
  exact inside

theorem Invariant.moved_of_step (invariant : Invariant job host)
    (stepped : host.step job = some next) : Moved job host next := by
  unfold Host.step at stepped
  split at stepped
  case h_1 idle =>
    obtain ⟨call, current, rfl⟩ := Option.map_eq_some_iff.mp stepped
    exact .enter idle current
  case h_2 ended =>
    obtain ⟨call, current, inside⟩ := invariant.inside [] ended
    obtain rfl := Option.some.inj stepped
    exact .leave ended current inside
  case h_3 stage rest running =>
    obtain ⟨call, current, rfl⟩ := Option.map_eq_some_iff.mp stepped
    exact .round running current (invariant.inside_of_current running current)

theorem Inside.proceed (inside : host.Inside job call (stage :: rest))
    (posted : Stage.reached (stage :: rest) ≠ 0)
    (later : Stage.reached rest ≠ 0)
    (counters : Counters (call.collective.sends job.rank)
      (call.collective.receives job.rank) call.messageNum
      (Stage.reached rest) host.locals) :
    host.Continues { host with stages := some rest } job call := by
  refine ⟨rfl, rfl, rest, rfl, ?_⟩
  exact {
    suffix := (Call.stage_cases inside.suffix).1
    counters := counters
    sends := by
      rw [if_neg later]
      simpa only [if_neg posted] using inside.sends
    receives := inside.receives
    delivered := inside.delivered }

theorem Inside.stay (inside : host.Inside job call (stage :: rest))
    (running : host.stages = some (stage :: rest)) :
    host.Continues host job call :=
  ⟨rfl, rfl, stage :: rest, running, inside⟩

theorem Inside.postControl {operation : Collective}
    (inside : host.Inside job call (.postControl operation :: rest)) :
    host.Continues
      (host.round job call (.postControl operation) rest) job call := by
  obtain ⟨suffix, cases⟩ := Call.stage_cases inside.suffix
  obtain ⟨same, sends, reached⟩ : operation = call.collective ∧
      call.collective.sends job.rank = true ∧ Stage.reached rest = 1 := by
    simpa using cases
  subst same
  have counters := inside.counters
  refine ⟨rfl, rfl, rest, rfl, suffix, ?_, ?_, inside.receives,
    inside.delivered.postSend _⟩
  · rw [reached]
    constructor <;> grind [Counters, Stage.reached, Stage.order,
      Host.round, Host.postControl]
  · have none : host.locals.sendNum = 0 :=
      counters.sendNum_before (by simp [Stage.reached, Stage.order])
    have before := inside.sends
    simp only [Stage.reached, Stage.order, if_true, List.take_zero,
      List.append_nil] at before
    simp [Host.round, Host.postControl, QueuePair.postSend, before, reached,
      none, Job.sendWrsOf, sends, Job.controlWr]

theorem Inside.awaitControl
    (inside : host.Inside job call (.awaitControl :: rest))
    (running : host.stages = some (.awaitControl :: rest)) :
    host.Continues (host.round job call .awaitControl rest) job call := by
  obtain ⟨suffix, cases⟩ := Call.stage_cases inside.suffix
  obtain ⟨sends, reached⟩ : call.collective.sends job.rank = true ∧
      Stage.reached rest =
        if call.collective.receives job.rank then 2 else 3 := by
    simpa using cases
  have counters := inside.counters
  have empty : host.locals.wc = [] :=
    counters.wc_before (by simp [Stage.reached, Stage.order])
  have noReceive : host.locals.receiveNum = 0 :=
    counters.receiveNum_before (by simp [Stage.reached, Stage.order])
  have noPost : host.locals.posted = 0 :=
    counters.posted_before (by simp [Stage.reached, Stage.order])
  have nextCounters : Counters (call.collective.sends job.rank)
      (call.collective.receives job.rank) call.messageNum
      (Stage.reached rest) host.locals := by
    constructor <;> grind [Counters, Stage.reached, Stage.order]
  have delivered := inside.delivered
  rw [empty] at delivered
  have drained : (job.receivesBefore host.calls).length +
      host.locals.receiveNum = host.qp.receives.length := by
    rw [inside.receives, noPost, noReceive]
    simp
  simp only [Host.round, Host.awaitRound]
  split
  case h_1 failed => exact absurd failed (delivered.poll_ne_none 1)
  case h_2 qp polled => exact inside.stay running
  case h_3 batch qp nonempty polled =>
    obtain ⟨after, whole, sameSends, sameReceives, -, -⟩ :=
      delivered.poll polled
    obtain ⟨wc, rfl⟩ : ∃ wc, batch = [wc] := by
      have short : batch.length ≤ 1 := by
        rw [(QueuePair.eq_of_pollCq polled).1, List.length_take]
        exact Nat.min_le_left 1 _
      cases batch with
      | nil => exact (nonempty rfl).elim
      | cons wc others =>
          obtain rfl := List.eq_nil_of_length_eq_zero
            (Nat.le_zero.mp (Nat.le_of_succ_le_succ short))
          exact ⟨wc, rfl⟩
    have send : wc.opcode = .send :=
      delivered.opcode_eq_send drained (by rw [List.nil_append, ← whole]; simp)
    have later : Stage.reached rest ≠ 0 := by
      rw [reached]
      split_ifs <;> decide
    refine ⟨rfl, rfl, rest, rfl, suffix, nextCounters, ?_, ?_, ?_⟩
    · rw [if_neg later, sameSends, inside.sends]
      simp [Stage.reached, Stage.order]
    · rw [sameReceives, inside.receives]
    · rw [empty]
      exact after.head_send send

theorem Inside.postReceives
    (inside : host.Inside job call (.postReceives :: rest))
    (running : host.stages = some (.postReceives :: rest)) :
    host.Continues (host.round job call .postReceives rest) job call := by
  obtain ⟨suffix, cases⟩ := Call.stage_cases inside.suffix
  obtain ⟨receives, reached⟩ : call.collective.receives job.rank = true ∧
      Stage.reached rest =
        if call.collective.sends job.rank then 3 else 5 := by
    simpa using cases
  have counters := inside.counters
  simp only [Host.round]
  split_ifs with more
  · refine ⟨rfl, rfl, _, running, inside.suffix, ?_, ?_, ?_,
      inside.delivered.postRecv _⟩
    · constructor <;> grind [Counters, Stage.reached, Stage.order,
        Host.postReceive]
    · exact inside.sends
    · simp only [Host.postReceive, QueuePair.postRecv, inside.receives,
        List.append_assoc, Job.recvWrsOf, receives, if_true, ← List.map_take,
        List.take_range, Nat.min_eq_left more.le,
        Nat.min_eq_left (Nat.succ_le_of_lt more), List.range_succ,
        List.map_append, List.map_cons, List.map_nil]
  · apply inside.proceed
    · simp [Stage.reached, Stage.order]
    · rw [reached]
      split_ifs <;> decide
    · constructor <;> grind [Counters, Stage.reached, Stage.order]

theorem Inside.prepare (inside : host.Inside job call (.prepare :: rest))
    (running : host.stages = some (.prepare :: rest)) :
    host.Continues (host.round job call .prepare rest) job call := by
  obtain ⟨suffix, cases⟩ := Call.stage_cases inside.suffix
  obtain ⟨sends, reached⟩ : call.collective.sends job.rank = true ∧
      Stage.reached rest = 4 := by
    simpa using cases
  have counters := inside.counters
  simp only [Host.round]
  split_ifs with more
  · refine ⟨rfl, rfl, _, running, inside.suffix, ?_, inside.sends,
      inside.receives, inside.delivered⟩
    constructor <;> grind [Counters, Stage.reached, Stage.order,
      Host.prepareMessage]
  · have all : host.locals.prepared = call.messageNum :=
      Nat.le_antisymm counters.prepared_le (Nat.not_lt.mp more)
    apply inside.proceed
    · simp [Stage.reached, Stage.order]
    · rw [reached]
      decide
    · constructor <;> grind [Counters, Stage.reached, Stage.order]

theorem Inside.sends_postData {number : Nat}
    (sends : call.collective.sends job.rank = true)
    (more : host.locals.sendNum < call.messageNum)
    (before : host.qp.sends = job.sendsBefore number ++
      (job.sendWrsOf number call).take (host.locals.sendNum + 1))
    (current : host.calls = number) :
    host.postData.qp.sends = job.sendsBefore number ++
      (job.sendWrsOf number call).take
        (host.postData.locals.sendNum + 1) := by
  subst current
  simp only [Host.postData, QueuePair.postSend, before, List.append_assoc,
    Job.sendWrsOf, sends, if_true, List.take_succ_cons, ← List.map_take,
    List.take_range, Nat.min_eq_left more.le,
    Nat.min_eq_left (Nat.succ_le_of_lt more), List.range_succ,
    List.map_append, List.map_cons, List.map_nil, List.cons_append]

theorem Inside.window (inside : host.Inside job call (.window :: rest))
    (running : host.stages = some (.window :: rest)) :
    host.Continues (host.round job call .window rest) job call := by
  obtain ⟨suffix, cases⟩ := Call.stage_cases inside.suffix
  obtain ⟨sends, reached⟩ : call.collective.sends job.rank = true ∧
      Stage.reached rest = 5 := by
    simpa using cases
  have counters := inside.counters
  simp only [Host.round]
  split_ifs with more
  · refine ⟨rfl, rfl, _, running, inside.suffix, ?_, ?_, inside.receives,
      inside.delivered.postSend _⟩
    · constructor <;> grind [Counters, Stage.reached, Stage.order,
        Host.postData]
    · have before := inside.sends
      simp only [Stage.reached, Stage.order, OfNat.ofNat_ne_zero, if_false]
        at before ⊢
      exact Inside.sends_postData sends more.2 before rfl
  · apply inside.proceed
    · simp [Stage.reached, Stage.order]
    · rw [reached]
      decide
    · constructor <;> grind [Counters, Stage.reached, Stage.order]

/-- A counted completion lets the next message go out. -/
theorem Inside.counted {loop : PollLoop} {batch : List Wc}
    {receiveNum sendComplete : Nat} {dstData : Int → Word}
    (inside : host.Inside job call [.poll loop])
    (running : host.stages = some [.poll loop])
    (next_eq : next =
      { host with
        dstData := dstData
        locals :=
          { host.locals with
            wc := batch
            receiveNum := receiveNum
            sendComplete := sendComplete } })
    (counted : if call.collective.receives job.rank then
        receiveNum = host.locals.receiveNum + 1 ∧ sendComplete = 0
      else receiveNum = 0 ∧ sendComplete = host.locals.sendComplete + 1)
    (delivered : host.qp.Delivered batch
      ((job.receivesBefore host.calls).length + receiveNum)) :
    host.Continues (if call.collective.sends job.rank then next.refill call
      else next) job call := by
  have counters := inside.counters
  have sendsEq := inside.sends
  have reached : Stage.reached [.poll loop] = 5 := rfl
  rw [reached] at counters
  simp only [reached, OfNat.ofNat_ne_zero, if_false] at sendsEq
  subst next_eq
  have stay (full : call.collective.sends job.rank = true →
      call.messageNum ≤ host.locals.sendNum) :
      host.Continues
        { host with
          dstData := dstData
          locals :=
            { host.locals with
              wc := batch
              receiveNum := receiveNum
              sendComplete := sendComplete } } job call := by
    refine ⟨rfl, rfl, _, running, inside.suffix, ?_, ?_, inside.receives,
      delivered⟩
    · rw [reached]
      constructor <;> grind [Counters]
    · simpa only [reached, OfNat.ofNat_ne_zero, if_false] using sendsEq
  split_ifs with sends
  · unfold Host.refill
    split_ifs with more
    · refine ⟨rfl, rfl, _, running, inside.suffix, ?_, ?_, inside.receives,
        delivered.postSend _⟩
      · rw [reached]
        constructor <;> grind [Counters, Host.postData]
      · simp only [reached, OfNat.ofNat_ne_zero, if_false]
        exact Inside.sends_postData sends more sendsEq rfl
    · exact stay fun _ => not_lt.mp more
  · exact stay fun absent => absurd absent sends

/-- While a rank receives nothing in a call, none of its receives is
outstanding. -/
theorem Inside.drained {stages : List Stage}
    (inside : host.Inside job call stages)
    (receives : call.collective.receives job.rank = false) :
    (job.receivesBefore host.calls).length + host.locals.receiveNum =
      host.qp.receives.length := by
  rw [inside.receives, inside.counters.receiveNum_none receives,
    inside.counters.posted_none receives]
  simp

theorem Inside.handleWc {loop : PollLoop} {wc : Wc} {batch : List Wc}
    (inside : host.Inside job call [.poll loop])
    (running : host.stages = some [.poll loop])
    (same : loop = call.collective.loop job.rank)
    (first : host.locals.wc = wc :: batch) :
    host.Continues ((host.setWc batch).handleWc call loop wc) job call := by
  have delivered := inside.delivered
  rw [first] at delivered
  have success : wc.success = true := delivered.success wc (by simp)
  have counters := inside.counters
  have reached : Stage.reached [.poll loop] = 5 := rfl
  rw [reached] at counters
  have counts := Collective.loop_counts call.collective job.rank
  have refills := Collective.loop_refills call.collective job.rank
  rw [← same] at counts refills
  simp only [Host.handleWc, success, if_true, refills]
  cases receives : call.collective.receives job.rank with
  | true =>
      rw [receives, if_pos rfl] at counts
      have noSend : host.locals.sendComplete = 0 :=
        counters.sendComplete_none receives
      cases opcode : wc.opcode with
      | recv =>
          rw [if_pos counts.symm]
          apply inside.counted running
          · simp only [Host.count, Host.setWc, opcode, noSend]
            rfl
          · simp [receives]
          · exact (delivered.head_recv opcode).2
      | send =>
          rw [counts, if_neg (by decide)]
          refine ⟨rfl, rfl, _, running, inside.suffix, ?_, ?_, inside.receives,
            delivered.head_send opcode⟩
          · rw [reached]
            constructor <;> grind [Counters, Host.setWc]
          · exact inside.sends
  | false =>
      rw [receives, if_neg (by decide)] at counts
      have noReceive : host.locals.receiveNum = 0 :=
        counters.receiveNum_none receives
      have opcode : wc.opcode = .send :=
        delivered.opcode_eq_send (inside.drained receives) (by simp)
      rw [opcode, if_pos counts.symm]
      apply inside.counted running
      · simp only [Host.count, Host.setWc, opcode, noReceive]
        rfl
      · simp [receives]
      · have rest := delivered.head_send opcode
        rwa [noReceive] at rest

theorem Inside.poll {loop : PollLoop}
    (inside : host.Inside job call (.poll loop :: rest))
    (running : host.stages = some (.poll loop :: rest)) :
    host.Continues (host.round job call (.poll loop) rest) job call := by
  obtain ⟨same, rfl⟩ := Call.poll_cases inside.suffix
  have counters := inside.counters
  have reached : Stage.reached [.poll loop] = 5 := rfl
  rw [reached] at counters
  simp only [Host.round, Host.pollRound]
  split
  case h_1 wc batch first => exact inside.handleWc running same first
  case h_2 empty =>
    have delivered := inside.delivered
    rw [empty] at delivered
    split_ifs with again
    · split
      case h_1 failed => exact absurd failed (delivered.poll_ne_none _)
      case h_2 batch qp polled =>
        obtain ⟨after, -, sameSends, sameReceives, -, -⟩ :=
          delivered.poll polled
        refine ⟨rfl, rfl, _, running, inside.suffix, ?_, ?_, ?_, after⟩
        · rw [reached]
          constructor <;> grind [Counters, Host.setWc]
        · rw [sameSends]
          exact inside.sends
        · rw [sameReceives]
          exact inside.receives
    · apply inside.proceed
      · simp [reached]
      · decide
      · have ended := Collective.loop_ended (by simpa [same] using again)
        have completed : call.collective.receives job.rank = false →
            call.messageNum ≤ host.locals.sendComplete := by
          intro receives
          rcases ended.2 receives with short | enough
          · have sends := Collective.sends_of_not_receives receives
            have sendNum := counters.sendNum_after sends (by decide)
            rw [receives, if_neg (by decide), windowMessages] at sendNum
            omega
          · exact enough
        constructor <;> grind [Counters, Stage.reached]

/-- The messages a call has posted are prepared and within its window, and the
receives stand before the first of them. -/
theorem Inside.sendNum_le {stages : List Stage}
    (inside : host.Inside job call stages)
    (sends : call.collective.sends job.rank = true) :
    host.locals.sendNum ≤ call.messageNum ∧
      host.locals.sendNum ≤ host.locals.prepared ∧
      (call.collective.receives job.rank = true →
        host.locals.sendNum ≤ host.locals.receiveNum + windowMessages ∧
        (0 < host.locals.sendNum →
          host.locals.posted = call.messageNum)) := by
  have counters := inside.counters
  rcases Nat.lt_trichotomy (Stage.reached stages) 4 with early | here | late
  · rw [counters.sendNum_before early]
    exact ⟨Nat.zero_le _, Nat.zero_le _, fun _ =>
      ⟨Nat.zero_le _, fun none => absurd none (Nat.lt_irrefl 0)⟩⟩
  · have few := counters.sendNum_window here
    rw [counters.prepared_after sends (by omega)]
    exact ⟨by omega, by omega, fun receives =>
      ⟨by omega, fun _ => counters.posted_after receives (by omega)⟩⟩
  · have few := counters.sendNum_after sends late
    rw [counters.prepared_after sends (by omega)]
    refine ⟨by omega, by omega, fun receives =>
      ⟨?_, fun _ => counters.posted_after receives (by omega)⟩⟩
    rw [if_pos receives] at few
    omega

theorem Inside.round (inside : host.Inside job call (stage :: rest))
    (running : host.stages = some (stage :: rest)) :
    host.Continues (host.round job call stage rest) job call := by
  cases stage with
  | postControl operation => exact inside.postControl
  | awaitControl => exact inside.awaitControl running
  | postReceives => exact inside.postReceives running
  | prepare => exact inside.prepare running
  | window => exact inside.window running
  | poll loop => exact inside.poll running

/-- A call returns once nothing is left of it. -/
theorem Inside.leave (inside : host.Inside job call [])
    (current : job.program[host.calls]? = some call) :
    (host.leave true).Between job := by
  have counters := inside.counters
  have reached : Stage.reached [] = 6 := rfl
  rw [reached] at counters
  have empty : host.locals.wc = [] := counters.wc_after (by decide)
  have delivered := inside.delivered
  rw [empty] at delivered
  have receivesDone_le := delivered.receivesDone_le
  have consumed := delivered.receives.le
  have sendNum : call.collective.sends job.rank = true →
      host.locals.sendNum = call.messageNum := by
    intro sends
    rw [counters.sendNum_after sends (by decide)]
    have received := counters.received
    have completed := counters.completed
    split_ifs with receives
    · have enough := received receives (by decide)
      omega
    · have enough := completed (by simpa using receives) (by decide)
      omega
  have sendsAll : (job.sendWrsOf host.calls call).take
      (host.locals.sendNum + 1) = job.sendWrsOf host.calls call := by
    apply List.take_of_length_le
    rw [Job.length_sendWrsOf]
    split_ifs with sends
    · rw [sendNum sends]
    · omega
  have receivesAll : (job.recvWrsOf host.calls call).take
      host.locals.posted = job.recvWrsOf host.calls call := by
    apply List.take_of_length_le
    rw [Job.length_recvWrsOf]
    split_ifs with receives
    · rw [counters.posted_after receives (by decide)]
    · omega
  have receives := inside.receives
  rw [receivesAll] at receives
  have receiveNum : (job.receivesBefore host.calls).length +
      host.locals.receiveNum = (job.receivesBefore (host.calls + 1)).length := by
    rw [Job.receivesBefore_succ, Job.recvWrs_of_call current,
      List.length_append, Job.length_recvWrsOf]
    rw [receives, List.length_append, Job.length_recvWrsOf] at receivesDone_le
    split_ifs with some
    · have enough := counters.received some (by decide)
      rw [if_pos some] at receivesDone_le
      omega
    · rw [counters.receiveNum_none (by simpa using some)]
  refine ⟨?_, ?_, ?_⟩
  · have sends := inside.sends
    rw [reached, if_neg (by decide), sendsAll] at sends
    rw [Host.leave, Job.sendsBefore_succ, Job.sendWrs_of_call current, sends]
  · rw [Host.leave, Job.receivesBefore_succ, Job.recvWrs_of_call current,
      receives]
  · rw [receiveNum] at delivered
    exact delivered

theorem Between.enter (between : host.Between job) (call : Call) :
    (host.enter (call.stages job.rank)).Inside job call
      (call.stages job.rank) where
  suffix := List.suffix_rfl
  counters := by
    apply Locals.init_counters
    rw [call.reached_stages]
    split_ifs <;> decide
  sends := by
    have none : (job.sendWrsOf host.calls call).take
        (if Stage.reached (call.stages job.rank) = 0 then 0
          else Locals.init.sendNum + 1) = [] := by
      rw [call.reached_stages, Job.sendWrsOf]
      cases call.collective.sends job.rank <;> simp
    simp only [Host.enter, none, List.append_nil]
    exact between.sends
  receives := by
    simpa [Host.enter, Locals.init] using between.receives
  delivered := between.delivered

theorem Invariant.act_nic {qp : QueuePair} {receivePayload : Nat → Word}
    (invariant : Invariant job host) (sends : qp.sends = host.qp.sends)
    (receives : qp.receives = host.qp.receives)
    (delivered : ∀ wc consumed, host.qp.Delivered wc consumed →
      qp.Delivered wc consumed) :
    Invariant job
      { host with qp := qp, receivePayload := receivePayload } where
  succeeded := invariant.succeeded
  between := by
    intro idle
    have between := invariant.between idle
    exact ⟨sends.trans between.sends, receives.trans between.receives,
      delivered _ _ between.delivered⟩
  inside := by
    intro stages running
    obtain ⟨call, current, inside⟩ := invariant.inside stages running
    exact ⟨call, current, inside.suffix, inside.counters,
      sends.trans inside.sends, receives.trans inside.receives,
      delivered _ _ inside.delivered⟩

theorem Invariant.step (invariant : Invariant job host)
    (stepped : host.step job = some next) : Invariant job next := by
  cases invariant.moved_of_step stepped with
  | @enter call idle current =>
      refine ⟨invariant.succeeded, nofun, ?_⟩
      intro stages running
      cases running
      exact ⟨call, current, (invariant.between idle).enter call⟩
  | @leave _ _ current inside =>
      exact ⟨rfl, fun _ => inside.leave current, nofun⟩
  | @round call _ _ running current inside =>
      have continues := inside.round running
      obtain ⟨stages, left, insideNext⟩ := continues.inside
      refine ⟨continues.succeeded.trans invariant.succeeded, ?_, ?_⟩
      · intro idle
        rw [left] at idle
        cases idle
      · intro others leftToo
        obtain rfl := Option.some.inj (left.symm.trans leftToo)
        exact ⟨call, continues.calls ▸ current, insideNext⟩

theorem Invariant.act {action : Action} (invariant : Invariant job host)
    (acted : host.act job action = some next) : Invariant job next := by
  cases action with
  | step => exact invariant.step acted
  | sendCompletes =>
      obtain ⟨qp, completes, rfl⟩ := Option.map_eq_some_iff.mp acted
      have same : qp.sends = host.qp.sends ∧ qp.receives = host.qp.receives := by
        obtain ⟨wr, present, rfl⟩ := Option.map_eq_some_iff.mp completes
        exact ⟨rfl, rfl⟩
      exact invariant.act_nic same.1 same.2
        fun wc consumed delivered => (delivered.completeSend completes).1
  | receiveCompletes =>
      obtain ⟨qp, completes, rfl⟩ := Option.map_eq_some_iff.mp acted
      have same : qp.sends = host.qp.sends ∧ qp.receives = host.qp.receives := by
        obtain ⟨wr, present, rfl⟩ := Option.map_eq_some_iff.mp completes
        exact ⟨rfl, rfl⟩
      exact invariant.act_nic same.1 same.2
        fun wc consumed delivered => (delivered.completeReceive completes).1
  | store address words =>
      obtain rfl := Option.some.inj acted
      exact invariant.act_nic rfl rfl fun _ _ delivered => delivered

theorem init_invariant (job : Job) : Invariant job .init where
  succeeded := rfl
  between := fun _ => {
    sends := rfl
    receives := rfl
    delivered := {
      intact := rfl
      success := nofun
      sendsDone_le := le_rfl
      receivesDone_le := le_rfl
      receives := .nil 0
      wrId := nofun } }
  inside := nofun

theorem reachable_invariant (job : Job)
    (reachable : Machine.Reachable (Host.act job) .init host) :
    Invariant job host :=
  reachable.invariant (Invariant job)
    (fun _ _ _ invariant acted => invariant.act acted) (init_invariant job)

end Host

end IncEmulation
