import IncEmulation.Progress

/-!
# Whose completions a call consumes

All calls of a rank share one completion queue.  A call that waits for its
receives may return while completions of its sends are still to come; the next
call then takes them for its own.  As long as the poll that takes the last
receive of a call takes everything, each call consumes exactly the completions
of its own requests.
-/

namespace IncEmulation

open Machine

namespace Wc

def key (wc : Wc) : WcOpcode × Nat := (wc.opcode, wc.request)

end Wc

namespace Host

/-- The requests posted by call `number`. -/
def ownRequests (host : Host) (number : Nat) : List (WcOpcode × Nat) :=
  ((List.range host.qp.sends.length).filter fun i =>
      (host.qp.sends[i]?.map SendWr.call) = some number).map (WcOpcode.send, ·) ++
    ((List.range host.qp.receives.length).filter fun i =>
      (host.qp.receives[i]?.map RecvWr.call) = some number).map
        (WcOpcode.recv, ·)

/-- The accounting of the completions of a rank's calls. -/
structure Accounted (job : Job) (host : Host) : Prop where
  returned : ∀ number, host.stages = none → host.calls = number + 1 →
    host.succeeded = true →
    (host.taken.map Wc.key).Perm (host.ownRequests number)
  control : ∀ stages call, host.stages = some stages →
    job.program[host.calls]? = some call →
    call.collective.sends job.rank = true →
    Stage.postControl call.collective ∉ stages →
    Stage.awaitControl ∉ stages →
    ∃ wc wr, host.taken.head? = some wc ∧ wc.opcode = .send ∧
      host.qp.sends[wc.request]? = some wr ∧ wr.call = host.calls ∧
      wr.immData = some call.collective.immData
  sent : ∀ number call, host.stages = none → host.calls = number + 1 →
    host.succeeded = true → job.program[number]? = some call →
    call.collective.receives job.rank = false →
    (host.qp.sends.countP fun wr => wr.call = number ∧ wr.immData = none) =
        call.messageNum ∧
      ∀ i wr, host.qp.sends[i]? = some wr → wr.call = number →
        i < host.qp.sendsDone

/-- Whether the next poll takes the last receive of the call. -/
def PollsLast (host : Host) (call : Call) (loop : PollLoop) : Prop :=
  host.locals.wc = [] ∧
    loop.continues host.locals call.messageNum = true ∧
    host.locals.receiveNum + (host.qp.cq.take call.messageNum).countP
      (fun wc => wc.opcode = .recv) = call.messageNum

/-- Nothing of the call is left behind a poll. -/
def PollsAll (host : Host) (call : Call) : Prop :=
  host.locals.sendNum = call.messageNum ∧
    host.qp.sendsDone = host.qp.sends.length ∧
    host.qp.cq.length ≤ call.messageNum

instance (host : Host) (call : Call) (loop : PollLoop) :
    Decidable (host.PollsLast call loop) :=
  inferInstanceAs (Decidable (_ ∧ _ ∧ _))

instance (host : Host) (call : Call) : Decidable (host.PollsAll call) :=
  inferInstanceAs (Decidable (_ ∧ _ ∧ _))

/-- The loop a rank is in. -/
def currentPoll (job : Job) (host : Host) : Option (Call × PollLoop) :=
  match host.stages with
  | some (.poll loop :: _) =>
      job.program[host.calls]?.map fun call => (call, loop)
  | _ => none

/-- An AllReduce or the root of a Reduce takes its last receive in a poll that
takes everything. -/
def Drains (job : Job) (host : Host) (action : Action) : Prop :=
  action = .step → ∀ poll ∈ host.currentPoll job,
    poll.2.counts = .recv → poll.2.refills = true →
      host.PollsLast poll.1 poll.2 → host.PollsAll poll.1

instance (job : Job) (host : Host) : DecidablePred (host.Drains job) :=
  fun _ => inferInstanceAs (Decidable (_ → _))

/-- The completions of a running call, when everything from the calls before
it is settled. -/
structure Tidy (host : Host) (job : Job) (call : Call)
    (stages : List Stage) : Prop where
  sends : InOrder.Holds Wc.opcode Wc.request .send (host.taken ++ host.qp.cq)
    (job.sendsBefore host.calls).length host.qp.sendsDone
  receives : InOrder.Holds Wc.opcode Wc.request .recv
    (host.taken ++ host.qp.cq) (job.receivesBefore host.calls).length
    host.qp.receivesDone
  fresh : Stage.reached stages ≤ 1 → host.taken = []
  control : call.collective.sends job.rank = true →
    2 ≤ Stage.reached stages → ∃ wc, host.taken.head? = some wc ∧
      wc.opcode = .send ∧ wc.request = (job.sendsBefore host.calls).length
  counted : call.collective.receives job.rank = false →
    host.taken.countP (fun wc => wc.opcode = .send) =
      (if Stage.reached stages ≤ 1 then 0 else 1) +
        host.locals.sendComplete +
        host.locals.wc.countP (fun wc => wc.opcode = .send)
  last : call.collective.sends job.rank = true →
    call.collective.receives job.rank = true →
    5 ≤ Stage.reached stages → 0 < call.messageNum →
    host.locals.receiveNum +
        host.locals.wc.countP (fun wc => wc.opcode = .recv) =
      call.messageNum →
    host.locals.sendNum = call.messageNum ∧
      host.qp.sendsDone = host.qp.sends.length ∧ host.qp.cq = []

/-- Between two calls nothing is outstanding, and the last call has taken its
own completions. -/
structure Settled (host : Host) (job : Job) : Prop where
  cq : host.qp.cq = []
  sendsDone : host.qp.sendsDone = host.qp.sends.length
  receivesDone : host.qp.receivesDone = host.qp.receives.length
  sends : ∀ number, host.calls = number + 1 →
    InOrder.Holds Wc.opcode Wc.request .send host.taken
      (job.sendsBefore number).length (job.sendsBefore host.calls).length
  receives : ∀ number, host.calls = number + 1 →
    InOrder.Holds Wc.opcode Wc.request .recv host.taken
      (job.receivesBefore number).length
      (job.receivesBefore host.calls).length

structure Clean (job : Job) (host : Host) : Prop where
  settled : host.stages = none → host.Settled job
  tidy : ∀ stages call, host.stages = some stages →
    job.program[host.calls]? = some call → host.Tidy job call stages

variable {host next : Host} {job : Job} {call : Call} {stage : Stage}
  {rest : List Stage}

/-- A step of the program moves completions from the queue to the call and
loses none. -/
structure Keeps (host next : Host) : Prop where
  pending : next.taken ++ next.qp.cq = host.taken ++ host.qp.cq
  sendsDone : next.qp.sendsDone = host.qp.sendsDone
  receivesDone : next.qp.receivesDone = host.qp.receivesDone

theorem pollCq_keeps {qp : QueuePair} {batch : List Wc} {count : Nat}
    (polled : host.qp.pollCq count = some (batch, qp)) :
    batch ++ qp.cq = host.qp.cq ∧ batch = host.qp.cq.take count ∧
      qp.sendsDone = host.qp.sendsDone ∧
      qp.receivesDone = host.qp.receivesDone := by
  obtain ⟨rfl, rfl⟩ := QueuePair.eq_of_pollCq polled
  exact ⟨List.take_append_drop count host.qp.cq, rfl, rfl, rfl⟩

theorem handleWc_keeps (host : Host) (call : Call) (loop : PollLoop)
    (wc : Wc) : host.Keeps (host.handleWc call loop wc) := by
  unfold Host.handleWc Host.refill Host.count
  split_ifs <;> (try split) <;> exact ⟨rfl, rfl, rfl⟩

theorem round_keeps (host : Host) (job : Job) (call : Call) (stage : Stage)
    (rest : List Stage) :
    host.Keeps (host.round job call stage rest) := by
  cases stage with
  | postControl operation => exact ⟨rfl, rfl, rfl⟩
  | awaitControl =>
      simp only [Host.round, Host.awaitRound]
      split
      · exact ⟨rfl, rfl, rfl⟩
      · exact ⟨rfl, rfl, rfl⟩
      case h_3 batch qp nonempty polled =>
        obtain ⟨whole, -, sends, receives⟩ := pollCq_keeps polled
        exact ⟨by simp [whole], sends, receives⟩
  | postReceives =>
      simp only [Host.round]
      split_ifs <;> exact ⟨rfl, rfl, rfl⟩
  | prepare =>
      simp only [Host.round]
      split_ifs <;> exact ⟨rfl, rfl, rfl⟩
  | window =>
      simp only [Host.round]
      split_ifs <;> exact ⟨rfl, rfl, rfl⟩
  | poll loop =>
      simp only [Host.round, Host.pollRound]
      split
      case h_1 wc batch first =>
        have keeps := handleWc_keeps (host.setWc batch) call loop wc
        exact ⟨keeps.pending, keeps.sendsDone, keeps.receivesDone⟩
      case h_2 empty =>
        split_ifs
        · split
          · exact ⟨rfl, rfl, rfl⟩
          case h_2 batch qp polled =>
            obtain ⟨whole, -, sends, receives⟩ := pollCq_keeps polled
            exact ⟨by simp [whole], sends, receives⟩
        · exact ⟨rfl, rfl, rfl⟩

theorem Tidy.of_quiet {stages left : List Stage}
    (tidy : host.Tidy job call stages) (keeps : host.Keeps next)
    (calls : next.calls = host.calls) (taken : next.taken = host.taken)
    (sendComplete : next.locals.sendComplete = host.locals.sendComplete)
    (receiveNum : next.locals.receiveNum = 0)
    (wc : next.locals.wc = host.locals.wc) (empty : host.locals.wc = [])
    (reached : Stage.reached left ≤ 1 ↔ Stage.reached stages ≤ 1) :
    next.Tidy job call left where
  sends := by
    rw [keeps.pending, calls, keeps.sendsDone]
    exact tidy.sends
  receives := by
    rw [keeps.pending, calls, keeps.receivesDone]
    exact tidy.receives
  fresh := fun early => taken.trans (tidy.fresh (reached.mp early))
  control := by
    intro sends late
    rw [taken, calls]
    apply tidy.control sends
    omega
  counted := by
    intro receives
    rw [taken, sendComplete, wc]
    simp only [reached]
    exact tidy.counted receives
  last := by
    intro sends receives late positive all
    rw [receiveNum, wc, empty] at all
    simp at all
    omega

theorem Tidy.awaitControl (inside : host.Inside job call (.awaitControl :: rest))
    (running : host.stages = some (.awaitControl :: rest))
    (tidy : host.Tidy job call (.awaitControl :: rest)) {stages : List Stage}
    (left : (host.round job call .awaitControl rest).stages = some stages) :
    (host.round job call .awaitControl rest).Tidy job call stages := by
  obtain ⟨suffix, cases⟩ := Call.stage_cases inside.suffix
  obtain ⟨sends, reached⟩ : call.collective.sends job.rank = true ∧
      Stage.reached rest =
        if call.collective.receives job.rank then 2 else 3 := by
    simpa using cases
  have keeps := round_keeps host job call .awaitControl rest
  have counters := inside.counters
  have early : Stage.reached (.awaitControl :: rest) = 1 := rfl
  rw [early] at counters
  have fresh : host.taken = [] := tidy.fresh early.le
  have empty : host.locals.wc = [] := counters.wc_before (by decide)
  have noReceive : host.locals.receiveNum = 0 :=
    counters.receiveNum_before (by decide)
  have noComplete : host.locals.sendComplete = 0 :=
    counters.sendComplete_before (by decide)
  have drained : (job.receivesBefore host.calls).length +
      host.locals.receiveNum = host.qp.receives.length := by
    rw [inside.receives, counters.posted_before (by decide), noReceive]
    simp
  have late : 2 ≤ Stage.reached rest := by
    rw [reached]
    split_ifs <;> decide
  simp only [Host.round, Host.awaitRound] at left keeps ⊢
  split at left
  case h_1 failed => exact absurd failed (inside.delivered.poll_ne_none 1)
  case h_2 qp polled =>
    obtain rfl := Option.some.inj (running.symm.trans left)
    simpa only [polled] using tidy
  case h_3 batch qp nonempty polled =>
    obtain rfl := Option.some.inj left
    obtain ⟨whole, first, -, -⟩ := pollCq_keeps polled
    obtain ⟨wc, others, queue⟩ : ∃ wc others, host.qp.cq = wc :: others := by
      cases queue : host.qp.cq with
      | nil => simp [first, queue] at nonempty
      | cons wc others => exact ⟨wc, others, rfl⟩
    rw [queue] at first
    obtain rfl : batch = [wc] := by simpa using first
    have send : wc.opcode = .send :=
      inside.delivered.opcode_eq_send drained (by simp [queue])
    have position : wc.request = (job.sendsBefore host.calls).length := by
      have holds := tidy.sends
      rw [fresh, queue, List.nil_append] at holds
      exact (holds.head send).1
    simp only [polled] at keeps ⊢
    refine ⟨?_, ?_, fun again => absurd again (by omega), ?_, ?_, ?_⟩
    · rw [keeps.pending, keeps.sendsDone]
      exact tidy.sends
    · rw [keeps.pending, keeps.receivesDone]
      exact tidy.receives
    · exact fun _ _ => ⟨wc, by simp [fresh], send, position⟩
    · intro _
      simp [fresh, send, noComplete, empty, show ¬Stage.reached rest ≤ 1 by omega]
    · intro _ _ _ positive all
      simp [noReceive, empty] at all
      omega

theorem handleWc_stages {wc : Wc} {loop : PollLoop}
    (success : wc.success = true) :
    (host.handleWc call loop wc).stages = host.stages := by
  simp only [Host.handleWc, success, if_true]
  unfold Host.refill Host.count
  split_ifs <;> (try split) <;> rfl

/-- A round of a poll loop that changes no sum of the accounting. -/
theorem Tidy.of_poll {stages left : List Stage}
    (tidy : host.Tidy job call stages) (keeps : host.Keeps next)
    (calls : next.calls = host.calls)
    (grown : host.taken <+: next.taken)
    (reached : 5 ≤ Stage.reached stages) (later : 5 ≤ Stage.reached left)
    (counted : call.collective.receives job.rank = false →
      next.taken.countP (fun wc => wc.opcode = .send) +
          host.locals.sendComplete +
          host.locals.wc.countP (fun wc => wc.opcode = .send) =
        host.taken.countP (fun wc => wc.opcode = .send) +
          next.locals.sendComplete +
          next.locals.wc.countP (fun wc => wc.opcode = .send))
    (last : call.collective.sends job.rank = true →
      call.collective.receives job.rank = true → 0 < call.messageNum →
      next.locals.receiveNum +
          next.locals.wc.countP (fun wc => wc.opcode = .recv) =
        call.messageNum →
      next.locals.sendNum = call.messageNum ∧
        next.qp.sendsDone = next.qp.sends.length ∧ next.qp.cq = []) :
    next.Tidy job call left where
  sends := by
    rw [keeps.pending, calls, keeps.sendsDone]
    exact tidy.sends
  receives := by
    rw [keeps.pending, calls, keeps.receivesDone]
    exact tidy.receives
  fresh := fun early => absurd early (by omega)
  control := by
    intro sends _
    obtain ⟨wc, first, send, position⟩ := tidy.control sends (by omega)
    refine ⟨wc, ?_, send, calls ▸ position⟩
    obtain ⟨more, whole⟩ := grown
    rw [← whole, List.head?_append, first]
    rfl
  counted := by
    intro receives
    have before := tidy.counted receives
    have same := counted receives
    rw [if_neg (by omega)] at before ⊢
    omega
  last := fun sends receives _ => last sends receives

theorem Tidy.handleWc {loop : PollLoop} {wc : Wc} {batch : List Wc}
    (inside : host.Inside job call [.poll loop])
    (tidy : host.Tidy job call [.poll loop])
    (same : loop = call.collective.loop job.rank)
    (first : host.locals.wc = wc :: batch) :
    ((host.setWc batch).handleWc call loop wc).Tidy job call
      [.poll loop] := by
  have delivered := inside.delivered
  rw [first] at delivered
  have success : wc.success = true := delivered.success wc (by simp)
  have counts := Collective.loop_counts call.collective job.rank
  have refills := Collective.loop_refills call.collective job.rank
  rw [← same] at counts refills
  have keeps : host.Keeps ((host.setWc batch).handleWc call loop wc) := by
    have kept := handleWc_keeps (host.setWc batch) call loop wc
    exact ⟨kept.pending, kept.sendsDone, kept.receivesDone⟩
  have before := tidy.last
  rw [first] at before
  cases receives : call.collective.receives job.rank with
  | false =>
      rw [receives, if_neg (by decide)] at counts
      have opcode : wc.opcode = .send :=
        delivered.opcode_eq_send (inside.drained receives) (by simp)
      apply tidy.of_poll keeps
      · simp only [Host.handleWc, success, opcode, counts, if_true, Host.count,
          Host.refill]
        split_ifs <;> rfl
      · simp only [Host.handleWc, success, opcode, counts, if_true, Host.count,
          Host.refill]
        split_ifs <;> exact List.prefix_rfl
      · exact le_rfl
      · exact le_rfl
      · intro _
        simp only [Host.handleWc, success, opcode, counts, if_true, Host.count,
          Host.refill, first, Host.setWc]
        split_ifs <;> simp [opcode, Host.postData] <;> omega
      · intro _ absent
        rw [receives] at absent
        cases absent
  | true =>
      rw [receives, if_pos rfl] at counts
      cases opcode : wc.opcode with
      | recv =>
          apply tidy.of_poll keeps
          · simp only [Host.handleWc, success, opcode, counts, if_true,
              Host.count, Host.refill]
            split_ifs <;> rfl
          · simp only [Host.handleWc, success, opcode, counts, if_true,
              Host.count, Host.refill]
            split_ifs <;> exact List.prefix_rfl
          · exact le_rfl
          · exact le_rfl
          · intro absent
            rw [receives] at absent
            cases absent
          · intro sends _ positive all
            have full : host.locals.receiveNum +
                (wc :: batch).countP (fun wc => wc.opcode = .recv) =
                  call.messageNum := by
              rw [List.countP_cons_of_pos (by simp [opcode])]
              simp only [Host.handleWc, success, opcode, counts, if_true,
                Host.count, Host.refill, Host.setWc] at all
              split_ifs at all <;> simp [Host.postData] at all <;> omega
            obtain ⟨sendNum, done, drained⟩ :=
              before sends receives le_rfl positive full
            simp [Host.handleWc, success, opcode, counts, Host.count,
              Host.refill, Host.setWc, refills, sends, sendNum, done, drained]
      | send =>
          have skipped : (host.setWc batch).handleWc call loop wc =
              host.setWc batch := by
            simp [Host.handleWc, success, opcode, counts]
          rw [skipped] at keeps ⊢
          apply tidy.of_poll keeps rfl List.prefix_rfl le_rfl le_rfl
          · intro absent
            rw [receives] at absent
            cases absent
          · intro sends _ positive all
            apply before sends receives le_rfl positive
            rwa [List.countP_cons_of_neg (by simp [opcode])]

theorem Tidy.poll {loop : PollLoop}
    (inside : host.Inside job call (.poll loop :: rest))
    (running : host.stages = some (.poll loop :: rest))
    (current : job.program[host.calls]? = some call)
    (tidy : host.Tidy job call (.poll loop :: rest))
    (drains : host.Drains job .step) {stages : List Stage}
    (left : (host.round job call (.poll loop) rest).stages = some stages) :
    (host.round job call (.poll loop) rest).Tidy job call stages := by
  obtain ⟨same, rfl⟩ := Call.poll_cases inside.suffix
  have keeps := round_keeps host job call (.poll loop) []
  have counts := Collective.loop_counts call.collective job.rank
  have refills := Collective.loop_refills call.collective job.rank
  rw [← same] at counts refills
  simp only [Host.round, Host.pollRound] at left keeps ⊢
  split at left
  case h_1 wc batch first =>
    have success : wc.success = true :=
      inside.delivered.success wc (by simp [first])
    rw [handleWc_stages success, Host.setWc, running] at left
    obtain rfl := Option.some.inj left
    simpa only [first] using tidy.handleWc inside same first
  case h_2 empty =>
    simp only [empty] at keeps ⊢
    split_ifs at left keeps ⊢ with again
    · split at left
      case h_1 failed => exact absurd failed (inside.delivered.poll_ne_none _)
      case h_2 batch qp polled =>
        obtain rfl := Option.some.inj (running.symm.trans left)
        obtain ⟨whole, first, -, -⟩ := pollCq_keeps polled
        simp only [polled] at keeps ⊢
        apply tidy.of_poll keeps rfl (List.prefix_append _ _) le_rfl le_rfl
        · intro _
          simp only [List.countP_append, Host.setWc, empty, List.countP_nil]
          omega
        · intro sends receives _ all
          rw [receives, if_pos rfl] at counts
          have polls : host.PollsLast call loop := by
            refine ⟨empty, again, ?_⟩
            rw [← first]
            exact all
          have everything := drains rfl (call, loop)
            (by simp [Host.currentPoll, running, current]) counts
            (refills.trans sends) polls
          have drained : qp.cq = [] := by
            have length := congrArg List.length whole
            rw [first, List.length_append, List.length_take] at length
            have short : host.qp.cq.length ≤ call.messageNum :=
              everything.2.2
            rw [Nat.min_eq_right short] at length
            rw [← List.length_eq_zero_iff]
            omega
          have same : qp.sends = host.qp.sends ∧
              qp.sendsDone = host.qp.sendsDone := by
            obtain ⟨-, -, sends, -, done, -⟩ :=
              (empty ▸ inside.delivered).poll polled
            exact ⟨sends, done⟩
          refine ⟨everything.1, ?_, drained⟩
          rw [same.1, same.2]
          exact everything.2.1
    · obtain rfl := Option.some.inj left
      exact tidy.of_poll keeps rfl List.prefix_rfl le_rfl (by decide)
        (fun _ => rfl) fun sends receives positive all =>
          tidy.last sends receives le_rfl positive all

theorem Tidy.round (inside : host.Inside job call (stage :: rest))
    (running : host.stages = some (stage :: rest))
    (current : job.program[host.calls]? = some call)
    (tidy : host.Tidy job call (stage :: rest))
    (drains : host.Drains job .step) {stages : List Stage}
    (left : (host.round job call stage rest).stages = some stages) :
    (host.round job call stage rest).Tidy job call stages := by
  have keeps := round_keeps host job call stage rest
  have counters := inside.counters
  obtain ⟨-, cases⟩ := Call.stage_cases inside.suffix
  cases stage with
  | postControl operation =>
      obtain ⟨-, -, reached⟩ : operation = call.collective ∧
          call.collective.sends job.rank = true ∧
          Stage.reached rest = 1 := by
        simpa using cases
      obtain rfl := Option.some.inj left
      refine tidy.of_quiet keeps rfl rfl rfl
        (counters.receiveNum_before (show 0 < 5 by decide)) rfl
        (counters.wc_before (show 0 < 5 by decide)) ?_
      rw [reached]
      exact iff_of_true le_rfl (show 0 ≤ 1 by decide)
  | awaitControl => exact tidy.awaitControl inside running left
  | postReceives =>
      obtain ⟨-, reached⟩ : call.collective.receives job.rank = true ∧
          Stage.reached rest =
            if call.collective.sends job.rank then 3 else 5 := by
        simpa using cases
      have receiveNum : host.locals.receiveNum = 0 :=
        counters.receiveNum_before (show 2 < 5 by decide)
      have empty : host.locals.wc = [] :=
        counters.wc_before (show 2 < 5 by decide)
      simp only [Host.round] at left keeps ⊢
      split_ifs at left keeps ⊢
      · obtain rfl := Option.some.inj (running.symm.trans left)
        exact tidy.of_quiet keeps rfl rfl rfl receiveNum rfl empty Iff.rfl
      · obtain rfl := Option.some.inj left
        refine tidy.of_quiet keeps rfl rfl rfl receiveNum rfl empty ?_
        rw [reached]
        refine iff_of_false ?_ (show ¬2 ≤ 1 by decide)
        split_ifs <;> decide
  | prepare =>
      obtain ⟨-, reached⟩ : call.collective.sends job.rank = true ∧
          Stage.reached rest = 4 := by
        simpa using cases
      have receiveNum : host.locals.receiveNum = 0 :=
        counters.receiveNum_before (show 3 < 5 by decide)
      have empty : host.locals.wc = [] :=
        counters.wc_before (show 3 < 5 by decide)
      simp only [Host.round] at left keeps ⊢
      split_ifs at left keeps ⊢
      · obtain rfl := Option.some.inj (running.symm.trans left)
        exact tidy.of_quiet keeps rfl rfl rfl receiveNum rfl empty Iff.rfl
      · obtain rfl := Option.some.inj left
        refine tidy.of_quiet keeps rfl rfl rfl receiveNum rfl empty ?_
        rw [reached]
        exact iff_of_false (by decide) (show ¬3 ≤ 1 by decide)
  | window =>
      obtain ⟨-, reached⟩ : call.collective.sends job.rank = true ∧
          Stage.reached rest = 5 := by
        simpa using cases
      have receiveNum : host.locals.receiveNum = 0 :=
        counters.receiveNum_before (show 4 < 5 by decide)
      have empty : host.locals.wc = [] :=
        counters.wc_before (show 4 < 5 by decide)
      simp only [Host.round] at left keeps ⊢
      split_ifs at left keeps ⊢
      · obtain rfl := Option.some.inj (running.symm.trans left)
        exact tidy.of_quiet keeps rfl rfl rfl receiveNum rfl empty Iff.rfl
      · obtain rfl := Option.some.inj left
        refine tidy.of_quiet keeps rfl rfl rfl receiveNum rfl empty ?_
        rw [reached]
        exact iff_of_false (by decide) (show ¬4 ≤ 1 by decide)
  | poll loop => exact tidy.poll inside running current drains left

theorem eq_nil_of_countP {cq : List Wc}
    (sends : cq.countP (fun wc => wc.opcode = .send) = 0)
    (receives : cq.countP (fun wc => wc.opcode = .recv) = 0) : cq = [] := by
  cases cq with
  | nil => rfl
  | cons wc others =>
      cases opcode : wc.opcode with
      | send => simp [opcode] at sends
      | recv => simp [opcode] at receives

/-- A call that returns leaves nothing behind. -/
theorem Tidy.leave (inside : host.Inside job call [])
    (tidy : host.Tidy job call [])
    (current : job.program[host.calls]? = some call) :
    (host.leave true).Settled job := by
  have counters := inside.counters
  have reached : Stage.reached [] = 6 := rfl
  rw [reached] at counters
  have empty : host.locals.wc = [] := counters.wc_after (by decide)
  have between := inside.leave current
  have sendsLength : host.qp.sends.length =
      (job.sendsBefore (host.calls + 1)).length :=
    congrArg List.length between.sends
  have receivesLength : host.qp.receives.length =
      (job.receivesBefore (host.calls + 1)).length :=
    congrArg List.length between.receives
  have sendsSucc : (job.sendsBefore (host.calls + 1)).length =
      (job.sendsBefore host.calls).length +
        if call.collective.sends job.rank then call.messageNum + 1 else 0 := by
    rw [Job.sendsBefore_succ, Job.sendWrs_of_call current, List.length_append,
      Job.length_sendWrsOf]
  have receivesSucc : (job.receivesBefore (host.calls + 1)).length =
      (job.receivesBefore host.calls).length +
        if call.collective.receives job.rank then call.messageNum else 0 := by
    rw [Job.receivesBefore_succ, Job.recvWrs_of_call current,
      List.length_append, Job.length_recvWrsOf]
  have sendsCount := tidy.sends.count
  have receivesCount := tidy.receives.count
  have handledCount := inside.delivered.receives.count
  rw [empty, List.nil_append] at handledCount
  rw [List.countP_append] at sendsCount receivesCount
  have sendsBound := inside.delivered.sendsDone_le
  have receivesBound := inside.delivered.receivesDone_le
  obtain ⟨cq, sendsDone, receivesDone⟩ : host.qp.cq = [] ∧
      host.qp.sendsDone = host.qp.sends.length ∧
      host.qp.receivesDone = host.qp.receives.length := by
    cases receives : call.collective.receives job.rank with
    | false =>
        have sends := Collective.sends_of_not_receives receives
        have enough := counters.completed receives (by decide)
        have counted := tidy.counted receives
        rw [empty, reached, if_neg (by decide), List.countP_nil] at counted
        rw [counters.receiveNum_none receives] at handledCount
        simp only [sends, receives, if_true, Bool.false_eq_true, if_false]
          at sendsSucc receivesSucc
        exact ⟨eq_nil_of_countP (by omega) (by omega), by omega, by omega⟩
    | true =>
        have enough := counters.received receives (by decide)
        cases sends : call.collective.sends job.rank with
        | false =>
            simp only [sends, receives, if_true, Bool.false_eq_true, if_false]
              at sendsSucc receivesSucc
            exact ⟨eq_nil_of_countP (by omega) (by omega), by omega, by omega⟩
        | true =>
            simp only [sends, receives, if_true] at sendsSucc receivesSucc
            rcases Nat.eq_zero_or_pos call.messageNum with none | positive
            · obtain ⟨wc, first, send, -⟩ := tidy.control sends (by decide)
              have some : 0 < host.taken.countP
                  (fun wc => wc.opcode = .send) := by
                apply List.countP_pos_iff.mpr
                exact ⟨wc, List.mem_of_mem_head? first, by simp [send]⟩
              exact ⟨eq_nil_of_countP (by omega) (by omega), by omega,
                by omega⟩
            · have full : host.locals.receiveNum = call.messageNum := by omega
              obtain ⟨-, done, drained⟩ := tidy.last sends receives (by decide)
                positive (by rw [empty, full]; rfl)
              exact ⟨drained, done, by omega⟩
  have sendsHold := tidy.sends
  have receivesHold := tidy.receives
  rw [cq, List.append_nil] at sendsHold receivesHold
  refine ⟨cq, sendsDone, receivesDone, ?_, ?_⟩
  · intro number same
    obtain rfl : host.calls = number := Nat.succ.inj same
    have holds := sendsHold
    rw [sendsDone, sendsLength] at holds
    exact holds
  · intro number same
    obtain rfl : host.calls = number := Nat.succ.inj same
    have holds := receivesHold
    rw [receivesDone, receivesLength] at holds
    exact holds

theorem Settled.enter (settled : host.Settled job)
    (between : host.Between job) (call : Call) :
    (host.enter (call.stages job.rank)).Tidy job call
      (call.stages job.rank) where
  sends := by
    have done : host.qp.sendsDone = (job.sendsBefore host.calls).length := by
      rw [settled.sendsDone, between.sends]
    simp only [Host.enter, settled.cq, List.append_nil, done]
    exact .nil _
  receives := by
    have done : host.qp.receivesDone =
        (job.receivesBefore host.calls).length := by
      rw [settled.receivesDone, between.receives]
    simp only [Host.enter, settled.cq, List.append_nil, done]
    exact .nil _
  fresh := fun _ => rfl
  control := by
    intro sends late
    rw [call.reached_stages, if_pos sends] at late
    omega
  counted := by
    intro receives
    have sends := Collective.sends_of_not_receives receives
    rw [call.reached_stages, if_pos sends]
    rfl
  last := by
    intro sends _ late
    rw [call.reached_stages, if_pos sends] at late
    omega

theorem Clean.step (clean : Clean job host) (invariant : Invariant job host)
    (drains : host.Drains job .step) (stepped : host.step job = some next) :
    Clean job next := by
  cases invariant.moved_of_step stepped with
  | @enter call idle current =>
      refine ⟨nofun, ?_⟩
      intro stages same running currentToo
      obtain rfl := Option.some.inj (current.symm.trans currentToo)
      obtain rfl := Option.some.inj running
      exact (clean.settled idle).enter (invariant.between idle) call
  | @leave call ended current inside =>
      exact ⟨fun _ => (clean.tidy [] call ended current).leave inside current,
        nofun⟩
  | @round call _ _ running current inside =>
      have continues := inside.round running
      obtain ⟨left, leftEq, -⟩ := continues.inside
      refine ⟨?_, ?_⟩
      · intro idle
        rw [leftEq] at idle
        cases idle
      · intro stages other running' current'
        rw [continues.calls, current] at current'
        obtain rfl := Option.some.inj current'
        exact (clean.tidy _ call running current).round inside running current
          drains running'

theorem Clean.sendCompletes {qp : QueuePair} (clean : Clean job host)
    (completes : host.qp.completeSend = some qp) :
    Clean job { host with qp := qp } := by
  obtain ⟨wr, present, rfl⟩ := Option.map_eq_some_iff.mp completes
  have outstanding := (List.getElem?_eq_some_iff.mp present).1
  refine ⟨?_, ?_⟩
  · intro idle
    have settled := clean.settled idle
    rw [settled.sendsDone] at outstanding
    exact absurd outstanding (lt_irrefl _)
  · intro stages call running current
    have tidy := clean.tidy stages call running current
    refine ⟨?_, ?_, tidy.fresh, tidy.control, tidy.counted, ?_⟩
    · rw [← List.append_assoc]
      exact tidy.sends.concat rfl rfl
    · rw [← List.append_assoc]
      exact tidy.receives.concat_of_ne (by simp)
    · intro sends receives late positive all
      obtain ⟨-, done, -⟩ := tidy.last sends receives late positive all
      rw [done] at outstanding
      exact absurd outstanding (lt_irrefl _)

theorem Clean.receiveCompletes {qp : QueuePair} (clean : Clean job host)
    (invariant : Invariant job host)
    (completes : host.qp.completeReceive = some qp) :
    Clean job { host with qp := qp } := by
  obtain ⟨wr, present, rfl⟩ := Option.map_eq_some_iff.mp completes
  have outstanding := (List.getElem?_eq_some_iff.mp present).1
  refine ⟨?_, ?_⟩
  · intro idle
    have settled := clean.settled idle
    rw [settled.receivesDone] at outstanding
    exact absurd outstanding (lt_irrefl _)
  · intro stages call running current
    have tidy := clean.tidy stages call running current
    have inside := invariant.inside_of_current running current
    refine ⟨?_, ?_, tidy.fresh, tidy.control, tidy.counted, ?_⟩
    · rw [← List.append_assoc]
      exact tidy.sends.concat_of_ne (by simp)
    · rw [← List.append_assoc]
      exact tidy.receives.concat rfl rfl
    · intro sends receives late positive all
      have handled := inside.delivered.receives.count
      have full : host.locals.receiveNum +
          host.locals.wc.countP (fun wc => wc.opcode = .recv) =
            call.messageNum := all
      rw [List.countP_append] at handled
      rw [inside.receives, List.length_append, List.length_take,
        Job.length_recvWrsOf, if_pos receives] at outstanding
      omega

theorem Clean.act {action : Action} (clean : Clean job host)
    (invariant : Invariant job host) (drains : host.Drains job action)
    (acted : host.act job action = some next) : Clean job next := by
  cases action with
  | step => exact clean.step invariant drains acted
  | sendCompletes =>
      obtain ⟨qp, completes, rfl⟩ := Option.map_eq_some_iff.mp acted
      exact clean.sendCompletes completes
  | receiveCompletes =>
      obtain ⟨qp, completes, rfl⟩ := Option.map_eq_some_iff.mp acted
      exact clean.receiveCompletes invariant completes
  | store address words =>
      obtain rfl := Option.some.inj acted
      exact ⟨fun idle =>
        have settled := clean.settled idle
        ⟨settled.cq, settled.sendsDone, settled.receivesDone, settled.sends,
          settled.receives⟩,
        fun stages call running current =>
          have tidy := clean.tidy stages call running current
          ⟨tidy.sends, tidy.receives, tidy.fresh, tidy.control, tidy.counted,
            tidy.last⟩⟩

theorem init_clean (job : Job) : Clean job .init :=
  ⟨fun _ => ⟨rfl, rfl, rfl, nofun, nofun⟩, nofun⟩

theorem filter_positions {Wr : Type} (tag : Wr → Nat) {number : Nat}
    {before own : List Wr} (others : ∀ wr ∈ before, tag wr ≠ number)
    (all : ∀ wr ∈ own, tag wr = number) :
    ((List.range (before ++ own).length).filter fun i =>
        ((before ++ own)[i]?.map tag) = some number) =
      List.range' before.length own.length := by
  rw [List.length_append, List.range_eq_range', ← List.range'_append_1,
    List.filter_append, List.filter_eq_nil_iff.mpr, List.nil_append, zero_add]
  · apply List.filter_eq_self.mpr
    intro i member
    obtain ⟨lower, upper⟩ := List.mem_range'_1.mp member
    have bound : i - before.length < own.length := by omega
    rw [List.getElem?_append_right lower, List.getElem?_eq_getElem bound]
    simp [all _ (List.getElem_mem bound)]
  · intro i member
    have bound : i < before.length := by
      have upper := (List.mem_range'_1.mp member).2
      omega
    rw [List.getElem?_append_left bound, List.getElem?_eq_getElem bound]
    simp [others _ (List.getElem_mem bound)]

theorem Settled.returned {number : Nat} (settled : host.Settled job)
    (between : host.Between job) (calls : host.calls = number + 1) :
    (host.taken.map Wc.key).Perm (host.ownRequests number) := by
  have sends := settled.sends number calls
  have receives := settled.receives number calls
  have split := List.filter_append_perm (fun wc => wc.opcode = .send)
    host.taken
  have recvs : (host.taken.filter fun wc => !decide (wc.opcode = .send)) =
      host.taken.filter fun wc => wc.opcode = .recv := by
    apply List.filter_congr
    intro wc _
    cases wc.opcode <;> rfl
  rw [recvs] at split
  have keyOf (opcode : WcOpcode) :
      (host.taken.filter fun wc => wc.opcode = opcode).map Wc.key =
        ((host.taken.filter fun wc => wc.opcode = opcode).map
          Wc.request).map (opcode, ·) := by
    rw [List.map_map]
    apply List.map_congr_left
    intro wc member
    have same : wc.opcode = opcode := by
      simpa using (List.mem_filter.mp member).2
    simp [Wc.key, same]
  have mapped := split.map Wc.key
  rw [List.map_append, keyOf, keyOf, sends.positions, receives.positions]
    at mapped
  refine mapped.symm.trans ?_
  rw [ownRequests, between.sends, between.receives, calls,
    Job.sendsBefore_succ, Job.receivesBefore_succ,
    filter_positions SendWr.call
      (fun wr member => (Job.call_lt_of_mem_sendsBefore member).ne)
      (fun wr member => Job.call_of_mem_sendWrs member),
    filter_positions RecvWr.call
      (fun wr member => (Job.call_lt_of_mem_receivesBefore member).ne)
      (fun wr member => Job.call_of_mem_recvWrs member)]
  simp

theorem Clean.accounted (clean : Clean job host)
    (invariant : Invariant job host) : Accounted job host where
  returned := fun number idle calls _ =>
    (clean.settled idle).returned (invariant.between idle) calls
  control := by
    intro stages call running current sends posted awaited
    have tidy := clean.tidy stages call running current
    have inside := invariant.inside_of_current running current
    have late : 2 ≤ Stage.reached stages := by
      cases stages with
      | nil => decide
      | cons stage rest =>
          obtain ⟨-, cases⟩ := Call.stage_cases inside.suffix
          rcases cases with ⟨rfl, -⟩ | ⟨rfl, -⟩ | ⟨rfl, -⟩ | ⟨rfl, -⟩ |
            ⟨rfl, -⟩ | ⟨rfl, -⟩
          · exact absurd (List.mem_cons_self ..) posted
          · exact absurd (List.mem_cons_self ..) awaited
          all_goals simp [Stage.reached, Stage.order]
    obtain ⟨wc, first, send, position⟩ := tidy.control sends late
    refine ⟨wc, job.controlWr host.calls call, first, send, ?_, rfl, rfl⟩
    rw [inside.sends, if_neg (by omega), position, Job.sendWrsOf,
      if_pos sends, List.take_succ_cons]
    simp
  sent := by
    intro number call idle calls _ current receives
    have between := invariant.between idle
    have settled := clean.settled idle
    have sends := Collective.sends_of_not_receives receives
    refine ⟨?_, ?_⟩
    · rw [between.sends, calls, Job.sendsBefore_succ, List.countP_append,
        List.countP_eq_zero.mpr, Nat.zero_add, Job.sendWrs_of_call current,
        Job.sendWrsOf, if_pos sends, List.countP_cons_of_neg,
        List.countP_map, List.countP_eq_length.mpr, List.length_range]
      · intro i _
        simp
      · simp [Job.controlWr]
      · intro wr member
        simp [(Job.call_lt_of_mem_sendsBefore member).ne]
    · intro i wr present _
      rw [settled.sendsDone]
      exact (List.getElem?_eq_some_iff.mp present).1

end Host

/-- In every run whose last polls take everything, the calls account for their
own completions. -/
theorem completions_accounted (job : Job) (actions : List Host.Action)
    (final : Host)
    (drains : Meets (Host.act job) (Host.Drains job) .init actions)
    (ran : run (Host.act job) .init actions = some final) :
    final.Accounted job := by
  have both : final.Invariant job ∧ final.Clean job :=
    run_invariant (fun host => host.Invariant job ∧ host.Clean job)
      (fun host action next holds drained acted =>
        ⟨holds.1.act acted, holds.2.act holds.1 drained acted⟩)
      ⟨Host.init_invariant job, Host.init_clean job⟩ drains ran
  exact both.2.accounted both.1

/-- A rank that takes part in an AllReduce and, as another rank than the root,
in a Reduce, each of one word. -/
def twoCalls : Job where
  rank := 0
  payloadBufSize := 4096
  program := [⟨.allreduce, 1⟩, ⟨.reduce 1, 1⟩]
  srcData := fun _ _ => 7

/-- Both calls up to their poll loops, and what completes in between. -/
def drainedRun : List Host.Action :=
  [.step, .step, .sendCompletes] ++ List.replicate 7 .step ++
    [.sendCompletes, .step, .step, .receiveCompletes] ++
    List.replicate 4 .step ++
    [.step, .step, .sendCompletes] ++ List.replicate 5 .step ++
    [.sendCompletes] ++ List.replicate 4 .step

theorem completions_accounted_drainedRun :
    ((run (Host.act twoCalls) .init drainedRun).map fun final =>
        (final.calls, final.taken.length)) = some (2, 2) ∧
      ∀ final, run (Host.act twoCalls) .init drainedRun = some final →
        final.Accounted twoCalls :=
  ⟨by decide, fun final =>
    completions_accounted twoCalls drainedRun final (by decide)⟩

/-- The same AllReduce when the receive completes before the send. -/
def hastyRun : List Host.Action :=
  [.step, .step, .sendCompletes] ++ List.replicate 7 .step ++
    [.receiveCompletes] ++ List.replicate 4 .step

/-- The call has returned and the completion of its message is still to come. -/
theorem not_accounted_hastyRun :
    ¬∀ (job : Job) (actions : List Host.Action) (final : Host),
      run (Host.act job) .init actions = some final →
        final.Accounted job := by
  intro always
  have shape : ((run (Host.act twoCalls) .init hastyRun).map fun final =>
      (final.stages.isNone, final.calls, final.succeeded,
        final.taken.length, (final.ownRequests 0).length)) =
      some (true, 1, true, 2, 3) := by decide
  obtain ⟨final, ran, fields⟩ := Option.map_eq_some_iff.mp shape
  simp only [Prod.mk.injEq] at fields
  obtain ⟨idle, calls, succeeded, taken, own⟩ := fields
  have perm := (always twoCalls hastyRun final ran).returned 0
    (Option.isNone_iff_eq_none.mp idle) calls succeeded
  have length := perm.length_eq
  rw [List.length_map, taken, own] at length
  cases length

end IncEmulation
