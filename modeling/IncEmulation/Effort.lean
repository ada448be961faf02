import IncEmulation.Completion
import IncEmulation.Stream

/-!
# What a rank has still to do

The rounds that are left of a program, and two more steps for every completion:
one that polls it and one that handles it.  Every step of a rank takes from that,
except for a poll that finds nothing.
-/

namespace IncEmulation

/-- The rounds a stage still takes. -/
def Stage.rounds (messages : Nat) (locals : Locals) : Stage → Nat
  | postControl _ => 1
  | awaitControl => 1
  | postReceives => messages - locals.posted + 1
  | prepare => messages - locals.prepared + 1
  | window => messages - locals.sendNum + 1
  | poll _ => 1

def Stage.roundsOf (messages : Nat) (locals : Locals) : List Stage → Nat
  | [] => 0
  | stage :: rest => stage.rounds messages locals + roundsOf messages locals rest

/-- The rounds of a call, with its entry and its return. -/
def Call.rounds (rank : Nat) (call : Call) : Nat :=
  2 + Stage.roundsOf call.messageNum .init (call.stages rank)

def roundsOfProgram (rank : Nat) : List Call → Nat
  | [] => 0
  | call :: calls => call.rounds rank + roundsOfProgram rank calls

namespace Host

/-- The rounds that are left of the running call and of those after it. -/
def roundsLeft (job : Job) (host : Host) : Nat :=
  match host.stages with
  | none => roundsOfProgram job.rank (job.program.drop host.calls)
  | some stages =>
      (job.program[host.calls]?).elim 0 (fun call =>
          Stage.roundsOf call.messageNum host.locals stages) + 1 +
        roundsOfProgram job.rank (job.program.drop (host.calls + 1))

def effort (job : Job) (host : Host) : Nat :=
  host.roundsLeft job + 2 * host.qp.cq.length + host.locals.wc.length

/-- The next step of the rank is a poll of the empty completion queue. -/
def FindsNothing (job : Job) (host : Host) : Prop :=
  match host.stages with
  | some (.awaitControl :: _) => host.qp.cq = []
  | some (.poll loop :: _) => host.locals.wc = [] ∧ host.qp.cq = [] ∧
      ∃ call ∈ job.program[host.calls]?,
        loop.continues host.locals call.messageNum = true
  | _ => False

instance (job : Job) (host : Host) : Decidable (host.FindsNothing job) := by
  unfold FindsNothing
  split <;> infer_instance

end Host

section Rounds

variable {job : Job} {host next : Host} {call : Call} {stage : Stage}
  {rest : List Stage}

theorem Stage.rounds_pos (messages : Nat) (locals : Locals) (stage : Stage) :
    0 < stage.rounds messages locals := by
  cases stage <;> exact Nat.succ_pos _

theorem Stage.roundsOf_le {messages : Nat} {locals later : Locals}
    (posted : locals.posted ≤ later.posted)
    (prepared : locals.prepared ≤ later.prepared)
    (sendNum : locals.sendNum ≤ later.sendNum) (stages : List Stage) :
    Stage.roundsOf messages later stages ≤
      Stage.roundsOf messages locals stages := by
  induction stages with
  | nil => exact le_rfl
  | cons stage rest induction =>
      refine Nat.add_le_add ?_ induction
      cases stage <;> simp only [Stage.rounds] <;> omega

theorem roundsOfProgram_drop {rank number : Nat} {program : List Call}
    (current : program[number]? = some call) :
    roundsOfProgram rank (program.drop number) =
      call.rounds rank + roundsOfProgram rank (program.drop (number + 1)) := by
  obtain ⟨within, rfl⟩ := List.getElem?_eq_some_iff.mp current
  rw [List.drop_eq_getElem_cons within, roundsOfProgram]

namespace Host

theorem effort_running {stages : List Stage}
    (running : host.stages = some stages)
    (current : job.program[host.calls]? = some call) :
    host.effort job = Stage.roundsOf call.messageNum host.locals stages + 1 +
      roundsOfProgram job.rank (job.program.drop (host.calls + 1)) +
        2 * host.qp.cq.length + host.locals.wc.length := by
  rw [effort, roundsLeft, running, current]
  rfl

/-- What a round may change so that it brings the call on. -/
structure Advances (host next : Host) (messages : Nat)
    (before after : List Stage) : Prop where
  calls : next.calls = host.calls
  stages : next.stages = some after
  less : Stage.roundsOf messages next.locals after +
      2 * next.qp.cq.length + next.locals.wc.length + 1 ≤
    Stage.roundsOf messages host.locals before + 2 * host.qp.cq.length +
      host.locals.wc.length

theorem Advances.effort_lt {before after : List Stage}
    (advances : host.Advances next call.messageNum before after)
    (running : host.stages = some before)
    (current : job.program[host.calls]? = some call) :
    next.effort job + 1 ≤ host.effort job := by
  have less := advances.less
  rw [effort_running running current,
    effort_running advances.stages (advances.calls ▸ current), advances.calls]
  omega

theorem advances_of_ended (host : Host) (messages : Nat) (stage : Stage)
    (rest : List Stage) :
    host.Advances { host with stages := some rest } messages (stage :: rest)
      rest where
  calls := rfl
  stages := rfl
  less := by
    have positive := stage.rounds_pos messages host.locals
    simp only [Stage.roundsOf]
    omega

theorem postControl_advances (host : Host) (job : Job) (messages : Nat)
    (operation : Collective) (rest : List Stage) :
    host.Advances { host.postControl job operation with stages := some rest }
      messages (.postControl operation :: rest) rest where
  calls := rfl
  stages := rfl
  less := by
    simp only [Stage.roundsOf, Stage.rounds, postControl, QueuePair.postSend]
    omega

theorem awaitRound_advances (messages : Nat)
    (intact : host.qp.broken = false) (found : host.qp.cq ≠ []) :
    host.Advances (host.awaitRound rest) messages (.awaitControl :: rest)
      rest := by
  obtain ⟨wc, cq, queue⟩ := List.exists_cons_of_ne_nil found
  have polled : host.qp.pollCq 1 = some ([wc], { host.qp with cq := cq }) := by
    simp [QueuePair.pollCq, intact, queue]
  rw [awaitRound, polled]
  refine ⟨rfl, rfl, ?_⟩
  simp only [Stage.roundsOf, Stage.rounds, queue, List.length_cons]
  omega

theorem postReceive_advances {messages : Nat}
    (running : host.stages = some (.postReceives :: rest))
    (more : host.locals.posted < messages) :
    host.Advances host.postReceive messages (.postReceives :: rest)
      (.postReceives :: rest) where
  calls := rfl
  stages := running
  less := by
    have shorter : Stage.roundsOf messages host.postReceive.locals rest ≤
        Stage.roundsOf messages host.locals rest := by
      apply Stage.roundsOf_le
      · exact Nat.le_succ _
      · exact le_rfl
      · exact le_rfl
    simp only [Stage.roundsOf, Stage.rounds, postReceive, QueuePair.postRecv]
      at shorter ⊢
    omega

theorem prepareMessage_advances {messages : Nat}
    (running : host.stages = some (.prepare :: rest))
    (more : host.locals.prepared < messages) :
    host.Advances (host.prepareMessage job call) messages (.prepare :: rest)
      (.prepare :: rest) where
  calls := rfl
  stages := running
  less := by
    have shorter :
        Stage.roundsOf messages (host.prepareMessage job call).locals rest ≤
          Stage.roundsOf messages host.locals rest := by
      apply Stage.roundsOf_le
      · exact le_rfl
      · exact Nat.le_succ _
      · exact le_rfl
    simp only [Stage.roundsOf, Stage.rounds, prepareMessage] at shorter ⊢
    omega

theorem postData_advances {messages : Nat}
    (running : host.stages = some (.window :: rest))
    (more : host.locals.sendNum < messages) :
    host.Advances host.postData messages (.window :: rest)
      (.window :: rest) where
  calls := rfl
  stages := running
  less := by
    have shorter : Stage.roundsOf messages host.postData.locals rest ≤
        Stage.roundsOf messages host.locals rest := by
      apply Stage.roundsOf_le
      · exact le_rfl
      · exact le_rfl
      · exact Nat.le_succ _
    simp only [Stage.roundsOf, Stage.rounds, postData, QueuePair.postSend]
      at shorter ⊢
    omega

theorem handleWc_advances {messages : Nat} {loop : PollLoop} {wc : Wc}
    {batch : List Wc} (running : host.stages = some [.poll loop])
    (first : host.locals.wc = wc :: batch) (success : wc.success = true) :
    host.Advances ((host.setWc batch).handleWc call loop wc) messages
      [.poll loop] [.poll loop] := by
  have locals : ((host.setWc batch).handleWc call loop wc).locals.wc =
      batch := by
    unfold handleWc refill count
    split_ifs <;> (try split) <;> rfl
  have queue : ((host.setWc batch).handleWc call loop wc).qp.cq =
      host.qp.cq := by
    unfold handleWc refill count
    split_ifs <;> (try split) <;> rfl
  have calls : ((host.setWc batch).handleWc call loop wc).calls =
      host.calls := by
    unfold handleWc refill count
    rw [if_pos success]
    split_ifs <;> (try split) <;> rfl
  have stages : ((host.setWc batch).handleWc call loop wc).stages =
      some [.poll loop] := (handleWc_stages success).trans running
  refine ⟨calls, stages, ?_⟩
  simp only [Stage.roundsOf, Stage.rounds, locals, queue, first,
    List.length_cons]
  omega

theorem poll_advances {messages : Nat} {loop : PollLoop} {batch : List Wc}
    {qp : QueuePair} (running : host.stages = some [.poll loop])
    (used : host.locals.wc = []) (found : host.qp.cq ≠ [])
    (positive : 0 < messages)
    (polled : host.qp.pollCq messages = some (batch, qp)) :
    host.Advances
      { host.setWc batch with qp := qp, taken := host.taken ++ batch }
      messages [.poll loop] [.poll loop] := by
  obtain ⟨rfl, rfl⟩ := QueuePair.eq_of_pollCq polled
  refine ⟨rfl, running, ?_⟩
  have some := List.length_pos_iff.mpr found
  simp only [Stage.roundsOf, Stage.rounds, setWc, used, List.length_nil,
    List.length_take, List.length_drop]
  omega

/-- A loop that goes on has messages to wait for. -/
theorem Inside.messages_pos {loop : PollLoop} {left : List Stage}
    (inside : host.Inside job call left)
    (continues : loop.continues host.locals call.messageNum = true) :
    0 < call.messageNum := by
  by_contra none
  have zero : call.messageNum = 0 := Nat.eq_zero_of_not_pos none
  have least := inside.delivered.receives.le
  have most := inside.delivered.receivesDone_le
  have posted := inside.counters.posted_le
  rw [inside.receives, List.length_append, List.length_take] at most
  have sendNum : host.locals.sendNum = 0 := by
    cases sends : call.collective.sends job.rank with
    | true =>
        have few := (inside.sendNum_le sends).1
        omega
    | false => exact inside.counters.sendNum_none sends
  cases loop with
  | allreduce =>
      simp only [PollLoop.continues, zero, ne_eq, decide_eq_true_eq]
        at continues
      omega
  | reduceRoot =>
      simp only [PollLoop.continues, zero, ne_eq, decide_eq_true_eq]
        at continues
      omega
  | reduceOther =>
      simp only [PollLoop.continues, sendNum, decide_eq_true_eq] at continues
      exact absurd continues (Nat.not_lt_zero _)
  | broadcastRoot =>
      simp only [PollLoop.continues, zero, decide_eq_true_eq] at continues
      exact absurd continues (Nat.not_lt_zero _)
  | broadcastOther =>
      simp only [PollLoop.continues, zero, decide_eq_true_eq] at continues
      exact absurd continues (Nat.not_lt_zero _)

theorem pollRound_advances {loop : PollLoop}
    (inside : host.Inside job call [.poll loop])
    (running : host.stages = some [.poll loop])
    (current : job.program[host.calls]? = some call)
    (finds : ¬host.FindsNothing job) :
    ∃ after, (after = [] ∨ after = [.poll loop]) ∧
      host.Advances (host.pollRound call loop []) call.messageNum
        [.poll loop] after := by
  unfold pollRound
  split
  · rename_i wc batch first
    have success := inside.delivered.success wc (by simp [first])
    exact ⟨_, .inr rfl, handleWc_advances running first success⟩
  · rename_i used
    split_ifs with continues
    · have found : host.qp.cq ≠ [] := by
        intro empty
        apply finds
        simp only [FindsNothing, running]
        exact ⟨used, empty, call, current, continues⟩
      have polled : host.qp.pollCq call.messageNum =
          some (host.qp.cq.take call.messageNum,
            { host.qp with cq := host.qp.cq.drop call.messageNum }) :=
        if_neg (Bool.eq_false_iff.mp inside.delivered.intact)
      rw [polled]
      exact ⟨_, .inr rfl, poll_advances running used found
        (inside.messages_pos continues) polled⟩
    · exact ⟨_, .inl rfl, host.advances_of_ended _ _ _⟩

/-- Every round but a poll that finds nothing brings the call on.  The wait for
the control message ends with it. -/
theorem round_advances (inside : host.Inside job call (stage :: rest))
    (running : host.stages = some (stage :: rest))
    (current : job.program[host.calls]? = some call)
    (finds : ¬host.FindsNothing job) :
    ∃ after, (after = rest ∨ stage ≠ .awaitControl ∧ after = stage :: rest) ∧
      host.Advances (host.round job call stage rest) call.messageNum
        (stage :: rest) after := by
  cases stage with
  | postControl operation =>
      exact ⟨_, .inl rfl, host.postControl_advances job _ operation rest⟩
  | awaitControl =>
      refine ⟨_, .inl rfl,
        awaitRound_advances _ inside.delivered.intact fun empty => ?_⟩
      apply finds
      simp only [FindsNothing, running]
      exact empty
  | postReceives =>
      rw [round]
      split_ifs with more
      · exact ⟨_, .inr ⟨by simp, rfl⟩, postReceive_advances running more⟩
      · exact ⟨_, .inl rfl, host.advances_of_ended _ _ _⟩
  | prepare =>
      rw [round]
      split_ifs with more
      · exact ⟨_, .inr ⟨by simp, rfl⟩, prepareMessage_advances running more⟩
      · exact ⟨_, .inl rfl, host.advances_of_ended _ _ _⟩
  | window =>
      rw [round]
      split_ifs with more
      · exact ⟨_, .inr ⟨by simp, rfl⟩, postData_advances running more.2⟩
      · exact ⟨_, .inl rfl, host.advances_of_ended _ _ _⟩
  | poll loop =>
      obtain ⟨-, rfl⟩ := Call.poll_cases inside.suffix
      obtain ⟨after, shape, advances⟩ :=
        pollRound_advances inside running current finds
      exact ⟨after, shape.imp_right fun same => ⟨by simp, same⟩, advances⟩

/-- Every step of a rank but a poll that finds nothing takes from its effort. -/
theorem step_effort (invariant : host.Invariant job)
    (finds : ¬host.FindsNothing job) (stepped : host.step job = some next) :
    next.effort job + 1 ≤ host.effort job := by
  cases invariant.moved_of_step stepped with
  | @enter call idle current =>
      have entered : (host.enter (call.stages job.rank)).stages =
          some (call.stages job.rank) := rfl
      have here : job.program[(host.enter (call.stages job.rank)).calls]? =
          some call := current
      rw [effort_running entered here, effort, roundsLeft, idle,
        roundsOfProgram_drop current, Call.rounds]
      simp only [enter, Locals.init, List.length_nil]
      omega
  | @leave _ ended current _ =>
      rw [effort_running ended current, effort, roundsLeft]
      simp only [leave, Stage.roundsOf]
      omega
  | @round _ _ _ running current inside =>
      obtain ⟨after, -, advances⟩ :=
        round_advances inside running current finds
      exact advances.effort_lt running current

/-- A poll that finds nothing changes nothing. -/
theorem step_of_findsNothing (invariant : host.Invariant job)
    (nothing : host.FindsNothing job) (stepped : host.step job = some next) :
    next = host := by
  unfold FindsNothing at nothing
  split at nothing
  · rename_i rest running
    obtain ⟨call, current, inside⟩ := invariant.inside _ running
    simp only [Host.step, running, current, Option.map_some, round, awaitRound,
      QueuePair.pollCq, inside.delivered.intact, nothing, Bool.false_eq_true,
      if_false, List.take_nil, Option.some.injEq] at stepped
    exact stepped.symm
  · rename_i loop rest running
    obtain ⟨used, empty, call, current, continues⟩ := nothing
    obtain ⟨own, ownCurrent, inside⟩ := invariant.inside _ running
    have polled : host.qp.pollCq call.messageNum = some ([], host.qp) := by
      rw [QueuePair.pollCq, if_neg (Bool.eq_false_iff.mp
        inside.delivered.intact), empty, List.take_nil, List.drop_nil, ← empty]
    rw [Option.mem_def] at current
    simp only [Host.step, running, current, Option.map_some, round, pollRound,
      used, continues, if_true, polled, Option.some.injEq] at stepped
    rw [← stepped, List.append_nil, setWc, ← used]
  · cases nothing

end Host

end Rounds

end IncEmulation
