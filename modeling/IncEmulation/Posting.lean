import IncEmulation.Awaiting
import IncEmulation.Overwriting

/-!
# A receive for every message

A message must find a receive posted, as the switch never sends anything twice.
AllReduce and Reduce see to it: a rank posts its receives before its first
message, and no result is complete without it.  A Broadcast does not wait for
its receivers.
-/

namespace IncEmulation

open Gather Machine

namespace System

/-- What is asked of the state in which a data packet of `call` is handled.  It
goes under the operation of its own call, and if it is aggregated it has the same
PSN on all connections and its slot to itself. -/
structure Fits (cluster : Cluster) (system : System) (rank : Nat)
    (data : Segment) (call : Call) : Prop where
  inForce : system.switch.InForce call.collective
  aligned : call.collective.aggregates = true → ∀ other < cluster.hosts,
    (cluster.job other).base data.request.call =
      (cluster.job rank).base data.request.call
  slot : call.collective.aggregates = true →
    (system.switch.psnStates (idx (system.switch.aggEpsn rank))).degree = 0 ∨
      (system.switch.psnStates
          (idx (system.switch.aggEpsn rank))).aggBuffer.psn =
        system.switch.aggEpsn rank

/-- A step of the root that posts a message of a Broadcast comes after the steps
in which the other ranks have posted their receives for it. -/
def Waits (cluster : Cluster) (system : System) (rank : Nat) : Prop :=
  (system.hosts rank).Posts (cluster.job rank) →
    ∀ call ∈ cluster.program[(system.hosts rank).calls]?,
      call.collective.aggregates = false →
        ∀ other < cluster.hosts, other ≠ rank →
          (system.hosts other).Expects (system.hosts rank).calls
            (system.hosts rank).locals.sendNum

/-- Under the Broadcast of another rank the switch drops data packets. -/
def Drops (system : System) (rank : Nat) : Prop :=
  system.switch.operationType = .broadcast ∧
    system.switch.rootRank ≠ (rank : Nat)

/-- The root of a Broadcast waits for the receivers, and every data packet fits
the state it is handled in or is dropped. -/
def Prepared (cluster : Cluster) (system : System) : Event → Prop
  | .host rank => system.Waits cluster rank
  | .handle rank =>
      ∀ data ∈ system.expected cluster rank, data.request.immData = none →
        ∀ call ∈ cluster.program[data.request.call]?,
          system.Drops rank ∨ system.Fits cluster rank data call
  | _ => True

/-- Every data frame that an event makes the switch send belongs to the call its
receiver is in, and the receive for its message is posted. -/
def Buffered (system : System) : Event → Prop
  | .handle rank =>
      ∀ sent ∈ (system.up rank)[system.accepted rank]?,
        ∀ frame ∈ dataFrames (packetHandler system.switch rank sent.2).2,
          (system.hosts frame.conn).Expects sent.1.request.call
              sent.1.request.wrId ∧
            ∃ wr ∈ (system.hosts frame.conn).qp.receives[frame.psn / 4]?,
              wr.call = sent.1.request.call ∧ wr.wrId = sent.1.request.wrId
  | .acknowledge rank packet =>
      dataFrames (packetHandler system.switch rank packet).2 = []
  | _ => True

instance (cluster : Cluster) (system : System) (rank : Nat) (data : Segment)
    (call : Call) : Decidable (system.Fits cluster rank data call) :=
  decidable_of_iff
    (((system.switch.operationType, system.switch.rootRank) =
        call.collective.metadata ∧
      (call.collective.aggregates = true → ∀ other < cluster.hosts,
        (cluster.job other).base data.request.call =
          (cluster.job rank).base data.request.call)) ∧
      (call.collective.aggregates = true →
        (system.switch.psnStates (idx (system.switch.aggEpsn rank))).degree =
            0 ∨
          (system.switch.psnStates
              (idx (system.switch.aggEpsn rank))).aggBuffer.psn =
            system.switch.aggEpsn rank))
    ⟨fun parts => ⟨parts.1.1, parts.1.2, parts.2⟩,
      fun fits => ⟨⟨fits.inForce, fits.aligned⟩, fits.slot⟩⟩

instance (cluster : Cluster) (system : System) (rank : Nat) :
    Decidable (system.Waits cluster rank) := by
  unfold Waits
  infer_instance

instance (system : System) (rank : Nat) : Decidable (system.Drops rank) :=
  inferInstanceAs (Decidable (_ ∧ _))

instance (cluster : Cluster) (system : System) :
    DecidablePred (Prepared cluster system)
  | .host rank => by unfold Prepared; infer_instance
  | .handle rank => by unfold Prepared; infer_instance
  | .transmit _ => .isTrue trivial
  | .sendCompletes _ => .isTrue trivial
  | .acknowledge _ _ => .isTrue trivial
  | .deliver _ => .isTrue trivial

instance (system : System) : DecidablePred system.Buffered
  | .handle rank => by unfold Buffered; infer_instance
  | .acknowledge _ _ => by unfold Buffered; infer_instance
  | .host _ => .isTrue trivial
  | .transmit _ => .isTrue trivial
  | .sendCompletes _ => .isTrue trivial
  | .deliver _ => .isTrue trivial

/-- Whatever a root has posted of a Broadcast, the other ranks expect it or are
past the call. -/
def Invited (cluster : Cluster) (system : System) : Prop :=
  ∀ root < cluster.hosts, ∀ wr ∈ (system.hosts root).qp.sends,
    wr.immData = none → ∀ call, cluster.program[wr.call]? = some call →
      call.collective.aggregates = false →
        ∀ other < cluster.hosts, other ≠ root →
          (system.hosts other).Welcomes wr.call wr.wrId

end System

/-- A PSN that carries data of the same AllReduce or Reduce on every
connection. -/
def Cluster.Aggregated (cluster : Cluster) (psn : Nat) : Prop :=
  ∃ number call k, cluster.program[number]? = some call ∧
    call.collective.aggregates = true ∧ k < 4 * call.messageNum ∧
    ∀ rank < cluster.hosts, psn = (cluster.job rank).base number + 1 + k

/-- What every run keeps whose data packets always fit. -/
structure Posted (cluster : Cluster) (system : System) : Prop where
  wired : Wired cluster system
  slots : SlotsHold cluster.hosts cluster.Aggregated system.switch
  awaited : ∀ rank < cluster.hosts, system.Awaited cluster rank
  invited : system.Invited cluster

/-- What becomes of a packet that fits or is dropped. -/
inductive System.Fitted (cluster : Cluster) (system : System) (rank : Nat)
    (segment : Segment) (after : SwitchContext) (frames : List Frame) : Prop
  | quiet (silent : dataFrames frames = [])
      (sendPsn : after.sendPsn = system.switch.sendPsn)
      (slots : SlotsHold cluster.hosts cluster.Aggregated after)
      (passed : ∀ number call k, cluster.program[number]? = some call →
        k < 4 * call.messageNum →
          (System.Passed cluster { system with switch := after } number call k ↔
            system.Passed cluster number call k))
  | emits {number k : Nat} {call : Call} {packet : Packet}
      (data : segment = Job.dataSegment number k)
      (emits : system.Emits cluster rank number k call packet)
      (aggEpsn : after.aggEpsn = advance system.switch.aggEpsn rank)
      (sendPsn : after.sendPsn = (system.switch.afterSending
        (call.collective.targets cluster.hosts)).sendPsn)
      (slots : SlotsHold cluster.hosts cluster.Aggregated after)
      (sent : ∃ words, dataFrames frames =
        system.switch.resultFrames words mtuWords (Job.dataOpcode k)
          (call.collective.targets cluster.hosts))

section Aggregated

variable {cluster : Cluster} {rank number k : Nat} {call : Call}

theorem Cluster.not_aggregated_control
    (bound : rank < cluster.hosts)
    (current : cluster.program[number]? = some call)
    (sends : call.collective.sends rank = true) :
    ¬cluster.Aggregated ((cluster.job rank).base number) := by
  rintro ⟨own, ownCall, k, ownCurrent, aggregates, inCall, place⟩
  have here := place rank bound
  refine cluster.position_ne ownCurrent
    (Collective.sends_of_aggregates aggregates rank) inCall current sends
    ⟨le_rfl, by omega⟩ (fun same => ?_) here.symm
  rw [same]
  omega

theorem Cluster.not_aggregated_broadcast
    (bound : rank < cluster.hosts)
    (current : cluster.program[number]? = some call)
    (sends : call.collective.sends rank = true)
    (inCall : k < 4 * call.messageNum)
    (broadcast : call.collective.aggregates = false) :
    ¬cluster.Aggregated ((cluster.job rank).base number + 1 + k) := by
  rintro ⟨own, ownCall, j, ownCurrent, aggregates, ownInCall, place⟩
  have here := place rank bound
  obtain rfl := (cluster.job rank).number_eq
    ((cluster.job rank).base number + 1 + k) ownCurrent
    (Collective.sends_of_aggregates aggregates rank) current sends
    ⟨by omega, by omega⟩ ⟨by omega, by omega⟩
  obtain rfl := Option.some.inj (current.symm.trans ownCurrent)
  rw [broadcast] at aggregates
  cases aggregates

end Aggregated

/-- A slot that is empty or holds the PSN itself is held by no other one. -/
theorem slotFree_of_slot {hosts psn : Nat} {aggregated : Nat → Prop}
    {ctx : SwitchContext} (slots : SlotsHold hosts aggregated ctx)
    (slot : (ctx.psnStates (idx psn)).degree = 0 ∨
      (ctx.psnStates (idx psn)).aggBuffer.psn = psn) :
    SlotFree hosts aggregated ctx psn := by
  intro pending member isPending same
  obtain ⟨degree, -, held⟩ := slots.pending pending member isPending
  rw [same] at degree held
  rcases slot with empty | own
  · obtain ⟨⟨fast, bound, passed⟩, -⟩ := isPending
    rw [empty] at degree
    have none := Finset.card_eq_zero.mp degree.symm
    have present := mem_contributors.mpr ⟨bound, passed⟩
    rw [none] at present
    cases present
  · exact Int.ofNat_inj.mp (held.symm.trans own)

theorem SwitchContext.resultFrames_to {targets : List Nat}
    (nodup : targets.Nodup) (ctx : SwitchContext) (data : Nat → Word)
    (len : Int) (opcode : Opcode) (other : Nat) :
    (ctx.resultFrames data len opcode targets).filter
        (fun frame => frame.conn = other) =
      if other ∈ targets then
        [sendPacket other .data data len (ctx.sendPsn other) opcode]
      else [] := by
  have conns : (targets.filter fun conn => conn = other) =
      if other ∈ targets then [other] else [] := by
    rw [List.filter_eq, nodup.count]
    split_ifs <;> rfl
  have compose : ((fun frame : Frame => decide (frame.conn = other)) ∘
      fun conn => sendPacket conn .data data len (ctx.sendPsn conn) opcode) =
        fun conn => decide (conn = other) := rfl
  rw [resultFrames, List.filter_map, compose, conns]
  split_ifs <;> rfl

theorem System.not_drops {system : System} {rank : Nat}
    {operation : Collective} (inForce : system.switch.InForce operation)
    (handled : operation.aggregates = true ∨ operation = .broadcast rank) :
    ¬system.Drops rank := by
  rintro ⟨type, root⟩
  rcases handled with aggregates | rfl
  · exact Observed.inForce_not_broadcast inForce aggregates type
  · exact root (congrArg Prod.snd inForce)

theorem Collective.mem_targets_iff {hosts target : Nat}
    {operation : Collective} (valid : operation.Valid hosts) :
    target ∈ operation.targets hosts ↔
      target < hosts ∧ operation.receives target = true := by
  cases operation with
  | allreduce => simp [targets, receives]
  | reduce root =>
      simp only [targets, receives, List.mem_singleton, decide_eq_true_eq]
      exact ⟨fun same => ⟨same ▸ valid, same⟩, And.right⟩
  | broadcast root => simp [targets, receives]

theorem System.InTurn.aggregated {cluster : Cluster} {system : System}
    {rank number k : Nat} {call : Call} {packet : Packet}
    (inTurn : system.InTurn cluster rank number k call packet)
    (aggregates : call.collective.aggregates = true)
    (aligned : ∀ other < cluster.hosts,
      (cluster.job other).base number = (cluster.job rank).base number) :
    cluster.Aggregated (system.switch.aggEpsn rank) :=
  ⟨number, call, k, inTurn.current, aggregates, inTurn.inCall,
    fun other bound => by rw [aligned other bound, inTurn.place]⟩

theorem Collective.exists_sender {hosts rank : Nat} {operation : Collective}
    (bound : rank < hosts) (valid : operation.Valid hosts) :
    ∃ sender < hosts, operation.sends sender = true := by
  cases operation with
  | allreduce => exact ⟨rank, bound, rfl⟩
  | reduce root => exact ⟨rank, bound, rfl⟩
  | broadcast root => exact ⟨root, valid, decide_eq_true rfl⟩

/-! ## The messages of a Broadcast -/

section Inviting

variable {cluster : Cluster} {system next : System} {rank : Nat}

theorem Host.handleWc_messages {host : Host} {call : Call} {loop : PollLoop}
    {wc : Wc} {wr : SendWr}
    (member : wr ∈ (host.handleWc call loop wc).qp.sends) :
    wr ∈ host.qp.sends ∨
      (host.locals.sendNum < (host.handleWc call loop wc).locals.sendNum ∧
        wr.call = host.calls ∧ wr.wrId = host.locals.sendNum) := by
  have counted : (host.count call wc).qp = host.qp ∧
      (host.count call wc).locals.sendNum = host.locals.sendNum ∧
      (host.count call wc).calls = host.calls := by
    unfold count
    split <;> exact ⟨rfl, rfl, rfl⟩
  obtain ⟨qp, sendNum, calls⟩ := counted
  unfold handleWc refill at member ⊢
  split_ifs at member ⊢ with success counts refills more
  · rcases List.mem_append.mp member with old | new
    · exact .inl (qp ▸ old)
    · obtain rfl := List.mem_singleton.mp new
      refine .inr ⟨?_, calls, sendNum⟩
      rw [← sendNum]
      exact Nat.lt_succ_self _
  · exact .inl (qp ▸ member)
  · exact .inl (qp ▸ member)
  · exact .inl member
  · exact .inl member

/-- A message that a round posts is the next one of the call. -/
theorem Host.round_messages {host : Host} {job : Job} {call : Call}
    {stage : Stage} {rest : List Stage} {wr : SendWr}
    (member : wr ∈ (host.round job call stage rest).qp.sends)
    (message : wr.immData = none) :
    wr ∈ host.qp.sends ∨
      (host.locals.sendNum <
          (host.round job call stage rest).locals.sendNum ∧
        wr.call = host.calls ∧ wr.wrId = host.locals.sendNum) := by
  cases stage with
  | postControl operation =>
      rcases List.mem_append.mp member with old | new
      · exact .inl old
      · obtain rfl := List.mem_singleton.mp new
        cases message
  | awaitControl =>
      rw [round, awaitRound_sends] at member
      exact .inl member
  | postReceives =>
      rw [round] at member
      split_ifs at member <;> exact .inl member
  | prepare =>
      rw [round] at member
      split_ifs at member <;> exact .inl member
  | window =>
      rw [round] at member ⊢
      split_ifs at member ⊢
      · rcases List.mem_append.mp member with old | new
        · exact .inl old
        · obtain rfl := List.mem_singleton.mp new
          exact .inr ⟨Nat.lt_succ_self _, rfl, rfl⟩
      · exact .inl member
  | poll loop =>
      rw [round, pollRound] at member ⊢
      split at member
      · exact handleWc_messages member
      · split_ifs at member
        · split at member
          · exact .inl member
          case h_2 batch qp polled =>
            obtain ⟨-, rfl⟩ := QueuePair.eq_of_pollCq polled
            exact .inl member
        · exact .inl member

theorem Host.Moved.messages {host after : Host} {job : Job} {wr : SendWr}
    (moved : host.Moved job after) (stepped : host.step job = some after)
    (member : wr ∈ after.qp.sends) (message : wr.immData = none) :
    wr ∈ host.qp.sends ∨
      (host.Posts job ∧ wr.call = host.calls ∧
        wr.wrId = host.locals.sendNum) := by
  cases moved with
  | enter => exact .inl member
  | leave => exact .inl member
  | round =>
      exact (Host.round_messages member message).imp_right
        fun ⟨more, same⟩ => ⟨⟨_, stepped, more⟩, same⟩

namespace System

theorem Invited.congr (invited : system.Invited cluster)
    (sends : ∀ rank, (next.hosts rank).qp.sends = (system.hosts rank).qp.sends)
    (calls : ∀ rank, (next.hosts rank).calls = (system.hosts rank).calls)
    (stages : ∀ rank, (next.hosts rank).stages = (system.hosts rank).stages)
    (locals : ∀ rank, (next.hosts rank).locals = (system.hosts rank).locals) :
    next.Invited cluster := by
  intro root bound wr member message call current broadcast other otherBound
    different
  rw [sends root] at member
  exact (invited root bound wr member message call current broadcast other
    otherBound different).congr (calls other) (stages other)
      (congrArg Locals.posted (locals other))

theorem Invited.host {host : Host} (invited : system.Invited cluster)
    (wired : Wired cluster system) (waits : system.Waits cluster rank)
    (stepped : (system.hosts rank).step (cluster.job rank) = some host) :
    (system.setHost rank host).Invited cluster := by
  have moved := (wired.hosts rank).moved_of_step stepped
  have kept (other number message : Nat)
      (welcomes : (system.hosts other).Welcomes number message) :
      ((system.setHost rank host).hosts other).Welcomes number message := by
    by_cases own : other = rank
    · subst own
      rw [setHost_self]
      exact welcomes.step moved
    · rwa [setHost_hosts, Function.update_of_ne own]
  intro root bound wr member message call current broadcast other otherBound
    different
  apply kept
  by_cases own : root = rank
  · subst own
    rw [setHost_self] at member
    rcases moved.messages stepped member message with old | ⟨posts, same, next⟩
    · exact invited root bound wr old message call current broadcast other
        otherBound different
    · rw [same] at current ⊢
      rw [next]
      exact .inr (waits posts call current broadcast other otherBound different)
  · rw [setHost_hosts, Function.update_of_ne own] at member
    exact invited root bound wr member message call current broadcast other
      otherBound different

theorem Invited.sendCompletes {host : Host} (invited : system.Invited cluster)
    (acted : (system.hosts rank).act (cluster.job rank) .sendCompletes =
      some host) :
    (system.setHost rank host).Invited cluster := by
  obtain ⟨qp, completes, rfl⟩ := Option.map_eq_some_iff.mp acted
  obtain ⟨wr, -, rfl⟩ := Option.map_eq_some_iff.mp completes
  apply invited.congr
  all_goals
    intro other
    rw [setHost_hosts, Function.update_apply]
    split_ifs with own
    · rw [own]
    · rfl

theorem request_of_up {segment : Segment} {packet : Packet} {position : Nat}
    (wired : Wired cluster system)
    (present : (system.up rank)[position]? = some (segment, packet)) :
    segment.request ∈ (system.hosts rank).qp.sends := by
  have sent : segment ∈ (system.up rank).map Prod.fst :=
    List.mem_map_of_mem (List.mem_of_getElem? present)
  obtain ⟨wr, posted, part⟩ :=
    List.mem_flatMap.mp ((wired.sent rank).subset sent)
  obtain ⟨-, -, rfl⟩ := List.mem_map.mp part
  exact posted

end System

end Inviting

namespace Posted

variable {cluster : Cluster} {system next : System} {rank number k : Nat}
  {call : Call} {segment : Segment} {packet : Packet}

/-- A rank whose packet has been accepted, or is about to be, has posted its
receives. -/
theorem expects_of_posted (posted : Posted cluster system)
    (bound : rank < cluster.hosts)
    (current : cluster.program[number]? = some call)
    (sends : call.collective.sends rank = true)
    (receives : call.collective.receives rank = true)
    (inCall : k < 4 * call.messageNum)
    (missing : ¬system.Passed cluster number call k)
    (reached : (cluster.job rank).base number + 1 + k <
      (segments (system.hosts rank).qp.sends).length) :
    (system.hosts rank).Expects number (k / 4) := by
  rcases (posted.wired.hosts rank).call_of_posted current sends reached with
    before | ⟨rfl, stages, running, inside, few⟩
  · exact absurd ((posted.awaited rank bound).past number call before current
      receives k inCall) missing
  · have all := ((inside.sendNum_le sends).2.2 receives).2 (by omega)
    exact ⟨rfl, by rw [running]; rfl, by omega⟩

theorem emits_of_full (posted : Posted cluster system)
    (inTurn : system.InTurn cluster rank number k call packet)
    (aggregates : call.collective.aggregates = true)
    (aligned : ∀ other < cluster.hosts,
      (cluster.job other).base number = (cluster.job rank).base number)
    (sent : system.switch.aggEpsn rank < (system.up rank).length)
    (free : SlotFree cluster.hosts cluster.Aggregated system.switch
      (system.switch.aggEpsn rank))
    (full : (system.switch.psnStates
      (idx (system.switch.aggEpsn rank))).degree + 1 = cluster.hosts) :
    system.Emits cluster rank number k call packet := by
  have place := inTurn.place
  have member := inTurn.aggregated aggregates aligned
  have last := (posted.slots.complete_iff inTurn.bound member free).mp full
  refine ⟨inTurn, fun other bound _ different => ?_, ?_⟩
  · rw [aligned other bound, ← place]
    exact last other bound different
  · intro other bound receives
    apply posted.expects_of_posted bound inTurn.current
      (Collective.sends_of_aggregates aggregates other) receives inTurn.inCall
      inTurn.not_passed
    rw [aligned other bound, ← place]
    by_cases own : other = rank
    · subst own
      exact sent.trans_le (posted.wired.sent_le other)
    · exact (last other bound own).trans_le
        (posted.wired.aggEpsn_le_posted bound)

/-- A Broadcast leaves as soon as it reaches the switch, and has been posted
after its receives. -/
theorem emits_of_broadcast (posted : Posted cluster system)
    (inTurn : system.InTurn cluster rank number k call packet)
    (collective : call.collective = .broadcast rank)
    (request : (Job.dataSegment number k).request ∈
      (system.hosts rank).qp.sends) :
    system.Emits cluster rank number k call packet := by
  refine ⟨inTurn, fun other bound sends different => ?_, ?_⟩
  · rw [collective] at sends
    exact absurd (of_decide_eq_true sends) different
  · intro other bound receives
    have apart : other ≠ rank := by
      rw [collective] at receives
      exact of_decide_eq_true receives
    have direct : call.collective.aggregates = false := by
      rw [collective]
      rfl
    rcases posted.invited rank inTurn.bound _ request rfl call inTurn.current
      direct other bound apart with before | expects
    · exact absurd ((posted.awaited other bound).past number call before
        inTurn.current receives k inTurn.inCall) inTurn.not_passed
    · exact expects

theorem fitted_control {psn : Nat} (posted : Posted cluster system)
    (bound : rank < cluster.hosts)
    (current : cluster.program[number]? = some call)
    (sends : call.collective.sends rank = true)
    (place : system.switch.aggEpsn rank = (cluster.job rank).base number) :
    system.Fitted cluster rank segment
      (system.switch.afterControl call.collective rank psn)
      [acknowledgement rank psn] := by
  refine .quiet rfl rfl (posted.slots.skip ?_ rfl rfl) ?_
  · rw [place]
    exact Cluster.not_aggregated_control bound current sends
  · intro own ownCall k ownCurrent inOwn
    apply System.passed_advance_of_ne rfl
    intro ownSends
    rw [place]
    apply Cluster.position_ne ownCurrent ownSends inOwn current sends
      ⟨le_rfl, by omega⟩
    rintro rfl
    omega

theorem fitted_incomplete {operation : Collective} (posted : Posted cluster system)
    (inTurn : system.InTurn cluster rank number k call packet)
    (member : cluster.Aggregated (system.switch.aggEpsn rank))
    (aligned : ∀ other < cluster.hosts,
      (cluster.job other).base number = (cluster.job rank).base number)
    (sends : ∀ other, call.collective.sends other = true)
    (free : SlotFree cluster.hosts cluster.Aggregated system.switch
      (system.switch.aggEpsn rank))
    (incomplete : (system.switch.psnStates
      (idx (system.switch.aggEpsn rank))).degree + 1 ≠ cluster.hosts) :
    system.Fitted cluster rank segment
      (system.switch.afterContribution operation rank packet)
      [acknowledgement rank packet.psn] := by
  refine .quiet rfl rfl (posted.slots.contribute inTurn.bound inTurn.expected
    member free incomplete) ?_
  intro own ownCall j ownCurrent inOwn
  by_cases same : own = number ∧ j = k
  · obtain ⟨rfl, rfl⟩ := same
    obtain rfl := Option.some.inj (inTurn.current.symm.trans ownCurrent)
    rw [ne_eq, posted.slots.complete_iff inTurn.bound member free] at incomplete
    push Not at incomplete
    obtain ⟨other, bound, different, owed⟩ := incomplete
    refine iff_of_false (fun passed => ?_) inTurn.not_passed
    have reached : (cluster.job other).base own + 1 + j <
        advance system.switch.aggEpsn rank other :=
      passed other bound (sends other)
    rw [advance_of_ne different, aligned other bound, ← inTurn.place] at reached
    omega
  · exact inTurn.passed_iff rfl ownCurrent inOwn
      fun here there => same ⟨here, there⟩

theorem fitted_data {after : SwitchContext} {frames : List Frame}
    (posted : Posted cluster system) (plain : packet.Plain)
    (turn : packet.psn = system.switch.aggEpsn rank →
      system.InTurn cluster rank number k call packet)
    (sent : system.switch.aggEpsn rank < (system.up rank).length)
    (request : (Job.dataSegment number k).request ∈
      (system.hosts rank).qp.sends)
    (prepared : system.Drops rank ∨
      system.Fits cluster rank (Job.dataSegment number k) call)
    (outcome : Outcome cluster.addressing cluster.hosts rank system.switch
      packet after frames) :
    system.Fitted cluster rank (Job.dataSegment number k) after frames := by
  cases outcome with
  | control admissible announces =>
      exact Bool.noConfusion (announces.control.symm.trans plain.not_control)
  | unmoved _ reason silent =>
      exact .quiet silent rfl posted.slots fun _ _ _ _ _ => Iff.rfl
  | broadcast _ expected inForce =>
      have fits := prepared.resolve_left
        (System.not_drops inForce (.inr rfl))
      have collective :=
        Collective.metadata_injective (fits.inForce.symm.trans inForce)
      have inTurn := turn expected
      have direct : call.collective.aggregates = false := by
        rw [collective]
        rfl
      refine .emits rfl (posted.emits_of_broadcast inTurn collective request)
        rfl ?_ (posted.slots.skip ?_ rfl rfl) ⟨packet.data, ?_⟩
      · rw [collective]
        rfl
      · rw [inTurn.place]
        exact Cluster.not_aggregated_broadcast inTurn.bound inTurn.current
          inTurn.sends inTurn.inCall direct
      · rw [Aggregating.dataFrames_cons_acknowledgement,
          Aggregating.dataFrames_resultFrames,
          stripImmediateOpcode_of_plain plain, inTurn.dataLen,
          inTurn.opcode, collective]
  | incomplete _ expected valid aggregates inForce notFull =>
      have fits := prepared.resolve_left
        (System.not_drops inForce (.inl aggregates))
      obtain rfl :=
        Collective.metadata_injective (fits.inForce.symm.trans inForce)
      have inTurn := turn expected
      rw [expected] at notFull
      exact posted.fitted_incomplete inTurn
        (inTurn.aggregated aggregates (fits.aligned aggregates))
        (fits.aligned aggregates) (Collective.sends_of_aggregates aggregates)
        (slotFree_of_slot posted.slots (fits.slot aggregates)) notFull
  | complete _ expected valid aggregates inForce full completed =>
      have fits := prepared.resolve_left
        (System.not_drops inForce (.inl aggregates))
      obtain rfl :=
        Collective.metadata_injective (fits.inForce.symm.trans inForce)
      have inTurn := turn expected
      have aligned := fits.aligned aggregates
      have free := slotFree_of_slot posted.slots (fits.slot aggregates)
      rw [expected] at full completed
      refine .emits rfl (posted.emits_of_full inTurn aggregates aligned sent
        free full) completed.aggEpsn completed.sendPsn
        (posted.slots.complete inTurn.bound
          (inTurn.aggregated aggregates aligned) free full completed)
        ⟨(system.switch.contribution call.collective rank
          packet).aggBuffer.buffer, ?_⟩
      rw [Aggregating.dataFrames_cons_acknowledgement,
        Aggregating.dataFrames_resultFrames,
        stripImmediateOpcode_of_plain plain, inTurn.dataLen, inTurn.opcode]

theorem feed {accepted : Nat → Nat} (posted : Posted cluster system)
    (fitted : system.Fitted cluster rank segment
      (packetHandler system.switch rank packet).1
      (packetHandler system.switch rank packet).2)
    (wired : Wired cluster
      { system.feedSwitch rank packet with accepted := accepted }) :
    Posted cluster
      { system.feedSwitch rank packet with accepted := accepted } := by
  have taking (other : Nat) (bound : other < cluster.hosts) :
      System.Taking
        { system.feedSwitch rank packet with accepted := accepted } other :=
    (posted.awaited other bound).toTaking.congr rfl (List.prefix_append _ _)
      rfl rfl
  have down := system.dataFrames_feedSwitch rank packet
  cases fitted with
  | quiet silent sendPsn slots passed =>
      refine ⟨wired, slots, fun other bound => ?_, posted.invited⟩
      have same := down other
      rw [silent, List.filter_nil, List.append_nil] at same
      exact (posted.awaited other bound).congr ⟨rfl, rfl, rfl⟩
        (taking other bound) same (congrFun sendPsn other)
        fun number call k current _ inCall =>
          passed number call k current inCall
  | @emits number k call _ data emits aggEpsn sendPsn slots sent =>
      refine ⟨wired, slots, fun other bound => ?_, posted.invited⟩
      have awaited := posted.awaited other bound
      have valid := Cluster.valid_of_call emits.current
      obtain ⟨words, frames⟩ := sent
      have frame := down other
      have counted := congrFun sendPsn other
      rw [frames, SwitchContext.resultFrames_to
        (Collective.targets_nodup _ _)] at frame
      simp only [SwitchContext.afterSending] at counted
      cases receives : call.collective.receives other with
      | true =>
          have member := (Collective.mem_targets_iff valid).mpr
            ⟨bound, receives⟩
          rw [if_pos member] at frame counted
          exact awaited.emit emits bound receives aggEpsn rfl
            (taking other bound) frame rfl
            (Job.endsMessage_iff rfl) counted
      | false =>
          have absent : other ∉ call.collective.targets cluster.hosts := by
            rw [Collective.mem_targets_iff valid, receives]
            exact fun both => Bool.false_ne_true both.2
          rw [if_neg absent, List.append_nil] at frame
          rw [if_neg absent, Nat.add_zero] at counted
          refine awaited.congr ⟨rfl, rfl, rfl⟩ (taking other bound) frame
            counted fun own ownCall j ownCurrent ownReceives inOwn => ?_
          apply emits.passed_iff aggEpsn ownCurrent inOwn
          rintro rfl
          obtain rfl := Option.some.inj (ownCurrent.symm.trans emits.current)
          rw [receives] at ownReceives
          cases ownReceives

theorem fitted (posted : Posted cluster system) (bound : rank < cluster.hosts)
    (present : (system.up rank)[system.accepted rank]? =
      some (segment, packet))
    (prepared : system.Prepared cluster (.handle rank)) :
    system.Fitted cluster rank segment
      (packetHandler system.switch rank packet).1
      (packetHandler system.switch rank packet).2 := by
  have arriving := posted.wired.arriving bound present
  have outcome := posted.wired.outcome bound arriving
  have sent := (List.getElem?_eq_some_iff.mp present).1
  rw [posted.wired.accepted rank bound] at sent
  cases arriving with
  | control current sends place =>
      have admissible := Cluster.admissible_of_call current sends
      rw [packetHandler_control posted.wired.deployed.toRouted bound
        Addressing.controlPacket_from admissible
        (Addressing.controlPacket_announces posted.wired.deployed.fits bound
          admissible)]
      exact posted.fitted_control bound current sends place
  | data current sends inCall place =>
      exact posted.fitted_data
        (Addressing.dataPacket_plain (Job.dataOpcode_plain _))
        (fun expected => ⟨bound, current, sends, inCall, place, ⟨_, rfl⟩,
          expected, _, present⟩)
        sent (System.request_of_up posted.wired present)
        (prepared _ (System.expected_data current sends inCall place) rfl _
          current)
        outcome

theorem buffered_handle (posted : Posted cluster system)
    (bound : rank < cluster.hosts)
    (prepared : system.Prepared cluster (.handle rank)) :
    system.Buffered (.handle rank) := by
  rintro ⟨segment, packet⟩ present frame member
  cases posted.fitted bound present prepared with
  | quiet silent =>
      rw [silent] at member
      cases member
  | @emits number k call _ data emits aggEpsn sendPsn slots sent =>
      subst data
      obtain ⟨words, frames⟩ := sent
      rw [frames] at member
      obtain ⟨other, target, rfl⟩ := List.mem_map.mp member
      obtain ⟨otherBound, receives⟩ := (Collective.mem_targets_iff
        (Cluster.valid_of_call emits.current)).mp target
      have expects := emits.expects other otherBound receives
      have place := emits.sendPsn_eq (posted.awaited other otherBound)
        otherBound receives
      obtain ⟨-, found⟩ := expects.receive (posted.wired.hosts other)
        emits.current receives
      have message : system.switch.sendPsn other / 4 =
          ((cluster.job other).receivesBefore number).length + k / 4 := by
        omega
      rw [← message] at found
      exact ⟨expects, _, found, rfl, rfl⟩

theorem buffered {event : System.Event} (posted : Posted cluster system)
    (prepared : system.Prepared cluster event)
    (moved : System.Moved cluster system event next) :
    system.Buffered event := by
  cases moved with
  | refused bound => exact posted.buffered_handle bound prepared
  | handled bound => exact posted.buffered_handle bound prepared
  | acknowledge bound origin opcode =>
      obtain ⟨-, silent⟩ := posted.wired.acknowledge bound origin opcode
      rw [System.Buffered, silent]
      rfl
  | host => trivial
  | transmit => trivial
  | sendCompletes => trivial
  | deliver => trivial

theorem setHost {host : Host} {action : Host.Action}
    (posted : Posted cluster system)
    (acted : (system.hosts rank).act (cluster.job rank) action = some host)
    (awaited : rank < cluster.hosts →
      (system.setHost rank host).Awaited cluster rank)
    (invited : (system.setHost rank host).Invited cluster) :
    Posted cluster (system.setHost rank host) where
  wired := posted.wired.setHost acted
  slots := posted.slots
  awaited := by
    intro other bound
    by_cases own : other = rank
    · subst own
      exact awaited bound
    · have before := posted.awaited other bound
      have apart : (system.setHost rank host).hosts other =
          system.hosts other := Function.update_of_ne own ..
      exact before.congr (by rw [apart]; exact ⟨rfl, rfl, rfl⟩)
        (before.toTaking.congr (by rw [apart]) List.prefix_rfl rfl rfl) rfl rfl
        fun _ _ _ _ _ _ => Iff.rfl
  invited := invited

theorem sendCompletes {host : Host} (posted : Posted cluster system)
    (acted : (system.hosts rank).act (cluster.job rank) .sendCompletes =
      some host) :
    Posted cluster (system.setHost rank host) := by
  refine posted.setHost acted (fun bound => ?_)
    (posted.invited.sendCompletes acted)
  have before := posted.awaited rank bound
  obtain ⟨qp, completes, rfl⟩ := Option.map_eq_some_iff.mp acted
  obtain ⟨wr, -, rfl⟩ := Option.map_eq_some_iff.mp completes
  exact before.congr (by rw [System.setHost_self]; exact ⟨rfl, rfl, rfl⟩)
    (before.toTaking.congr (by rw [System.setHost_self]) List.prefix_rfl rfl
      rfl) rfl rfl
    fun _ _ _ _ _ _ => Iff.rfl

theorem deliver {frame : Frame} (posted : Posted cluster system)
    (bound : rank < cluster.hosts)
    (present : (system.down rank)[system.delivered rank]? = some frame)
    (received : System.Received cluster system rank frame next) :
    Posted cluster
      { next with
        delivered := Function.update system.delivered rank
          (system.delivered rank + 1) } := by
  have wired := posted.wired.move (.deliver bound present received)
  obtain ⟨switch, -, down, others⟩ := received.apart
  have requests := fun other => (received.requests other).1
  refine ⟨wired, ?_, ?_, posted.invited.congr
    (fun other => (requests other).sends) (fun other => (requests other).calls)
    (fun other => (requests other).stages)
    fun other => (requests other).locals⟩
  · dsimp only
    rw [switch]
    exact posted.slots
  · intro other otherBound
    by_cases own : other = rank
    · subst own
      exact (posted.awaited other otherBound).deliver
        (posted.wired.hosts other) present received
    · have before := posted.awaited other otherBound
      obtain ⟨host, taken, -⟩ := others other own
      refine before.congr ?_ (before.toTaking.congr ?_ ?_ ?_ taken) ?_ ?_ ?_
      · dsimp only
        rw [host]
        exact ⟨rfl, rfl, rfl⟩
      · dsimp only
        rw [host]
      · dsimp only
        rw [down]
      · exact Function.update_of_ne own ..
      · dsimp only
        rw [down]
      · dsimp only
        rw [switch]
      · intro number call k _ _ _
        apply System.passed_congr
        dsimp only
        rw [switch]

theorem step {event : System.Event} (posted : Posted cluster system)
    (prepared : system.Prepared cluster event)
    (stepped : System.step cluster system event = some next) :
    Posted cluster next := by
  have moved := System.moved_of_step stepped
  have wired := posted.wired.move moved
  cases moved with
  | host bound acted =>
      exact posted.setHost acted
        (fun bound => (posted.awaited _ bound).host (posted.wired.hosts _) acted)
        (posted.invited.host posted.wired prepared acted)
  | transmit bound present =>
      refine ⟨wired, posted.slots, fun other otherBound => ?_, posted.invited⟩
      have before := posted.awaited other otherBound
      exact before.congr ⟨rfl, rfl, rfl⟩
        (before.toTaking.congr rfl List.prefix_rfl rfl rfl) rfl rfl
        fun _ _ _ _ _ _ => Iff.rfl
  | refused bound present stays =>
      exact posted.feed (posted.fitted bound present prepared) wired
  | handled bound present moves =>
      exact posted.feed (posted.fitted bound present prepared) wired
  | sendCompletes bound accepted acted => exact posted.sendCompletes acted
  | @acknowledge rank packet bound origin opcode =>
      obtain ⟨same, silent⟩ := posted.wired.acknowledge bound origin opcode
      have fitted : system.Fitted cluster rank ⟨Job.dataWr 0 0, 0⟩
          (packetHandler system.switch rank packet).1
          (packetHandler system.switch rank packet).2 :=
        .quiet (by rw [silent]; rfl) same.sendPsn
          (posted.slots.congr same.aggEpsn same.degree same.arrival
            same.aggBuffer)
          fun number call k _ _ => System.passed_congr same.aggEpsn
      exact posted.feed fitted wired
  | deliver bound present received =>
      exact posted.deliver bound present received

theorem init {ctx : SwitchContext} (fresh : cluster.Fresh ctx) :
    Posted cluster (.init ctx) := by
  have aggEpsn := fresh.ready.aggEpsn
  refine ⟨.init fresh, ⟨?_, fun index _ => fresh.ready.idle index⟩,
    fun rank bound => ?_, by rintro root - wr member; cases member⟩
  · rintro psn - ⟨⟨fast, fastBound, passed⟩, -⟩
    have zero : (System.init ctx).switch.aggEpsn fast = 0 :=
      aggEpsn fast fastBound
    omega
  · have none (number : Nat) (call : Call) (k : Nat)
        (current : cluster.program[number]? = some call) :
        ¬(System.init ctx).Passed cluster number call k := by
      obtain ⟨sender, senderBound, sends⟩ :=
        Collective.exists_sender bound (Cluster.valid_of_call current)
      intro passed
      have reached := passed sender senderBound sends
      have zero : (System.init ctx).switch.aggEpsn sender = 0 :=
        aggEpsn sender senderBound
      omega
    refine ⟨⟨le_rfl, rfl, (Nat.zero_div 4).symm⟩, ?_, ?_, ?_, ?_, ?_, ?_⟩
    · intro position frame found
      cases found
    · exact (fresh.sendPsn rank).symm
    · intro number call before
      cases before
    · intro stages call running
      cases running
    · exact fun _ => fresh.sendPsn rank
    · intro number call current receives k inCall passed
      exact absurd passed (none number call k current)

end Posted

/-- Whatever the order of steps, every message finds its receive posted while
the roots of Broadcasts wait for their receivers and every data packet fits. -/
theorem buffered_of_prepared (cluster : Cluster) (ctx : SwitchContext)
    (fresh : cluster.Fresh ctx) (events : List System.Event)
    (system : System)
    (taken : run (System.step cluster) (.init ctx) events = some system)
    (prepared : Meets (System.step cluster)
      (fun state event => state.Prepared cluster event) (.init ctx) events) :
    Meets (System.step cluster) (fun state event => state.Buffered event)
      (.init ctx) events :=
  Meets.derive (Posted cluster)
    (fun _ _ _ posted fits stepped => posted.step fits stepped)
    (fun _ _ _ posted fits stepped =>
      posted.buffered fits (System.moved_of_step stepped))
    (Posted.init fresh) prepared taken

/-- A rank announces its call. -/
def controlOf (rank : Nat) : List System.Event :=
  List.replicate 2 (.host rank) ++
    [.transmit rank, .handle rank, .sendCompletes rank]

/-- The message of a rank goes up. -/
def uploadOf (rank : Nat) : List System.Event :=
  List.replicate 4 (.transmit rank) ++ List.replicate 4 (.handle rank) ++
    [.sendCompletes rank]

/-- A Broadcast of one word by rank 0. -/
def oneBroadcast : Cluster := .pair [⟨.broadcast 0, 1⟩] (by decide)

/-- Rank 0 announces the Broadcast and sends its message. -/
def broadcastRun : List System.Event :=
  List.flatten
    [List.replicate 2 (.host 0), [.transmit 0, .handle 0, .sendCompletes 0],
      List.replicate 6 (.host 0), List.replicate 4 (.transmit 0),
      List.replicate 4 (.handle 0)]

/-- Rank 1 has posted its receive before. -/
def awaitedRun : List System.Event :=
  List.replicate 2 (.host 1) ++ broadcastRun ++
    List.replicate 4 (.deliver 1)

theorem buffered_of_prepared_awaitedRun :
    ∃ system, run (System.step oneBroadcast) (.init twoHosts.context)
        awaitedRun = some system ∧
      Meets (System.step oneBroadcast)
        (fun state event => state.Buffered event)
        (.init twoHosts.context) awaitedRun := by
  have taken : (run (System.step oneBroadcast) (.init twoHosts.context)
      awaitedRun).isSome = true := by
    decide +kernel
  obtain ⟨system, ran⟩ := Option.isSome_iff_exists.mp taken
  exact ⟨system, ran, buffered_of_prepared oneBroadcast twoHosts.context
    Cluster.pair_fresh awaitedRun system ran (by decide +kernel)⟩

/-- The data of a Broadcast reaches a rank that has not entered the call. -/
theorem not_buffered_broadcastRun :
    ¬∀ (cluster : Cluster) (ctx : SwitchContext) (events : List System.Event)
      (system : System), cluster.Fresh ctx →
      run (System.step cluster) (.init ctx) events = some system →
        Meets (System.step cluster) (fun state event => state.Buffered event)
          (.init ctx) events := by
  intro always
  have taken : (run (System.step oneBroadcast) (.init twoHosts.context)
      broadcastRun).isSome = true := by
    decide +kernel
  obtain ⟨system, ran⟩ := Option.isSome_iff_exists.mp taken
  have buffered := always oneBroadcast twoHosts.context broadcastRun system
    Cluster.pair_fresh ran
  revert buffered
  decide +kernel

end IncEmulation
