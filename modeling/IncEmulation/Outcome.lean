import IncEmulation.Aggregation
import IncEmulation.HandlerFrame
import IncEmulation.Stream

/-!
# What becomes of a packet

A packet from the NIC of a rank is a control message, stays where it is, is
passed on to the other ranks, or is added to its slot, which it may complete.
-/

namespace IncEmulation

open Gather

theorem Segment.packet_psn (segment : Segment) (addressing : Addressing)
    (conn psn : Nat) (memory : Nat → Word) :
    (segment.packet addressing conn psn memory).psn = psn % 2 ^ 24 := by
  rw [Packet.psn_of_apsn rfl, Nat.mod_mod]

namespace Job

variable {job : Job} {number k : Nat} {call : Call}

theorem packet_controlSegment (addressing : Addressing) (conn psn : Nat)
    (memory : Nat → Word) :
    (job.controlSegment number call).packet addressing conn psn memory =
      addressing.controlPacket conn psn call.collective
        (memory (job.payloadBufSize - 1)) := by
  simp [Segment.packet, controlSegment, controlWr, Segment.immediate,
    Segment.isLast, SendWr.parts, mtuWords, Segment.wordCount,
    Segment.words, Segment.address, Segment.opcode, Addressing.controlPacket]

/-- The opcode of the packets of a data message. -/
def dataOpcode (k : Nat) : Opcode := (dataSegment 0 k).plainOpcode

/-- The words of packet `k` of the data of a call. -/
def dataWords (memory : Nat → Word) (k : Nat) : List Word :=
  (List.range mtuWords).map fun index => memory (k * mtuWords + index)

theorem dataOpcode_plain (k : Nat) : Addressing.IsPlainOpcode (dataOpcode k) := by
  unfold dataOpcode Segment.plainOpcode Addressing.IsPlainOpcode
  split_ifs <;> simp

theorem packet_dataSegment (addressing : Addressing) (conn psn : Nat)
    (memory : Nat → Word) :
    (dataSegment number k).packet addressing conn psn memory =
      addressing.dataPacket conn psn (dataOpcode k) (dataWords memory k) := by
  have part : k % 4 < 4 := Nat.mod_lt k (by decide)
  have count : (dataSegment number k).wordCount = mtuWords := by
    simp only [Segment.wordCount, dataSegment, dataWr, payloadCount, mtuWords]
    omega
  have address : (dataSegment number k).address = k * mtuWords := by
    simp only [Segment.address, dataSegment, dataWr, payloadCount, mtuWords]
    omega
  have none : (dataSegment number k).request.immData = none := rfl
  have same : (dataSegment number k).plainOpcode = dataOpcode k := rfl
  simp only [Segment.packet, Segment.immediate, Segment.opcode, none,
    Option.map_none, Option.toList_none, ite_self, Option.isSome_none,
    Bool.false_eq_true, false_and, if_false, same, count, Segment.words,
    address, List.length_nil, Nat.mul_zero, Nat.add_zero, List.nil_append,
    Addressing.dataPacket, dataWords, List.length_map, List.length_range]

end Job

/-- What the switch makes of a packet. -/
inductive Outcome (addressing : Addressing) (hosts conn : Nat)
    (ctx : SwitchContext) (packet : Packet) :
    SwitchContext → List Frame → Prop where
  | control {operation : Collective}
      (admissible : operation.Admissible hosts conn)
      (announces : packet.Announces operation) :
      Outcome addressing hosts conn ctx packet
        (ctx.afterControl operation conn packet.psn)
        [acknowledgement conn packet.psn]
  /-- A packet out of turn, or under the broadcast of another rank. -/
  | unmoved {frames : List Frame} (plain : packet.Plain)
      (reason : packet.psn ≠ ctx.aggEpsn conn ∨
        ∃ root, root ≠ conn ∧ ctx.InForce (.broadcast root))
      (quiet : dataFrames frames = []) :
      Outcome addressing hosts conn ctx packet ctx frames
  | broadcast (plain : packet.Plain) (expected : packet.psn = ctx.aggEpsn conn)
      (inForce : ctx.InForce (.broadcast conn)) :
      Outcome addressing hosts conn ctx packet
        ((ctx.bumpAggEpsn conn).afterSending
          ((Collective.broadcast conn).targets hosts))
        (acknowledgement conn packet.psn ::
          ctx.resultFrames packet.data packet.dataLen
            (stripImmediateOpcode packet.opcode)
            ((Collective.broadcast conn).targets hosts))
  | incomplete {operation : Collective} (plain : packet.Plain)
      (expected : packet.psn = ctx.aggEpsn conn)
      (valid : operation.Valid hosts)
      (aggregates : operation.aggregates = true)
      (inForce : ctx.InForce operation)
      (notFull : (ctx.psnStates (idx packet.psn)).degree + 1 ≠ hosts) :
      Outcome addressing hosts conn ctx packet
        (ctx.afterContribution operation conn packet)
        [acknowledgement conn packet.psn]
  | complete {operation : Collective} {after : SwitchContext}
      (plain : packet.Plain) (expected : packet.psn = ctx.aggEpsn conn)
      (valid : operation.Valid hosts)
      (aggregates : operation.aggregates = true)
      (inForce : ctx.InForce operation)
      (full : (ctx.psnStates (idx packet.psn)).degree + 1 = hosts)
      (completed : ctx.Completed after conn (idx packet.psn)
        (operation.targets hosts)) :
      Outcome addressing hosts conn ctx packet after
        (acknowledgement conn packet.psn ::
          ctx.resultFrames
            (ctx.contribution operation conn packet).aggBuffer.buffer
            packet.dataLen (stripImmediateOpcode packet.opcode)
            (operation.targets hosts))

variable {addressing : Addressing} {hosts conn : Nat} {ctx : SwitchContext}
  {packet : Packet} {operation : Collective}

theorem outcome_control (deployed : Deployed addressing hosts ctx)
    (bound : conn < hosts) (origin : packet.From addressing conn)
    (admissible : operation.Admissible hosts conn)
    (announces : packet.Announces operation) :
    Outcome addressing hosts conn ctx packet
      (packetHandler ctx conn packet).1 (packetHandler ctx conn packet).2 := by
  rw [packetHandler_control deployed.toRouted bound origin admissible
    announces]
  exact .control admissible announces

theorem outcome_data (deployed : Deployed addressing hosts ctx)
    (bound : conn < hosts) (origin : packet.From addressing conn)
    (valid : operation.Valid hosts) (inForce : ctx.InForce operation)
    (plain : packet.Plain) :
    Outcome addressing hosts conn ctx packet
      (packetHandler ctx conn packet).1 (packetHandler ctx conn packet).2 := by
  by_cases expected : packet.psn = ctx.aggEpsn conn
  · by_cases aggregates : operation.aggregates = true
    · have admissible :=
        Collective.admissible_of_aggregates aggregates valid conn
      by_cases full : (ctx.psnStates (idx packet.psn)).degree + 1 = hosts
      · obtain ⟨completed, frames⟩ := packetHandler_complete deployed bound
          origin admissible aggregates inForce plain expected full
        rw [frames]
        exact .complete plain expected valid aggregates inForce full completed
      · rw [packetHandler_incomplete deployed.toRouted bound origin admissible
          aggregates inForce plain expected full]
        exact .incomplete plain expected valid aggregates inForce full
    · obtain ⟨root, rfl⟩ : ∃ root, operation = .broadcast root := by
        cases operation with
        | allreduce => exact absurd rfl aggregates
        | reduce root => exact absurd rfl aggregates
        | broadcast root => exact ⟨root, rfl⟩
      by_cases own : root = conn
      · subst own
        rw [packetHandler_broadcast deployed.toRouted bound origin inForce
          plain expected]
        exact .broadcast plain expected inForce
      · rw [packetHandler_dropped deployed.toRouted bound origin own inForce
          plain]
        exact .unmoved plain (.inr ⟨root, own, inForce⟩) rfl
  · obtain ⟨same, quiet⟩ := packetHandler_stray deployed bound origin valid
      inForce plain expected
    rw [same]
    exact .unmoved plain (.inl expected) quiet

/-- A packet that does not move its receive PSN changes nothing. -/
theorem Outcome.eq_of_stays {after : SwitchContext} {frames : List Frame}
    (outcome : Outcome addressing hosts conn ctx packet after frames)
    (stays : after.aggEpsn conn = ctx.aggEpsn conn) :
    after = ctx ∧ dataFrames frames = [] ∧
      (packet.psn ≠ ctx.aggEpsn conn ∨
        ∃ root, root ≠ conn ∧ ctx.InForce (.broadcast root)) := by
  have moved (same : after.aggEpsn = advance ctx.aggEpsn conn) : False := by
    rw [same, advance_self] at stays
    omega
  cases outcome with
  | unmoved plain reason quiet => exact ⟨rfl, quiet, reason⟩
  | control => exact (moved rfl).elim
  | broadcast => exact (moved rfl).elim
  | incomplete => exact (moved rfl).elim
  | complete plain expected valid aggregates inForce full completed =>
      exact (moved completed.aggEpsn).elim

end IncEmulation
