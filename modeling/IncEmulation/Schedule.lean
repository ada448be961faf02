import IncEmulation.Slots
import Mathlib.Data.BitVec

/-!
# What a schedule of contributions makes the switch send

A `Schedule` says, for every PSN, whether all connections carry aggregated data
under it, for which operation, of which length and with which opcode, and what
each of them contributes.  `Aggregating` is the invariant of a switch that is
working through a schedule: the frames it has sent are the results up to the
slowest connection, in order, each once.
-/

namespace IncEmulation

open Gather

structure Schedule where
  aggregated : Nat → Bool
  operation : Nat → Collective
  length : Nat → Nat
  opcode : Nat → Opcode
  /-- Word `index` of what `conn` contributes under `psn`, in host order. -/
  value (conn psn index : Nat) : Word

def dataFrames (frames : List Frame) : List Frame :=
  frames.filter fun frame => frame.type = .data

namespace Schedule

variable (schedule : Schedule) (hosts : Nat) (first : Nat → Nat)

def IsAggregated (psn : Nat) : Prop := schedule.aggregated psn = true

/-- The words of the result, as they lie on the wire. -/
def sum (psn : Nat) : List Word :=
  (List.range (schedule.length psn)).map fun index =>
    htonl (∑ conn ∈ Finset.range hosts, schedule.value conn psn index)

/-- The send PSN of `conn` once everything before `frontier` is complete. -/
def sendPsn (conn frontier : Nat) : Nat :=
  first conn + (List.range frontier).countP fun psn =>
    schedule.aggregated psn ∧ conn ∈ (schedule.operation psn).targets hosts

def resultsAt (psn : Nat) : List Frame :=
  if schedule.aggregated psn then
    ((schedule.operation psn).targets hosts).map fun conn =>
      { conn := conn
        type := .data
        data := schedule.sum hosts psn
        psn := schedule.sendPsn hosts first conn psn
        packetType := schedule.opcode psn }
  else []

/-- Everything sent once all connections have passed `frontier`. -/
def results (frontier : Nat) : List Frame :=
  (List.range frontier).flatMap (schedule.resultsAt hosts first)

variable {schedule hosts first}

theorem results_succ (psn : Nat) :
    schedule.results hosts first (psn + 1) =
      schedule.results hosts first psn ++
        schedule.resultsAt hosts first psn := by
  simp [results, List.range_succ]

theorem sendPsn_succ (conn psn : Nat) :
    schedule.sendPsn hosts first conn (psn + 1) =
      schedule.sendPsn hosts first conn psn +
        if schedule.aggregated psn ∧
            conn ∈ (schedule.operation psn).targets hosts then 1 else 0 := by
  simp only [sendPsn, List.range_succ, List.countP_append,
    List.countP_singleton, Nat.add_assoc, decide_eq_true_eq]

theorem resultsAt_of_not_aggregated {psn : Nat}
    (notAggregated : ¬schedule.IsAggregated psn) :
    schedule.resultsAt hosts first psn = [] := by
  have absent : schedule.aggregated psn = false := by
    simpa [IsAggregated] using notAggregated
  simp [resultsAt, absent]

end Schedule

/-- A packet that contributes what the schedule says under its PSN. -/
structure Schedule.Carries (schedule : Schedule) (conn psn : Nat)
    (packet : Packet) : Prop where
  plain : packet.Plain
  psn_eq : packet.psn = psn
  opcode : packet.opcode = schedule.opcode psn
  dataLen : packet.dataLen = schedule.length psn
  data : ∀ index < schedule.length psn,
    packet.data index = htonl (schedule.value conn psn index)

theorem stripImmediateOpcode_of_plain {packet : Packet}
    (plain : packet.Plain) :
    stripImmediateOpcode packet.opcode = packet.opcode := by
  have noImmediate := plain.hasImmData
  simp only [Packet.hasImmData, decide_eq_false_iff_not, not_or] at noImmediate
  simp [stripImmediateOpcode, noImmediate.1, noImmediate.2]

structure Aggregating (addressing : Addressing) (hosts : Nat)
    (schedule : Schedule) (first : Nat → Nat) (frontier : Nat)
    (ctx : SwitchContext) : Prop where
  deployed : Deployed addressing hosts ctx
  slots : SlotsHold hosts schedule.IsAggregated ctx
  sums : SumsHold hosts schedule.IsAggregated schedule.length schedule.value ctx
  reached : Frontier hosts ctx.aggEpsn frontier
  sendPsn : ∀ conn, ctx.sendPsn conn = schedule.sendPsn hosts first conn frontier

namespace Aggregating

variable {addressing : Addressing} {hosts conn frontier : Nat}
  {schedule : Schedule} {first : Nat → Nat} {ctx after : SwitchContext}
  {packet : Packet}

theorem congr (aggregating :
      Aggregating addressing hosts schedule first frontier ctx)
    (same : ctx.Acknowledged after) :
    Aggregating addressing hosts schedule first frontier after where
  deployed := aggregating.deployed.congr same.configuration
  slots := aggregating.slots.congr same.aggEpsn same.degree same.arrival
    same.aggBuffer
  sums := aggregating.sums.congr same.aggEpsn same.aggBuffer
  reached := by
    rw [same.aggEpsn]
    exact aggregating.reached
  sendPsn := by
    rw [same.sendPsn]
    exact aggregating.sendPsn

theorem frontier_advance (aggregating :
      Aggregating addressing hosts schedule first frontier ctx)
    (bound : conn < hosts) :
    (Frontier hosts (advance ctx.aggEpsn conn) frontier ∧
        ∃ other < hosts, other ≠ conn ∧
          ctx.aggEpsn other ≤ ctx.aggEpsn conn) ∨
      (frontier = ctx.aggEpsn conn ∧
        Frontier hosts (advance ctx.aggEpsn conn) (frontier + 1) ∧
        ∀ other < hosts, other ≠ conn →
          ctx.aggEpsn conn < ctx.aggEpsn other) := by
  by_cases last : ∀ other < hosts, other ≠ conn →
      ctx.aggEpsn conn < ctx.aggEpsn other
  · have same := aggregating.reached.eq_of_last bound last
    refine Or.inr ⟨same, ?_, last⟩
    rw [same]
    exact Frontier.advance_of_last bound last
  · push Not at last
    obtain ⟨other, otherBound, different, owed⟩ := last
    exact Or.inl ⟨aggregating.reached.advance_of_owed otherBound different
      owed, other, otherBound, different, owed⟩

/-- A control message completes nothing. -/
theorem control {operation : Collective} (aggregating :
      Aggregating addressing hosts schedule first frontier ctx)
    (bound : conn < hosts)
    (notAggregated : ¬schedule.IsAggregated (ctx.aggEpsn conn)) (psn : Nat) :
    ∃ next, Aggregating addressing hosts schedule first next
        (ctx.afterControl operation conn psn) ∧
      schedule.results hosts first next =
        schedule.results hosts first frontier := by
  have slots : SlotsHold hosts schedule.IsAggregated
      (ctx.afterControl operation conn psn) :=
    aggregating.slots.skip notAggregated rfl rfl
  have sums : SumsHold hosts schedule.IsAggregated schedule.length
      schedule.value (ctx.afterControl operation conn psn) :=
    aggregating.sums.skip notAggregated rfl rfl
  have deployed : Deployed addressing hosts
      (ctx.afterControl operation conn psn) :=
    aggregating.deployed.congr ⟨rfl, rfl, rfl, rfl⟩
  rcases aggregating.frontier_advance bound with
    ⟨reached, -⟩ | ⟨same, reached, -⟩
  · exact ⟨frontier, ⟨deployed, slots, sums, reached, aggregating.sendPsn⟩,
      rfl⟩
  · have nothing : ¬schedule.IsAggregated frontier := same ▸ notAggregated
    refine ⟨frontier + 1, ⟨deployed, slots, sums, reached, ?_⟩, ?_⟩
    · intro other
      have absent : schedule.aggregated frontier = false := by
        simpa [Schedule.IsAggregated] using nothing
      simp only [Schedule.sendPsn_succ, absent, Bool.false_eq_true, false_and,
        if_false, Nat.add_zero]
      exact aggregating.sendPsn other
    · rw [Schedule.results_succ, Schedule.resultsAt_of_not_aggregated nothing,
        List.append_nil]

/-- The frames of a completed slot are the results of its PSN. -/
theorem resultFrames_eq (aggregating :
      Aggregating addressing hosts schedule first frontier ctx)
    (bound : conn < hosts) (free : SlotFree hosts schedule.IsAggregated ctx
      (ctx.aggEpsn conn))
    (member : schedule.IsAggregated (ctx.aggEpsn conn))
    (carries : schedule.Carries conn (ctx.aggEpsn conn) packet)
    (last : ∀ other < hosts, other ≠ conn →
      ctx.aggEpsn conn < ctx.aggEpsn other)
    (same : frontier = ctx.aggEpsn conn) :
    ctx.resultFrames
        (ctx.contribution (schedule.operation (ctx.aggEpsn conn)) conn
          packet).aggBuffer.buffer
        packet.dataLen (stripImmediateOpcode packet.opcode)
        ((schedule.operation (ctx.aggEpsn conn)).targets hosts) =
      schedule.resultsAt hosts first (ctx.aggEpsn conn) := by
  have present : schedule.aggregated (ctx.aggEpsn conn) = true := member
  have everyone :
      contributors hosts (advance ctx.aggEpsn conn) (ctx.aggEpsn conn) =
        Finset.range hosts := by
    apply contributors_eq_range
    intro other otherBound
    by_cases sameConn : other = conn
    · subst sameConn
      simp
    · rw [advance_of_ne sameConn]
      exact last other otherBound sameConn
  rw [stripImmediateOpcode_of_plain carries.plain]
  simp only [SwitchContext.resultFrames, Schedule.resultsAt, present, if_true]
  apply List.map_congr_left
  intro target _
  simp only [sendPacket, Frame.mk.injEq, true_and, carries.opcode,
    carries.dataLen, Int.toNat_natCast, and_true]
  refine ⟨?_, ?_⟩
  · rw [Schedule.sum]
    apply List.map_congr_left
    intro index inRange
    rw [aggregating.sums.contribution_buffer aggregating.slots bound
      carries.psn_eq member free carries.dataLen carries.data
      (List.mem_range.mp inRange), everyone]
  · rw [aggregating.sendPsn target, same]

theorem dataFrames_resultFrames (data : Nat → Word) (len : Int)
    (opcode : Opcode) (targets : List Nat) :
    dataFrames (ctx.resultFrames data len opcode targets) =
      ctx.resultFrames data len opcode targets := by
  apply List.filter_eq_self.mpr
  intro frame member
  obtain ⟨target, -, rfl⟩ := List.mem_map.mp member
  rfl

theorem dataFrames_cons_acknowledgement (psn : Nat) (frames : List Frame) :
    dataFrames (acknowledgement conn psn :: frames) = dataFrames frames := by
  simp [dataFrames, acknowledgement]

/-- A scheduled contribution is added; when it is the last one of its PSN the
result leaves the switch. -/
theorem accept (aggregating :
      Aggregating addressing hosts schedule first frontier ctx)
    (bound : conn < hosts) (origin : packet.From addressing conn)
    (member : schedule.IsAggregated (ctx.aggEpsn conn))
    (admissible :
      (schedule.operation (ctx.aggEpsn conn)).Admissible hosts conn)
    (aggregates : (schedule.operation (ctx.aggEpsn conn)).aggregates = true)
    (inForce : ctx.InForce (schedule.operation (ctx.aggEpsn conn)))
    (carries : schedule.Carries conn (ctx.aggEpsn conn) packet)
    (free : SlotFree hosts schedule.IsAggregated ctx (ctx.aggEpsn conn)) :
    (packetHandler ctx conn packet).1.aggEpsn = advance ctx.aggEpsn conn ∧
      (packetHandler ctx conn packet).1.operationType = ctx.operationType ∧
      (packetHandler ctx conn packet).1.rootRank = ctx.rootRank ∧
      ∃ next, Aggregating addressing hosts schedule first next
          (packetHandler ctx conn packet).1 ∧
        schedule.results hosts first next =
          schedule.results hosts first frontier ++
            dataFrames (packetHandler ctx conn packet).2 := by
  have expected : packet.psn = ctx.aggEpsn conn := carries.psn_eq
  rcases aggregating.frontier_advance bound with
    ⟨reached, owing⟩ | ⟨same, reached, last⟩
  · have incomplete :
        (ctx.psnStates (idx (ctx.aggEpsn conn))).degree + 1 ≠ hosts := by
      rw [ne_eq, aggregating.slots.complete_iff bound member free]
      push Not
      exact owing
    have handled := packetHandler_incomplete aggregating.deployed.toRouted bound
      origin admissible aggregates inForce carries.plain expected
      (by rw [expected]; exact incomplete)
    rw [handled]
    refine ⟨rfl, rfl, rfl, frontier,
      ⟨aggregating.deployed.congr ⟨rfl, rfl, rfl, rfl⟩,
        aggregating.slots.contribute bound expected member free incomplete,
        aggregating.sums.contribute aggregating.slots bound expected member
          free carries.dataLen carries.data,
        reached, aggregating.sendPsn⟩, ?_⟩
    rw [dataFrames_cons_acknowledgement]
    simp [dataFrames]
  · have full :
        (ctx.psnStates (idx (ctx.aggEpsn conn))).degree + 1 = hosts :=
      (aggregating.slots.complete_iff bound member free).mpr last
    obtain ⟨completed, frames⟩ := packetHandler_complete aggregating.deployed
      bound origin admissible aggregates inForce carries.plain expected
      (by rw [expected]; exact full)
    rw [expected] at completed
    refine ⟨completed.aggEpsn, completed.operationType, completed.rootRank,
      frontier + 1,
      ⟨aggregating.deployed.congr completed.configuration,
        aggregating.slots.complete bound member free full completed,
        aggregating.sums.complete aggregating.slots bound member free full
          completed, ?_, ?_⟩, ?_⟩
    · rw [completed.aggEpsn]
      exact reached
    · intro target
      have present : schedule.aggregated (ctx.aggEpsn conn) = true := member
      rw [completed.sendPsn, Schedule.sendPsn_succ, same, present]
      simp only [SwitchContext.afterSending, true_and, Nat.add_right_cancel_iff]
      rw [aggregating.sendPsn target, same]
    · rw [frames, dataFrames_cons_acknowledgement, dataFrames_resultFrames,
        aggregating.resultFrames_eq bound free member carries last same,
        Schedule.results_succ, same]

end Aggregating

end IncEmulation
