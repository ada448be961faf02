import IncEmulation.HostPacket
import IncEmulation.Schedule
import IncEmulation.Lib.Machine
import Mathlib.Data.List.GetD

/-!
# Aggregation exactness

The hosts of a star each send a control message announcing one aggregating
operation and then their data packets.  Their packets interleave freely, and old
or premature data packets may come in between any number of times.  The switch
emits the sum of the packets with the same number exactly once, in order, as
soon as the last of them has been accepted.
-/

namespace IncEmulation

open Gather Machine

/-- One captured packet at a time. -/
def deliver (ctx : SwitchContext) (arrival : Nat × Packet) :
    SwitchContext × List Frame :=
  packetHandler ctx arrival.1 arrival.2

/-- What the hosts send during one collective: the control message has PSN
`base`, data packet `k` has PSN `base + 1 + k`. -/
structure Streams where
  operation : Collective
  base : Nat
  count : Nat
  length : Nat → Nat
  opcode : Nat → Opcode
  /-- Word `index` of packet `k` of `conn`, in host order. -/
  vector (conn k index : Nat) : Word

namespace Streams

variable (streams : Streams)

/-- Data packet `k` of `conn`. -/
structure Data (conn k : Nat) (packet : Packet) : Prop where
  plain : packet.Plain
  psn_eq : packet.psn = streams.base + 1 + k
  opcode : packet.opcode = streams.opcode k
  payloadLen : packet.payloadLen = 4 * streams.length k
  body : (List.range (streams.length k)).map
      (fun index => htonl (streams.vector conn k index)) <+: packet.body

/-- The arrivals that may happen in a context. -/
inductive Arrival (addressing : Addressing) (hosts : Nat)
    (ctx : SwitchContext) : Nat × Packet → Prop
  | control {conn : Nat} {packet : Packet} (bound : conn < hosts)
      (origin : packet.From addressing conn)
      (turn : ctx.aggEpsn conn = streams.base)
      (announces : packet.Announces streams.operation) :
      Arrival addressing hosts ctx (conn, packet)
  | data {conn k : Nat} {packet : Packet} (bound : conn < hosts)
      (origin : packet.From addressing conn)
      (inStream : k < streams.count)
      (turn : ctx.aggEpsn conn = streams.base + 1 + k)
      (data : streams.Data conn k packet) :
      Arrival addressing hosts ctx (conn, packet)
  | stray {conn : Nat} {packet : Packet} (bound : conn < hosts)
      (origin : packet.From addressing conn) (plain : packet.Plain)
      (outOfTurn : packet.psn ≠ ctx.aggEpsn conn) :
      Arrival addressing hosts ctx (conn, packet)

/-- An arrival while no connection is a full ring ahead of another. -/
def Allowed (addressing : Addressing) (hosts : Nat) (ctx : SwitchContext)
    (arrival : Nat × Packet) : Prop :=
  Within hosts ctx.aggEpsn switchArrayLength ∧
    streams.Arrival addressing hosts ctx arrival

/-- The frames that carry the result of the packets numbered `k`. -/
def result (hosts : Nat) (first : Nat → Nat) (k : Nat) : List Frame :=
  (streams.operation.targets hosts).map fun conn =>
    { conn := conn
      type := .data
      data := (List.range (streams.length k)).map fun index =>
        htonl (BitVec.ofNat 32
          (∑ source ∈ Finset.range hosts,
            (streams.vector source k index).toNat))
      psn := first conn + k
      packetType := streams.opcode k }

def schedule : Schedule where
  aggregated psn := streams.base < psn ∧ psn ≤ streams.base + streams.count
  operation _ := streams.operation
  length psn := streams.length (psn - (streams.base + 1))
  opcode psn := streams.opcode (psn - (streams.base + 1))
  value conn psn index :=
    streams.vector conn (psn - (streams.base + 1)) index

end Streams

/-- Nothing is pending and every connection expects the same PSN. -/
structure Ready (hosts base : Nat) (ctx : SwitchContext) : Prop where
  idle : ∀ index, (ctx.psnStates index).Idle
  aggEpsn : ∀ conn < hosts, ctx.aggEpsn conn = base
  inForce : ∃ operation : Collective,
    operation.Valid hosts ∧ ctx.InForce operation

section Handling

variable {addressing : Addressing} {hosts conn : Nat} {ctx : SwitchContext}
  {packet : Packet} {operation : Collective}

/-- The slot of a packet in turn is free while no connection is a full ring
ahead of another. -/
theorem slotFree_inTurn {aggregated : Nat → Prop}
    (within : Within hosts ctx.aggEpsn switchArrayLength)
    (bound : conn < hosts) :
    SlotFree hosts aggregated ctx (ctx.aggEpsn conn) := by
  apply slotFree_of_within within
  by_cases pending : Pending hosts ctx.aggEpsn (ctx.aggEpsn conn)
  · exact Or.inl pending
  · refine Or.inr fun source sourceBound => ⟨?_, ?_⟩
    · by_contra passed
      exact pending ⟨⟨source, sourceBound, by omega⟩, conn, bound, le_rfl⟩
    · exact within conn bound source sourceBound

/-- Whatever is in force, a data packet out of turn changes nothing and makes
the switch send no data. -/
theorem packetHandler_stray (deployed : Deployed addressing hosts ctx)
    (bound : conn < hosts) (origin : packet.From addressing conn)
    (valid : operation.Valid hosts) (inForce : ctx.InForce operation)
    (plain : packet.Plain) (outOfTurn : packet.psn ≠ ctx.aggEpsn conn) :
    (packetHandler ctx conn packet).1 = ctx ∧
      dataFrames (packetHandler ctx conn packet).2 = [] := by
  by_cases dropped : ∃ root, operation = .broadcast root ∧ root ≠ conn
  · obtain ⟨root, rfl, other⟩ := dropped
    rw [packetHandler_dropped deployed.toRouted bound origin other inForce plain]
    exact ⟨rfl, rfl⟩
  · have admissible : operation.Admissible hosts conn := by
      cases operation with
      | allreduce => trivial
      | reduce root => exact valid
      | broadcast root =>
          by_contra other
          exact dropped ⟨root, rfl, other⟩
    rcases Nat.lt_or_gt_of_ne outOfTurn with stale | ahead
    · rw [packetHandler_stale deployed.toRouted bound origin admissible inForce
        plain stale]
      exact ⟨rfl, rfl⟩
    · rw [packetHandler_ahead deployed.toRouted bound origin admissible inForce
        plain ahead]
      exact ⟨rfl, rfl⟩

end Handling

namespace Streams

variable {streams : Streams} {addressing : Addressing} {hosts : Nat}
  {first : Nat → Nat}

theorem isAggregated_iff {psn : Nat} :
    streams.schedule.IsAggregated psn ↔
      streams.base < psn ∧ psn ≤ streams.base + streams.count := by
  simp [Schedule.IsAggregated, schedule]

theorem Data.carries {conn k : Nat} {packet : Packet}
    (data : streams.Data conn k packet) :
    streams.schedule.Carries conn (streams.base + 1 + k) packet where
  plain := data.plain
  psn_eq := data.psn_eq
  opcode := by simp [schedule, data.opcode]
  dataLen := by
    rw [Packet.dataLen, data.payloadLen]
    simp [schedule]
  data := by
    intro index bound
    have inRange : index < streams.length k := by simpa [schedule] using bound
    obtain ⟨tail, split⟩ := data.body
    have word : packet.body.getD index 0 =
        htonl (streams.vector conn k index) := by
      rw [← split, List.getD_append _ _ _ _ (by simpa using inRange)]
      simp [List.getD_eq_getElem?_getD, inRange]
    simpa [schedule, Packet.data, Packet.bodyWord, data.plain.hasImmData]
      using word

/-- The number of packets all connections have passed. -/
def completed (streams : Streams) (frontier : Nat) : Nat :=
  min (frontier - (streams.base + 1)) streams.count

theorem completed_succ {frontier : Nat} :
    streams.completed (frontier + 1) =
      streams.completed frontier +
        if streams.schedule.aggregated frontier then 1 else 0 := by
  simp only [completed, schedule, decide_eq_true_eq]
  split_ifs <;> omega

theorem completed_eq {frontier : Nat}
    (present : streams.schedule.aggregated frontier = true) :
    streams.completed frontier = frontier - (streams.base + 1) := by
  have range := isAggregated_iff.mp present
  simp only [completed]
  omega

theorem sendPsn_schedule (conn frontier : Nat) :
    streams.schedule.sendPsn hosts first conn frontier =
      first conn +
        if conn ∈ streams.operation.targets hosts then
          streams.completed frontier else 0 := by
  induction frontier with
  | zero => simp [Schedule.sendPsn, completed]
  | succ frontier induction =>
      have same :
          streams.schedule.operation frontier = streams.operation := rfl
      rw [Schedule.sendPsn_succ, induction, completed_succ, same]
      by_cases member : conn ∈ streams.operation.targets hosts
      · simp only [member, and_true, if_true]
        omega
      · simp [member]

theorem sum_eq (psn : Nat) :
    streams.schedule.sum hosts psn =
      (List.range (streams.length (psn - (streams.base + 1)))).map
        fun index => htonl (BitVec.ofNat 32
          (∑ source ∈ Finset.range hosts,
            (streams.vector source (psn - (streams.base + 1))
              index).toNat)) := by
  rw [Schedule.sum]
  apply List.map_congr_left
  intro index _
  congr 1
  simp only [schedule]
  induction Finset.range hosts using Finset.induction_on with
  | empty => simp
  | insert source sources fresh induction =>
      rw [Finset.sum_insert fresh, Finset.sum_insert fresh, induction,
        BitVec.ofNat_add, BitVec.ofNat_toNat, BitVec.setWidth_eq]

theorem results_schedule (frontier : Nat) :
    streams.schedule.results hosts first frontier =
      (List.range (streams.completed frontier)).flatMap
        (streams.result hosts first) := by
  induction frontier with
  | zero => simp [Schedule.results, completed]
  | succ frontier induction =>
      rw [Schedule.results_succ, induction, completed_succ]
      by_cases present : streams.schedule.aggregated frontier = true
      · have same :
            streams.schedule.operation frontier = streams.operation := rfl
        simp only [present, if_true, List.range_succ, List.flatMap_append,
          List.flatMap_singleton]
        congr 1
        simp only [Schedule.resultsAt, present, if_true, result, same]
        apply List.map_congr_left
        intro conn member
        rw [sendPsn_schedule, if_pos member, sum_eq, completed_eq present]
        rfl
      · have absent : streams.schedule.resultsAt hosts first frontier = [] :=
          Schedule.resultsAt_of_not_aggregated present
        simp [present, absent]

/-- What holds between two arrivals. -/
structure Invariant (streams : Streams) (addressing : Addressing)
    (hosts : Nat) (first : Nat → Nat) (ctx : SwitchContext)
    (outputs : List Frame) : Prop where
  window : ∀ conn < hosts, streams.base ≤ ctx.aggEpsn conn ∧
    ctx.aggEpsn conn ≤ streams.base + 1 + streams.count
  started : (∃ conn < hosts, streams.base < ctx.aggEpsn conn) →
    ctx.InForce streams.operation
  inForce : ∃ operation : Collective,
    operation.Valid hosts ∧ ctx.InForce operation
  sent : ∃ frontier,
    Aggregating addressing hosts streams.schedule first frontier ctx ∧
      dataFrames outputs = streams.schedule.results hosts first frontier

theorem Invariant.initial {ctx : SwitchContext}
    (deployed : Deployed addressing hosts ctx) (nonempty : 0 < hosts)
    (ready : Ready hosts streams.base ctx) :
    streams.Invariant addressing hosts ctx.sendPsn ctx [] where
  window := by
    intro conn bound
    rw [ready.aggEpsn conn bound]
    omega
  started := by
    rintro ⟨conn, bound, later⟩
    rw [ready.aggEpsn conn bound] at later
    omega
  inForce := ready.inForce
  sent := by
    have nothing : ∀ psn, ¬Pending hosts ctx.aggEpsn psn := by
      rintro psn ⟨⟨fast, fastBound, passed⟩, slow, slowBound, owed⟩
      rw [ready.aggEpsn fast fastBound] at passed
      rw [ready.aggEpsn slow slowBound] at owed
      omega
    have before : streams.completed streams.base = 0 := by
      simp [completed]
    refine ⟨streams.base, ⟨deployed, ⟨?_, fun index _ => ready.idle index⟩, ?_,
      ⟨?_, 0, nonempty, ready.aggEpsn 0 nonempty⟩, ?_⟩, ?_⟩
    · intro psn _ pending
      exact absurd pending (nothing psn)
    · intro psn _ pending
      exact absurd pending (nothing psn)
    · intro conn bound
      rw [ready.aggEpsn conn bound]
    · intro conn
      simp [sendPsn_schedule, before]
    · rw [results_schedule, before]
      rfl

theorem Invariant.control {conn : Nat} {packet : Packet}
    {ctx : SwitchContext} {outputs : List Frame}
    (valid : streams.operation.Valid hosts)
    (aggregates : streams.operation.aggregates = true)
    (invariant : streams.Invariant addressing hosts first ctx outputs)
    (bound : conn < hosts) (origin : packet.From addressing conn)
    (turn : ctx.aggEpsn conn = streams.base)
    (announces : packet.Announces streams.operation) :
    streams.Invariant addressing hosts first
      (packetHandler ctx conn packet).1
      (outputs ++ (packetHandler ctx conn packet).2) := by
  obtain ⟨frontier, aggregating, frames⟩ := invariant.sent
  have notAggregated :
      ¬streams.schedule.IsAggregated (ctx.aggEpsn conn) := by
    rw [isAggregated_iff, turn]
    omega
  obtain ⟨next, nextAggregating, same⟩ := aggregating.control
    bound notAggregated packet.psn
  rw [packetHandler_control aggregating.deployed.toRouted bound origin
    (Collective.admissible_of_aggregates aggregates valid conn) announces]
  refine ⟨?_, fun _ => rfl, ⟨_, valid, rfl⟩, next, nextAggregating, ?_⟩
  · intro other otherBound
    have before := invariant.window other otherBound
    by_cases sameConn : other = conn
    · subst sameConn
      simp [SwitchContext.afterControl]
      omega
    · simpa [SwitchContext.afterControl, sameConn] using before
  · rw [same, ← frames]
    simp [dataFrames, acknowledgement]

theorem Invariant.data {conn k : Nat} {packet : Packet}
    {ctx : SwitchContext} {outputs : List Frame}
    (valid : streams.operation.Valid hosts)
    (aggregates : streams.operation.aggregates = true)
    (invariant : streams.Invariant addressing hosts first ctx outputs)
    (within : Within hosts ctx.aggEpsn switchArrayLength)
    (bound : conn < hosts) (origin : packet.From addressing conn)
    (inStream : k < streams.count)
    (turn : ctx.aggEpsn conn = streams.base + 1 + k)
    (data : streams.Data conn k packet) :
    streams.Invariant addressing hosts first
      (packetHandler ctx conn packet).1
      (outputs ++ (packetHandler ctx conn packet).2) := by
  obtain ⟨frontier, aggregating, frames⟩ := invariant.sent
  have member : streams.schedule.IsAggregated (ctx.aggEpsn conn) := by
    rw [isAggregated_iff, turn]
    omega
  have inForce : ctx.InForce streams.operation :=
    invariant.started ⟨conn, bound, by omega⟩
  have free : SlotFree hosts streams.schedule.IsAggregated ctx
      (ctx.aggEpsn conn) := slotFree_inTurn within bound
  obtain ⟨aggEpsn, operationType, rootRank, next, nextAggregating, sent⟩ :=
    aggregating.accept bound origin member
      (Collective.admissible_of_aggregates aggregates valid conn) aggregates
      inForce (turn ▸ data.carries) free
  have stillInForce :
      (packetHandler ctx conn packet).1.InForce streams.operation := by
    rw [SwitchContext.InForce, operationType, rootRank]
    exact inForce
  refine ⟨?_, fun _ => stillInForce, ⟨_, valid, stillInForce⟩, next,
    nextAggregating, ?_⟩
  · intro other otherBound
    have before := invariant.window other otherBound
    rw [aggEpsn]
    by_cases sameConn : other = conn
    · subst sameConn
      rw [advance_self]
      omega
    · rwa [advance_of_ne sameConn]
  · rw [sent, ← frames]
    simp [dataFrames]

theorem Invariant.step {ctx : SwitchContext} {outputs : List Frame}
    {arrival : Nat × Packet}
    (valid : streams.operation.Valid hosts)
    (aggregates : streams.operation.aggregates = true)
    (invariant : streams.Invariant addressing hosts first ctx outputs)
    (allowed : streams.Allowed addressing hosts ctx arrival) :
    streams.Invariant addressing hosts first (deliver ctx arrival).1
      (outputs ++ (deliver ctx arrival).2) := by
  obtain ⟨within, arrives⟩ := allowed
  cases arrives with
  | control bound origin turn announces =>
      exact invariant.control valid aggregates bound origin turn announces
  | data bound origin inStream turn data =>
      exact invariant.data valid aggregates within bound origin inStream turn
        data
  | stray bound origin plain outOfTurn =>
      obtain ⟨operation, operationValid, inForce⟩ := invariant.inForce
      obtain ⟨frontier, aggregating, frames⟩ := invariant.sent
      obtain ⟨unchanged, silent⟩ := packetHandler_stray aggregating.deployed
        bound origin operationValid inForce plain outOfTurn
      simp only [deliver, unchanged]
      refine ⟨invariant.window, invariant.started, invariant.inForce, frontier,
        aggregating, ?_⟩
      rw [← frames]
      simpa [dataFrames] using silent

end Streams

/-- The switch has emitted the sum of the packets numbered `k`, to the targets of
the operation only, exactly once and in order, for each `k` of which every
connection's packet has been accepted. -/
def Streams.Summed (streams : Streams) (hosts : Nat) (ctx : SwitchContext)
    (arrivals : List (Nat × Packet)) : Prop :=
  ∃ completed ≤ streams.count,
    (∀ k < streams.count, k < completed ↔
      ∀ conn < hosts,
        streams.base + 1 + k < (feed deliver ctx arrivals).1.aggEpsn conn) ∧
    dataFrames (feed deliver ctx arrivals).2 =
      (List.range completed).flatMap (streams.result hosts ctx.sendPsn)

theorem Streams.Invariant.summed {streams : Streams}
    {addressing : Addressing} {hosts : Nat} {ctx : SwitchContext}
    {arrivals : List (Nat × Packet)}
    (final : streams.Invariant addressing hosts ctx.sendPsn
      (feed deliver ctx arrivals).1 (feed deliver ctx arrivals).2) :
    streams.Summed hosts ctx arrivals := by
  obtain ⟨frontier, aggregating, frames⟩ := final.sent
  refine ⟨streams.completed frontier, Nat.min_le_right _ _, ?_, ?_⟩
  · intro k inStream
    have reached : k < streams.completed frontier ↔
        streams.base + 1 + k < frontier := by
      simp only [Streams.completed]
      omega
    rw [reached]
    constructor
    · intro before conn bound
      exact lt_of_lt_of_le before (aggregating.reached.le conn bound)
    · intro everyone
      obtain ⟨slowest, bound, same⟩ := aggregating.reached.attained
      exact same ▸ everyone slowest bound
  · rw [frames, Streams.results_schedule]

end IncEmulation
