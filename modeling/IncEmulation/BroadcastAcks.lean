import IncEmulation.HandlerFrame
import IncEmulation.HostPacket
import IncEmulation.Lib.Machine
import IncEmulation.Lib.Tally

/-!
# Releasing broadcast buffers

`cache_and_broadcast` stores a result by the PSN it was received under and
sends it under a PSN of its own to each connection.  `handle_upstream_ack` looks
at the slot of the acknowledged send PSN, and at no other slot.  A `Tracked`
switch remembers what the code forgets: which result each slot holds, under
which PSNs it was sent, and how far each connection has acknowledged.
-/

namespace IncEmulation

open Machine Tally

/-- A result and the send PSN it went to each connection under. -/
structure CachedResult where
  psn : Nat
  sentAs : Nat → Nat

/-- The frames below `acked conn` are acknowledged by `conn`. -/
structure Tracked where
  ctx : SwitchContext
  acked : Nat → Nat
  results : Nat → Option CachedResult

/-- Nothing is outstanding. -/
def Tracked.start (ctx : SwitchContext) : Tracked where
  ctx := ctx
  acked := ctx.sendPsn
  results := fun _ => none

/-- An ACK, as opposed to a NAK. -/
def Packet.Acknowledges (packet : Packet) : Prop :=
  packet.opcode = rdmaOpcodeAck ∧ packet.isNak = false

instance decidableAcknowledges : DecidablePred Packet.Acknowledges :=
  fun packet =>
    inferInstanceAs (Decidable (packet.opcode = rdmaOpcodeAck ∧ _))

/-- The handler with the records.  `down_epsn` counts the results cached. -/
def track (tracked : Tracked) (arrival : Nat × Packet) :
    Tracked × List Frame :=
  let handled := packetHandler tracked.ctx arrival.1 arrival.2
  ({ ctx := handled.1
     acked :=
      if arrival.2.Acknowledges then
        Function.update tracked.acked arrival.1
          (max (tracked.acked arrival.1) (arrival.2.psn + 1))
      else tracked.acked
     results :=
      if handled.1.downEpsn = tracked.ctx.downEpsn then tracked.results
      else
        Function.update tracked.results (idx arrival.2.psn)
          (some ⟨arrival.2.psn, tracked.ctx.sendPsn⟩) },
    handled.2)

namespace Tracked

/-- AllReduce traffic: hosts acknowledge what they have been sent. -/
inductive Arrival (addressing : Addressing) (hosts : Nat) (tracked : Tracked) :
    Nat × Packet → Prop
  | control {conn : Nat} {packet : Packet} (bound : conn < hosts)
      (origin : packet.From addressing conn)
      (announces : packet.Announces .allreduce) :
      Arrival addressing hosts tracked (conn, packet)
  | data {conn : Nat} {packet : Packet} (bound : conn < hosts)
      (origin : packet.From addressing conn) (plain : packet.Plain) :
      Arrival addressing hosts tracked (conn, packet)
  | ack {conn : Nat} {packet : Packet} (bound : conn < hosts)
      (origin : packet.From addressing conn)
      (opcode : packet.opcode = rdmaOpcodeAck)
      (sent : packet.Acknowledges → packet.psn < tracked.ctx.sendPsn conn) :
      Arrival addressing hosts tracked (conn, packet)

/-- A result finds its slot free.  An ACK repeats an old one that the switch
remembers, or it is for the oldest frame not yet acknowledged, the switch has no
later one on record, and the slot of its PSN holds the result of that frame. -/
structure Orderly (hosts : Nat) (tracked : Tracked) (arrival : Nat × Packet) :
    Prop where
  free : arrival.2.Plain → arrival.2.psn = tracked.ctx.aggEpsn arrival.1 →
    (tracked.ctx.psnStates (idx arrival.2.psn)).degree + 1 = hosts →
      (tracked.ctx.psnStates (idx arrival.2.psn)).bcastBuffer.state = false
  ack : arrival.2.Acknowledges →
    arrival.2.psn < tracked.acked arrival.1 ∧
        arrival.2.psn ≤ tracked.ctx.latestAck arrival.1 ∨
      arrival.2.psn = tracked.acked arrival.1 ∧
        tracked.ctx.latestAck arrival.1 < arrival.2.psn ∧
          ∃ result ∈ tracked.results (idx arrival.2.psn),
            result.sentAs arrival.1 = arrival.2.psn

/-- Every connection has acknowledged the result. -/
def Covered (hosts : Nat) (acked : Nat → Nat) (result : CachedResult) : Prop :=
  ∀ conn < hosts, result.sentAs conn < acked conn

/-- The buffer of a result is in use until every connection has acknowledged
it, and its counters are zero from then on. -/
structure Right (hosts : Nat) (tracked : Tracked) : Prop where
  held : ∀ index, ∀ result ∈ tracked.results index,
    (tracked.ctx.psnStates index).bcastBuffer.psn = result.psn ∧
      ((tracked.ctx.psnStates index).bcastBuffer.state = false ↔
        Covered hosts tracked.acked result)
  zero : ∀ index, ∀ result ∈ tracked.results index,
    (tracked.ctx.psnStates index).bcastBuffer.state = false →
      (tracked.ctx.psnStates index).rDegree = 0 ∧
        ∀ conn, (tracked.ctx.psnStates index).rArrival conn = false

/-- The step leaves the buffers right, replaces no result that is still held,
and counts no ACK for a frame that it does not cover. -/
structure StepRight (hosts : Nat) (tracked : Tracked)
    (arrival : Nat × Packet) : Prop where
  right : (track tracked arrival).1.Right hosts
  kept : ∀ index, ∀ result ∈ tracked.results index,
    (track tracked arrival).1.results index = some result ∨
      (tracked.ctx.psnStates index).bcastBuffer.state = false
  others : arrival.2.Acknowledges →
    ∀ index, ∀ result ∈ tracked.results index,
      ¬(tracked.acked arrival.1 ≤ result.sentAs arrival.1 ∧
          result.sentAs arrival.1 ≤ arrival.2.psn) →
        ((track tracked arrival).1.ctx.psnStates index).rDegree =
            (tracked.ctx.psnStates index).rDegree ∧
          ((track tracked arrival).1.ctx.psnStates index).rArrival =
            (tracked.ctx.psnStates index).rArrival

end Tracked

/-- The downstream half of a slot with nothing in it. -/
structure PsnState.Released (state : PsnState) : Prop where
  free : state.bcastBuffer.state = false
  rDegree : state.rDegree = 0
  rArrival : ∀ conn, state.rArrival conn = false

/-- The downstream half of the slot is the same. -/
structure PsnState.SameBroadcast (before after : PsnState) : Prop where
  bcastBuffer : after.bcastBuffer = before.bcastBuffer
  rDegree : after.rDegree = before.rDegree
  rArrival : after.rArrival = before.rArrival

theorem PsnState.SameBroadcast.refl (state : PsnState) :
    state.SameBroadcast state := ⟨rfl, rfl, rfl⟩

section Handling

variable {addressing : Addressing} {hosts conn : Nat} {ctx : SwitchContext}
  {packet : Packet}

/-- The context after a result has been cached, sent and taken out of its
aggregation buffer. -/
def SwitchContext.afterResult (ctx : SwitchContext) (hosts conn : Nat)
    (packet : Packet) : SwitchContext :=
  (((ctx.afterContribution .allreduce conn packet).cacheDownstream packet.psn
    (ctx.contribution .allreduce conn packet).aggBuffer.buffer packet.dataLen
    packet.opcode).afterSending (List.range hosts)).clearSlot (idx packet.psn)

theorem packetHandler_result (deployed : Deployed addressing hosts ctx)
    (bound : conn < hosts) (origin : packet.From addressing conn)
    (inForce : ctx.InForce .allreduce) (plain : packet.Plain)
    (expected : packet.psn = ctx.aggEpsn conn)
    (complete : (ctx.psnStates (idx packet.psn)).degree + 1 = hosts) :
    (packetHandler ctx conn packet).1 = ctx.afterResult hosts conn packet := by
  obtain ⟨rule, outConns, handled⟩ := packetHandler_aggregate deployed.toRouted
    bound origin (show Collective.allreduce.Admissible hosts conn from trivial)
    rfl inForce plain expected
  have degree : (ctx.contribution .allreduce conn packet).degree = hosts :=
    complete
  have isRoot :
      (ctx.afterContribution .allreduce conn packet).isRoot = true :=
    deployed.isRoot
  simp only [degree, if_true, completeAggregation, isRoot,
    Collective.metadata,
    cacheAndBroadcast_eq
      (show (ctx.afterContribution .allreduce conn packet).fanIn = hosts
        from deployed.fanIn)
      (outConns rfl)] at handled
  rw [handled]
  rfl

theorem afterResult_own :
    ((ctx.afterResult hosts conn packet).psnStates
          (idx packet.psn)).bcastBuffer.psn = packet.psn ∧
      ((ctx.afterResult hosts conn packet).psnStates
          (idx packet.psn)).bcastBuffer.state = true ∧
      ((ctx.afterResult hosts conn packet).psnStates (idx packet.psn)).rDegree =
        (ctx.psnStates (idx packet.psn)).rDegree ∧
      ((ctx.afterResult hosts conn packet).psnStates
          (idx packet.psn)).rArrival =
        (ctx.psnStates (idx packet.psn)).rArrival := by
  simp [SwitchContext.afterResult, SwitchContext.clearSlot, PsnState.clear,
    SwitchContext.afterSending, SwitchContext.cacheDownstream,
    SwitchContext.afterContribution, SwitchContext.contribution,
    PsnState.accumulate]

theorem afterResult_other {index : Nat} (elsewhere : index ≠ idx packet.psn) :
    (ctx.afterResult hosts conn packet).psnStates index =
      ctx.psnStates index := by
  simp [SwitchContext.afterResult, SwitchContext.clearSlot,
    SwitchContext.afterSending, SwitchContext.cacheDownstream,
    SwitchContext.afterContribution, SwitchContext.bumpAggEpsn,
    Function.update_of_ne elsewhere]

end Handling

namespace Packet

variable {packet : Packet} {operation : Collective}

theorem Plain.not_acknowledges (plain : packet.Plain) :
    ¬packet.Acknowledges := by
  rintro ⟨opcode, -⟩
  have isSend := plain.isSend
  simp [Packet.isSend, opcode, rdmaOpcodeAck, rdmaOpcodeSendOnlyWithImm,
    rdmaOpcodeSendLastWithImm, rdmaOpcodeSendOnly, rdmaOpcodeSendFirst,
    rdmaOpcodeSendMiddle, rdmaOpcodeSendLast] at isSend

theorem Announces.not_acknowledges (announces : packet.Announces operation) :
    ¬packet.Acknowledges := by
  rintro ⟨opcode, -⟩
  have immediate := hasImmData_of_isControlMessage announces.control
  rw [hasImmData_of_ack opcode] at immediate
  cases immediate

end Packet

/-- What a slot knows about the result it holds. -/
structure PsnState.HoldsResult (hosts : Nat) (acked : Nat → Nat) (state : PsnState)
    (result : CachedResult) : Prop where
  psn : state.bcastBuffer.psn = result.psn
  released : Tracked.Covered hosts acked result → state.Released
  inUse : ¬Tracked.Covered hosts acked result →
    state.bcastBuffer.state = true
  marks : ¬Tracked.Covered hosts acked result → ∀ conn < hosts,
    state.rArrival conn = decide (result.sentAs conn < acked conn)
  count : ¬Tracked.Covered hosts acked result →
    state.rDegree = tally hosts state.rArrival

namespace PsnState

variable {hosts conn : Nat} {acked later : Nat → Nat} {state after : PsnState}
  {result : CachedResult}

theorem Released.congr (released : state.Released)
    (same : state.SameBroadcast after) : after.Released where
  free := by rw [same.bcastBuffer, released.free]
  rDegree := by rw [same.rDegree, released.rDegree]
  rArrival := by rw [same.rArrival]; exact released.rArrival

theorem HoldsResult.congr (holds : state.HoldsResult hosts acked result)
    (same : state.SameBroadcast after)
    (marks : ∀ conn < hosts,
      result.sentAs conn < later conn ↔ result.sentAs conn < acked conn) :
    after.HoldsResult hosts later result := by
  have covered : Tracked.Covered hosts later result ↔
      Tracked.Covered hosts acked result :=
    forall₂_congr marks
  refine ⟨?_, ?_, ?_, ?_, ?_⟩
  · rw [same.bcastBuffer, holds.psn]
  · exact fun all => (holds.released (covered.mp all)).congr same
  · intro notAll
    rw [same.bcastBuffer]
    exact holds.inUse (notAll ∘ covered.mpr)
  · intro notAll conn bound
    rw [same.rArrival, holds.marks (notAll ∘ covered.mpr) conn bound]
    exact decide_eq_decide.mpr (marks conn bound).symm
  · intro notAll
    rw [same.rDegree, same.rArrival]
    exact holds.count (notAll ∘ covered.mpr)

/-- The next frame of a connection is counted, and the last connection releases
the buffer. -/
theorem HoldsResult.acknowledge (holds : state.HoldsResult hosts acked result)
    (bound : conn < hosts) (next : result.sentAs conn = acked conn) :
    (state.acknowledge conn hosts).HoldsResult hosts
      (Function.update acked conn (acked conn + 1)) result := by
  have pending : ¬Tracked.Covered hosts acked result := by
    intro all
    have here := all conn bound
    omega
  have fresh : state.rArrival conn = false := by
    rw [holds.marks pending conn bound, decide_eq_false_iff_not]
    omega
  have marks : ∀ other < hosts,
      Function.update state.rArrival conn true other =
        decide (result.sentAs other <
          Function.update acked conn (acked conn + 1) other) := by
    intro other otherBound
    by_cases own : other = conn
    · subst own
      rw [Function.update_self, Function.update_self, eq_comm,
        decide_eq_true_iff]
      omega
    · rw [Function.update_of_ne own, Function.update_of_ne own]
      exact holds.marks pending other otherBound
  have count : state.rDegree + 1 =
      tally hosts (Function.update state.rArrival conn true) := by
    rw [tally_update bound fresh, holds.count pending]
  have covered : Tracked.Covered hosts
      (Function.update acked conn (acked conn + 1)) result ↔
        state.rDegree + 1 = hosts := by
    rw [count, tally_eq_total_iff]
    refine forall₂_congr fun other otherBound => ?_
    rw [marks other otherBound, decide_eq_true_iff]
  rw [PsnState.acknowledge, if_neg (by rw [fresh]; exact Bool.false_ne_true)]
  by_cases last : state.rDegree + 1 = hosts
  · rw [if_pos last]
    have all := covered.mpr last
    exact ⟨holds.psn, fun _ => ⟨rfl, rfl, fun _ => rfl⟩,
      fun notAll => absurd all notAll, fun notAll => absurd all notAll,
      fun notAll => absurd all notAll⟩
  · rw [if_neg last]
    exact ⟨holds.psn, fun all => absurd (covered.mp all) last,
      fun _ => holds.inUse pending, fun _ => marks, fun _ => count⟩

end PsnState

/-- What a step that neither caches a result nor counts an ACK leaves alone. -/
structure SwitchContext.Quiet (before after : SwitchContext) : Prop where
  configuration : before.SameConfiguration after
  operationType : after.operationType = before.operationType
  rootRank : after.rootRank = before.rootRank
  downEpsn : after.downEpsn = before.downEpsn
  sendPsn : after.sendPsn = before.sendPsn
  slots : ∀ index,
    (before.psnStates index).SameBroadcast (after.psnStates index)

theorem SwitchContext.Quiet.refl (ctx : SwitchContext) : ctx.Quiet ctx :=
  ⟨.refl ctx, rfl, rfl, rfl, rfl, fun _ => .refl _⟩

namespace Tracked

/-- The records and the slots agree. -/
structure Invariant (addressing : Addressing) (hosts : Nat)
    (tracked : Tracked) : Prop where
  deployed : Deployed addressing hosts tracked.ctx
  inForce : tracked.ctx.InForce .allreduce
  acked_le : ∀ conn, tracked.acked conn ≤ tracked.ctx.sendPsn conn
  empty : ∀ index, tracked.results index = none →
    (tracked.ctx.psnStates index).Released
  holds : ∀ index, ∀ result ∈ tracked.results index,
    (tracked.ctx.psnStates index).HoldsResult hosts tracked.acked result
  sent : ∀ index, ∀ result ∈ tracked.results index, ∀ conn < hosts,
    result.sentAs conn < tracked.ctx.sendPsn conn
  distinct : ∀ index, ∀ result ∈ tracked.results index, ∀ other,
    ∀ otherResult ∈ tracked.results other, index ≠ other →
      ∀ conn < hosts, result.sentAs conn ≠ otherResult.sentAs conn

variable {addressing : Addressing} {hosts conn : Nat} {tracked : Tracked}
  {packet : Packet} {arrival : Nat × Packet}

theorem Invariant.right (invariant : tracked.Invariant addressing hosts) :
    tracked.Right hosts where
  held := by
    intro index result found
    have holds := invariant.holds index result found
    refine ⟨holds.psn, ?_, fun all => (holds.released all).free⟩
    intro free
    by_contra notAll
    rw [holds.inUse notAll] at free
    cases free
  zero := by
    intro index result found free
    have holds := invariant.holds index result found
    by_cases all : Covered hosts tracked.acked result
    · exact ⟨(holds.released all).rDegree, (holds.released all).rArrival⟩
    · rw [holds.inUse all] at free
      cases free

theorem Invariant.released (invariant : tracked.Invariant addressing hosts)
    {index : Nat}
    (free : (tracked.ctx.psnStates index).bcastBuffer.state = false) :
    (tracked.ctx.psnStates index).Released := by
  cases found : tracked.results index with
  | none => exact invariant.empty index found
  | some result =>
      have zero := invariant.right.zero index result found free
      exact ⟨free, zero.1, zero.2⟩

/-- A step that is quiet for the switch and for the records. -/
theorem Invariant.quiet (invariant : tracked.Invariant addressing hosts)
    (quiet : tracked.ctx.Quiet (track tracked arrival).1.ctx)
    (acked : (track tracked arrival).1.acked = tracked.acked) :
    (track tracked arrival).1.Invariant addressing hosts ∧
      tracked.StepRight hosts arrival := by
  have results : (track tracked arrival).1.results = tracked.results :=
    if_pos quiet.downEpsn
  have after : (track tracked arrival).1.Invariant addressing hosts := by
    refine ⟨invariant.deployed.congr quiet.configuration, ?_, ?_, ?_, ?_, ?_,
      ?_⟩
    · rw [SwitchContext.InForce, quiet.operationType, quiet.rootRank]
      exact invariant.inForce
    · rw [acked, quiet.sendPsn]
      exact invariant.acked_le
    · rw [results]
      exact fun index none =>
        (invariant.empty index none).congr (quiet.slots index)
    · rw [results, acked]
      exact fun index result found =>
        (invariant.holds index result found).congr (quiet.slots index)
          fun _ _ => Iff.rfl
    · rw [results, quiet.sendPsn]
      exact invariant.sent
    · rw [results]
      exact invariant.distinct
  refine ⟨after, after.right, ?_, ?_⟩
  · intro index result found
    rw [results]
    exact .inl found
  · intro _ index result _ _
    exact ⟨(quiet.slots index).rDegree, (quiet.slots index).rArrival⟩

theorem acked_of_not_acknowledges (silent : ¬arrival.2.Acknowledges) :
    (track tracked arrival).1.acked = tracked.acked := if_neg silent

/-- The ACK for the next frame of a connection. -/
theorem Invariant.counted (invariant : tracked.Invariant addressing hosts)
    (bound : conn < hosts) (origin : packet.From addressing conn)
    (acknowledges : packet.Acknowledges)
    (sent : packet.psn < tracked.ctx.sendPsn conn)
    (next : packet.psn = tracked.acked conn)
    (later : tracked.ctx.latestAck conn < packet.psn) {result : CachedResult}
    (found : result ∈ tracked.results (idx packet.psn))
    (own : result.sentAs conn = packet.psn) :
    (track tracked (conn, packet)).1.Invariant addressing hosts ∧
      tracked.StepRight hosts (conn, packet) := by
  have handled := packetHandler_ack invariant.deployed.toRouted bound origin
    acknowledges.1 invariant.inForce
    (show Collective.allreduce.Admissible hosts conn from trivial)
  have ctx : (track tracked (conn, packet)).1.ctx =
      { tracked.ctx.setPsnState (idx packet.psn)
          ((tracked.ctx.psnStates (idx packet.psn)).acknowledge conn hosts) with
        latestAck :=
          Function.update tracked.ctx.latestAck conn packet.psn } := by
    show (packetHandler tracked.ctx conn packet).1 = _
    rw [handled, handleUpstreamAck, acknowledges.2,
      if_neg Bool.false_ne_true, if_pos later, invariant.deployed.fanIn]
  have results : (track tracked (conn, packet)).1.results =
      tracked.results := by
    refine if_pos ?_
    show (track tracked (conn, packet)).1.ctx.downEpsn = _
    rw [ctx]
    rfl
  have acked : (track tracked (conn, packet)).1.acked =
      Function.update tracked.acked conn (tracked.acked conn + 1) := by
    have most : max (tracked.acked conn) (packet.psn + 1) =
        tracked.acked conn + 1 := by omega
    rw [← most]
    exact if_pos acknowledges
  have slot (index : Nat) (elsewhere : index ≠ idx packet.psn) :
      (track tracked (conn, packet)).1.ctx.psnStates index =
        tracked.ctx.psnStates index := by
    rw [ctx]
    exact Function.update_of_ne elsewhere ..
  have ownSlot :
      (track tracked (conn, packet)).1.ctx.psnStates (idx packet.psn) =
        (tracked.ctx.psnStates (idx packet.psn)).acknowledge conn hosts := by
    rw [ctx]
    exact Function.update_self ..
  have after : (track tracked (conn, packet)).1.Invariant addressing hosts := by
    refine ⟨?_, ?_, ?_, ?_, ?_, ?_, ?_⟩
    · rw [ctx]
      exact invariant.deployed.congr ⟨rfl, rfl, rfl, rfl⟩
    · rw [ctx]
      exact invariant.inForce
    · rw [acked, ctx]
      intro other
      by_cases same : other = conn
      · subst same
        rw [Function.update_self]
        exact Nat.lt_of_le_of_lt (Nat.le_of_eq next.symm) sent
      · rw [Function.update_of_ne same]
        exact invariant.acked_le other
    · rw [results]
      intro index none
      have elsewhere : index ≠ idx packet.psn := by
        rintro rfl
        rw [none] at found
        cases found
      rw [slot index elsewhere]
      exact invariant.empty index none
    · rw [results, acked]
      intro index other otherFound
      by_cases here : index = idx packet.psn
      · subst here
        obtain rfl := Option.mem_unique found otherFound
        rw [ownSlot]
        exact (invariant.holds _ _ found).acknowledge bound
          (own.trans next)
      · rw [slot index here]
        refine (invariant.holds index other otherFound).congr (.refl _) ?_
        intro any anyBound
        by_cases same : any = conn
        · subst same
          have apart := invariant.distinct index other otherFound _ result
            found here any bound
          rw [Function.update_self]
          omega
        · rw [Function.update_of_ne same]
    · rw [results, ctx]
      exact invariant.sent
    · rw [results]
      exact invariant.distinct
  refine ⟨after, after.right, ?_, ?_⟩
  · intro index other otherFound
    rw [results]
    exact .inl otherFound
  · intro _ index other otherFound uncovered
    have elsewhere : index ≠ idx packet.psn := by
      rintro rfl
      obtain rfl := Option.mem_unique found otherFound
      exact uncovered ⟨(next.symm.trans own.symm).le, own.le⟩
    rw [slot index elsewhere]
    exact ⟨rfl, rfl⟩

/-- A packet that completes a result whose slot is free. -/
theorem Invariant.result (invariant : tracked.Invariant addressing hosts)
    (bound : conn < hosts) (origin : packet.From addressing conn)
    (plain : packet.Plain) (expected : packet.psn = tracked.ctx.aggEpsn conn)
    (complete :
      (tracked.ctx.psnStates (idx packet.psn)).degree + 1 = hosts)
    (free : (tracked.ctx.psnStates (idx packet.psn)).bcastBuffer.state =
      false) :
    (track tracked (conn, packet)).1.Invariant addressing hosts ∧
      tracked.StepRight hosts (conn, packet) := by
  have ctx : (track tracked (conn, packet)).1.ctx =
      tracked.ctx.afterResult hosts conn packet :=
    packetHandler_result invariant.deployed bound origin invariant.inForce plain
      expected complete
  have released := invariant.released free
  have results : (track tracked (conn, packet)).1.results =
      Function.update tracked.results (idx packet.psn)
        (some ⟨packet.psn, tracked.ctx.sendPsn⟩) := by
    refine if_neg ?_
    show (track tracked (conn, packet)).1.ctx.downEpsn ≠ _
    rw [ctx]
    exact Nat.succ_ne_self _
  have acked : (track tracked (conn, packet)).1.acked = tracked.acked :=
    acked_of_not_acknowledges plain.not_acknowledges
  have sendPsn (other : Nat) (otherBound : other < hosts) :
      (track tracked (conn, packet)).1.ctx.sendPsn other =
        tracked.ctx.sendPsn other + 1 := by
    rw [ctx]
    show tracked.ctx.sendPsn other + _ = _
    rw [if_pos (List.mem_range.mpr otherBound)]
  have sendPsn_le (other : Nat) : tracked.ctx.sendPsn other ≤
      (track tracked (conn, packet)).1.ctx.sendPsn other := by
    rw [ctx]
    exact Nat.le_add_right ..
  have slot (index : Nat) (elsewhere : index ≠ idx packet.psn) :
      (track tracked (conn, packet)).1.ctx.psnStates index =
        tracked.ctx.psnStates index := by
    rw [ctx]
    exact afterResult_other elsewhere
  have held : ((track tracked (conn, packet)).1.ctx.psnStates
      (idx packet.psn)).HoldsResult hosts tracked.acked
        ⟨packet.psn, tracked.ctx.sendPsn⟩ := by
    have pending : ¬Covered hosts tracked.acked
        ⟨packet.psn, tracked.ctx.sendPsn⟩ := by
      intro all
      exact absurd (all conn bound) (Nat.not_lt.mpr (invariant.acked_le conn))
    obtain ⟨psn, inUse, rDegree, rArrival⟩ :=
      @afterResult_own hosts conn tracked.ctx packet
    rw [ctx]
    refine ⟨psn, fun all => absurd all pending, fun _ => inUse, ?_, ?_⟩
    · intro _ other _
      rw [rArrival, released.rArrival other, eq_comm,
        decide_eq_false_iff_not]
      exact Nat.not_lt.mpr (invariant.acked_le other)
    · intro _
      rw [rDegree, rArrival, released.rDegree,
        tally_of_unmarked fun other _ => released.rArrival other]
  have after : (track tracked (conn, packet)).1.Invariant addressing hosts := by
    refine ⟨?_, ?_, ?_, ?_, ?_, ?_, ?_⟩
    · rw [ctx]
      exact invariant.deployed.congr ⟨rfl, rfl, rfl, rfl⟩
    · rw [ctx]
      exact invariant.inForce
    · rw [acked]
      exact fun other => (invariant.acked_le other).trans (sendPsn_le other)
    · rw [results]
      intro index none
      have elsewhere : index ≠ idx packet.psn := by
        rintro rfl
        rw [Function.update_self] at none
        cases none
      rw [Function.update_of_ne elsewhere] at none
      rw [slot index elsewhere]
      exact invariant.empty index none
    · rw [results, acked]
      intro index other otherFound
      by_cases here : index = idx packet.psn
      · subst here
        rw [Function.update_self] at otherFound
        cases otherFound
        exact held
      · rw [Function.update_of_ne here] at otherFound
        rw [slot index here]
        exact invariant.holds index other otherFound
    · rw [results]
      intro index other otherFound any anyBound
      rw [sendPsn any anyBound]
      by_cases here : index = idx packet.psn
      · subst here
        rw [Function.update_self] at otherFound
        cases otherFound
        exact Nat.lt_succ_self _
      · rw [Function.update_of_ne here] at otherFound
        exact Nat.lt_succ_of_lt (invariant.sent index other otherFound any
          anyBound)
    · rw [results]
      intro index first firstFound other second secondFound apart any anyBound
      by_cases here : index = idx packet.psn
      · subst here
        rw [Function.update_self] at firstFound
        rw [Function.update_of_ne apart.symm] at secondFound
        cases firstFound
        exact (invariant.sent other second secondFound any anyBound).ne'
      · rw [Function.update_of_ne here] at firstFound
        by_cases there : other = idx packet.psn
        · subst there
          rw [Function.update_self] at secondFound
          cases secondFound
          exact (invariant.sent index first firstFound any anyBound).ne
        · rw [Function.update_of_ne there] at secondFound
          exact invariant.distinct index first firstFound other second
            secondFound apart any anyBound
  refine ⟨after, after.right, ?_, ?_⟩
  · intro index other otherFound
    rw [results]
    by_cases here : index = idx packet.psn
    · subst here
      exact .inr free
    · rw [Function.update_of_ne here]
      exact .inl otherFound
  · exact fun acknowledges => absurd acknowledges plain.not_acknowledges

theorem quiet_control (invariant : tracked.Invariant addressing hosts)
    (bound : conn < hosts) (origin : packet.From addressing conn)
    (announces : packet.Announces .allreduce) :
    tracked.ctx.Quiet (track tracked (conn, packet)).1.ctx := by
  have handled := packetHandler_control invariant.deployed.toRouted bound origin
    (show Collective.allreduce.Admissible hosts conn from trivial) announces
  have inForce := invariant.inForce
  rw [SwitchContext.InForce, Collective.metadata, Prod.mk.injEq] at inForce
  show tracked.ctx.Quiet (packetHandler tracked.ctx conn packet).1
  rw [handled]
  exact ⟨⟨rfl, rfl, rfl, rfl⟩, inForce.1.symm, inForce.2.symm, rfl, rfl,
    fun _ => .refl _⟩

theorem quiet_data (invariant : tracked.Invariant addressing hosts)
    (bound : conn < hosts) (origin : packet.From addressing conn)
    (plain : packet.Plain)
    (incomplete : packet.psn = tracked.ctx.aggEpsn conn →
      (tracked.ctx.psnStates (idx packet.psn)).degree + 1 ≠ hosts) :
    tracked.ctx.Quiet (track tracked (conn, packet)).1.ctx := by
  have routed := invariant.deployed.toRouted
  have admissible : Collective.allreduce.Admissible hosts conn := trivial
  show tracked.ctx.Quiet (packetHandler tracked.ctx conn packet).1
  rcases Nat.lt_trichotomy packet.psn (tracked.ctx.aggEpsn conn) with
    stale | expected | ahead
  · rw [packetHandler_stale routed bound origin admissible invariant.inForce
      plain stale]
    exact .refl _
  · rw [packetHandler_incomplete routed bound origin admissible rfl
      invariant.inForce plain expected (incomplete expected)]
    refine ⟨⟨rfl, rfl, rfl, rfl⟩, rfl, rfl, rfl, rfl, ?_⟩
    intro index
    by_cases here : index = idx packet.psn
    · subst here
      simp only [SwitchContext.afterContribution,
        SwitchContext.setPsnState_psnStates, Function.update_self]
      exact ⟨rfl, rfl, rfl⟩
    · simp only [SwitchContext.afterContribution,
        SwitchContext.setPsnState_psnStates, Function.update_of_ne here]
      exact .refl _
  · rw [packetHandler_ahead routed bound origin admissible invariant.inForce
      plain ahead]
    exact .refl _

/-- A NAK, or an ACK that the switch has a later one for. -/
theorem ctx_of_ignored (invariant : tracked.Invariant addressing hosts)
    (bound : conn < hosts) (origin : packet.From addressing conn)
    (opcode : packet.opcode = rdmaOpcodeAck)
    (ignored : packet.isNak = false →
      packet.psn ≤ tracked.ctx.latestAck conn) :
    (track tracked (conn, packet)).1.ctx = tracked.ctx := by
  show (packetHandler tracked.ctx conn packet).1 = _
  rw [packetHandler_ack invariant.deployed.toRouted bound origin opcode
    invariant.inForce
    (show Collective.allreduce.Admissible hosts conn from trivial)]
  cases nak : packet.isNak with
  | true => rfl
  | false =>
      rw [handleUpstreamAck, if_neg Bool.false_ne_true,
        if_neg (Nat.not_lt.mpr (ignored nak))]

theorem Invariant.step (invariant : tracked.Invariant addressing hosts)
    (arrives : tracked.Arrival addressing hosts arrival)
    (orderly : tracked.Orderly hosts arrival) :
    (track tracked arrival).1.Invariant addressing hosts ∧
      tracked.StepRight hosts arrival := by
  cases arrives with
  | control bound origin announces =>
      exact invariant.quiet (quiet_control invariant bound origin announces)
        (acked_of_not_acknowledges announces.not_acknowledges)
  | @data conn packet bound origin plain =>
      by_cases complete : packet.psn = tracked.ctx.aggEpsn conn ∧
          (tracked.ctx.psnStates (idx packet.psn)).degree + 1 = hosts
      · exact invariant.result bound origin plain complete.1 complete.2
          (orderly.free plain complete.1 complete.2)
      · exact invariant.quiet
          (quiet_data invariant bound origin plain fun expected last =>
            complete ⟨expected, last⟩)
          (acked_of_not_acknowledges plain.not_acknowledges)
  | @ack conn packet bound origin opcode sent =>
      by_cases acknowledges : packet.Acknowledges
      · rcases orderly.ack acknowledges with
          ⟨old, ignored⟩ | ⟨next, later, result, found, own⟩
        · have same := ctx_of_ignored invariant bound origin opcode
            fun _ => ignored
          refine invariant.quiet (same ▸ .refl _) ?_
          have most : max (tracked.acked conn) (packet.psn + 1) =
              tracked.acked conn := Nat.max_eq_left old
          show (if packet.Acknowledges then Function.update tracked.acked conn
            (max (tracked.acked conn) (packet.psn + 1))
              else tracked.acked) = _
          rw [if_pos acknowledges, most, Function.update_eq_self]
        · exact invariant.counted bound origin acknowledges
            (sent acknowledges) next later found own
      · have same := ctx_of_ignored invariant bound origin opcode
          fun notNak => absurd ⟨opcode, notNak⟩ acknowledges
        exact invariant.quiet (same ▸ .refl _)
          (acked_of_not_acknowledges acknowledges)

/-- A deployed switch with no broadcast under way. -/
structure Ready (addressing : Addressing) (hosts : Nat) (ctx : SwitchContext) :
    Prop where
  deployed : Deployed addressing hosts ctx
  inForce : ctx.InForce .allreduce
  released : ∀ index, (ctx.psnStates index).Released

theorem Ready.invariant {ctx : SwitchContext}
    (ready : Ready addressing hosts ctx) :
    (Tracked.start ctx).Invariant addressing hosts where
  deployed := ready.deployed
  inForce := ready.inForce
  acked_le _ := Nat.le_refl _
  empty index _ := ready.released index
  holds _ _ found := nomatch found
  sent _ _ found := nomatch found
  distinct _ _ found := nomatch found

/-- Broadcast buffers are released by the right ACKs in every orderly run. -/
theorem stepRight_of_orderly {ctx : SwitchContext}
    (ready : Ready addressing hosts ctx) {arrivals : List (Nat × Packet)}
    (arrive : Admits track (fun tracked arrival =>
      tracked.Arrival addressing hosts arrival) (.start ctx) arrivals)
    (orderly : Admits track (fun tracked arrival =>
      tracked.Orderly hosts arrival) (.start ctx) arrivals) :
    Admits track (fun tracked arrival => tracked.StepRight hosts arrival)
      (.start ctx) arrivals := by
  have invariant := ready.invariant
  generalize Tracked.start ctx = tracked at *
  induction arrivals generalizing tracked with
  | nil => trivial
  | cons arrival arrivals induction =>
      obtain ⟨after, right⟩ := invariant.step arrive.1 orderly.1
      exact ⟨right, induction _ arrive.2 orderly.2 after⟩

/-- Two hosts, to each of which `sent` frames have been sent before. -/
def twoHostsAfter (sent : Nat) : SwitchContext :=
  { twoHosts.context with sendPsn := fun _ => sent }

theorem ready_twoHostsAfter (sent : Nat) :
    Ready twoHosts.addressing 2 (twoHostsAfter sent) where
  deployed := (twoHosts.context_configured.deployed (by decide)).congr
    ⟨rfl, rfl, rfl, rfl⟩
  inForce := rfl
  released _ := ⟨rfl, rfl, fun _ => rfl⟩

/-- Both hosts contribute one packet and acknowledge the result. -/
def oneResult (sent : Nat) : List (Nat × Packet) :=
  [(0, twoHosts.addressing.controlPacket 0 0 .allreduce 0),
    (1, twoHosts.addressing.controlPacket 1 0 .allreduce 0),
    (0, twoHosts.addressing.dataPacket 0 1 rdmaOpcodeSendOnly [htonl 1]),
    (1, twoHosts.addressing.dataPacket 1 1 rdmaOpcodeSendOnly [htonl 2]),
    (0, twoHosts.addressing.dataPacket 0 sent rdmaOpcodeAck [0]),
    (1, twoHosts.addressing.dataPacket 1 sent rdmaOpcodeAck [0])]

theorem oneResult_arrives (sent : Nat) (few : sent < 2) :
    Admits track
      (fun tracked arrival => tracked.Arrival twoHosts.addressing 2 arrival)
      (.start (twoHostsAfter sent)) (oneResult sent) := by
  have announces : ∀ conn < 2,
      (twoHosts.addressing.controlPacket conn 0 .allreduce 0).Announces
        .allreduce := fun conn bound =>
    Addressing.controlPacket_announces (by decide) bound trivial
  interval_cases sent
  all_goals
    exact ⟨.control (by decide) ⟨rfl, rfl⟩ (announces 0 (by decide)),
      .control (by decide) ⟨rfl, rfl⟩ (announces 1 (by decide)),
      .data (by decide) ⟨rfl, rfl⟩ ⟨rfl, rfl⟩,
      .data (by decide) ⟨rfl, rfl⟩ ⟨rfl, rfl⟩,
      .ack (by decide) ⟨rfl, rfl⟩ rfl fun _ => by decide +kernel,
      .ack (by decide) ⟨rfl, rfl⟩ rfl fun _ => by decide +kernel, trivial⟩

/-- The result with PSN 1 goes out under PSN 1 and is released. -/
theorem stepRight_of_orderly_oneResult :
    Admits track (fun tracked arrival => tracked.StepRight 2 arrival)
      (.start (twoHostsAfter 1)) (oneResult 1) := by
  refine stepRight_of_orderly (ready_twoHostsAfter 1)
    (oneResult_arrives 1 (by decide)) ?_
  refine ⟨⟨?_, ?_⟩, ⟨?_, ?_⟩, ⟨?_, ?_⟩, ⟨?_, ?_⟩, ⟨?_, ?_⟩, ⟨?_, ?_⟩, trivial⟩
  · exact fun plain => absurd plain.hasImmData (by decide)
  · exact fun acknowledges => absurd acknowledges.1 (by decide)
  · exact fun plain => absurd plain.hasImmData (by decide)
  · exact fun acknowledges => absurd acknowledges.1 (by decide)
  · exact fun _ _ _ => by decide +kernel
  · exact fun acknowledges => absurd acknowledges.1 (by decide)
  · exact fun _ _ _ => by decide +kernel
  · exact fun acknowledges => absurd acknowledges.1 (by decide)
  · exact fun plain => absurd plain.isSend (by decide)
  · exact fun _ => .inr ⟨by decide +kernel, by decide +kernel,
      by decide +kernel⟩
  · exact fun plain => absurd plain.isSend (by decide)
  · exact fun _ => .inr ⟨by decide +kernel, by decide +kernel,
      by decide +kernel⟩

/-- On a fresh switch the same result goes out under PSN 0, and both
acknowledgements of it are ignored. -/
theorem not_always_stepRight :
    ¬∀ ctx : SwitchContext, Ready twoHosts.addressing 2 ctx →
      ∀ arrivals, Admits track (fun tracked arrival =>
          tracked.Arrival twoHosts.addressing 2 arrival) (.start ctx) arrivals →
        Admits track (fun tracked arrival => tracked.StepRight 2 arrival)
          (.start ctx) arrivals := by
  intro always
  have right := (always (twoHostsAfter 0) (ready_twoHostsAfter 0) (oneResult 0)
    (oneResult_arrives 0 (by decide))).2.2.2.2.2.1.right
  have held := right.held 1
    (((feed track (.start (twoHostsAfter 0)) (oneResult 0)).1.results 1).get
      (by decide +kernel)) (Option.get_mem _)
  have covered : Covered 2
      (feed track (.start (twoHostsAfter 0)) (oneResult 0)).1.acked
      (((feed track (.start (twoHostsAfter 0)) (oneResult 0)).1.results 1).get
        (by decide +kernel)) := by
    unfold Covered
    decide +kernel
  have free := held.2.mpr covered
  revert free
  decide +kernel

end Tracked

end IncEmulation
