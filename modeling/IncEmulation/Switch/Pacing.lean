import IncEmulation.Switch.Relay
import IncEmulation.Switch.Window

/-!
# Peers that get ahead of the ring

The source asserts that the slot of a packet is free and leaves flow control to
the peers.  These are the states from which a packet, an ACK or a NAK stops the
switch, in terms of the record.
-/

namespace IncEmulation.Switch

open Gather Loop

/-- An AllReduce whose peers acknowledge what they were sent. -/
def InPace (config : Config) (world : World) (event : Event) : Prop :=
  InDomain config world event ∧ AcksSums world event

instance (config : Config) (world : World) (event : Event) :
    Decidable (InPace config world event) :=
  inferInstanceAs (Decidable (_ ∧ _))

/-- The cursors of a root stand at the slowest child. -/
structure Level (globals : Globals) (streams : Nat → List Packet)
    (next : Nat) : Prop where
  frontier : Frontier fanIn (count streams) next
  downEpsn : globals.downEpsn = next
  downAck : globals.downAck = next - 1

structure Pacing (config : Config) (world : World) : Prop where
  settled : world.globals.Settled
  acks : Acks config world.globals world.log
  standby : Standby config world.globals
  collecting : Collecting world.globals (children world.log)
  window : Window world.globals (children world.log)
  inner : config.root = false → Relaying world
  root : config.root = true →
    ∃ next, Level world.globals (children world.log) next

section Steps

variable {config : Config} {world next : World} {conn fuel : Nat}
  {packet : Packet} {rule : Rule} {frames : List Frame} {event : Event}
  {globals : Globals} {log : List Entry}

theorem Standby.step (standby : Standby config world.globals)
    (carries : CarriesAllReduce config event)
    (taken : Switch.step config fuel world event = some next) :
    Standby config next.globals := by
  rcases step_cases taken with
    ⟨conn, packet, frames, rule, rfl, found, handled, -⟩ |
    ⟨id, queue, rfl, queued, rfl⟩ |
    ⟨index, job, rfl, found, round⟩
  · exact standby.handled carries found handled
  · have isFirst : id ∈ world.globals.queue := queued ▸ List.mem_cons_self
    refine ⟨fun other member => ?_, fun job member => ?_, standby.operation⟩
    · exact standby.queued other (queued ▸ List.mem_cons_of_mem id member)
    · rcases List.mem_append.mp member with old | new
      · exact standby.active job old
      · rw [List.mem_singleton.mp new]
        exact standby.queued id isFirst
  · have active := standby.active job (List.mem_of_getElem? found)
    rcases round with ⟨-, rfl⟩ | ⟨-, rfl⟩
    · refine ⟨standby.queued, fun other member => ?_, standby.operation⟩
      rcases List.mem_or_eq_of_mem_set member with old | rfl
      · exact standby.active other old
      · exact active
    · exact ⟨standby.queued, fun other member =>
        standby.active other (List.mem_of_mem_eraseIdx member),
        standby.operation⟩

theorem Acks.step (acks : Acks config world.globals world.log)
    (settled : world.globals.Settled) (sent : AcksBroadcast world event)
    (taken : Switch.step config fuel world event = some next) :
    Acks config next.globals next.log := by
  rcases step_cases taken with
    ⟨conn, packet, frames, rule, rfl, found, handled, log⟩ |
    ⟨id, queue, rfl, queued, rfl⟩ |
    ⟨index, job, rfl, found, ⟨-, rfl⟩ | ⟨-, rfl⟩⟩
  · rw [log]
    exact acks.handled settled handled sent
  · exact ⟨acks.child, acks.parent⟩
  · refine ⟨fun i isChild psn nonneg => ?_, fun notRoot psn nonneg => ?_⟩
    · rw [acknowledgedBy_append_sent]
      exact acks.child i isChild psn nonneg
    · rw [acknowledgedBy_append_sent]
      exact acks.parent notRoot psn nonneg
  · exact ⟨acks.child, acks.parent⟩

theorem Window.stays (window : Window globals (children world.log))
    (collecting : Collecting world.globals (children world.log))
    (aggEpsn : globals.aggEpsn = world.globals.aggEpsn)
    (handled : packetHandler config fuel world.globals conn packet =
      some (globals, frames)) :
    Window globals (children
      (world.log ++ .received conn packet :: frames.map Entry.sent)) := by
  rw [children_of_stay collecting aggEpsn handled]
  exact window

theorem Window.handled (window : Window world.globals (children world.log))
    (collecting : Collecting world.globals (children world.log))
    (covers : conn = fanIn → packet.opcode = 0x11 →
      ∀ i < fanIn, packet.acknowledges < count (children world.log) i)
    (allreduce : Fresh world.globals conn packet →
      (operationOf config world.globals packet).1 =
        config.operationTypeAllreduce)
    (handled : packetHandler config fuel world.globals conn packet =
      some (globals, frames)) :
    Window globals (children
      (world.log ++ .received conn packet :: frames.map Entry.sent)) := by
  obtain ⟨rule, -, cases⟩ := packetHandler_cases handled
  cases cases with
  | replied => exact window.stays collecting rfl handled
  | broadcast _ _ _ cached =>
      have same := sameAggregation_of_cache cached
      refine (window.congr same.aggBuffer same.downAck).stays collecting ?_
        handled
      obtain ⟨-, rfl, -⟩ := cache_eq_some cached
      rfl
  | waiting fresh =>
      rw [children_of_fresh fresh collecting]
      exact window.contribute collecting fresh
  | uploaded fresh =>
      rw [children_of_fresh fresh collecting]
      exact window.contribute collecting fresh
  | finished fresh _ full finished =>
      rw [children_of_fresh fresh collecting]
      have contributed : Window (gathered config world.globals conn packet)
          (extend (children world.log) conn packet) :=
        window.contribute collecting fresh
      rcases finish_cases finished with ⟨cached, -, took, covered⟩ |
        ⟨notAllreduce, -⟩
      · have same := sameAggregation_of_cache took
        exact (contributed.congr same.aggBuffer same.downAck).covers
          (fun i bound =>
            Int.ofNat_lt.mpr (collecting.passed fresh full i bound)) covered
      · exact absurd (allreduce fresh) notAllreduce
  | parentAck isParent _ isAckPacket covered =>
      have passed := covers isParent isAckPacket.opcode
      rw [isAckPacket.acknowledges_ack] at passed
      exact (window.covers passed covered).stays collecting
        (aggEpsn_of_downAckCovers covered) handled
  | parentNak isParent _ isAckPacket covered =>
      have passed := covers isParent isAckPacket.opcode
      rw [isAckPacket.acknowledges_nak] at passed
      exact (window.covers passed covered).stays collecting
        (aggEpsn_of_downAckCovers covered) handled
  | childAck _ _ taken =>
      have same := sameAggregation_of_upstreamAck taken
      exact (window.congr same.aggBuffer same.downAck).stays collecting
        (quiet_of_upstreamAck taken).aggEpsn handled
  | childNak _ _ taken =>
      have same := sameAggregation_of_upstreamNak taken
      exact (window.congr same.aggBuffer same.downAck).stays collecting
        (quiet_of_upstreamNak taken).aggEpsn handled

variable {streams : Nat → List Packet} {next' : Nat}

theorem Level.stays (level : Level world.globals (children world.log) next')
    (collecting : Collecting world.globals (children world.log))
    (quiet : Quiet world.globals globals frames)
    (downAck : globals.downAck = world.globals.downAck)
    (handled : packetHandler config fuel world.globals conn packet =
      some (globals, frames)) :
    Level globals (children
      (world.log ++ .received conn packet :: frames.map Entry.sent))
      next' := by
  rw [children_of_stay collecting quiet.aggEpsn handled]
  exact ⟨level.frontier, quiet.downEpsn.trans level.downEpsn,
    downAck.trans level.downAck⟩

/-- The last packet of a PSN moves the cursors of the root. -/
theorem Level.finished (level : Level globals streams next')
    (collecting : Collecting globals streams)
    (fresh : Fresh globals conn packet)
    (full : (gathered config globals conn packet).aggDegree
      (idx packet.psn) = fanIn)
    (allreduce : (operationOf config globals packet).1 =
      config.operationTypeAllreduce)
    {after : Globals}
    (finished : finish config fuel (gathered config globals conn packet) rule
      (contributionOf config globals packet) = some (after, frames)) :
    Level after (extend streams conn packet) (next' + 1) := by
  have isNext := fresh.psn_eq collecting
  have last := (collecting.full_iff fresh).mp full
  have isFrontier := level.frontier.eq_of_last fresh.isChild last
  rcases finish_cases finished with ⟨cached, -, took, covered⟩ |
    ⟨notAllreduce, -⟩
  · have downEpsn := downEpsn_of_cache took
    have downAck := (sameAggregation_of_cache took).downAck
    have before : (gathered config globals conn packet).downEpsn =
      globals.downEpsn := rfl
    have before' : (gathered config globals conn packet).downAck =
      globals.downAck := rfl
    have isPsn : (contributionOf config globals packet).psn =
      (packet.psn : Int) := rfl
    refine ⟨?_, ?_, ?_⟩
    · rw [count_extend, isFrontier]
      exact Frontier.advance_of_last fresh.isChild last
    · rw [(sameBroadcast_of_downAckCovers covered).downEpsn, downEpsn, before,
        level.downEpsn]
      rfl
    · rw [downAck_of_downAckCovers covered, downAck, before', level.downAck,
        isPsn, isNext, ← isFrontier]
      push_cast
      omega
  · exact absurd allreduce notAllreduce

theorem Level.handled (level : Level world.globals (children world.log) next')
    (collecting : Collecting world.globals (children world.log))
    (isRoot : config.root = true)
    (allreduce : Fresh world.globals conn packet →
      (operationOf config world.globals packet).1 =
        config.operationTypeAllreduce)
    (handled : packetHandler config fuel world.globals conn packet =
      some (globals, frames)) :
    ∃ after, Level globals (children
      (world.log ++ .received conn packet :: frames.map Entry.sent))
      after := by
  obtain ⟨rule, found, cases⟩ := packetHandler_cases handled
  have notParent : conn ≠ fanIn := fun isParent =>
    (lookupRule_eq_some found).2.1 ⟨isRoot, isParent⟩
  cases cases with
  | replied _ replies =>
      exact ⟨next', level.stays collecting (quiet_of_replies replies) rfl
        handled⟩
  | broadcast isParent => exact absurd isParent notParent
  | waiting fresh notFull =>
      rw [children_of_fresh fresh collecting]
      have owed := mt (collecting.full_iff fresh).mpr notFull
      push Not at owed
      obtain ⟨other, bound, different, waits⟩ := owed
      refine ⟨next', ?_, level.downEpsn, level.downAck⟩
      rw [count_extend]
      exact level.frontier.advance_of_owed bound different waits
  | uploaded _ notRoot => exact Bool.noConfusion (notRoot.symm.trans isRoot)
  | finished fresh _ full finished =>
      rw [children_of_fresh fresh collecting]
      exact ⟨next' + 1, level.finished collecting fresh full (allreduce fresh)
        finished⟩
  | parentAck isParent => exact absurd isParent notParent
  | parentNak isParent => exact absurd isParent notParent
  | childAck _ _ taken =>
      exact ⟨next', level.stays collecting (quiet_of_upstreamAck taken)
        (sameAggregation_of_upstreamAck taken).downAck handled⟩
  | childNak _ _ taken =>
      exact ⟨next', level.stays collecting (quiet_of_upstreamNak taken)
        (sameAggregation_of_upstreamNak taken).downAck handled⟩

theorem Pacing.covers (pacing : Pacing config world)
    (acks : AcksSums world (.packet conn packet))
    (found : config.lookupRule conn = some rule) :
    conn = fanIn → packet.opcode = 0x11 →
      ∀ i < fanIn, packet.acknowledges < count (children world.log) i := by
  intro isParent
  have notRoot : config.root = false := by
    rw [← Bool.not_eq_true]
    exact fun isRoot => (lookupRule_eq_some found).2.1 ⟨isRoot, isParent⟩
  exact (pacing.inner notRoot).covers acks isParent

theorem Pacing.step (pacing : Pacing config world)
    (inPace : InPace config world event)
    (taken : Switch.step config fuel world event = some next) :
    Pacing config next := by
  obtain ⟨⟨sent, carries⟩, sums⟩ := inPace
  have settled := step_settled pacing.settled sent taken
  have acks := pacing.acks.step pacing.settled sent taken
  have standby := pacing.standby.step carries taken
  have inner : config.root = false → Relaying next := fun notRoot =>
    (pacing.inner notRoot).step notRoot sums taken
  cases event with
  | packet conn packet =>
      obtain ⟨⟨globals, frames⟩, handled, rest⟩ :=
        Option.bind_eq_some_iff.mp taken
      cases rest
      obtain ⟨rule, found, -⟩ := packetHandler_cases handled
      have covers := pacing.covers sums found
      have allreduce : Fresh world.globals conn packet →
          (operationOf config world.globals packet).1 =
            config.operationTypeAllreduce := pacing.standby.allreduce carries
      refine ⟨settled, acks, standby,
        pacing.collecting.handled covers handled,
        pacing.window.handled pacing.collecting covers allreduce handled,
        inner, fun isRoot => ?_⟩
      obtain ⟨next', level⟩ := pacing.root isRoot
      exact level.handled pacing.collecting isRoot allreduce handled
  | start =>
      rcases step_cases taken with ⟨_, _, _, _, isPacket, -⟩ |
        ⟨id, queue, -, -, rfl⟩ | ⟨_, _, isRound, -⟩
      · cases isPacket
      · exact ⟨settled, acks, standby,
          pacing.collecting.congr rfl rfl rfl rfl, pacing.window.congr rfl rfl,
          inner, fun isRoot => by
            obtain ⟨next', frontier, downEpsn, downAck⟩ := pacing.root isRoot
            exact ⟨next', frontier, downEpsn, downAck⟩⟩
      · cases isRound
  | round index =>
      have same : children next.log = children world.log ∧
          next.globals.aggBuffer = world.globals.aggBuffer ∧
          next.globals.aggDegree = world.globals.aggDegree ∧
          next.globals.arrivalState = world.globals.arrivalState ∧
          next.globals.aggEpsn = world.globals.aggEpsn ∧
          next.globals.downEpsn = world.globals.downEpsn ∧
          next.globals.downAck = world.globals.downAck := by
        rcases step_cases taken with ⟨_, _, _, _, isPacket, -⟩ |
          ⟨_, _, isStart, -⟩ | ⟨index, job, -, -, ⟨-, rfl⟩ | ⟨-, rfl⟩⟩
        · cases isPacket
        · cases isStart
        · exact ⟨children_append_sent, rfl, rfl, rfl, rfl, rfl, rfl⟩
        · exact ⟨rfl, rfl, rfl, rfl, rfl, rfl, rfl⟩
      obtain ⟨log, aggBuffer, aggDegree, arrival, aggEpsn, downEpsn,
        downAck⟩ := same
      refine ⟨settled, acks, standby, ?_, ?_, inner, fun isRoot => ?_⟩
      · rw [log]
        exact pacing.collecting.congr aggBuffer aggDegree arrival aggEpsn
      · rw [log]
        exact pacing.window.congr aggBuffer downAck
      · obtain ⟨next', level⟩ := pacing.root isRoot
        rw [log]
        exact ⟨next', level.frontier, downEpsn.trans level.downEpsn,
          downAck.trans level.downAck⟩

end Steps

end IncEmulation.Switch
