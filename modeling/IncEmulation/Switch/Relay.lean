import IncEmulation.Switch.Exactness

/-!
# What an inner switch relays

The parent of an inner switch is sent the sums of its children, and the
children are sent what the parent sent.
-/

namespace IncEmulation.Switch

open Gather Loop

/-- The frame that relays a packet of the parent. -/
def Packet.relayed (packet : Packet) (conn : Nat) : Frame :=
  ⟨conn, .data, packet.psn, packet.opcode, packet.payload⟩

/-- What an inner switch has sent: the sums of its children to its parent, and
the packets of its parent to every child. -/
structure Relayed (log : List Entry) : Prop where
  sums : ExactSums log fanIn
  packets : ∀ i < fanIn, sentData log i =
    (taken log fanIn).map fun packet => packet.relayed i

structure Relaying (world : World) : Prop where
  collecting : Collecting world.globals (children world.log)
  cursor : world.globals.downEpsn = (taken world.log fanIn).length
  relayed : Relayed world.log

/-- The parent acknowledges what it was sent. -/
def AcksSums (world : World) : Event → Prop
  | .packet conn packet =>
      conn = fanIn → packet.opcode = 0x11 →
        packet.acknowledges < (sentData world.log fanIn).length
  | _ => True

instance (world : World) : DecidablePred (AcksSums world)
  | .packet _ _ => inferInstanceAs (Decidable (_ → _ → _))
  | .start => .isTrue trivial
  | .round _ => .isTrue trivial

section Inner

variable {config : Config} {fuel : Nat} {world next : World} {conn : Nat}
  {packet : Packet} {frames : List Frame} {rule : Rule} {globals : Globals}
  {event : Event}

theorem Relaying.covers (relaying : Relaying world)
    (acks : AcksSums world (.packet conn packet)) :
    conn = fanIn → packet.opcode = 0x11 →
      ∀ i < fanIn, packet.acknowledges < count (children world.log) i := by
  intro isParent opcode i bound
  have sent := acks isParent opcode
  have reached := relaying.relayed.sums.frontier.le i bound
  omega

theorem Relaying.quiet (relaying : Relaying world)
    (acks : AcksSums world (.packet conn packet))
    (handled : packetHandler config fuel world.globals conn packet =
      some (globals, frames)) (quiet : Quiet world.globals globals frames) :
    Relaying ⟨globals,
      world.log ++ .received conn packet :: frames.map Entry.sent⟩ := by
  have sameChildren :=
    children_of_stay relaying.collecting quiet.aggEpsn handled
  have sameTaken := taken_of_stay relaying.cursor quiet.downEpsn handled
  refine ⟨relaying.collecting.handled (relaying.covers acks) handled, ?_, ?_,
    ?_⟩
  · rw [quiet.downEpsn, sameTaken]
    exact relaying.cursor
  · exact relaying.relayed.sums.congr sameChildren quiet.sentData
  · intro i bound
    rw [quiet.sentData, sameTaken]
    exact relaying.relayed.packets i bound

theorem send_of_cached (noAck : packet.opcode ≠ 0x11) {psn : Int}
    {data : Nat → UInt32} {len : Nat} {packetType : UInt8}
    {more : List Frame}
    (cached : cache world.globals rule psn data len packetType =
      some (globals, more))
    (handled : packetHandler config fuel world.globals conn packet =
      some (globals, frames)) : packet.opcode ∈ sendOpcodes := by
  by_contra noSend
  obtain ⟨same, -⟩ := packetHandler_unknown noSend noAck handled
  have grown := downEpsn_of_cache cached
  rw [same] at grown
  omega

theorem words_cachedSlot {psn : Int} {packetType : UInt8} :
    (cachedSlot world.globals psn packet.data packet.dataLen packetType).words =
      packet.payload :=
  List.map_congr_left fun _ member => if_pos (List.mem_range.mp member)

/-- A packet of the parent goes to every child. -/
theorem Relaying.broadcast (relaying : Relaying world)
    (acks : AcksSums world (.packet conn packet))
    (isParent : conn = fanIn) (noAck : packet.opcode ≠ 0x11)
    (found : config.lookupRule conn = some rule)
    (cached : cache world.globals rule packet.psn packet.data packet.dataLen
      packet.opcode = some (globals, frames))
    (handled : packetHandler config fuel world.globals conn packet =
      some (globals, forwarding rule packet.psn .ack [] 0x11 ++ frames)) :
    Relaying ⟨globals, world.log ++ .received conn packet ::
      (forwarding rule packet.psn .ack [] 0x11 ++ frames).map Entry.sent⟩ := by
  have collecting :=
    relaying.collecting.handled (relaying.covers acks) handled
  have outConns := outConns_of_broadcast found (Or.inr isParent)
  have send := send_of_cached noAck cached handled
  obtain ⟨isNext, sameGlobals, isFrames⟩ := cache_eq_some cached
  have aggEpsn : globals.aggEpsn = world.globals.aggEpsn := by
    rw [sameGlobals]
  have downEpsn := downEpsn_of_cache cached
  have sameChildren := children_of_stay relaying.collecting aggEpsn handled
  have grown := @taken_of_cached world.globals conn packet
    (forwarding rule packet.psn .ack [] 0x11 ++ frames) world.log isParent
    send relaying.cursor isNext.symm
  have sent : ∀ target, sentData (world.log ++ .received conn packet ::
      (forwarding rule packet.psn .ack [] 0x11 ++ frames).map Entry.sent)
        target = sentData world.log target ++
          if target < fanIn then [packet.relayed target] else [] := by
    intro target
    rw [sentData_handled, dataTo_ack_append, isFrames,
      dataTo_forwarding (outConns ▸ List.nodup_range), words_cachedSlot,
      outConns]
    simp only [List.mem_range]
    rfl
  refine ⟨collecting, ?_, ⟨?_, ?_⟩⟩
  · rw [downEpsn, grown, relaying.cursor, List.length_append]
    rfl
  · refine relaying.relayed.sums.congr sameChildren ?_
    rw [sent, if_neg (lt_irrefl fanIn), List.append_nil]
  · intro i bound
    rw [sent, if_pos bound, grown, List.map_append,
      relaying.relayed.packets i bound]
    rfl

/-- A packet of a child whose PSN others still owe. -/
theorem Relaying.waiting (relaying : Relaying world)
    (acks : AcksSums world (.packet conn packet))
    (fresh : Fresh world.globals conn packet)
    (notFull : (gathered config world.globals conn packet).aggDegree
      (idx packet.psn) ≠ fanIn)
    (handled : packetHandler config fuel world.globals conn packet =
      some (gathered config world.globals conn packet,
        forwarding rule packet.psn .ack [] 0x11)) :
    Relaying ⟨gathered config world.globals conn packet,
      world.log ++ .received conn packet ::
        (forwarding rule packet.psn .ack [] 0x11).map Entry.sent⟩ := by
  have grown := @children_of_fresh world.globals conn packet
    (forwarding rule packet.psn .ack [] 0x11) world.log fresh
    relaying.collecting
  have noData : ∀ target, dataTo target
      (forwarding rule packet.psn .ack [] 0x11) = [] := fun target =>
    dataTo_reply (by decide)
  have downEpsn : (gathered config world.globals conn packet).downEpsn =
    world.globals.downEpsn := rfl
  have sameTaken := taken_of_stay relaying.cursor downEpsn handled
  refine ⟨relaying.collecting.handled (relaying.covers acks) handled, ?_,
    ⟨?_, ?_⟩⟩
  · rw [sameTaken]
    exact relaying.cursor
  · refine relaying.relayed.sums.owed ?_ grown ?_
    · rwa [← relaying.collecting.full_iff fresh]
    · rw [sentData_handled, noData, List.append_nil]
  · intro i bound
    rw [sentData_handled, noData, List.append_nil, sameTaken]
    exact relaying.relayed.packets i bound

/-- The last packet of a PSN goes up with its sum. -/
theorem Relaying.uploaded (relaying : Relaying world)
    (acks : AcksSums world (.packet conn packet))
    (fresh : Fresh world.globals conn packet)
    (outConns : rule.outConns = [fanIn])
    (full : (gathered config world.globals conn packet).aggDegree
      (idx packet.psn) = fanIn) :
    let slot := (gathered config world.globals conn packet).aggBuffer
      (idx packet.psn)
    let frames := forwarding rule packet.psn .ack [] 0x11 ++
      forwarding rule packet.psn .data slot.words slot.packetType
    packetHandler config fuel world.globals conn packet =
      some (gathered config world.globals conn packet, frames) →
    Relaying ⟨gathered config world.globals conn packet,
      world.log ++ .received conn packet :: frames.map Entry.sent⟩ := by
  intro slot frames handled
  have isNext := fresh.psn_eq relaying.collecting
  have grown := @children_of_fresh world.globals conn packet frames world.log
    fresh relaying.collecting
  have sent : ∀ target, dataTo target frames =
      if target = fanIn then
        [⟨fanIn, .data, packet.psn, slot.packetType, slot.words⟩]
      else [] := by
    intro target
    rw [dataTo_ack_append,
      dataTo_forwarding (outConns ▸ List.nodup_singleton fanIn), outConns]
    simp only [List.mem_singleton]
    split
    · rename_i same
      rw [same]
    · rfl
  have downEpsn : (gathered config world.globals conn packet).downEpsn =
    world.globals.downEpsn := rfl
  have sameTaken := taken_of_stay relaying.cursor downEpsn handled
  have collecting :=
    relaying.collecting.handled (relaying.covers acks) handled
  refine ⟨collecting, ?_, ⟨?_, ?_⟩⟩
  · rw [sameTaken]
    exact relaying.cursor
  · have up : sentData (world.log ++ .received conn packet ::
        frames.map Entry.sent) fanIn = sentData world.log fanIn ++
          [⟨fanIn, .data, packet.psn, slot.packetType, slot.words⟩] := by
      rw [sentData_handled, sent, if_pos rfl]
    refine relaying.relayed.sums.last fresh.isChild
      ((relaying.collecting.full_iff fresh).mp full) grown up
      (congrArg Nat.cast isNext) ?_
    rw [← isNext]
    exact relaying.collecting.carriesTotal fresh full
  · intro i bound
    rw [sentData_handled, sent, if_neg bound.ne, List.append_nil, sameTaken]
    exact relaying.relayed.packets i bound

theorem Relaying.handled (relaying : Relaying world)
    (inner : config.root = false)
    (acks : AcksSums world (.packet conn packet))
    (handled : packetHandler config fuel world.globals conn packet =
      some (globals, frames)) :
    Relaying ⟨globals,
      world.log ++ .received conn packet :: frames.map Entry.sent⟩ := by
  obtain ⟨rule, found, cases⟩ := packetHandler_cases handled
  cases cases with
  | replied _ replies =>
      exact relaying.quiet acks handled (quiet_of_replies replies)
  | broadcast isParent noAck _ cached =>
      exact relaying.broadcast acks isParent noAck found cached handled
  | waiting fresh notFull => exact relaying.waiting acks fresh notFull handled
  | uploaded fresh notRoot full =>
      exact relaying.uploaded acks fresh
        (outConns_of_upload found notRoot fresh.isChild) full handled
  | finished _ isRoot => exact Bool.noConfusion (inner.symm.trans isRoot)
  | parentAck _ _ _ covered =>
      exact relaying.quiet acks handled
        (quiet_of_downAckCovers covered fun _ => rfl)
  | parentNak _ _ _ covered returned =>
      exact relaying.quiet acks handled
        (quiet_of_downAckCovers covered (dataTo_resent returned))
  | childAck _ _ taken =>
      exact relaying.quiet acks handled (quiet_of_upstreamAck taken)
  | childNak _ _ taken =>
      exact relaying.quiet acks handled (quiet_of_upstreamNak taken)

theorem Relaying.step (relaying : Relaying world)
    (inner : config.root = false) (acks : AcksSums world event)
    (taken : Switch.step config fuel world event = some next) :
    Relaying next := by
  obtain ⟨collecting, cursor, sums, packets⟩ := relaying
  cases event with
  | packet conn packet =>
      obtain ⟨⟨globals, frames⟩, handled, rest⟩ :=
        Option.bind_eq_some_iff.mp taken
      cases rest
      exact Relaying.handled ⟨collecting, cursor, sums, packets⟩ inner acks
        handled
  | start =>
      rcases step_cases taken with ⟨_, _, _, _, isPacket, -⟩ |
        ⟨id, queue, -, -, rfl⟩ | ⟨_, _, isRound, -⟩
      · cases isPacket
      · exact ⟨collecting.congr rfl rfl rfl rfl, cursor, sums, packets⟩
      · cases isRound
  | round index =>
      rcases step_cases taken with ⟨_, _, _, _, isPacket, -⟩ |
        ⟨_, _, isStart, -⟩ | ⟨index, job, -, -, ⟨-, rfl⟩ | ⟨-, rfl⟩⟩
      · cases isPacket
      · cases isStart
      · refine ⟨?_, ?_, sums.congr children_append_sent sentData_retransmit,
          fun i bound => ?_⟩
        · rw [children_append_sent]
          exact collecting.congr rfl rfl rfl rfl
        · rw [taken_append_sent]
          exact cursor
        · rw [sentData_retransmit, taken_append_sent]
          exact packets i bound
      · exact ⟨collecting.congr rfl rfl rfl rfl, cursor, sums, packets⟩

theorem relaying_initial {memory : Globals} :
    Relaying (.initial config memory) := by
  refine ⟨collecting_initAll ?_, rfl, exactSums_nil, fun _ _ => rfl⟩
  intro i bound
  exact if_pos bound

theorem run_relaying {memory : Globals} {events : List Event}
    (inner : config.root = false)
    (taken : Machine.run (Switch.step config fuel) (.initial config memory)
      events = some world)
    (acks : Machine.Meets (Switch.step config fuel) AcksSums
      (.initial config memory) events) : Relaying world :=
  Machine.run_invariant Relaying
    (fun _ _ _ relaying acks taken => relaying.step inner acks taken)
    relaying_initial acks taken

end Inner

/-- In every run of an inner switch whose parent acknowledges what it was sent,
the parent has been sent the exact sums of the children, and every child the
packets of the parent. -/
theorem inner_relays_exactly (config : Config) (memory : Globals) (fuel : Nat)
    (events : List Event) (world : World) (inner : config.root = false)
    (taken : Machine.run (step config fuel) (.initial config memory) events =
      some world)
    (acks : Machine.Meets (step config fuel) AcksSums
      (.initial config memory) events) : Relayed world.log :=
  (run_relaying inner taken acks).relayed

/-- Two sums go up, one of them is acknowledged, and one packet comes down. -/
def relayEvents : List Event :=
  [.packet 0 (.word 0 7), .packet 0 (.word 1 8), .packet 1 (.word 0 30),
    .packet 1 (.word 1 40), .packet 2 (.ack 0), .packet 2 (.word 0 99)]

def relayWorld : World :=
  (Machine.run (step innerConfig 4) (.initial innerConfig zeroMemory)
    relayEvents).get (by decide +kernel)

theorem inner_relays_exactly_twoSums : Relayed relayWorld.log :=
  inner_relays_exactly innerConfig zeroMemory 4 relayEvents relayWorld rfl
    (Option.some_get _).symm (by decide +kernel)

example : (sentData relayWorld.log fanIn).map Frame.data = [[7], [48]] ∧
    (sentData relayWorld.log 1).map Frame.data = [[99]] := by
  decide +kernel

end IncEmulation.Switch
