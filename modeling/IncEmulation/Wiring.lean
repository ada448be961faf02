import IncEmulation.Outcome
import IncEmulation.System

/-!
# What every reachable state of the system keeps

`Moved` lists what one event changes.  `Wired` ties the links to the programs:
a link holds a prefix of the stream of its rank, packet `k` with PSN `k`, and
the switch expects the first packet it has not accepted.
-/

namespace IncEmulation

open Gather Machine

theorem Job.endsMessage_iff {frame : Frame} {k : Nat}
    (opcode : frame.packetType = Job.dataOpcode k) :
    frame.endsMessage = true ↔ k % 4 = 3 := by
  have isLast : (Job.dataSegment 0 k).isLast = decide (k % 4 + 1 = 4) := by
    rw [Segment.isLast, Job.dataSegment, Job.parts_dataWr]
  rw [Frame.endsMessage, opcode, Job.dataOpcode, Segment.plainOpcode, isLast]
  simp only [Job.dataSegment, decide_eq_true_eq]
  split_ifs with first last last
  · omega
  · exact iff_of_false (by decide) (by omega)
  · exact iff_of_true (by decide) (by omega)
  · exact iff_of_false (by decide) (by omega)

namespace System

/-- The NIC of a rank after a frame it takes. -/
def accept (system : System) (rank : Nat) (frame : Frame) (host : Host) :
    System :=
  { system.setHost rank host with
    received := Function.update system.received rank (system.received rank + 1)
    cursor := Function.update system.cursor rank
      (if frame.endsMessage then 0
        else system.cursor rank + frame.data.length) }

/-- What a frame makes of the host it reaches. -/
inductive Received (cluster : Cluster) (system : System) (rank : Nat)
    (frame : Frame) : System → Prop where
  | dropped
      (unfit : frame.type ≠ .data ∨
        frame.psn % 2 ^ 24 ≠ system.received rank % 2 ^ 24 ∨
        (system.hosts rank).qp.receives.length ≤
          (system.hosts rank).qp.receivesDone) :
      Received cluster system rank frame system
  | stored {wr : RecvWr}
      (posted : (system.hosts rank).qp.receives[
        (system.hosts rank).qp.receivesDone]? = some wr)
      (data : frame.type = .data)
      (expected : frame.psn % 2 ^ 24 = system.received rank % 2 ^ 24)
      (more : frame.endsMessage = false) :
      Received cluster system rank frame
        (system.accept rank frame ((system.hosts rank).store
          (wr.address + system.cursor rank) frame.data))
  | completed {wr : RecvWr} {host : Host}
      (posted : (system.hosts rank).qp.receives[
        (system.hosts rank).qp.receivesDone]? = some wr)
      (data : frame.type = .data)
      (expected : frame.psn % 2 ^ 24 = system.received rank % 2 ^ 24)
      (last : frame.endsMessage = true)
      (acted : ((system.hosts rank).store
        (wr.address + system.cursor rank) frame.data).act
          (cluster.job rank) .receiveCompletes = some host) :
      Received cluster system rank frame (system.accept rank frame host)

theorem receive_received (cluster : Cluster) (system : System) (rank : Nat)
    (frame : Frame) :
    Received cluster system rank frame
      (system.receive cluster rank frame) := by
  unfold receive
  dsimp only
  split
  case h_1 wr posted =>
    split_ifs with takes last
    · have acted : ((system.hosts rank).store
          (wr.address + system.cursor rank) frame.data).act
            (cluster.job rank) .receiveCompletes ≠ none := by
        simp [Host.act, QueuePair.completeReceive, Host.store, posted]
      obtain ⟨host, acted⟩ := Option.ne_none_iff_exists'.mp acted
      rw [acted]
      have result := Received.completed posted takes.1
        takes.2 last acted
      simpa [accept, last] using result
    · have result : Received cluster system rank frame _ :=
        .stored posted takes.1 takes.2 (by simpa using last)
      simpa [accept, last] using result
    · rcases not_and_or.mp takes with type | psn
      · exact .dropped (.inl type)
      · exact .dropped (.inr (.inl psn))
  case h_2 absent =>
    exact .dropped (.inr (.inr (List.getElem?_eq_none_iff.mp absent)))

/-- What one event changes. -/
inductive Moved (cluster : Cluster) (system : System) :
    Event → System → Prop where
  | host {rank : Nat} {host : Host} (bound : rank < cluster.hosts)
      (acted : (system.hosts rank).act (cluster.job rank) .step = some host) :
      Moved cluster system (.host rank) (system.setHost rank host)
  | transmit {rank : Nat} {segment : Segment} (bound : rank < cluster.hosts)
      (present : (segments (system.hosts rank).qp.sends)[
        (system.up rank).length]? = some segment) :
      Moved cluster system (.transmit rank)
        { system with
          up := Function.update system.up rank
            (system.up rank ++
              [(segment, segment.packet cluster.addressing rank
                (system.up rank).length (system.hosts rank).sendPayload)]) }
  | refused {rank : Nat} {segment : Segment} {packet : Packet}
      (bound : rank < cluster.hosts)
      (present : (system.up rank)[system.accepted rank]? =
        some (segment, packet))
      (stays : (packetHandler system.switch rank packet).1.aggEpsn rank =
        system.switch.aggEpsn rank) :
      Moved cluster system (.handle rank) (system.feedSwitch rank packet)
  | handled {rank : Nat} {segment : Segment} {packet : Packet}
      (bound : rank < cluster.hosts)
      (present : (system.up rank)[system.accepted rank]? =
        some (segment, packet))
      (moves : (packetHandler system.switch rank packet).1.aggEpsn rank ≠
        system.switch.aggEpsn rank) :
      Moved cluster system (.handle rank)
        { system.feedSwitch rank packet with
          accepted := Function.update system.accepted rank
            (system.accepted rank + 1) }
  | sendCompletes {rank : Nat} {host : Host} (bound : rank < cluster.hosts)
      (accepted : system.SendAccepted rank)
      (acted : (system.hosts rank).act (cluster.job rank) .sendCompletes =
        some host) :
      Moved cluster system (.sendCompletes rank) (system.setHost rank host)
  | acknowledge {rank : Nat} {packet : Packet} (bound : rank < cluster.hosts)
      (origin : packet.From cluster.addressing rank)
      (opcode : packet.opcode = rdmaOpcodeAck) :
      Moved cluster system (.acknowledge rank packet)
        (system.feedSwitch rank packet)
  | deliver {rank : Nat} {frame : Frame} {next : System}
      (bound : rank < cluster.hosts)
      (present : (system.down rank)[system.delivered rank]? = some frame)
      (received : Received cluster system rank frame next) :
      Moved cluster system (.deliver rank)
        { next with
          delivered := Function.update system.delivered rank
            (system.delivered rank + 1) }

variable {cluster : Cluster} {system next : System} {event : Event}

theorem moved_of_step (stepped : step cluster system event = some next) :
    Moved cluster system event next := by
  cases event with
  | host rank =>
      simp only [step] at stepped
      split_ifs at stepped with bound
      obtain ⟨host, acted, rfl⟩ := Option.map_eq_some_iff.mp stepped
      exact .host bound acted
  | transmit rank =>
      simp only [step, transmit] at stepped
      split_ifs at stepped with bound
      obtain ⟨segment, present, rfl⟩ := Option.map_eq_some_iff.mp stepped
      exact .transmit bound present
  | handle rank =>
      simp only [step, handle] at stepped
      split_ifs at stepped with bound
      obtain ⟨⟨segment, packet⟩, present, result⟩ :=
        Option.map_eq_some_iff.mp stepped
      split_ifs at result with stays
      · exact result ▸ .refused bound present stays
      · exact result ▸ .handled bound present stays
  | sendCompletes rank =>
      simp only [step] at stepped
      split_ifs at stepped with guard
      obtain ⟨host, acted, rfl⟩ := Option.map_eq_some_iff.mp stepped
      exact .sendCompletes guard.1 guard.2 acted
  | acknowledge rank packet =>
      simp only [step] at stepped
      split_ifs at stepped with guard
      obtain rfl := Option.some.inj stepped
      exact .acknowledge guard.1 guard.2.1 guard.2.2
  | deliver rank =>
      simp only [step, deliver] at stepped
      split_ifs at stepped with bound
      obtain ⟨frame, present, rfl⟩ := Option.map_eq_some_iff.mp stepped
      exact .deliver bound present (receive_received cluster system rank frame)

/-- What the program and the NIC of a rank keep, every step keeps there. -/
theorem Moved.keeps {rank : Nat} {keep : Host → Prop}
    (moved : Moved cluster system event next)
    (kept : ∀ (host after : Host) (action : Host.Action), keep host →
      host.act (cluster.job rank) action = some after → keep after)
    (holds : keep (system.hosts rank)) : keep (next.hosts rank) := by
  have acted {mover : Nat} {host : Host} {action : Host.Action}
      (acted : (system.hosts mover).act (cluster.job mover) action =
        some host) : keep ((system.setHost mover host).hosts rank) := by
    by_cases own : rank = mover
    · subst own
      rw [setHost_hosts, Function.update_self]
      exact kept _ _ _ holds acted
    · rw [setHost_hosts, Function.update_of_ne own]
      exact holds
  cases moved with
  | host bound stepped => exact acted stepped
  | transmit => exact holds
  | refused => exact holds
  | handled => exact holds
  | sendCompletes bound accepted completes => exact acted completes
  | acknowledge => exact holds
  | @deliver mover frame after bound present received =>
      cases received with
      | dropped => exact holds
      | @stored wr =>
          exact @acted mover _ (.store (wr.address + system.cursor mover)
            frame.data) rfl
      | @completed wr host posted data expected last completes =>
          by_cases own : rank = mover
          · subst own
            have store : (system.hosts rank).act (cluster.job rank)
                (.store (wr.address + system.cursor rank) frame.data) =
                  some _ := rfl
            have after := kept _ _ _ (kept _ _ _ holds store) completes
            simpa [accept] using after
          · simpa [accept, Function.update_of_ne own] using holds

end System

/-- The invariant of the links. -/
structure Wired (cluster : Cluster) (system : System) : Prop where
  hosts : ∀ rank, (system.hosts rank).Invariant (cluster.job rank)
  deployed : Deployed cluster.addressing cluster.hosts system.switch
  inForce : ∃ operation : Collective,
    operation.Valid cluster.hosts ∧ system.switch.InForce operation
  sent : ∀ rank, (system.up rank).map Prod.fst <+:
    segments (system.hosts rank).qp.sends
  packets : ∀ rank k (segment : Segment) (packet : Packet),
    (system.up rank)[k]? = some (segment, packet) →
      ∃ memory, packet = segment.packet cluster.addressing rank k memory
  accepted : ∀ rank < cluster.hosts,
    system.accepted rank = system.switch.aggEpsn rank
  accepted_le : ∀ rank, system.accepted rank ≤ (system.up rank).length

/-- The packet at the head of a link. -/
inductive Arriving (cluster : Cluster) (system : System) (rank : Nat) :
    Segment → Packet → Prop where
  | control {number : Nat} {call : Call} {padding : Word}
      (current : cluster.program[number]? = some call)
      (sends : call.collective.sends rank = true)
      (place : system.switch.aggEpsn rank = (cluster.job rank).base number) :
      Arriving cluster system rank
        ((cluster.job rank).controlSegment number call)
        (cluster.addressing.controlPacket rank (system.switch.aggEpsn rank)
          call.collective padding)
  | data {number k : Nat} {call : Call} {memory : Nat → Word}
      (current : cluster.program[number]? = some call)
      (sends : call.collective.sends rank = true)
      (inCall : k < 4 * call.messageNum)
      (place : system.switch.aggEpsn rank =
        (cluster.job rank).base number + 1 + k) :
      Arriving cluster system rank (Job.dataSegment number k)
        (cluster.addressing.dataPacket rank (system.switch.aggEpsn rank)
          (Job.dataOpcode k) (Job.dataWords memory k))

namespace Wired

variable {cluster : Cluster} {system next : System} {rank : Nat}
  {segment : Segment} {packet : Packet}

theorem up_stream (wired : Wired cluster system) {k : Nat}
    (present : (system.up rank)[k]? = some (segment, packet)) :
    (cluster.job rank).stream[k]? = some segment := by
  have segmentAt : ((system.up rank).map Prod.fst)[k]? = some segment := by
    simp [present]
  exact getElem?_of_prefix
    ((wired.sent rank).trans (wired.hosts rank).segments_le_stream) segmentAt

theorem sent_le (wired : Wired cluster system) (rank : Nat) :
    (system.up rank).length ≤ (segments (system.hosts rank).qp.sends).length := by
  have sent := (wired.sent rank).length_le
  rwa [List.length_map] at sent

theorem aggEpsn_le (wired : Wired cluster system)
    (bound : rank < cluster.hosts) :
    system.switch.aggEpsn rank ≤ (system.up rank).length := by
  rw [← wired.accepted rank bound]
  exact wired.accepted_le rank

theorem aggEpsn_le_posted (wired : Wired cluster system)
    (bound : rank < cluster.hosts) :
    system.switch.aggEpsn rank ≤
      (segments (system.hosts rank).qp.sends).length :=
  (wired.aggEpsn_le bound).trans (wired.sent_le rank)

theorem arriving (wired : Wired cluster system) (bound : rank < cluster.hosts)
    (present : (system.up rank)[system.accepted rank]? =
      some (segment, packet)) :
    Arriving cluster system rank segment packet := by
  obtain ⟨memory, rfl⟩ := wired.packets rank _ _ _ present
  have place := wired.accepted rank bound
  rw [place] at present ⊢
  obtain ⟨number, call, current, sends, found⟩ :=
    Job.stream_cases (wired.up_stream present)
  rcases found with ⟨first, rfl⟩ | ⟨k, inCall, later, rfl⟩
  · rw [Job.packet_controlSegment]
    exact .control current sends first
  · rw [Job.packet_dataSegment]
    exact .data current sends inCall later

end Wired

theorem Cluster.valid_of_call {cluster : Cluster} {number : Nat} {call : Call}
    (current : cluster.program[number]? = some call) :
    call.collective.Valid cluster.hosts :=
  cluster.valid call (List.mem_of_getElem? current)

theorem Cluster.admissible_of_call {cluster : Cluster} {number rank : Nat}
    {call : Call} (current : cluster.program[number]? = some call)
    (sends : call.collective.sends rank = true) :
    call.collective.Admissible cluster.hosts rank := by
  have valid := Cluster.valid_of_call current
  cases operation : call.collective with
  | allreduce => trivial
  | reduce root =>
      rw [operation] at valid
      exact valid
  | broadcast root =>
      rw [operation] at sends
      have own : rank = root := by simpa [Collective.sends] using sends
      exact own.symm

namespace Wired

variable {cluster : Cluster} {system next : System} {rank : Nat}
  {segment : Segment} {packet : Packet}

/-- What becomes of the packet at the head of a link. -/
theorem outcome (wired : Wired cluster system) (bound : rank < cluster.hosts)
    (arriving : Arriving cluster system rank segment packet) :
    Outcome cluster.addressing cluster.hosts rank system.switch packet
      (packetHandler system.switch rank packet).1
      (packetHandler system.switch rank packet).2 := by
  cases arriving with
  | control current sends place =>
      have admissible := Cluster.admissible_of_call current sends
      exact outcome_control wired.deployed bound
        Addressing.controlPacket_from admissible
        (Addressing.controlPacket_announces wired.deployed.fits bound
          admissible)
  | data current sends inCall place =>
      obtain ⟨operation, valid, inForce⟩ := wired.inForce
      exact outcome_data wired.deployed bound Addressing.dataPacket_from
        valid inForce
        (Addressing.dataPacket_plain (Job.dataOpcode_plain _))

/-- While the switch aggregates, a packet whose PSN fits is accepted. -/
theorem advances {operation : Collective} (wired : Wired cluster system)
    (bound : rank < cluster.hosts)
    (present : (system.up rank)[system.accepted rank]? =
      some (segment, packet))
    (fits : system.switch.aggEpsn rank < 2 ^ 24)
    (inForce : system.switch.InForce operation)
    (aggregates : operation.aggregates = true) :
    (packetHandler system.switch rank packet).1.aggEpsn rank ≠
      system.switch.aggEpsn rank := by
  intro stays
  have outcome := wired.outcome bound (wired.arriving bound present)
  obtain ⟨-, -, stray | ⟨root, -, broadcast⟩⟩ := outcome.eq_of_stays stays
  · obtain ⟨memory, rfl⟩ := wired.packets rank _ _ _ present
    rw [Segment.packet_psn, wired.accepted rank bound,
      Nat.mod_eq_of_lt fits] at stray
    exact stray rfl
  · obtain rfl := Collective.metadata_injective (inForce.symm.trans broadcast)
    cases aggregates

theorem handle_advances {operation : Collective} (wired : Wired cluster system)
    (moved : System.Moved cluster system (.handle rank) next)
    (fits : system.switch.aggEpsn rank < 2 ^ 24)
    (inForce : system.switch.InForce operation)
    (aggregates : operation.aggregates = true) :
    next.switch.aggEpsn rank ≠ system.switch.aggEpsn rank := by
  cases moved with
  | refused bound present stays =>
      exact wired.advances bound present fits inForce aggregates
  | handled bound present moves => exact moves

theorem feedSwitch_inForce (wired : Wired cluster system)
    (bound : rank < cluster.hosts)
    (arriving : Arriving cluster system rank segment packet) :
    ∃ operation : Collective, operation.Valid cluster.hosts ∧
      (packetHandler system.switch rank packet).1.InForce operation := by
  cases arriving with
  | control current sends place =>
      have admissible := Cluster.admissible_of_call current sends
      rw [packetHandler_control wired.deployed.toRouted bound
        Addressing.controlPacket_from admissible
        (Addressing.controlPacket_announces wired.deployed.fits bound
          admissible)]
      exact ⟨_, Cluster.valid_of_call current, rfl⟩
  | data current sends inCall place =>
      obtain ⟨operation, valid, inForce⟩ := wired.inForce
      exact ⟨operation, valid, packetHandler_inForce rank
        (Addressing.dataPacket_plain (Job.dataOpcode_plain _)).hasImmData
        inForce⟩

theorem aggEpsn_handled (system : System) (rank : Nat) (packet : Packet)
    (other : Nat) :
    (packetHandler system.switch rank packet).1.aggEpsn other =
        system.switch.aggEpsn other ∨
      (other = rank ∧
        (packetHandler system.switch rank packet).1.aggEpsn rank =
          system.switch.aggEpsn rank + 1) := by
  have stored := storeMetadata_aggEpsn system.switch packet
  rcases packetHandler_undisturbed rank packet with
    same | moved
  · left
    rw [same.aggEpsn, stored]
  · rw [moved.aggEpsn, SwitchContext.bumpAggEpsn_aggEpsn, stored]
    by_cases own : other = rank
    · subst own
      exact Or.inr ⟨rfl, Function.update_self ..⟩
    · exact Or.inl (Function.update_of_ne own ..)

theorem setHost (wired : Wired cluster system) {host : Host}
    {action : Host.Action}
    (acted : (system.hosts rank).act (cluster.job rank) action = some host) :
    Wired cluster (system.setHost rank host) where
  hosts := by
    intro other
    by_cases own : other = rank
    · subst own
      rw [System.setHost_hosts, Function.update_self]
      exact (wired.hosts other).act acted
    · rw [System.setHost_hosts, Function.update_of_ne own]
      exact wired.hosts other
  deployed := wired.deployed
  inForce := wired.inForce
  sent := by
    intro other
    by_cases own : other = rank
    · subst own
      rw [System.setHost_hosts, Function.update_self]
      exact (wired.sent other).trans (segments_mono (Host.act_sends acted))
    · rw [System.setHost_hosts, Function.update_of_ne own]
      exact wired.sent other
  packets := wired.packets
  accepted := wired.accepted
  accepted_le := wired.accepted_le

theorem transmit (wired : Wired cluster system)
    (present : (segments (system.hosts rank).qp.sends)[
      (system.up rank).length]? = some segment) :
    Wired cluster
      { system with
        up := Function.update system.up rank
          (system.up rank ++
            [(segment, segment.packet cluster.addressing rank
              (system.up rank).length (system.hosts rank).sendPayload)]) } where
  hosts := wired.hosts
  deployed := wired.deployed
  inForce := wired.inForce
  sent := by
    intro other
    dsimp only
    by_cases own : other = rank
    · subst own
      obtain ⟨rest, whole⟩ := wired.sent other
      rw [← whole, List.getElem?_append_right (by simp)] at present
      simp only [List.length_map, Nat.sub_self] at present
      cases rest with
      | nil => cases present
      | cons next others =>
          obtain rfl := Option.some.inj present
          refine ⟨others, ?_⟩
          simp [← whole]
    · rw [Function.update_of_ne own]
      exact wired.sent other
  packets := by
    intro other k segment packet found
    dsimp only at found
    by_cases own : other = rank
    · subst own
      rw [Function.update_self] at found
      rcases Nat.lt_trichotomy k (system.up other).length with
        old | new | beyond
      · rw [List.getElem?_append_left old] at found
        exact wired.packets other k segment packet found
      · subst new
        rw [List.getElem?_concat_length] at found
        cases found
        exact ⟨_, rfl⟩
      · rw [List.getElem?_eq_none (by simp; omega)] at found
        cases found
    · rw [Function.update_of_ne own] at found
      exact wired.packets other k segment packet found
  accepted := wired.accepted
  accepted_le := by
    intro other
    dsimp only
    by_cases own : other = rank
    · subst own
      rw [Function.update_self, List.length_append]
      exact (wired.accepted_le other).trans (Nat.le_add_right ..)
    · rw [Function.update_of_ne own]
      exact wired.accepted_le other

theorem feedSwitch (wired : Wired cluster system)
    (inForce : ∃ operation : Collective, operation.Valid cluster.hosts ∧
      (packetHandler system.switch rank packet).1.InForce operation)
    (stays : (packetHandler system.switch rank packet).1.aggEpsn rank =
      system.switch.aggEpsn rank) :
    Wired cluster (system.feedSwitch rank packet) where
  hosts := wired.hosts
  deployed := wired.deployed.congr (packetHandler_configuration rank packet)
  inForce := inForce
  sent := wired.sent
  packets := wired.packets
  accepted := by
    intro other bound
    rw [System.feedSwitch, wired.accepted other bound]
    rcases aggEpsn_handled system rank packet other with
      same | ⟨rfl, -⟩
    · exact same.symm
    · exact stays.symm
  accepted_le := wired.accepted_le

theorem handled (wired : Wired cluster system) (bound : rank < cluster.hosts)
    (present : (system.up rank)[system.accepted rank]? =
      some (segment, packet))
    (moves : (packetHandler system.switch rank packet).1.aggEpsn rank ≠
      system.switch.aggEpsn rank) :
    Wired cluster
      { system.feedSwitch rank packet with
        accepted := Function.update system.accepted rank
          (system.accepted rank + 1) } where
  hosts := wired.hosts
  deployed := wired.deployed.congr (packetHandler_configuration rank packet)
  inForce := wired.feedSwitch_inForce bound (wired.arriving bound present)
  sent := wired.sent
  packets := wired.packets
  accepted := by
    intro other otherBound
    dsimp only
    have before := wired.accepted other otherBound
    rcases aggEpsn_handled system rank packet other with
      same | ⟨rfl, next⟩
    · by_cases own : other = rank
      · subst own
        exact absurd same moves
      · rw [Function.update_of_ne own, before]
        exact same.symm
    · rw [Function.update_self, before]
      exact next.symm
  accepted_le := by
    intro other
    dsimp only
    by_cases own : other = rank
    · subst own
      rw [Function.update_self]
      exact (List.getElem?_eq_some_iff.mp present).1
    · rw [Function.update_of_ne own]
      exact wired.accepted_le other

theorem receive {frame : Frame} (wired : Wired cluster system)
    (received : System.Received cluster system rank frame next) :
    Wired cluster next := by
  have store (address : Nat) (words : List Word) :
      (system.hosts rank).act (cluster.job rank) (.store address words) =
        some ((system.hosts rank).store address words) := rfl
  cases received with
  | dropped => exact wired
  | @stored wr =>
      have after := wired.setHost
        (store (wr.address + system.cursor rank) frame.data)
      exact ⟨after.hosts, after.deployed, after.inForce, after.sent,
        after.packets, after.accepted, after.accepted_le⟩
  | @completed wr host posted data expected last acted =>
      have first := wired.setHost
        (store (wr.address + system.cursor rank) frame.data)
      have after := first.setHost
        (by
          rw [System.setHost_hosts, Function.update_self]
          exact acted)
      have twice : (system.setHost rank ((system.hosts rank).store
          (wr.address + system.cursor rank) frame.data)).setHost rank host =
            system.setHost rank host := by
        simp [System.setHost]
      rw [twice] at after
      exact ⟨after.hosts, after.deployed, after.inForce, after.sent,
        after.packets, after.accepted, after.accepted_le⟩

theorem acknowledge (wired : Wired cluster system)
    (bound : rank < cluster.hosts)
    (origin : packet.From cluster.addressing rank)
    (opcode : packet.opcode = rdmaOpcodeAck) :
    system.switch.Acknowledged (packetHandler system.switch rank packet).1 ∧
      (packetHandler system.switch rank packet).2 = [] := by
  obtain ⟨operation, valid, inForce⟩ := wired.inForce
  exact packetHandler_acknowledgement wired.deployed.toRouted bound origin
    opcode inForce (fun root same => by rw [same] at valid; exact valid)

theorem move {event : System.Event} (wired : Wired cluster system)
    (moved : System.Moved cluster system event next) :
    Wired cluster next := by
  cases moved with
  | host bound acted => exact wired.setHost acted
  | transmit bound present => exact wired.transmit present
  | refused bound present stays =>
      exact wired.feedSwitch
        (wired.feedSwitch_inForce bound (wired.arriving bound present)) stays
  | handled bound present moves => exact wired.handled bound present moves
  | sendCompletes bound accepted acted => exact wired.setHost acted
  | acknowledge bound origin opcode =>
      obtain ⟨operation, valid, inForce⟩ := wired.inForce
      have same := (wired.acknowledge bound origin opcode).1
      refine wired.feedSwitch ⟨operation, valid, ?_⟩
        (congrFun same.aggEpsn _)
      rw [SwitchContext.InForce, same.operationType, same.rootRank]
      exact inForce
  | deliver bound present received =>
      have after := wired.receive received
      exact ⟨after.hosts, after.deployed, after.inForce, after.sent,
        after.packets, after.accepted, after.accepted_le⟩

theorem init {ctx : SwitchContext} (fresh : cluster.Fresh ctx) :
    Wired cluster (.init ctx) where
  hosts := fun rank => Host.init_invariant (cluster.job rank)
  deployed := fresh.deployed
  inForce := fresh.ready.inForce
  sent := fun _ => List.nil_prefix
  packets := nofun
  accepted := fun rank bound => (fresh.ready.aggEpsn rank bound).symm
  accepted_le := fun _ => le_rfl

end Wired

/-- The two hosts of `twoHosts` with a program; every word of their data is 7. -/
def Cluster.pair (program : List Call)
    (valid : ∀ call ∈ program, call.collective.Valid 2) : Cluster where
  addressing := twoHosts.addressing
  hosts := 2
  program := program
  payloadBufSize := 4096
  srcData := fun _ _ _ => 7
  valid := valid

theorem Cluster.pair_fresh {program : List Call}
    {valid : ∀ call ∈ program, call.collective.Valid 2} :
    (Cluster.pair program valid).Fresh twoHosts.context where
  deployed := twoHosts.context_configured.deployed (by decide)
  ready := {
    idle := fun _ => ⟨rfl, fun _ => rfl⟩
    aggEpsn := fun _ _ => rfl
    inForce := ⟨.allreduce, trivial, rfl⟩ }
  sendPsn := fun _ => rfl

theorem System.reachable_wired {cluster : Cluster} {ctx : SwitchContext}
    {system : System} (fresh : cluster.Fresh ctx)
    (reachable : Reachable (System.step cluster) (.init ctx) system) :
    Wired cluster system :=
  reachable.invariant (Wired cluster)
    (fun _ _ _ wired stepped => wired.move (System.moved_of_step stepped))
    (Wired.init fresh)

end IncEmulation
