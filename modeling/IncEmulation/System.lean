import IncEmulation.Aggregation
import IncEmulation.HandlerFrame
import IncEmulation.Progress

/-!
# Hosts and switch together

The ranks run one program of collective calls over a lossless network in which
every link keeps the order of its packets: a packet of a host stays at the head
of its link until the switch accepts it, as it would be sent again otherwise.
Ranks, NICs and switch take turns in any order.
-/

namespace IncEmulation

open Gather Machine

/-- A communicator with the program its ranks run. -/
structure Cluster where
  addressing : Addressing
  hosts : Nat
  program : List Call
  payloadBufSize : Nat
  srcData (rank call : Nat) (index : Int) : Word
  valid : ∀ call ∈ program, call.collective.Valid hosts

def Cluster.job (cluster : Cluster) (rank : Nat) : Job where
  rank := rank
  payloadBufSize := cluster.payloadBufSize
  program := cluster.program
  srcData := cluster.srcData rank

/-- A switch on which nothing has happened yet. -/
structure Cluster.Fresh (cluster : Cluster) (ctx : SwitchContext) : Prop where
  deployed : Deployed cluster.addressing cluster.hosts ctx
  ready : Ready cluster.hosts 0 ctx
  sendPsn : ∀ conn, ctx.sendPsn conn = 0

/-- The state of a communicator.  Links keep everything ever sent over them. -/
structure System where
  switch : SwitchContext
  hosts : Nat → Host
  up : Nat → List (Segment × Packet)
  /-- The packets of a link to the switch that were accepted. -/
  accepted : Nat → Nat
  down : Nat → List Frame
  /-- The frames of a link from the switch that have arrived. -/
  delivered : Nat → Nat
  /-- The data packets the NIC of a rank has taken. -/
  received : Nat → Nat
  /-- The words of the current message that have arrived. -/
  cursor : Nat → Nat

/-- Whether a data packet is the last one of its message. -/
def Frame.endsMessage (frame : Frame) : Bool :=
  frame.packetType = rdmaOpcodeSendLast ∨ frame.packetType = rdmaOpcodeSendOnly

instance (addressing : Addressing) (conn : Nat) :
    DecidablePred (Packet.From addressing conn) :=
  fun packet =>
    decidable_of_iff
      (packet.srcIp = addressing.srcIp conn ∧
        packet.dstIp = addressing.dstIp conn)
      ⟨fun same => ⟨same.1, same.2⟩, fun same => ⟨same.1, same.2⟩⟩

namespace System

def init (ctx : SwitchContext) : System where
  switch := ctx
  hosts := fun _ => .init
  up := fun _ => []
  accepted := fun _ => 0
  down := fun _ => []
  delivered := fun _ => 0
  received := fun _ => 0
  cursor := fun _ => 0

inductive Event where
  /-- The program of a rank takes a step. -/
  | host (rank : Nat)
  /-- The NIC of a rank sends its next packet. -/
  | transmit (rank : Nat)
  /-- The switch handles the packet at the head of a link. -/
  | handle (rank : Nat)
  /-- A send request is complete. -/
  | sendCompletes (rank : Nat)
  /-- An acknowledgement of a rank reaches the switch. -/
  | acknowledge (rank : Nat) (packet : Packet)
  /-- A frame of the switch reaches a rank. -/
  | deliver (rank : Nat)
  deriving DecidableEq, Repr

def setHost (system : System) (rank : Nat) (host : Host) : System :=
  { system with hosts := Function.update system.hosts rank host }

@[simp]
theorem setHost_hosts (system : System) (rank : Nat) (host : Host) :
    (system.setHost rank host).hosts =
      Function.update system.hosts rank host := rfl

theorem setHost_self (system : System) (rank : Nat) (host : Host) :
    (system.setHost rank host).hosts rank = host := Function.update_self ..

/-- The switch handles a packet and sends its frames. -/
def feedSwitch (system : System) (rank : Nat) (packet : Packet) : System :=
  { system with
    switch := (packetHandler system.switch rank packet).1
    down := fun conn => system.down conn ++
      (packetHandler system.switch rank packet).2.filter
        fun frame => frame.conn = conn }

def transmit (system : System) (cluster : Cluster) (rank : Nat) :
    Option System :=
  (segments (system.hosts rank).qp.sends)[(system.up rank).length]?.map
    fun segment =>
      { system with
        up := Function.update system.up rank
          (system.up rank ++
            [(segment, segment.packet cluster.addressing rank
              (system.up rank).length (system.hosts rank).sendPayload)]) }

/-- A packet that does not move the receive PSN stays where it is. -/
def handle (system : System) (rank : Nat) : Option System :=
  (system.up rank)[system.accepted rank]?.map fun sent =>
    let after := system.feedSwitch rank sent.2
    if after.switch.aggEpsn rank = system.switch.aggEpsn rank then after
    else
      { after with
        accepted := Function.update system.accepted rank
          (system.accepted rank + 1) }

/-- All packets of the oldest outstanding send request are accepted. -/
def SendAccepted (system : System) (rank : Nat) : Prop :=
  (segments ((system.hosts rank).qp.sends.take
    ((system.hosts rank).qp.sendsDone + 1))).length ≤ system.accepted rank

instance (system : System) (rank : Nat) : Decidable (system.SendAccepted rank) :=
  inferInstanceAs (Decidable (_ ≤ _))

/-- A NIC takes the data packet it expects if a receive is posted, and drops
every other one. -/
def receive (system : System) (cluster : Cluster) (rank : Nat)
    (frame : Frame) : System :=
  let host := system.hosts rank
  match host.qp.receives[host.qp.receivesDone]? with
  | some wr =>
      if frame.type = .data ∧
          frame.psn % 2 ^ 24 = system.received rank % 2 ^ 24 then
        let stored :=
          host.store (wr.address + system.cursor rank) frame.data
        let after :=
          if frame.endsMessage then
            (stored.act (cluster.job rank) .receiveCompletes).getD stored
          else stored
        { system.setHost rank after with
          received := Function.update system.received rank
            (system.received rank + 1)
          cursor := Function.update system.cursor rank
            (if frame.endsMessage then 0
              else system.cursor rank + frame.data.length) }
      else system
  | none => system

def deliver (system : System) (cluster : Cluster) (rank : Nat) :
    Option System :=
  (system.down rank)[system.delivered rank]?.map fun frame =>
    { system.receive cluster rank frame with
      delivered := Function.update system.delivered rank
        (system.delivered rank + 1) }

def step (cluster : Cluster) (system : System) : Event → Option System
  | .host rank =>
      if rank < cluster.hosts then
        ((system.hosts rank).act (cluster.job rank) .step).map
          (system.setHost rank)
      else none
  | .transmit rank =>
      if rank < cluster.hosts then system.transmit cluster rank else none
  | .handle rank =>
      if rank < cluster.hosts then system.handle rank else none
  | .sendCompletes rank =>
      if rank < cluster.hosts ∧ system.SendAccepted rank then
        ((system.hosts rank).act (cluster.job rank) .sendCompletes).map
          (system.setHost rank)
      else none
  | .acknowledge rank packet =>
      if rank < cluster.hosts ∧
          packet.From cluster.addressing rank ∧
          packet.opcode = rdmaOpcodeAck then
        some (system.feedSwitch rank packet)
      else none
  | .deliver rank =>
      if rank < cluster.hosts then system.deliver cluster rank else none

end System

end IncEmulation
