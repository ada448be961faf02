import IncEmulation.NonTermination.Slot
import IncEmulation.Lib.Machine

/-!
# The non-termination switch among its children and its parent

Packets are numbered without bound; on the wire they carry the number modulo
`2 ^ 24`.  A child sends or resends a packet within its window of results, the
channel to the switch is a queue that may lose packets, and whatever the switch
has sent to a port may be received there, in any order and any number of times.
A parent answers the uploads of an inner switch.  The log records every packet
the pipeline has handled, with the tables it found and the frames it sent.
-/

namespace IncEmulation.NonTermination

open Machine

/-- The branch of an opcode, if it has one that carries data. -/
def Transfer.ofOpcode (opcode : Opcode) : Option Transfer :=
  if opcode ∈ dataOpcodes then some .send
  else if opcode ∈ writeOpcodes then some .write
  else none

/-- The RETH of a WRITE packet. -/
def rethOf (packet : Packet) : RethHeader :=
  ⟨packet.bodyWord 0, packet.bodyWord 1, packet.bodyWord 2, packet.bodyWord 3⟩

/-- A data packet of full length with a number and a payload. -/
def Carries (packet : Packet) (number : Nat) (payload : Nat → Word) : Prop :=
  packet.psn = number % 2 ^ 24 ∧
    ∃ transfer ∈ Transfer.ofOpcode packet.opcode,
      transfer.dataLen packet = payloadLen ∧
        ∀ word < payloadCount, transfer.payload packet word = payload word

instance (packet : Packet) (number : Nat) (payload : Nat → Word) :
    Decidable (Carries packet number payload) := by
  unfold Carries
  infer_instance

/-- What the parties send: the payload of every packet of every child, and at a
root also its kind and its RETH, and the results of the parent. -/
structure Traffic where
  root : Bool
  payload : Nat → Nat → Nat → Word
  transfer : Nat → Transfer
  reth : Nat → Nat → RethHeader
  answer : Nat → Nat → Word

/-- A packet that may be sent as number `number` from `port`. -/
def Traffic.Fits (traffic : Traffic) (number port : Nat) (packet : Packet) :
    Prop :=
  Carries packet number (traffic.payload number port) ∧
    (traffic.root = true →
      Transfer.ofOpcode packet.opcode = some (traffic.transfer number) ∧
        (traffic.transfer number = .write →
          rethOf packet = traffic.reth number port))

instance (traffic : Traffic) (number port : Nat) (packet : Packet) :
    Decidable (traffic.Fits number port packet) := by
  unfold Traffic.Fits
  infer_instance

/-- A packet on a channel, with the number that stands behind its PSN. -/
structure Sent where
  number : Nat
  packet : Packet
  deriving DecidableEq, Repr

/-- One call of `pipeline`. -/
structure Handled where
  port : Nat
  number : Nat
  packet : Packet
  tables : Tables
  frames : List Emission

structure System where
  tables : Tables
  up : Nat → List Sent
  down : List Sent
  received : List (Nat × Nat)
  answered : List Nat
  log : List Handled

def System.init : System where
  tables := .init
  up := fun _ => []
  down := []
  received := []
  answered := []
  log := []

inductive Action where
  | send (port number : Nat) (packet : Packet)
  | lose (port position : Nat)
  | arrive (port : Nat) (previous : MetaType)
  | receive (port number : Nat)
  | answer (number : Nat) (packet : Packet)
  | loseAnswer (position : Nat)
  | answerArrives (previous : MetaType)

namespace System

instance decidableReceived (system : System) (port number : Nat) :
    Decidable ((port, number) ∈ system.received) :=
  inferInstance

/-- The results of everything before `number - 7` have been received. -/
def SeenBefore (system : System) (port number : Nat) : Prop :=
  ∀ earlier < number - 7, (port, earlier) ∈ system.received

instance (system : System) (port number : Nat) :
    Decidable (system.SeenBefore port number) := by
  unfold SeenBefore
  infer_instance

/-- The frames sent to a port while packets of one number were handled. -/
def framesTo (system : System) (port number : Nat) : List Emission :=
  ((system.log.filter fun entry => entry.number = number).flatMap
    Handled.frames).filter fun frame => frame.port = port

/-- The metadata of an `epoll` event; the type is what the memory held. -/
def metadataAt (port : Nat) (previous : MetaType) : Metadata where
  ingressPort := port
  type := previous
  opcode := 0
  psn := 0

/-- The pipeline handles a packet. -/
def handle (fanIn : Nat) (root : Bool) (system : System) (port : Nat)
    (previous : MetaType) (sent : Sent) : Option System :=
  (pipeline fanIn root system.tables (metadataAt port previous)
    sent.packet).map fun outcome =>
      { system with
        tables := outcome.1
        log := system.log ++
          [{ port := port
             number := sent.number
             packet := sent.packet
             tables := system.tables
             frames := outcome.2.2 }] }

/-- A child of a root sends within its window and only until it has the result;
a child of an inner switch may send again later. -/
def step (fanIn : Nat) (traffic : Traffic) (system : System) :
    Action → Option System
  | .send port number packet =>
      if port < fanIn ∧ system.SeenBefore port number ∧
          (traffic.root = true → (port, number) ∉ system.received) ∧
          traffic.Fits number port packet then
        some { system with
          up := Function.update system.up port
            (system.up port ++ [⟨number, packet⟩]) }
      else none
  | .lose port position =>
      some { system with
        up := Function.update system.up port
          ((system.up port).eraseIdx position) }
  | .arrive port previous =>
      match system.up port with
      | [] => none
      | sent :: rest =>
          handle fanIn traffic.root
            { system with up := Function.update system.up port rest } port
            previous sent
  | .receive port number =>
      if port < fanIn ∧ system.framesTo port number ≠ [] then
        some { system with received := (port, number) :: system.received }
      else none
  | .answer number packet =>
      if traffic.root = false ∧
          system.answered.count number <
            (system.framesTo fanIn number).length ∧
          Carries packet number (traffic.answer number) then
        some { system with
          down := system.down ++ [⟨number, packet⟩]
          answered := number :: system.answered }
      else none
  | .loseAnswer position =>
      some { system with down := system.down.eraseIdx position }
  | .answerArrives previous =>
      match system.down with
      | [] => none
      | sent :: rest =>
          handle fanIn traffic.root { system with down := rest } fanIn previous
            sent

end System

theorem pipeline_up {fanIn : Nat} (root : Bool) (tables : Tables)
    (data : Metadata) {packet : Packet} {transfer : Transfer}
    (isChild : data.ingressPort < fanIn)
    (opcode : Transfer.ofOpcode packet.opcode = some transfer) :
    ∃ next : Metadata, pipeline fanIn root tables data packet =
      (transfer.handleUp fanIn root tables data.ingressPort packet.psn
        packet).map fun handled => (handled.1, next, handled.2) := by
  unfold Transfer.ofOpcode at opcode
  split_ifs at opcode with isData isWrite
  · cases opcode
    simp only [pipeline, classify, isData, isChild, if_true]
    exact ⟨_, rfl⟩
  · cases opcode
    simp only [pipeline, classify, isData, isWrite, isChild, if_true, if_false]
    exact ⟨_, rfl⟩

theorem pipeline_down {fanIn : Nat} (root : Bool) (tables : Tables)
    (data : Metadata) {packet : Packet} {transfer : Transfer}
    (isParent : ¬data.ingressPort < fanIn)
    (opcode : Transfer.ofOpcode packet.opcode = some transfer) :
    ∃ next : Metadata, pipeline fanIn root tables data packet =
      (transfer.handleDown fanIn tables packet.psn packet).map fun handled =>
        (handled.1, next, handled.2) := by
  unfold Transfer.ofOpcode at opcode
  split_ifs at opcode with isData isWrite
  · cases opcode
    simp only [pipeline, classify, isData, isParent, if_true, if_false]
    exact ⟨_, rfl⟩
  · cases opcode
    simp only [pipeline, classify, isData, isWrite, isParent, if_true,
      if_false]
    exact ⟨_, rfl⟩

end IncEmulation.NonTermination
