import IncEmulation.EthPacket

/-!
# The pipeline of the non-termination switch (`non_termination_switch.c`)

`FAN_IN` is a compile-time macro and the parameter `fanIn` here.  The four
tables are functions of slot and port; `pipeline` returns the tables it leaves,
the metadata and the calls of `build_eth_packet`, in order, or `none` where an
`assert` stops the program.  The SEND and the WRITE branches differ in where
the payload lies, in the recorded RETH and in the encoder, so each pair is one
definition over `Transfer`.
-/

namespace IncEmulation.NonTermination

open Memory

def windowSize : Nat := 8
/-- `N`, the number of slots. -/
def slotCount : Nat := 2 * windowSize
def payloadLen : Nat := 1024
/-- `PAYLOAD_LEN / sizeof(int)`. -/
def payloadCount : Nat := 256

def idx (psn : Nat) : Nat := psn % slotCount

def maskAllFanIn (fanIn : Nat) : BitVec 32 := 0xFFFFFFFF#32 >>> (32 - fanIn)

def maskPort (port : Nat) : BitVec 32 := 1#32 <<< port

inductive MetaType where
  | upData
  | upAck
  | upWriteFirstOnly
  | downData
  | downWriteFirstOnly
  | downAck
  deriving DecidableEq, Repr

structure Metadata where
  ingressPort : Nat
  type : MetaType
  opcode : Opcode
  psn : Nat
  deriving DecidableEq, Repr

/-- The words of a `reth_header_t` as they lie in memory. -/
structure RethHeader where
  vaLow : Word
  vaHigh : Word
  rkey : Word
  len : Word
  deriving DecidableEq, Repr

def RethHeader.zero : RethHeader := ⟨0, 0, 0, 0⟩

def RethHeader.bytes (reth : RethHeader) : List Byte :=
  bytesOfWords [reth.vaLow, reth.vaHigh, reth.rkey, reth.len]

/-- `degree` counts without bound, where the source's `int` does not. -/
structure Tables where
  aggregator : Nat → Nat → Word
  rethKeeper : Nat → Nat → RethHeader
  arrivalState : Nat → BitVec 32
  degree : Nat → Nat

/-- The tables after the four `memset` of `init_topology`. -/
def Tables.init : Tables where
  aggregator := fun _ _ => 0
  rethKeeper := fun _ _ => .zero
  arrivalState := fun _ => 0
  degree := fun _ => 0

/-- One call of `build_eth_packet`. -/
structure Emission where
  port : Nat
  type : PacketType
  data : List Word
  psn : Nat
  opcode : Opcode
  reth : Option RethHeader
  deriving DecidableEq, Repr

/-- The frame handed to `pcap_sendpacket`. -/
def Emission.bytes (emission : Emission) (frame : Nat → Byte)
    (conn : Connection) : List Byte :=
  buildEthPacket frame emission.type (bytesOfWords emission.data)
    conn.addresses (BitVec.ofNat 32 emission.psn)
    (BitVec.ofNat 32 (emission.psn + 1)) emission.opcode
    (emission.reth.map RethHeader.bytes)

namespace Tables

variable (fanIn : Nat) (tables : Tables)

def setArriveState (port psn : Nat) : Tables :=
  { tables with
    arrivalState := Function.update tables.arrivalState (idx psn)
      (tables.arrivalState (idx psn) ||| maskPort port) }

def clearStateData (psn : Nat) : Tables where
  aggregator := Function.update tables.aggregator (idx psn) fun index =>
    if index < payloadCount then 0 else tables.aggregator (idx psn) index
  rethKeeper := Function.update tables.rethKeeper (idx psn) fun port =>
    if port < fanIn then .zero else tables.rethKeeper (idx psn) port
  arrivalState := Function.update tables.arrivalState (idx psn) 0
  degree := Function.update tables.degree (idx psn) 0

def recvFromAllFanIn (psn : Nat) : Bool :=
  tables.arrivalState (idx psn) &&& maskAllFanIn fanIn = maskAllFanIn fanIn

def recvFromPort (port psn : Nat) : Bool :=
  tables.arrivalState (idx psn) &&& maskPort port ≠ 0

/-- `degree[Idx(psn)] += 1`. -/
def bumpDegree (psn : Nat) : Tables :=
  { tables with
    degree := Function.update tables.degree (idx psn)
      (tables.degree (idx psn) + 1) }

end Tables

def sendRoceData (port : Nat) (data : Nat → Word) (psn : Nat)
    (opcode : Opcode) : Emission where
  port := port
  type := .data
  data := (List.range payloadCount).map data
  psn := psn
  opcode := opcode
  reth := none

def sendRoceDataWithReth (port : Nat) (reth : Option RethHeader)
    (data : Nat → Word) (psn : Nat) (opcode : Opcode) : Emission where
  port := port
  type := .reth
  data := (List.range payloadCount).map data
  psn := psn
  opcode := opcode
  reth := reth

def sendRoceAck (port psn : Nat) : Emission where
  port := port
  type := .ack
  data := []
  psn := psn
  opcode := 0x11
  reth := none

/-- The two kinds of data packets: plain payload behind the BTH, or a RETH and
the payload behind it. -/
inductive Transfer where
  | send
  | write
  deriving DecidableEq, Repr

def opcodeWriteFirst : Opcode := 0x06
def opcodeWriteOnly : Opcode := 0x0A

/-- The opcodes of the two `UP_DATA`/`DOWN_DATA` and
`UP_WRITE_FIRST_ONLY`/`DOWN_WRITE_FIRST_ONLY` case groups. -/
def dataOpcodes : List Opcode := [0x00, 0x01, 0x02, 0x04, 0x07, 0x08]
def writeOpcodes : List Opcode := [opcodeWriteFirst, opcodeWriteOnly]

instance decidableMemOpcodes (opcode : Opcode) (opcodes : List Opcode) :
    Decidable (opcode ∈ opcodes) :=
  inferInstance

/-- The `switch` over the opcode; an opcode without a case leaves the type of
the packet before. -/
def classify (fanIn port : Nat) (opcode : Opcode) (previous : MetaType) :
    MetaType :=
  if opcode ∈ dataOpcodes then
    if port < fanIn then .upData else .downData
  else if opcode ∈ writeOpcodes then
    if port < fanIn then .upWriteFirstOnly else .downWriteFirstOnly
  else if opcode = rdmaOpcodeAck then
    if port < fanIn then .upAck else .downAck
  else previous

namespace Transfer

/-- The words in front of the payload. -/
def headerWords : Transfer → Nat
  | .send => 0
  | .write => 4

/-- `data_len`, converted from `size_t` to `int`. -/
def dataLen (transfer : Transfer) (packet : Packet) : Int :=
  packet.udpLength - 4 * transfer.headerWords - sizeofBthHeader -
    sizeofUdpHeader - sizeofIcrc

/-- `data[index]`. -/
def payload (transfer : Transfer) (packet : Packet) (index : Nat) : Word :=
  packet.bodyWord (transfer.headerWords + index)

/-- The slot as it is sent to a port. -/
def result (transfer : Transfer) (tables : Tables) (port psn : Nat)
    (opcode : Opcode) : Emission :=
  match transfer with
  | .send => sendRoceData port (tables.aggregator (idx psn)) psn opcode
  | .write =>
      sendRoceDataWithReth port (some (tables.rethKeeper (idx psn) port))
        (tables.aggregator (idx psn)) psn opcode

/-- The slot as it is sent to the parent. -/
def upload (transfer : Transfer) (fanIn : Nat) (tables : Tables) (psn : Nat)
    (opcode : Opcode) : Emission :=
  match transfer with
  | .send => sendRoceData fanIn (tables.aggregator (idx psn)) psn opcode
  | .write =>
      sendRoceDataWithReth fanIn none (tables.aggregator (idx psn)) psn opcode

/-- The loop that sends the slot to every child. -/
def broadcast (transfer : Transfer) (fanIn : Nat) (tables : Tables)
    (psn : Nat) (opcode : Opcode) : List Emission :=
  (List.range fanIn).map fun port => transfer.result tables port psn opcode

/-- `memcpy` of the RETH, on the WRITE branches only. -/
def keepReth (transfer : Transfer) (tables : Tables) (port psn : Nat)
    (packet : Packet) : Tables :=
  match transfer with
  | .send => tables
  | .write =>
      { tables with
        rethKeeper := Function.update tables.rethKeeper (idx psn)
          (Function.update (tables.rethKeeper (idx psn)) port
            ⟨packet.bodyWord 0, packet.bodyWord 1, packet.bodyWord 2,
              packet.bodyWord 3⟩) }

/-- A first transmission: the arrival bit, the RETH and the sum. -/
def contribute (transfer : Transfer) (tables : Tables) (port psn : Nat)
    (packet : Packet) : Tables :=
  let recorded :=
    transfer.keepReth (tables.setArriveState port psn) port psn packet
  { recorded with
    aggregator := Function.update recorded.aggregator (idx psn) fun index =>
      if index < payloadCount then
        recorded.aggregator (idx psn) index +
          ntohl (transfer.payload packet index)
      else recorded.aggregator (idx psn) index }

/-- The `root` half of `UP_DATA` and `UP_WRITE_FIRST_ONLY`. -/
def handleUpRoot (transfer : Transfer) (fanIn : Nat) (tables : Tables)
    (port psn : Nat) (packet : Packet) : Tables × List Emission :=
  if tables.recvFromPort port psn then
    (tables,
      if tables.recvFromPort fanIn psn then
        [transfer.result tables port psn packet.opcode]
      else [])
  else
    let added := transfer.contribute tables port psn packet
    if added.recvFromAllFanIn fanIn psn then
      let cleared :=
        (added.setArriveState fanIn psn).clearStateData fanIn (psn + windowSize)
      (cleared, transfer.broadcast fanIn cleared psn packet.opcode)
    else (added, [])

/-- The other half. -/
def handleUpInner (transfer : Transfer) (fanIn : Nat) (tables : Tables)
    (port psn : Nat) (packet : Packet) : Tables × List Emission :=
  if tables.recvFromPort port psn then
    (tables,
      if tables.recvFromPort fanIn psn then
        [transfer.result tables port psn packet.opcode]
      else if tables.recvFromAllFanIn fanIn psn ∧
          tables.degree (idx psn) % fanIn = 0 then
        [transfer.upload fanIn tables psn packet.opcode]
      else [])
  else
    let added := transfer.contribute tables port psn packet
    (added,
      if added.recvFromAllFanIn fanIn psn then
        [transfer.upload fanIn added psn packet.opcode]
      else [])

/-- `UP_DATA` and `UP_WRITE_FIRST_ONLY`. -/
def handleUp (transfer : Transfer) (fanIn : Nat) (root : Bool)
    (tables : Tables) (port psn : Nat) (packet : Packet) :
    Option (Tables × List Emission) :=
  if transfer.dataLen packet = payloadLen then
    let counted := tables.bumpDegree psn
    some (if root then
      transfer.handleUpRoot fanIn counted port psn packet
    else transfer.handleUpInner fanIn counted port psn packet)
  else none

/-- `memcpy(aggregator[Idx(psn)], data, PAYLOAD_LEN)`: no conversion. -/
def overwrite (transfer : Transfer) (tables : Tables) (psn : Nat)
    (packet : Packet) : Tables :=
  { tables with
    aggregator := Function.update tables.aggregator (idx psn) fun index =>
      if index < payloadCount then transfer.payload packet index
      else tables.aggregator (idx psn) index }

/-- `DOWN_DATA` and `DOWN_WRITE_FIRST_ONLY`. -/
def handleDown (transfer : Transfer) (fanIn : Nat) (tables : Tables)
    (psn : Nat) (packet : Packet) : Option (Tables × List Emission) :=
  if transfer.dataLen packet = payloadLen then
    if !tables.recvFromPort fanIn psn && tables.recvFromAllFanIn fanIn psn then
      let relayed :=
        (transfer.overwrite tables psn packet).setArriveState fanIn psn
      some (relayed, transfer.broadcast fanIn relayed psn packet.opcode)
    else some (tables, [])
  else none

end Transfer

/-- `pipeline`: parse, classify, and act by the type. -/
def pipeline (fanIn : Nat) (root : Bool) (tables : Tables) (data : Metadata)
    (packet : Packet) : Option (Tables × Metadata × List Emission) :=
  let port := data.ingressPort
  let next : Metadata :=
    { ingressPort := port
      type := classify fanIn port packet.opcode data.type
      opcode := packet.opcode
      psn := packet.psn }
  let handled :=
    match next.type with
    | .upData =>
        Transfer.send.handleUp fanIn root tables port packet.psn packet
    | .upAck => some (tables, [sendRoceAck port packet.psn])
    | .downData => Transfer.send.handleDown fanIn tables packet.psn packet
    | .downAck => some (tables, [])
    | .upWriteFirstOnly =>
        Transfer.write.handleUp fanIn root tables port packet.psn packet
    | .downWriteFirstOnly =>
        Transfer.write.handleDown fanIn tables packet.psn packet
  handled.map fun outcome => (outcome.1, next, outcome.2)

end IncEmulation.NonTermination
