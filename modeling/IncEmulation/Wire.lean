import Mathlib.Data.BitVec
import Mathlib.Tactic.IntervalCases

/-!
# Words, opcodes and packets (`util.h`)

A `Word` is a 32-bit word as it lies in the memory of a little-endian host, so
`ntohl` and `htonl` are the byte reversal.  A `Packet` is what `packet_handler`
reads of one captured frame: the fields at the fixed offsets of the Ethernet,
IPv4, UDP and BTH headers, and the words that follow the BTH.  A `Frame` is one
call of `send_packet`: the connection it goes to and the arguments from which
`build_eth_packet` builds the bytes.
-/

namespace IncEmulation

abbrev Word := BitVec 32

abbrev Opcode := BitVec 8

def ntohl (word : Word) : Word :=
  (word <<< 24) ||| ((word &&& 0xFF00#32) <<< 8) |||
    ((word >>> 8) &&& 0xFF00#32) ||| (word >>> 24)

def htonl (word : Word) : Word := ntohl word

@[simp]
theorem ntohl_htonl (word : Word) : ntohl (htonl word) = word := by
  unfold htonl ntohl
  ext index bound
  interval_cases index <;> simp

@[simp]
theorem htonl_ntohl (word : Word) : htonl (ntohl word) = word :=
  ntohl_htonl word

inductive PrimitiveType where
  | null
  | allreduce
  | reduce
  | broadcast
  /-- A value outside the enumeration, as a cast from a configured integer
  can produce. -/
  | other (value : Int)
  deriving DecidableEq, Repr

/-- The cast `(primitive_type_t)` from a configured integer. -/
def PrimitiveType.ofInt (value : Int) : PrimitiveType :=
  if value = 0 then .null
  else if value = 1 then .allreduce
  else if value = 2 then .reduce
  else if value = 3 then .broadcast
  else .other value

def ctlPrimitiveAllreduce : Nat := 0x00
def ctlPrimitiveReduce : Nat := 0x01
def ctlPrimitiveBroadcast : Nat := 0x02
def ctlOperatorSum : Nat := 0x01
def ctlDatatypeInt32 : Nat := 0x00
def ctlDestRankAll : Nat := 0xFFFF

def buildImmData (destRank primitive operator datatype : Nat) : Word :=
  ((BitVec.ofNat 32 destRank &&& 0xFFFF#32) <<< 16) |||
    ((BitVec.ofNat 32 primitive &&& 0x03#32) <<< 14) |||
    ((BitVec.ofNat 32 operator &&& 0x03#32) <<< 12) |||
    ((BitVec.ofNat 32 datatype &&& 0x0F#32) <<< 8)

def getImmDestRank (imm : Word) : Nat := ((imm >>> 16) &&& 0xFFFF#32).toNat

def getImmPrimitive (imm : Word) : Nat := ((imm >>> 14) &&& 0x03#32).toNat

private theorem and_mask (value bits : Nat) :
    value &&& (2 ^ bits - 1) = value % 2 ^ bits :=
  Nat.and_two_pow_sub_one_eq_mod value bits

theorem getImmDestRank_buildImmData
    {destRank : Nat} (small : destRank < 65536)
    (primitive operator datatype : Nat) :
    getImmDestRank (buildImmData destRank primitive operator datatype) =
      destRank := by
  have shifted :
      ((buildImmData destRank primitive operator datatype) >>> 16) &&&
          0xFFFF#32 =
        BitVec.ofNat 32 destRank &&& 0xFFFF#32 := by
    unfold buildImmData
    ext index bound
    interval_cases index <;> simp
  rw [getImmDestRank, shifted]
  have masked := and_mask destRank 16
  simp only [Nat.reducePow, Nat.reduceSub] at masked
  simp [Nat.mod_eq_of_lt (show destRank < 4294967296 by omega), masked,
    Nat.mod_eq_of_lt small]

theorem getImmPrimitive_buildImmData
    {primitive : Nat} (small : primitive < 4)
    (destRank operator datatype : Nat) :
    getImmPrimitive (buildImmData destRank primitive operator datatype) =
      primitive := by
  have shifted :
      ((buildImmData destRank primitive operator datatype) >>> 14) &&&
          0x03#32 =
        BitVec.ofNat 32 primitive &&& 0x03#32 := by
    unfold buildImmData
    ext index bound
    interval_cases index <;> simp
  rw [getImmPrimitive, shifted]
  have masked := and_mask primitive 2
  simp only [Nat.reducePow, Nat.reduceSub] at masked
  simp [Nat.mod_eq_of_lt (show primitive < 4294967296 by omega), masked,
    Nat.mod_eq_of_lt small]

def rdmaOpcodeSendFirst : Opcode := 0x00
def rdmaOpcodeSendMiddle : Opcode := 0x01
def rdmaOpcodeSendLast : Opcode := 0x02
def rdmaOpcodeSendLastWithImm : Opcode := 0x03
def rdmaOpcodeSendOnly : Opcode := 0x04
def rdmaOpcodeSendOnlyWithImm : Opcode := 0x05
def rdmaOpcodeAck : Opcode := 0x11

inductive PacketType where
  | data
  | ack
  | nak
  | dataSingle
  | reth
  | controll
  deriving DecidableEq, Repr

/-- The sizes of the headers in bytes, ICRC included. -/
def sizeofUdpHeader : Int := 8
def sizeofBthHeader : Int := 12
def sizeofIcrc : Int := 4

/-- What `packet_handler` reads of a captured frame.  The words keep the order
of the bytes on the wire; `udpLength` is the value after `ntohs`. -/
structure Packet where
  srcIp : Word
  dstIp : Word
  udpLength : Nat
  opcode : Opcode
  apsn : Word
  /-- The words behind the BTH: immediate data, AETH or payload. -/
  body : List Word
  deriving DecidableEq, Repr

namespace Packet

def psn (packet : Packet) : Nat := (ntohl packet.apsn &&& 0x00FFFFFF#32).toNat

def hasImmData (packet : Packet) : Bool :=
  packet.opcode = rdmaOpcodeSendOnlyWithImm ∨
    packet.opcode = rdmaOpcodeSendLastWithImm

def immOffset (packet : Packet) : Int := if packet.hasImmData then 4 else 0

/-- The subtraction is done in `size_t` and its result converted to `int`, which
gives the same value as the integer subtraction. -/
def payloadLen (packet : Packet) : Int :=
  packet.udpLength - sizeofUdpHeader - sizeofBthHeader - sizeofIcrc -
    packet.immOffset

def isControlMessage (packet : Packet) : Bool :=
  packet.opcode = rdmaOpcodeSendOnlyWithImm ∧ packet.payloadLen ≤ 4

/-- The word at `index` of the area behind the BTH. -/
def bodyWord (packet : Packet) (index : Nat) : Word := packet.body.getD index 0

def immData (packet : Packet) : Word := ntohl (packet.bodyWord 0)

/-- `data[index]` of the payload pointer. -/
def data (packet : Packet) (index : Nat) : Word :=
  packet.bodyWord (index + if packet.hasImmData then 1 else 0)

/-- The quotient is taken in `size_t` and converted to `int`, which rounds a
negative payload length downwards. -/
def dataLen (packet : Packet) : Int := packet.payloadLen / 4

def isNak (packet : Packet) : Bool :=
  (ntohl (packet.bodyWord 0) >>> 29) ≠ 0

/-- The opcodes `packet_handler` takes for an RDMA SEND. -/
def isSend (packet : Packet) : Bool :=
  packet.opcode = rdmaOpcodeSendOnlyWithImm ∨
    packet.opcode = rdmaOpcodeSendLastWithImm ∨
    packet.opcode = rdmaOpcodeSendOnly ∨
    packet.opcode = rdmaOpcodeSendFirst ∨
    packet.opcode = rdmaOpcodeSendMiddle ∨
    packet.opcode = rdmaOpcodeSendLast

theorem psn_lt (packet : Packet) : packet.psn < 2 ^ 24 := by
  have bound : (ntohl packet.apsn &&& 0x00FFFFFF#32).toNat ≤ 0x00FFFFFF := by
    rw [BitVec.toNat_and]
    exact Nat.and_le_right
  simp only [psn]
  omega

theorem psn_of_apsn {packet : Packet} {number : Nat}
    (apsn : packet.apsn = htonl (BitVec.ofNat 32 number)) :
    packet.psn = number % 2 ^ 24 := by
  have masked := and_mask (number % 2 ^ 32) 24
  simp only [Nat.reducePow, Nat.reduceSub] at masked
  simp only [psn, apsn, ntohl_htonl, BitVec.toNat_and, BitVec.toNat_ofNat,
    Nat.reducePow, Nat.reduceMod, masked]
  omega

theorem hasImmData_of_isControlMessage {packet : Packet}
    (control : packet.isControlMessage = true) :
    packet.hasImmData = true := by
  simp only [isControlMessage, hasImmData, decide_eq_true_eq] at control ⊢
  exact Or.inl control.1

end Packet

/-- One call of `send_packet`.  The buffer it builds the frame in has room for
1009 words of data, which it does not check. -/
structure Frame where
  conn : Nat
  type : PacketType
  data : List Word
  psn : Nat
  packetType : Opcode
  deriving DecidableEq, Repr

end IncEmulation
