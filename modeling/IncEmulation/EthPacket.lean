import IncEmulation.SwitchContext
import IncEmulation.Crc32

/-!
# Frames as bytes (`build_eth_packet`)

`buildEthPacket` writes the Ethernet, IPv4, UDP and BTH headers, the extra
header of the packet type, the payload and the ICRC into a buffer whose old
contents show through where nothing is written.  `Packet.parse` is the header
arithmetic of `packet_handler`.
-/

namespace IncEmulation

open Memory

/-- A 16-bit value as it lies in the memory of a little-endian host. -/
abbrev Short := BitVec 16

def htons (short : Short) : Short :=
  short.extractLsb' 0 8 ++ short.extractLsb' 8 8

def ntohs (short : Short) : Short := htons short

@[simp]
theorem ntohs_htons (short : Short) : ntohs (htons short) = short := by
  unfold ntohs htons
  rw [BitVec.extractLsb'_append_eq_left, BitVec.extractLsb'_append_eq_right]
  exact short_of_bytes short

def sizeofEthHeader : Nat := 14
def sizeofIpv4Header : Nat := 20

/-- The arguments of `build_eth_packet` that every caller takes from one
connection. -/
structure Addresses where
  srcMac : List Byte
  dstMac : List Byte
  srcIp : Word
  dstIp : Word
  srcPort : Short
  dstPort : Short
  qp : Word

def Connection.addresses (conn : Connection) : Addresses where
  srcMac := conn.myMac
  dstMac := conn.peerMac
  srcIp := conn.myIp
  dstIp := conn.peerIp
  srcPort := conn.myPort
  dstPort := conn.peerPort
  qp := conn.peerQp

/-- `memcpy(target, mac, 6)`. -/
def copyMac (mac : List Byte) : List Byte :=
  [byteAt mac 0, byteAt mac 1, byteAt mac 2, byteAt mac 3, byteAt mac 4,
    byteAt mac 5]

/-- `while (sum >> 16) sum = (sum & 0xFFFF) + (sum >> 16)`; the sums of at most
30 shorts fit 32 bits. -/
def foldCarry (sum : Nat) : Nat :=
  if sum < 2 ^ 16 then sum else foldCarry (sum % 2 ^ 16 + sum / 2 ^ 16)
termination_by sum

/-- `ipv4_checksum`: the sum runs over the header with a zero checksum. -/
def ipv4Checksum (ip : List Byte) : Short :=
  let cleared := (ip.set 10 0).set 11 0
  let ihl := (byteAt ip 0 &&& 0x0F).toNat * 4
  let sum := ((List.range (ihl / 2)).map fun index =>
    (ntohs (shortAt cleared (2 * index))).toNat).sum
  htons (~~~(BitVec.ofNat 16 (foldCarry sum)))

/-- `compute_icrc`: eight bytes `0xFF`, then the frame behind the Ethernet
header and before the ICRC with the mutable fields masked. -/
def computeIcrc (ethPacket : List Byte) : Word :=
  let len := (ntohs (shortAt ethPacket 16)).toNat - 4
  let pack := List.replicate 8 0xFF ++ (ethPacket.drop 14).take len
  crc32 ([9, 16, 18, 19, 34, 35, 40].foldl
    (fun bytes offset => bytes.set offset 0xFF) pack)

/-- The bytes that `build_eth_packet` adds to the length for the type. -/
def extraHeaderLen : PacketType → Nat
  | .ack => 4
  | .nak => 4
  | .reth => 16
  | .controll => 4
  | .data => 0
  | .dataSingle => 0

/-- `total_len`, a `uint16_t`. -/
def totalLen (type : PacketType) (dataLen : Nat) : Nat :=
  (14 + 20 + 8 + 12 + dataLen + 4 + extraHeaderLen type) % 2 ^ 16

def ethHeader (addresses : Addresses) : List Byte :=
  copyMac addresses.dstMac ++ copyMac addresses.srcMac ++
    bytesOfShort (htons 0x0800)

def ipv4HeaderWith (addresses : Addresses) (total : Nat) (checksum : Short) :
    List Byte :=
  [0x45, 0x00] ++ bytesOfShort (htons (BitVec.ofNat 16 (total - 14))) ++
    bytesOfShort 0x1111 ++ bytesOfShort (htons 0x4000) ++ [0x40, 0x11] ++
    bytesOfShort checksum ++ bytesOfWord addresses.srcIp ++
    bytesOfWord addresses.dstIp

def ipv4Header (addresses : Addresses) (total : Nat) : List Byte :=
  ipv4HeaderWith addresses total
    (ipv4Checksum (ipv4HeaderWith addresses total 0))

def udpHeader (addresses : Addresses) (total : Nat) : List Byte :=
  bytesOfShort (htons addresses.srcPort) ++
    bytesOfShort (htons addresses.dstPort) ++
    bytesOfShort (htons (BitVec.ofNat 16 (total - 14 - 20))) ++
    bytesOfShort 0

/-- The opcode argument counts only for the types that carry data. -/
def bthHeader (type : PacketType) (addresses : Addresses) (psn : Word)
    (opcode : Opcode) : List Byte :=
  let carriesData := type = .data ∨ type = .reth
  [if carriesData then opcode else 0x11, 0x00] ++ bytesOfShort 0xFFFF ++
    bytesOfWord (htonl (addresses.qp &&& 0x00FFFFFF)) ++
    bytesOfWord (htonl (if carriesData then psn ||| 0x80000000 else psn))

/-- What `dst_packet` holds in `[start, start + len)` before the call. -/
def oldContents (dstPacket : Nat → Byte) (start len : Nat) : List Byte :=
  (List.range len).map fun index => dstPacket (start + index)

/-- Everything between the BTH and the ICRC. -/
def framePayload (dstPacket : Nat → Byte) (type : PacketType)
    (data : List Byte) (msn : Word) (reth : Option (List Byte)) : List Byte :=
  match type with
  | .data => data
  | .ack =>
      bytesOfWord (htonl (msn ||| 0x1F000000)) ++
        oldContents dstPacket 58 data.length
  | .nak =>
      bytesOfWord (htonl (msn ||| 0x60000000)) ++
        oldContents dstPacket 58 data.length
  | .dataSingle => oldContents dstPacket 54 data.length
  | .reth =>
      (match reth with
        | some header => (List.range 16).map (byteAt header)
        | none => List.replicate 16 0) ++
        bytesOfWords ((wordsOfBytes data).map htonl) ++
        oldContents dstPacket (70 + data.length / 4 * 4) (data.length % 4)
  | .controll =>
      bytesOfShort (htons (shortAt data 0)) ++ [byteAt data 2, byteAt data 3] ++
        oldContents dstPacket 58 data.length

/-- The bytes from the buffer that `build_eth_packet` reports as the frame. -/
def buildEthPacket (dstPacket : Nat → Byte) (type : PacketType)
    (data : List Byte) (addresses : Addresses) (psn msn : Word)
    (opcode : Opcode) (reth : Option (List Byte)) : List Byte :=
  let total := totalLen type data.length
  let built := ethHeader addresses ++ ipv4Header addresses total ++
    udpHeader addresses total ++ bthHeader type addresses psn opcode ++
    framePayload dstPacket type data msn reth
  built ++ bytesOfWord (computeIcrc built)

/-- The header arithmetic of `packet_handler`. -/
def Packet.parse (frame : List Byte) : Packet where
  srcIp := wordAt frame 26
  dstIp := wordAt frame 30
  udpLength := (ntohs (shortAt frame 38)).toNat
  opcode := byteAt frame 42
  apsn := wordAt frame 50
  body := wordsOfBytes (frame.drop 54)

end IncEmulation
