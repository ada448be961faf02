import IncEmulation.EthPacket
import IncEmulation.SwitchMain

/-!
# What the switch builds, a switch reads back

The offsets of `Packet.parse` are those at which `buildEthPacket` writes, so
every frame `packet_handler` sends is read back by `packet_handler`'s own header
arithmetic.
-/

namespace IncEmulation

open Memory

/-- The frame that `send_packet` hands to `pcap_sendpacket`. -/
def Frame.bytes (frame : Frame) (packet : Nat → Byte) (conn : Connection) :
    List Byte :=
  buildEthPacket packet frame.type (bytesOfWords frame.data) conn.addresses
    (BitVec.ofNat 32 frame.psn) (BitVec.ofNat 32 (frame.psn + 1))
    frame.packetType none

section Layout

variable {dstPacket : Nat → Byte} {type : PacketType} {data : List Byte}
  {addresses : Addresses} {psn msn : Word} {opcode : Opcode}
  {reth : Option (List Byte)}

theorem parse_srcIp :
    (Packet.parse (buildEthPacket dstPacket type data addresses psn msn opcode
      reth)).srcIp = addresses.srcIp :=
  word_of_bytes addresses.srcIp

theorem parse_dstIp :
    (Packet.parse (buildEthPacket dstPacket type data addresses psn msn opcode
      reth)).dstIp = addresses.dstIp :=
  word_of_bytes addresses.dstIp

theorem parse_udpLength :
    (Packet.parse (buildEthPacket dstPacket type data addresses psn msn opcode
      reth)).udpLength = (totalLen type data.length - 34) % 2 ^ 16 := by
  have stored : shortAt (buildEthPacket dstPacket type data addresses psn msn
      opcode reth) 38 = htons (BitVec.ofNat 16
        (totalLen type data.length - 14 - 20)) :=
    short_of_bytes _
  rw [Packet.parse]
  dsimp only
  rw [stored, ntohs_htons, BitVec.toNat_ofNat, Nat.sub_sub]

theorem parse_opcode :
    (Packet.parse (buildEthPacket dstPacket type data addresses psn msn opcode
      reth)).opcode =
      if type = .data ∨ type = .reth then opcode else rdmaOpcodeAck := rfl

theorem parse_apsn :
    (Packet.parse (buildEthPacket dstPacket type data addresses psn msn opcode
      reth)).apsn =
      htonl (if type = .data ∨ type = .reth then psn ||| 0x80000000
        else psn) :=
  word_of_bytes _

theorem parse_body :
    ∃ icrc : List Byte, (Packet.parse (buildEthPacket dstPacket type data
      addresses psn msn opcode reth)).body =
        wordsOfBytes (framePayload dstPacket type data msn reth ++ icrc) :=
  ⟨_, rfl⟩

end Layout

theorem ackRequest_masked (psn : Word) :
    (psn ||| 0x80000000#32) &&& 0x00FFFFFF#32 = psn &&& 0x00FFFFFF#32 := by
  have clear : 0x80000000#32 &&& 0x00FFFFFF#32 = 0#32 := by decide
  rw [BitVec.and_or_distrib_right, clear, BitVec.or_zero]

theorem psn_masked {psn : Nat} (bound : psn < 2 ^ 24) :
    (BitVec.ofNat 32 psn &&& 0x00FFFFFF#32).toNat = psn := by
  have small : psn < 2 ^ 32 := by omega
  rw [BitVec.toNat_and, BitVec.toNat_ofNat, Nat.mod_eq_of_lt small]
  exact (Nat.and_two_pow_sub_one_eq_mod psn 24).trans
    (Nat.mod_eq_of_lt bound)

theorem ackSyndrome_clear {msn : Nat} (bound : msn ≤ 2 ^ 24) :
    (BitVec.ofNat 32 msn ||| 0x1F000000#32) >>> 29 = 0#32 := by
  have small : msn < 2 ^ 29 := by omega
  have modulus : msn % 2 ^ 32 = msn := Nat.mod_eq_of_lt (by omega)
  apply BitVec.eq_of_toNat_eq
  rw [BitVec.toNat_ushiftRight, BitVec.toNat_or, BitVec.toNat_ofNat, modulus,
    Nat.shiftRight_eq_div_pow]
  exact Nat.div_eq_of_lt (Nat.or_lt_two_pow small (by decide))

theorem nakSyndrome_set (msn : Word) :
    (msn ||| 0x60000000#32) >>> 29 ≠ 0#32 := by
  intro zero
  have bit := congrArg (fun word => word.getLsbD 0) zero
  simp at bit

/-- A data frame read back: its PSN, its addresses, no immediate data, no
control message, and its words. -/
structure Packet.ReadsData (packet : Packet) (conn : Connection) (psn : Nat)
    (data : List Word) : Prop where
  psn : packet.psn = psn
  srcIp : packet.srcIp = conn.myIp
  dstIp : packet.dstIp = conn.peerIp
  send : packet.isSend = true
  noImmediate : packet.hasImmData = false
  noControl : packet.isControlMessage = false
  dataLen : packet.dataLen = data.length
  data : ∀ index (bound : index < data.length),
    packet.data index = data.get ⟨index, bound⟩

/-- An ACK or a NAK read back. -/
structure Packet.ReadsAck (packet : Packet) (psn : Nat) (isNak : Bool) :
    Prop where
  opcode : packet.opcode = rdmaOpcodeAck
  psn : packet.psn = psn
  isNak : packet.isNak = isNak

/-- The opcodes that carry data and no immediate data. -/
def Opcode.Bare (opcode : Opcode) : Prop :=
  opcode = rdmaOpcodeSendFirst ∨ opcode = rdmaOpcodeSendMiddle ∨
    opcode = rdmaOpcodeSendLast ∨ opcode = rdmaOpcodeSendOnly

section Frames

variable {packet : Nat → Byte} {conn : Connection} {frame : Frame}

theorem Frame.psn_data (type : frame.type = .data)
    (bound : frame.psn < 2 ^ 24) :
    (Packet.parse (frame.bytes packet conn)).psn = frame.psn := by
  rw [Packet.psn, Frame.bytes, parse_apsn, type]
  simp only [true_or, if_true, ntohl_htonl]
  exact (congrArg BitVec.toNat (ackRequest_masked _)).trans (psn_masked bound)

theorem Frame.psn_ack (type : frame.type = .ack ∨ frame.type = .nak)
    (bound : frame.psn < 2 ^ 24) :
    (Packet.parse (frame.bytes packet conn)).psn = frame.psn := by
  rw [Packet.psn, Frame.bytes, parse_apsn]
  rcases type with type | type <;>
    simp only [type, reduceCtorEq, or_self, if_false, ntohl_htonl,
      psn_masked bound]

theorem Frame.readsData (type : frame.type = .data)
    (bare : Opcode.Bare frame.packetType) (bound : frame.psn < 2 ^ 24)
    (short : frame.data.length ≤ 1009) :
    (Packet.parse (frame.bytes packet conn)).ReadsData conn frame.psn
      frame.data := by
  have opcode : (Packet.parse (frame.bytes packet conn)).opcode =
      frame.packetType := by
    rw [Frame.bytes, parse_opcode, type]
    rfl
  have noImmediate :
      (Packet.parse (frame.bytes packet conn)).hasImmData = false := by
    rw [Packet.hasImmData, opcode]
    rcases bare with same | same | same | same <;> rw [same] <;> decide
  have udpLength : (Packet.parse (frame.bytes packet conn)).udpLength =
      24 + 4 * frame.data.length := by
    rw [Frame.bytes, parse_udpLength, type, bytesOfWords_length, totalLen]
    simp only [extraHeaderLen]
    omega
  have payloadLen : (Packet.parse (frame.bytes packet conn)).payloadLen =
      4 * frame.data.length := by
    rw [Packet.payloadLen, udpLength, Packet.immOffset, noImmediate]
    simp only [sizeofUdpHeader, sizeofBthHeader, sizeofIcrc,
      Bool.false_eq_true, if_false]
    omega
  refine ⟨Frame.psn_data type bound, parse_srcIp, parse_dstIp, ?_, noImmediate,
    ?_, ?_, fun index inside => ?_⟩
  · rw [Packet.isSend, opcode]
    rcases bare with same | same | same | same <;> rw [same] <;> decide
  · exact Bool.eq_false_iff.mpr fun control => by
      rw [Packet.hasImmData_of_isControlMessage control] at noImmediate
      cases noImmediate
  · rw [Packet.dataLen, payloadLen]
    omega
  · obtain ⟨icrc, body⟩ : ∃ icrc, (Packet.parse
        (frame.bytes packet conn)).body = _ := parse_body
    rw [Packet.data, Packet.bodyWord, noImmediate, body, type]
    simp only [Bool.false_eq_true, if_false, Nat.add_zero, framePayload]
    rw [wordsOfBytes_bytesOfWords, List.getD_eq_getElem?_getD,
      List.getElem?_append_left inside, List.getElem?_eq_getElem inside]
    rfl

theorem Frame.syndrome {mask : Word}
    (payload : ∃ bytes, framePayload packet frame.type
      (bytesOfWords frame.data) (BitVec.ofNat 32 (frame.psn + 1)) none =
        bytesOfWord (htonl mask) ++ bytes) :
    (Packet.parse (frame.bytes packet conn)).isNak =
      decide (mask >>> 29 ≠ 0#32) := by
  obtain ⟨bytes, payload⟩ := payload
  obtain ⟨icrc, body⟩ : ∃ icrc, (Packet.parse
      (frame.bytes packet conn)).body = _ := parse_body
  rw [Packet.isNak, Packet.bodyWord, body, payload, List.append_assoc,
    wordsOfBytes_bytesOfWord, List.getD_cons_zero, ntohl_htonl]
  rfl

theorem Frame.readsAck (type : frame.type = .ack)
    (bound : frame.psn < 2 ^ 24) :
    (Packet.parse (frame.bytes packet conn)).ReadsAck frame.psn false := by
  refine ⟨?_, Frame.psn_ack (Or.inl type) bound, ?_⟩
  · rw [Frame.bytes, parse_opcode, type]
    rfl
  · rw [Frame.syndrome ⟨_, by rw [type]; rfl⟩]
    exact decide_eq_false (not_not.mpr (ackSyndrome_clear bound))

theorem Frame.readsNak (type : frame.type = .nak)
    (bound : frame.psn < 2 ^ 24) :
    (Packet.parse (frame.bytes packet conn)).ReadsAck frame.psn true := by
  refine ⟨?_, Frame.psn_ack (Or.inr type) bound, ?_⟩
  · rw [Frame.bytes, parse_opcode, type]
    rfl
  · rw [Frame.syndrome ⟨_, by rw [type]; rfl⟩]
    exact decide_eq_true (nakSyndrome_set _)

end Frames

/-- The frames a switch may send: acknowledgements, and at most 1009 words under
an accepted opcode stripped of its immediate data. -/
inductive Frame.Regular (frame : Frame) : Prop where
  | ack (type : frame.type = .ack)
  | nak (type : frame.type = .nak)
  | data (type : frame.type = .data) (opcode : Opcode)
      (accepted : opcode.toNat ≤ 5)
      (stripped : frame.packetType = stripImmediateOpcode opcode)
      (short : frame.data.length ≤ 1009)

/-- What the parser makes of the frame. -/
def Frame.ReadBack (frame : Frame) (packet : Nat → Byte)
    (conn : Connection) : Prop :=
  let read := Packet.parse (frame.bytes packet conn)
  match frame.type with
  | .data => read.ReadsData conn frame.psn frame.data
  | .ack => read.ReadsAck frame.psn false
  | .nak => read.ReadsAck frame.psn true
  | _ => False

theorem Opcode.bare_of_accepted {opcode : Opcode}
    (accepted : opcode.toNat ≤ 5) :
    Opcode.Bare (stripImmediateOpcode opcode) := by
  have cases : ∀ number < 6,
      Opcode.Bare (stripImmediateOpcode (BitVec.ofNat 8 number)) := by
    unfold Opcode.Bare
    decide
  have same : BitVec.ofNat 8 opcode.toNat = opcode := BitVec.ofNat_toNat _ _
  exact same ▸ cases opcode.toNat (by omega)

theorem Packet.accepted_of_isSend {packet : Packet}
    (send : packet.isSend = true) : packet.opcode.toNat ≤ 5 := by
  simp only [Packet.isSend, decide_eq_true_eq] at send
  rcases send with same | same | same | same | same | same <;> rw [same] <;>
    decide

theorem Frame.Regular.readBack {frame : Frame} (regular : frame.Regular)
    (bound : frame.psn < 2 ^ 24) (packet : Nat → Byte) (conn : Connection) :
    frame.ReadBack packet conn := by
  unfold Frame.ReadBack
  cases regular with
  | ack type =>
      rw [type]
      exact Frame.readsAck type bound
  | nak type =>
      rw [type]
      exact Frame.readsNak type bound
  | data type opcode accepted stripped short =>
      rw [type]
      have bare : Opcode.Bare frame.packetType :=
        stripped ▸ Opcode.bare_of_accepted accepted
      exact Frame.readsData type bare bound short

section Emission

variable {ctx : SwitchContext} {rule : Rule} {len : Int} {opcode : Opcode}
  {holds : Frame → Prop}

section Data

-- What holds of every data frame of `len` words holds of what is sent.
variable (each : ∀ conn (data : Nat → Word) psn,
  holds (sendPacket conn .data data len psn (stripImmediateOpcode opcode)))

include each

theorem forwardingData_all (psn : Nat) (data : Nat → Word) :
    ∀ frame ∈ forwarding rule psn .data data len (stripImmediateOpcode opcode),
      holds frame := by
  intro frame member
  obtain ⟨conn, -, rfl⟩ := List.mem_map.mp member
  exact each conn data psn

theorem sendToEach_all (data : Nat → Word) (conns : List Nat) :
    ∀ frame ∈ (sendToEach ctx data len (stripImmediateOpcode opcode) conns).2,
      holds frame := by
  induction conns generalizing ctx with
  | nil =>
      intro frame member
      cases member
  | cons conn conns induction =>
      rw [sendToEach]
      split_ifs
      · intro frame member
        rcases List.mem_cons.mp member with rfl | later
        · exact each conn data _
        · exact induction frame later
      · exact induction

theorem sendToRoot_all (rootRank : Int) (data : Nat → Word) :
    ∀ frame ∈ (sendToRoot ctx rootRank data len opcode).2, holds frame := by
  rw [sendToRoot]
  split_ifs
  · intro frame member
    rw [List.mem_singleton.mp member]
    exact each _ data _
  · intro frame member
    cases member

theorem completeAggregation_all (opType : PrimitiveType) (rootRank : Int)
    (psn : Nat) (data : Nat → Word) :
    ∀ frame ∈ (completeAggregation ctx rule opType rootRank psn data len
      opcode).2, holds frame := by
  unfold completeAggregation
  split_ifs
  · cases opType with
    | allreduce => exact sendToEach_all each _ _
    | reduce => exact sendToRoot_all each rootRank data
    | null => exact nofun
    | broadcast => exact nofun
    | other value => exact nofun
  · exact forwardingData_all each psn data

theorem aggregate_all (conn psn : Nat) (data : Nat → Word) :
    ∀ frame ∈ (aggregate ctx rule conn psn data len opcode).2, holds frame := by
  unfold aggregate
  dsimp only
  split_ifs
  · exact sendToEach_all each _ _
  · exact completeAggregation_all each _ _ psn _
  · exact nofun

end Data

theorem forwardingAck_all (psn : Nat) {type : PacketType}
    (each : ∀ conn psn, holds
      (sendPacket conn type (fun _ => 0) 0 psn rdmaOpcodeAck))
    (acknowledges : type = .ack ∨ type = .nak) :
    ∀ frame ∈ forwardingAck rule psn type, holds frame := by
  intro frame member
  rw [forwardingAck, forwarding, if_pos acknowledges] at member
  obtain ⟨conn, -, rfl⟩ := List.mem_map.mp member
  exact each conn psn

/-- What holds of the acknowledgements and of every data frame with the opcode
and the length of the packet holds of all that the handler sends. -/
theorem packetHandler_all {packet : Packet} (conn : Nat)
    (ack : ∀ conn psn, holds
      (sendPacket conn .ack (fun _ => 0) 0 psn rdmaOpcodeAck))
    (nak : ∀ conn psn, holds
      (sendPacket conn .nak (fun _ => 0) 0 psn rdmaOpcodeAck))
    (each : packet.isSend = true → ∀ conn (data : Nat → Word) psn, holds
      (sendPacket conn .data data packet.dataLen psn
        (stripImmediateOpcode packet.opcode))) :
    ∀ frame ∈ (packetHandler ctx conn packet).2, holds frame := by
  have acknowledged : ∀ rule psn,
      ∀ frame ∈ forwardingAck rule psn .ack, holds frame :=
    fun _ psn => forwardingAck_all psn ack (Or.inl rfl)
  have refused : ∀ rule psn,
      ∀ frame ∈ forwardingAck rule psn .nak, holds frame :=
    fun _ psn => forwardingAck_all psn nak (Or.inr rfl)
  have both : ∀ {rule psn} {frames : List Frame},
      (∀ frame ∈ frames, holds frame) →
        ∀ frame ∈ forwardingAck rule psn .ack ++ frames, holds frame := by
    intro rule psn frames sent frame member
    rcases List.mem_append.mp member with first | second
    · exact acknowledged rule psn frame first
    · exact sent frame second
  unfold packetHandler
  dsimp only
  split
  · exact nofun
  · rename_i rule _
    split_ifs
    · exact acknowledged rule _
    · unfold handleByRule
      split_ifs with send down
      · unfold handleDownstreamData
        split_ifs
        · exact acknowledged rule _
        · exact refused rule _
        · exact both (sendToEach_all (each send) _ _)
      · unfold handleUpstreamData
        split_ifs
        · exact acknowledged rule _
        · exact refused rule _
        · exact both (aggregate_all (each send) _ _ _)
      · exact nofun
      · exact nofun
      · exact nofun

/-- A list of regular frames. -/
def AllRegular (frames : List Frame) : Prop := ∀ frame ∈ frames, frame.Regular

theorem sendPacket_regular {data : Nat → Word} (conn psn : Nat)
    (accepted : opcode.toNat ≤ 5) (short : len ≤ 1009) :
    (sendPacket conn .data data len psn (stripImmediateOpcode opcode)).Regular
    := by
  refine .data rfl opcode accepted rfl ?_
  rw [sendPacket, List.length_map, List.length_range]
  omega

theorem packetHandler_regular {packet : Packet} (conn : Nat)
    (short : packet.dataLen ≤ 1009) :
    AllRegular (packetHandler ctx conn packet).2 := by
  apply packetHandler_all
  · exact fun _ _ => .ack rfl
  · exact fun _ _ => .nak rfl
  · intro send conn data psn
    exact sendPacket_regular conn psn (Packet.accepted_of_isSend send) short

end Emission

/-- Every regular frame is read back, and a switch sends no other frames. -/
theorem frames_readBack :
    (∀ frame : Frame, frame.Regular → frame.psn < 2 ^ 24 →
      ∀ packet conn, frame.ReadBack packet conn) ∧
    (∀ (ctx : SwitchContext) (conn : Nat) (packet : Packet),
      packet.dataLen ≤ 1009 →
        ∀ frame ∈ (packetHandler ctx conn packet).2, frame.Regular) :=
  ⟨fun _ regular bound packet conn => regular.readBack bound packet conn,
    fun _ conn _ short => packetHandler_regular conn short⟩

/-- One word under a stripped opcode and the last PSN. -/
theorem frames_readBack_lastWord :
    (sendPacket 0 .data (fun _ => 5) 1 (2 ^ 24 - 1)
      (stripImmediateOpcode rdmaOpcodeSendLastWithImm)).ReadBack (fun _ => 0)
        .zero :=
  frames_readBack.1 _ (sendPacket_regular 0 _ (by decide) (by decide))
    (by decide) _ _

end IncEmulation
