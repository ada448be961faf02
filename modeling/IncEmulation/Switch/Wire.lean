import IncEmulation.FrameCodec
import IncEmulation.Switch.Links

/-!
# The frames of `switch.c` as bytes

`forwarding` gives a frame to `build_eth_packet`, and the peer's
`packet_handler` computes its fields from the offsets of the headers again.
-/

namespace IncEmulation.Switch

open Memory

/-- The type that `forwarding` builds a frame with. -/
def PacketType.built : PacketType → IncEmulation.PacketType
  | .ack => .ack
  | .nak => .nak
  | .data => .data
  | .dataSingle => .data

/-- What `pcap_sendpacket` is given.  The buffers hold payload in network
order. -/
def Frame.bytes (frame : Frame) (dstPacket : Nat → Byte)
    (addresses : Addresses) : List Byte :=
  buildEthPacket dstPacket frame.type.built
    (bytesOfWords (frame.data.map fun word => htonl word.toBitVec)) addresses
    (BitVec.ofInt 32 frame.psn) (BitVec.ofInt 32 (frame.psn + 1))
    frame.packetType.toBitVec none

/-- The packet is what `packet_handler` reads of the bytes: the payload of a
SEND, the syndrome of an acknowledgement. -/
structure Reads (packet : Packet) (bytes : List Byte) : Prop where
  opcode : packet.opcode.toBitVec = (IncEmulation.Packet.parse bytes).opcode
  psn : packet.psn = (IncEmulation.Packet.parse bytes).psn
  dataLen : packet.opcode ∈ sendOpcodes → packet.dataLen =
    ((IncEmulation.Packet.parse bytes).udpLength - 12 - 8 - 4) / 4
  data : packet.opcode ∈ sendOpcodes → ∀ i < packet.dataLen,
    (packet.data i).toBitVec =
      ntohl ((IncEmulation.Packet.parse bytes).bodyWord i)
  synMsn : packet.opcode = 0x11 → packet.synMsn.toBitVec =
    ntohl ((IncEmulation.Packet.parse bytes).bodyWord 0)

instance (packet : Packet) (bytes : List Byte) :
    Decidable (Reads packet bytes) :=
  decidable_of_iff
    (packet.opcode.toBitVec = (IncEmulation.Packet.parse bytes).opcode ∧
      packet.psn = (IncEmulation.Packet.parse bytes).psn ∧
      (packet.opcode ∈ sendOpcodes → packet.dataLen =
        ((IncEmulation.Packet.parse bytes).udpLength - 12 - 8 - 4) / 4) ∧
      (packet.opcode ∈ sendOpcodes → ∀ i < packet.dataLen,
        (packet.data i).toBitVec =
          ntohl ((IncEmulation.Packet.parse bytes).bodyWord i)) ∧
      (packet.opcode = 0x11 → packet.synMsn.toBitVec =
        ntohl ((IncEmulation.Packet.parse bytes).bodyWord 0)))
    ⟨fun all => ⟨all.1, all.2.1, all.2.2.1, all.2.2.2.1, all.2.2.2.2⟩,
      fun reads => ⟨reads.opcode, reads.psn, reads.dataLen, reads.data,
        reads.synMsn⟩⟩

/-- The opcode tells replies from data, and the payload fits a buffer. -/
structure Frame.Sound (frame : Frame) : Prop where
  reply : frame.Reply ↔ frame.packetType = 0x11
  short : frame.data.length ≤ 1036

section Reading

variable {frame : Frame} {packet : Packet} {dstPacket : Nat → Byte}
  {addresses : Addresses}

theorem psn_read (psn : Int) :
    ((BitVec.ofInt 32 psn &&& 0x00FFFFFF#32).toNat : Int) = psn % 2 ^ 24 := by
  have mask := Nat.and_two_pow_sub_one_eq_mod (BitVec.ofInt 32 psn).toNat 24
  rw [BitVec.toNat_and]
  change (((BitVec.ofInt 32 psn).toNat &&& 2 ^ 24 - 1 : Nat) : Int) = _
  rw [mask, BitVec.toNat_ofInt]
  omega

theorem parsed_psn :
    ((IncEmulation.Packet.parse (frame.bytes dstPacket addresses)).psn : Int) =
      frame.psn % 2 ^ 24 := by
  rw [IncEmulation.Packet.psn, Frame.bytes, parse_apsn, ntohl_htonl,
    ← psn_read]
  split
  · exact congrArg (fun word => (BitVec.toNat word : Int))
      (ackRequest_masked _)
  · rfl

theorem parsed_dataLen (data : frame.type.built = .data)
    (short : frame.data.length ≤ 1036) :
    ((IncEmulation.Packet.parse (frame.bytes dstPacket addresses)).udpLength -
      12 - 8 - 4) / 4 = frame.data.length := by
  rw [Frame.bytes, parse_udpLength, data, bytesOfWords_length, List.length_map,
    totalLen]
  simp only [extraHeaderLen]
  omega

theorem parsed_word (data : frame.type.built = .data) {i : Nat}
    (inside : i < frame.data.length) :
    ntohl ((IncEmulation.Packet.parse
      (frame.bytes dstPacket addresses)).bodyWord i) =
      (frame.data.get ⟨i, inside⟩).toBitVec := by
  obtain ⟨icrc, body⟩ : ∃ icrc, (IncEmulation.Packet.parse
      (frame.bytes dstPacket addresses)).body = _ := parse_body
  rw [IncEmulation.Packet.bodyWord, body, data, framePayload,
    wordsOfBytes_bytesOfWords, List.getD_eq_getElem?_getD,
    List.getElem?_append_left (by rwa [List.length_map]),
    List.getElem?_map, List.getElem?_eq_getElem inside]
  exact ntohl_htonl _

theorem parsed_syndrome {mask : Word} {bytes : List Byte}
    (payload : framePayload dstPacket frame.type.built
      (bytesOfWords (frame.data.map fun word => htonl word.toBitVec))
      (BitVec.ofInt 32 (frame.psn + 1)) none =
        bytesOfWord (htonl mask) ++ bytes) :
    ntohl ((IncEmulation.Packet.parse
      (frame.bytes dstPacket addresses)).bodyWord 0) = mask := by
  obtain ⟨icrc, body⟩ : ∃ icrc, (IncEmulation.Packet.parse
      (frame.bytes dstPacket addresses)).body = _ := parse_body
  rw [IncEmulation.Packet.bodyWord, body, payload, List.append_assoc,
    wordsOfBytes_bytesOfWord, List.getD_cons_zero, ntohl_htonl]

theorem built_of_not_reply (data : ¬frame.Reply) :
    frame.type.built = .data := by
  cases type : frame.type with
  | ack => exact absurd (Or.inl type) data
  | nak => exact absurd (Or.inr type) data
  | data => rfl
  | dataSingle => rfl

theorem isAck_iff {synMsn : UInt32} {word : Word}
    (same : synMsn.toBitVec = word) :
    isAck synMsn = true ↔ word >>> 29 = 0#32 := by
  unfold isAck
  rw [decide_eq_true_iff, ← UInt32.toBitVec_inj, ← same]
  rfl

/-- The peer reads the frame back. -/
theorem captures_of_reads (sound : frame.Sound)
    (acknowledges : frame.type = .ack → 0 ≤ frame.psn ∧ frame.psn < 2 ^ 24)
    (reads : Reads packet (frame.bytes dstPacket addresses)) :
    Captures frame packet := by
  have opcode : packet.opcode = frame.packetType := by
    rw [← UInt8.toBitVec_inj, reads.opcode, Frame.bytes, parse_opcode]
    split
    · rfl
    · rename_i noData
      have reply : frame.Reply := by
        by_contra data
        exact noData (Or.inl (built_of_not_reply data))
      rw [sound.reply.mp reply]
      rfl
  refine ⟨opcode, ?_, ?_, ?_⟩
  · rw [reads.psn]
    exact parsed_psn
  · intro send
    have data : ¬frame.Reply := by
      rw [sound.reply, ← opcode]
      exact opcode_ne_of_send send
    have built := built_of_not_reply data
    have length := reads.dataLen send
    rw [parsed_dataLen built sound.short] at length
    refine List.ext_getElem (by rw [length_payload, length]) ?_
    intro i inPayload inData
    rw [length_payload] at inPayload
    have word := reads.data send i inPayload
    rw [parsed_word built inData, UInt32.toBitVec_inj] at word
    rw [← Option.some_inj, ← List.getElem?_eq_getElem,
      getElem?_payload inPayload, word]
    rfl
  · intro isReply
    have reply := sound.reply.mpr (opcode.symm.trans isReply)
    have synMsn := reads.synMsn isReply
    rcases reply with ack | nak
    · rw [parsed_syndrome (by rw [ack]; rfl)] at synMsn
      obtain ⟨nonneg, below⟩ := acknowledges ack
      obtain ⟨number, isNumber⟩ := Int.eq_ofNat_of_zero_le nonneg
      have within : number + 1 ≤ 2 ^ 24 := by omega
      have clear := ackSyndrome_clear within
      rw [isAck_iff synMsn, isNumber]
      refine iff_of_true clear ?_
      rw [ack]
      exact fun same => by cases same
    · rw [parsed_syndrome (by rw [nak]; rfl)] at synMsn
      rw [isAck_iff synMsn]
      exact iff_of_false (nakSyndrome_set _) fun other => other nak

end Reading

/-! ## What the handler sends -/

section Sending

variable {config : Config} {fuel : Nat} {globals next : Globals} {conn : Nat}
  {packet : Packet} {frames : List Frame} {rule : Rule} {frame : Frame}
  {number : Int} {input : Contribution}

theorem sound_of_mem_ack
    (member : frame ∈ forwarding rule number .ack [] 0x11) : frame.Sound := by
  rw [List.mem_singleton.mp member]
  exact ⟨iff_of_true (Or.inl rfl) rfl, Nat.zero_le _⟩

theorem sound_of_mem_nak
    (member : frame ∈ forwarding rule number .nak [] 0x11) : frame.Sound := by
  rw [List.mem_singleton.mp member]
  exact ⟨iff_of_true (Or.inr rfl) rfl, Nat.zero_le _⟩

theorem sound_of_data {packetType : UInt8} {data : List UInt32}
    (send : packetType ∈ sendOpcodes) (short : data.length ≤ 1036) :
    Frame.Sound ⟨conn, .data, number, packetType, data⟩ := by
  refine ⟨iff_of_false ?_ (opcode_ne_of_send send), short⟩
  rintro (ack | nak)
  · cases ack
  · cases nak

theorem length_words (slot : AggBuffer) : slot.words.length = slot.len := by
  rw [AggBuffer.words, List.length_map, List.length_range]

theorem sound_of_cache {psn : Int} {data : Nat → UInt32} {len : Nat}
    {packetType : UInt8} (send : packetType ∈ sendOpcodes) (short : len ≤ 1036)
    (cached : cache globals rule psn data len packetType = some (next, frames))
    (member : frame ∈ frames) : frame.Sound := by
  obtain ⟨-, -, rfl⟩ := cache_eq_some cached
  obtain ⟨target, -, rfl⟩ := List.mem_map.mp member
  exact sound_of_data send (by rw [length_words]; exact short)

theorem len_gather : ((gather globals input).aggBuffer (idx input.psn)).len =
      input.len ∧
    ((gather globals input).aggBuffer (idx input.psn)).packetType =
      input.packetType := by
  simp [gather]

theorem sound_of_aggregate (send : input.packetType ∈ sendOpcodes)
    (short : input.len ≤ 1036)
    (aggregated : aggregate config fuel globals rule input =
      some (next, frames)) (member : frame ∈ frames) : frame.Sound := by
  obtain ⟨len, packetType⟩ :=
    @len_gather globals input
  have words : ((gather globals input).aggBuffer
      (idx input.psn)).words.length ≤ 1036 := by
    rw [length_words, len]
    exact short
  unfold aggregate at aggregated
  simp only at aggregated
  split at aggregated
  · split at aggregated
    · rcases finish_frames aggregated with ⟨-, cached, took, -⟩ |
        ⟨-, -, -, rfl⟩ | ⟨-, -, -, rfl⟩
      · exact sound_of_cache send short took member
      · obtain ⟨target, -, rfl⟩ := List.mem_map.mp member
        exact sound_of_data send words
      · exact absurd member List.not_mem_nil
    · cases aggregated
      obtain ⟨target, -, rfl⟩ := List.mem_map.mp member
      exact sound_of_data (packetType ▸ send) words
  · cases aggregated
    exact absurd member List.not_mem_nil

theorem sound_of_upstreamData (send : packet.opcode ∈ sendOpcodes)
    (data : upstreamData config fuel globals conn rule packet =
      some (next, frames)) (member : frame ∈ frames) : frame.Sound := by
  unfold upstreamData at data
  split at data
  · cases data
    exact sound_of_mem_ack member
  · split at data
    · cases data
      exact sound_of_mem_nak member
    · split at data
      · cases data
      · obtain ⟨⟨after, more⟩, aggregated, same⟩ :=
          Option.bind_eq_some_iff.mp data
        cases same
        rcases List.mem_append.mp member with ack | sent
        · exact sound_of_mem_ack ack
        · have short : (contributionOf config globals packet).len ≤ 1036 :=
            packet.dataLen_le
          have isSend :
              (contributionOf config globals packet).packetType ∈
                sendOpcodes := send
          exact sound_of_aggregate isSend short aggregated sent

theorem sound_of_downstreamData (send : packet.opcode ∈ sendOpcodes)
    (data : downstreamData globals rule packet = some (next, frames))
    (member : frame ∈ frames) : frame.Sound := by
  unfold downstreamData at data
  split at data
  · cases data
    exact sound_of_mem_ack member
  · split at data
    · cases data
      exact sound_of_mem_nak member
    · split at data
      · cases data
      · obtain ⟨⟨after, more⟩, cached, same⟩ :=
          Option.bind_eq_some_iff.mp data
        cases same
        rcases List.mem_append.mp member with ack | sent
        · exact sound_of_mem_ack ack
        · exact sound_of_cache send packet.dataLen_le cached sent

/-- Retransmissions apart, the frames of a switch are sound. -/
theorem packetHandler_sound
    (handled : packetHandler config fuel globals conn packet =
      some (next, frames)) (member : frame ∈ frames) :
    frame.type = .dataSingle ∨ frame.Sound := by
  obtain ⟨rule, found, rest⟩ := Option.bind_eq_some_iff.mp handled
  split at rest
  · rename_i send
    right
    split at rest
    · exact sound_of_downstreamData send rest member
    · exact sound_of_upstreamData send rest member
  · rename_i noSend
    obtain ⟨rule', -, cases⟩ := packetHandler_cases handled
    have notFresh : ¬Fresh globals conn packet := fun fresh =>
      noSend fresh.send
    cases cases with
    | replied other =>
        obtain ⟨-, rfl⟩ := packetHandler_unknown noSend other handled
        exact absurd member List.not_mem_nil
    | broadcast _ other _ cached =>
        obtain ⟨-, none⟩ := packetHandler_unknown noSend other handled
        rw [none] at member
        exact absurd member List.not_mem_nil
    | waiting fresh => exact absurd fresh notFresh
    | uploaded fresh => exact absurd fresh notFresh
    | finished fresh => exact absurd fresh notFresh
    | parentAck => exact absurd member List.not_mem_nil
    | parentNak _ _ _ _ returned =>
        obtain ⟨psn, -, -, rfl⟩ := (mem_resent_iff returned frame).mp member
        exact Or.inl rfl
    | childAck => exact absurd member List.not_mem_nil
    | childNak => exact absurd member List.not_mem_nil

end Sending

end IncEmulation.Switch
