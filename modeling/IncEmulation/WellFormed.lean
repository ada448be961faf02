import IncEmulation.HeaderChecksum
import IncEmulation.Icrc

/-!
# Every built frame is well formed

The lengths, the header checksum and the ICRC of `build_eth_packet` fit each
other for every packet type.
-/

namespace IncEmulation

open Memory

/-- The UDP length field of a frame. -/
def udpLengthField (frame : List Byte) : Nat :=
  (ntohs (shortAt frame 38)).toNat

/-- The ten words of the IP header. -/
def ipHeader (frame : List Byte) : List Byte := (frame.drop 14).take 20

/-- What a receiver expects of a frame of some length. -/
structure WellFormed (frame : List Byte) (total : Nat) : Prop where
  length : frame.length = total
  ipLength : ipTotalLength frame = total - 14
  udpLength : udpLengthField frame = total - 34
  headerSum : headerWordCount (ipHeader frame) = 10 ∧
    headerSum (ipHeader frame) = 0xFFFF
  icrc : wordAt frame (total - 4) = computeIcrc frame

section Built

variable {dstPacket : Nat → Byte} {type : PacketType} {data : List Byte}
  {addresses : Addresses} {psn msn : Word} {opcode : Opcode}
  {reth : Option (List Byte)}

theorem totalLen_eq (short : data.length ≤ 4096) :
    totalLen type data.length = 58 + data.length + extraHeaderLen type := by
  have extra : extraHeaderLen type ≤ 16 := by
    cases type <;> decide
  rw [totalLen, Nat.mod_eq_of_lt (by omega)]
  omega

theorem length_wordsOfBytes (bytes : List Byte) :
    (wordsOfBytes bytes).length = bytes.length / 4 := by
  fun_induction wordsOfBytes bytes with
  | case1 first second third fourth bytes induction =>
      simp only [List.length_cons, induction]
      omega
  | case2 bytes few =>
      match bytes, few with
      | [], _ => rfl
      | [_], _ => simp
      | [_, _], _ => simp
      | [_, _, _], _ => simp
      | first :: second :: third :: fourth :: bytes, few =>
          exact absurd rfl (few first second third fourth bytes)

theorem length_oldContents (start len : Nat) :
    (oldContents dstPacket start len).length = len := by
  rw [oldContents, List.length_map, List.length_range]

theorem length_framePayload :
    (framePayload dstPacket type data msn reth).length =
      data.length + extraHeaderLen type := by
  cases type with
  | data => rfl
  | dataSingle => exact length_oldContents ..
  | ack =>
      rw [framePayload, List.length_append, length_oldContents,
        bytesOfWord_length, extraHeaderLen, Nat.add_comm]
  | nak =>
      rw [framePayload, List.length_append, length_oldContents,
        bytesOfWord_length, extraHeaderLen, Nat.add_comm]
  | reth =>
      cases reth with
      | none =>
          simp only [framePayload, List.length_append, List.length_replicate,
            length_oldContents, bytesOfWords_length, List.length_map,
            length_wordsOfBytes, extraHeaderLen]
          omega
      | some header =>
          simp only [framePayload, List.length_append, List.length_range,
            length_oldContents, bytesOfWords_length, List.length_map,
            length_wordsOfBytes, extraHeaderLen]
          omega
  | controll =>
      rw [framePayload, List.length_append, length_oldContents,
        extraHeaderLen, Nat.add_comm]
      rfl

/-- The frame up to the ICRC. -/
def builtFrame (dstPacket : Nat → Byte) (type : PacketType) (data : List Byte)
    (addresses : Addresses) (psn msn : Word) (opcode : Opcode)
    (reth : Option (List Byte)) : List Byte :=
  ethHeader addresses ++ ipv4Header addresses (totalLen type data.length) ++
    udpHeader addresses (totalLen type data.length) ++
    bthHeader type addresses psn opcode ++
    framePayload dstPacket type data msn reth

theorem length_builtFrame_eq :
    (builtFrame dstPacket type data addresses psn msn opcode reth).length =
      54 + data.length + extraHeaderLen type := by
  have headers : (ethHeader addresses ++
      ipv4Header addresses (totalLen type data.length) ++
      udpHeader addresses (totalLen type data.length) ++
      bthHeader type addresses psn opcode).length = 54 := rfl
  rw [builtFrame, List.length_append, headers, length_framePayload]
  exact (Nat.add_assoc ..).symm

theorem length_builtFrame (short : data.length ≤ 4096) :
    (builtFrame dstPacket type data addresses psn msn opcode reth).length =
      totalLen type data.length - 4 := by
  rw [length_builtFrame_eq, totalLen_eq short]
  omega

theorem buildEthPacket_eq :
    buildEthPacket dstPacket type data addresses psn msn opcode reth =
      builtFrame dstPacket type data addresses psn msn opcode reth ++
        bytesOfWord (computeIcrc
          (builtFrame dstPacket type data addresses psn msn opcode reth)) := rfl

theorem ipTotalLength_built (short : data.length ≤ 4096) (rest : List Byte) :
    ipTotalLength (builtFrame dstPacket type data addresses psn msn opcode reth
      ++ rest) = totalLen type data.length - 14 := by
  have stored : shortAt (builtFrame dstPacket type data addresses psn msn opcode
      reth ++ rest) 16 =
        htons (BitVec.ofNat 16 (totalLen type data.length - 14)) :=
    short_of_bytes _
  have extra : extraHeaderLen type ≤ 16 := by
    cases type <;> decide
  rw [ipTotalLength, stored, ntohs_htons, BitVec.toNat_ofNat,
    totalLen_eq short, Nat.mod_eq_of_lt (by omega)]

theorem udpLengthField_built (short : data.length ≤ 4096) :
    udpLengthField (buildEthPacket dstPacket type data addresses psn msn opcode
      reth) = totalLen type data.length - 34 := by
  have stored : shortAt (buildEthPacket dstPacket type data addresses psn msn
      opcode reth) 38 =
        htons (BitVec.ofNat 16 (totalLen type data.length - 14 - 20)) :=
    short_of_bytes _
  have extra : extraHeaderLen type ≤ 16 := by
    cases type <;> decide
  rw [udpLengthField, stored, ntohs_htons, BitVec.toNat_ofNat,
    totalLen_eq short, Nat.mod_eq_of_lt (by omega), Nat.sub_sub]

theorem ipHeader_built :
    ipHeader (buildEthPacket dstPacket type data addresses psn msn opcode
      reth) = ipv4Header addresses (totalLen type data.length) := rfl

theorem headerWordCount_ipv4Header (addresses : Addresses) (total : Nat) :
    headerWordCount (ipv4Header addresses total) = 10 := by
  have first : byteAt (ipv4Header addresses total) 0 = 0x45 := rfl
  rw [headerWordCount, first]
  decide

theorem stored_ipv4Header (total : Nat) :
    shortAt (ipv4Header addresses total) 10 =
      ipv4Checksum (ipv4Header addresses total) := by
  have stored : shortAt (ipv4Header addresses total) 10 =
      ipv4Checksum (ipv4HeaderWith addresses total 0) := short_of_bytes _
  have same : ipv4Checksum (ipv4HeaderWith addresses total 0) =
      ipv4Checksum (ipv4Header addresses total) := rfl
  exact stored.trans same

/-- The ICRC covers what lies before it only. -/
theorem computeIcrc_built (short : data.length ≤ 4096) (rest : List Byte) :
    computeIcrc (builtFrame dstPacket type data addresses psn msn opcode reth
        ++ rest) =
      computeIcrc
        (builtFrame dstPacket type data addresses psn msn opcode reth) := by
  have length : (builtFrame dstPacket type data addresses psn msn opcode
      reth).length = totalLen type data.length - 4 := length_builtFrame short
  have total : totalLen type data.length =
      58 + data.length + extraHeaderLen type := totalLen_eq short
  have header : ∀ rest, ipTotalLength (builtFrame dstPacket type data addresses
      psn msn opcode reth ++ rest) = totalLen type data.length - 14 :=
    ipTotalLength_built short
  have own := header []
  rw [List.append_nil] at own
  rw [computeIcrc_eq, computeIcrc_eq]
  congr 2
  rw [icrcInput, icrcInput, header rest, own, List.drop_append_of_le_length
    (by omega), List.take_append_of_le_length (by rw [List.length_drop]; omega)]

theorem wordAt_append_word (bytes : List Byte) (word : Word) :
    wordAt (bytes ++ bytesOfWord word) bytes.length = word := by
  have byte : ∀ offset, byteAt (bytes ++ bytesOfWord word)
      (bytes.length + offset) = byteAt (bytesOfWord word) offset := by
    intro offset
    simp only [byteAt, List.getD_eq_getElem?_getD]
    rw [List.getElem?_append_right (Nat.le_add_right _ _),
      Nat.add_sub_cancel_left]
  have first := byte 0
  rw [Nat.add_zero] at first
  rw [wordAt, first, byte, byte, byte]
  exact word_of_bytes word

/-- `build_eth_packet` builds well-formed frames of every type. -/
theorem buildEthPacket_wellFormed (short : data.length ≤ 4096) :
    totalLen type data.length = 58 + data.length + extraHeaderLen type ∧
      WellFormed (buildEthPacket dstPacket type data addresses psn msn opcode
        reth) (totalLen type data.length) := by
  have length : (builtFrame dstPacket type data addresses psn msn opcode
      reth).length = totalLen type data.length - 4 := length_builtFrame short
  have total : totalLen type data.length =
      58 + data.length + extraHeaderLen type := totalLen_eq short
  refine ⟨total, ?_⟩
  constructor
  · rw [buildEthPacket_eq, List.length_append, length, bytesOfWord_length]
    omega
  · exact ipTotalLength_built short _
  · exact udpLengthField_built short
  · rw [ipHeader_built]
    have words := headerWordCount_ipv4Header addresses
      (totalLen type data.length)
    refine ⟨words, ?_⟩
    apply headerSum_of_generated
    · exact Nat.le_add_right 12 8
    · rw [words]
      decide
    · exact stored_ipv4Header _
  · rw [buildEthPacket_eq, computeIcrc_built short, ← length]
    exact wordAt_append_word _ _

end Built

theorem buildEthPacket_wellFormed_reth :
    WellFormed (buildEthPacket (fun _ => 0) .reth (List.replicate 8 1)
      Connection.zero.addresses 5 6 rdmaOpcodeSendOnly none) 82 :=
  (buildEthPacket_wellFormed (by decide)).2

end IncEmulation
