import IncEmulation.HandlerSpec

/-!
# The packets a host puts on the wire

The NIC turns a SEND with immediate data of four bytes into one control packet,
and a data message into packets that carry parts of it.
-/

namespace IncEmulation

namespace Addressing

variable (addressing : Addressing) (conn psn : Nat)

/-- The control message announcing `operation`; `padding` is its four byte
payload. -/
def controlPacket (operation : Collective) (padding : Word) : Packet where
  srcIp := addressing.srcIp conn
  dstIp := addressing.dstIp conn
  udpLength := 32
  opcode := rdmaOpcodeSendOnlyWithImm
  apsn := htonl (BitVec.ofNat 32 (psn % 2 ^ 24))
  body := [htonl operation.immData, padding]

/-- A packet of a data message. -/
def dataPacket (opcode : Opcode) (words : List Word) : Packet where
  srcIp := addressing.srcIp conn
  dstIp := addressing.dstIp conn
  udpLength := 24 + 4 * words.length
  opcode := opcode
  apsn := htonl (BitVec.ofNat 32 (psn % 2 ^ 24))
  body := words

variable {addressing conn psn} {operation : Collective} {padding : Word}
  {opcode : Opcode} {words : List Word}

theorem controlPacket_from :
    (addressing.controlPacket conn psn operation padding).From addressing
      conn := ⟨rfl, rfl⟩

theorem dataPacket_from :
    (addressing.dataPacket conn psn opcode words).From addressing conn :=
  ⟨rfl, rfl⟩

theorem controlPacket_announces {hosts : Nat}
    (fits : hosts ≤ maxConnectionsNum) (bound : conn < hosts)
    (admissible : operation.Admissible hosts conn) :
    (addressing.controlPacket conn psn operation padding).Announces
      operation where
  control := by
    simp [controlPacket, Packet.isControlMessage, Packet.payloadLen,
      Packet.immOffset, Packet.hasImmData, sizeofUdpHeader, sizeofBthHeader,
      sizeofIcrc]
  announced := by
    apply Packet.announced_of_immData fits bound admissible
    simp [controlPacket, Packet.immData, Packet.bodyWord]

theorem dataPacket_psn :
    (addressing.dataPacket conn psn opcode words).psn = psn % 2 ^ 24 := by
  rw [Packet.psn_of_apsn rfl, Nat.mod_mod]

/-- The opcodes of a SEND without immediate data. -/
def IsPlainOpcode (opcode : Opcode) : Prop :=
  opcode = rdmaOpcodeSendFirst ∨ opcode = rdmaOpcodeSendMiddle ∨
    opcode = rdmaOpcodeSendLast ∨ opcode = rdmaOpcodeSendOnly

theorem dataPacket_plain (plain : IsPlainOpcode opcode) :
    (addressing.dataPacket conn psn opcode words).Plain := by
  rcases plain with rfl | rfl | rfl | rfl <;> exact ⟨rfl, rfl⟩

theorem dataPacket_payloadLen (plain : IsPlainOpcode opcode) :
    (addressing.dataPacket conn psn opcode words).payloadLen =
      4 * words.length := by
  have noImmediate :
      (addressing.dataPacket conn psn opcode words).hasImmData = false :=
    (dataPacket_plain plain).hasImmData
  have length :
      (addressing.dataPacket conn psn opcode words).udpLength =
        24 + 4 * words.length := rfl
  simp only [Packet.payloadLen, Packet.immOffset, noImmediate, length,
    Bool.false_eq_true, if_false, sizeofUdpHeader, sizeofBthHeader,
    sizeofIcrc]
  omega

theorem dataPacket_dataLen (plain : IsPlainOpcode opcode) :
    (addressing.dataPacket conn psn opcode words).dataLen = words.length := by
  rw [Packet.dataLen, dataPacket_payloadLen plain]
  omega

theorem dataPacket_data (plain : IsPlainOpcode opcode) (index : Nat) :
    (addressing.dataPacket conn psn opcode words).data index =
      words.getD index 0 := by
  have noImmediate :
      (addressing.dataPacket conn psn opcode words).hasImmData = false :=
    (dataPacket_plain plain).hasImmData
  rw [Packet.data, noImmediate, if_neg Bool.false_ne_true, Nat.add_zero]
  rfl

end Addressing

end IncEmulation
