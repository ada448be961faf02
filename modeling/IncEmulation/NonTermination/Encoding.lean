import IncEmulation.NonTermination.Filling
import IncEmulation.FrameCodec

/-!
# The payload on the wire

A payload word is an integer in network byte order.  The DATA encoder copies the
words of a slot and the RETH encoder converts them, so a slot that holds integers
of the host is right on the wire behind a RETH only, and a slot that holds the
words of a packet without one only.
-/

namespace IncEmulation.NonTermination

open Memory

/-- The integer in a payload word of a packet. -/
def Transfer.integer (transfer : Transfer) (packet : Packet)
    (word : Nat) : Word :=
  ntohl (transfer.payload packet word)

/-- The kind of packet the frame is. -/
def Emission.transfer (frame : Emission) : Transfer :=
  if frame.type = .reth then .write else .send

/-- The integer in a payload word of a frame, as the next hop reads it. -/
def Emission.integer (frame : Emission) (buffer : Nat → Byte)
    (conn : Connection) (word : Nat) : Word :=
  frame.transfer.integer (Packet.parse (frame.bytes buffer conn)) word

/-- The integer that the encoder makes of a word in memory. -/
def Transfer.encode : Transfer → Word → Word
  | .send => ntohl
  | .write => id

/-- A word that reads the same in both byte orders. -/
def Symmetric (word : Word) : Prop := ntohl word = word

instance (word : Word) : Decidable (Symmetric word) := by
  unfold Symmetric
  infer_instance

section Bytes

variable {data : Nat → Word} {word : Nat} (buffer : Nat → Byte)
  (conn : Connection)

theorem getD_payload (data : Nat → Word) (header trailer : List Word)
    (inRange : word < payloadCount) :
    (header ++ ((List.range payloadCount).map data ++ trailer)).getD
      (header.length + word) 0 = data word := by
  have inMap : word < ((List.range payloadCount).map data).length := by
    simpa using inRange
  rw [List.getD_eq_getElem?_getD, List.getElem?_append_right (by omega),
    Nat.add_sub_cancel_left, List.getElem?_append_left inMap,
    List.getElem?_map, List.getElem?_range inRange]
  rfl

theorem integer_sendRoceData (inRange : word < payloadCount) (port psn : Nat)
    (opcode : Opcode) :
    (sendRoceData port data psn opcode).integer buffer conn word =
      ntohl (data word) := by
  obtain ⟨icrc, body⟩ : ∃ icrc, (Packet.parse
      ((sendRoceData port data psn opcode).bytes buffer conn)).body = _ :=
    parse_body
  have payload := getD_payload data [] (wordsOfBytes icrc) inRange
  simp only [framePayload, sendRoceData, wordsOfBytes_bytesOfWords] at body
  rw [Emission.integer, Transfer.integer, Transfer.payload, Packet.bodyWord,
    show (sendRoceData port data psn opcode).transfer = .send from rfl]
  simp only [sendRoceData]
  rw [body]
  exact congrArg ntohl payload

/-- Behind the four words of the RETH every word is converted. -/
theorem framePayload_reth (words : List Word) (msn : Word)
    (reth : Option RethHeader) :
    ∃ (header : List Word) (rest : List Byte), header.length = 4 ∧
      framePayload buffer .reth (bytesOfWords words) msn
        (reth.map RethHeader.bytes) =
          bytesOfWords header ++ (bytesOfWords (words.map htonl) ++ rest) := by
  have read : wordsOfBytes (bytesOfWords words) = words := by
    simpa [wordsOfBytes] using wordsOfBytes_bytesOfWords words []
  let len := (bytesOfWords words).length
  let rest := oldContents buffer (70 + len / 4 * 4) (len % 4)
  cases reth with
  | none =>
      refine ⟨[0, 0, 0, 0], rest, rfl, ?_⟩
      simp only [framePayload, read, List.append_assoc]
      rfl
  | some reth =>
      refine ⟨[reth.vaLow, reth.vaHigh, reth.rkey, reth.len], rest, rfl, ?_⟩
      simp only [framePayload, read, List.append_assoc]
      rfl

theorem integer_sendRoceDataWithReth (inRange : word < payloadCount)
    (port psn : Nat) (opcode : Opcode) (reth : Option RethHeader) :
    (sendRoceDataWithReth port reth data psn opcode).integer buffer conn word =
      data word := by
  obtain ⟨icrc, body⟩ : ∃ icrc, (Packet.parse ((sendRoceDataWithReth port reth
      data psn opcode).bytes buffer conn)).body = _ := parse_body
  obtain ⟨header, rest, length, payload⟩ := framePayload_reth buffer
    ((List.range payloadCount).map data) (BitVec.ofNat 32 (psn + 1)) reth
  simp only [sendRoceDataWithReth] at body
  rw [payload, List.append_assoc, List.append_assoc, wordsOfBytes_bytesOfWords,
    wordsOfBytes_bytesOfWords, List.map_map] at body
  rw [Emission.integer, Transfer.integer, Transfer.payload, Packet.bodyWord,
    show (sendRoceDataWithReth port reth data psn opcode).transfer = .write
      from rfl]
  simp only [sendRoceDataWithReth]
  rw [body, Transfer.headerWords, ← length]
  exact (congrArg ntohl (getD_payload _ header _ inRange)).trans (ntohl_htonl _)

end Bytes

/-- A frame and the integers it should carry. -/
structure Shown where
  frame : Emission
  integer : Nat → Word

/-- Every payload word is the integer, whatever the buffer held before. -/
def Shown.Right (shown : Shown) : Prop :=
  ∀ buffer conn, ∀ word < shown.frame.data.length,
    shown.frame.integer buffer conn word = shown.integer word

section Frames

variable {fanIn : Nat} {slot : Slot} {transfer : Transfer} {port psn : Nat}
  {opcode : Opcode} {integer : Nat → Word}

theorem right_iff_of_carried {frame : Emission} {carried : Nat → Word}
    (length : frame.data.length = payloadCount)
    (carries : ∀ buffer conn, ∀ word < payloadCount,
      frame.integer buffer conn word = carried word) :
    Shown.Right ⟨frame, integer⟩ ↔
      ∀ word < payloadCount, carried word = integer word := by
  simp only [Shown.Right, length]
  constructor
  · intro right word inRange
    rw [← carries (fun _ => 0) .zero word inRange]
    exact right _ _ word inRange
  · intro same buffer conn word inRange
    rw [carries buffer conn word inRange]
    exact same word inRange

theorem result_right_iff :
    Shown.Right ⟨slot.result transfer port psn opcode, integer⟩ ↔
      ∀ word < payloadCount, transfer.encode (slot.values word) =
        integer word := by
  refine right_iff_of_carried ?_ fun buffer conn word inRange => ?_
  · cases transfer <;> simp [Slot.result, sendRoceData, sendRoceDataWithReth]
  · cases transfer with
    | send => exact integer_sendRoceData buffer conn inRange ..
    | write => exact integer_sendRoceDataWithReth buffer conn inRange ..

theorem upload_right_iff :
    Shown.Right ⟨slot.upload fanIn transfer psn opcode, integer⟩ ↔
      ∀ word < payloadCount, transfer.encode (slot.values word) =
        integer word := by
  refine right_iff_of_carried ?_ fun buffer conn word inRange => ?_
  · cases transfer <;> simp [Slot.upload, sendRoceData, sendRoceDataWithReth]
  · cases transfer with
    | send => exact integer_sendRoceData buffer conn inRange ..
    | write => exact integer_sendRoceDataWithReth buffer conn inRange ..

/-- Integers of the host are right behind a RETH, or when no byte order
matters. -/
theorem encode_host {values : Nat → Word} :
    (∀ word < payloadCount, transfer.encode (values word) = values word) ↔
      transfer = .write ∨ ∀ word < payloadCount, Symmetric (values word) := by
  cases transfer with
  | send => exact ⟨Or.inr, fun either => either.resolve_left nofun⟩
  | write => exact ⟨fun _ => Or.inl rfl, fun _ _ _ => rfl⟩

/-- Words of a packet are right without a RETH, or when no byte order
matters. -/
theorem encode_network {values : Nat → Word} :
    (∀ word < payloadCount,
        transfer.encode (htonl (values word)) = values word) ↔
      transfer = .send ∨ ∀ word < payloadCount, Symmetric (values word) := by
  cases transfer with
  | send => exact ⟨fun _ => Or.inl rfl, fun _ _ _ => ntohl_htonl _⟩
  | write => exact ⟨Or.inr, fun either => either.resolve_left nofun⟩

end Frames

end IncEmulation.NonTermination
