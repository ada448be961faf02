import IncEmulation.Switch.Exactness

/-!
# What passes between two switches

How the frame of one switch arrives at the next one, and that a switch never
acknowledges more than it has taken.
-/

namespace IncEmulation.Switch

open Gather Loop

section Payloads

variable {packet : Packet} {i : Nat} {word : UInt32}

theorem length_payload : packet.payload.length = packet.dataLen := by
  rw [Packet.payload, List.length_map, List.length_range]

theorem getElem?_payload (bound : i < packet.dataLen) :
    packet.payload[i]? = some (packet.data i) := by
  rw [Packet.payload, List.getElem?_map, List.getElem?_range bound]
  rfl

theorem lt_of_getElem?_payload (found : packet.payload[i]? = some word) :
    i < packet.dataLen ∧ word = packet.data i := by
  have bound := (List.getElem?_eq_some_iff.mp found).1
  rw [length_payload] at bound
  rw [getElem?_payload bound] at found
  exact ⟨bound, (Option.some.inj found).symm⟩

end Payloads

/-- The packet is the frame as its peer captures it: payload counts for a SEND
and the syndrome for an acknowledgement. -/
structure Captures (frame : Frame) (packet : Packet) : Prop where
  opcode : packet.opcode = frame.packetType
  psn : (packet.psn : Int) = frame.psn % 2 ^ 24
  payload : packet.opcode ∈ sendOpcodes → packet.payload = frame.data
  syndrome : packet.opcode = 0x11 →
    (isAck packet.synMsn = true ↔ frame.type ≠ .nak)

def Frame.Reply (frame : Frame) : Prop :=
  frame.type = .ack ∨ frame.type = .nak

instance (frame : Frame) : Decidable frame.Reply :=
  inferInstanceAs (Decidable (_ ∨ _))

/-- The last PSN that the reply acknowledges. -/
def Frame.acknowledges (frame : Frame) : Int :=
  if frame.type = .nak then frame.psn - 1 else frame.psn

/-- The next PSN of a connection. -/
def Globals.awaits (globals : Globals) (conn : Nat) : Int :=
  if conn = fanIn then globals.downEpsn else globals.aggEpsn conn

/-- The reply acknowledges PSNs below the next one of its connection. -/
structure RepliesBelow (frame : Frame) (conn : Nat) (next : Int) : Prop where
  conn : frame.conn = conn
  nonneg : 0 ≤ frame.psn
  below : frame.acknowledges < next

section Replies

variable {config : Config} {fuel : Nat} {globals next : Globals} {conn : Nat}
  {packet : Packet} {frames : List Frame} {rule : Rule} {frame : Frame}
  {number : Int}

theorem repliesBelow_ack {data : List UInt32} {packetType : UInt8}
    (ackConn : rule.ackConn = conn) (nonneg : 0 ≤ number)
    (below : number < globals.awaits conn)
    (member : frame ∈ forwarding rule number .ack data packetType) :
    RepliesBelow frame conn (globals.awaits conn) := by
  rw [List.mem_singleton.mp member]
  exact ⟨ackConn, nonneg, below⟩

theorem repliesBelow_nak {data : List UInt32} {packetType : UInt8}
    (ackConn : rule.ackConn = conn) (nonneg : 0 ≤ number)
    (same : number = globals.awaits conn)
    (member : frame ∈ forwarding rule number .nak data packetType) :
    RepliesBelow frame conn (globals.awaits conn) := by
  rw [List.mem_singleton.mp member]
  refine ⟨ackConn, nonneg, ?_⟩
  have acknowledges : Frame.acknowledges
      ⟨rule.ackConn, .nak, number, packetType, data⟩ = number - 1 := rfl
  omega

theorem data_of_mem_forwarding {data : List UInt32} {packetType : UInt8}
    (member : frame ∈ forwarding rule number .data data packetType) :
    ¬frame.Reply := by
  obtain ⟨other, -, rfl⟩ := List.mem_map.mp member
  rintro (ack | nak)
  · cases ack
  · cases nak

theorem not_reply_of_finish {input : Contribution}
    (finished : finish config fuel globals rule input = some (next, frames))
    (member : frame ∈ frames) : ¬frame.Reply := by
  rcases finish_frames finished with ⟨-, cached, took, -⟩ |
    ⟨-, -, -, rfl⟩ | ⟨-, -, -, rfl⟩
  · obtain ⟨-, -, rfl⟩ := cache_eq_some took
    exact data_of_mem_forwarding member
  · obtain ⟨other, -, rfl⟩ := List.mem_map.mp member
    rintro (ack | nak)
    · cases ack
    · cases nak
  · exact absurd member List.not_mem_nil

theorem not_reply_of_aggregate {input : Contribution}
    (aggregated : aggregate config fuel globals rule input =
      some (next, frames))
    (member : frame ∈ frames) : ¬frame.Reply := by
  unfold aggregate at aggregated
  simp only at aggregated
  split at aggregated
  · split at aggregated
    · exact not_reply_of_finish aggregated member
    · cases aggregated
      exact data_of_mem_forwarding member
  · cases aggregated
    exact absurd member List.not_mem_nil

theorem upstreamData_replies (isChild : conn < fanIn)
    (ackConn : rule.ackConn = conn) (send : packet.opcode ∈ sendOpcodes)
    (nonneg : 0 ≤ globals.awaits conn)
    (handled : packetHandler config fuel globals conn packet =
      some (next, frames))
    (data : upstreamData config fuel globals conn rule packet =
      some (next, frames))
    (member : frame ∈ frames) (reply : frame.Reply) :
    RepliesBelow frame conn (next.awaits conn) := by
  have psn : 0 ≤ (packet.psn : Int) := Int.natCast_nonneg _
  have awaits : ∀ globals : Globals, globals.awaits conn =
      globals.aggEpsn conn := fun _ => if_neg isChild.ne
  unfold upstreamData at data
  split at data
  · cases data
    refine repliesBelow_ack ackConn (by omega) ?_ member
    rw [awaits]
    omega
  · split at data
    · cases data
      exact repliesBelow_nak ackConn (awaits _ ▸ nonneg) (awaits _).symm member
    · have isNext : globals.aggEpsn conn = packet.psn := by omega
      have grown := packetHandler_takes isChild send isNext handled
      split at data
      · cases data
      · obtain ⟨⟨after, more⟩, aggregated, same⟩ :=
          Option.bind_eq_some_iff.mp data
        cases same
        rcases List.mem_append.mp member with ack | sent
        · refine repliesBelow_ack ackConn psn ?_ ack
          rw [awaits]
          omega
        · exact absurd reply (not_reply_of_aggregate aggregated sent)

theorem downstreamData_replies (isParent : conn = fanIn)
    (ackConn : rule.ackConn = conn) (nonneg : 0 ≤ globals.awaits conn)
    (data : downstreamData globals rule packet = some (next, frames))
    (member : frame ∈ frames) (reply : frame.Reply) :
    RepliesBelow frame conn (next.awaits conn) := by
  have psn : 0 ≤ (packet.psn : Int) := Int.natCast_nonneg _
  have awaits : ∀ globals : Globals, globals.awaits conn =
      globals.downEpsn := fun _ => if_pos isParent
  unfold downstreamData at data
  split at data
  · cases data
    refine repliesBelow_ack ackConn (by omega) ?_ member
    rw [awaits]
    omega
  · split at data
    · cases data
      exact repliesBelow_nak ackConn (awaits _ ▸ nonneg) (awaits _).symm member
    · split at data
      · cases data
      · obtain ⟨⟨after, more⟩, cached, same⟩ :=
          Option.bind_eq_some_iff.mp data
        cases same
        have grown := downEpsn_of_cache cached
        obtain ⟨-, -, isFrames⟩ := cache_eq_some cached
        rcases List.mem_append.mp member with ack | sent
        · refine repliesBelow_ack ackConn psn ?_ ack
          rw [awaits]
          omega
        · rw [isFrames] at sent
          exact absurd reply (data_of_mem_forwarding sent)

/-- A switch acknowledges what it has taken. -/
theorem packetHandler_replies (nonneg : 0 ≤ globals.awaits conn)
    (handled : packetHandler config fuel globals conn packet =
      some (next, frames)) (member : frame ∈ frames) (reply : frame.Reply) :
    RepliesBelow frame conn (next.awaits conn) := by
  obtain ⟨rule, found, rest⟩ := Option.bind_eq_some_iff.mp handled
  have ackConn := ackConn_of_lookupRule found
  split at rest
  · rename_i send
    split at rest
    · rename_i down
      exact downstreamData_replies (parent_of_down found down).1 ackConn nonneg
        rest member reply
    · rename_i up
      exact upstreamData_replies (child_of_up found up) ackConn send nonneg
        handled rest member reply
  · rename_i noSend
    obtain ⟨rule', found', cases⟩ := packetHandler_cases handled
    have notFresh : ¬Fresh globals conn packet := fun fresh =>
      noSend fresh.send
    cases cases with
    | replied other =>
        obtain ⟨-, rfl⟩ := packetHandler_unknown noSend other handled
        exact absurd member List.not_mem_nil
    | broadcast _ other _ cached =>
        obtain ⟨-, none⟩ := packetHandler_unknown noSend other handled
        rw [none] at member
        exact absurd member List.not_mem_nil
    | waiting fresh => exact absurd fresh notFresh
    | uploaded fresh => exact absurd fresh notFresh
    | finished fresh => exact absurd fresh notFresh
    | parentAck => exact absurd member List.not_mem_nil
    | parentNak _ _ _ _ returned =>
        obtain ⟨psn, -, -, rfl⟩ := (mem_resent_iff returned frame).mp member
        rcases reply with ack | nak
        · cases ack
        · cases nak
    | childAck => exact absurd member List.not_mem_nil
    | childNak => exact absurd member List.not_mem_nil

end Replies

end IncEmulation.Switch
