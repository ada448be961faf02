import Mathlib.Algebra.BigOperators.Group.Finset.Basic
import Mathlib.Data.UInt
import IncEmulation.Lib.Gather
import IncEmulation.Switch.Cursors

/-!
# The streams of the connections

What the record of a switch says of a connection: the packets that a go-back-N
receiver takes of it, and the payload it is sent, retransmissions apart.
-/

namespace IncEmulation.Switch

open scoped UInt32.CommRing

/-- A go-back-N receiver of the connection takes the SEND with the next PSN. -/
def take (conn : Nat) (taken : List Packet) : Entry → List Packet
  | .received other packet =>
      if other = conn ∧ packet.opcode ∈ sendOpcodes ∧
          packet.psn = taken.length then
        taken ++ [packet]
      else
        taken
  | .sent _ => taken

/-- What such a receiver has taken of the connection. -/
def taken (log : List Entry) (conn : Nat) : List Packet :=
  log.foldl (take conn) []

/-- The streams of the children. -/
def children (log : List Entry) (conn : Nat) : List Packet :=
  if conn < fanIn then taken log conn else []

/-- The frames with payload for a connection, retransmissions apart. -/
def dataTo (conn : Nat) (frames : List Frame) : List Frame :=
  frames.filter fun frame => frame.conn = conn ∧ frame.type = .data

def Entry.outgoing : Entry → Option Frame
  | .sent frame => some frame
  | .received _ _ => none

/-- The payload that the connection was sent, retransmissions apart. -/
def sentData (log : List Entry) (conn : Nat) : List Frame :=
  dataTo conn (log.filterMap Entry.outgoing)

/-- A payload word; behind the payload is nothing to add. -/
def Packet.wordAt (packet : Packet) (i : Nat) : UInt32 :=
  if i < packet.dataLen then packet.data i else 0

def Packet.payload (packet : Packet) : List UInt32 :=
  (List.range packet.dataLen).map packet.data

/-- What a connection contributes to a word of a PSN. -/
def contribution (streams : Nat → List Packet) (psn i conn : Nat) : UInt32 :=
  match (streams conn)[psn]? with
  | some packet => packet.wordAt i
  | none => 0

/-- The sum over all children. -/
noncomputable def total (streams : Nat → List Packet) (psn i : Nat) : UInt32 :=
  ∑ conn ∈ Finset.range fanIn, contribution streams psn i conn

/-- A payload that carries the sum of a PSN: its length and opcode are those of
one contribution, and the two metadata words of PSN 0 are not added up. -/
structure CarriesTotal (streams : Nat → List Packet) (psn : Nat)
    (packetType : UInt8) (data : List UInt32) : Prop where
  words : ∀ i word, data[i]? = some word → 2 ≤ i ∨ 0 < psn →
    word = total streams psn i
  shape : ∃ conn < fanIn, ∃ packet, (streams conn)[psn]? = some packet ∧
    data.length = packet.dataLen ∧ packetType = packet.opcode
  metadata : psn = 0 → ∃ conn < fanIn, ∃ packet,
    (streams conn)[0]? = some packet ∧
      ∀ i < 2, ∀ word, data[i]? = some word → word = packet.data i

section Taken

variable {log rest : List Entry} {conn other : Nat} {packet : Packet}
  {frames : List Frame} {psn : Nat}

theorem take_received_of_next (send : packet.opcode ∈ sendOpcodes)
    (next : packet.psn = (taken log conn).length) :
    take conn (taken log conn) (.received conn packet) =
      taken log conn ++ [packet] :=
  if_pos ⟨rfl, send, next⟩

theorem taken_append_sent :
    taken (log ++ frames.map Entry.sent) conn = taken log conn := by
  unfold taken
  rw [List.foldl_append]
  induction frames with
  | nil => rfl
  | cons frame frames induction => exact induction

theorem taken_handled :
    taken (log ++ .received other packet :: frames.map Entry.sent) conn =
      take conn (taken log conn) (.received other packet) := by
  rw [List.append_cons, taken_append_sent, taken, List.foldl_append]
  rfl

theorem taken_handled_of_ne (different : other ≠ conn) :
    taken (log ++ .received other packet :: frames.map Entry.sent) conn =
      taken log conn := by
  rw [taken_handled]
  exact if_neg fun both => different both.1

theorem prefix_take (sofar : List Packet) (entry : Entry) :
    sofar <+: take conn sofar entry := by
  cases entry with
  | received other packet =>
      simp only [take]
      split
      · exact List.prefix_append sofar [packet]
      · exact List.prefix_refl sofar
  | sent frame => exact List.prefix_refl sofar

/-- Every packet that was taken is a SEND under its own number. -/
theorem psn_of_taken (found : (taken log conn)[psn]? = some packet) :
    packet.psn = psn ∧ packet.opcode ∈ sendOpcodes := by
  induction log using List.reverseRecOn generalizing psn packet with
  | nil => cases found
  | append_singleton log entry induction =>
      rw [taken, List.foldl_append] at found
      cases entry with
      | received other received =>
          simp only [List.foldl_cons, List.foldl_nil, take] at found
          split at found
          · rename_i next
            rw [List.getElem?_append] at found
            split at found
            · exact induction found
            · rename_i beyond
              rw [List.getElem?_singleton] at found
              split at found
              · obtain rfl := Option.some.inj found
                have last : psn = (log.foldl (take conn) []).length := by
                  omega
                exact ⟨next.2.2.trans last.symm, next.2.1⟩
              · cases found
          · exact induction found
      | sent frame => exact induction found

theorem dataTo_append {more : List Frame} :
    dataTo conn (frames ++ more) = dataTo conn frames ++ dataTo conn more :=
  List.filter_append frames more

theorem dataTo_eq_nil
    (none : ∀ frame ∈ frames, frame.conn = conn → frame.type ≠ .data) :
    dataTo conn frames = [] := by
  refine List.filter_eq_nil_iff.mpr fun frame member => ?_
  rw [decide_eq_true_eq]
  rintro ⟨same, type⟩
  exact none frame member same type

theorem dataTo_reply {rule : Rule} {number : Int} {type : PacketType}
    {data : List UInt32} {packetType : UInt8} (reply : type ≠ .data) :
    dataTo conn (forwarding rule number type data packetType) = [] := by
  refine dataTo_eq_nil fun frame member _ => ?_
  cases type with
  | data => exact absurd rfl reply
  | ack => rw [List.mem_singleton.mp member]; exact reply
  | nak => rw [List.mem_singleton.mp member]; exact reply
  | dataSingle => rw [List.mem_singleton.mp member]; exact reply

theorem dataTo_forwarding {rule : Rule} {number : Int} {data : List UInt32}
    {packetType : UInt8} (nodup : rule.outConns.Nodup) :
    dataTo conn (forwarding rule number .data data packetType) =
      if conn ∈ rule.outConns then
        [⟨conn, .data, number, packetType, data⟩]
      else [] := by
  have carried : dataTo conn (forwarding rule number .data data packetType) =
      (rule.outConns.filter (· = conn)).map fun conn =>
        ⟨conn, .data, number, packetType, data⟩ := by
    rw [dataTo, forwarding, List.filter_map]
    congr 1
    exact List.filter_congr fun other _ => by simp
  rw [carried]
  split
  · rename_i member
    rw [List.filter_eq, List.count_eq_one_of_mem nodup member]
    rfl
  · rename_i absent
    rw [List.filter_eq, List.count_eq_zero_of_not_mem absent]
    rfl

theorem sentData_append_sent :
    sentData (log ++ frames.map Entry.sent) conn =
      sentData log conn ++ dataTo conn frames := by
  have sent : (frames.map Entry.sent).filterMap Entry.outgoing = frames := by
    rw [List.filterMap_map]
    exact List.filterMap_some
  rw [sentData, List.filterMap_append, dataTo_append, sent]
  rfl

theorem sentData_handled :
    sentData (log ++ .received other packet :: frames.map Entry.sent) conn =
      sentData log conn ++ dataTo conn frames := by
  have nothing : [Entry.received other packet].filterMap Entry.outgoing = [] :=
    rfl
  rw [List.append_cons, sentData_append_sent, sentData,
    List.filterMap_append, nothing, List.append_nil]
  rfl

end Taken

end IncEmulation.Switch
