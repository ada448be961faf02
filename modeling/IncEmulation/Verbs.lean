import IncEmulation.HostPacket

/-!
# Queue pair, completion queue and NIC of a host

The part of the verbs interface that `api.c` uses.  Both queues keep everything
that was ever posted, oldest first, and the counters say how far the NIC has
come; a request is known by its position.  Buffers are counted in words, and the
queues have no bound here: `QueuePair.limit` adds the entries they are made with.
-/

namespace IncEmulation

/-- `IBV_WC_SEND` and `IBV_WC_RECV`. -/
inductive WcOpcode where
  | send
  | recv
  deriving DecidableEq, Repr

/-- A send request; `immData` is present for `IBV_WR_SEND_WITH_IMM`.  The
number of the call that posts it is for the reader only. -/
structure SendWr where
  wrId : Nat
  immData : Option Word
  address : Nat
  length : Nat
  call : Nat
  deriving DecidableEq, Repr

structure RecvWr where
  wrId : Nat
  address : Nat
  length : Nat
  call : Nat
  deriving DecidableEq, Repr

/-- A work completion.  `request` is the position of the completed request in
its queue, which no program sees. -/
structure Wc where
  success : Bool
  opcode : WcOpcode
  wrId : Nat
  request : Nat
  deriving DecidableEq, Repr

structure QueuePair where
  sends : List SendWr
  receives : List RecvWr
  sendsDone : Nat
  receivesDone : Nat
  cq : List Wc
  /-- Whether `ibv_poll_cq` fails. -/
  broken : Bool

namespace QueuePair

def init : QueuePair where
  sends := []
  receives := []
  sendsDone := 0
  receivesDone := 0
  cq := []
  broken := false

def postSend (qp : QueuePair) (wr : SendWr) : QueuePair :=
  { qp with sends := qp.sends ++ [wr] }

def postRecv (qp : QueuePair) (wr : RecvWr) : QueuePair :=
  { qp with receives := qp.receives ++ [wr] }

/-- `ibv_poll_cq` takes up to `count` completions, `none` when it fails. -/
def pollCq (qp : QueuePair) (count : Nat) : Option (List Wc × QueuePair) :=
  if qp.broken then none
  else some (qp.cq.take count, { qp with cq := qp.cq.drop count })

theorem eq_of_pollCq {qp next : QueuePair} {count : Nat} {batch : List Wc}
    (polled : qp.pollCq count = some (batch, next)) :
    batch = qp.cq.take count ∧ next = { qp with cq := qp.cq.drop count } := by
  unfold pollCq at polled
  split_ifs at polled
  obtain ⟨first, rest⟩ := by simpa using polled
  exact ⟨first.symm, rest.symm⟩

/-- The oldest outstanding send completes successfully. -/
def completeSend (qp : QueuePair) : Option QueuePair :=
  qp.sends[qp.sendsDone]?.map fun wr =>
    { qp with
      sendsDone := qp.sendsDone + 1
      cq := qp.cq ++ [⟨true, .send, wr.wrId, qp.sendsDone⟩] }

/-- The oldest outstanding receive completes successfully. -/
def completeReceive (qp : QueuePair) : Option QueuePair :=
  qp.receives[qp.receivesDone]?.map fun wr =>
    { qp with
      receivesDone := qp.receivesDone + 1
      cq := qp.cq ++ [⟨true, .recv, wr.wrId, qp.receivesDone⟩] }

end QueuePair

/-- The words of one packet at the path MTU. -/
def mtuWords : Nat := 256

/-- Packet `part` of a send request. -/
structure Segment where
  request : SendWr
  part : Nat
  deriving DecidableEq, Repr

def SendWr.parts (wr : SendWr) : Nat := (wr.length + (mtuWords - 1)) / mtuWords

def SendWr.segments (wr : SendWr) : List Segment :=
  (List.range wr.parts).map fun part => ⟨wr, part⟩

/-- The packets of a list of requests, in the order the NIC sends them. -/
def segments (requests : List SendWr) : List Segment :=
  requests.flatMap SendWr.segments

namespace Segment

variable (segment : Segment)

def isLast : Bool := segment.part + 1 = segment.request.parts

/-- The words the packet carries. -/
def wordCount : Nat :=
  min mtuWords (segment.request.length - mtuWords * segment.part)

def address : Nat := segment.request.address + mtuWords * segment.part

/-- The opcode of a packet of a request without immediate data. -/
def plainOpcode : Opcode :=
  if segment.part = 0 then
    if segment.isLast then rdmaOpcodeSendOnly else rdmaOpcodeSendFirst
  else if segment.isLast then rdmaOpcodeSendLast else rdmaOpcodeSendMiddle

/-- Immediate data travels with the last packet. -/
def opcode : Opcode :=
  if segment.request.immData.isSome ∧ segment.isLast then
    if segment.part = 0 then rdmaOpcodeSendOnlyWithImm
    else rdmaOpcodeSendLastWithImm
  else segment.plainOpcode

def immediate : List Word :=
  if segment.isLast then (segment.request.immData.map htonl).toList else []

/-- The words read from the send buffer. -/
def words (memory : Nat → Word) : List Word :=
  (List.range segment.wordCount).map fun index =>
    memory (segment.address + index)

/-- The packet as the switch captures it. -/
def packet (addressing : Addressing) (conn psn : Nat) (memory : Nat → Word) :
    Packet where
  srcIp := addressing.srcIp conn
  dstIp := addressing.dstIp conn
  udpLength :=
    24 + 4 * segment.immediate.length + 4 * segment.wordCount
  opcode := segment.opcode
  apsn := htonl (BitVec.ofNat 32 (psn % 2 ^ 24))
  body := segment.immediate ++ segment.words memory

end Segment

end IncEmulation
