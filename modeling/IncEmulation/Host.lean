import IncEmulation.Verbs

/-!
# The collective calls of a rank (`api.c`)

Each call is the list of stages its function goes through.  A stage runs one
round of its loop at a time, so that completions and packets can come in between
any two rounds.  Posting always succeeds, and the buffers go on behind
`payload_buf_size`: `Host.limit` adds the capacity of the queues, and
`System.Confined` says that no rank has left its buffers.
-/

namespace IncEmulation

/-- `PAYLOAD_COUNT`, the words of a message. -/
def payloadCount : Nat := 1024
/-- `comm->window_size / MESSAGE_SIZE`. -/
def windowMessages : Nat := 8192 / 4096
/-- The `wr_id` of a control message. -/
def controlWrId : Nat := 0xFFFFFFFF

structure Call where
  collective : Collective
  len : Word
  deriving DecidableEq, Repr

def Call.messageNum (call : Call) : Nat :=
  (call.len.toNat + payloadCount - 1) / payloadCount

/-- What one rank runs over its communicator.  `srcData` is the array the rank
passes to each call. -/
structure Job where
  rank : Nat
  payloadBufSize : Nat
  program : List Call
  srcData (call : Nat) (index : Int) : Word

/-- The loops that poll the completion queue. -/
inductive PollLoop where
  | allreduce
  | reduceRoot
  | reduceOther
  | broadcastRoot
  | broadcastOther
  deriving DecidableEq, Repr

inductive Stage where
  | postControl (operation : Collective)
  | awaitControl
  | postReceives
  | prepare
  | window
  | poll (loop : PollLoop)
  deriving DecidableEq, Repr

structure Locals where
  receiveNum : Nat
  sendNum : Nat
  sendComplete : Nat
  /-- The counter of the loop that posts the receives. -/
  posted : Nat
  /-- The counter of the loop that fills the send buffer. -/
  prepared : Nat
  /-- The completions of the last poll that are not yet handled. -/
  wc : List Wc

def Locals.init : Locals where
  receiveNum := 0
  sendNum := 0
  sendComplete := 0
  posted := 0
  prepared := 0
  wc := []

namespace PollLoop

def continues (locals : Locals) (messageNum : Nat) : PollLoop → Bool
  | allreduce => locals.receiveNum ≠ messageNum
  | reduceRoot => locals.receiveNum ≠ messageNum
  | reduceOther => locals.sendComplete < locals.sendNum
  | broadcastRoot => locals.sendComplete < messageNum
  | broadcastOther => locals.receiveNum < messageNum

/-- The completions the loop counts. -/
def counts : PollLoop → WcOpcode
  | allreduce => .recv
  | reduceRoot => .recv
  | reduceOther => .send
  | broadcastRoot => .send
  | broadcastOther => .recv

/-- Whether each counted completion lets the next message go out. -/
def refills : PollLoop → Bool
  | allreduce => true
  | reduceRoot => true
  | reduceOther => true
  | broadcastRoot => true
  | broadcastOther => false

end PollLoop

def sendControlMessage (operation : Collective) : List Stage :=
  [.postControl operation, .awaitControl]

def incclAllreduceSendrecv : List Stage :=
  sendControlMessage .allreduce ++
    [.postReceives, .prepare, .window, .poll .allreduce]

def incclReduceSendrecv (rank root : Nat) : List Stage :=
  sendControlMessage (.reduce root) ++
    if rank = root then
      [.postReceives, .prepare, .window, .poll .reduceRoot]
    else [.prepare, .window, .poll .reduceOther]

def incclBroadcastSendrecv (rank root : Nat) : List Stage :=
  if rank = root then
    sendControlMessage (.broadcast root) ++
      [.prepare, .window, .poll .broadcastRoot]
  else [.postReceives, .poll .broadcastOther]

def Call.stages (call : Call) (rank : Nat) : List Stage :=
  match call.collective with
  | .allreduce => incclAllreduceSendrecv
  | .reduce root => incclReduceSendrecv rank root
  | .broadcast root => incclBroadcastSendrecv rank root

/-- `i * PAYLOAD_COUNT + j` as an `int`. -/
def messageIndex (i j : Nat) : Int :=
  (BitVec.ofNat 32 (i * payloadCount + j)).toInt

/-- Word `j` of message `i` as the call lays it out. -/
def Job.messageWord (job : Job) (number : Nat) (call : Call) (i j : Nat) :
    Word :=
  if messageIndex i j < call.len.toInt then
    htonl (job.srcData number (messageIndex i j))
  else 0

structure Host where
  qp : QueuePair
  /-- The buffers are addressed from their start on and have no end here. -/
  sendPayload : Nat → Word
  receivePayload : Nat → Word
  locals : Locals
  dstData : Int → Word
  /-- The calls that have returned. -/
  calls : Nat
  /-- What is left of the running call. -/
  stages : Option (List Stage)
  /-- Whether the last call that returned met no error. -/
  succeeded : Bool
  /-- Everything the polls of the last call have returned. -/
  taken : List Wc

namespace Host

def init : Host where
  qp := .init
  sendPayload := fun _ => 0
  receivePayload := fun _ => 0
  locals := .init
  dstData := fun _ => 0
  calls := 0
  stages := none
  succeeded := true
  taken := []

def enter (host : Host) (stages : List Stage) : Host :=
  { host with stages := some stages, locals := .init, taken := [] }

def leave (host : Host) (succeeded : Bool) : Host :=
  { host with stages := none, calls := host.calls + 1, succeeded := succeeded }

/-- The control message is sent from the last word of the buffer. -/
def postControl (host : Host) (job : Job) (operation : Collective) : Host :=
  { host with
    sendPayload :=
      Function.update host.sendPayload (job.payloadBufSize - 1) 0
    qp := host.qp.postSend
      { wrId := controlWrId
        immData := some operation.immData
        address := job.payloadBufSize - 1
        length := 1
        call := host.calls } }

/-- Message `send_num` goes out. -/
def postData (host : Host) : Host :=
  { host with
    qp := host.qp.postSend
      { wrId := host.locals.sendNum
        immData := none
        address := host.locals.sendNum * payloadCount
        length := payloadCount
        call := host.calls }
    locals := { host.locals with sendNum := host.locals.sendNum + 1 } }

def postReceive (host : Host) : Host :=
  { host with
    qp := host.qp.postRecv
      { wrId := host.locals.posted
        address := host.locals.posted * payloadCount
        length := payloadCount
        call := host.calls }
    locals := { host.locals with posted := host.locals.posted + 1 } }

def prepareMessage (host : Host) (job : Job) (call : Call) : Host :=
  let start := host.locals.prepared * payloadCount
  { host with
    sendPayload := fun address =>
      if start ≤ address ∧ address < start + payloadCount then
        job.messageWord host.calls call host.locals.prepared (address - start)
      else host.sendPayload address
    locals := { host.locals with prepared := host.locals.prepared + 1 } }

/-- Copy a received message to the destination. -/
def copyMessage (host : Host) (call : Call) (i : Nat) : Int → Word :=
  (List.range payloadCount).foldl
    (fun dstData j =>
      if messageIndex i j < call.len.toInt then
        Function.update dstData (messageIndex i j)
          (ntohl (host.receivePayload (i * payloadCount + j)))
      else dstData)
    host.dstData

/-- A counted completion. -/
def count (host : Host) (call : Call) (wc : Wc) : Host :=
  match wc.opcode with
  | .recv =>
      { host with
        dstData := host.copyMessage call wc.wrId
        locals :=
          { host.locals with receiveNum := host.locals.receiveNum + 1 } }
  | .send =>
      { host with
        locals :=
          { host.locals with sendComplete := host.locals.sendComplete + 1 } }

def refill (host : Host) (call : Call) : Host :=
  if host.locals.sendNum < call.messageNum then host.postData else host

/-- One completion of a batch. -/
def handleWc (host : Host) (call : Call) (loop : PollLoop) (wc : Wc) : Host :=
  if wc.success then
    if wc.opcode = loop.counts then
      if loop.refills then (host.count call wc).refill call
      else host.count call wc
    else host
  else host.leave false

def setWc (host : Host) (wc : List Wc) : Host :=
  { host with locals := { host.locals with wc := wc } }

/-- The next completion of the batch, or the next poll once it is used up. -/
def pollRound (host : Host) (call : Call) (loop : PollLoop)
    (rest : List Stage) : Host :=
  match host.locals.wc with
  | wc :: batch => (host.setWc batch).handleWc call loop wc
  | [] =>
      if loop.continues host.locals call.messageNum then
        match host.qp.pollCq call.messageNum with
        | none => host.leave false
        | some (batch, qp) =>
            { host.setWc batch with qp := qp, taken := host.taken ++ batch }
      else { host with stages := some rest }

/-- The callers ignore whether the control message failed. -/
def awaitRound (host : Host) (rest : List Stage) : Host :=
  match host.qp.pollCq 1 with
  | none => { host with stages := some rest }
  | some ([], _) => host
  | some (batch, qp) =>
      { host with qp := qp, taken := host.taken ++ batch, stages := some rest }

/-- One round of the current stage. -/
def round (host : Host) (job : Job) (call : Call) (stage : Stage)
    (rest : List Stage) : Host :=
  match stage with
  | .postControl operation =>
      { host.postControl job operation with stages := some rest }
  | .awaitControl => host.awaitRound rest
  | .postReceives =>
      if host.locals.posted < call.messageNum then host.postReceive
      else { host with stages := some rest }
  | .prepare =>
      if host.locals.prepared < call.messageNum then
        host.prepareMessage job call
      else { host with stages := some rest }
  | .window =>
      if host.locals.sendNum < windowMessages ∧
          host.locals.sendNum < call.messageNum then host.postData
      else { host with stages := some rest }
  | .poll loop => host.pollRound call loop rest

/-- One step of the program; `none` once it has ended. -/
def step (host : Host) (job : Job) : Option Host :=
  match host.stages with
  | none =>
      job.program[host.calls]?.map fun call =>
        host.enter (call.stages job.rank)
  | some [] => some (host.leave true)
  | some (stage :: rest) =>
      job.program[host.calls]?.map fun call => host.round job call stage rest

/-- What moves a rank: its program, or the NIC. -/
inductive Action where
  | step
  | sendCompletes
  | receiveCompletes
  /-- Words arrive in the receive buffer. -/
  | store (address : Nat) (words : List Word)
  deriving DecidableEq, Repr

/-- The NIC writes `words` from `address` on. -/
def store (host : Host) (address : Nat) (words : List Word) : Host :=
  { host with
    receivePayload := fun index =>
      if address ≤ index then
        (words[index - address]?).getD (host.receivePayload index)
      else host.receivePayload index }

def act (job : Job) (host : Host) : Action → Option Host
  | .step => host.step job
  | .sendCompletes =>
      host.qp.completeSend.map fun qp => { host with qp := qp }
  | .receiveCompletes =>
      host.qp.completeReceive.map fun qp => { host with qp := qp }
  | .store address words => some (host.store address words)

section Requests

variable {host next : Host} {job : Job} {call : Call}

theorem awaitRound_sends (rest : List Stage) :
    (host.awaitRound rest).qp.sends = host.qp.sends := by
  unfold awaitRound
  split
  · rfl
  · rfl
  case h_3 batch qp nonempty polled =>
    obtain ⟨-, rfl⟩ := QueuePair.eq_of_pollCq polled
    rfl

theorem handleWc_sends (host : Host) (call : Call) (loop : PollLoop)
    (wc : Wc) :
    host.qp.sends <+: (host.handleWc call loop wc).qp.sends := by
  unfold handleWc refill count
  split_ifs <;> (try split) <;>
    first | exact List.prefix_rfl | exact List.prefix_append _ _

theorem round_sends (job : Job) (call : Call) (stage : Stage)
    (rest : List Stage) :
    host.qp.sends <+: (host.round job call stage rest).qp.sends := by
  cases stage with
  | postControl operation => exact List.prefix_append _ _
  | awaitControl => rw [round, awaitRound_sends]
  | postReceives =>
      rw [round]
      split_ifs <;> exact List.prefix_rfl
  | prepare =>
      rw [round]
      split_ifs <;> exact List.prefix_rfl
  | window =>
      rw [round]
      split_ifs
      · exact List.prefix_append _ _
      · exact List.prefix_rfl
  | poll loop =>
      rw [round, pollRound]
      split
      case h_1 wc batch first =>
        have grown := handleWc_sends (host.setWc batch) call loop wc
        exact grown
      · split_ifs
        · split
          · exact List.prefix_rfl
          case h_2 batch qp polled =>
            obtain ⟨-, rfl⟩ := QueuePair.eq_of_pollCq polled
            exact List.prefix_rfl
        · exact List.prefix_rfl

theorem act_sends {action : Action} (acted : host.act job action = some next) :
    host.qp.sends <+: next.qp.sends := by
  cases action with
  | step =>
      simp only [act, step] at acted
      split at acted
      · obtain ⟨call, -, rfl⟩ := Option.map_eq_some_iff.mp acted
        exact List.prefix_rfl
      · obtain rfl := Option.some.inj acted
        exact List.prefix_rfl
      · obtain ⟨call, -, rfl⟩ := Option.map_eq_some_iff.mp acted
        exact round_sends job call _ _
  | sendCompletes =>
      obtain ⟨qp, completes, rfl⟩ := Option.map_eq_some_iff.mp acted
      obtain ⟨wr, -, rfl⟩ := Option.map_eq_some_iff.mp completes
      exact List.prefix_rfl
  | receiveCompletes =>
      obtain ⟨qp, completes, rfl⟩ := Option.map_eq_some_iff.mp acted
      obtain ⟨wr, -, rfl⟩ := Option.map_eq_some_iff.mp completes
      exact List.prefix_rfl
  | store address words =>
      obtain rfl := Option.some.inj acted
      exact List.prefix_rfl

end Requests

end Host

end IncEmulation
