import IncEmulation.CommunicatorBuffers
import IncEmulation.Lib.Scatter

/-!
# The windowed exchange of messages

One call of a rank whose completion queue starts empty.  Sends complete in any
order once they are posted and receives in the order of their posting, each of
them after the message it answers.  Whatever the order, every message is posted
once and in turn, and every element arrives at its place.
-/

namespace IncEmulation

open Machine Scatter

section Layout

variable {call : Call} {job : Job} {number k p : Nat}

theorem messageIndex_of_lt (small : k * payloadCount + p < 2 ^ 31) :
    messageIndex k p = (k * payloadCount + p : Nat) := by
  have value : (BitVec.ofNat 32 (k * payloadCount + p)).toNat =
      k * payloadCount + p := by
    rw [BitVec.toNat_ofNat, Nat.mod_eq_of_lt (by omega)]
  rw [messageIndex, BitVec.toInt_eq_toNat_of_lt (by omega), value]

theorem Call.toInt_len (short : call.len.toNat < 2 ^ 31) :
    call.len.toInt = call.len.toNat :=
  BitVec.toInt_eq_toNat_of_lt (by omega)

theorem Call.messageNum_spec (call : Call) :
    call.len.toNat ≤ call.messageNum * payloadCount ∧
      call.messageNum * payloadCount < call.len.toNat + payloadCount := by
  rw [messageNum, payloadCount]
  omega

theorem Call.position_lt (short : call.len.toNat < 2 ^ 31)
    (message : k < call.messageNum) (word : p < payloadCount) :
    k * payloadCount + p < 2 ^ 31 := by
  rw [messageNum, payloadCount] at message
  rw [payloadCount] at word ⊢
  omega

/-- Word `position` of the messages of a call, counted from the first one. -/
def Job.sentWord (job : Job) (number : Nat) (call : Call) (position : Nat) :
    Word :=
  if position < call.len.toNat then htonl (job.srcData number position) else 0

theorem Job.messageWord_eq (short : call.len.toNat < 2 ^ 31)
    (message : k < call.messageNum) (word : p < payloadCount) :
    job.messageWord number call k p =
      job.sentWord number call (k * payloadCount + p) := by
  rw [messageWord, messageIndex_of_lt (call.position_lt short message word),
    call.toInt_len short, sentWord]
  simp only [Nat.cast_lt]

/-- Unpacking a message writes the elements of the call that it covers. -/
theorem Host.copyMessage_eq (host : Host) (short : call.len.toNat < 2 ^ 31)
    (message : k < call.messageNum) (index : Int) :
    host.copyMessage call k index =
      if 0 ≤ index ∧ index < call.len.toNat ∧
          index.toNat / payloadCount = k then
        ntohl (host.receivePayload index.toNat)
      else host.dstData index := by
  have position : ∀ p ∈ List.range payloadCount,
      messageIndex k p = (k * payloadCount + p : Nat) := fun p member =>
    messageIndex_of_lt
      (call.position_lt short message (List.mem_range.mp member))
  have scattered : host.copyMessage call k =
      scatter (fun p => messageIndex k p < call.len.toInt) (messageIndex k)
        (fun p => ntohl (host.receivePayload (k * payloadCount + p)))
        (List.range payloadCount) host.dstData := rfl
  rw [scattered]
  split_ifs with covered
  · obtain ⟨nonnegative, inside, here⟩ := covered
    have split : k * payloadCount + index.toNat % payloadCount =
        index.toNat := by
      rw [← here, Nat.mul_comm]
      exact Nat.div_add_mod _ _
    have member : index.toNat % payloadCount ∈ List.range payloadCount :=
      List.mem_range.mpr (Nat.mod_lt _ (by decide))
    have writes := position _ member
    rw [split] at writes
    rw [scatter_of_mem member]
    · rw [split]
    · rw [writes, call.toInt_len short]
      omega
    · rw [writes]
      omega
    · intro other inRange _ same
      rw [position other inRange] at same
      have equal : k * payloadCount + other = index.toNat := by
        omega
      rw [split, equal]
  · apply scatter_of_absent
    intro p member kept same
    rw [position p member] at same kept
    rw [call.toInt_len short] at kept
    have word := List.mem_range.mp member
    refine covered ⟨by omega, by omega, ?_⟩
    rw [← same, Int.toNat_natCast, Nat.mul_comm, Nat.mul_add_div (by decide),
      Nat.div_eq_of_lt word, Nat.add_zero]

end Layout

namespace Host

/-- What happens in the course of a call. -/
inductive Delivery where
  | step
  /-- The send request at a position of the queue completes. -/
  | sendCompletes (position : Nat)
  /-- The oldest outstanding receive gets its message and completes. -/
  | receiveCompletes

/-- The data messages that call `number` has posted, oldest first. -/
def messages (host : Host) (number : Nat) : List SendWr :=
  host.qp.sends.filter fun wr => wr.call = number ∧ wr.immData = none

/-- The words of message `k`, once it is posted. -/
def postedWords (host : Host) (number k : Nat) : Option (Nat → Word) :=
  (host.messages number)[k]?.map fun wr p => host.sendPayload (wr.address + p)

/-- Each element of a posted message comes back under `f`. -/
def reflected (f : Nat → Word → Word) (number : Nat) (host : Host) (k : Nat) :
    Option (Nat → Word) :=
  (host.postedWords number k).map fun words p =>
    htonl (f (k * payloadCount + p) (ntohl (words p)))

/-- One step of call `number` or of its NIC.  `answer` gives the message for the
receive with a `wr_id`, `none` while there is none. -/
def exchange (job : Job) (number : Nat)
    (answer : Host → Nat → Option (Nat → Word)) (host : Host) :
    Delivery → Option Host
  | .step => if host.calls = number then host.step job else none
  | .sendCompletes position =>
      host.qp.sends[position]?.bind fun wr =>
        let wc : Wc := ⟨true, .send, wr.wrId, position⟩
        if wr.call = number ∧ wc ∉ host.taken ++ host.qp.cq then
          some { host with qp := { host.qp with cq := host.qp.cq ++ [wc] } }
        else none
  | .receiveCompletes =>
      host.qp.receives[host.qp.receivesDone]?.bind fun wr =>
        (answer host wr.wrId).bind fun words =>
          host.qp.completeReceive.map fun qp =>
            { host.store wr.address ((List.range wr.length).map words) with
              qp := qp }

/-- A rank about to begin a call, with nothing in its completion queue. -/
structure Entering (host : Host) (job : Job) (call : Call) : Prop where
  idle : host.stages = none
  current : job.program[host.calls]? = some call
  succeeded : host.succeeded = true
  between : host.Between job
  empty : host.qp.cq = []

/-- What a running or finished call has done to the buffers of the rank and to
its destination. -/
structure Contents (host : Host) (job : Job) (call : Call) (start : Host)
    (words : Nat → Word) : Prop where
  prepared : ∀ position, position / payloadCount < host.locals.prepared →
    host.sendPayload position = job.sentWord start.calls call position
  received : ∀ position,
    start.qp.receivesDone + position / payloadCount < host.qp.receivesDone →
      host.receivePayload position = words position
  unpacked : ∀ index : Int, host.dstData index =
    if 0 ≤ index ∧ index < call.len.toNat ∧
        index.toNat / payloadCount < host.locals.receiveNum then
      ntohl (words index.toNat)
    else start.dstData index

/-- Where the call is. -/
inductive Phase (host : Host) (job : Job) (call : Call) (start : Host)
    (words : Nat → Word) : Prop
  | idle (same : host = start)
  | running (stages : List Stage) (left : host.stages = some stages)
      (calls : host.calls = start.calls) (succeeded : host.succeeded = true)
      (inside : host.Inside job call stages)
      (contents : host.Contents job call start words)
  | returned (calls : host.calls = start.calls + 1) (succeeded :
        host.succeeded = true)
      (between : host.Between job)
      (contents : host.Contents job call start words)
      (received : call.collective.receives job.rank = true →
        call.messageNum ≤ host.locals.receiveNum)
      (prepared : call.collective.sends job.rank = true →
        host.locals.prepared = call.messageNum)

section Contents

variable {host next start : Host} {job : Job} {call : Call}
  {words : Nat → Word} {stage : Stage} {rest : List Stage}

theorem Contents.congr (contents : host.Contents job call start words)
    (prepared : next.locals.prepared = host.locals.prepared)
    (receiveNum : next.locals.receiveNum = host.locals.receiveNum)
    (sendPayload : next.sendPayload = host.sendPayload)
    (receivePayload : next.receivePayload = host.receivePayload)
    (receivesDone : next.qp.receivesDone = host.qp.receivesDone)
    (dstData : next.dstData = host.dstData) :
    next.Contents job call start words where
  prepared := by
    rw [prepared, sendPayload]
    exact contents.prepared
  received := by
    rw [receivesDone, receivePayload]
    exact contents.received
  unpacked := by
    rw [receiveNum, dstData]
    exact contents.unpacked

theorem Contents.refill (contents : host.Contents job call start words) :
    (host.refill call).Contents job call start words := by
  unfold Host.refill
  split_ifs
  · exact contents.congr rfl rfl rfl rfl rfl rfl
  · exact contents

theorem Contents.enter (same : host.qp.receivesDone = start.qp.receivesDone)
    (untouched : host.dstData = start.dstData) (stages : List Stage) :
    (host.enter stages).Contents job call start words where
  prepared := by
    intro position before
    exact absurd before (Nat.not_lt_zero _)
  received := by
    intro position before
    have none : start.qp.receivesDone + position / payloadCount <
        host.qp.receivesDone := before
    rw [same] at none
    exact absurd none (Nat.not_lt.mpr (Nat.le_add_right _ _))
  unpacked := by
    intro index
    rw [if_neg fun covered => Nat.not_lt_zero _ covered.2.2]
    exact congrFun untouched index

theorem Contents.postControl {operation : Collective}
    (contents : host.Contents job call start words)
    (inside : host.Inside job call (.postControl operation :: rest)) :
    (host.round job call (.postControl operation) rest).Contents job call start
      words where
  prepared := by
    intro position before
    have none : host.locals.prepared = 0 :=
      inside.counters.prepared_before (show 0 < 3 by decide)
    have early : position / payloadCount < host.locals.prepared := before
    rw [none] at early
    exact absurd early (Nat.not_lt_zero _)
  received := contents.received
  unpacked := contents.unpacked

theorem Contents.prepare (short : call.len.toNat < 2 ^ 31)
    (contents : host.Contents job call start words)
    (current : host.calls = start.calls) :
    (host.round job call .prepare rest).Contents job call start words := by
  rw [Host.round]
  split_ifs with more
  · constructor
    · intro position before
      have bound : position / payloadCount < host.locals.prepared + 1 := before
      have split := Nat.div_add_mod position payloadCount
      have word : position % payloadCount < payloadCount :=
        Nat.mod_lt _ (by decide)
      simp only [Host.prepareMessage]
      split_ifs with here
      · have same : position / payloadCount = host.locals.prepared := by
          rw [payloadCount] at here ⊢
          omega
        have offset : position - host.locals.prepared * payloadCount =
            position % payloadCount := by
          rw [← same]
          rw [Nat.mul_comm] at split
          omega
        rw [offset, current, Job.messageWord_eq short more word, ← same,
          Nat.mul_comm, split]
      · apply contents.prepared
        rw [payloadCount] at here ⊢
        rw [payloadCount] at bound
        omega
    · exact contents.received
    · exact contents.unpacked
  · exact contents.congr rfl rfl rfl rfl rfl rfl

/-- The receives of a running call are those for its messages, in order. -/
theorem Inside.receive_eq {stages : List Stage}
    (inside : host.Inside job call stages) {wr : RecvWr} {offset : Nat}
    (present : host.qp.receives[(job.receivesBefore host.calls).length +
      offset]? = some wr) :
    wr = ⟨offset, offset * payloadCount, payloadCount, host.calls⟩ ∧
      offset < call.messageNum := by
  rw [inside.receives, List.getElem?_append_right (Nat.le_add_right _ _),
    Nat.add_sub_cancel_left] at present
  have listed := List.mem_of_getElem? present
  obtain ⟨bound, here⟩ := List.getElem?_eq_some_iff.mp present
  rw [List.getElem_take] at here
  subst here
  rw [List.length_take, Job.length_recvWrsOf] at bound
  cases receives : call.collective.receives job.rank with
  | true =>
      rw [receives, if_pos rfl] at bound
      refine ⟨?_, by omega⟩
      simp only [Job.recvWrsOf, receives, if_true, List.getElem_map,
        List.getElem_range]
  | false =>
      rw [receives, if_neg Bool.false_ne_true] at bound
      omega

theorem Inside.length_receives {stages : List Stage}
    (inside : host.Inside job call stages)
    (receives : call.collective.receives job.rank = true) :
    host.qp.receives.length =
      (job.receivesBefore host.calls).length + host.locals.posted := by
  rw [inside.receives, List.length_append, List.length_take,
    Job.length_recvWrsOf, if_pos receives,
    Nat.min_eq_left inside.counters.posted_le]

/-- The oldest receive completion is for the message that is due. -/
theorem Inside.head_message {stages : List Stage} {wc : Wc} {batch : List Wc}
    (inside : host.Inside job call stages)
    (first : host.locals.wc = wc :: batch) (recv : wc.opcode = .recv) :
    wc.wrId = host.locals.receiveNum ∧
      host.locals.receiveNum < call.messageNum ∧
      (job.receivesBefore host.calls).length + host.locals.receiveNum <
        host.qp.receivesDone := by
  have delivered := inside.delivered
  rw [first] at delivered
  obtain ⟨request, arrived, -⟩ := delivered.receives.head recv
  obtain ⟨wr, present, same⟩ := delivered.wrId wc List.mem_cons_self recv
  rw [request] at present
  obtain ⟨rfl, bound⟩ := inside.receive_eq present
  exact ⟨same, bound, arrived⟩

theorem Contents.count {stages : List Stage} {wc : Wc} {batch : List Wc}
    (short : call.len.toNat < 2 ^ 31)
    (contents : host.Contents job call start words)
    (inside : host.Inside job call stages)
    (base : start.qp.receivesDone = (job.receivesBefore host.calls).length)
    (first : host.locals.wc = wc :: batch) :
    ((host.setWc batch).count call wc).Contents job call start words := by
  unfold Host.count
  cases opcode : wc.opcode with
  | send => exact contents.congr rfl rfl rfl rfl rfl rfl
  | recv =>
      obtain ⟨wrId, bound, arrived⟩ := inside.head_message first opcode
      refine ⟨contents.prepared, contents.received, ?_⟩
      intro index
      dsimp only
      rw [wrId, Host.copyMessage_eq _ short bound]
      have unpacked : (host.setWc batch).dstData index = _ :=
        contents.unpacked index
      have received : index.toNat / payloadCount = host.locals.receiveNum →
          (host.setWc batch).receivePayload index.toNat =
            words index.toNat := by
        intro here
        apply contents.received
        rw [here, base]
        exact arrived
      have next : (host.setWc batch).locals.receiveNum =
          host.locals.receiveNum := rfl
      rw [unpacked, next]
      by_cases covered : 0 ≤ index ∧ index < call.len.toNat
      · by_cases here : index.toNat / payloadCount = host.locals.receiveNum
        · rw [if_pos ⟨covered.1, covered.2, here⟩, received here,
            if_pos ⟨covered.1, covered.2, by omega⟩]
        · rw [if_neg fun same => here same.2.2]
          by_cases earlier :
              index.toNat / payloadCount < host.locals.receiveNum
          · rw [if_pos ⟨covered.1, covered.2, earlier⟩,
              if_pos ⟨covered.1, covered.2, by omega⟩]
          · rw [if_neg fun same => earlier same.2.2,
              if_neg fun same => by omega]
      · rw [if_neg fun same => covered ⟨same.1, same.2.1⟩,
          if_neg fun same => covered ⟨same.1, same.2.1⟩,
          if_neg fun same => covered ⟨same.1, same.2.1⟩]

theorem Contents.poll {loop : PollLoop} (short : call.len.toNat < 2 ^ 31)
    (contents : host.Contents job call start words)
    (inside : host.Inside job call (.poll loop :: rest))
    (base : start.qp.receivesDone =
      (job.receivesBefore host.calls).length) :
    (host.round job call (.poll loop) rest).Contents job call start words := by
  rw [Host.round, Host.pollRound]
  split
  · rename_i wc batch first
    have counted := contents.count short inside base first
    unfold Host.handleWc
    split_ifs
    · exact counted.refill
    · exact counted
    · exact contents.congr rfl rfl rfl rfl rfl rfl
    · exact contents.congr rfl rfl rfl rfl rfl rfl
  · split_ifs
    · split
      · exact contents.congr rfl rfl rfl rfl rfl rfl
      · rename_i batch qp polled
        obtain ⟨-, rfl⟩ := QueuePair.eq_of_pollCq polled
        exact contents.congr rfl rfl rfl rfl rfl rfl
    · exact contents.congr rfl rfl rfl rfl rfl rfl

theorem Contents.round (short : call.len.toNat < 2 ^ 31)
    (contents : host.Contents job call start words)
    (inside : host.Inside job call (stage :: rest))
    (current : host.calls = start.calls)
    (base : start.qp.receivesDone =
      (job.receivesBefore host.calls).length) :
    (host.round job call stage rest).Contents job call start words := by
  cases stage with
  | postControl operation => exact contents.postControl inside
  | awaitControl =>
      rw [Host.round, Host.awaitRound]
      split
      · exact contents.congr rfl rfl rfl rfl rfl rfl
      · exact contents
      · rename_i batch qp _ polled
        obtain ⟨-, rfl⟩ := QueuePair.eq_of_pollCq polled
        exact contents.congr rfl rfl rfl rfl rfl rfl
  | postReceives =>
      rw [Host.round]
      split_ifs <;> exact contents.congr rfl rfl rfl rfl rfl rfl
  | prepare => exact contents.prepare short current
  | window =>
      rw [Host.round]
      split_ifs <;> exact contents.congr rfl rfl rfl rfl rfl rfl
  | poll loop => exact contents.poll short inside base

end Contents

section Phases

variable {host next start : Host} {job : Job} {call : Call}
  {words : Nat → Word} {answer : Host → Nat → Option (Nat → Word)}

theorem Entering.receivesDone (entering : start.Entering job call) :
    start.qp.receivesDone = start.qp.receives.length ∧
      start.qp.receives.length = (job.receivesBefore start.calls).length := by
  have delivered := entering.between.delivered
  have count := delivered.receives.count
  rw [entering.empty] at count
  have none : (job.receivesBefore start.calls).length =
      start.qp.receivesDone := count
  have receives := congrArg List.length entering.between.receives
  exact ⟨none.symm.trans receives.symm, receives⟩

theorem Delivered.send {qp : QueuePair} {wc : List Wc} {consumed : Nat}
    (delivered : qp.Delivered wc consumed) (wrId position : Nat) :
    QueuePair.Delivered
      { qp with cq := qp.cq ++ [⟨true, .send, wrId, position⟩] } wc
      consumed where
  intact := delivered.intact
  success := by
    intro other member
    rw [← List.append_assoc, List.mem_append, List.mem_singleton] at member
    rcases member with old | rfl
    · exact delivered.success other old
    · rfl
  sendsDone_le := delivered.sendsDone_le
  receivesDone_le := delivered.receivesDone_le
  receives := by
    rw [← List.append_assoc]
    exact delivered.receives.concat_of_ne nofun
  wrId := by
    intro other member recv
    rw [← List.append_assoc, List.mem_append, List.mem_singleton] at member
    rcases member with old | rfl
    · exact delivered.wrId other old recv
    · cases recv

theorem Phase.step (entering : start.Entering job call)
    (short : call.len.toNat < 2 ^ 31)
    (phase : host.Phase job call start words)
    (stepped : host.exchange job start.calls answer .step = some next) :
    next.Phase job call start words := by
  have base := entering.receivesDone
  unfold Host.exchange at stepped
  dsimp only at stepped
  split_ifs at stepped with here
  unfold Host.step at stepped
  cases phase with
  | idle same =>
      subst same
      rw [entering.idle] at stepped
      dsimp only at stepped
      rw [entering.current] at stepped
      obtain rfl := Option.some.inj stepped
      exact .running _ rfl rfl entering.succeeded
        (entering.between.enter call) (.enter rfl rfl _)
  | returned calls =>
      rw [calls] at here
      omega
  | running stages left calls succeeded inside contents =>
      rw [left] at stepped
      cases stages with
      | nil =>
          obtain rfl := Option.some.inj stepped
          have counters := inside.counters
          refine .returned (congrArg (· + 1) calls) rfl
            (inside.leave (calls ▸ entering.current)) ?_ ?_ ?_
          · exact contents.congr rfl rfl rfl rfl rfl rfl
          · exact fun receives => counters.received receives (by decide)
          · exact fun sends => counters.prepared_after sends (by decide)
      | cons stage rest =>
          dsimp only at stepped
          rw [calls, entering.current] at stepped
          obtain rfl := Option.some.inj stepped
          have continues := inside.round left
          obtain ⟨later, leftNext, insideNext⟩ := continues.inside
          refine .running later leftNext (continues.calls.trans calls)
            (continues.succeeded.trans succeeded) insideNext ?_
          apply contents.round short inside calls
          rw [calls]
          exact base.1.trans base.2

theorem Phase.sendCompletes (entering : start.Entering job call)
    (phase : host.Phase job call start words) {position : Nat}
    (taken : host.exchange job start.calls answer (.sendCompletes position) =
      some next) :
    next.Phase job call start words := by
  obtain ⟨wr, present, completes⟩ := Option.bind_eq_some_iff.mp taken
  dsimp only at completes
  split_ifs at completes with own
  obtain rfl := Option.some.inj completes
  cases phase with
  | idle same =>
      subst same
      rw [entering.between.sends] at present
      have earlier := Job.call_lt_of_mem_sendsBefore
        (List.mem_of_getElem? present)
      omega
  | running stages left calls succeeded inside contents =>
      refine .running stages left calls succeeded ?_
        (contents.congr rfl rfl rfl rfl rfl rfl)
      exact {
        suffix := inside.suffix
        counters := inside.counters
        sends := inside.sends
        receives := inside.receives
        delivered := Delivered.send inside.delivered _ _ }
  | returned calls succeeded between contents received prepared =>
      refine .returned calls succeeded ?_
        (contents.congr rfl rfl rfl rfl rfl rfl) received prepared
      exact {
        sends := between.sends
        receives := between.receives
        delivered := Delivered.send between.delivered _ _ }

theorem store_chunk {width k position : Nat} (positive : 0 < width)
    (before : position / width < k →
      host.receivePayload position = words position)
    (reached : position / width < k + 1) :
    (host.store (k * width) ((List.range width).map fun p =>
      words (k * width + p))).receivePayload position = words position := by
  have split := Nat.div_add_mod position width
  have word : position % width < width := Nat.mod_lt _ positive
  rw [Nat.mul_comm] at split
  dsimp only [Host.store]
  by_cases here : position / width = k
  · rw [here] at split
    have inside : position - k * width = position % width := by
      omega
    rw [if_pos (by omega), inside, List.getElem?_map, List.getElem?_range word]
    exact congrArg words split
  · have earlier : position / width < k := by
      omega
    have below : position < k * width :=
      (Nat.div_lt_iff_lt_mul positive).mp earlier
    rw [if_neg (by omega)]
    exact before earlier

theorem Contents.store (contents : host.Contents job call start words)
    {qp : QueuePair} {offset : Nat} {reply : Nat → Word}
    (due : host.qp.receivesDone = start.qp.receivesDone + offset)
    (done : qp.receivesDone = host.qp.receivesDone + 1)
    (right : ∀ p < payloadCount,
      reply p = words (offset * payloadCount + p)) :
    Contents
      { host.store (offset * payloadCount)
          ((List.range payloadCount).map reply) with qp := qp }
      job call start words where
  prepared := contents.prepared
  received := by
    intro position before
    rw [done, due] at before
    have same : (List.range payloadCount).map reply =
        (List.range payloadCount).map fun p =>
          words (offset * payloadCount + p) :=
      List.map_congr_left fun p member => right p (List.mem_range.mp member)
    dsimp only
    rw [same]
    apply store_chunk (by decide) _ (by omega)
    intro earlier
    apply contents.received
    rw [due]
    exact Nat.add_lt_add_left earlier _
  unpacked := contents.unpacked

theorem Phase.receiveCompletes (entering : start.Entering job call)
    (phase : host.Phase job call start words)
    (right : ∀ k < call.messageNum, ∀ reply, answer host k = some reply →
      ∀ p < payloadCount, reply p = words (k * payloadCount + p))
    (taken : host.exchange job start.calls answer .receiveCompletes =
      some next) :
    next.Phase job call start words := by
  obtain ⟨base, before⟩ := entering.receivesDone
  obtain ⟨wr, present, answered⟩ := Option.bind_eq_some_iff.mp taken
  obtain ⟨reply, given, completed⟩ := Option.bind_eq_some_iff.mp answered
  obtain ⟨qp, completes, rfl⟩ := Option.map_eq_some_iff.mp completed
  have outstanding := (List.getElem?_eq_some_iff.mp present).1
  cases phase with
  | idle same =>
      subst same
      omega
  | running stages left calls succeeded inside contents =>
      have least := inside.delivered.receives.le
      rw [← calls] at before
      have due : host.qp.receivesDone = start.qp.receivesDone +
          (host.qp.receivesDone - start.qp.receivesDone) := by
        omega
      rw [due, base, before] at present
      obtain ⟨rfl, bound⟩ := inside.receive_eq present
      obtain ⟨delivered, sends, receives, -, done⟩ :=
        inside.delivered.completeReceive completes
      refine .running stages left calls succeeded ?_ ?_
      · exact {
          suffix := inside.suffix
          counters := inside.counters
          sends := sends.trans inside.sends
          receives := receives.trans inside.receives
          delivered := delivered }
      · apply contents.store
        · rw [base, before]
          omega
        · exact done
        · exact right _ bound reply given
  | returned calls succeeded between contents received prepared =>
      have least := between.delivered.receives.le
      have all := congrArg List.length between.receives
      omega

/-- The request for message `k` of call `number`. -/
def request (number k : Nat) : SendWr where
  wrId := k
  immData := none
  address := k * payloadCount
  length := payloadCount
  call := number

theorem messages_eq {number posted : Nat}
    (sends : host.qp.sends = job.sendsBefore number ++
      (job.sendWrsOf number call).take posted)
    (few : posted ≤ call.messageNum + 1) :
    host.messages number =
      if call.collective.sends job.rank then
        (List.range (posted - 1)).map (request number)
      else [] := by
  have earlier : (job.sendsBefore number).filter
      (fun wr => wr.call = number ∧ wr.immData = none) = [] := by
    apply List.filter_eq_nil_iff.mpr
    intro wr member
    have before := Job.call_lt_of_mem_sendsBefore member
    rw [decide_eq_true_iff]
    omega
  rw [Host.messages, sends, List.filter_append, earlier, List.nil_append]
  unfold Job.sendWrsOf
  split_ifs
  · cases posted with
    | zero => rfl
    | succ posted =>
        have control : ¬((job.controlWr number call).call = number ∧
            (job.controlWr number call).immData = none) := nofun
        rw [List.take_succ_cons, List.filter_cons_of_neg
          (by rw [decide_eq_true_iff]; exact control), ← List.map_take,
          List.take_range, Nat.min_eq_left (by omega)]
        apply List.filter_eq_self.mpr
        intro wr member
        obtain ⟨k, -, rfl⟩ := List.mem_map.mp member
        rw [decide_eq_true_iff]
        exact ⟨rfl, rfl⟩
  · rw [List.take_nil, List.filter_nil]

/-- The first `count` messages are posted, with the elements of the call, and as
far ahead of the results as the window allows. -/
structure Sent (host : Host) (job : Job) (call : Call) (start : Host)
    (count : Nat) : Prop where
  messages : host.messages start.calls =
    (List.range count).map (request start.calls)
  count_le : count ≤ call.messageNum
  content : ∀ position, position / payloadCount < count →
    host.sendPayload position = job.sentWord start.calls call position
  window : call.collective.receives job.rank = true →
    start.qp.receivesDone + count ≤ host.qp.receivesDone + windowMessages

theorem Inside.sent {stages : List Stage} (entering : start.Entering job call)
    (inside : host.Inside job call stages) (calls : host.calls = start.calls)
    (contents : host.Contents job call start words)
    (sends : call.collective.sends job.rank = true) :
    host.Sent job call start host.locals.sendNum := by
  obtain ⟨base, before⟩ := entering.receivesDone
  have counters := inside.counters
  have arrived := inside.delivered.receives.le
  obtain ⟨count_le, prepared, both⟩ := inside.sendNum_le sends
  have posted := inside.sends
  rw [calls] at posted arrived
  constructor
  · rw [messages_eq posted (by split_ifs <;> omega), if_pos sends]
    by_cases first : Stage.reached stages = 0
    · rw [if_pos first, counters.sendNum_before (by omega)]
    · rw [if_neg first, Nat.add_sub_cancel]
  · exact count_le
  · exact fun position below => contents.prepared position (by omega)
  · intro receives
    have window := (both receives).1
    omega

theorem Phase.sent (entering : start.Entering job call)
    (phase : host.Phase job call start words)
    (sends : call.collective.sends job.rank = true) :
    ∃ count, host.Sent job call start count ∧
      (host.calls = start.calls + 1 → count = call.messageNum) := by
  obtain ⟨base, before⟩ := entering.receivesDone
  cases phase with
  | idle same =>
      subst same
      have nothing : host.qp.sends = job.sendsBefore host.calls ++
          (job.sendWrsOf host.calls call).take 0 := by
        rw [List.take_zero, List.append_nil]
        exact entering.between.sends
      refine ⟨0, ⟨?_, Nat.zero_le _, nofun, fun _ => by omega⟩, by omega⟩
      rw [messages_eq nothing (Nat.zero_le _), if_pos sends]
  | running stages left calls succeeded inside contents =>
      exact ⟨_, Inside.sent entering inside calls contents sends, by omega⟩
  | returned calls succeeded between contents received prepared =>
      have posted := between.sends
      have arrived := between.delivered.receives.le
      have all : (job.sendWrsOf start.calls call).take (call.messageNum + 1) =
          job.sendWrsOf start.calls call := by
        apply List.take_of_length_le
        rw [Job.length_sendWrsOf, if_pos sends]
      rw [calls, Job.sendsBefore_succ, Job.sendWrs_of_call entering.current,
        ← all] at posted
      refine ⟨call.messageNum, ⟨?_, le_rfl, ?_, ?_⟩, fun _ => rfl⟩
      · rw [messages_eq posted le_rfl, if_pos sends, Nat.add_sub_cancel]
      · rw [← prepared sends]
        exact contents.prepared
      · intro receives
        rw [calls, Job.receivesBefore_succ,
          Job.recvWrs_of_call entering.current, List.length_append,
          Job.length_recvWrsOf, if_pos receives] at arrived
        omega

theorem Phase.moved (entering : start.Entering job call)
    (phase : host.Phase job call start words)
    (here : host.calls = start.calls) (stepped : host.step job = some next) :
    host.Moved job next := by
  unfold Host.step at stepped
  cases phase with
  | idle same =>
      subst same
      rw [entering.idle, entering.current] at stepped
      obtain rfl := Option.some.inj stepped
      exact .enter entering.idle entering.current
  | running stages left calls succeeded inside contents =>
      have current := entering.current
      rw [← calls] at current
      rw [left] at stepped
      cases stages with
      | nil =>
          obtain rfl := Option.some.inj stepped
          exact .leave left current inside
      | cons stage rest =>
          rw [current] at stepped
          obtain rfl := Option.some.inj stepped
          exact .round left current inside
  | returned calls succeeded between contents received prepared => omega

/-- The requests of the call lie in buffers that it fits. -/
theorem Phase.confined (entering : start.Entering job call)
    (fits : call.FitsIn job.rank job.payloadBufSize)
    (phase : host.Phase job call start words)
    (written : ∀ address, job.payloadBufSize ≤ address →
      host.sendPayload address = start.sendPayload address) :
    host.Confined start job.payloadBufSize := by
  have sends := entering.between.sends
  have receives := entering.between.receives
  cases phase with
  | idle same =>
      subst same
      refine ⟨?_, ?_, written⟩ <;>
        · rw [List.drop_length]
          exact nofun
  | running stages left calls succeeded inside contents =>
      have posted := inside.sends
      have awaited := inside.receives
      rw [calls, ← sends] at posted
      rw [calls, ← receives] at awaited
      constructor
      · intro wr member
        rw [posted, List.drop_left] at member
        exact Job.sendWrsOf_confined fits (List.mem_of_mem_take member)
      · intro wr member
        rw [awaited, List.drop_left] at member
        exact Job.recvWrsOf_confined fits (List.mem_of_mem_take member)
      · exact written
  | returned calls succeeded between contents received prepared =>
      have posted := between.sends
      have awaited := between.receives
      rw [calls, Job.sendsBefore_succ, Job.sendWrs_of_call entering.current,
        ← sends] at posted
      rw [calls, Job.receivesBefore_succ, Job.recvWrs_of_call entering.current,
        ← receives] at awaited
      constructor
      · intro wr member
        rw [posted, List.drop_left] at member
        exact Job.sendWrsOf_confined fits member
      · intro wr member
        rw [awaited, List.drop_left] at member
        exact Job.recvWrsOf_confined fits member
      · exact written

end Phases

section Runs

variable {host start : Host} {job : Job} {call : Call} {words : Nat → Word}
  {answer : Host → Nat → Option (Nat → Word)} {count : Nat}

theorem Sent.reply_eq (sent : host.Sent job call start count) {k : Nat}
    {reply : Nat → Word} (posted : host.postedWords start.calls k = some reply)
    {p : Nat} (word : p < payloadCount) :
    reply p = job.sentWord start.calls call (k * payloadCount + p) := by
  rw [postedWords, sent.messages] at posted
  obtain ⟨wr, present, rfl⟩ := Option.map_eq_some_iff.mp posted
  obtain ⟨bound, here⟩ := List.getElem?_eq_some_iff.mp present
  rw [List.length_map, List.length_range] at bound
  rw [List.getElem_map, List.getElem_range] at here
  subst here
  apply sent.content
  rw [request, Nat.mul_comm, Nat.mul_add_div (by decide),
    Nat.div_eq_of_lt word]
  exact bound

theorem Phase.next {next : Host} {delivery : Delivery}
    (entering : start.Entering job call) (short : call.len.toNat < 2 ^ 31)
    (phase : host.Phase job call start words)
    (right : ∀ k < call.messageNum, ∀ reply, answer host k = some reply →
      ∀ p < payloadCount, reply p = words (k * payloadCount + p))
    (taken : host.exchange job start.calls answer delivery = some next) :
    next.Phase job call start words := by
  cases delivery with
  | step => exact phase.step entering short taken
  | sendCompletes position => exact phase.sendCompletes entering taken
  | receiveCompletes => exact phase.receiveCompletes entering right taken

theorem Phase.reachable (entering : start.Entering job call)
    (short : call.len.toNat < 2 ^ 31)
    (right : ∀ host : Host, host.Phase job call start words →
      ∀ k < call.messageNum, ∀ reply, answer host k = some reply →
        ∀ p < payloadCount, reply p = words (k * payloadCount + p))
    (reachable : Reachable (exchange job start.calls answer) start host) :
    host.Phase job call start words := by
  apply reachable.invariant (fun host => host.Phase job call start words)
  · intro host delivery next phase taken
    exact phase.next entering short (right host phase) taken
  · exact .idle rfl

/-- The call writes no word behind the send buffer. -/
theorem Phase.sendPayload_next {next : Host} {delivery : Delivery}
    (entering : start.Entering job call)
    (fits : call.FitsIn job.rank job.payloadBufSize)
    (phase : host.Phase job call start words)
    (taken : host.exchange job start.calls answer delivery = some next)
    {address : Nat} (behind : job.payloadBufSize ≤ address) :
    next.sendPayload address = host.sendPayload address := by
  cases delivery with
  | step =>
      unfold exchange at taken
      dsimp only at taken
      split_ifs at taken with here
      refine (phase.moved entering here taken).sendPayload ?_ behind
      intro own current
      rw [here, entering.current] at current
      exact Option.some.inj current ▸ fits
  | sendCompletes position =>
      obtain ⟨wr, -, completes⟩ := Option.bind_eq_some_iff.mp taken
      dsimp only at completes
      split_ifs at completes
      obtain rfl := Option.some.inj completes
      rfl
  | receiveCompletes =>
      obtain ⟨wr, -, answered⟩ := Option.bind_eq_some_iff.mp taken
      obtain ⟨reply, -, completed⟩ := Option.bind_eq_some_iff.mp answered
      obtain ⟨qp, -, rfl⟩ := Option.map_eq_some_iff.mp completed
      rfl

/-- A call that fits its buffers keeps to them as long as the answers are
right. -/
theorem Phase.confined_of_reachable (entering : start.Entering job call)
    (short : call.len.toNat < 2 ^ 31)
    (fits : call.FitsIn job.rank job.payloadBufSize)
    (right : ∀ host : Host, host.Phase job call start words →
      ∀ k < call.messageNum, ∀ reply, answer host k = some reply →
        ∀ p < payloadCount, reply p = words (k * payloadCount + p))
    (reachable : Reachable (exchange job start.calls answer) start host) :
    host.Confined start job.payloadBufSize := by
  have phase := Phase.reachable entering short right reachable
  apply phase.confined entering fits
  intro address behind
  have kept : host.Phase job call start words ∧
      host.sendPayload address = start.sendPayload address := by
    apply reachable.invariant fun host =>
      host.Phase job call start words ∧
        host.sendPayload address = start.sendPayload address
    · rintro before delivery after ⟨phase, untouched⟩ taken
      exact ⟨phase.next entering short (right before phase) taken,
        (phase.sendPayload_next entering fits taken behind).trans untouched⟩
    · exact ⟨.idle rfl, rfl⟩
  exact kept.2

/-- Nothing is written behind the elements of the call, and all of them are
there once it has returned. -/
theorem Phase.dstData (phase : host.Phase job call start words)
    (receives : call.collective.receives job.rank = true) (index : Int) :
    (¬(0 ≤ index ∧ index < call.len.toNat) →
      host.dstData index = start.dstData index) ∧
    (host.calls = start.calls + 1 → 0 ≤ index ∧ index < call.len.toNat →
      host.dstData index = ntohl (words index.toNat)) := by
  cases phase with
  | idle same =>
      subst same
      exact ⟨fun _ => rfl, fun more => by omega⟩
  | running stages left calls succeeded inside contents =>
      refine ⟨fun outside => ?_, fun more => by omega⟩
      rw [contents.unpacked, if_neg fun same => outside ⟨same.1, same.2.1⟩]
  | returned calls succeeded between contents received prepared =>
      refine ⟨fun outside => ?_, fun _ covered => ?_⟩
      · rw [contents.unpacked, if_neg fun same => outside ⟨same.1, same.2.1⟩]
      · have all := received receives
        have messages := call.messageNum_spec
        have message : index.toNat / payloadCount < call.messageNum := by
          apply (Nat.div_lt_iff_lt_mul (by decide)).mpr
          omega
        rw [contents.unpacked, if_pos ⟨covered.1, covered.2, by omega⟩]

/-- What every state of a call shows whose messages come back under `f`. -/
structure Exchanged (host : Host) (job : Job) (call : Call) (start : Host)
    (f : Nat → Word → Word) : Prop where
  /-- Each message is posted once and in order. -/
  inOrder : ∃ count ≤ call.messageNum, host.messages start.calls =
    (List.range count).map (request start.calls)
  window : start.qp.receivesDone + (host.messages start.calls).length ≤
    host.qp.receivesDone + windowMessages
  /-- The elements and the padding of the posted messages. -/
  posted : ∀ wr ∈ host.messages start.calls, ∀ p < payloadCount,
    host.sendPayload (wr.address + p) =
      if wr.wrId * payloadCount + p < call.len.toNat then
        htonl (job.srcData start.calls (wr.wrId * payloadCount + p : Nat))
      else 0
  untouched : ∀ index : Int, ¬(0 ≤ index ∧ index < call.len.toNat) →
    host.dstData index = start.dstData index
  returned : host.calls = start.calls + 1 →
    host.succeeded = true ∧
      (host.messages start.calls).length = call.messageNum ∧
        ∀ index < call.len.toNat,
          host.dstData index = f index (job.srcData start.calls index)

/-- The words that come back are those the call has posted, under `f`. -/
theorem Phase.reflected_right (entering : start.Entering job call)
    (sends : call.collective.sends job.rank = true) {f : Nat → Word → Word}
    (phase : host.Phase job call start fun position =>
      htonl (f position (ntohl (job.sentWord start.calls call position)))) :
    ∀ k < call.messageNum, ∀ reply,
      reflected f start.calls host k = some reply → ∀ p < payloadCount,
        reply p = htonl (f (k * payloadCount + p) (ntohl
          (job.sentWord start.calls call (k * payloadCount + p)))) := by
  intro k _ reply answered p word
  obtain ⟨count, sent, -⟩ := phase.sent entering sends
  obtain ⟨own, posted, rfl⟩ := Option.map_eq_some_iff.mp answered
  dsimp only
  rw [sent.reply_eq posted word]

theorem exchanged_of_reachable (entering : start.Entering job call)
    (short : call.len.toNat < 2 ^ 31)
    (fits : call.FitsIn job.rank job.payloadBufSize)
    (both : call.collective = .allreduce ∨ call.collective = .reduce job.rank)
    {f : Nat → Word → Word}
    (reachable : Reachable
      (exchange job start.calls (reflected f start.calls)) start host) :
    host.Exchanged job call start f ∧
      host.Confined start job.payloadBufSize := by
  have sends : call.collective.sends job.rank = true := by
    rcases both with same | same <;> rw [same] <;> rfl
  have receives : call.collective.receives job.rank = true := by
    rcases both with same | same <;> rw [same]
    · rfl
    · exact decide_eq_true rfl
  have right (host : Host) (phase : host.Phase job call start fun position =>
      htonl (f position (ntohl (job.sentWord start.calls call position)))) :=
    phase.reflected_right entering sends
  have phase := Phase.reachable entering short right reachable
  refine ⟨?_, Phase.confined_of_reachable entering short fits right reachable⟩
  obtain ⟨count, sent, all⟩ := phase.sent entering sends
  have length : (host.messages start.calls).length = count := by
    rw [sent.messages, List.length_map, List.length_range]
  constructor
  · exact ⟨count, sent.count_le, sent.messages⟩
  · rw [length]
    exact sent.window receives
  · intro wr member p word
    rw [sent.messages] at member
    obtain ⟨k, inRange, rfl⟩ := List.mem_map.mp member
    apply sent.content
    rw [request, Nat.mul_comm, Nat.mul_add_div (by decide),
      Nat.div_eq_of_lt word]
    exact List.mem_range.mp inRange
  · exact fun index => (phase.dstData receives index).1
  · intro ended
    refine ⟨?_, ?_, fun index inside => ?_⟩
    · cases phase with
      | idle same => exact same ▸ entering.succeeded
      | running stages left calls succeeded => exact succeeded
      | returned calls succeeded => exact succeeded
    · rw [length]
      exact all ended
    · rw [(phase.dstData receives index).2 ended (by omega), Int.toNat_natCast,
        ntohl_htonl, Job.sentWord, if_pos inside, ntohl_htonl]

/-- The words a Broadcast root has posted arrive at every other rank. -/
theorem broadcast_of_reachable {root : Host} {rootStart : Host} {rootJob : Job}
    (rootEntering : rootStart.Entering rootJob call)
    (entering : start.Entering job call) (short : call.len.toNat < 2 ^ 31)
    (rootFits : call.FitsIn rootJob.rank rootJob.payloadBufSize)
    (fits : call.FitsIn job.rank job.payloadBufSize)
    (broadcast : call.collective = .broadcast rootJob.rank)
    (other : job.rank ≠ rootJob.rank)
    (rootReachable : Reachable
      (exchange rootJob rootStart.calls fun _ _ => none) rootStart root)
    (reachable : Reachable
      (exchange job start.calls fun _ => root.postedWords rootStart.calls)
      start host) :
    root.Confined rootStart rootJob.payloadBufSize ∧
      host.Confined start job.payloadBufSize ∧
        (host.calls = start.calls + 1 → ∀ index < call.len.toNat,
          host.dstData index = rootJob.srcData rootStart.calls index) := by
  have sends : call.collective.sends rootJob.rank = true := by
    rw [broadcast]
    exact decide_eq_true rfl
  have receives : call.collective.receives job.rank = true := by
    rw [broadcast]
    exact decide_eq_true other
  have unanswered : ∀ host : Host,
      (host.Phase rootJob call rootStart fun _ => 0) →
      ∀ k < call.messageNum, ∀ reply : Nat → Word,
        (none : Option (Nat → Word)) = some reply → ∀ p < payloadCount,
          reply p = 0 := by
    intro _ _ _ _ reply answered
    cases answered
  have rootPhase :=
    Phase.reachable rootEntering short unanswered rootReachable
  obtain ⟨count, sent, -⟩ := rootPhase.sent rootEntering sends
  have right : ∀ host : Host,
      host.Phase job call start (rootJob.sentWord rootStart.calls call) →
      ∀ k < call.messageNum, ∀ reply,
        root.postedWords rootStart.calls k = some reply →
          ∀ p < payloadCount, reply p =
            rootJob.sentWord rootStart.calls call (k * payloadCount + p) := by
    intro _ _ k _ reply posted p word
    exact sent.reply_eq posted word
  have phase := Phase.reachable entering short right reachable
  refine ⟨Phase.confined_of_reachable rootEntering short rootFits unanswered
    rootReachable, Phase.confined_of_reachable entering short fits right
    reachable, fun returned index inside => ?_⟩
  rw [(phase.dstData receives index).2 returned (by omega), Int.toNat_natCast,
    Job.sentWord, if_pos inside, ntohl_htonl]

end Runs

/-- The exchange of AllReduce and of the root of Reduce, and the way of the data
of a Broadcast from the root to another rank, on communicators that the messages
of the call fit. -/
theorem exchange_delivers :
    (∀ {job : Job} {call : Call} {start : Host}, start.Entering job call →
      call.len.toNat < 2 ^ 31 → call.FitsIn job.rank job.payloadBufSize →
      call.collective = .allreduce ∨ call.collective = .reduce job.rank →
      ∀ (f : Nat → Word → Word) (host : Host),
        Reachable (exchange job start.calls (reflected f start.calls)) start
            host →
          host.Exchanged job call start f ∧
            host.Confined start job.payloadBufSize) ∧
    (∀ {rootJob job : Job} {call : Call} {rootStart start : Host},
      rootStart.Entering rootJob call → start.Entering job call →
      call.len.toNat < 2 ^ 31 →
      call.FitsIn rootJob.rank rootJob.payloadBufSize →
      call.FitsIn job.rank job.payloadBufSize →
      call.collective = .broadcast rootJob.rank → job.rank ≠ rootJob.rank →
      ∀ root host : Host,
        Reachable (exchange rootJob rootStart.calls fun _ _ => none) rootStart
            root →
        Reachable
            (exchange job start.calls fun _ =>
              root.postedWords rootStart.calls) start host →
        root.Confined rootStart rootJob.payloadBufSize ∧
          host.Confined start job.payloadBufSize ∧
            (host.calls = start.calls + 1 → ∀ index < call.len.toNat,
              host.dstData index = rootJob.srcData rootStart.calls index)) :=
  ⟨fun entering short fits both _ _ =>
      exchanged_of_reachable entering short fits both,
    fun rootEntering entering short rootFits fits broadcast other _ _ =>
      broadcast_of_reachable rootEntering entering short rootFits fits
        broadcast other⟩

/-- A rank that adds up `len` words over buffers of 8192 bytes. -/
def addingUp (len : Word) : Job where
  rank := 0
  payloadBufSize := 2048
  program := [⟨.allreduce, len⟩]
  srcData _ _ := 7

theorem addingUp_entering (len : Word) :
    Host.init.Entering (addingUp len) ⟨.allreduce, len⟩ :=
  ⟨rfl, rfl, rfl, (init_invariant (addingUp len)).between rfl, rfl⟩

def oneWordRun : List Delivery :=
  [.step, .step, .sendCompletes 0] ++ List.replicate 7 .step ++
    [.receiveCompletes, .sendCompletes 1] ++ List.replicate 4 .step

/-- Rank 0 broadcasts one word. -/
def broadcasting (rank : Nat) : Job where
  rank := rank
  payloadBufSize := 2048
  program := [⟨.broadcast 0, 1⟩]
  srcData _ _ := 7

theorem broadcasting_entering (rank : Nat) :
    Host.init.Entering (broadcasting rank) ⟨.broadcast 0, 1⟩ :=
  ⟨rfl, rfl, rfl, (init_invariant (broadcasting rank)).between rfl, rfl⟩

/-- The root posts its message. -/
def postingRun : List Delivery :=
  [.step, .step, .sendCompletes 0] ++ List.replicate 5 .step

def receivingRun : List Delivery :=
  List.replicate 3 .step ++ [.receiveCompletes] ++ List.replicate 4 .step

theorem exchange_delivers_oneWord :
    (∃ host, run (exchange (addingUp 1) 0
        (reflected (fun _ word => word + word) 0)) .init oneWordRun =
          some host ∧
      host.dstData 0 = 14 ∧ host.Confined .init 2048) ∧
    ∃ root host, run (exchange (broadcasting 0) 0 fun _ _ => none) .init
        postingRun = some root ∧
      run (exchange (broadcasting 1) 0 fun _ => root.postedWords 0) .init
        receivingRun = some host ∧ host.dstData 0 = 7 := by
  constructor
  · have shape : (run (exchange (addingUp 1) 0
        (reflected (fun _ word => word + word) 0)) .init oneWordRun).map
          Host.calls = some 1 := by
      decide
    obtain ⟨host, ran, calls⟩ := Option.map_eq_some_iff.mp shape
    obtain ⟨exchanged, confined⟩ := exchange_delivers.1 (addingUp_entering 1)
      (by decide) (by decide) (Or.inl rfl) (fun _ word => word + word) host
      ⟨oneWordRun, ran⟩
    exact ⟨host, ran, (exchanged.returned calls).2.2 0 (by decide), confined⟩
  · have shape : ((run (exchange (broadcasting 0) 0 fun _ _ => none) .init
        postingRun).bind fun root =>
          (run (exchange (broadcasting 1) 0 fun _ => root.postedWords 0) .init
            receivingRun).map Host.calls) = some 1 := by
      decide
    obtain ⟨root, posts, received⟩ := Option.bind_eq_some_iff.mp shape
    obtain ⟨host, ran, calls⟩ := Option.map_eq_some_iff.mp received
    obtain ⟨-, -, delivered⟩ := exchange_delivers.2 (broadcasting_entering 0)
      (broadcasting_entering 1) (by decide) (by decide) (by decide) rfl
      (by decide) root host ⟨postingRun, posts⟩ ⟨receivingRun, ran⟩
    exact ⟨root, host, posts, ran, delivered calls 0 (by decide)⟩

/-- The third receive of a call of 2049 words lies behind the buffer. -/
theorem not_confined_addingUp :
    ¬∀ {job : Job} {call : Call} {start : Host}, start.Entering job call →
      call.len.toNat < 2 ^ 31 →
      call.collective = .allreduce ∨ call.collective = .reduce job.rank →
      ∀ (f : Nat → Word → Word) (host : Host),
        Reachable (exchange job start.calls (reflected f start.calls)) start
            host →
          host.Exchanged job call start f ∧
            host.Confined start job.payloadBufSize := by
  intro always
  have shape : (run (exchange (addingUp 2049) 0
      (reflected (fun _ word => word) 0)) .init
        ([.step, .step, .sendCompletes 0] ++ List.replicate 4 .step)).map
          (fun host => host.qp.receives[2]?.map fun wr =>
            wr.address + wr.length) = some (some 3072) := by
    decide
  obtain ⟨host, ran, third⟩ := Option.map_eq_some_iff.mp shape
  have confined := (always (addingUp_entering 2049) (by decide) (Or.inl rfl)
    (fun _ word => word) host ⟨_, ran⟩).2
  obtain ⟨wr, posted, ends⟩ := Option.map_eq_some_iff.mp third
  have inside := confined.receives wr (List.mem_of_getElem? posted)
  rw [ends] at inside
  exact absurd inside (by decide)

end Host

end IncEmulation
