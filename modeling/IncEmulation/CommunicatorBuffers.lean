import IncEmulation.Progress

/-!
# The buffers of a communicator (`api.c`)

`inccl_communicator_create` makes both buffers twice as large as the size it is
given, in 32-bit arithmetic.  The calls round their data up to whole messages
and send the control message from the last four bytes.
-/

namespace IncEmulation

open Machine

/-- `MESSAGE_SIZE`, the bytes of a message. -/
def messageSize : Nat := 4 * payloadCount

inductive Buffer where
  | send
  | receive
  deriving DecidableEq, Repr

/-- `length` bytes of a buffer from `start` on. -/
structure Region where
  buffer : Buffer
  start : Int
  length : Nat
  deriving DecidableEq, Repr

namespace Region

def Within (region : Region) (size : Nat) : Prop :=
  0 ≤ region.start ∧ region.start + region.length ≤ size

def Overlaps (left right : Region) : Prop :=
  left.buffer = right.buffer ∧ left.start < right.start + right.length ∧
    right.start < left.start + left.length

end Region

/-- The size of the two buffers of a communicator. -/
structure Communicator where
  payloadBufSize : Word

def incclCommunicatorCreate (size : Word) : Communicator where
  payloadBufSize := size * 2

/-- The bytes `send_control_message` sends. -/
def Communicator.controlRegion (comm : Communicator) : Region where
  buffer := .send
  start := comm.payloadBufSize.toNat - 4
  length := 4

def Buffer.messageRegion (buffer : Buffer) (i : Nat) : Region where
  buffer := buffer
  start := (i * messageSize : Nat)
  length := messageSize

/-- The regions of the first `count` messages. -/
def Buffer.messageRegions (buffer : Buffer) (count : Nat) : List Region :=
  (List.range count).map buffer.messageRegion

/-- The message regions a stage writes, posts or reads. -/
def Stage.dataRegions (call : Call) : Stage → List Region
  | postControl _ => []
  | awaitControl => []
  | postReceives => Buffer.messageRegions .receive call.messageNum
  | prepare => Buffer.messageRegions .send call.messageNum
  | window =>
      Buffer.messageRegions .send (min windowMessages call.messageNum)
  | poll loop =>
      (if loop.refills then Buffer.messageRegions .send call.messageNum
      else []) ++
      (if loop.counts = .recv then
        Buffer.messageRegions .receive call.messageNum
      else [])

def Call.dataRegions (call : Call) (rank : Nat) : List Region :=
  (call.stages rank).flatMap fun stage => stage.dataRegions call

/-- The buffers are as large as they are meant to be, and hold the messages of
the call beside the control word. -/
structure Communicator.Holds (comm : Communicator) (size : Word) (call : Call)
    (rank : Nat) : Prop where
  doubled : comm.payloadBufSize.toNat = 2 * size.toNat
  inside : ∀ region ∈ call.dataRegions rank,
    region.Within comm.payloadBufSize.toNat
  apart : ∀ region ∈ call.dataRegions rank,
    ¬region.Overlaps comm.controlRegion

section Regions

variable {call : Call} {rank : Nat} {region : Region} {buffer : Buffer}
  {count : Nat}

theorem Buffer.mem_messageRegions :
    region ∈ buffer.messageRegions count ↔
      ∃ i < count, region = buffer.messageRegion i := by
  simp only [messageRegions, List.mem_map, List.mem_range, eq_comm]

theorem Buffer.messageRegions_mono {fewer : Nat} (le : fewer ≤ count)
    (member : region ∈ buffer.messageRegions fewer) :
    region ∈ buffer.messageRegions count := by
  obtain ⟨i, bound, same⟩ := mem_messageRegions.mp member
  exact mem_messageRegions.mpr ⟨i, bound.trans_le le, same⟩

/-- A rank touches all messages of the buffers it uses. -/
theorem Call.mem_dataRegions :
    region ∈ call.dataRegions rank ↔
      (call.collective.sends rank = true ∧
          region ∈ Buffer.messageRegions .send call.messageNum) ∨
        (call.collective.receives rank = true ∧
          region ∈ Buffer.messageRegions .receive call.messageNum) := by
  have window : region ∈
      Buffer.messageRegions .send (min windowMessages call.messageNum) →
        region ∈ Buffer.messageRegions .send call.messageNum :=
    Buffer.messageRegions_mono (min_le_right _ _)
  rw [dataRegions, call.stages_eq]
  cases sends : call.collective.sends rank <;>
    cases receives : call.collective.receives rank <;>
    simp only [List.mem_flatMap, List.mem_append, List.mem_cons,
      List.not_mem_nil, Stage.dataRegions, Collective.loop_counts,
      Collective.loop_refills, sends, receives, if_true, if_false,
      Bool.false_eq_true, reduceCtorEq, or_and_right, exists_or,
      exists_eq_left, false_and, true_and, false_or, or_false] <;>
    tauto

/-- The last message is the one that needs the most room. -/
theorem Buffer.forall_messageRegions_within {size : Nat} :
    (∀ region ∈ buffer.messageRegions count, region.Within size) ↔
      count * messageSize ≤ size := by
  constructor
  · intro within
    cases count with
    | zero => rw [Nat.zero_mul]; exact Nat.zero_le _
    | succ last =>
        have ends := (within _ (mem_messageRegions.mpr
          ⟨last, Nat.lt_succ_self last, rfl⟩)).2
        simp only [messageRegion] at ends
        rw [Nat.succ_mul]
        exact_mod_cast ends
  · intro room region member
    obtain ⟨i, bound, rfl⟩ := mem_messageRegions.mp member
    have before : (i + 1) * messageSize ≤ count * messageSize :=
      Nat.mul_le_mul_right _ bound
    rw [Nat.succ_mul] at before
    have ends := before.trans room
    refine ⟨Int.natCast_nonneg _, ?_⟩
    simp only [messageRegion]
    exact_mod_cast ends

theorem Buffer.not_overlaps_controlRegion {comm : Communicator} (i : Nat) :
    ¬(Buffer.messageRegion .receive i).Overlaps comm.controlRegion := by
  rintro ⟨same, -⟩
  cases same

/-- The control word is behind the last message. -/
theorem Buffer.forall_messageRegions_apart {comm : Communicator}
    (room : count * messageSize ≤ comm.payloadBufSize.toNat) :
    (∀ region ∈ Buffer.messageRegions .send count,
        ¬region.Overlaps comm.controlRegion) ↔
      count = 0 ∨ count * messageSize + 4 ≤ comm.payloadBufSize.toNat := by
  constructor
  · intro apart
    cases count with
    | zero => exact Or.inl rfl
    | succ last =>
        have behind := apart _ (mem_messageRegions.mpr
          ⟨last, Nat.lt_succ_self last, rfl⟩)
        rw [Nat.succ_mul] at room ⊢
        by_contra short
        refine behind ⟨rfl, ?_, ?_⟩ <;>
          simp only [messageRegion, Communicator.controlRegion, messageSize,
            payloadCount] at room short ⊢ <;>
          omega
  · rintro (rfl | behind) region member
    · obtain ⟨i, bound, -⟩ := mem_messageRegions.mp member
      exact absurd bound (Nat.not_lt_zero i)
    · obtain ⟨i, bound, rfl⟩ := mem_messageRegions.mp member
      rintro ⟨-, -, overlaps⟩
      have before : (i + 1) * messageSize ≤ count * messageSize :=
        Nat.mul_le_mul_right _ bound
      rw [Nat.succ_mul] at before
      simp only [messageRegion, Communicator.controlRegion] at overlaps
      omega

/-- A rank that sends needs four bytes more than its messages. -/
theorem Communicator.holds_iff {comm : Communicator} {size : Word} :
    comm.Holds size call rank ↔
      comm.payloadBufSize.toNat = 2 * size.toNat ∧
        (call.messageNum = 0 ∨
          call.messageNum * messageSize +
              (if call.collective.sends rank then 4 else 0) ≤
            comm.payloadBufSize.toNat) := by
  constructor
  · intro holds
    refine ⟨holds.doubled, ?_⟩
    cases sends : call.collective.sends rank with
    | true =>
        have room := Buffer.forall_messageRegions_within.mp
          fun region member => holds.inside region
            (Call.mem_dataRegions.mpr (Or.inl ⟨sends, member⟩))
        rw [if_pos rfl]
        exact (Buffer.forall_messageRegions_apart room).mp
          fun region member => holds.apart region
            (Call.mem_dataRegions.mpr (Or.inl ⟨sends, member⟩))
    | false =>
        have receives : call.collective.receives rank = true := by
          by_contra receivesNot
          rw [Collective.sends_of_not_receives
            (Bool.eq_false_of_not_eq_true receivesNot)] at sends
          cases sends
        have room := Buffer.forall_messageRegions_within.mp
          fun region member => holds.inside region
            (Call.mem_dataRegions.mpr (Or.inr ⟨receives, member⟩))
        rw [if_neg Bool.false_ne_true, Nat.add_zero]
        exact Or.inr room
  · rintro ⟨doubled, room⟩
    have within : call.messageNum * messageSize ≤
        comm.payloadBufSize.toNat := by
      rcases room with none | room
      · rw [none, Nat.zero_mul]
        exact Nat.zero_le _
      · exact (Nat.le_add_right _ _).trans room
    refine ⟨doubled, fun region member => ?_, fun region member => ?_⟩
    · rcases Call.mem_dataRegions.mp member with ⟨-, sent⟩ | ⟨-, received⟩
      · exact Buffer.forall_messageRegions_within.mpr within region sent
      · exact Buffer.forall_messageRegions_within.mpr within region received
    · rcases Call.mem_dataRegions.mp member with ⟨sends, sent⟩ | ⟨-, received⟩
      · rw [sends, if_pos rfl] at room
        exact (Buffer.forall_messageRegions_apart within).mpr room region sent
      · obtain ⟨i, -, rfl⟩ := Buffer.mem_messageRegions.mp received
        exact Buffer.not_overlaps_controlRegion i

end Regions

/-- The buffers are large enough for a call exactly if twice the size is below
`2 ^ 32` and, unless the call is empty, makes room for one message. -/
theorem holds_incclCommunicatorCreate_iff {size : Word} {call : Call}
    {rank : Nat} (fits : 4 * call.len.toNat ≤ size.toNat) :
    (incclCommunicatorCreate size).Holds size call rank ↔
      size.toNat < 2 ^ 31 ∧
        (call.len = 0 ∨
          (if call.collective.sends rank then 2050 else 2048) ≤
            size.toNat) := by
  have small : size.toNat < 2 ^ 32 := size.isLt
  have made : (incclCommunicatorCreate size).payloadBufSize.toNat =
      size.toNat * 2 % 2 ^ 32 := by
    rw [incclCommunicatorCreate, BitVec.toNat_mul]
    rfl
  have empty : call.len = 0 ↔ call.len.toNat = 0 :=
    ⟨fun zero => congrArg BitVec.toNat zero, fun zero =>
      BitVec.eq_of_toNat_eq zero⟩
  rw [Communicator.holds_iff, made, empty, Call.messageNum, messageSize,
    payloadCount]
  split_ifs <;> omega

/-- The buffers and the call of the host programs. -/
theorem holds_incclCommunicatorCreate_iff_host :
    (incclCommunicatorCreate 16384).Holds 16384 ⟨.allreduce, 4096⟩ 0 :=
  (holds_incclCommunicatorCreate_iff (by decide)).mpr
    ⟨by decide, Or.inr (by decide)⟩

/-- The one message of 256 elements takes up more than 2048 bytes. -/
theorem not_holds_incclCommunicatorCreate :
    ¬∀ (size : Word) (call : Call) (rank : Nat),
      4 * call.len.toNat ≤ size.toNat →
        (incclCommunicatorCreate size).Holds size call rank := by
  intro holds
  have fits := holds 1024 ⟨.allreduce, 256⟩ 0 (by decide)
  have message := fits.inside (Buffer.messageRegion .send 0)
    (Call.mem_dataRegions.mpr (Or.inl ⟨rfl, Buffer.mem_messageRegions.mpr
      ⟨0, by decide, rfl⟩⟩))
  exact absurd message.2 (by decide)

/-- The messages of the call fit a buffer of `words` words, with the control word
behind them where the rank sends one. -/
def Call.FitsIn (call : Call) (rank words : Nat) : Prop :=
  call.messageNum * payloadCount +
    (if call.collective.sends rank then 1 else 0) ≤ words

instance (call : Call) (rank words : Nat) : Decidable (call.FitsIn rank words) :=
  inferInstanceAs (Decidable (_ ≤ _))

theorem Communicator.Holds.fitsIn {comm : Communicator} {size : Word}
    {call : Call} {rank words : Nat} (holds : comm.Holds size call rank)
    (wordwise : comm.payloadBufSize.toNat = 4 * words)
    (nonempty : 0 < words) : call.FitsIn rank words := by
  have room := (Communicator.holds_iff.mp holds).2
  rw [wordwise, messageSize, Nat.mul_left_comm] at room
  rw [Call.FitsIn]
  rcases room with none | room
  · rw [none]
    split_ifs <;> omega
  · split_ifs at room ⊢ <;> omega

/-- From `start` on a rank has kept to buffers of `words` words: each request it
has posted lies inside, a message in front of the control word, and it has
written no word behind the send buffer. -/
structure Host.Confined (host start : Host) (words : Nat) : Prop where
  sends : ∀ wr ∈ host.qp.sends.drop start.qp.sends.length,
    wr.address + wr.length ≤ words ∧
      (wr.immData = none → wr.address + wr.length < words)
  receives : ∀ wr ∈ host.qp.receives.drop start.qp.receives.length,
    wr.address + wr.length ≤ words
  written : ∀ address, words ≤ address →
    host.sendPayload address = start.sendPayload address

section Runs

variable {job : Job} {host next start : Host} {call : Call} {number : Nat}

theorem Call.FitsIn.message {rank words i : Nat}
    (fits : call.FitsIn rank words) (message : i < call.messageNum) :
    i * payloadCount + payloadCount +
      (if call.collective.sends rank then 1 else 0) ≤ words := by
  have before : (i + 1) * payloadCount ≤ call.messageNum * payloadCount :=
    Nat.mul_le_mul_right _ message
  rw [Nat.succ_mul] at before
  exact (Nat.add_le_add_right before _).trans fits

theorem Job.sendWrsOf_confined {wr : SendWr}
    (fits : call.FitsIn job.rank job.payloadBufSize)
    (member : wr ∈ job.sendWrsOf number call) :
    wr.address + wr.length ≤ job.payloadBufSize ∧
      (wr.immData = none → wr.address + wr.length < job.payloadBufSize) := by
  unfold sendWrsOf at member
  split_ifs at member with sends
  · rcases List.mem_cons.mp member with rfl | data
    · have room := fits
      rw [Call.FitsIn, if_pos sends] at room
      refine ⟨?_, fun absent => by cases absent⟩
      simp only [controlWr]
      omega
    · obtain ⟨i, inRange, rfl⟩ := List.mem_map.mp data
      have room := fits.message (List.mem_range.mp inRange)
      rw [if_pos sends] at room
      exact ⟨(Nat.le_succ _).trans room, fun _ => room⟩
  · cases member

theorem Job.recvWrsOf_confined {wr : RecvWr}
    (fits : call.FitsIn job.rank job.payloadBufSize)
    (member : wr ∈ job.recvWrsOf number call) :
    wr.address + wr.length ≤ job.payloadBufSize := by
  unfold recvWrsOf at member
  split_ifs at member with receives
  · obtain ⟨i, inRange, rfl⟩ := List.mem_map.mp member
    exact (Nat.le_add_right _ _).trans
      (fits.message (List.mem_range.mp inRange))
  · cases member

theorem Host.Invariant.requests (invariant : Host.Invariant job host) :
    (∀ wr ∈ host.qp.sends, ∃ number call,
        job.program[number]? = some call ∧ wr ∈ job.sendWrsOf number call) ∧
      ∀ wr ∈ host.qp.receives, ∃ number call,
        job.program[number]? = some call ∧
          wr ∈ job.recvWrsOf number call := by
  have earlier {wr : SendWr} (member : wr ∈ job.sendsBefore host.calls) :
      ∃ number call, job.program[number]? = some call ∧
        wr ∈ job.sendWrsOf number call := by
    obtain ⟨number, -, posted⟩ := List.mem_flatMap.mp member
    unfold Job.sendWrs at posted
    split at posted
    case h_1 call current => exact ⟨number, call, current, posted⟩
    · cases posted
  have earlierReceives {wr : RecvWr}
      (member : wr ∈ job.receivesBefore host.calls) :
      ∃ number call, job.program[number]? = some call ∧
        wr ∈ job.recvWrsOf number call := by
    obtain ⟨number, -, posted⟩ := List.mem_flatMap.mp member
    unfold Job.recvWrs at posted
    split at posted
    case h_1 call current => exact ⟨number, call, current, posted⟩
    · cases posted
  cases running : host.stages with
  | none =>
      have between := invariant.between running
      rw [between.sends, between.receives]
      exact ⟨fun _ => earlier, fun _ => earlierReceives⟩
  | some stages =>
      obtain ⟨call, current, inside⟩ := invariant.inside stages running
      rw [inside.sends, inside.receives]
      constructor
      · intro wr member
        rcases List.mem_append.mp member with before | now
        · exact earlier before
        · exact ⟨host.calls, call, current, List.mem_of_mem_take now⟩
      · intro wr member
        rcases List.mem_append.mp member with before | now
        · exact earlierReceives before
        · exact ⟨host.calls, call, current, List.mem_of_mem_take now⟩

theorem Host.awaitRound_sendPayload (rest : List Stage) :
    (host.awaitRound rest).sendPayload = host.sendPayload := by
  unfold awaitRound
  split <;> rfl

theorem Host.pollRound_sendPayload (loop : PollLoop) (rest : List Stage) :
    (host.pollRound call loop rest).sendPayload = host.sendPayload := by
  unfold pollRound
  split
  · unfold handleWc refill count
    split_ifs <;> (try split) <;> rfl
  · split_ifs
    · split <;> rfl
    · rfl

/-- A round of a call that fits writes no word behind the send buffer: the
control word is the last one, and the messages are in front of it. -/
theorem Host.round_sendPayload {stage : Stage} {rest : List Stage}
    (inside : host.Inside job call (stage :: rest))
    (fits : call.FitsIn job.rank job.payloadBufSize) {address : Nat}
    (behind : job.payloadBufSize ≤ address) :
    (host.round job call stage rest).sendPayload address =
      host.sendPayload address := by
  have place := (Call.stage_cases inside.suffix).2
  cases stage with
  | postControl operation =>
      simp only [reduceCtorEq, false_and, or_false] at place
      have room := fits
      rw [Call.FitsIn, if_pos place.2.1] at room
      have other : address ≠ job.payloadBufSize - 1 := by
        omega
      exact Function.update_of_ne other _ _
  | awaitControl => exact congrFun (awaitRound_sendPayload rest) address
  | postReceives =>
      rw [round]
      split_ifs <;> rfl
  | prepare =>
      rw [round]
      split_ifs with more
      · have room := fits.message more
        have before : ¬(host.locals.prepared * payloadCount ≤ address ∧
            address < host.locals.prepared * payloadCount + payloadCount) := by
          omega
        exact if_neg before
      · rfl
  | window =>
      rw [round]
      split_ifs <;> rfl
  | poll loop => exact congrFun (pollRound_sendPayload loop rest) address

theorem Host.Moved.sendPayload (moved : host.Moved job next)
    (fits : ∀ call, job.program[host.calls]? = some call →
      call.FitsIn job.rank job.payloadBufSize) {address : Nat}
    (behind : job.payloadBufSize ≤ address) :
    next.sendPayload address = host.sendPayload address := by
  cases moved with
  | enter => rfl
  | leave => rfl
  | round running current inside =>
      exact Host.round_sendPayload inside (fits _ current) behind

/-- A rank whose calls fit keeps to its buffers, however its program and its NIC
take turns. -/
theorem Host.confined_of_reachable
    (fits : ∀ call ∈ job.program, call.FitsIn job.rank job.payloadBufSize)
    (reachable : Reachable (Host.act job) .init host) :
    host.Confined .init job.payloadBufSize := by
  have requests := (reachable_invariant job reachable).requests
  constructor
  · intro wr member
    obtain ⟨number, call, current, posted⟩ :=
      requests.1 wr (List.mem_of_mem_drop member)
    exact Job.sendWrsOf_confined (fits call (List.mem_of_getElem? current)) posted
  · intro wr member
    obtain ⟨number, call, current, posted⟩ :=
      requests.2 wr (List.mem_of_mem_drop member)
    exact Job.recvWrsOf_confined (fits call (List.mem_of_getElem? current)) posted
  · intro address behind
    have kept : host.Invariant job ∧ host.sendPayload address = 0 := by
      apply reachable.invariant fun host =>
        Host.Invariant job host ∧ host.sendPayload address = 0
      · rintro before action after ⟨invariant, untouched⟩ acted
        refine ⟨invariant.act acted, ?_⟩
        cases action with
        | step =>
            rw [(invariant.moved_of_step acted).sendPayload
              (fun call current => fits call (List.mem_of_getElem? current))
              behind]
            exact untouched
        | sendCompletes =>
            obtain ⟨qp, -, rfl⟩ := Option.map_eq_some_iff.mp acted
            exact untouched
        | receiveCompletes =>
            obtain ⟨qp, -, rfl⟩ := Option.map_eq_some_iff.mp acted
            exact untouched
        | store start words =>
            obtain rfl := Option.some.inj acted
            exact untouched
      · exact ⟨init_invariant job, rfl⟩
    exact kept.2

theorem Communicator.confined_of_holds {comm : Communicator} {size : Word}
    (wordwise : comm.payloadBufSize.toNat = 4 * job.payloadBufSize)
    (nonempty : 0 < job.payloadBufSize)
    (holds : ∀ call ∈ job.program, comm.Holds size call job.rank)
    (reachable : Reachable (Host.act job) .init host) :
    host.Confined .init job.payloadBufSize :=
  Host.confined_of_reachable
    (fun call member => (holds call member).fitsIn wordwise nonempty) reachable

end Runs

end IncEmulation
