import IncEmulation.Wiring

/-!
# The room in the queues of a communicator (`api.c`)

`inccl_communicator_create` makes the completion queue and both work queues with
`segment_num` entries, one for each 4096 bytes of the size it is given.  The
calls go on when a request finds its queue full.  As long as no send and no
completion does, and no call has more messages than there are entries, a run is
one of queues without bound.
-/

namespace IncEmulation

open Machine

/-- `segment_num`; the buffers are twice as large as the size. -/
def Cluster.segmentNum (cluster : Cluster) : Nat :=
  cluster.payloadBufSize / (2 * payloadCount)

namespace QueuePair

/-- The sends that take up an entry, which is free again once their completion
has been polled. -/
def sendsHeld (qp : QueuePair) : Nat :=
  qp.sends.length - qp.sendsDone + qp.cq.countP fun wc => wc.opcode = .send

def receivesHeld (qp : QueuePair) : Nat :=
  qp.receives.length - qp.receivesDone +
    qp.cq.countP fun wc => wc.opcode = .recv

/-- What queues with `entries` entries make of a step to `after`: a request too
many is not posted, and a completion too many breaks the completion queue. -/
def limit (entries : Nat) (qp after : QueuePair) : QueuePair :=
  { after with
    sends := if after.sendsHeld ≤ entries then after.sends else qp.sends
    receives :=
      if after.receivesHeld ≤ entries then after.receives else qp.receives
    cq := if after.cq.length ≤ entries then after.cq else qp.cq
    broken := after.broken ∨ entries < after.cq.length }

theorem limit_eq {entries : Nat} {qp after : QueuePair}
    (sends : after.sendsHeld ≤ entries)
    (receives : after.receivesHeld ≤ entries)
    (completions : after.cq.length ≤ entries) :
    qp.limit entries after = after := by
  have enough : ¬entries < after.cq.length := Nat.not_lt.mpr completions
  simp [limit, sends, receives, completions, enough]

end QueuePair

namespace Host

/-- `send_control_message` does not wait when its message is not posted. -/
def limit (entries : Nat) (host after : Host) : Host :=
  { after with
    qp := host.qp.limit entries after.qp
    stages :=
      if after.qp.sendsHeld ≤ entries then after.stages
      else
        match after.stages with
        | some (.awaitControl :: rest) => some rest
        | stages => stages }

variable {host : Host} {job : Job} {entries : Nat}

/-- No more receives are outstanding than the running call has messages. -/
theorem Invariant.receivesHeld_le (invariant : host.Invariant job)
    (small : ∀ call ∈ job.program, call.messageNum ≤ entries) :
    host.qp.receivesHeld ≤ entries := by
  unfold QueuePair.receivesHeld
  cases running : host.stages with
  | none =>
      have between := invariant.between running
      have done := between.delivered.receivesDone_le
      have handled := between.delivered.receives.count
      rw [List.nil_append] at handled
      rw [between.receives] at done ⊢
      omega
  | some stages =>
      obtain ⟨call, current, inside⟩ := invariant.inside stages running
      have few := small call (List.mem_of_getElem? current)
      have posted := inside.counters.posted_le
      have done := inside.delivered.receivesDone_le
      have handled := inside.delivered.receives.count
      rw [List.countP_append] at handled
      rw [inside.receives, List.length_append, List.length_take] at done ⊢
      omega

end Host

namespace System

/-- The rank an event is about. -/
def Event.rank : Event → Nat
  | .host rank => rank
  | .transmit rank => rank
  | .handle rank => rank
  | .sendCompletes rank => rank
  | .acknowledge rank _ => rank
  | .deliver rank => rank

/-- A step with the queues that the communicator has. -/
def stepLimited (cluster : Cluster) (system : System) (event : Event) :
    Option System :=
  (step cluster system event).map fun next =>
    next.setHost event.rank
      ((system.hosts event.rank).limit cluster.segmentNum
        (next.hosts event.rank))

/-- The step puts no send and no completion into a full queue. -/
def HasRoom (cluster : Cluster) (system : System) (event : Event) : Prop :=
  ∀ next ∈ step cluster system event,
    (next.hosts event.rank).qp.sendsHeld ≤ cluster.segmentNum ∧
      (next.hosts event.rank).qp.cq.length ≤ cluster.segmentNum

instance (cluster : Cluster) (system : System) :
    DecidablePred (HasRoom cluster system) := fun event => by
  unfold HasRoom
  infer_instance

variable {cluster : Cluster} {system : System} {event : Event}

/-- With room in the queues their bound is not noticed. -/
theorem stepLimited_eq (wired : Wired cluster system)
    (small : ∀ call ∈ cluster.program, call.messageNum ≤ cluster.segmentNum)
    (room : system.HasRoom cluster event) :
    stepLimited cluster system event = step cluster system event := by
  unfold stepLimited
  cases stepped : step cluster system event with
  | none => rfl
  | some next =>
      obtain ⟨sends, completions⟩ := room next stepped
      have invariant :=
        (wired.move (moved_of_step stepped)).hosts event.rank
      have receives : (next.hosts event.rank).qp.receivesHeld ≤
          cluster.segmentNum := invariant.receivesHeld_le small
      have unchanged : (system.hosts event.rank).limit cluster.segmentNum
          (next.hosts event.rank) = next.hosts event.rank := by
        rw [Host.limit, QueuePair.limit_eq sends receives completions,
          if_pos sends]
      rw [Option.map_some, unchanged, setHost, Function.update_eq_self]

end System

end IncEmulation
