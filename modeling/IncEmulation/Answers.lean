import IncEmulation.Posting

/-!
# What a call brings to its receivers

The data of a call is the sum over its senders: over all ranks in an AllReduce
or a Reduce, and what the root has in a Broadcast.  Once its NIC has the messages
of a call in the receive buffer, a rank copies them to the destination.
-/

namespace IncEmulation

open Gather

/-- The ranks whose data goes into a call. -/
def Collective.senders (hosts : Nat) (collective : Collective) : Finset Nat :=
  (Finset.range hosts).filter fun rank => collective.sends rank

namespace Cluster

/-- Word `position` of the messages of a call, as it lies on the wire. -/
def answer (cluster : Cluster) (number position : Nat) : Word :=
  (cluster.program[number]?).elim 0 fun call =>
    htonl (∑ sender ∈ call.collective.senders cluster.hosts,
      ntohl ((cluster.job sender).sentWord number call position))

/-- Packet `k` of the messages of a call. -/
def answerWords (cluster : Cluster) (number k : Nat) : List Word :=
  (List.range mtuWords).map fun index =>
    cluster.answer number (k * mtuWords + index)

/-- Word `index` of what a connection carries under a PSN, in host order. -/
def carried (cluster : Cluster) (conn psn index : Nat) : Word :=
  ((cluster.job conn).stream[psn]?).elim 0 fun segment =>
    (cluster.program[segment.request.call]?).elim 0 fun call =>
      ntohl ((cluster.job conn).sentWord segment.request.call call
        (segment.address + index))

end Cluster

section Words

variable {cluster : Cluster} {conn number k : Nat} {call : Call}

theorem Collective.senders_of_aggregates {hosts : Nat} {collective : Collective}
    (aggregates : collective.aggregates = true) :
    collective.senders hosts = Finset.range hosts :=
  Finset.filter_true_of_mem fun rank _ =>
    Collective.sends_of_aggregates aggregates rank

theorem Collective.senders_broadcast {hosts root : Nat} (bound : root < hosts) :
    (Collective.broadcast root).senders hosts = {root} := by
  ext rank
  simp only [senders, sends, Finset.mem_filter, Finset.mem_range,
    decide_eq_true_eq, Finset.mem_singleton]
  constructor
  · exact And.right
  · rintro rfl
    exact ⟨bound, rfl⟩

namespace Cluster

theorem answer_eq (current : cluster.program[number]? = some call)
    (position : Nat) :
    cluster.answer number position =
      htonl (∑ sender ∈ call.collective.senders cluster.hosts,
        ntohl ((cluster.job sender).sentWord number call position)) := by
  rw [answer, current, Option.elim_some]

theorem ntohl_answer (current : cluster.program[number]? = some call)
    {index : Nat} (inside : index < call.len.toNat) :
    ntohl (cluster.answer number index) =
      ∑ sender ∈ call.collective.senders cluster.hosts,
        cluster.srcData sender number index := by
  rw [answer_eq current, ntohl_htonl]
  apply Finset.sum_congr rfl
  intro sender _
  rw [Job.sentWord, if_pos inside, ntohl_htonl]
  rfl

theorem answer_broadcast (current : cluster.program[number]? = some call)
    {root : Nat} (collective : call.collective = .broadcast root)
    (position : Nat) :
    cluster.answer number position =
      (cluster.job root).sentWord number call position := by
  have bound : root < cluster.hosts := by
    have valid := valid_of_call current
    rwa [collective] at valid
  rw [answer_eq current, collective, Collective.senders_broadcast bound,
    Finset.sum_singleton, htonl_ntohl]

theorem address_dataSegment (number k : Nat) :
    (Job.dataSegment number k).address = k * mtuWords := by
  simp only [Segment.address, Job.dataSegment, Job.dataWr, payloadCount,
    mtuWords]
  omega

theorem carried_data (current : cluster.program[number]? = some call)
    (sends : call.collective.sends conn = true)
    (inCall : k < 4 * call.messageNum) (index : Nat) :
    cluster.carried conn ((cluster.job conn).base number + 1 + k) index =
      ntohl ((cluster.job conn).sentWord number call
        (k * mtuWords + index)) := by
  have streamed := Job.stream_data
    (show (cluster.job conn).program[number]? = some call from current) sends
    inCall
  have own : (Job.dataSegment number k).request.call = number := rfl
  rw [carried, streamed, Option.elim_some, own, current, Option.elim_some,
    address_dataSegment]

/-- The sum over all connections of what they carry is the answer. -/
theorem htonl_sum_carried (current : cluster.program[number]? = some call)
    (aggregates : call.collective.aggregates = true)
    (inCall : k < 4 * call.messageNum) {psn : Nat}
    (place : ∀ sender < cluster.hosts,
      psn = (cluster.job sender).base number + 1 + k) (index : Nat) :
    htonl (∑ sender ∈ Finset.range cluster.hosts,
        cluster.carried sender psn index) =
      cluster.answer number (k * mtuWords + index) := by
  rw [answer_eq current, Collective.senders_of_aggregates aggregates]
  congr 1
  apply Finset.sum_congr rfl
  intro sender member
  rw [place sender (Finset.mem_range.mp member),
    carried_data current (Collective.sends_of_aggregates aggregates sender)
      inCall]

end Cluster

end Words

namespace Job

variable {job : Job} {number later k : Nat} {call : Call}

theorem receivesBefore_mono (job : Job) (le : number ≤ later) :
    (job.receivesBefore number).length ≤ (job.receivesBefore later).length := by
  induction later, le using Nat.le_induction with
  | base => exact le_rfl
  | succ later _ induction =>
      rw [receivesBefore_succ, List.length_append]
      omega

theorem length_receivesBefore_succ
    (current : job.program[number]? = some call)
    (receives : call.collective.receives job.rank = true) :
    (job.receivesBefore (number + 1)).length =
      (job.receivesBefore number).length + call.messageNum := by
  rw [receivesBefore_succ, List.length_append, recvWrs_of_call current,
    length_recvWrsOf, if_pos receives]

/-- The packets of different calls that a rank receives are different ones. -/
theorem receive_position_inj {other j : Nat} {otherCall : Call}
    (current : job.program[number]? = some call)
    (receives : call.collective.receives job.rank = true)
    (inCall : k < 4 * call.messageNum)
    (otherCurrent : job.program[other]? = some otherCall)
    (otherReceives : otherCall.collective.receives job.rank = true)
    (inOther : j < 4 * otherCall.messageNum)
    (same : 4 * (job.receivesBefore number).length + k =
      4 * (job.receivesBefore other).length + j) :
    number = other ∧ k = j := by
  have next := length_receivesBefore_succ current receives
  have otherNext := length_receivesBefore_succ otherCurrent otherReceives
  rcases Nat.lt_trichotomy number other with before | equal | behind
  · have le := job.receivesBefore_mono (Nat.succ_le_of_lt before)
    rw [Nat.succ_eq_add_one] at le
    omega
  · subst equal
    exact ⟨rfl, by omega⟩
  · have le := job.receivesBefore_mono (Nat.succ_le_of_lt behind)
    rw [Nat.succ_eq_add_one] at le
    omega

end Job

namespace Host

/-- What the calls of a rank have made of their answers. -/
structure Answering (cluster : Cluster) (rank : Nat) (host : Host) : Prop where
  running : ∀ stages call, host.stages = some stages →
    cluster.program[host.calls]? = some call →
      ∃ start : Host, start.calls = host.calls ∧
        start.qp.receivesDone =
          ((cluster.job rank).receivesBefore host.calls).length ∧
        host.Contents (cluster.job rank) call start
          (cluster.answer host.calls)
  returned : ∀ number call, host.stages = none → host.calls = number + 1 →
    cluster.program[number]? = some call →
    call.collective.receives rank = true → ∀ index < call.len.toNat,
      host.dstData index = ∑ sender ∈ call.collective.senders cluster.hosts,
        cluster.srcData sender number index

variable {cluster : Cluster} {rank : Nat} {host next : Host}

theorem Answering.congr (answering : host.Answering cluster rank)
    (calls : next.calls = host.calls) (stages : next.stages = host.stages)
    (dstData : next.dstData = host.dstData)
    (contents : ∀ (call : Call) (start : Host),
      start.qp.receivesDone =
          ((cluster.job rank).receivesBefore host.calls).length →
        host.Contents (cluster.job rank) call start
            (cluster.answer host.calls) →
          next.Contents (cluster.job rank) call start
            (cluster.answer host.calls)) :
    next.Answering cluster rank where
  running := by
    intro left call running current
    rw [stages] at running
    rw [calls] at current ⊢
    obtain ⟨start, same, before, held⟩ :=
      answering.running left call running current
    exact ⟨start, same, before, contents call start before held⟩
  returned := by
    intro number call idle ended
    rw [stages] at idle
    rw [calls] at ended
    rw [dstData]
    exact answering.returned number call idle ended

theorem init_answering (cluster : Cluster) (rank : Nat) :
    Host.init.Answering cluster rank where
  running := fun _ _ running => nomatch running
  returned := fun _ _ _ calls => nomatch calls

theorem Between.receivesDone_eq {job : Job} (between : host.Between job) :
    host.qp.receivesDone = (job.receivesBefore host.calls).length := by
  have least := between.delivered.receives.le
  have most := between.delivered.receivesDone_le
  rw [between.receives] at most
  exact Nat.le_antisymm most least

theorem Answering.enter
    (invariant : host.Invariant (cluster.job rank))
    (idle : host.stages = none) (stages : List Stage) :
    (host.enter stages).Answering cluster rank where
  running := fun _ _ _ _ =>
    ⟨host, rfl, (invariant.between idle).receivesDone_eq, .enter rfl rfl _⟩
  returned := fun _ _ more => nomatch more

theorem Answering.leave {call : Call}
    (answering : host.Answering cluster rank)
    (ended : host.stages = some [])
    (current : cluster.program[host.calls]? = some call)
    (inside : host.Inside (cluster.job rank) call []) :
    (host.leave true).Answering cluster rank where
  running := fun _ _ more => nomatch more
  returned := by
    intro number own _ same ownCurrent receives index within
    obtain rfl : host.calls = number := Nat.succ.inj same
    obtain rfl := Option.some.inj (current.symm.trans ownCurrent)
    obtain ⟨start, -, -, contents⟩ := answering.running [] call ended current
    have all := inside.counters.received receives (by decide)
    have messages := call.messageNum_spec
    have message : index / payloadCount < call.messageNum := by
      apply (Nat.div_lt_iff_lt_mul (by decide)).mpr
      omega
    have unpacked := contents.unpacked index
    rw [Int.toNat_natCast, if_pos ⟨by omega, by omega, by omega⟩,
      Cluster.ntohl_answer current within] at unpacked
    exact unpacked

theorem Answering.step
    (short : ∀ call ∈ cluster.program, call.len.toNat < 2 ^ 31)
    (invariant : host.Invariant (cluster.job rank))
    (answering : host.Answering cluster rank)
    (stepped : host.step (cluster.job rank) = some next) :
    next.Answering cluster rank := by
  cases invariant.moved_of_step stepped with
  | @enter _ idle _ => exact .enter invariant idle _
  | @leave _ ended current inside => exact answering.leave ended current inside
  | @round call _ _ running current inside =>
      obtain ⟨start, calls, before, contents⟩ :=
        answering.running _ call running current
      have continues := inside.round running
      obtain ⟨later, left, -⟩ := continues.inside
      refine ⟨fun stages own more ownCurrent => ?_, fun _ _ idle => ?_⟩
      · rw [continues.calls] at ownCurrent ⊢
        obtain rfl := Option.some.inj (current.symm.trans ownCurrent)
        exact ⟨start, calls, before, contents.round
          (short call (List.mem_of_getElem? current)) inside calls.symm before⟩
      · rw [left] at idle
        cases idle

end Host

end IncEmulation
