import IncEmulation.Exchange
import IncEmulation.Schedule
import IncEmulation.Wiring

/-!
# The schedule of a program of AllReduces

All ranks of such a program send the same requests, so a PSN means the same on
every connection: the control message of a call, or one packet of its data.  The
results a rank gets are those of the data packets, in the order of their PSNs.
-/

namespace IncEmulation

open Gather

namespace Cluster

/-- Every call of the program is an AllReduce. -/
def AllReduces (cluster : Cluster) : Prop :=
  ∀ call ∈ cluster.program, call.collective = .allreduce

/-- Word `position` of the messages of a call as a rank sends them. -/
def word (cluster : Cluster) (rank number position : Nat) : Word :=
  (cluster.program[number]?).elim 0 fun call =>
    (cluster.job rank).sentWord number call position

/-- The packets all ranks send, PSN by PSN. -/
def stream (cluster : Cluster) : List Segment := (cluster.job 0).stream

/-- The PSN of the control message of a call. -/
def start (cluster : Cluster) (number : Nat) : Nat :=
  (cluster.job 0).base number

/-- The messages of the calls before `number`. -/
def messagesBefore (cluster : Cluster) (number : Nat) : Nat :=
  ((cluster.job 0).receivesBefore number).length

def schedule (cluster : Cluster) : Schedule where
  aggregated psn :=
    (cluster.stream[psn]?).any fun segment => segment.request.immData = none
  operation _ := .allreduce
  length _ := mtuWords
  opcode psn := (cluster.stream[psn]?).elim 0 Segment.plainOpcode
  value conn psn index :=
    (cluster.stream[psn]?).elim 0 fun segment =>
      ntohl (cluster.word conn segment.request.call (segment.address + index))

/-- The data packets with a PSN below `psn`. -/
def dataBefore (cluster : Cluster) (psn : Nat) : Nat :=
  (List.range psn).countP fun earlier => cluster.schedule.aggregated earlier

/-- The result of a PSN as it goes to a rank. -/
def resultFrame (cluster : Cluster) (rank psn : Nat) : Frame where
  conn := rank
  type := .data
  data := cluster.schedule.sum cluster.hosts psn
  psn := cluster.dataBefore psn
  packetType := cluster.schedule.opcode psn

variable {cluster : Cluster} {rank number k : Nat} {call : Call}

theorem AllReduces.collective (allReduces : cluster.AllReduces)
    (current : cluster.program[number]? = some call) :
    call.collective = .allreduce :=
  allReduces call (List.mem_of_getElem? current)

theorem AllReduces.sends (allReduces : cluster.AllReduces)
    (current : cluster.program[number]? = some call) (rank : Nat) :
    call.collective.sends rank = true := by
  rw [allReduces.collective current]
  rfl

theorem AllReduces.receives (allReduces : cluster.AllReduces)
    (current : cluster.program[number]? = some call) (rank : Nat) :
    call.collective.receives rank = true := by
  rw [allReduces.collective current]
  rfl

theorem AllReduces.sendsBefore_eq (allReduces : cluster.AllReduces)
    (rank number : Nat) :
    (cluster.job rank).sendsBefore number =
      (cluster.job 0).sendsBefore number := by
  have same : (cluster.job rank).sendWrs = (cluster.job 0).sendWrs := by
    funext number
    unfold Job.sendWrs
    cases current : cluster.program[number]? with
    | none => simp only [job, current]
    | some call =>
        have left : (cluster.job rank).program[number]? = some call := current
        have right : (cluster.job 0).program[number]? = some call := current
        simp only [left, right]
        rw [Job.sendWrsOf, Job.sendWrsOf,
          if_pos (allReduces.sends current _), if_pos (allReduces.sends current _)]
        rfl
  rw [Job.sendsBefore, Job.sendsBefore, same]

theorem AllReduces.receivesBefore_eq (allReduces : cluster.AllReduces)
    (rank number : Nat) :
    (cluster.job rank).receivesBefore number =
      (cluster.job 0).receivesBefore number := by
  have same : (cluster.job rank).recvWrs = (cluster.job 0).recvWrs := by
    funext number
    unfold Job.recvWrs
    cases current : cluster.program[number]? with
    | none => simp only [job, current]
    | some call =>
        have left : (cluster.job rank).program[number]? = some call := current
        have right : (cluster.job 0).program[number]? = some call := current
        simp only [left, right]
        rw [Job.recvWrsOf, Job.recvWrsOf,
          if_pos (allReduces.receives current _),
          if_pos (allReduces.receives current _)]
  rw [Job.receivesBefore, Job.receivesBefore, same]

theorem AllReduces.base_eq (allReduces : cluster.AllReduces)
    (rank number : Nat) :
    (cluster.job rank).base number = cluster.start number := by
  rw [start, Job.base, Job.base, allReduces.sendsBefore_eq]

theorem AllReduces.stream_eq (allReduces : cluster.AllReduces) (rank : Nat) :
    (cluster.job rank).stream = cluster.stream := by
  rw [stream, Job.stream, Job.stream, allReduces.sendsBefore_eq]
  rfl

theorem start_zero : cluster.start 0 = 0 := rfl

theorem start_mono {later : Nat} (le : number ≤ later) :
    cluster.start number ≤ cluster.start later :=
  (cluster.job 0).base_mono le

theorem AllReduces.start_succ (allReduces : cluster.AllReduces)
    (current : cluster.program[number]? = some call) :
    cluster.start (number + 1) =
      cluster.start number + 1 + 4 * call.messageNum := by
  have next : (cluster.job 0).base (number + 1) = _ :=
    Job.base_succ (show (cluster.job 0).program[number]? = _ from current)
  rw [if_pos (allReduces.sends current _), ← Nat.add_assoc] at next
  exact next

theorem AllReduces.messagesBefore_succ (allReduces : cluster.AllReduces)
    (current : cluster.program[number]? = some call) :
    cluster.messagesBefore (number + 1) =
      cluster.messagesBefore number + call.messageNum := by
  have here : (cluster.job 0).program[number]? = some call := current
  rw [messagesBefore, Job.receivesBefore_succ, Job.recvWrs_of_call here,
    List.length_append, Job.length_recvWrsOf,
    if_pos (allReduces.receives current _), messagesBefore]

theorem messagesBefore_mono {later : Nat} (le : number ≤ later) :
    cluster.messagesBefore number ≤ cluster.messagesBefore later := by
  induction later, le using Nat.le_induction with
  | base => exact le_rfl
  | succ later _ induction =>
      rw [messagesBefore, messagesBefore, Job.receivesBefore_succ,
        List.length_append] at *
      exact induction.trans (Nat.le_add_right _ _)

theorem AllReduces.stream_data (allReduces : cluster.AllReduces)
    (current : cluster.program[number]? = some call)
    (inCall : k < 4 * call.messageNum) :
    cluster.stream[cluster.start number + 1 + k]? =
      some (Job.dataSegment number k) :=
  Job.stream_data (show (cluster.job 0).program[number]? = _ from current)
    (allReduces.sends current _) inCall

theorem AllReduces.aggregated_data (allReduces : cluster.AllReduces)
    (current : cluster.program[number]? = some call)
    (inCall : k < 4 * call.messageNum) :
    cluster.schedule.aggregated (cluster.start number + 1 + k) = true := by
  simp only [schedule, allReduces.stream_data current inCall]
  rfl

theorem AllReduces.not_aggregated_control (allReduces : cluster.AllReduces)
    (current : cluster.program[number]? = some call) :
    cluster.schedule.aggregated (cluster.start number) = false := by
  have control : cluster.stream[cluster.start number]? = some _ :=
    Job.stream_control (show (cluster.job 0).program[number]? = _ from current)
      (allReduces.sends current _)
  simp only [schedule, control]
  rfl

theorem AllReduces.opcode_data (allReduces : cluster.AllReduces)
    (current : cluster.program[number]? = some call)
    (inCall : k < 4 * call.messageNum) :
    cluster.schedule.opcode (cluster.start number + 1 + k) =
      Job.dataOpcode k := by
  simp only [schedule, allReduces.stream_data current inCall]
  rfl

theorem AllReduces.value_data (allReduces : cluster.AllReduces)
    (current : cluster.program[number]? = some call)
    (inCall : k < 4 * call.messageNum) (conn index : Nat) :
    cluster.schedule.value conn (cluster.start number + 1 + k) index =
      ntohl ((cluster.job conn).sentWord number call
        (k * mtuWords + index)) := by
  have address : (Job.dataSegment number k).address = k * mtuWords := by
    simp only [Segment.address, Job.dataSegment, Job.dataWr, payloadCount,
      mtuWords]
    omega
  have own : (Job.dataSegment number k).request.call = number := rfl
  simp only [schedule, allReduces.stream_data current inCall,
    Option.elim_some, own, address, word, current]

theorem exists_of_aggregated {psn : Nat}
    (aggregated : cluster.schedule.aggregated psn = true) :
    ∃ number call k, cluster.program[number]? = some call ∧
      k < 4 * call.messageNum ∧ psn = cluster.start number + 1 + k := by
  simp only [schedule, Option.any_eq_true, decide_eq_true_eq] at aggregated
  obtain ⟨segment, present, data⟩ := aggregated
  obtain ⟨number, call, current, -, found⟩ := Job.stream_cases present
  rcases found with ⟨-, rfl⟩ | ⟨k, inCall, place, -⟩
  · cases data
  · exact ⟨number, call, k, current, inCall, place⟩

theorem dataBefore_succ (psn : Nat) :
    cluster.dataBefore (psn + 1) = cluster.dataBefore psn +
      if cluster.schedule.aggregated psn then 1 else 0 := by
  rw [dataBefore, List.range_succ, List.countP_append, List.countP_singleton,
    dataBefore]

theorem dataBefore_mono {psn later : Nat} (le : psn ≤ later) :
    cluster.dataBefore psn ≤ cluster.dataBefore later := by
  induction later, le using Nat.le_induction with
  | base => exact le_rfl
  | succ later _ induction =>
      rw [dataBefore_succ]
      exact induction.trans (Nat.le_add_right _ _)

theorem AllReduces.dataBefore_inside (allReduces : cluster.AllReduces)
    (current : cluster.program[number]? = some call)
    (before : cluster.dataBefore (cluster.start number) =
      4 * cluster.messagesBefore number)
    (inCall : k ≤ 4 * call.messageNum) :
    cluster.dataBefore (cluster.start number + 1 + k) =
      4 * cluster.messagesBefore number + k := by
  induction k with
  | zero =>
      rw [Nat.add_zero, dataBefore_succ, before,
        allReduces.not_aggregated_control current]
      rfl
  | succ k induction =>
      rw [← Nat.add_assoc, dataBefore_succ, induction (by omega),
        allReduces.aggregated_data current inCall, if_pos rfl]
      rfl

theorem start_of_none (absent : cluster.program[number]? = none) :
    cluster.start (number + 1) = cluster.start number := by
  have nothing : (cluster.job 0).sendWrs number = [] :=
    Job.sendWrs_eq_nil (List.getElem?_eq_none_iff.mp absent)
  rw [start, Job.base, Job.sendsBefore_succ, nothing, List.append_nil, start,
    Job.base]

theorem messagesBefore_of_none (absent : cluster.program[number]? = none) :
    cluster.messagesBefore (number + 1) = cluster.messagesBefore number := by
  have here : (cluster.job 0).program[number]? = none := absent
  have nothing : (cluster.job 0).recvWrs number = [] := by
    simp only [Job.recvWrs, here]
  rw [messagesBefore, Job.receivesBefore_succ, nothing, List.append_nil,
    messagesBefore]

theorem AllReduces.dataBefore_start (allReduces : cluster.AllReduces)
    (number : Nat) :
    cluster.dataBefore (cluster.start number) =
      4 * cluster.messagesBefore number := by
  induction number with
  | zero => rfl
  | succ number induction =>
      cases current : cluster.program[number]? with
      | none =>
          rw [start_of_none current, messagesBefore_of_none current, induction]
      | some call =>
          rw [allReduces.start_succ current,
            allReduces.dataBefore_inside current induction le_rfl,
            allReduces.messagesBefore_succ current, Nat.mul_add]

theorem AllReduces.dataBefore_data (allReduces : cluster.AllReduces)
    (current : cluster.program[number]? = some call)
    (inCall : k ≤ 4 * call.messageNum) :
    cluster.dataBefore (cluster.start number + 1 + k) =
      4 * cluster.messagesBefore number + k :=
  allReduces.dataBefore_inside current (allReduces.dataBefore_start number)
    inCall

theorem AllReduces.lt_of_lt_dataBefore (allReduces : cluster.AllReduces)
    (current : cluster.program[number]? = some call)
    (inCall : k < 4 * call.messageNum) (frontier : Nat)
    (counted : 4 * cluster.messagesBefore number + k <
      cluster.dataBefore frontier) :
    cluster.start number + 1 + k < frontier := by
  by_contra behind
  have fewer := cluster.dataBefore_mono (Nat.le_of_not_lt behind)
  rw [allReduces.dataBefore_data current inCall.le] at fewer
  omega

theorem sendPsn_schedule {conn psn : Nat} (bound : conn < cluster.hosts) :
    cluster.schedule.sendPsn cluster.hosts (fun _ => 0) conn psn =
      cluster.dataBefore psn := by
  have member : conn ∈ (Collective.allreduce).targets cluster.hosts :=
    List.mem_range.mpr bound
  have operation (psn : Nat) :
      cluster.schedule.operation psn = .allreduce := rfl
  simp only [Schedule.sendPsn, dataBefore, operation, member, and_true,
    Nat.zero_add, Bool.decide_eq_true]

/-- What all connections together have made the switch send to a rank. -/
def resultsTo (cluster : Cluster) (rank frontier : Nat) : List Frame :=
  (cluster.schedule.results cluster.hosts (fun _ => 0) frontier).filter
    fun frame => frame.conn = rank

theorem resultsTo_succ {frontier : Nat} (bound : rank < cluster.hosts) :
    cluster.resultsTo rank (frontier + 1) =
      cluster.resultsTo rank frontier ++
        if cluster.schedule.aggregated frontier then
          [cluster.resultFrame rank frontier]
        else [] := by
  rw [resultsTo, Schedule.results_succ, List.filter_append, resultsTo]
  congr 1
  unfold Schedule.resultsAt
  split_ifs
  · have operation : cluster.schedule.operation frontier = .allreduce := rfl
    have only : (List.range cluster.hosts).filter (fun conn => conn = rank) =
        [rank] := by
      rw [List.filter_eq, List.count_eq_one_of_mem List.nodup_range
        (List.mem_range.mpr bound)]
      rfl
    rw [operation, Collective.targets, List.filter_map, Function.comp_def]
    simp only [only, List.map_singleton, sendPsn_schedule bound]
    rfl
  · rfl

theorem length_resultsTo (bound : rank < cluster.hosts) (frontier : Nat) :
    (cluster.resultsTo rank frontier).length =
      cluster.dataBefore frontier := by
  induction frontier with
  | zero => rfl
  | succ frontier induction =>
      rw [resultsTo_succ bound, List.length_append, induction, dataBefore_succ]
      split_ifs <;> rfl

/-- The next frame for a rank is that of the packet that is counted next. -/
theorem AllReduces.exists_of_resultsTo (allReduces : cluster.AllReduces)
    (bound : rank < cluster.hosts) {frontier position : Nat} {frame : Frame}
    (present : (cluster.resultsTo rank frontier)[position]? = some frame) :
    ∃ number call k, cluster.program[number]? = some call ∧
      k < 4 * call.messageNum ∧
      position = 4 * cluster.messagesBefore number + k ∧
      cluster.start number + 1 + k < frontier ∧
      frame = cluster.resultFrame rank (cluster.start number + 1 + k) := by
  induction frontier with
  | zero => cases present
  | succ frontier induction =>
      rw [resultsTo_succ bound] at present
      have length := length_resultsTo bound frontier
      rcases Nat.lt_or_ge position (cluster.resultsTo rank frontier).length
        with old | new
      · rw [List.getElem?_append_left old] at present
        obtain ⟨number, call, k, current, inCall, place, passed, same⟩ :=
          induction present
        exact ⟨number, call, k, current, inCall, place,
          Nat.lt_succ_of_lt passed, same⟩
      · rw [List.getElem?_append_right new] at present
        split_ifs at present with aggregated
        · rw [List.getElem?_singleton] at present
          split_ifs at present with here
          obtain rfl := Option.some.inj present
          obtain ⟨number, call, k, current, inCall, rfl⟩ :=
            exists_of_aggregated aggregated
          rw [allReduces.dataBefore_data current inCall.le] at length
          exact ⟨number, call, k, current, inCall, by omega,
            Nat.lt_succ_self _, rfl⟩
        · cases present

theorem AllReduces.endsMessage_iff (allReduces : cluster.AllReduces)
    (current : cluster.program[number]? = some call)
    (inCall : k < 4 * call.messageNum) (rank : Nat) :
    (cluster.resultFrame rank (cluster.start number + 1 + k)).endsMessage =
        true ↔ k % 4 = 3 :=
  Job.endsMessage_iff (allReduces.opcode_data current inCall)

section Posted

variable {host : Host} {stages : List Stage}

theorem AllReduces.length_receivesBefore (allReduces : cluster.AllReduces)
    (rank number : Nat) :
    ((cluster.job rank).receivesBefore number).length =
      cluster.messagesBefore number := by
  rw [messagesBefore, allReduces.receivesBefore_eq]

theorem AllReduces.received_of_invariant (allReduces : cluster.AllReduces)
    (invariant : host.Invariant (cluster.job rank)) :
    cluster.messagesBefore host.calls ≤ host.qp.receivesDone := by
  rw [← allReduces.length_receivesBefore rank]
  cases running : host.stages with
  | none => exact (invariant.between running).delivered.receives.le
  | some stages =>
      obtain ⟨call, -, inside⟩ := invariant.inside stages running
      exact (Nat.le_add_right _ _).trans inside.delivered.receives.le

theorem AllReduces.length_segments_between (allReduces : cluster.AllReduces)
    (between : host.Between (cluster.job rank)) :
    (segments host.qp.sends).length = cluster.start host.calls := by
  rw [between.sends, ← allReduces.base_eq rank]
  rfl

theorem AllReduces.sendNum_le (allReduces : cluster.AllReduces)
    (current : cluster.program[host.calls]? = some call)
    (inside : host.Inside (cluster.job rank) call stages) :
    host.locals.sendNum ≤ call.messageNum ∧
      host.locals.sendNum ≤ host.locals.prepared ∧
      host.locals.sendNum ≤ host.locals.receiveNum + windowMessages ∧
      (0 < host.locals.sendNum → host.locals.posted = call.messageNum) := by
  obtain ⟨bound, prepared, both⟩ :=
    inside.sendNum_le (allReduces.sends current _)
  exact ⟨bound, prepared, both (allReduces.receives current _)⟩

theorem AllReduces.length_segments_inside (allReduces : cluster.AllReduces)
    (current : cluster.program[host.calls]? = some call)
    (inside : host.Inside (cluster.job rank) call stages) :
    (segments host.qp.sends).length = cluster.start host.calls +
      if Stage.reached stages = 0 then 0
      else 1 + 4 * host.locals.sendNum := by
  rw [inside.length_segments (allReduces.sends current _), allReduces.base_eq]

/-- A data packet that is posted and whose result is still to come belongs to
the running call. -/
theorem AllReduces.running_of_unreceived (allReduces : cluster.AllReduces)
    (invariant : host.Invariant (cluster.job rank))
    (current : cluster.program[number]? = some call)
    (inCall : k < 4 * call.messageNum)
    (posted : cluster.start number + 1 + k < (segments host.qp.sends).length)
    (unreceived : 4 * host.qp.receivesDone ≤
      4 * cluster.messagesBefore number + k) :
    number = host.calls ∧ ∃ stages, host.stages = some stages ∧
      host.Inside (cluster.job rank) call stages ∧
      k < 4 * host.locals.sendNum := by
  have passed := allReduces.received_of_invariant invariant
  rw [← allReduces.base_eq rank] at posted
  rcases invariant.call_of_posted current (allReduces.sends current _) posted
    with before | running
  · have later := cluster.messagesBefore_mono (Nat.succ_le_of_lt before)
    rw [Nat.succ_eq_add_one, allReduces.messagesBefore_succ current] at later
    omega
  · exact running

end Posted

end Cluster

end IncEmulation
