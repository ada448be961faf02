import IncEmulation.Progress

/-!
# The packets of a program

The packets a rank sends over a whole program, in order: call `number` starts at
position `base number` with its control message, and packet `k` of its data
follows at position `base number + 1 + k`.  Whatever a rank has posted so far is
a prefix of this stream.
-/

namespace IncEmulation

theorem getElem?_of_prefix {Item : Type} {short long : List Item} {k : Nat}
    {item : Item} (leading : short <+: long) (present : short[k]? = some item) :
    long[k]? = some item := by
  obtain ⟨rest, rfl⟩ := leading
  have bound := (List.getElem?_eq_some_iff.mp present).1
  rw [List.getElem?_append_left bound, present]

/-- What a list holds of elements that stand next to each other. -/
theorem filter_eq_drop_take {Item : Type} {chosen : Item → Bool}
    {items : List Item} {start stop : Nat}
    (inside : ∀ k item, items[k]? = some item →
      (chosen item = true ↔ start ≤ k ∧ k < stop)) :
    items.filter chosen = (items.take stop).drop start := by
  have parts : items = (items.take stop).take start ++
      ((items.take stop).drop start ++ items.drop stop) := by
    rw [← List.append_assoc, List.take_append_drop, List.take_append_drop]
  have early : ((items.take stop).take start).filter chosen = [] := by
    apply List.filter_eq_nil_iff.mpr
    intro item member
    obtain ⟨k, present⟩ := List.getElem?_of_mem member
    rw [List.getElem?_take, List.getElem?_take] at present
    split_ifs at present with before within
    rw [inside k item present]
    omega
  have own : ((items.take stop).drop start).filter chosen =
      (items.take stop).drop start := by
    apply List.filter_eq_self.mpr
    intro item member
    obtain ⟨k, present⟩ := List.getElem?_of_mem member
    rw [List.getElem?_drop, List.getElem?_take] at present
    split_ifs at present with within
    rw [inside _ item present]
    omega
  have late : (items.drop stop).filter chosen = [] := by
    apply List.filter_eq_nil_iff.mpr
    intro item member
    obtain ⟨k, present⟩ := List.getElem?_of_mem member
    rw [List.getElem?_drop] at present
    rw [inside _ item present]
    omega
  calc items.filter chosen
      = ((items.take stop).take start ++
          ((items.take stop).drop start ++ items.drop stop)).filter chosen :=
        congrArg _ parts
    _ = (items.take stop).drop start := by
        rw [List.filter_append, List.filter_append, early, own, late,
          List.nil_append, List.append_nil]

theorem segments_append (first second : List SendWr) :
    segments (first ++ second) = segments first ++ segments second := by
  simp [segments]

theorem segments_mono {first second : List SendWr}
    (leading : first <+: second) : segments first <+: segments second := by
  obtain ⟨rest, rfl⟩ := leading
  exact ⟨segments rest, (segments_append first rest).symm⟩

namespace Job

/-- The request for message `i` of call `number`. -/
def dataWr (number i : Nat) : SendWr where
  wrId := i
  immData := none
  address := i * payloadCount
  length := payloadCount
  call := number

/-- Packet `k` of the data of call `number`. -/
def dataSegment (number k : Nat) : Segment := ⟨dataWr number (k / 4), k % 4⟩

variable (job : Job)

def controlSegment (number : Nat) (call : Call) : Segment :=
  ⟨job.controlWr number call, 0⟩

def stream : List Segment := segments (job.sendsBefore job.program.length)

/-- The position of the first packet of a call. -/
def base (number : Nat) : Nat := (segments (job.sendsBefore number)).length

variable {job} {number k : Nat} {call : Call}

theorem parts_dataWr (number i : Nat) : (dataWr number i).parts = 4 := by
  simp [SendWr.parts, dataWr, payloadCount, mtuWords]

theorem segments_controlWr (number : Nat) (call : Call) :
    (job.controlWr number call).segments =
      [job.controlSegment number call] := by
  simp [SendWr.segments, SendWr.parts, controlWr, controlSegment, mtuWords]

theorem segments_dataWrs (number count : Nat) :
    segments ((List.range count).map (dataWr number)) =
      (List.range (4 * count)).map (dataSegment number) := by
  induction count with
  | zero => rfl
  | succ count induction =>
      rw [List.range_succ, List.map_append, segments_append, induction,
        Nat.mul_succ, List.range_add, List.map_append]
      congr 1
      simp only [segments, List.map_cons, List.map_nil, List.flatMap_cons,
        List.flatMap_nil, List.append_nil, SendWr.segments, parts_dataWr,
        List.map_map]
      apply List.map_congr_left
      intro part member
      have bound : part < 4 := List.mem_range.mp member
      simp only [Function.comp_apply, dataSegment]
      congr 2 <;> omega

theorem sendWrsOf_eq (sends : call.collective.sends job.rank = true) :
    job.sendWrsOf number call =
      job.controlWr number call ::
        (List.range call.messageNum).map (dataWr number) := by
  rw [sendWrsOf, if_pos sends]
  rfl

theorem segments_take (sends : call.collective.sends job.rank = true)
    {count : Nat} (bound : count ≤ call.messageNum) :
    segments ((job.sendWrsOf number call).take (count + 1)) =
      job.controlSegment number call ::
        (List.range (4 * count)).map (dataSegment number) := by
  rw [sendWrsOf_eq sends, List.take_succ_cons, ← List.map_take,
    List.take_range, Nat.min_eq_left bound, ← segments_dataWrs, segments,
    List.flatMap_cons, segments_controlWr]
  rfl

theorem segments_sendWrsOf (sends : call.collective.sends job.rank = true) :
    segments (job.sendWrsOf number call) =
      job.controlSegment number call ::
        (List.range (4 * call.messageNum)).map (dataSegment number) := by
  rw [← segments_take sends le_rfl, List.take_of_length_le]
  rw [length_sendWrsOf, if_pos sends]

theorem sendWrs_eq_nil (finished : job.program.length ≤ number) :
    job.sendWrs number = [] := by
  simp [sendWrs, List.getElem?_eq_none finished]

theorem sendsBefore_mono {later : Nat} (le : number ≤ later) :
    job.sendsBefore number <+: job.sendsBefore later := by
  induction later, le using Nat.le_induction with
  | base => exact List.prefix_rfl
  | succ later _ induction =>
      rw [sendsBefore_succ]
      exact induction.trans (List.prefix_append _ _)

theorem sendsBefore_of_le (finished : job.program.length ≤ number) :
    job.sendsBefore number = job.sendsBefore job.program.length := by
  induction number, finished using Nat.le_induction with
  | base => rfl
  | succ later finished induction =>
      rw [sendsBefore_succ, sendWrs_eq_nil finished, List.append_nil, induction]

theorem sendsBefore_le (job : Job) (number : Nat) :
    job.sendsBefore number <+: job.sendsBefore job.program.length := by
  rcases Nat.le_total number job.program.length with le | finished
  · exact sendsBefore_mono le
  · rw [sendsBefore_of_le finished]

theorem base_zero : job.base 0 = 0 := rfl

theorem base_mono (job : Job) {number later : Nat} (le : number ≤ later) :
    job.base number ≤ job.base later :=
  (segments_mono (sendsBefore_mono le)).length_le

theorem base_succ (current : job.program[number]? = some call) :
    job.base (number + 1) = job.base number +
      if call.collective.sends job.rank then 1 + 4 * call.messageNum
      else 0 := by
  rw [base, sendsBefore_succ, segments_append, List.length_append,
    sendWrs_of_call current, base]
  congr 1
  split_ifs with sends
  · rw [segments_sendWrsOf sends, List.length_cons, List.length_map,
      List.length_range, Nat.add_comm]
  · simp [sendWrsOf, sends, segments]

theorem stream_split (current : job.program[number]? = some call) :
    ∃ rest, job.stream = segments (job.sendsBefore number) ++
      (segments (job.sendWrsOf number call) ++ rest) := by
  have bound := (List.getElem?_eq_some_iff.mp current).1
  obtain ⟨rest, whole⟩ :=
    sendsBefore_mono (Nat.succ_le_of_lt bound)
  refine ⟨segments rest, ?_⟩
  rw [stream, ← whole, segments_append, Nat.succ_eq_add_one,
    sendsBefore_succ, segments_append, sendWrs_of_call current,
    List.append_assoc]

theorem stream_control (current : job.program[number]? = some call)
    (sends : call.collective.sends job.rank = true) :
    job.stream[job.base number]? = some (job.controlSegment number call) := by
  obtain ⟨rest, split⟩ := stream_split current
  rw [split, base, List.getElem?_append_right le_rfl, Nat.sub_self,
    segments_sendWrsOf sends]
  rfl

theorem stream_data (current : job.program[number]? = some call)
    (sends : call.collective.sends job.rank = true)
    (bound : k < 4 * call.messageNum) :
    job.stream[job.base number + 1 + k]? = some (dataSegment number k) := by
  obtain ⟨rest, split⟩ := stream_split current
  have offset : job.base number + 1 + k - job.base number = k + 1 := by omega
  have inside : k < ((List.range (4 * call.messageNum)).map
      (dataSegment number)).length := by
    simpa using bound
  rw [split, List.getElem?_append_right (by rw [← base]; omega), ← base,
    offset, segments_sendWrsOf sends, List.cons_append,
    List.getElem?_cons_succ, List.getElem?_append_left inside]
  simp [bound]

/-- Every packet of the stream is the control message or a data packet of one
call. -/
theorem stream_cases {position : Nat} {segment : Segment}
    (present : job.stream[position]? = some segment) :
    ∃ number call, job.program[number]? = some call ∧
      call.collective.sends job.rank = true ∧
      ((position = job.base number ∧
          segment = job.controlSegment number call) ∨
        ∃ k < 4 * call.messageNum, position = job.base number + 1 + k ∧
          segment = dataSegment number k) := by
  have bound : position < job.base job.program.length :=
    (List.getElem?_eq_some_iff.mp present).1
  have located : ∀ calls ≤ job.program.length, position < job.base calls →
      ∃ number call, job.program[number]? = some call ∧
        job.base number ≤ position ∧ position < job.base (number + 1) := by
    intro calls
    induction calls with
    | zero =>
        intro _ before
        rw [base_zero] at before
        cases before
    | succ calls induction =>
        intro le before
        by_cases earlier : position < job.base calls
        · exact induction (by omega) earlier
        · have inRange : calls < job.program.length := by omega
          exact ⟨calls, _, List.getElem?_eq_getElem inRange, by omega, before⟩
  obtain ⟨number, call, current, lower, upper⟩ :=
    located job.program.length le_rfl bound
  rw [base_succ current] at upper
  have sends : call.collective.sends job.rank = true := by
    by_contra absent
    rw [if_neg absent] at upper
    omega
  rw [if_pos sends] at upper
  refine ⟨number, call, current, sends, ?_⟩
  rcases Nat.eq_or_lt_of_le lower with first | later
  · left
    refine ⟨first.symm, ?_⟩
    rw [← first, stream_control current sends] at present
    exact (Option.some.inj present).symm
  · right
    have within : position - (job.base number + 1) <
        4 * call.messageNum := by omega
    have place : position =
        job.base number + 1 + (position - (job.base number + 1)) := by omega
    refine ⟨_, within, place, ?_⟩
    rw [place, stream_data current sends within] at present
    exact (Option.some.inj present).symm

/-- A packet of the stream is a data packet of a call exactly when it stands
behind the control message of the call and before the next call. -/
theorem data_of_call_iff {position : Nat} {segment : Segment}
    (current : job.program[number]? = some call)
    (sends : call.collective.sends job.rank = true)
    (present : job.stream[position]? = some segment) :
    (segment.request.call = number ∧ segment.request.immData = none) ↔
      job.base number + 1 ≤ position ∧
        position < job.base number + 1 + 4 * call.messageNum := by
  obtain ⟨own, ownCall, ownCurrent, ownSends, found⟩ := stream_cases present
  have next := base_succ current
  have ownNext := base_succ ownCurrent
  rw [if_pos sends] at next
  rw [if_pos ownSends] at ownNext
  have apart : own ≠ number → ¬(job.base number + 1 ≤ position ∧
      position < job.base number + 1 + 4 * call.messageNum) := by
    intro different
    rcases Nat.lt_or_gt_of_ne different with before | behind
    · have le := job.base_mono (Nat.succ_le_of_lt before)
      rw [Nat.succ_eq_add_one] at le
      rcases found with ⟨place, -⟩ | ⟨k, inCall, place, -⟩ <;> omega
    · have le := job.base_mono (Nat.succ_le_of_lt behind)
      rw [Nat.succ_eq_add_one] at le
      rcases found with ⟨place, -⟩ | ⟨k, inCall, place, -⟩ <;> omega
  rcases found with ⟨place, rfl⟩ | ⟨k, inCall, place, rfl⟩
  · refine iff_of_false (fun data => nomatch data.2) ?_
    by_cases same : own = number
    · subst same
      omega
    · exact apart same
  · by_cases same : own = number
    · subst same
      obtain rfl := Option.some.inj (current.symm.trans ownCurrent)
      exact iff_of_true ⟨rfl, rfl⟩ ⟨by omega, by omega⟩
    · exact iff_of_false (fun data => same data.1) (apart same)

end Job

namespace Host

variable {job : Job} {host : Host} {call : Call} {stages : List Stage}
  {number k : Nat}

theorem Inside.length_segments (inside : host.Inside job call stages)
    (sends : call.collective.sends job.rank = true) :
    (segments host.qp.sends).length = job.base host.calls +
      if Stage.reached stages = 0 then 0
      else 1 + 4 * host.locals.sendNum := by
  obtain ⟨bound, -⟩ := inside.sendNum_le sends
  rw [inside.sends, segments_append, List.length_append]
  congr 1
  split_ifs
  · rfl
  · rw [Job.segments_take sends bound, List.length_cons, List.length_map,
      List.length_range, Nat.add_comm]

theorem Inside.length_segments_le (inside : host.Inside job call stages)
    (current : job.program[host.calls]? = some call) :
    (segments host.qp.sends).length ≤ job.base (host.calls + 1) := by
  apply List.IsPrefix.length_le
  apply segments_mono
  rw [inside.sends, Job.sendsBefore_succ, Job.sendWrs_of_call current]
  exact (List.prefix_append_right_inj _).mpr (List.take_prefix _ _)

/-- A data packet that is posted belongs to a call that has returned, or to the
running one. -/
theorem Invariant.call_of_posted (invariant : host.Invariant job)
    (current : job.program[number]? = some call)
    (sends : call.collective.sends job.rank = true)
    (posted : job.base number + 1 + k < (segments host.qp.sends).length) :
    number < host.calls ∨ number = host.calls ∧
      ∃ stages, host.stages = some stages ∧ host.Inside job call stages ∧
        k < 4 * host.locals.sendNum := by
  rcases Nat.lt_or_ge number host.calls with before | recent
  · exact .inl before
  right
  have ahead := job.base_mono recent
  cases running : host.stages with
  | none =>
      rw [(invariant.between running).sends] at posted
      rw [Job.base] at posted ahead
      rw [Job.base] at ahead
      omega
  | some stages =>
      obtain ⟨own, ownCurrent, inside⟩ := invariant.inside stages running
      rcases Nat.eq_or_lt_of_le recent with same | later
      · subst same
        obtain rfl := Option.some.inj (current.symm.trans ownCurrent)
        have length := inside.length_segments sends
        refine ⟨rfl, stages, rfl, inside, ?_⟩
        split_ifs at length <;> omega
      · have behind := job.base_mono (Nat.succ_le_of_lt later)
        have within := inside.length_segments_le ownCurrent
        rw [Nat.succ_eq_add_one] at behind
        omega

end Host

theorem Host.Invariant.segments_le_stream {job : Job} {host : Host}
    (invariant : host.Invariant job) :
    segments host.qp.sends <+: job.stream := by
  apply IncEmulation.segments_mono
  cases stages : host.stages with
  | none =>
      rw [(invariant.between stages).sends]
      exact job.sendsBefore_le _
  | some left =>
      obtain ⟨call, current, inside⟩ := invariant.inside left stages
      have succ := job.sendsBefore_le (host.calls + 1)
      rw [Job.sendsBefore_succ, Job.sendWrs_of_call current] at succ
      rw [inside.sends]
      exact ((List.prefix_append_right_inj _).mpr
        (List.take_prefix _ _)).trans succ

end IncEmulation
