import IncEmulation.Switch.Origins

/-!
# Retransmissions

`re_thread` and the forward walk for a NAK of the parent send what the broadcast
slot of a PSN holds, whatever PSN is stored there and whoever asked.
-/

namespace IncEmulation.Switch

open Loop Tally

/-- The switch runs AllReduce: where PSN 0 carries an operation, it is this. -/
def CarriesAllReduce (config : Config) : Event → Prop
  | .packet conn packet =>
      conn < fanIn → packet.opcode ∈ sendOpcodes → packet.psn = 0 →
        2 ≤ packet.dataLen → packet.data 0 = config.operationTypeAllreduce
  | _ => True

/-- AllReduce with children that acknowledge what they were sent. -/
def InDomain (config : Config) (world : World) (event : Event) : Prop :=
  AcksBroadcast world event ∧ CarriesAllReduce config event

/-- What is retransmitted in the step stands in the slot of its PSN: a job
passes PSNs that the broadcast slots hold, a NAK of the parent sums that the
broadcast slots hold as well. -/
def RetransmitsHeld (world : World) : Event → Prop
  | .packet conn packet =>
      conn = fanIn → IsAckPacket packet false →
        NakRepeats world.globals packet
  | .start => True
  | .round index => ∀ job ∈ world.globals.jobs[index]?,
      reSends world.globals job.id (idx job.psn) = true →
        (world.globals.bcastBuffer (idx job.psn)).psn = job.psn

instance (packet : Packet) (positive : Bool) :
    Decidable (IsAckPacket packet positive) :=
  decidable_of_iff
    (packet.opcode = 0x11 ∧ isAck packet.synMsn = positive)
    ⟨fun both => ⟨both.1, both.2⟩,
      fun isAckPacket => ⟨isAckPacket.opcode, isAckPacket.syndrome⟩⟩

instance (config : Config) : DecidablePred (CarriesAllReduce config)
  | .packet _ _ => inferInstanceAs (Decidable (_ → _ → _ → _ → _))
  | .start => .isTrue trivial
  | .round _ => .isTrue trivial

instance (config : Config) (world : World) (event : Event) :
    Decidable (InDomain config world event) :=
  inferInstanceAs (Decidable (_ ∧ _))

instance (world : World) : DecidablePred (RetransmitsHeld world)
  | .packet _ _ => inferInstanceAs (Decidable (_ → _ → _))
  | .start => .isTrue trivial
  | .round _ => inferInstanceAs (Decidable (∀ _ ∈ _, _ → _))

/-- The jobs retransmit to the children that asked for it, and the operation
is AllReduce. -/
structure Standby (config : Config) (globals : Globals) : Prop where
  queued : ∀ id ∈ globals.queue, id < fanIn ∧
    (globals.reRule id).ackConn = id
  active : ∀ job ∈ globals.jobs, job.id < fanIn ∧ job.rule.ackConn = job.id
  operation : globals.currentOperationType = config.operationTypeAllreduce

section Standby

variable {config : Config} {globals next : Globals} {conn fuel : Nat}
  {packet : Packet} {rule : Rule} {frames : List Frame}

theorem Standby.allreduce (standby : Standby config globals)
    (carries : CarriesAllReduce config (.packet conn packet))
    (fresh : Fresh globals conn packet) :
    (operationOf config globals packet).1 =
      config.operationTypeAllreduce := by
  unfold operationOf
  split
  · rename_i first
    exact carries fresh.isChild fresh.send first.1 first.2
  · split
    · exact standby.operation
    · rfl

/-- The part of a state that the thread pool works with. -/
structure SameStandby (globals next : Globals) : Prop where
  queue : next.queue = globals.queue
  reRule : next.reRule = globals.reRule
  jobs : next.jobs = globals.jobs
  operation : next.currentOperationType = globals.currentOperationType

theorem Standby.congr (standby : Standby config globals)
    (same : SameStandby globals next) : Standby config next := by
  refine ⟨?_, ?_, ?_⟩
  · rw [same.queue, same.reRule]
    exact standby.queued
  · rw [same.jobs]
    exact standby.active
  · rw [same.operation]
    exact standby.operation

theorem sameStandby_of_downAckCovers {high : Int}
    (covered : downAckCovers fuel globals high = some next) :
    SameStandby globals next := by
  obtain ⟨cleared, change, rfl⟩ := downAckCovers_spec covered
  rw [change.frame]
  exact ⟨rfl, rfl, rfl, rfl⟩

theorem sameStandby_of_cache {psn : Int} {data : Nat → UInt32} {len : Nat}
    {packetType : UInt8}
    (cached : cache globals rule psn data len packetType =
      some (next, frames)) : SameStandby globals next := by
  obtain ⟨-, rfl, -⟩ := cache_eq_some cached
  exact ⟨rfl, rfl, rfl, rfl⟩

theorem Standby.gathered (standby : Standby config globals)
    (carries : CarriesAllReduce config (.packet conn packet))
    (fresh : Fresh globals conn packet) :
    Standby config (Switch.gathered config globals conn packet) := by
  refine ⟨standby.queued, standby.active, ?_⟩
  simp only [Switch.gathered, gather, accept]
  split
  · rename_i first
    exact carries fresh.isChild fresh.send first.1 first.2
  · exact standby.operation

theorem Standby.nak (standby : Standby config globals)
    (isChild : conn < fanIn) (ackConn : rule.ackConn = conn) {psn : Int}
    (taken : upstreamNak fuel globals conn rule psn = some next) :
    Standby config next := by
  obtain ⟨counted, latest, change, rfl⟩ := upstreamNak_frame taken
  have jobs : counted.jobs = globals.jobs := by rw [change.frame]
  have operation : counted.currentOperationType =
      globals.currentOperationType := by rw [change.frame]
  refine ⟨?_, ?_, ?_⟩
  · intro id member
    by_cases same : id = conn
    · subst same
      simp only [Function.update_self]
      exact ⟨isChild, ackConn⟩
    · simp only [Function.update_of_ne same]
      rcases List.mem_append.mp member with old | new
      · exact standby.queued id old
      · exact absurd (List.mem_singleton.mp new) same
  · simp only [jobs]
    exact standby.active
  · simp only [operation]
    exact standby.operation

theorem Standby.handled (standby : Standby config globals)
    (carries : CarriesAllReduce config (.packet conn packet))
    (found : config.lookupRule conn = some rule)
    (handled : Handled config fuel globals conn rule packet next frames) :
    Standby config next := by
  cases handled with
  | replied => exact standby
  | broadcast _ _ _ cached => exact standby.congr (sameStandby_of_cache cached)
  | waiting fresh => exact standby.gathered carries fresh
  | uploaded fresh => exact standby.gathered carries fresh
  | finished fresh _ _ finished =>
      rcases finish_cases finished with ⟨cached, -, took, covered⟩ |
        ⟨notAllreduce, -⟩
      · exact ((standby.gathered carries fresh).congr
          (sameStandby_of_cache took)).congr
            (sameStandby_of_downAckCovers covered)
      · exact absurd (standby.allreduce carries fresh) notAllreduce
  | parentAck _ _ _ covered =>
      exact standby.congr (sameStandby_of_downAckCovers covered)
  | parentNak _ _ _ covered =>
      exact standby.congr (sameStandby_of_downAckCovers covered)
  | childAck _ _ taken =>
      obtain ⟨counted, latest, change, rfl⟩ := upstreamAck_frame taken
      refine standby.congr ?_
      rw [change.frame]
      exact ⟨rfl, rfl, rfl, rfl⟩
  | childNak isChild _ taken =>
      exact standby.nak isChild (ackConn_of_lookupRule found) taken

end Standby

/-- The slots, the cursors and the jobs agree with the record, and the record
is faithful. -/
structure Recorded (config : Config) (world : World) : Prop where
  settled : world.globals.Settled
  ranged : world.globals.Ranged
  arrived : Arrived world.globals
  acks : Acks config world.globals world.log
  down : Down world.globals world.log
  up : config.root = false → Up world.globals world.log
  standby : Standby config world.globals
  faithful : Faithful world.log

section Steps

variable {config : Config} {world next : World} {conn fuel index : Nat}
  {packet : Packet} {rule : Rule} {frames : List Frame} {event : Event}
  {globals : Globals} {job : Job}

theorem not_single_of_forwarding {type : PacketType} {psn : Int}
    {data : List UInt32} {packetType : UInt8} {frame : Frame}
    (other : type ≠ .dataSingle)
    (member : frame ∈ forwarding rule psn type data packetType) :
    frame.type ≠ .dataSingle := by
  cases type with
  | data =>
      obtain ⟨conn, -, rfl⟩ := List.mem_map.mp member
      exact other
  | ack =>
      rw [List.mem_singleton.mp member]
      exact other
  | nak =>
      rw [List.mem_singleton.mp member]
      exact other
  | dataSingle => exact absurd rfl other

theorem resent_of_downAckCovers {high : Int} {cleared : Globals}
    (covered : downAckCovers fuel globals high = some cleared) (psn : Int) :
    resent cleared rule psn = resent globals rule psn := by
  unfold resent
  rw [(sameBroadcast_of_downAckCovers covered).bcastBuffer]

/-- The retransmitted frames of a packet are those of a NAK of the parent. -/
theorem Handled.retransmitted {next : Globals}
    (allreduce : Fresh globals conn packet →
      (operationOf config globals packet).1 =
        config.operationTypeAllreduce)
    (handled : Handled config fuel globals conn rule packet next frames)
    {frame : Frame} (member : frame ∈ frames)
    (single : frame.type = .dataSingle) :
    conn = fanIn ∧ config.root = false ∧ IsAckPacket packet false ∧
      ∃ psn, (packet.psn : Int) ≤ psn ∧ psn < packet.psn + N ∧
        PassesThrough (fullAbove globals packet.acknowledges)
          packet.psn psn ∧
        frame = resent globals rule psn := by
  have notReply : ∀ {psn : Int},
      frame ∉ forwarding rule psn .ack [] 0x11 := fun member =>
    not_single_of_forwarding (by decide) member single
  have notData : ∀ {psn : Int} {data packetType},
      frame ∉ forwarding rule psn .data data packetType := fun member =>
    not_single_of_forwarding (by decide) member single
  cases handled with
  | replied _ replies =>
      rcases replies frame member with ack | nak
      · exact absurd (single.symm.trans ack) (by decide)
      · exact absurd (single.symm.trans nak) (by decide)
  | broadcast _ _ _ cached =>
      obtain ⟨-, -, rfl⟩ := cache_eq_some cached
      rcases List.mem_append.mp member with ack | sent
      · exact absurd ack notReply
      · exact absurd sent notData
  | waiting => exact absurd member notReply
  | uploaded =>
      rcases List.mem_append.mp member with ack | sent
      · exact absurd ack notReply
      · exact absurd sent notData
  | finished fresh _ _ finished =>
      rcases finish_cases finished with ⟨cached, -, took, -⟩ |
        ⟨notAllreduce, -⟩
      · obtain ⟨-, -, rfl⟩ := cache_eq_some took
        rcases List.mem_append.mp member with ack | sent
        · exact absurd ack notReply
        · exact absurd sent notData
      · exact absurd (allreduce fresh) notAllreduce
  | parentAck => exact absurd member List.not_mem_nil
  | parentNak isParent notRoot isAckPacket covered returned =>
      obtain ⟨psn, above, passes, rfl⟩ :=
        (mem_resent_iff returned frame).mp member
      have turn := lt_of_passesThrough returned (Int.natCast_nonneg _) passes
      rw [passes_iff covered, ← isAckPacket.acknowledges_nak] at passes
      exact ⟨isParent, notRoot, isAckPacket, psn, above, turn, passes,
        resent_of_downAckCovers covered psn⟩
  | childAck => exact absurd member List.not_mem_nil
  | childNak => exact absurd member List.not_mem_nil

/-- The sums that a NAK asks for are retransmitted, and nothing else is sent. -/
theorem Handled.retransmits {next : Globals}
    (handled : Handled config fuel globals conn rule packet next frames)
    (isParent : conn = fanIn) (isAckPacket : IsAckPacket packet false)
    {psn : Int} (above : (packet.psn : Int) ≤ psn)
    (passes : PassesThrough (fullAbove globals packet.acknowledges)
      packet.psn psn) :
    config.root = false ∧ resent globals rule psn ∈ frames ∧
      ∀ frame ∈ frames, ∃ other, frame = resent globals rule other := by
  have notChild : ¬conn < fanIn := by omega
  cases handled with
  | replied other => exact absurd isAckPacket.opcode other
  | broadcast _ other => exact absurd isAckPacket.opcode other
  | waiting fresh => exact absurd fresh.isChild notChild
  | uploaded fresh => exact absurd fresh.isChild notChild
  | finished fresh => exact absurd fresh.isChild notChild
  | parentAck _ _ positive =>
      exact Bool.noConfusion
        (positive.syndrome.symm.trans isAckPacket.syndrome)
  | parentNak _ notRoot _ covered returned =>
      refine ⟨notRoot, (mem_resent_iff returned _).mpr ⟨psn, above, ?_,
        (resent_of_downAckCovers covered psn).symm⟩, ?_⟩
      · rw [passes_iff covered, ← isAckPacket.acknowledges_nak]
        exact passes
      · intro frame member
        obtain ⟨other, -, -, rfl⟩ := (mem_resent_iff returned frame).mp member
        exact ⟨other, resent_of_downAckCovers covered other⟩
  | childAck isChild => exact absurd isChild notChild
  | childNak isChild => exact absurd isChild notChild

/-- A frame that the parent's NAK asks for, against the record. -/
theorem Recorded.nak_repeats (recorded : Recorded config world)
    (notRoot : config.root = false) (isAckPacket : IsAckPacket packet false)
    (repeats : NakRepeats world.globals packet) (ackConn : rule.ackConn = fanIn)
    {psn : Int} (above : (packet.psn : Int) ≤ psn)
    (turn : psn < packet.psn + N)
    (passes : PassesThrough (fullAbove world.globals packet.acknowledges)
      packet.psn psn) :
    RepeatsOriginal (world.log ++ [.received fanIn packet])
      (resent world.globals rule psn) := by
  obtain ⟨stored, packetType, words⟩ := repeats psn above turn passes
  have nonneg : 0 ≤ (packet.psn : Int) := Int.natCast_nonneg _
  refine ⟨?_, ?_⟩
  · have sent := (recorded.up notRoot).sent_of_passes nonneg above stored
      passes
    rw [← packetType, ← words] at sent
    simp only [resent, ackConn]
    exact sent.append _
  · simp only [resent, ackConn]
    intro acknowledged
    have last := of_decide_eq_true (passes psn above (le_refl psn))
    rw [stored] at last
    have own := isAckPacket.acknowledges_nak
    rcases acknowledgedBy_received.mp acknowledged with
      before | ⟨-, -, below⟩
    · have covered := ((recorded.acks.parent notRoot) psn (by omega)).mp before
      omega
    · omega

theorem Recorded.job_repeats (recorded : Recorded config world)
    (active : job ∈ world.globals.jobs)
    (sends : reSends world.globals job.id (idx job.psn) = true)
    (stored : (world.globals.bcastBuffer (idx job.psn)).psn = job.psn) :
    RepeatsOriginal world.log (resent world.globals job.rule job.psn) := by
  obtain ⟨isChild, ackConn⟩ := recorded.standby.active job active
  have nonneg := recorded.ranged.active job active
  have test := of_decide_eq_true sends
  rw [stored] at test
  refine ⟨?_, ?_⟩
  · simp only [resent, ackConn]
    exact recorded.down.sent job.id isChild job.psn nonneg ⟨test.1, stored⟩
  · simp only [resent, ackConn]
    rw [recorded.acks.child job.id isChild job.psn nonneg]
    omega

theorem Recorded.handled (recorded : Recorded config world)
    (domain : InDomain config world (.packet conn packet))
    (held : RetransmitsHeld world (.packet conn packet))
    (found : config.lookupRule conn = some rule)
    (handled : Handled config fuel world.globals conn rule packet globals
      frames) :
    Recorded config
      ⟨globals, world.log ++ .received conn packet ::
        frames.map Entry.sent⟩ := by
  obtain ⟨sent, carries⟩ := domain
  have allreduce := recorded.standby.allreduce carries
  refine ⟨handled.settled recorded.settled sent,
    handled.ranged recorded.ranged,
    recorded.arrived.handled allreduce handled,
    recorded.acks.handled recorded.settled handled sent,
    recorded.down.handled found allreduce handled,
    fun notRoot => (recorded.up notRoot).handled recorded.arrived notRoot
      found held handled,
    recorded.standby.handled carries found handled,
    recorded.faithful.handled ?_⟩
  intro frame member single
  obtain ⟨isParent, notRoot, isAckPacket, psn, above, turn, passes, rfl⟩ :=
    handled.retransmitted allreduce member single
  have ackConn := (ackConn_of_lookupRule found).trans isParent
  subst isParent
  exact recorded.nak_repeats notRoot isAckPacket (held rfl isAckPacket)
    ackConn above turn passes

/-- Jobs that retransmit to the children that asked for it. -/
theorem Recorded.reschedule (recorded : Recorded config world)
    {queue : List Nat} {jobs : List Job}
    (queued : ∀ id ∈ queue, id ∈ world.globals.queue)
    (active : ∀ job ∈ jobs, (job.id < fanIn ∧ job.rule.ackConn = job.id) ∧
      0 ≤ job.psn) :
    Recorded config
      ⟨{ world.globals with queue := queue, jobs := jobs }, world.log⟩ := by
  refine ⟨recorded.settled.congr ⟨rfl, rfl, rfl, rfl, rfl⟩, ?_,
    recorded.arrived, ⟨recorded.acks.child, recorded.acks.parent⟩,
    recorded.down.of_same ⟨rfl, rfl, rfl, rfl, rfl⟩, ?_,
    ⟨?_, fun job member => (active job member).1, recorded.standby.operation⟩,
    recorded.faithful⟩
  · exact recorded.ranged.congr ⟨rfl, rfl, rfl, rfl, rfl⟩
      recorded.ranged.downAck
      (fun id member => recorded.ranged.queued id (queued id member))
      (fun job member => (active job member).2)
  · intro notRoot
    obtain ⟨sent, held⟩ := recorded.up notRoot
    exact ⟨sent, held⟩
  · exact fun id member => recorded.standby.queued id (queued id member)

theorem Recorded.active (recorded : Recorded config world)
    (member : job ∈ world.globals.jobs) :
    (job.id < fanIn ∧ job.rule.ackConn = job.id) ∧ 0 ≤ job.psn :=
  ⟨recorded.standby.active job member, recorded.ranged.active job member⟩

/-- A job sends what its slot holds. -/
theorem Recorded.job_sends (recorded : Recorded config world)
    (active : job ∈ world.globals.jobs)
    (sends : reSends world.globals job.id (idx job.psn) = true)
    (stored : (world.globals.bcastBuffer (idx job.psn)).psn = job.psn) :
    Recorded config ⟨world.globals, world.log ++
      (retransmit world.globals job.rule job.psn).map Entry.sent⟩ := by
  obtain ⟨⟨isChild, ackConn⟩, nonneg⟩ := recorded.active active
  have test := of_decide_eq_true sends
  have sent : job.psn < world.globals.downEpsn :=
    recorded.settled.sent nonneg ⟨test.1, stored⟩
  rw [retransmit_eq]
  refine ⟨recorded.settled, recorded.ranged, recorded.arrived, ⟨?_, ?_⟩, ?_,
    ?_, recorded.standby, recorded.faithful.append_sent ?_⟩
  · intro i isChild' psn nonneg'
    rw [acknowledgedBy_append_sent]
    exact recorded.acks.child i isChild' psn nonneg'
  · intro notRoot psn nonneg'
    rw [acknowledgedBy_append_sent]
    exact recorded.acks.parent notRoot psn nonneg'
  · refine recorded.down.congr (.refl _) fun i _ psn above => ?_
    refine firstSent_append_sent_of_none fun frame member _ samePsn => ?_
    rw [List.mem_singleton.mp member] at samePsn
    simp only [resent] at samePsn
    omega
  · refine fun notRoot => (recorded.up notRoot).congr ⟨rfl, rfl, rfl, rfl⟩
      fun psn _ toParent => ?_
    rw [firstSent_append_sent_of_none] at toParent
    · exact toParent
    · intro frame member sameConn
      rw [List.mem_singleton.mp member] at sameConn
      simp only [resent, ackConn] at sameConn
      omega
  · intro frame member _
    rw [List.mem_singleton.mp member]
    exact recorded.job_repeats active sends stored

/-- What is retransmitted as it stands keeps the agreement with the record. -/
theorem Recorded.step (recorded : Recorded config world)
    (domain : InDomain config world event)
    (held : RetransmitsHeld world event)
    (taken : Switch.step config fuel world event = some next) :
    Recorded config next := by
  rcases step_cases taken with
    ⟨conn, packet, frames, rule, rfl, found, handled, log⟩ |
    ⟨id, queue, rfl, queued, rfl⟩ |
    ⟨index, job, rfl, found, round⟩
  · have recorded' := recorded.handled domain held found handled
    rwa [← log] at recorded'
  · have isFirst : id ∈ world.globals.queue := queued ▸ List.mem_cons_self
    refine recorded.reschedule
      (fun other member => queued ▸ List.mem_cons_of_mem id member) ?_
    intro job member
    rcases List.mem_append.mp member with old | new
    · exact recorded.active old
    · rw [List.mem_singleton.mp new]
      exact ⟨recorded.standby.queued id isFirst,
        recorded.ranged.queued id isFirst⟩
  · have active := List.mem_of_getElem? found
    rcases round with ⟨sends, rfl⟩ | ⟨-, rfl⟩
    · have sent := recorded.job_sends active sends (held job found sends)
      refine sent.reschedule (fun _ member => member) fun other member => ?_
      rcases List.mem_or_eq_of_mem_set member with old | rfl
      · exact recorded.active old
      · obtain ⟨isJob, nonneg⟩ := recorded.active active
        exact ⟨isJob, by simp only; omega⟩
    · exact recorded.reschedule (fun _ member => member) fun other member =>
        recorded.active (List.mem_of_mem_eraseIdx member)

/-- A job that passes another PSN's slot sends what it was not asked for. -/
theorem Recorded.job_spoils (recorded : Recorded config world)
    (active : job ∈ world.globals.jobs)
    (stored : (world.globals.bcastBuffer (idx job.psn)).psn ≠ job.psn) :
    ¬RepeatsOriginal world.log (resent world.globals job.rule job.psn) := by
  rintro ⟨original, unacknowledged⟩
  obtain ⟨⟨isChild, ackConn⟩, nonneg⟩ := recorded.active active
  simp only [resent, ackConn] at original unacknowledged
  rw [recorded.acks.child job.id isChild job.psn nonneg, not_le]
    at unacknowledged
  have sent : job.psn < world.globals.downEpsn := by
    by_contra unsent
    exact original.ne_none
      (recorded.down.unsent job.id isChild job.psn (not_lt.mp unsent))
  have broadcasting := (recorded.settled.held_iff nonneg sent).mpr
    ⟨job.id, isChild, unacknowledged⟩
  exact stored broadcasting.2

/-- A NAK of the parent for sums that are not in the broadcast slots. -/
theorem Recorded.nak_spoils (recorded : Recorded config world)
    (notRoot : config.root = false) (ackConn : rule.ackConn = fanIn)
    {psn : Int} {before : List Entry} (nonneg : 0 ≤ psn)
    (wrong : ¬((world.globals.aggBuffer (idx psn)).psn = psn ∧
      (world.globals.bcastBuffer (idx psn)).packetType =
        (world.globals.aggBuffer (idx psn)).packetType ∧
      (world.globals.bcastBuffer (idx psn)).words =
        (world.globals.aggBuffer (idx psn)).words))
    (prior : ∀ entry ∈ world.log, entry ∈ before)
    (same : firstSent before fanIn psn = firstSent world.log fanIn psn) :
    ¬RepeatsOriginal before (resent world.globals rule psn) := by
  rintro ⟨original, unacknowledged⟩
  simp only [resent, ackConn] at original unacknowledged
  have above : world.globals.downAck < psn := by
    by_contra covered
    obtain ⟨packet, member, rest⟩ :=
      (recorded.acks.parent notRoot psn nonneg).mpr (not_lt.mp covered)
    exact unacknowledged ⟨packet, prior _ member, rest⟩
  have up := recorded.up notRoot
  have sent : firstSent world.log fanIn psn ≠ none := same ▸ original.ne_none
  rcases up.held psn nonneg sent with covered | ⟨full, stored⟩
  · omega
  · have first := up.sent (idx psn) (inRing_idx nonneg) full (by omega)
    rw [stored] at first
    obtain ⟨frame, found, packetType, data⟩ := first
    obtain ⟨frame', found', packetType', data'⟩ := original
    rw [same, found] at found'
    obtain rfl := Option.some.inj found'
    exact wrong ⟨stored, packetType'.symm.trans packetType,
      data'.symm.trans data⟩

theorem Recorded.packet_spoils (recorded : Recorded config world)
    (isParent : conn = fanIn) (isAckPacket : IsAckPacket packet false)
    (wrong : ¬NakRepeats world.globals packet)
    (found : config.lookupRule conn = some rule)
    (handled : Handled config fuel world.globals conn rule packet globals
      frames) :
    ¬Faithful (world.log ++ .received conn packet ::
      frames.map Entry.sent) := by
  intro faithful
  unfold NakRepeats at wrong
  push Not at wrong
  obtain ⟨psn, above, -, passes, wrong⟩ := wrong
  obtain ⟨notRoot, member, resents⟩ :=
    handled.retransmits isParent isAckPacket above passes
  obtain ⟨first, last, split, absent⟩ := List.eq_append_cons_of_mem member
  have repeats := faithful
    (world.log ++ .received conn packet :: first.map Entry.sent)
    (resent world.globals rule psn) (last.map Entry.sent)
    (by rw [split]; simp) rfl
  refine recorded.nak_spoils notRoot
    ((ackConn_of_lookupRule found).trans isParent)
    (le_trans (Int.natCast_nonneg _) above)
    (fun right => wrong right.1 right.2.1 right.2.2)
    (fun entry member => List.mem_append_left _ member) ?_ repeats
  refine firstSent_handled_of_none fun frame isFirst _ samePsn => ?_
  have isFrame : frame ∈ frames := by
    rw [split]
    exact List.mem_append_left _ isFirst
  obtain ⟨other, rfl⟩ := resents frame isFrame
  obtain rfl : other = psn := samePsn
  exact absurd isFirst absent

theorem Recorded.spoiled (recorded : Recorded config world)
    (wrong : ¬RetransmitsHeld world event)
    (taken : Switch.step config fuel world event = some next) :
    ¬Faithful next.log := by
  rcases step_cases taken with
    ⟨conn, packet, frames, rule, rfl, found, handled, log⟩ |
    ⟨id, queue, rfl, -, -⟩ |
    ⟨index, job, rfl, found, round⟩
  · simp only [RetransmitsHeld] at wrong
    push Not at wrong
    obtain ⟨isParent, isAckPacket, wrong⟩ := wrong
    rw [log]
    exact recorded.packet_spoils isParent isAckPacket wrong found handled
  · exact absurd trivial wrong
  · simp only [RetransmitsHeld] at wrong
    push Not at wrong
    obtain ⟨other, found', sends, stored⟩ := wrong
    rw [Option.mem_def] at found'
    obtain rfl := Option.some.inj (found.symm.trans found')
    rcases round with ⟨-, rfl⟩ | ⟨fails, -⟩
    · intro faithful
      refine recorded.job_spoils (List.mem_of_getElem? found) stored ?_
      exact faithful world.log (resent world.globals job.rule job.psn) [] rfl
        rfl
    · exact Bool.noConfusion (sends.symm.trans fails)

end Steps

section Runs

variable {config : Config} {memory : Globals} {fuel : Nat}
  {world next : World} {event : Event}

theorem recorded_initial : Recorded config (.initial config memory) := by
  refine ⟨settled_initAll, ranged_initAll, ?_, ⟨?_, ?_⟩, ⟨?_, ?_⟩,
    fun _ => ⟨?_, ?_⟩, ⟨?_, ?_, rfl⟩, faithful_nil⟩
  · intro slot inside
    have degree : (initAll config memory).aggDegree slot = 0 := if_pos inside
    rw [World.initial, degree]
    exact (tally_of_unmarked fun i _ => if_pos inside).symm
  · intro i _ psn nonneg
    refine iff_of_false (fun acknowledged => ?_) ?_
    · obtain ⟨packet, member, -⟩ := acknowledged
      exact absurd member List.not_mem_nil
    · have latest : (initAll config memory).latestAck i = -1 := rfl
      rw [World.initial, latest]
      omega
  · intro _ psn nonneg
    refine iff_of_false (fun acknowledged => ?_) ?_
    · obtain ⟨packet, member, -⟩ := acknowledged
      exact absurd member List.not_mem_nil
    · have downAck : (initAll config memory).downAck = -1 := rfl
      rw [World.initial, downAck]
      omega
  · intro i _ psn nonneg holds
    have state := holds.1
    simp [World.initial, initAll, inRing_idx nonneg, AggBuffer.zero] at state
  · intro i _ psn _
    rfl
  · intro slot inside full
    have degree : (initAll config memory).aggDegree slot = 0 := if_pos inside
    exact absurd (degree.symm.trans full) (by decide)
  · intro psn _ sent
    exact absurd rfl sent
  · intro id member
    exact absurd member List.not_mem_nil
  · intro job member
    exact absurd member List.not_mem_nil

theorem faithful_before
    (taken : step config fuel world event = some next)
    (faithful : Faithful next.log) : Faithful world.log := by
  rcases step_cases taken with
    ⟨conn, packet, frames, rule, -, -, -, log⟩ |
    ⟨id, queue, -, -, rfl⟩ |
    ⟨index, job, -, -, ⟨-, rfl⟩ | ⟨-, rfl⟩⟩
  · rw [log] at faithful
    exact faithful.of_append
  · exact faithful
  · exact faithful.of_append
  · exact faithful

/-- A record becomes unfaithful with the first step that retransmits what does
not stand in the slot of its PSN. -/
theorem faithful_iff_meets {events : List Event}
    (taken : Machine.run (step config fuel) (.initial config memory) events =
      some world)
    (domain : Machine.Meets (step config fuel) (InDomain config)
      (.initial config memory) events) :
    Faithful world.log ↔
      Machine.Meets (step config fuel) RetransmitsHeld
        (.initial config memory) events :=
  Machine.final_iff_meets (Recorded config)
    (fun _ recorded => recorded.faithful)
    (fun _ _ _ taken faithful => faithful_before taken faithful)
    (fun _ _ _ recorded domain held taken => recorded.step domain held taken)
    (fun _ _ _ recorded _ wrong taken => recorded.spoiled wrong taken)
    recorded_initial domain taken

end Runs

/-- In the runs of an AllReduce with children that acknowledge what they were
sent, all retransmissions repeat their originals if and only if what is
retransmitted stands in the slots of its PSNs. -/
theorem retransmissions_repeat_iff (config : Config) (memory : Globals)
    (fuel : Nat) (events : List Event) (world : World)
    (taken : Machine.run (step config fuel) (.initial config memory) events =
      some world)
    (domain : Machine.Meets (step config fuel) (InDomain config)
      (.initial config memory) events) :
    Faithful world.log ↔
      Machine.Meets (step config fuel) RetransmitsHeld
        (.initial config memory) events :=
  faithful_iff_meets taken domain

/-- A child asks for the first broadcast again. -/
def childNakEvents : List Event :=
  [.packet 2 (.word 0 7), .packet 0 (.nak 0), .start, .round 0, .round 0]

def childNakWorld : World :=
  (Machine.run (step innerConfig 4) (.initial innerConfig zeroMemory)
    childNakEvents).get (by decide +kernel)

theorem retransmissions_repeat_iff_childNak : Faithful childNakWorld.log :=
  (retransmissions_repeat_iff innerConfig zeroMemory 4 childNakEvents
    childNakWorld (Option.some_get _).symm (by decide +kernel)).mpr
      (by decide +kernel)

/-- The parent asks for the first sum again. -/
def parentNakEvents : List Event := firstSumEvents ++ [.packet 2 (.nak 0)]

def parentNakWorld : World :=
  (Machine.run (step innerConfig 4) (.initial innerConfig zeroMemory)
    parentNakEvents).get (by decide +kernel)

/-- It is sent the empty broadcast slot instead of the sum. -/
theorem not_always_repeats :
    Machine.run (step innerConfig 4) (.initial innerConfig zeroMemory)
        parentNakEvents = some parentNakWorld ∧
      Machine.Meets (step innerConfig 4) (InDomain innerConfig)
        (.initial innerConfig zeroMemory) parentNakEvents ∧
      ¬Faithful parentNakWorld.log := by
  have taken : Machine.run (step innerConfig 4)
      (.initial innerConfig zeroMemory) parentNakEvents =
        some parentNakWorld := (Option.some_get _).symm
  have domain : Machine.Meets (step innerConfig 4) (InDomain innerConfig)
      (.initial innerConfig zeroMemory) parentNakEvents := by
    decide +kernel
  refine ⟨taken, domain, fun faithful => ?_⟩
  have held := (faithful_iff_meets taken domain).mp faithful
  exact absurd held (by decide +kernel)

end IncEmulation.Switch
