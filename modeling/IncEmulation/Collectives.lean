import IncEmulation.Answers

/-!
# A program of any calls from end to end

AllReduces, Reduces and Broadcasts in any order, and ranks, network and switch in
any order of their steps.  As long as every data packet fits the state in which
the switch handles it, and a rank that only sends leaves a call with its sends
complete, a call that has returned has brought the sum over its senders.
-/

namespace IncEmulation

open Gather Machine

theorem Job.dataSegment_inj {number other k j : Nat}
    (same : Job.dataSegment number k = Job.dataSegment other j) :
    number = other ∧ k = j := by
  have call : number = other :=
    congrArg (fun segment => segment.request.call) same
  have message : k / 4 = j / 4 :=
    congrArg (fun segment => segment.request.wrId) same
  have part : k % 4 = j % 4 := congrArg Segment.part same
  exact ⟨call, by omega⟩

namespace System

/-- A call that receives nothing is left only with all sends complete. -/
def Finishes (cluster : Cluster) (system : System) : Event → Prop
  | .host rank => (system.hosts rank).stages = some [] →
      ∀ call ∈ cluster.program[(system.hosts rank).calls]?,
        call.collective.receives rank = false →
          (system.hosts rank).qp.sendsDone =
            (system.hosts rank).qp.sends.length
  | _ => True

instance (cluster : Cluster) (system : System) :
    DecidablePred (Finishes cluster system)
  | .host rank => by unfold Finishes; infer_instance
  | .transmit _ => .isTrue trivial
  | .handle _ => .isTrue trivial
  | .sendCompletes _ => .isTrue trivial
  | .acknowledge _ _ => .isTrue trivial
  | .deliver _ => .isTrue trivial

/-! ## What goes up -/

/-- The data a rank has sent: that of the calls it has left is accepted, and
every packet carries the words of its call. -/
structure Uploaded (cluster : Cluster) (system : System) (rank : Nat) :
    Prop where
  done : (segments ((system.hosts rank).qp.sends.take
    (system.hosts rank).qp.sendsDone)).length ≤ system.accepted rank
  gone : ∀ number call k, number < (system.hosts rank).calls →
    cluster.program[number]? = some call →
    call.collective.sends rank = true → k < 4 * call.messageNum →
      (cluster.job rank).base number + 1 + k < system.accepted rank
  words : ∀ number call k sent, cluster.program[number]? = some call →
    call.collective.sends rank = true → k < 4 * call.messageNum →
    (system.up rank)[(cluster.job rank).base number + 1 + k]? = some sent →
      ∀ index < mtuWords, sent.2.data index =
        (cluster.job rank).sentWord number call (k * mtuWords + index)

section Upload

variable {cluster : Cluster} {system next : System} {rank : Nat}

/-- The fields the uploads of a rank depend on. -/
theorem Uploaded.congr (uploaded : system.Uploaded cluster rank)
    (hosts : (next.hosts rank).calls = (system.hosts rank).calls ∧
      (next.hosts rank).qp.sends = (system.hosts rank).qp.sends ∧
      (next.hosts rank).qp.sendsDone = (system.hosts rank).qp.sendsDone)
    (up : next.up rank = system.up rank)
    (accepted : system.accepted rank ≤ next.accepted rank) :
    next.Uploaded cluster rank where
  done := by
    rw [hosts.2.1, hosts.2.2]
    exact uploaded.done.trans accepted
  gone := by
    rw [hosts.1]
    intro number call k before current sends inCall
    exact (uploaded.gone number call k before current sends inCall).trans_le
      accepted
  words := by
    rw [up]
    exact uploaded.words

theorem Uploaded.post {host : Host} (uploaded : system.Uploaded cluster rank)
    (bound : (system.hosts rank).qp.sendsDone ≤
      (system.hosts rank).qp.sends.length)
    (sends : (system.hosts rank).qp.sends <+: host.qp.sends)
    (sendsDone : host.qp.sendsDone = (system.hosts rank).qp.sendsDone)
    (gone : ∀ number call k, number < host.calls →
      cluster.program[number]? = some call →
      call.collective.sends rank = true → k < 4 * call.messageNum →
        (cluster.job rank).base number + 1 + k < system.accepted rank) :
    (system.setHost rank host).Uploaded cluster rank where
  done := by
    obtain ⟨rest, whole⟩ := sends
    rw [System.setHost_self, sendsDone, ← whole,
      List.take_append_of_le_length bound]
    exact uploaded.done
  gone := by
    rw [System.setHost_self]
    exact gone
  words := uploaded.words

theorem gone_of_left {call : Call} (uploaded : system.Uploaded cluster rank)
    (wired : Wired cluster system) (bound : rank < cluster.hosts)
    (ended : (system.hosts rank).stages = some [])
    (current : cluster.program[(system.hosts rank).calls]? = some call)
    (finishes : system.Finishes cluster (.host rank))
    (awaited : (system.setHost rank
      ((system.hosts rank).leave true)).Awaited cluster rank)
    (sends : call.collective.sends rank = true) {k : Nat}
    (inCall : k < 4 * call.messageNum) :
    (cluster.job rank).base (system.hosts rank).calls + 1 + k <
      system.accepted rank := by
  cases receives : call.collective.receives rank with
  | true =>
      rw [wired.accepted rank bound]
      apply awaited.past _ call _ current receives k inCall rank bound sends
      rw [System.setHost_self]
      exact Nat.lt_succ_self _
  | false =>
      have complete := finishes ended call current receives
      have acted : (system.hosts rank).act (cluster.job rank) .step =
          some ((system.hosts rank).leave true) := by
        simp only [Host.act, Host.step, ended]
      have between := ((wired.hosts rank).act acted).between rfl
      have posted : (system.hosts rank).qp.sends =
          (cluster.job rank).sendsBefore ((system.hosts rank).calls + 1) :=
        between.sends
      have next := Job.base_succ
        (show (cluster.job rank).program[(system.hosts rank).calls]? =
          some call from current)
      have own : call.collective.sends (cluster.job rank).rank = true := sends
      have done := uploaded.done
      rw [complete, List.take_length, posted, ← Job.base, next, if_pos own]
        at done
      omega

theorem Uploaded.host {host : Host} (uploaded : system.Uploaded cluster rank)
    (wired : Wired cluster system) (bound : rank < cluster.hosts)
    (finishes : system.Finishes cluster (.host rank))
    (awaited : (system.setHost rank host).Awaited cluster rank)
    (stepped : (system.hosts rank).step (cluster.job rank) = some host) :
    (system.setHost rank host).Uploaded cluster rank := by
  have invariant := wired.hosts rank
  cases invariant.moved_of_step stepped with
  | @enter _ idle _ =>
      exact uploaded.post (invariant.between idle).delivered.sendsDone_le
        List.prefix_rfl rfl uploaded.gone
  | @leave _ ended _ inside =>
      refine uploaded.post inside.delivered.sendsDone_le List.prefix_rfl rfl ?_
      intro number own k before ownCurrent sends inCall
      rcases Nat.lt_succ_iff_lt_or_eq.mp before with earlier | rfl
      · exact uploaded.gone number own k earlier ownCurrent sends inCall
      · exact gone_of_left uploaded wired bound ended ownCurrent finishes awaited
          sends inCall
  | @round call stage rest running _ inside =>
      refine uploaded.post inside.delivered.sendsDone_le
        (Host.round_sends _ _ _ _)
        (Host.round_keeps (system.hosts rank) (cluster.job rank) call stage
          rest).sendsDone ?_
      rw [(inside.round running).calls]
      exact uploaded.gone

/-- The words that go up are those of the call the rank is in. -/
theorem Uploaded.transmit {segment : Segment}
    (uploaded : system.Uploaded cluster rank) (wired : Wired cluster system)
    (answering : (system.hosts rank).Answering cluster rank)
    (present : (segments (system.hosts rank).qp.sends)[
      (system.up rank).length]? = some segment) :
    Uploaded cluster
      { system with
        up := Function.update system.up rank
          (system.up rank ++
            [(segment, segment.packet cluster.addressing rank
              (system.up rank).length (system.hosts rank).sendPayload)]) }
      rank where
  done := uploaded.done
  gone := uploaded.gone
  words := by
    intro number call k sent current sends inCall found index inside
    dsimp only at found
    rw [Function.update_self] at found
    rcases Nat.lt_trichotomy ((cluster.job rank).base number + 1 + k)
        (system.up rank).length with old | new | beyond
    · rw [List.getElem?_append_left old] at found
      exact uploaded.words number call k sent current sends inCall found index
        inside
    · rw [new, List.getElem?_concat_length] at found
      obtain rfl := Option.some.inj found
      have posted := (List.getElem?_eq_some_iff.mp present).1
      rw [← new] at posted
      have accepted := wired.accepted_le rank
      rcases (wired.hosts rank).call_of_posted current sends posted with
        before | ⟨rfl, stages, running, own, few⟩
      · have early := uploaded.gone number call k before current sends inCall
        omega
      · obtain ⟨start, calls, -, contents⟩ :=
          answering.running stages call running current
        have streamed := getElem?_of_prefix
          (wired.hosts rank).segments_le_stream present
        rw [← new, Job.stream_data current sends inCall] at streamed
        obtain rfl := Option.some.inj streamed
        have prepared := (own.sendNum_le sends).2.1
        have word : (k * mtuWords + index) / payloadCount <
            (system.hosts rank).locals.prepared := by
          rw [payloadCount, mtuWords] at *
          omega
        have content := contents.prepared _ word
        rw [calls] at content
        rw [← content, Job.packet_dataSegment,
          Addressing.dataPacket_data (Job.dataOpcode_plain k)]
        simp [Job.dataWords, inside]
    · rw [List.getElem?_eq_none (by simp; omega)] at found
      cases found

end Upload

/-! ## What comes down -/

/-- The next data frame of a rank is packet `k` of the call it is in. -/
structure Imminent (cluster : Cluster) (system : System) (rank : Nat)
    (call : Call) (k : Nat) (frame : Frame) : Prop where
  current : cluster.program[(system.hosts rank).calls]? = some call
  receives : call.collective.receives rank = true
  inCall : k < 4 * call.messageNum
  received : system.received rank =
    4 * ((cluster.job rank).receivesBefore (system.hosts rank).calls).length + k
  expects : (system.hosts rank).Expects (system.hosts rank).calls (k / 4)
  inTurn : (dataFrames (system.down rank))[system.received rank]? = some frame

/-- What has come down to a rank are the answers of its calls. -/
structure Answered (cluster : Cluster) (system : System) (rank : Nat) :
    Prop where
  frames : ∀ number call k frame, cluster.program[number]? = some call →
    call.collective.receives rank = true → k < 4 * call.messageNum →
    (dataFrames (system.down rank))[
      4 * ((cluster.job rank).receivesBefore number).length + k]? =
        some frame → frame.data = cluster.answerWords number k
  cursor : system.cursor rank = system.received rank % 4 * mtuWords
  arrived : ∀ position,
    4 * ((cluster.job rank).receivesBefore (system.hosts rank).calls).length +
        position / mtuWords < system.received rank →
      (system.hosts rank).receivePayload position =
        cluster.answer (system.hosts rank).calls position

section Download

variable {cluster : Cluster} {system next : System} {rank : Nat}
  {frame : Frame}

/-- A data frame that arrives is due. -/
theorem Awaited.imminent (awaited : system.Awaited cluster rank)
    (invariant : (system.hosts rank).Invariant (cluster.job rank))
    (present : (system.down rank)[system.delivered rank]? = some frame)
    (data : frame.type = .data) :
    ∃ call k, Imminent cluster system rank call k frame := by
  have inTurn := awaited.inTurn present data
  have sent := (List.getElem?_eq_some_iff.mp inTurn).1
  have done := awaited.receivesDone
  rw [awaited.count] at sent
  cases running : (system.hosts rank).stages with
  | none =>
      have rests := awaited.resting (.inl running)
      have least := (invariant.between running).delivered.receives.le
      omega
  | some stages =>
      obtain ⟨call, current, inside⟩ := invariant.inside stages running
      have least := inside.delivered.receives.le
      cases receives : call.collective.receives rank with
      | false =>
          have rests := awaited.resting (.inr fun each same => by
            obtain rfl := Option.some.inj (current.symm.trans same)
            exact receives)
          omega
      | true =>
          obtain ⟨count, most, place, counted⟩ :=
            awaited.current stages call running current receives
          obtain ⟨k, received⟩ : ∃ k, system.received rank =
              4 * ((cluster.job rank).receivesBefore
                (system.hosts rank).calls).length + k :=
            Nat.exists_eq_add_of_le (by omega)
          have inCall : k < 4 * call.messageNum := by omega
          have passed := (counted k inCall).mpr (by omega)
          rcases awaited.ready _ call current receives k inCall passed with
            before | expects
          · exact absurd before (Nat.lt_irrefl _)
          · exact ⟨call, k, current, receives, inCall, received, expects,
              inTurn⟩

theorem Imminent.stored {call : Call} {k : Nat}
    (due : Imminent cluster system rank call k frame)
    (awaited : system.Awaited cluster rank)
    (answered : system.Answered cluster rank)
    (invariant : (system.hosts rank).Invariant (cluster.job rank))
    (data : frame.type = .data)
    (received : Received cluster system rank frame next) :
    ∃ host, next = system.accept rank frame host ∧
      (system.hosts rank).Stored host (k * mtuWords) frame.data ∧
      host.qp.receivesDone = (system.received rank + 1) / 4 ∧
      (frame.endsMessage = true ↔ system.received rank % 4 = 3) := by
  obtain ⟨psn, ends⟩ := awaited.numbered _ frame due.inTurn
  have done := awaited.receivesDone
  have place := due.received
  have posted := (due.expects.receive invariant due.current due.receives).2
  have message : (system.hosts rank).qp.receivesDone =
      ((cluster.job rank).receivesBefore (system.hosts rank).calls).length +
        k / 4 := by
    omega
  rw [← message] at posted
  have address : k / 4 * payloadCount + system.cursor rank = k * mtuWords := by
    rw [answered.cursor, payloadCount, mtuWords]
    omega
  obtain ⟨host, same, stored, counted⟩ := received.taken posted data psn
  rw [address] at stored
  exact ⟨host, same, stored, awaited.toTaking.counted ends counted, ends⟩

theorem Answered.congr (answered : system.Answered cluster rank)
    (hosts : (next.hosts rank).calls = (system.hosts rank).calls ∧
      (next.hosts rank).receivePayload = (system.hosts rank).receivePayload)
    (down : dataFrames (next.down rank) = dataFrames (system.down rank))
    (received : next.received rank = system.received rank)
    (cursor : next.cursor rank = system.cursor rank) :
    next.Answered cluster rank where
  frames := by
    rw [down]
    exact answered.frames
  cursor := by
    rw [cursor, received]
    exact answered.cursor
  arrived := by
    rw [hosts.1, hosts.2, received]
    exact answered.arrived

/-- When a rank leaves a call nothing of the next one has come yet. -/
theorem Answered.host {host : Host} (answered : system.Answered cluster rank)
    (invariant : (system.hosts rank).Invariant (cluster.job rank))
    (awaited : (system.setHost rank host).Awaited cluster rank)
    (stepped : (system.hosts rank).step (cluster.job rank) = some host) :
    (system.setHost rank host).Answered cluster rank := by
  obtain ⟨payload, done, calls⟩ := invariant.step_receives stepped
  rcases calls with same | ⟨idle, -⟩
  · exact answered.congr
      (by rw [System.setHost_self]; exact ⟨same, payload⟩) rfl rfl rfl
  · have rests := awaited.resting (.inl (by rw [System.setHost_self, idle]))
    have most := awaited.received_le
    rw [awaited.count, rests, System.setHost_self] at most
    have received : (system.setHost rank host).received rank =
        system.received rank := rfl
    refine ⟨answered.frames, answered.cursor, ?_⟩
    intro position before
    rw [System.setHost_self] at before
    have reached := (Nat.le_add_right _ _).trans_lt before
    omega

/-- The answers as they come down, and what the rank makes of them. -/
theorem Answered.deliver (answered : system.Answered cluster rank)
    (awaited : system.Awaited cluster rank)
    (invariant : (system.hosts rank).Invariant (cluster.job rank))
    (answering : (system.hosts rank).Answering cluster rank)
    (present : (system.down rank)[system.delivered rank]? = some frame)
    (received : Received cluster system rank frame next) :
    Answered cluster
        { next with
          delivered := Function.update system.delivered rank
            (system.delivered rank + 1) } rank ∧
      (next.hosts rank).Answering cluster rank := by
  by_cases data : frame.type = .data
  · obtain ⟨call, k, due⟩ := awaited.imminent invariant present data
    obtain ⟨host, rfl, stored, done, ends⟩ :=
      due.stored awaited answered invariant data received
    have place := due.received
    have cursor := answered.cursor
    have inTurn := due.inTurn
    rw [place] at inTurn
    have words := answered.frames _ call k frame due.current due.receives
      due.inCall inTurn
    have arrived : ∀ position,
        4 * ((cluster.job rank).receivesBefore
            (system.hosts rank).calls).length + position / mtuWords <
          system.received rank + 1 →
        host.receivePayload position =
          cluster.answer (system.hosts rank).calls position := by
      intro position before
      rw [stored.receivePayload, words]
      apply Host.store_chunk (by decide) _ (by omega)
      exact fun earlier => answered.arrived position (by omega)
    refine ⟨⟨answered.frames, ?_, ?_⟩, ?_⟩
    · have length : frame.data.length = mtuWords := by
        rw [words, Cluster.answerWords, List.length_map, List.length_range]
      dsimp only
      rw [accept_received]
      exact accept_cursor _ cursor length ends
    · dsimp only
      rw [accept_received, accept_self, stored.calls]
      exact arrived
    · rw [accept_self]
      apply answering.congr stored.calls stored.stages stored.dstData
      intro call start before contents
      apply stored.contents contents
      intro position passed
      apply arrived
      rw [before, done] at passed
      rw [payloadCount] at passed
      rw [mtuWords]
      omega
  · obtain rfl := received.eq_of_ne_data data
    exact ⟨answered.congr ⟨rfl, rfl⟩ rfl rfl rfl, answering⟩

end Download

end System

/-! ## The switch in between -/

/-- What every run keeps whose data packets fit and whose senders finish. -/
structure Delivering (cluster : Cluster) (system : System) : Prop where
  posted : Posted cluster system
  sums : SumsHold cluster.hosts cluster.Aggregated (fun _ => mtuWords)
    cluster.carried system.switch
  uploaded : ∀ rank < cluster.hosts, system.Uploaded cluster rank
  answered : ∀ rank < cluster.hosts, system.Answered cluster rank
  answering : ∀ rank < cluster.hosts,
    (system.hosts rank).Answering cluster rank

/-- What the switch has made of a packet: its sums go on, and what it sends is
the answer. -/
structure System.Computed (cluster : Cluster) (segment : Segment)
    (after : SwitchContext) (frames : List Frame) : Prop where
  sums : SumsHold cluster.hosts cluster.Aggregated (fun _ => mtuWords)
    cluster.carried after
  answers : ∀ number k, segment = Job.dataSegment number k →
    ∀ frame ∈ dataFrames frames, frame.data = cluster.answerWords number k

namespace Delivering

variable {cluster : Cluster} {system next : System} {rank number k : Nat}
  {call : Call} {segment : Segment} {packet : Packet}

theorem computed_silent {after : SwitchContext} {frames : List Frame}
    (sums : SumsHold cluster.hosts cluster.Aggregated (fun _ => mtuWords)
      cluster.carried after) (silent : dataFrames frames = []) :
    System.Computed cluster segment after frames where
  sums := sums
  answers := by
    intro number k _ frame member
    rw [silent] at member
    cases member

theorem answers_of_buffer {ctx : SwitchContext} {data : Nat → Word}
    {len : Int} {opcode : Opcode} {targets : List Nat} {frames : List Frame}
    (length : len = mtuWords)
    (sent : dataFrames frames = ctx.resultFrames data len opcode targets)
    (words : ∀ index < mtuWords,
      data index = cluster.answer number (k * mtuWords + index)) :
    ∀ own j, Job.dataSegment number k = Job.dataSegment own j →
      ∀ frame ∈ dataFrames frames, frame.data = cluster.answerWords own j := by
  intro own j same frame member
  obtain ⟨rfl, rfl⟩ := Job.dataSegment_inj same
  rw [sent] at member
  obtain ⟨target, -, rfl⟩ := List.mem_map.mp member
  rw [Cluster.answerWords, sendPacket, length, Int.toNat_natCast]
  apply List.map_congr_left
  intro index inside
  exact words index (List.mem_range.mp inside)

theorem data_eq (delivering : Delivering cluster system)
    (inTurn : system.InTurn cluster rank number k call packet)
    (present : (system.up rank)[system.switch.aggEpsn rank]? =
      some (segment, packet)) :
    ∀ index < mtuWords, packet.data index =
      htonl (cluster.carried rank (system.switch.aggEpsn rank) index) := by
  intro index inside
  have place := inTurn.place
  rw [place] at present ⊢
  rw [Cluster.carried_data inTurn.current inTurn.sends inTurn.inCall,
    htonl_ntohl]
  exact (delivering.uploaded rank inTurn.bound).words number call k _
    inTurn.current inTurn.sends inTurn.inCall present index inside

theorem computed_broadcast (delivering : Delivering cluster system)
    (inTurn : system.InTurn cluster rank number k call packet)
    (collective : call.collective = .broadcast rank)
    (present : (system.up rank)[system.switch.aggEpsn rank]? =
      some (segment, packet)) {after : SwitchContext}
    (aggEpsn : after.aggEpsn = advance system.switch.aggEpsn rank)
    (psnStates : after.psnStates = system.switch.psnStates)
    {opcode : Opcode} {targets : List Nat} :
    System.Computed cluster (Job.dataSegment number k) after
      (acknowledgement rank packet.psn ::
        system.switch.resultFrames packet.data packet.dataLen opcode
          targets) where
  sums := by
    refine delivering.sums.skip ?_ aggEpsn psnStates
    rw [inTurn.place]
    refine Cluster.not_aggregated_broadcast inTurn.bound inTurn.current
      inTurn.sends inTurn.inCall ?_
    rw [collective]
    rfl
  answers := by
    refine answers_of_buffer inTurn.dataLen
      ((Aggregating.dataFrames_cons_acknowledgement _ _).trans
        (Aggregating.dataFrames_resultFrames _ _ _ _)) ?_
    intro index inside
    rw [delivering.data_eq inTurn present index inside, inTurn.place,
      Cluster.carried_data inTurn.current inTurn.sends inTurn.inCall,
      htonl_ntohl, Cluster.answer_broadcast inTurn.current collective]

theorem computed_incomplete (delivering : Delivering cluster system)
    (inTurn : system.InTurn cluster rank number k call packet)
    (member : cluster.Aggregated (system.switch.aggEpsn rank))
    (free : SlotFree cluster.hosts cluster.Aggregated system.switch
      (system.switch.aggEpsn rank))
    (present : (system.up rank)[system.switch.aggEpsn rank]? =
      some (segment, packet)) {operation : Collective} :
    System.Computed cluster segment
      (system.switch.afterContribution operation rank packet)
      [acknowledgement rank packet.psn] :=
  computed_silent
    (delivering.sums.contribute delivering.posted.slots inTurn.bound
      inTurn.expected member free inTurn.dataLen
      (delivering.data_eq inTurn present)) rfl

theorem computed_complete (delivering : Delivering cluster system)
    (inTurn : system.InTurn cluster rank number k call packet)
    (aggregates : call.collective.aggregates = true)
    (aligned : ∀ other < cluster.hosts,
      (cluster.job other).base number = (cluster.job rank).base number)
    (free : SlotFree cluster.hosts cluster.Aggregated system.switch
      (system.switch.aggEpsn rank))
    (present : (system.up rank)[system.switch.aggEpsn rank]? =
      some (segment, packet))
    (full : (system.switch.psnStates
      (idx (system.switch.aggEpsn rank))).degree + 1 = cluster.hosts)
    {operation : Collective} {after : SwitchContext} {opcode : Opcode}
    {targets : List Nat}
    (completed : system.switch.Completed after rank
      (idx (system.switch.aggEpsn rank)) targets) :
    System.Computed cluster (Job.dataSegment number k) after
      (acknowledgement rank packet.psn ::
        system.switch.resultFrames
          (system.switch.contribution operation rank packet).aggBuffer.buffer
          packet.dataLen opcode targets) where
  sums := delivering.sums.complete delivering.posted.slots inTurn.bound
    (inTurn.aggregated aggregates aligned) free full completed
  answers := by
    have member := inTurn.aggregated aggregates aligned
    have last := (delivering.posted.slots.complete_iff inTurn.bound member
      free).mp full
    have everyone : contributors cluster.hosts
        (advance system.switch.aggEpsn rank) (system.switch.aggEpsn rank) =
          Finset.range cluster.hosts := by
      apply contributors_eq_range
      intro other bound
      by_cases own : other = rank
      · subst own
        rw [advance_self]
        exact Nat.lt_succ_self _
      · rw [advance_of_ne own]
        exact last other bound own
    refine answers_of_buffer inTurn.dataLen
      ((Aggregating.dataFrames_cons_acknowledgement _ _).trans
        (Aggregating.dataFrames_resultFrames _ _ _ _)) ?_
    intro index inside
    rw [delivering.sums.contribution_buffer delivering.posted.slots
      inTurn.bound inTurn.expected member free inTurn.dataLen
      (delivering.data_eq inTurn present) inside, everyone]
    apply Cluster.htonl_sum_carried inTurn.current aggregates inTurn.inCall
    intro sender bound
    rw [aligned sender bound, inTurn.place]

theorem computed_data (delivering : Delivering cluster system)
    {after : SwitchContext} {frames : List Frame} (plain : packet.Plain)
    (turn : packet.psn = system.switch.aggEpsn rank →
      system.InTurn cluster rank number k call packet)
    (present : (system.up rank)[system.switch.aggEpsn rank]? =
      some (Job.dataSegment number k, packet))
    (prepared : system.Drops rank ∨
      system.Fits cluster rank (Job.dataSegment number k) call)
    (outcome : Outcome cluster.addressing cluster.hosts rank system.switch
      packet after frames) :
    System.Computed cluster (Job.dataSegment number k) after frames := by
  have slots := delivering.posted.slots
  cases outcome with
  | control admissible announces =>
      exact Bool.noConfusion (announces.control.symm.trans plain.not_control)
  | unmoved _ reason silent => exact computed_silent delivering.sums silent
  | broadcast _ expected inForce =>
      have fits := prepared.resolve_left
        (System.not_drops inForce (.inr rfl))
      have collective :=
        Collective.metadata_injective (fits.inForce.symm.trans inForce)
      refine delivering.computed_broadcast (turn expected) collective present
        ?_ ?_
      · rfl
      · rfl
  | incomplete _ expected valid aggregates inForce notFull =>
      have fits := prepared.resolve_left
        (System.not_drops inForce (.inl aggregates))
      obtain rfl :=
        Collective.metadata_injective (fits.inForce.symm.trans inForce)
      have inTurn := turn expected
      exact delivering.computed_incomplete inTurn
        (inTurn.aggregated aggregates (fits.aligned aggregates))
        (slotFree_of_slot slots (fits.slot aggregates)) present
  | complete _ expected valid aggregates inForce full completed =>
      have fits := prepared.resolve_left
        (System.not_drops inForce (.inl aggregates))
      obtain rfl :=
        Collective.metadata_injective (fits.inForce.symm.trans inForce)
      rw [expected] at full completed
      exact delivering.computed_complete (turn expected) aggregates
        (fits.aligned aggregates)
        (slotFree_of_slot slots (fits.slot aggregates)) present full completed

theorem computed (delivering : Delivering cluster system)
    (bound : rank < cluster.hosts)
    (present : (system.up rank)[system.accepted rank]? =
      some (segment, packet))
    (prepared : system.Prepared cluster (.handle rank)) :
    System.Computed cluster segment
      (packetHandler system.switch rank packet).1
      (packetHandler system.switch rank packet).2 := by
  have wired := delivering.posted.wired
  have arriving := wired.arriving bound present
  have outcome := wired.outcome bound arriving
  have owed := present
  rw [wired.accepted rank bound] at owed
  cases arriving with
  | control current sends place =>
      have admissible := Cluster.admissible_of_call current sends
      rw [packetHandler_control wired.deployed.toRouted bound
        Addressing.controlPacket_from admissible
        (Addressing.controlPacket_announces wired.deployed.fits bound
          admissible)]
      refine computed_silent (delivering.sums.skip ?_ rfl rfl) rfl
      rw [place]
      exact Cluster.not_aggregated_control bound current sends
  | data current sends inCall place =>
      exact delivering.computed_data
        (Addressing.dataPacket_plain (Job.dataOpcode_plain _))
        (fun expected => ⟨bound, current, sends, inCall, place, ⟨_, rfl⟩,
          expected, _, present⟩)
        owed
        (prepared _ (System.expected_data current sends inCall place) rfl _
          current)
        outcome

/-! ## Steps and runs -/

/-- A frame that goes out belongs to the call and the place it is sent for. -/
theorem frames_emit {frames : List Frame} {other : Nat}
    (delivering : Delivering cluster system) (bound : other < cluster.hosts)
    (emits : system.Emits cluster rank number k call packet)
    {words : Nat → Word}
    (sent : dataFrames frames = system.switch.resultFrames words mtuWords
      (Job.dataOpcode k) (call.collective.targets cluster.hosts))
    (answers : ∀ frame ∈ dataFrames frames,
      frame.data = cluster.answerWords number k)
    {own j : Nat} {ownCall : Call} {frame : Frame}
    (current : cluster.program[own]? = some ownCall)
    (receives : ownCall.collective.receives other = true)
    (inCall : j < 4 * ownCall.messageNum)
    (found : (dataFrames (system.down other) ++
      (dataFrames frames).filter fun frame => frame.conn = other)[
        4 * ((cluster.job other).receivesBefore own).length + j]? =
          some frame) :
    frame.data = cluster.answerWords own j := by
  have awaited := delivering.posted.awaited other bound
  rcases Nat.lt_or_ge (4 * ((cluster.job other).receivesBefore own).length + j)
      (dataFrames (system.down other)).length with old | new
  · rw [List.getElem?_append_left old] at found
    exact (delivering.answered other bound).frames own ownCall j frame current
      receives inCall found
  · rw [List.getElem?_append_right new] at found
    have member := List.mem_of_getElem? found
    have conn := of_decide_eq_true (List.mem_filter.mp member).2
    have listed := (List.mem_filter.mp member).1
    have target : other ∈ call.collective.targets cluster.hosts := by
      rw [sent] at listed
      obtain ⟨target, isTarget, rfl⟩ := List.mem_map.mp listed
      exact conn ▸ isTarget
    have ownReceives := ((Collective.mem_targets_iff
      (Cluster.valid_of_call emits.current)).mp target).2
    have place := emits.sendPsn_eq awaited bound ownReceives
    rw [sent, SwitchContext.resultFrames_to (Collective.targets_nodup _ _),
      if_pos target] at found
    have single := (List.getElem?_eq_some_iff.mp found).1
    rw [List.length_singleton, awaited.count] at single
    rw [awaited.count] at new
    obtain ⟨rfl, rfl⟩ := (cluster.job other).receive_position_inj emits.current
      ownReceives emits.inCall current receives inCall (by omega)
    exact answers frame listed

theorem answered_feed {accepted : Nat → Nat} {other : Nat}
    (delivering : Delivering cluster system) (bound : other < cluster.hosts)
    (fitted : system.Fitted cluster rank segment
      (packetHandler system.switch rank packet).1
      (packetHandler system.switch rank packet).2)
    (computed : System.Computed cluster segment
      (packetHandler system.switch rank packet).1
      (packetHandler system.switch rank packet).2) :
    System.Answered cluster
      { system.feedSwitch rank packet with accepted := accepted } other := by
  have answered := delivering.answered other bound
  have down := system.dataFrames_feedSwitch rank packet other
  refine ⟨?_, answered.cursor, answered.arrived⟩
  intro own ownCall j frame current receives inCall found
  dsimp only at found
  rw [down] at found
  cases fitted with
  | quiet silent =>
      rw [silent, List.filter_nil, List.append_nil] at found
      exact answered.frames own ownCall j frame current receives inCall found
  | emits data emits aggEpsn sendPsn slots sent =>
      obtain ⟨words, frames⟩ := sent
      exact delivering.frames_emit bound emits frames
        (computed.answers _ _ data) current receives inCall found

theorem feed {accepted : Nat → Nat} (delivering : Delivering cluster system)
    (fitted : system.Fitted cluster rank segment
      (packetHandler system.switch rank packet).1
      (packetHandler system.switch rank packet).2)
    (computed : System.Computed cluster segment
      (packetHandler system.switch rank packet).1
      (packetHandler system.switch rank packet).2)
    (posted : Posted cluster
      { system.feedSwitch rank packet with accepted := accepted })
    (grown : ∀ rank, system.accepted rank ≤ accepted rank) :
    Delivering cluster
      { system.feedSwitch rank packet with accepted := accepted } where
  posted := posted
  sums := computed.sums
  uploaded := fun other bound =>
    (delivering.uploaded other bound).congr ⟨rfl, rfl, rfl⟩ rfl (grown other)
  answered := fun _ bound => delivering.answered_feed bound fitted computed
  answering := delivering.answering

theorem acknowledge (delivering : Delivering cluster system)
    (bound : rank < cluster.hosts)
    (origin : packet.From cluster.addressing rank)
    (opcode : packet.opcode = rdmaOpcodeAck)
    (posted : Posted cluster (system.feedSwitch rank packet)) :
    Delivering cluster (system.feedSwitch rank packet) := by
  obtain ⟨same, silent⟩ :=
    delivering.posted.wired.acknowledge bound origin opcode
  have down (other : Nat) :
      dataFrames ((system.feedSwitch rank packet).down other) =
        dataFrames (system.down other) := by
    rw [System.dataFrames_feedSwitch, silent]
    exact List.append_nil _
  refine ⟨posted, delivering.sums.congr same.aggEpsn same.aggBuffer, ?_, ?_,
    delivering.answering⟩
  · exact fun other bound =>
      (delivering.uploaded other bound).congr ⟨rfl, rfl, rfl⟩ rfl le_rfl
  · exact fun other bound =>
      (delivering.answered other bound).congr ⟨rfl, rfl⟩ (down other) rfl rfl

theorem setHost {host : Host} (delivering : Delivering cluster system)
    (posted : Posted cluster (system.setHost rank host))
    (own : rank < cluster.hosts →
      (system.setHost rank host).Uploaded cluster rank ∧
        (system.setHost rank host).Answered cluster rank ∧
        host.Answering cluster rank) :
    Delivering cluster (system.setHost rank host) := by
  have apart (other : Nat) (different : other ≠ rank) :
      (system.setHost rank host).hosts other = system.hosts other :=
    Function.update_of_ne different ..
  refine ⟨posted, delivering.sums, ?_, ?_, ?_⟩
  all_goals
    intro other bound
    by_cases same : other = rank
  · subst same
    exact (own bound).1
  · exact (delivering.uploaded other bound).congr
      (by rw [apart other same]; exact ⟨rfl, rfl, rfl⟩) rfl le_rfl
  · subst same
    exact (own bound).2.1
  · exact (delivering.answered other bound).congr
      (by rw [apart other same]; exact ⟨rfl, rfl⟩) rfl rfl rfl
  · subst same
    rw [System.setHost_self]
    exact (own bound).2.2
  · rw [apart other same]
    exact delivering.answering other bound

theorem host {host : Host}
    (short : ∀ call ∈ cluster.program, call.len.toNat < 2 ^ 31)
    (delivering : Delivering cluster system)
    (finishes : system.Finishes cluster (.host rank))
    (posted : Posted cluster (system.setHost rank host))
    (acted : (system.hosts rank).act (cluster.job rank) .step = some host) :
    Delivering cluster (system.setHost rank host) := by
  have wired := delivering.posted.wired
  refine delivering.setHost posted fun bound => ⟨?_, ?_, ?_⟩
  · exact (delivering.uploaded rank bound).host wired bound finishes
      (posted.awaited rank bound) acted
  · exact (delivering.answered rank bound).host (wired.hosts rank)
      (posted.awaited rank bound) acted
  · exact (delivering.answering rank bound).step short (wired.hosts rank) acted

theorem sendCompletes {host : Host} (delivering : Delivering cluster system)
    (posted : Posted cluster (system.setHost rank host))
    (accepted : system.SendAccepted rank)
    (acted : (system.hosts rank).act (cluster.job rank) .sendCompletes =
      some host) :
    Delivering cluster (system.setHost rank host) := by
  obtain ⟨qp, completes, rfl⟩ := Option.map_eq_some_iff.mp acted
  obtain ⟨wr, -, rfl⟩ := Option.map_eq_some_iff.mp completes
  refine delivering.setHost posted fun bound => ⟨⟨?_, ?_, ?_⟩, ?_, ?_⟩
  · rw [System.setHost_self]
    exact accepted
  · rw [System.setHost_self]
    exact (delivering.uploaded rank bound).gone
  · exact (delivering.uploaded rank bound).words
  · exact (delivering.answered rank bound).congr
      (by rw [System.setHost_self]; exact ⟨rfl, rfl⟩) rfl rfl rfl
  · exact (delivering.answering rank bound).congr rfl rfl rfl
      fun call start _ contents => contents.congr rfl rfl rfl rfl rfl rfl

theorem transmit (delivering : Delivering cluster system)
    (present : (segments (system.hosts rank).qp.sends)[
      (system.up rank).length]? = some segment)
    (posted : Posted cluster
      { system with
        up := Function.update system.up rank
          (system.up rank ++
            [(segment, segment.packet cluster.addressing rank
              (system.up rank).length (system.hosts rank).sendPayload)]) }) :
    Delivering cluster
      { system with
        up := Function.update system.up rank
          (system.up rank ++
            [(segment, segment.packet cluster.addressing rank
              (system.up rank).length (system.hosts rank).sendPayload)]) } where
  posted := posted
  sums := delivering.sums
  uploaded := by
    intro other bound
    by_cases same : other = rank
    · subst same
      exact (delivering.uploaded other bound).transmit delivering.posted.wired
        (delivering.answering other bound) present
    · exact (delivering.uploaded other bound).congr ⟨rfl, rfl, rfl⟩
        (Function.update_of_ne same ..) le_rfl
  answered := fun other bound =>
    (delivering.answered other bound).congr ⟨rfl, rfl⟩ rfl rfl rfl
  answering := delivering.answering

theorem deliver {frame : Frame} (delivering : Delivering cluster system)
    (bound : rank < cluster.hosts)
    (present : (system.down rank)[system.delivered rank]? = some frame)
    (received : System.Received cluster system rank frame next)
    (posted : Posted cluster
      { next with
        delivered := Function.update system.delivered rank
          (system.delivered rank + 1) }) :
    Delivering cluster
      { next with
        delivered := Function.update system.delivered rank
          (system.delivered rank + 1) } := by
  have wired := delivering.posted.wired
  have delivered := (delivering.answered rank bound).deliver
    (delivering.posted.awaited rank bound) (wired.hosts rank)
    (delivering.answering rank bound) present received
  obtain ⟨switch, up, down, others⟩ := received.apart
  refine ⟨posted, ?_, ?_, ?_, ?_⟩
  · dsimp only
    rw [switch]
    exact delivering.sums
  · intro other otherBound
    obtain ⟨hosts, accepted⟩ := received.requests other
    exact (delivering.uploaded other otherBound).congr
      ⟨hosts.calls, hosts.sends, hosts.sendsDone⟩ (congrFun up other)
      accepted.ge
  · intro other otherBound
    by_cases same : other = rank
    · subst same
      exact delivered.1
    · obtain ⟨host, taken, cursor⟩ := others other same
      exact (delivering.answered other otherBound).congr
        (by dsimp only; rw [host]; exact ⟨rfl, rfl⟩)
        (by dsimp only; rw [down]) taken cursor
  · intro other otherBound
    by_cases same : other = rank
    · subst same
      exact delivered.2
    · dsimp only
      rw [(others other same).1]
      exact delivering.answering other otherBound

theorem step {event : System.Event}
    (short : ∀ call ∈ cluster.program, call.len.toNat < 2 ^ 31)
    (delivering : Delivering cluster system)
    (prepared : system.Prepared cluster event)
    (finishes : system.Finishes cluster event)
    (stepped : System.step cluster system event = some next) :
    Delivering cluster next := by
  have posted := delivering.posted.step prepared stepped
  cases System.moved_of_step stepped with
  | host bound acted => exact delivering.host short finishes posted acted
  | transmit bound present => exact delivering.transmit present posted
  | refused bound present stays =>
      exact delivering.feed (delivering.posted.fitted bound present prepared)
        (delivering.computed bound present prepared) posted fun _ => le_rfl
  | @handled rank segment packet bound present moves =>
      refine delivering.feed
        (delivering.posted.fitted bound present prepared)
        (delivering.computed bound present prepared) posted fun other => ?_
      rw [Function.update_apply]
      split_ifs with same
      · rw [same]
        exact Nat.le_succ _
      · exact le_rfl
  | sendCompletes bound accepted acted =>
      exact delivering.sendCompletes posted accepted acted
  | acknowledge bound origin opcode =>
      exact delivering.acknowledge bound origin opcode posted
  | deliver bound present received =>
      exact delivering.deliver bound present received posted

theorem init {ctx : SwitchContext} (fresh : cluster.Fresh ctx) :
    Delivering cluster (.init ctx) where
  posted := .init fresh
  sums := by
    rintro psn - ⟨⟨fast, bound, passed⟩, -⟩
    have zero : (System.init ctx).switch.aggEpsn fast = 0 :=
      fresh.ready.aggEpsn fast bound
    omega
  uploaded := by
    refine fun rank _ => ⟨Nat.le_refl 0, ?_, ?_⟩
    · intro number call k before
      exact absurd before (Nat.not_lt_zero number)
    · intro number call k sent _ _ _ found
      cases found
  answered := by
    refine fun rank _ => ⟨?_, (Nat.zero_mul mtuWords).symm, ?_⟩
    · intro number call k frame _ _ _ found
      cases found
    · intro position before
      exact absurd before (Nat.not_lt_zero _)
  answering := fun rank _ => Host.init_answering cluster rank

theorem run {ctx : SwitchContext} {events : List System.Event}
    (short : ∀ call ∈ cluster.program, call.len.toNat < 2 ^ 31)
    (fresh : cluster.Fresh ctx)
    (taken : Machine.run (System.step cluster) (.init ctx) events =
      some system)
    (fits : Meets (System.step cluster)
      (fun state event => state.Prepared cluster event ∧
        state.Finishes cluster event) (.init ctx) events) :
    Delivering cluster system :=
  run_invariant (Delivering cluster)
    (fun _ _ _ delivering met stepped =>
      delivering.step short met.1 met.2 stepped)
    (.init fresh) fits taken

end Delivering

/-- Whatever the order of steps, on buffers that the messages fit every rank keeps
to its buffers, and a call that has returned has left the sum over its senders on
each of its receivers. -/
theorem collectives_deliver (cluster : Cluster) (ctx : SwitchContext)
    (fresh : cluster.Fresh ctx) (room : cluster.MessagesFit)
    (short : ∀ call ∈ cluster.program, call.len.toNat < 2 ^ 31)
    (events : List System.Event) (system : System)
    (taken : run (System.step cluster) (.init ctx) events = some system)
    (fits : Meets (System.step cluster)
      (fun state event => state.Prepared cluster event ∧
        state.Finishes cluster event) (.init ctx) events) :
    system.Confined cluster ∧
      ∀ rank < cluster.hosts, ∀ number call,
        (system.hosts rank).stages = none →
        (system.hosts rank).calls = number + 1 →
        cluster.program[number]? = some call →
        call.collective.receives rank = true →
          ∀ index < call.len.toNat,
            (system.hosts rank).dstData index =
              ∑ sender ∈ call.collective.senders cluster.hosts,
                cluster.srcData sender number index :=
  ⟨System.confined_of_reachable room ⟨events, taken⟩, fun rank bound =>
    ((Delivering.run short fresh taken fits).answering rank bound).returned⟩

/-- A Reduce to rank 1 and a Broadcast from rank 0, each of one word. -/
def reduceAndBroadcast : Cluster :=
  .pair [⟨.reduce 1, 1⟩, ⟨.broadcast 0, 1⟩] (by decide)

def reduceRun : List System.Event :=
  List.flatten
    [controlOf 0, List.replicate 5 (.host 0), controlOf 1,
      List.replicate 7 (.host 1), uploadOf 0, uploadOf 1,
      List.replicate 9 (.deliver 1), List.replicate 4 (.host 0),
      List.replicate 6 (.host 1)]

def reduceThenBroadcastRun : List System.Event :=
  reduceRun ++ List.flatten
    [List.replicate 3 (.host 1), controlOf 0, List.replicate 5 (.host 0),
      uploadOf 0, List.replicate 4 (.deliver 1), List.replicate 4 (.host 1)]

theorem collectives_deliver_reduceThenBroadcastRun :
    (∃ system, run (System.step reduceAndBroadcast) (.init twoHosts.context)
        reduceRun = some system ∧ (system.hosts 1).dstData 0 = 14) ∧
      ∃ system, run (System.step reduceAndBroadcast) (.init twoHosts.context)
        reduceThenBroadcastRun = some system ∧
          system.Confined reduceAndBroadcast ∧
          (system.hosts 1).dstData 0 = 7 := by
  have reduced : (run (System.step reduceAndBroadcast)
      (.init twoHosts.context) reduceRun).map (fun system =>
        ((system.hosts 1).stages.isNone, (system.hosts 1).calls)) =
      some (true, 1) := by decide +kernel
  have broadcast : (run (System.step reduceAndBroadcast)
      (.init twoHosts.context) reduceThenBroadcastRun).map (fun system =>
        ((system.hosts 1).stages.isNone, (system.hosts 1).calls)) =
      some (true, 2) := by decide +kernel
  constructor
  · obtain ⟨system, taken, fields⟩ := Option.map_eq_some_iff.mp reduced
    obtain ⟨idle, calls⟩ := Prod.mk.inj fields
    refine ⟨system, taken, ?_⟩
    exact (collectives_deliver reduceAndBroadcast twoHosts.context
      Cluster.pair_fresh (by decide) (by decide) reduceRun system taken
      (by decide +kernel)).2 1 (by decide) 0 ⟨.reduce 1, 1⟩
      (Option.isNone_iff_eq_none.mp idle) calls rfl rfl 0 (by decide)
  · obtain ⟨system, taken, fields⟩ := Option.map_eq_some_iff.mp broadcast
    obtain ⟨idle, calls⟩ := Prod.mk.inj fields
    obtain ⟨confined, sums⟩ := collectives_deliver reduceAndBroadcast
      twoHosts.context Cluster.pair_fresh (by decide) (by decide)
      reduceThenBroadcastRun system taken (by decide +kernel)
    exact ⟨system, taken, confined, sums 1 (by decide) 1 ⟨.broadcast 0, 1⟩
      (Option.isNone_iff_eq_none.mp idle) calls rfl rfl 0 (by decide)⟩

end IncEmulation
