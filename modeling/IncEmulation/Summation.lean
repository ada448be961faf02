import IncEmulation.Delivery
import IncEmulation.ProgramSchedule

/-!
# A program of AllReduces from end to end

Ranks, network and switch together, in any order of their steps.  The switch
works through the schedule of the program, every rank has got the results in
order, and a call that has returned has left the sums over all ranks.  That the
slots suffice rests on the windows of the ranks: a rank posts a message only
when all but one of those before it have come back.
-/

namespace IncEmulation

open Gather Machine

namespace Cluster

/-- Word `position` of the messages every rank gets back from a call. -/
def resultWord (cluster : Cluster) (number position : Nat) : Word :=
  htonl (∑ conn ∈ Finset.range cluster.hosts,
    ntohl (cluster.word conn number position))

variable {cluster : Cluster} {rank number k : Nat} {call : Call}

theorem word_eq (current : cluster.program[number]? = some call)
    (conn position : Nat) :
    cluster.word conn number position =
      (cluster.job conn).sentWord number call position := by
  simp only [word, current, Option.elim_some]

theorem AllReduces.resultFrame_data (allReduces : cluster.AllReduces)
    (current : cluster.program[number]? = some call)
    (inCall : k < 4 * call.messageNum) (rank : Nat) :
    (cluster.resultFrame rank (cluster.start number + 1 + k)).data =
      (List.range mtuWords).map fun index =>
        cluster.resultWord number (k * mtuWords + index) := by
  have length : cluster.schedule.length (cluster.start number + 1 + k) =
      mtuWords := rfl
  rw [resultFrame, Schedule.sum, length]
  apply List.map_congr_left
  intro index _
  rw [resultWord]
  congr 1
  apply Finset.sum_congr rfl
  intro conn _
  rw [allReduces.value_data current inCall, word_eq current]

theorem resultWord_eq (current : cluster.program[number]? = some call)
    {index : Nat} (inside : index < call.len.toNat) :
    ntohl (cluster.resultWord number index) =
      ∑ conn ∈ Finset.range cluster.hosts,
        cluster.srcData conn number index := by
  rw [resultWord, ntohl_htonl]
  apply Finset.sum_congr rfl
  intro conn _
  rw [word_eq current, Job.sentWord, if_pos inside, ntohl_htonl]
  rfl

end Cluster

namespace Host

/-- What the calls of a rank have made of what it has received. -/
structure Computing (cluster : Cluster) (rank : Nat) (host : Host) :
    Prop where
  running : ∀ stages call, host.stages = some stages →
    cluster.program[host.calls]? = some call →
      ∃ start : Host, start.calls = host.calls ∧
        start.qp.receivesDone = cluster.messagesBefore host.calls ∧
        host.Contents (cluster.job rank) call start
          (cluster.resultWord host.calls)
  returned : ∀ number call, host.stages = none → host.calls = number + 1 →
    cluster.program[number]? = some call → ∀ index < call.len.toNat,
      host.dstData index = ∑ conn ∈ Finset.range cluster.hosts,
        cluster.srcData conn number index

variable {cluster : Cluster} {rank : Nat} {host next : Host}

theorem Computing.congr (computing : host.Computing cluster rank)
    (calls : next.calls = host.calls) (stages : next.stages = host.stages)
    (dstData : next.dstData = host.dstData)
    (contents : ∀ (call : Call) (start : Host),
      start.qp.receivesDone = cluster.messagesBefore host.calls →
        host.Contents (cluster.job rank) call start
            (cluster.resultWord host.calls) →
          next.Contents (cluster.job rank) call start
            (cluster.resultWord host.calls)) :
    next.Computing cluster rank where
  running := by
    intro left call running current
    rw [stages] at running
    rw [calls] at current ⊢
    obtain ⟨start, same, before, held⟩ :=
      computing.running left call running current
    exact ⟨start, same, before, contents call start before held⟩
  returned := by
    intro number call idle ended
    rw [stages] at idle
    rw [calls] at ended
    rw [dstData]
    exact computing.returned number call idle ended

theorem Computing.step (allReduces : cluster.AllReduces)
    (short : ∀ call ∈ cluster.program, call.len.toNat < 2 ^ 31)
    (invariant : host.Invariant (cluster.job rank))
    (computing : host.Computing cluster rank)
    (stepped : host.step (cluster.job rank) = some next) :
    next.Computing cluster rank := by
  have receives := allReduces.length_receivesBefore rank host.calls
  cases invariant.moved_of_step stepped with
  | @enter _ idle _ =>
      have between := invariant.between idle
      have least := between.delivered.receives.le
      have most := between.delivered.receivesDone_le
      rw [between.receives] at most
      have settled : host.qp.receivesDone =
          cluster.messagesBefore host.calls := by
        omega
      refine ⟨fun stages own running ownCurrent => ?_, fun _ _ more => ?_⟩
      · exact ⟨host, rfl, settled, .enter rfl rfl _⟩
      · cases more
  | @leave call ended current inside =>
      obtain ⟨start, -, -, contents⟩ := computing.running [] call ended current
      have counters := inside.counters
      rw [allReduces.receives current] at counters
      have all := counters.received rfl (by decide)
      refine ⟨fun _ _ more => ?_, fun number own _ same ownCurrent index within => ?_⟩
      · cases more
      · obtain rfl : host.calls = number := Nat.succ.inj same
        obtain rfl := Option.some.inj (current.symm.trans ownCurrent)
        have messages := call.messageNum_spec
        have message : index / payloadCount < call.messageNum := by
          apply (Nat.div_lt_iff_lt_mul (by decide)).mpr
          omega
        have unpacked := contents.unpacked index
        rw [Int.toNat_natCast, if_pos ⟨by omega, by omega, by omega⟩,
          Cluster.resultWord_eq current within] at unpacked
        exact unpacked
  | @round call _ _ running current inside =>
      obtain ⟨start, calls, before, contents⟩ :=
        computing.running _ call running current
      have continues := inside.round running
      obtain ⟨later, left, -⟩ := continues.inside
      refine ⟨fun stages own more ownCurrent => ?_, fun _ _ idle => ?_⟩
      · rw [continues.calls] at ownCurrent ⊢
        obtain rfl := Option.some.inj (current.symm.trans ownCurrent)
        refine ⟨start, calls, before, ?_⟩
        exact contents.round (short call (List.mem_of_getElem? current)) inside
          calls.symm (by omega)
      · rw [left] at idle
        cases idle

end Host

namespace System

/-- How far the NIC of a rank has come with the results of the switch. -/
structure Receiving (cluster : Cluster) (system : System) (rank : Nat) : Prop
    extends system.Taking rank where
  cursor : system.cursor rank = system.received rank % 4 * mtuWords
  arrived : ∀ position,
    4 * cluster.messagesBefore (system.hosts rank).calls +
        position / mtuWords < system.received rank →
      (system.hosts rank).receivePayload position =
        cluster.resultWord (system.hosts rank).calls position

/-- The next frame for a rank, and the call it belongs to. -/
structure Due (cluster : Cluster) (system : System) (rank : Nat)
    (call : Call) (k : Nat) (frame : Frame) : Prop where
  current : cluster.program[(system.hosts rank).calls]? = some call
  inCall : k < 4 * call.messageNum
  received : system.received rank =
    4 * cluster.messagesBefore (system.hosts rank).calls + k
  frame_eq : frame = cluster.resultFrame rank
    (cluster.start (system.hosts rank).calls + 1 + k)
  posted : (system.hosts rank).qp.receives[
    (system.hosts rank).qp.receivesDone]? =
      some ⟨k / 4, k / 4 * payloadCount, payloadCount,
        (system.hosts rank).calls⟩

variable {cluster : Cluster} {system next : System} {rank frontier : Nat}
  {frame : Frame}

/-- A result belongs to the running call, which has posted its receive. -/
theorem Receiving.due (allReduces : cluster.AllReduces)
    (receiving : system.Receiving cluster rank) (bound : rank < cluster.hosts)
    (invariant : (system.hosts rank).Invariant (cluster.job rank))
    (frames : dataFrames (system.down rank) = cluster.resultsTo rank frontier)
    (posted : frontier ≤ (segments (system.hosts rank).qp.sends).length)
    (present : (system.down rank)[system.delivered rank]? = some frame)
    (data : frame.type = .data) :
    ∃ call k, system.Due cluster rank call k frame := by
  have next := receiving.inTurn present data
  rw [frames] at next
  obtain ⟨number, call, k, current, inCall, place, passed, same⟩ :=
    allReduces.exists_of_resultsTo bound next
  have done := receiving.receivesDone
  obtain ⟨rfl, stages, running, inside, sent⟩ :=
    allReduces.running_of_unreceived invariant current inCall
      (passed.trans_le posted) (by omega)
  refine ⟨call, k, current, inCall, place, same, ?_⟩
  have all := (allReduces.sendNum_le current inside).2.2.2 (by omega)
  have length := allReduces.length_receivesBefore rank
    (system.hosts rank).calls
  have receives := inside.length_receives (allReduces.receives current _)
  rw [all, length] at receives
  have place : (system.hosts rank).qp.receivesDone =
      ((cluster.job rank).receivesBefore (system.hosts rank).calls).length +
        k / 4 := by
    omega
  obtain ⟨wr, found⟩ : ∃ wr, (system.hosts rank).qp.receives[
      (system.hosts rank).qp.receivesDone]? = some wr :=
    ⟨_, List.getElem?_eq_getElem (by omega)⟩
  rw [found]
  rw [place] at found
  obtain ⟨rfl, -⟩ := inside.receive_eq found
  rfl

/-- A frame that is due is never dropped. -/
theorem Due.stored {call : Call} {k : Nat} (allReduces : cluster.AllReduces)
    (due : system.Due cluster rank call k frame)
    (receiving : system.Receiving cluster rank) (data : frame.type = .data)
    (received : Received cluster system rank frame next) :
    ∃ host, next = system.accept rank frame host ∧
      (system.hosts rank).Stored host (k * mtuWords) frame.data ∧
      host.qp.receivesDone = (system.received rank + 1) / 4 ∧
      (frame.endsMessage = true ↔ k % 4 = 3) := by
  have ends := allReduces.endsMessage_iff due.current due.inCall rank
  have psn : frame.psn = system.received rank := by
    rw [due.frame_eq, due.received]
    exact allReduces.dataBefore_data due.current due.inCall.le
  rw [← due.frame_eq] at ends
  have place := due.received
  have address : k / 4 * payloadCount + system.cursor rank = k * mtuWords := by
    rw [receiving.cursor, payloadCount, mtuWords]
    omega
  obtain ⟨host, same, stored, counted⟩ := received.taken due.posted data psn
  rw [address] at stored
  refine ⟨host, same, stored, ?_, ends⟩
  exact receiving.toTaking.counted (ends.trans (by omega)) counted

theorem Receiving.congr (receiving : system.Receiving cluster rank)
    (hosts : (next.hosts rank).calls = (system.hosts rank).calls ∧
      (next.hosts rank).receivePayload =
        (system.hosts rank).receivePayload ∧
      (next.hosts rank).qp.receivesDone =
        (system.hosts rank).qp.receivesDone)
    (down : system.down rank <+: next.down rank)
    (delivered : next.delivered rank = system.delivered rank)
    (received : next.received rank = system.received rank)
    (cursor : next.cursor rank = system.cursor rank) :
    next.Receiving cluster rank where
  toTaking := receiving.toTaking.congr hosts.2.2 down delivered received
  cursor := by
    rw [cursor, received]
    exact receiving.cursor
  arrived := by
    rw [hosts.1, hosts.2.1, received]
    exact receiving.arrived

theorem Receiving.deliver (allReduces : cluster.AllReduces)
    (receiving : system.Receiving cluster rank) (bound : rank < cluster.hosts)
    (invariant : (system.hosts rank).Invariant (cluster.job rank))
    (computing : (system.hosts rank).Computing cluster rank)
    (frames : dataFrames (system.down rank) = cluster.resultsTo rank frontier)
    (posted : frontier ≤ (segments (system.hosts rank).qp.sends).length)
    (present : (system.down rank)[system.delivered rank]? = some frame)
    (received : Received cluster system rank frame next) :
    Receiving cluster
        { next with
          delivered := Function.update system.delivered rank
            (system.delivered rank + 1) } rank ∧
      (next.hosts rank).Computing cluster rank := by
  by_cases data : frame.type = .data
  · obtain ⟨call, k, due⟩ := receiving.due allReduces bound invariant frames
      posted present data
    obtain ⟨host, rfl, stored, done, ends⟩ :=
      due.stored allReduces receiving data received
    have cursor := receiving.cursor
    have place := due.received
    have words : frame.data = (List.range mtuWords).map fun index =>
        cluster.resultWord (system.hosts rank).calls (k * mtuWords + index) := by
      rw [due.frame_eq]
      exact allReduces.resultFrame_data due.current due.inCall rank
    have arrived : ∀ position,
        4 * cluster.messagesBefore (system.hosts rank).calls +
            position / mtuWords < system.received rank + 1 →
          host.receivePayload position =
            cluster.resultWord (system.hosts rank).calls position := by
      intro position before
      rw [stored.receivePayload, words]
      apply Host.store_chunk (by decide) _ (by omega)
      exact fun earlier => receiving.arrived position (by omega)
    refine ⟨⟨receiving.toTaking.take present data done, ?_, ?_⟩, ?_⟩
    · have length : frame.data.length = mtuWords := by
        rw [words, List.length_map, List.length_range]
      dsimp only
      rw [accept_received]
      exact accept_cursor _ cursor length (ends.trans (by omega))
    · dsimp only
      rw [accept_received, accept_self, stored.calls]
      exact arrived
    · rw [accept_self]
      apply computing.congr stored.calls stored.stages stored.dstData
      intro call start before contents
      apply stored.contents contents
      intro position passed
      apply arrived
      rw [before, done] at passed
      rw [payloadCount] at passed
      rw [mtuWords]
      omega
  · obtain rfl := received.eq_of_ne_data data
    exact ⟨⟨receiving.toTaking.pass present data, receiving.cursor,
      receiving.arrived⟩, computing⟩

end System

/-- What every reachable state keeps while all calls are AllReduces: the switch
has completed the schedule up to `frontier`, and every rank has got or will get
these results. -/
structure Summing (cluster : Cluster) (frontier : Nat) (system : System) :
    Prop where
  wired : Wired cluster system
  inForce : (∀ rank < cluster.hosts, system.switch.aggEpsn rank = 0) ∨
    system.switch.InForce .allreduce
  uploads : ∀ rank < cluster.hosts, ∀ psn (sent : Segment × Packet),
    (system.up rank)[psn]? = some sent → cluster.schedule.IsAggregated psn →
      ∀ index < mtuWords,
        sent.2.data index = htonl (cluster.schedule.value rank psn index)
  aggregating : Aggregating cluster.addressing cluster.hosts cluster.schedule
    (fun _ => 0) frontier system.switch
  frames : ∀ rank < cluster.hosts,
    dataFrames (system.down rank) = cluster.resultsTo rank frontier
  receiving : ∀ rank < cluster.hosts, system.Receiving cluster rank
  computing : ∀ rank < cluster.hosts,
    (system.hosts rank).Computing cluster rank

namespace Summing

variable {cluster : Cluster} {system next : System}
  {rank other frontier psn : Nat} {segment : Segment} {packet : Packet}

theorem frontier_le (summing : Summing cluster frontier system)
    (bound : rank < cluster.hosts) : frontier ≤ (system.up rank).length :=
  (summing.aggregating.reached.le rank bound).trans
    (summing.wired.aggEpsn_le bound)

theorem received_le (summing : Summing cluster frontier system)
    (bound : rank < cluster.hosts) :
    system.received rank ≤ cluster.dataBefore frontier := by
  rw [← Cluster.length_resultsTo bound frontier, ← summing.frames rank bound]
  exact (summing.receiving rank bound).received_le

/-- A rank that has posted a data packet whose result is not complete is still
in the call of the packet. -/
theorem running (allReduces : cluster.AllReduces)
    (summing : Summing cluster frontier system) (bound : rank < cluster.hosts)
    {number k : Nat} {call : Call}
    (current : cluster.program[number]? = some call)
    (inCall : k < 4 * call.messageNum)
    (incomplete : frontier ≤ cluster.start number + 1 + k)
    (posted : cluster.start number + 1 + k <
      (segments (system.hosts rank).qp.sends).length) :
    number = (system.hosts rank).calls ∧
      ∃ stages, (system.hosts rank).stages = some stages ∧
        (system.hosts rank).Inside (cluster.job rank) call stages ∧
        k < 4 * (system.hosts rank).locals.sendNum := by
  have counted := cluster.dataBefore_mono incomplete
  rw [allReduces.dataBefore_data current inCall.le] at counted
  have received := summing.received_le bound
  have done := (summing.receiving rank bound).receivesDone
  exact allReduces.running_of_unreceived (summing.wired.hosts rank) current
    inCall posted (by omega)

theorem sendNum_le (allReduces : cluster.AllReduces)
    (summing : Summing cluster frontier system) (bound : rank < cluster.hosts)
    {stages : List Stage} {call : Call}
    (current : cluster.program[(system.hosts rank).calls]? = some call)
    (inside : (system.hosts rank).Inside (cluster.job rank) call stages) :
    4 * (cluster.messagesBefore (system.hosts rank).calls +
        (system.hosts rank).locals.sendNum) ≤
      cluster.dataBefore frontier + 8 := by
  have window := (allReduces.sendNum_le current inside).2.2.1
  have arrived := inside.delivered.receives.le
  have received := summing.received_le bound
  have done := (summing.receiving rank bound).receivesDone
  rw [allReduces.length_receivesBefore] at arrived
  rw [windowMessages] at window
  omega

/-- Data packets in flight are less than two messages apart. -/
theorem window (allReduces : cluster.AllReduces)
    (summing : Summing cluster frontier system) (bound : rank < cluster.hosts)
    (otherBound : other < cluster.hosts) {later : Nat}
    (member : cluster.schedule.IsAggregated psn)
    (laterMember : cluster.schedule.IsAggregated later)
    (incomplete : frontier ≤ psn) (laterIncomplete : frontier ≤ later)
    (posted : psn < (segments (system.hosts rank).qp.sends).length)
    (laterPosted :
      later < (segments (system.hosts other).qp.sends).length) :
    later < psn + 8 := by
  obtain ⟨number, call, k, current, inCall, rfl⟩ :=
    Cluster.exists_of_aggregated member
  obtain ⟨laterNumber, laterCall, j, laterCurrent, laterInCall, rfl⟩ :=
    Cluster.exists_of_aggregated laterMember
  obtain ⟨same, stages, -, inside, sent⟩ := summing.running allReduces bound
    current inCall incomplete posted
  obtain ⟨laterSame, laterStages, -, laterInside, laterSent⟩ :=
    summing.running allReduces otherBound laterCurrent laterInCall
      laterIncomplete laterPosted
  have counted := cluster.dataBefore_mono incomplete
  rw [allReduces.dataBefore_data current inCall.le] at counted
  subst laterSame
  have ahead := summing.sendNum_le allReduces otherBound laterCurrent laterInside
  -- A rank in a later call has received all results of this one.
  have notLater : (system.hosts other).calls ≤ number := by
    by_contra before
    have passed := cluster.messagesBefore_mono
      (Nat.succ_le_of_lt (Nat.lt_of_not_le before))
    rw [Nat.succ_eq_add_one, allReduces.messagesBefore_succ current] at passed
    have received := summing.received_le otherBound
    have done := (summing.receiving other otherBound).receivesDone
    have arrived := laterInside.delivered.receives.le
    rw [allReduces.length_receivesBefore] at arrived
    omega
  rcases Nat.eq_or_lt_of_le notLater with equal | earlier
  · subst equal
    omega
  · have behind := cluster.start_mono (Nat.succ_le_of_lt earlier)
    rw [Nat.succ_eq_add_one, allReduces.start_succ laterCurrent] at behind
    omega

theorem slotFree (allReduces : cluster.AllReduces)
    (summing : Summing cluster frontier system) (bound : rank < cluster.hosts)
    (member : cluster.schedule.IsAggregated (system.switch.aggEpsn rank))
    (posted : system.switch.aggEpsn rank <
      (segments (system.hosts rank).qp.sends).length) :
    SlotFree cluster.hosts cluster.schedule.IsAggregated system.switch
      (system.switch.aggEpsn rank) := by
  rintro pending pendingMember ⟨⟨fast, fastBound, passed⟩, slow, slowBound,
    owed⟩ sameSlot
  have least := summing.aggregating.reached.le rank bound
  have incomplete := (summing.aggregating.reached.le slow slowBound).trans owed
  have sent : pending < (segments (system.hosts fast).qp.sends).length :=
    passed.trans_le (summing.wired.aggEpsn_le_posted fastBound)
  have forward := summing.window allReduces fastBound bound pendingMember member
    incomplete least sent posted
  have backward := summing.window allReduces bound fastBound member
    pendingMember least incomplete posted sent
  rw [idx, idx, switchArrayLength] at sameSlot
  omega

theorem setHost {host : Host} {action : Host.Action}
    (summing : Summing cluster frontier system)
    (acted : (system.hosts rank).act (cluster.job rank) action = some host)
    (receiving : rank < cluster.hosts →
      (system.setHost rank host).Receiving cluster rank)
    (computing : rank < cluster.hosts → host.Computing cluster rank) :
    Summing cluster frontier (system.setHost rank host) where
  wired := summing.wired.setHost acted
  inForce := summing.inForce
  uploads := summing.uploads
  aggregating := summing.aggregating
  frames := summing.frames
  receiving := by
    intro other bound
    by_cases own : other = rank
    · subst own
      exact receiving bound
    · have same : (system.setHost rank host).hosts other =
          system.hosts other := by
        rw [System.setHost_hosts, Function.update_of_ne own]
      exact (summing.receiving other bound).congr (by simp only [same, and_self])
        List.prefix_rfl rfl rfl rfl
  computing := by
    intro other bound
    rw [System.setHost_hosts]
    by_cases own : other = rank
    · subst own
      rw [Function.update_self]
      exact computing bound
    · rw [Function.update_of_ne own]
      exact summing.computing other bound

theorem host {host : Host} (allReduces : cluster.AllReduces)
    (short : ∀ call ∈ cluster.program, call.len.toNat < 2 ^ 31)
    (summing : Summing cluster frontier system)
    (acted : (system.hosts rank).act (cluster.job rank) .step = some host) :
    Summing cluster frontier (system.setHost rank host) := by
  have invariant := summing.wired.hosts rank
  obtain ⟨payload, done, calls⟩ := invariant.step_receives acted
  refine summing.setHost acted (fun bound => ?_) fun bound =>
    (summing.computing rank bound).step allReduces short invariant acted
  have receiving := summing.receiving rank bound
  rcases calls with same | ⟨idle, -⟩
  · exact receiving.congr
      (by rw [System.setHost_self]; exact ⟨same, payload, done⟩)
      List.prefix_rfl rfl rfl rfl
  · -- The call has returned, and nothing of the next one has come yet.
    have all := allReduces.length_segments_between
      ((invariant.act acted).between idle)
    have grown := (segments_mono (Host.act_sends acted)).length_le
    have sent := (summing.frontier_le bound).trans
      ((summing.wired.sent_le rank).trans grown)
    rw [all] at sent
    have counted := cluster.dataBefore_mono sent
    rw [allReduces.dataBefore_start] at counted
    have received := summing.received_le bound
    refine ⟨receiving.toTaking.congr
      (by rw [System.setHost_self, done]) List.prefix_rfl rfl rfl,
      receiving.cursor, ?_⟩
    · intro position before
      rw [System.setHost_self] at before
      have early : 4 * cluster.messagesBefore host.calls +
          position / mtuWords < system.received rank := before
      have reached := (Nat.le_add_right _ _).trans_lt early
      omega

theorem sendCompletes {host : Host} (summing : Summing cluster frontier system)
    (acted : (system.hosts rank).act (cluster.job rank) .sendCompletes =
      some host) :
    Summing cluster frontier (system.setHost rank host) := by
  refine summing.setHost acted (fun bound => ?_) fun bound => ?_
  all_goals
    obtain ⟨qp, completes, rfl⟩ := Option.map_eq_some_iff.mp acted
    obtain ⟨wr, -, rfl⟩ := Option.map_eq_some_iff.mp completes
  · exact (summing.receiving rank bound).congr
      (by rw [System.setHost_self]; exact ⟨rfl, rfl, rfl⟩)
      List.prefix_rfl rfl rfl rfl
  · exact (summing.computing rank bound).congr rfl rfl rfl
      fun call start _ contents => contents.congr rfl rfl rfl rfl rfl rfl

theorem transmit (allReduces : cluster.AllReduces)
    (summing : Summing cluster frontier system)
    (present : (segments (system.hosts rank).qp.sends)[
      (system.up rank).length]? = some segment) :
    Summing cluster frontier
      { system with
        up := Function.update system.up rank
          (system.up rank ++
            [(segment, segment.packet cluster.addressing rank
              (system.up rank).length (system.hosts rank).sendPayload)]) } where
  wired := summing.wired.transmit present
  inForce := summing.inForce
  uploads := by
    intro each bound psn sent found member index inside
    dsimp only at found
    by_cases own : each = rank
    · subst own
      rw [Function.update_self] at found
      rcases Nat.lt_trichotomy psn (system.up each).length with
        old | new | beyond
      · rw [List.getElem?_append_left old] at found
        exact summing.uploads each bound psn sent found member index inside
      · subst new
        rw [List.getElem?_concat_length] at found
        obtain rfl := Option.some.inj found
        obtain ⟨number, call, k, current, inCall, place⟩ :=
          Cluster.exists_of_aggregated member
        have posted := (List.getElem?_eq_some_iff.mp present).1
        have incomplete := summing.frontier_le bound
        rw [place] at posted incomplete ⊢
        obtain ⟨rfl, stages, running, own, few⟩ := summing.running allReduces
          bound current inCall incomplete posted
        obtain ⟨start, calls, -, contents⟩ :=
          (summing.computing each bound).running stages call running current
        have streamed := getElem?_of_prefix
          (summing.wired.hosts each).segments_le_stream present
        rw [allReduces.stream_eq, place, allReduces.stream_data current inCall]
          at streamed
        obtain rfl := Option.some.inj streamed
        have prepared := (allReduces.sendNum_le current own).2.1
        have word : (k * mtuWords + index) / payloadCount <
            (system.hosts each).locals.prepared := by
          rw [payloadCount, mtuWords] at *
          omega
        have content := contents.prepared _ word
        rw [calls] at content
        rw [allReduces.value_data current inCall, htonl_ntohl, ← content,
          Job.packet_dataSegment,
          Addressing.dataPacket_data (Job.dataOpcode_plain k)]
        simp [Job.dataWords, inside]
      · rw [List.getElem?_eq_none (by simp; omega)] at found
        cases found
    · rw [Function.update_of_ne own] at found
      exact summing.uploads each bound psn sent found member index inside
  aggregating := summing.aggregating
  frames := summing.frames
  receiving := fun other bound => (summing.receiving other bound).congr
    ⟨rfl, rfl, rfl⟩ List.prefix_rfl rfl rfl rfl
  computing := summing.computing

theorem feed (summing : Summing cluster frontier system) {later : Nat}
    {accepted : Nat → Nat}
    (wired : Wired cluster
      { system.feedSwitch rank packet with accepted := accepted })
    (inForce : (∀ other < cluster.hosts,
        (packetHandler system.switch rank packet).1.aggEpsn other = 0) ∨
      (packetHandler system.switch rank packet).1.InForce .allreduce)
    (aggregating : Aggregating cluster.addressing cluster.hosts
      cluster.schedule (fun _ => 0) later
      (packetHandler system.switch rank packet).1)
    (results : cluster.schedule.results cluster.hosts (fun _ => 0) later =
      cluster.schedule.results cluster.hosts (fun _ => 0) frontier ++
        dataFrames (packetHandler system.switch rank packet).2) :
    Summing cluster later
      { system.feedSwitch rank packet with accepted := accepted } where
  wired := wired
  inForce := inForce
  uploads := summing.uploads
  aggregating := aggregating
  frames := by
    intro other bound
    have before := summing.frames other bound
    rw [Cluster.resultsTo] at before ⊢
    rw [results, List.filter_append, ← before]
    exact system.dataFrames_feedSwitch rank packet other
  receiving := fun other bound => (summing.receiving other bound).congr
    ⟨rfl, rfl, rfl⟩ (List.prefix_append _ _) rfl rfl rfl
  computing := summing.computing

theorem refused (summing : Summing cluster frontier system)
    (bound : rank < cluster.hosts)
    (present : (system.up rank)[system.accepted rank]? = some (segment, packet))
    (stays : (packetHandler system.switch rank packet).1.aggEpsn rank =
      system.switch.aggEpsn rank) :
    Summing cluster frontier (system.feedSwitch rank packet) := by
  have arriving := summing.wired.arriving bound present
  obtain ⟨same, quiet, -⟩ :=
    (summing.wired.outcome bound arriving).eq_of_stays stays
  have wired := summing.wired.feedSwitch
    (summing.wired.feedSwitch_inForce bound arriving) stays
  refine summing.feed wired ?_ ?_ ?_
  · rw [same]
    exact summing.inForce
  · rw [same]
    exact summing.aggregating
  · rw [quiet, List.append_nil]

theorem acknowledge (summing : Summing cluster frontier system)
    (bound : rank < cluster.hosts)
    (origin : packet.From cluster.addressing rank)
    (opcode : packet.opcode = rdmaOpcodeAck) :
    Summing cluster frontier (system.feedSwitch rank packet) := by
  obtain ⟨same, quiet⟩ := summing.wired.acknowledge bound origin opcode
  have wired := summing.wired.move (.acknowledge bound origin opcode)
  refine summing.feed wired ?_ (summing.aggregating.congr same) ?_
  · rw [SwitchContext.InForce, same.aggEpsn, same.operationType, same.rootRank]
    exact summing.inForce
  · rw [quiet]
    exact (List.append_nil _).symm

theorem handled_control (allReduces : cluster.AllReduces)
    (summing : Summing cluster frontier system) (bound : rank < cluster.hosts)
    {number : Nat} {call : Call} {padding : Word}
    (current : cluster.program[number]? = some call)
    (place : system.switch.aggEpsn rank = (cluster.job rank).base number)
    (same : packet = cluster.addressing.controlPacket rank
      (system.switch.aggEpsn rank) call.collective padding)
    {accepted : Nat → Nat}
    (wired : Wired cluster
      { system.feedSwitch rank packet with accepted := accepted }) :
    ∃ later, Summing cluster later
      { system.feedSwitch rank packet with accepted := accepted } := by
  have admissible : Collective.allreduce.Admissible cluster.hosts rank :=
    trivial
  have origin : packet.From cluster.addressing rank := by
    rw [same]
    exact Addressing.controlPacket_from
  have announces : packet.Announces .allreduce := by
    rw [same, allReduces.collective current]
    exact Addressing.controlPacket_announces summing.wired.deployed.fits bound
      admissible
  have handled := packetHandler_control summing.wired.deployed.toRouted bound
    origin admissible announces
  have notAggregated :
      ¬cluster.schedule.IsAggregated (system.switch.aggEpsn rank) := by
    rw [place, allReduces.base_eq, Schedule.IsAggregated,
      allReduces.not_aggregated_control current]
    exact Bool.false_ne_true
  obtain ⟨later, aggregating, results⟩ : ∃ later,
      Aggregating cluster.addressing cluster.hosts cluster.schedule
          (fun _ => 0) later
          (system.switch.afterControl .allreduce rank packet.psn) ∧
        cluster.schedule.results cluster.hosts (fun _ => 0) later =
          cluster.schedule.results cluster.hosts (fun _ => 0) frontier :=
    summing.aggregating.control bound notAggregated packet.psn
  refine ⟨later, summing.feed wired ?_ ?_ ?_⟩
  · rw [handled]
    exact .inr rfl
  · rw [handled]
    exact aggregating
  · rw [handled, results]
    exact (List.append_nil _).symm

theorem handled_data (allReduces : cluster.AllReduces)
    (fits : cluster.stream.length < 2 ^ 24)
    (summing : Summing cluster frontier system) (bound : rank < cluster.hosts)
    {number k : Nat} {call : Call} {memory : Nat → Word}
    (current : cluster.program[number]? = some call)
    (inCall : k < 4 * call.messageNum)
    (place : system.switch.aggEpsn rank =
      (cluster.job rank).base number + 1 + k)
    (present : (system.up rank)[system.switch.aggEpsn rank]? =
      some (segment, packet))
    (same : packet = cluster.addressing.dataPacket rank
      (system.switch.aggEpsn rank) (Job.dataOpcode k)
      (Job.dataWords memory k))
    {accepted : Nat → Nat}
    (wired : Wired cluster
      { system.feedSwitch rank packet with accepted := accepted }) :
    ∃ later, Summing cluster later
      { system.feedSwitch rank packet with accepted := accepted } := by
  have sent := (List.getElem?_eq_some_iff.mp present).1
  have posted := sent.trans_le (summing.wired.sent_le rank)
  have streamed := (summing.wired.hosts rank).segments_le_stream.length_le
  rw [allReduces.stream_eq] at streamed
  have plain : packet.Plain := by
    rw [same]
    exact Addressing.dataPacket_plain (Job.dataOpcode_plain k)
  have origin : packet.From cluster.addressing rank := by
    rw [same]
    exact Addressing.dataPacket_from
  rw [allReduces.base_eq] at place
  have member : cluster.schedule.IsAggregated (system.switch.aggEpsn rank) := by
    rw [place]
    exact allReduces.aggregated_data current inCall
  have inForce : system.switch.InForce .allreduce := by
    rcases summing.inForce with fresh | inForce
    · have none := fresh rank bound
      omega
    · exact inForce
  have carries : cluster.schedule.Carries rank (system.switch.aggEpsn rank)
      packet := by
    refine ⟨plain, ?_, ?_, ?_, ?_⟩
    · rw [same, Addressing.dataPacket_psn, Nat.mod_eq_of_lt (by omega)]
    · rw [same, place, allReduces.opcode_data current inCall]
      rfl
    · rw [same, Addressing.dataPacket_dataLen (Job.dataOpcode_plain k),
        Job.dataWords, List.length_map, List.length_range]
      rfl
    · exact fun index inside =>
        summing.uploads rank bound _ _ present member index inside
  obtain ⟨-, operationType, rootRank, later, aggregating, results⟩ :=
    summing.aggregating.accept bound origin member trivial rfl inForce carries
      (summing.slotFree allReduces bound member posted)
  refine ⟨later, summing.feed wired (.inr ?_) aggregating results⟩
  rw [SwitchContext.InForce, operationType, rootRank]
  exact inForce

theorem handled (allReduces : cluster.AllReduces)
    (fits : cluster.stream.length < 2 ^ 24)
    (summing : Summing cluster frontier system) (bound : rank < cluster.hosts)
    (present : (system.up rank)[system.accepted rank]? = some (segment, packet))
    (moves : (packetHandler system.switch rank packet).1.aggEpsn rank ≠
      system.switch.aggEpsn rank) :
    ∃ later, Summing cluster later
      { system.feedSwitch rank packet with
        accepted := Function.update system.accepted rank
          (system.accepted rank + 1) } := by
  have wired := summing.wired.handled bound present moves
  have arriving := summing.wired.arriving bound present
  rw [summing.wired.accepted rank bound] at present
  cases arriving with
  | control current sends place =>
      exact summing.handled_control allReduces bound current place rfl wired
  | data current sends inCall place =>
      exact summing.handled_data allReduces fits bound current inCall place
        present rfl wired

theorem deliver {frame : Frame} (allReduces : cluster.AllReduces)
    (summing : Summing cluster frontier system) (bound : rank < cluster.hosts)
    (present : (system.down rank)[system.delivered rank]? = some frame)
    (received : System.Received cluster system rank frame next) :
    Summing cluster frontier
      { next with
        delivered := Function.update system.delivered rank
          (system.delivered rank + 1) } := by
  have posted := (summing.frontier_le bound).trans (summing.wired.sent_le rank)
  obtain ⟨receiving, computing⟩ := (summing.receiving rank bound).deliver
    allReduces bound (summing.wired.hosts rank) (summing.computing rank bound)
    (summing.frames rank bound) posted present received
  have wired := summing.wired.move (.deliver bound present received)
  obtain ⟨switch, up, down, others⟩ := received.apart
  refine ⟨wired, ?_, ?_, ?_, ?_, ?_, ?_⟩
  · dsimp only
    rw [switch]
    exact summing.inForce
  · dsimp only
    rw [up]
    exact summing.uploads
  · dsimp only
    rw [switch]
    exact summing.aggregating
  · dsimp only
    rw [down]
    exact summing.frames
  · intro other otherBound
    by_cases own : other = rank
    · subst own
      exact receiving
    · obtain ⟨host, taken, cursor⟩ := others other own
      exact (summing.receiving other otherBound).congr
        (by dsimp only; rw [host]; exact ⟨rfl, rfl, rfl⟩)
        (by dsimp only; rw [down])
        (Function.update_of_ne own ..) taken cursor
  · intro other otherBound
    by_cases own : other = rank
    · subst own
      exact computing
    · dsimp only
      rw [(others other own).1]
      exact summing.computing other otherBound

theorem step {event : System.Event} (allReduces : cluster.AllReduces)
    (short : ∀ call ∈ cluster.program, call.len.toNat < 2 ^ 31)
    (fits : cluster.stream.length < 2 ^ 24)
    (summing : Summing cluster frontier system)
    (stepped : System.step cluster system event = some next) :
    ∃ later, Summing cluster later next := by
  cases System.moved_of_step stepped with
  | host bound acted => exact ⟨_, summing.host allReduces short acted⟩
  | transmit bound present => exact ⟨_, summing.transmit allReduces present⟩
  | refused bound present stays => exact ⟨_, summing.refused bound present stays⟩
  | handled bound present moves =>
      exact summing.handled allReduces fits bound present moves
  | sendCompletes bound accepted acted => exact ⟨_, summing.sendCompletes acted⟩
  | acknowledge bound origin opcode =>
      exact ⟨_, summing.acknowledge bound origin opcode⟩
  | deliver bound present received =>
      exact ⟨_, summing.deliver allReduces bound present received⟩

end Summing

end IncEmulation
