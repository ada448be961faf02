import IncEmulation.Switch.Retransmission
import IncEmulation.Switch.Sums

/-!
# Exact sums

What the slots hold along a run, and when the sums that were sent are those of
all children: every PSN once and in turn, up to the slowest child.
-/

namespace IncEmulation.Switch

open Gather Loop

/-! ## Packets that are taken -/

section Taking

variable {config : Config} {fuel : Nat} {globals next : Globals} {conn : Nat}
  {packet : Packet} {frames : List Frame} {rule : Rule} {log : List Entry}

theorem packetHandler_unknown (noSend : packet.opcode ∉ sendOpcodes)
    (noAck : packet.opcode ≠ 0x11)
    (handled : packetHandler config fuel globals conn packet =
      some (next, frames)) : next = globals ∧ frames = [] := by
  obtain ⟨rule, -, rest⟩ := Option.bind_eq_some_iff.mp handled
  rw [if_neg noSend, if_neg noAck] at rest
  cases rest
  exact ⟨rfl, rfl⟩

theorem finish_aggEpsn {input : Contribution}
    (finished : finish config fuel globals rule input = some (next, frames)) :
    next.aggEpsn = globals.aggEpsn := by
  rcases finish_cases finished with ⟨cached, -, took, covered⟩ |
    ⟨-, rfl | rfl⟩
  · obtain ⟨cleared, change, rfl⟩ := downAckCovers_spec covered
    obtain ⟨-, rfl, -⟩ := cache_eq_some took
    rw [change.frame]
  · rfl
  · rfl

theorem packetHandler_takes (isChild : conn < fanIn)
    (send : packet.opcode ∈ sendOpcodes)
    (isNext : globals.aggEpsn conn = packet.psn)
    (handled : packetHandler config fuel globals conn packet =
      some (next, frames)) :
    next.aggEpsn conn = globals.aggEpsn conn + 1 := by
  obtain ⟨rule, found, rest⟩ := Option.bind_eq_some_iff.mp handled
  obtain ⟨-, -, rfl⟩ := lookupRule_eq_some found
  have up : ¬conn = fanIn := isChild.ne
  simp only [if_pos send, ne_eq, up, not_false_eq_true, if_true] at rest
  have notLess : ¬(packet.psn : Int) < globals.aggEpsn conn := by omega
  have notMore : ¬globals.aggEpsn conn < packet.psn := by omega
  rw [upstreamData, if_neg notLess, if_neg notMore] at rest
  split at rest
  · cases rest
  · obtain ⟨⟨after, more⟩, aggregated, same⟩ :=
      Option.bind_eq_some_iff.mp rest
    cases same
    have accepted : (accept globals conn packet).aggEpsn conn =
        globals.aggEpsn conn + 1 := Function.update_self ..
    unfold aggregate at aggregated
    simp only at aggregated
    split at aggregated
    · split at aggregated
      · rw [finish_aggEpsn aggregated]
        exact accepted
      · cases aggregated
        exact accepted
    · cases aggregated
      exact accepted

theorem packetHandler_caches (isParent : conn = fanIn)
    (send : packet.opcode ∈ sendOpcodes)
    (isNext : globals.downEpsn = packet.psn)
    (handled : packetHandler config fuel globals conn packet =
      some (next, frames)) : next.downEpsn = globals.downEpsn + 1 := by
  obtain ⟨rule, found, rest⟩ := Option.bind_eq_some_iff.mp handled
  obtain ⟨-, -, rfl⟩ := lookupRule_eq_some found
  simp only [if_pos send, ne_eq, isParent, not_true_eq_false, if_false] at rest
  have notLess : ¬(packet.psn : Int) < globals.downEpsn := by omega
  have notMore : ¬globals.downEpsn < packet.psn := by omega
  rw [downstreamData, if_neg notLess, if_neg notMore] at rest
  split at rest
  · cases rest
  · obtain ⟨⟨after, more⟩, cached, same⟩ := Option.bind_eq_some_iff.mp rest
    cases same
    exact downEpsn_of_cache cached

theorem children_of_fresh (fresh : Fresh globals conn packet)
    (collecting : Collecting globals (children log)) :
    children (log ++ .received conn packet :: frames.map Entry.sent) =
      extend (children log) conn packet := by
  have own : children log conn = taken log conn := if_pos fresh.isChild
  have isNext := fresh.psn_eq collecting
  rw [count, own] at isNext
  funext other
  by_cases same : other = conn
  · subst same
    rw [children, if_pos fresh.isChild, taken_handled,
      take_received_of_next fresh.send isNext, extend, Function.update_self,
      own]
  · rw [extend, Function.update_of_ne same, children, children,
      taken_handled_of_ne (Ne.symm same)]

theorem children_of_stay (collecting : Collecting globals (children log))
    (stay : next.aggEpsn = globals.aggEpsn)
    (handled : packetHandler config fuel globals conn packet =
      some (next, frames)) :
    children (log ++ .received conn packet :: frames.map Entry.sent) =
      children log := by
  funext other
  unfold children
  split
  · rename_i isChild
    by_cases same : conn = other
    · subst same
      rw [taken_handled]
      refine if_neg ?_
      rintro ⟨-, send, isNext⟩
      have expected := collecting.expected conn isChild
      rw [count, children, if_pos isChild, ← isNext] at expected
      have grown := packetHandler_takes isChild send expected handled
      rw [stay] at grown
      omega
    · exact taken_handled_of_ne same
  · rfl

theorem taken_of_cached (isParent : conn = fanIn)
    (send : packet.opcode ∈ sendOpcodes)
    (cursor : globals.downEpsn = (taken log fanIn).length)
    (isNext : globals.downEpsn = packet.psn) :
    taken (log ++ .received conn packet :: frames.map Entry.sent) fanIn =
      taken log fanIn ++ [packet] := by
  subst isParent
  rw [taken_handled]
  exact take_received_of_next send (by omega)

theorem taken_of_stay (cursor : globals.downEpsn = (taken log fanIn).length)
    (stay : next.downEpsn = globals.downEpsn)
    (handled : packetHandler config fuel globals conn packet =
      some (next, frames)) :
    taken (log ++ .received conn packet :: frames.map Entry.sent) fanIn =
      taken log fanIn := by
  by_cases isParent : conn = fanIn
  · rw [taken_handled]
    refine if_neg ?_
    rintro ⟨-, send, isNext⟩
    have grown :=
      packetHandler_caches isParent send (by omega) handled
    omega
  · exact taken_handled_of_ne isParent

end Taking

/-! ## The slots along a run -/

section Slots

variable {config : Config} {fuel : Nat} {globals next : Globals} {conn : Nat}
  {packet : Packet} {frames : List Frame} {rule : Rule} {log : List Entry}
  {streams : Nat → List Packet} {high : Int}

theorem Collecting.covers (collecting : Collecting globals streams)
    (covered : downAckCovers fuel globals high = some next)
    (passed : ∀ i < fanIn, high < count streams i) :
    Collecting next streams := by
  obtain ⟨cleared, change, rfl⟩ := downAckCovers_spec covered
  exact (collecting.clear change passed).congr rfl rfl rfl rfl

theorem Collecting.cached {psn : Int} {data : Nat → UInt32} {len : Nat}
    {packetType : UInt8} (collecting : Collecting globals streams)
    (cached : cache globals rule psn data len packetType =
      some (next, frames)) : Collecting next streams := by
  obtain ⟨-, rfl, -⟩ := cache_eq_some cached
  exact collecting.congr rfl rfl rfl rfl

theorem Collecting.passed (collecting : Collecting globals streams)
    (fresh : Fresh globals conn packet)
    (full : (gathered config globals conn packet).aggDegree
      (idx packet.psn) = fanIn) :
    ∀ i < fanIn, packet.psn < count (extend streams conn packet) i := by
  have isNext := fresh.psn_eq collecting
  have others := (collecting.full_iff fresh).mp full
  intro i bound
  rw [count_extend, isNext]
  by_cases same : i = conn
  · rw [same, advance_self]
    omega
  · rw [advance_of_ne same]
    exact others i bound same

theorem finish_frames {input : Contribution}
    (finished : finish config fuel globals rule input = some (next, frames)) :
    (input.operationType = config.operationTypeAllreduce ∧ ∃ cached,
      cache globals rule input.psn (globals.aggBuffer (idx input.psn)).buffer
        input.len input.packetType = some (cached, frames) ∧
      downAckCovers fuel cached input.psn = some next) ∨
    (input.operationType ≠ config.operationTypeAllreduce ∧
      input.operationType = config.operationTypeReduce ∧
      next = globals.clearAgg (idx input.psn) ∧
      frames = reduceResult globals input) ∨
    (input.operationType ≠ config.operationTypeAllreduce ∧
      input.operationType ≠ config.operationTypeReduce ∧
      next = globals ∧ frames = []) := by
  by_cases isAllreduce : input.operationType = config.operationTypeAllreduce
  · rcases finish_cases finished with ⟨cached, -, took, covered⟩ |
      ⟨notAllreduce, -⟩
    · exact Or.inl ⟨isAllreduce, cached, took, covered⟩
    · exact absurd isAllreduce notAllreduce
  · unfold finish at finished
    simp only at finished
    split at finished
    · cases finished
    · split at finished
      · rename_i isReduce
        cases finished
        exact Or.inr (Or.inl ⟨isAllreduce, isReduce, rfl, rfl⟩)
      · rename_i notReduce
        cases finished
        exact Or.inr (Or.inr ⟨isAllreduce, notReduce, rfl, rfl⟩)

theorem Collecting.finish (collecting : Collecting globals streams)
    (fresh : Fresh globals conn packet)
    (full : (gathered config globals conn packet).aggDegree
      (idx packet.psn) = fanIn)
    (finished : Switch.finish config fuel
      (gathered config globals conn packet) rule
      (contributionOf config globals packet) = some (next, frames)) :
    Collecting next (extend streams conn packet) := by
  have contributed : Collecting (gathered config globals conn packet)
      (extend streams conn packet) := collecting.contribute fresh
  have passed := collecting.passed fresh full
  rcases finish_frames finished with ⟨-, cached, took, covered⟩ |
    ⟨-, -, rfl, -⟩ | ⟨-, -, rfl, -⟩
  · exact (contributed.cached took).covers covered fun i bound =>
      Int.ofNat_lt.mpr (passed i bound)
  · have stored := (@shape_gathered config globals conn packet).2.1
    exact contributed.clear (.clearAgg stored.le) fun i bound =>
      Int.ofNat_lt.mpr (passed i bound)
  · exact contributed

theorem Collecting.stays (collecting : Collecting globals (children log))
    (aggEpsn : next.aggEpsn = globals.aggEpsn)
    (handled : packetHandler config fuel globals conn packet =
      some (next, frames))
    (kept : Collecting next (children log)) :
    Collecting next (children
      (log ++ .received conn packet :: frames.map Entry.sent)) := by
  rw [children_of_stay collecting aggEpsn handled]
  exact kept

theorem aggEpsn_of_downAckCovers
    (covered : downAckCovers fuel globals high = some next) :
    next.aggEpsn = globals.aggEpsn := by
  obtain ⟨cleared, change, rfl⟩ := downAckCovers_spec covered
  have same : cleared.aggEpsn = globals.aggEpsn := by rw [change.frame]
  exact same

theorem Collecting.handled (collecting : Collecting globals (children log))
    (covers : conn = fanIn → packet.opcode = 0x11 →
      ∀ i < fanIn, packet.acknowledges < count (children log) i)
    (handled : packetHandler config fuel globals conn packet =
      some (next, frames)) :
    Collecting next (children
      (log ++ .received conn packet :: frames.map Entry.sent)) := by
  obtain ⟨rule, -, cases⟩ := packetHandler_cases handled
  cases cases with
  | replied => exact collecting.stays rfl handled collecting
  | broadcast _ _ _ cached =>
      refine collecting.stays ?_ handled (collecting.cached cached)
      obtain ⟨-, rfl, -⟩ := cache_eq_some cached
      rfl
  | waiting fresh =>
      rw [children_of_fresh fresh collecting]
      exact collecting.contribute fresh
  | uploaded fresh =>
      rw [children_of_fresh fresh collecting]
      exact collecting.contribute fresh
  | finished fresh _ full finished =>
      rw [children_of_fresh fresh collecting]
      exact collecting.finish fresh full finished
  | parentAck isParent _ isAckPacket covered =>
      have passed := covers isParent isAckPacket.opcode
      rw [isAckPacket.acknowledges_ack] at passed
      exact collecting.stays (aggEpsn_of_downAckCovers covered) handled
        (collecting.covers covered passed)
  | parentNak isParent _ isAckPacket covered =>
      have passed := covers isParent isAckPacket.opcode
      rw [isAckPacket.acknowledges_nak] at passed
      exact collecting.stays (aggEpsn_of_downAckCovers covered) handled
        (collecting.covers covered passed)
  | childAck _ _ taken =>
      obtain ⟨counted, latest, change, rfl⟩ := upstreamAck_frame taken
      have same := change.frame
      refine collecting.stays (by rw [same]) handled
        (collecting.congr ?_ ?_ ?_ ?_)
      all_goals rw [same]
  | childNak _ _ taken =>
      obtain ⟨counted, latest, change, rfl⟩ := upstreamNak_frame taken
      have same := change.frame
      refine collecting.stays (by rw [same]) handled
        (collecting.congr ?_ ?_ ?_ ?_)
      all_goals rw [same]

end Slots

/-! ## Sums that are sent -/

/-- What a connection was sent are the sums of all children, each PSN once and
in turn, up to the slowest child. -/
structure ExactSums (log : List Entry) (conn : Nat) : Prop where
  frontier : Frontier fanIn (count (children log)) (sentData log conn).length
  sums : ∀ (psn : Nat) (frame : Frame),
    (sentData log conn)[psn]? = some frame → frame.psn = psn ∧
      CarriesTotal (children log) psn frame.packetType frame.data

section Sent

variable {config : Config} {globals : Globals} {conn target psn i : Nat}
  {packet : Packet} {packetType : UInt8} {data : List UInt32}
  {log log' : List Entry} {streams : Nat → List Packet} {frame : Frame}

theorem total_extend (passed : ∀ i < fanIn, psn < count streams i) :
    total (extend streams conn packet) psn i = total streams psn i :=
  Finset.sum_congr rfl fun each member =>
    contribution_extend_of_passed (passed each (Finset.mem_range.mp member))

theorem CarriesTotal.extend
    (carries : CarriesTotal streams psn packetType data)
    (passed : ∀ i < fanIn, psn < count streams i) :
    CarriesTotal (extend streams conn packet) psn packetType data where
  words := by
    intro i word found counts
    rw [total_extend passed]
    exact carries.words i word found counts
  shape := by
    obtain ⟨each, bound, head, found, same⟩ := carries.shape
    exact ⟨each, bound, head, getElem?_extend_of_some found packet, same⟩
  metadata := by
    intro isZero
    obtain ⟨each, bound, head, found, same⟩ := carries.metadata isZero
    exact ⟨each, bound, head, getElem?_extend_of_some found packet, same⟩

theorem getElem?_words (slot : AggBuffer) :
    slot.words[i]? = if i < slot.len then some (slot.buffer i) else none := by
  rw [AggBuffer.words, List.getElem?_map]
  split
  · rename_i bound
    rw [List.getElem?_range bound]
    rfl
  · rename_i beyond
    rw [List.getElem?_eq_none (by rw [List.length_range]; omega)]
    rfl

/-- The slot of a PSN that all children have passed holds its sum. -/
theorem Collected.carriesTotal (collected : Collected globals streams psn)
    (passed : ∀ i < fanIn, psn < count streams i) :
    CarriesTotal streams psn (globals.aggBuffer (idx psn)).packetType
      (globals.aggBuffer (idx psn)).words where
  words := by
    intro i word found counts
    rw [getElem?_words] at found
    split at found
    · obtain rfl := Option.some.inj found
      rw [collected.words i counts, contributors_eq_range passed]
      rfl
    · cases found
  shape := by
    obtain ⟨each, bound, head, found, len, packetType⟩ := collected.shape
    refine ⟨each, bound, head, found, ?_, packetType⟩
    rw [AggBuffer.words, List.length_map, List.length_range, len]
  metadata := by
    intro isZero
    obtain ⟨each, bound, head, found, same⟩ := collected.metadata isZero
    refine ⟨each, bound, head, found, fun i inFront word isWord => ?_⟩
    rw [getElem?_words] at isWord
    split at isWord
    · obtain rfl := Option.some.inj isWord
      exact same i inFront
    · cases isWord

theorem Collecting.carriesTotal (collecting : Collecting globals streams)
    (fresh : Fresh globals conn packet)
    (full : (gathered config globals conn packet).aggDegree
      (idx packet.psn) = fanIn) :
    let slot := (gathered config globals conn packet).aggBuffer
      (idx packet.psn)
    CarriesTotal (extend streams conn packet) packet.psn slot.packetType
      slot.words := by
  obtain ⟨state, stored, -⟩ := @shape_gathered config globals conn packet
  have contributed : Collecting (gathered config globals conn packet)
      (extend streams conn packet) := collecting.contribute fresh
  exact (contributed.held (holds_idx state stored)).carriesTotal
    (collecting.passed fresh full)

theorem ExactSums.congr (reached : ExactSums log target)
    (sameChildren : children log' = children log)
    (sameSent : sentData log' target = sentData log target) :
    ExactSums log' target := by
  refine ⟨?_, ?_⟩
  · rw [sameChildren, sameSent]
    exact reached.frontier
  · rw [sameChildren, sameSent]
    exact reached.sums

theorem ExactSums.sent (reached : ExactSums log target)
    (found : (sentData log target)[psn]? = some frame) :
    frame.psn = psn ∧ CarriesTotal (extend (children log) conn packet) psn
      frame.packetType frame.data := by
  obtain ⟨isPsn, carries⟩ := reached.sums psn frame found
  refine ⟨isPsn, carries.extend fun i bound => ?_⟩
  have sent := (List.getElem?_eq_some_iff.mp found).1
  exact sent.trans_le (reached.frontier.le i bound)

theorem ExactSums.owed (reached : ExactSums log target)
    (owed : ¬∀ other < fanIn, other ≠ conn →
      count (children log) conn < count (children log) other)
    (grown : children log' = extend (children log) conn packet)
    (sameSent : sentData log' target = sentData log target) :
    ExactSums log' target := by
  push Not at owed
  obtain ⟨other, bound, different, waits⟩ := owed
  refine ⟨?_, ?_⟩
  · rw [grown, sameSent, count_extend]
    exact reached.frontier.advance_of_owed bound different waits
  · rw [grown, sameSent]
    exact fun psn frame => reached.sent

/-- The last packet of a PSN has its sum sent. -/
theorem ExactSums.last (reached : ExactSums log target) (isChild : conn < fanIn)
    (last : ∀ other < fanIn, other ≠ conn →
      count (children log) conn < count (children log) other)
    (grown : children log' = extend (children log) conn packet)
    (sent : sentData log' target = sentData log target ++ [frame])
    (isPsn : frame.psn = count (children log) conn)
    (carries : CarriesTotal (extend (children log) conn packet)
      (count (children log) conn) frame.packetType frame.data) :
    ExactSums log' target := by
  have length := reached.frontier.eq_of_last isChild last
  refine ⟨?_, ?_⟩
  · rw [grown, sent, count_extend, List.length_append, length]
    exact Frontier.advance_of_last isChild last
  · rw [grown, sent]
    intro psn frame' found
    rw [List.getElem?_append] at found
    split at found
    · exact reached.sent found
    · rename_i beyond
      rw [List.getElem?_singleton] at found
      split at found
      · obtain rfl := Option.some.inj found
        obtain rfl : psn = count (children log) conn := by omega
        exact ⟨isPsn, carries⟩
      · cases found

theorem exactSums_nil : ExactSums [] conn where
  frontier := by
    have none : count (children []) = fun _ => 0 := by
      funext i
      unfold count children
      split
      · rfl
      · rfl
    rw [none]
    exact ⟨fun _ _ => le_refl 0, 0, by decide, rfl⟩
  sums := by
    intro psn frame found
    cases found

end Sent

/-! ## Events without data -/

/-- No data is taken and none is sent for the first time. -/
structure Quiet (globals next : Globals) (frames : List Frame) : Prop where
  aggEpsn : next.aggEpsn = globals.aggEpsn
  downEpsn : next.downEpsn = globals.downEpsn
  operationType : next.currentOperationType = globals.currentOperationType
  rootRank : next.currentRootRank = globals.currentRootRank
  data : ∀ target, dataTo target frames = []

section Quiet

variable {config : Config} {fuel : Nat} {globals next : Globals} {conn : Nat}
  {packet : Packet} {frames : List Frame} {rule : Rule} {log : List Entry}
  {high : Int} {target : Nat}

theorem quiet_of_replies (replies : ∀ frame ∈ frames, frame.type = .ack ∨
    frame.type = .nak) : Quiet globals globals frames := by
  refine ⟨rfl, rfl, rfl, rfl, fun target => dataTo_eq_nil ?_⟩
  intro frame member _ isData
  have reply := replies frame member
  rw [isData] at reply
  rcases reply with ack | nak
  · cases ack
  · cases nak

theorem quiet_of_downAckCovers
    (covered : downAckCovers fuel globals high = some next)
    (data : ∀ target, dataTo target frames = []) :
    Quiet globals next frames := by
  have aggEpsn := aggEpsn_of_downAckCovers covered
  obtain ⟨cleared, change, rfl⟩ := downAckCovers_spec covered
  have same := change.frame
  refine ⟨aggEpsn, ?_, ?_, ?_, data⟩
  all_goals rw [same]

theorem dataTo_resent {start : Int}
    (returned : iterate (resendRound globals rule) fuel (start, []) =
      some frames) (target : Nat) : dataTo target frames = [] := by
  refine dataTo_eq_nil fun frame member _ isData => ?_
  obtain ⟨psn, -, -, rfl⟩ := (mem_resent_iff returned frame).mp member
  cases isData

theorem quiet_of_upstreamAck
    (taken : upstreamAck fuel globals conn high = some next) :
    Quiet globals next [] := by
  obtain ⟨counted, latest, change, rfl⟩ := upstreamAck_frame taken
  have same := change.frame
  refine ⟨?_, change.downEpsn, ?_, ?_, fun _ => rfl⟩
  all_goals rw [same]

theorem quiet_of_upstreamNak {psn : Int}
    (taken : upstreamNak fuel globals conn rule psn = some next) :
    Quiet globals next [] := by
  obtain ⟨counted, latest, change, rfl⟩ := upstreamNak_frame taken
  have same := change.frame
  refine ⟨?_, change.downEpsn, ?_, ?_, fun _ => rfl⟩
  all_goals rw [same]

theorem Quiet.sentData (quiet : Quiet globals next frames) :
    Switch.sentData (log ++ .received conn packet :: frames.map Entry.sent)
      target = Switch.sentData log target := by
  rw [sentData_handled, quiet.data, List.append_nil]

theorem dataTo_ack_append {psn : Int} {target : Nat} :
    dataTo target (forwarding rule psn .ack [] 0x11 ++ frames) =
      dataTo target frames := by
  rw [dataTo_append, dataTo_reply (by decide), List.nil_append]

/-- Frames that are sent again change nothing in what was sent first. -/
theorem sentData_retransmit {log : List Entry} {job : Job} {target : Nat} :
    sentData (log ++ (retransmit globals job.rule job.psn).map Entry.sent)
      target = sentData log target := by
  have single : PacketType.dataSingle ≠ .data := by decide
  have none : dataTo target (retransmit globals job.rule job.psn) = [] :=
    dataTo_reply single
  rw [sentData_append_sent, none, List.append_nil]

theorem children_append_sent {log : List Entry} :
    children (log ++ frames.map Entry.sent) = children log := by
  funext conn
  unfold children
  rw [taken_append_sent]

end Quiet

end IncEmulation.Switch
