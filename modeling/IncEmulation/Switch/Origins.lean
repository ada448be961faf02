import Mathlib.Data.Int.Range
import IncEmulation.Switch.Cursors
import IncEmulation.Switch.Walks

/-!
# What the slots have in common with the record

A broadcast slot holds what the children were first sent under its PSN, and a
full aggregation slot what the parent was first sent under its own.
-/

namespace IncEmulation.Switch

open Loop

structure Down (globals : Globals) (log : List Entry) : Prop where
  sent : ∀ i < fanIn, ∀ psn, 0 ≤ psn → globals.Broadcasting psn →
    SentFirst log i psn (globals.bcastBuffer (idx psn)).packetType
      (globals.bcastBuffer (idx psn)).words
  unsent : ∀ i < fanIn, ∀ psn, globals.downEpsn ≤ psn →
    firstSent log i psn = none

structure Up (globals : Globals) (log : List Entry) : Prop where
  sent : ∀ slot, InRing slot → globals.aggDegree slot = fanIn →
    globals.downAck < (globals.aggBuffer slot).psn →
      SentFirst log fanIn (globals.aggBuffer slot).psn
        (globals.aggBuffer slot).packetType (globals.aggBuffer slot).words
  held : ∀ psn, 0 ≤ psn → firstSent log fanIn psn ≠ none →
    psn ≤ globals.downAck ∨ (globals.aggDegree (idx psn) = fanIn ∧
      (globals.aggBuffer (idx psn)).psn = psn)

/-! ## Retransmissions -/

/-- The frame that `retransmit` sends. -/
def resent (globals : Globals) (rule : Rule) (psn : Int) : Frame :=
  ⟨rule.ackConn, .dataSingle, psn,
    (globals.bcastBuffer (idx psn)).packetType,
    (globals.bcastBuffer (idx psn)).words⟩

theorem retransmit_eq (globals : Globals) (rule : Rule) (psn : Int) :
    retransmit globals rule psn = [resent globals rule psn] := rfl

/-- The walk of `re_thread` or of a NAK comes from `start` past `psn`. -/
def PassesThrough (passes : Int → Bool) (start psn : Int) : Prop :=
  ∀ other, start ≤ other → other ≤ psn → passes (idx other) = true

instance (passes : Int → Bool) (start psn : Int) :
    Decidable (PassesThrough passes start psn) :=
  inferInstanceAs (Decidable (∀ _, _ → _ → _))

section Resending

variable {globals : Globals} {rule : Rule} {start : Int} {fuel : Nat}
  {frames : List Frame}

/-- The frames of the forward walk of `down_ack_handler`. -/
theorem mem_resent_iff
    (returned : iterate (resendRound globals rule) fuel (start, []) =
      some frames) (frame : Frame) :
    frame ∈ frames ↔ ∃ psn, start ≤ psn ∧
      PassesThrough (resends globals) start psn ∧
      frame = resent globals rule psn := by
  refine iterate_invariant
    (fun walk => start ≤ walk.1 ∧
      PassesThrough (resends globals) start (walk.1 - 1) ∧
      ∀ frame, frame ∈ walk.2 ↔ ∃ psn, start ≤ psn ∧ psn < walk.1 ∧
        frame = resent globals rule psn)
    (fun frames => ∀ frame, frame ∈ frames ↔ ∃ psn, start ≤ psn ∧
      PassesThrough (resends globals) start psn ∧
      frame = resent globals rule psn) ?_ ?_ ?_ returned frame
  · rintro ⟨psn, sent⟩ next ⟨above, passed, members⟩ round
    simp only [resendRound] at round
    split at round
    · rename_i pass
      obtain rfl := Round.again.inj round
      refine ⟨by simp only; omega, ?_, ?_⟩
      · intro other above' below
        simp only at below
        by_cases isOwn : other = psn
        · rw [isOwn]
          exact pass
        · exact passed other above' (by simp only; omega)
      · intro frame
        rw [List.mem_append, members, retransmit_eq, List.mem_singleton]
        constructor
        · rintro (⟨other, above', below, same⟩ | same)
          · exact ⟨other, above', by simp only at below ⊢; omega, same⟩
          · exact ⟨psn, above, by simp only; omega, same⟩
        · rintro ⟨other, above', below, same⟩
          simp only at below
          by_cases isOwn : other = psn
          · exact Or.inr (isOwn ▸ same)
          · exact Or.inl ⟨other, above', by simp only; omega, same⟩
    · cases round
  · rintro ⟨psn, sent⟩ result ⟨above, passed, members⟩ round
    simp only [resendRound] at round
    split at round
    · cases round
    · rename_i fails
      obtain rfl := Round.stop.inj round
      intro frame
      rw [members]
      constructor
      · rintro ⟨other, above', below, same⟩
        refine ⟨other, above', fun between low high => ?_, same⟩
        exact passed between low (by simp only at below ⊢; omega)
      · rintro ⟨other, above', passes, same⟩
        refine ⟨other, above', ?_, same⟩
        by_contra beyond
        exact fails (passes psn above (not_lt.mp beyond))
  · refine ⟨le_refl start, ?_, ?_⟩
    · intro other above below
      simp only at below
      omega
    · intro frame
      simp only [List.not_mem_nil, false_iff]
      rintro ⟨psn, above, below, -⟩
      omega

/-- A walk that returns does not come round. -/
theorem lt_of_passesThrough
    (returned : iterate (resendRound globals rule) fuel (start, []) =
      some frames) (nonneg : 0 ≤ start) {psn : Int}
    (passes : PassesThrough (resends globals) start psn) :
    psn < start + N := by
  have goesUp : GoesUp (resendRound globals rule) Prod.fst (fun _ => True)
    (resends globals) := resendRound_goesUp
  by_contra beyond
  refine not_ends_of_invariant
    (fun walk : Int × List Frame => 0 ≤ walk.1) ?_ nonneg
    ⟨fuel, by rw [returned]; rfl⟩
  intro walk nonneg'
  obtain ⟨other, low, high, same⟩ :=
    exists_idx_eq nonneg (inRing_idx nonneg')
  have pass := passes other low (by omega)
  rw [same] at pass
  obtain ⟨next, round, -, above⟩ := goesUp.again walk trivial pass
  exact ⟨next, round, by omega⟩

end Resending

/-! ## Broadcasts -/

section Broadcasts

variable {config : Config} {globals next : Globals} {conn fuel : Nat}
  {psn high : Int} {packet : Packet} {rule : Rule} {frames : List Frame}
  {log rest : List Entry}

theorem ackConn_of_lookupRule (found : config.lookupRule conn = some rule) :
    rule.ackConn = conn := by
  obtain ⟨-, -, rfl⟩ := lookupRule_eq_some found
  rfl

theorem outConns_of_broadcast (found : config.lookupRule conn = some rule)
    (broadcasts : config.root = true ∨ conn = fanIn) :
    rule.outConns = List.range fanIn := by
  obtain ⟨-, -, rfl⟩ := lookupRule_eq_some found
  exact if_pos broadcasts

theorem outConns_of_upload (found : config.lookupRule conn = some rule)
    (notRoot : config.root = false) (isChild : conn < fanIn) :
    rule.outConns = [fanIn] := by
  obtain ⟨-, -, rfl⟩ := lookupRule_eq_some found
  refine if_neg ?_
  rintro (isRoot | isParent)
  · exact Bool.noConfusion (notRoot.symm.trans isRoot)
  · omega

theorem Down.keep (down : Down globals log)
    (slots : ∀ slot, next.bcastBuffer slot = globals.bcastBuffer slot ∨
      next.bcastBuffer slot = .zero)
    (downEpsn : next.downEpsn = globals.downEpsn)
    (none : ∀ i < fanIn, ∀ psn, globals.downEpsn ≤ psn →
      firstSent (log ++ rest) i psn = firstSent log i psn) :
    Down next (log ++ rest) := by
  refine ⟨?_, ?_⟩
  · intro i isChild psn nonneg holds
    rcases slots (idx psn) with same | cleared
    · unfold Globals.Broadcasting at holds
      rw [same] at holds ⊢
      exact (down.sent i isChild psn nonneg holds).append rest
    · have state := holds.1
      rw [cleared] at state
      cases state
  · intro i isChild psn above
    rw [downEpsn] at above
    rw [none i isChild psn above]
    exact down.unsent i isChild psn above

theorem Down.congr (down : Down globals log)
    (same : SameBroadcast globals next)
    (none : ∀ i < fanIn, ∀ psn, globals.downEpsn ≤ psn →
      firstSent (log ++ rest) i psn = firstSent log i psn) :
    Down next (log ++ rest) :=
  down.keep (fun slot => Or.inl (congrFun same.bcastBuffer slot))
    same.downEpsn none

theorem Down.of_same (down : Down globals log)
    (same : SameBroadcast globals next) : Down next log := by
  have kept : Down next (log ++ []) :=
    down.congr same fun i _ psn _ => by rw [List.append_nil]
  rwa [List.append_nil] at kept

theorem Down.cache {data : Nat → UInt32} {len : Nat} {packetType : UInt8}
    (down : Down globals log) (nonneg : 0 ≤ psn)
    (outConns : rule.outConns = List.range fanIn)
    (cached : cache globals rule psn data len packetType =
      some (next, frames)) :
    Down next (log ++ .received conn packet ::
      (forwarding rule packet.psn .ack [] 0x11 ++ frames).map
        Entry.sent) := by
  obtain ⟨rfl, rfl, rfl⟩ := cache_eq_some cached
  set slot := cachedSlot globals globals.downEpsn data len packetType
  have inFrames : ∀ frame ∈ forwarding rule packet.psn .ack [] 0x11 ++
      forwarding rule globals.downEpsn .data slot.words packetType,
      frame.Payload → frame.psn = globals.downEpsn ∧
        frame.packetType = packetType ∧ frame.data = slot.words := by
    intro frame member payload
    rcases List.mem_append.mp member with ack | sent
    · exact absurd payload (not_payload_of_mem_ack ack)
    · obtain ⟨other, -, rfl⟩ := List.mem_map.mp sent
      exact ⟨rfl, rfl, rfl⟩
  refine ⟨?_, ?_⟩
  · intro i isChild psn nonneg' holds
    by_cases sameSlot : idx psn = idx globals.downEpsn
    · have isNew : psn = globals.downEpsn := by
        have stored := holds.2
        simp only [sameSlot, Function.update_self] at stored
        exact stored.symm
      subst isNew
      simp only [Function.update_self]
      refine SentFirst.of_none
        (down.unsent i isChild _ (le_refl globals.downEpsn)) ?_
      have member : (⟨i, .data, globals.downEpsn, packetType, slot.words⟩ :
          Frame) ∈ forwarding rule packet.psn .ack [] 0x11 ++
            forwarding rule globals.downEpsn .data slot.words packetType := by
        refine List.mem_append_right _ (List.mem_map.mpr ⟨i, ?_, rfl⟩)
        rw [outConns]
        exact List.mem_range.mpr isChild
      exact (sentFirst_of_mem member (Or.inl rfl)
        fun other isFrame _ _ payload =>
          (inFrames other isFrame payload).2).received
    · simp only [Globals.Broadcasting, Function.update_of_ne sameSlot] at holds
      simp only [Function.update_of_ne sameSlot]
      exact (down.sent i isChild psn nonneg' holds).append _
  · intro i isChild psn above
    simp only at above
    rw [firstSent_handled_of_none]
    · exact down.unsent i isChild psn (by omega)
    · intro frame member _ samePsn payload
      have := (inFrames frame member payload).1
      omega

theorem downEpsn_of_cache {data : Nat → UInt32} {len : Nat}
    {packetType : UInt8}
    (cached : cache globals rule psn data len packetType =
      some (next, frames)) : next.downEpsn = globals.downEpsn + 1 := by
  obtain ⟨-, rfl, -⟩ := cache_eq_some cached
  rfl

/-- The payload of a packet that starts no broadcast goes to the parent. -/
theorem Handled.payload_conn (found : config.lookupRule conn = some rule)
    (allreduce : Fresh globals conn packet →
      (operationOf config globals packet).1 =
        config.operationTypeAllreduce)
    (handled : Handled config fuel globals conn rule packet next frames)
    (quiet : next.downEpsn = globals.downEpsn) {frame : Frame}
    (member : frame ∈ frames) (payload : frame.Payload) :
    frame.conn = fanIn := by
  cases handled with
  | replied _ replies =>
      exact absurd payload (not_payload_of_reply (replies frame member))
  | broadcast _ _ _ cached =>
      have := downEpsn_of_cache cached
      omega
  | waiting => exact absurd payload (not_payload_of_mem_ack member)
  | uploaded fresh notRoot =>
      rcases List.mem_append.mp member with ack | sent
      · exact absurd payload (not_payload_of_mem_ack ack)
      · obtain ⟨other, isOut, rfl⟩ := List.mem_map.mp sent
        rw [outConns_of_upload found notRoot fresh.isChild] at isOut
        exact List.mem_singleton.mp isOut
  | finished fresh _ _ finished =>
      rcases finish_cases finished with ⟨cached, -, took, covered⟩ |
        ⟨notAllreduce, -⟩
      · have grown := downEpsn_of_cache took
        rw [(sameBroadcast_of_downAckCovers covered).downEpsn, grown] at quiet
        exact absurd quiet (by simp [gathered, gather, accept])
      · exact absurd (allreduce fresh) notAllreduce
  | parentAck => exact absurd member List.not_mem_nil
  | parentNak isParent _ _ _ resent =>
      obtain ⟨psn, -, -, rfl⟩ := (mem_resent_iff resent frame).mp member
      exact (ackConn_of_lookupRule found).trans isParent
  | childAck => exact absurd member List.not_mem_nil
  | childNak => exact absurd member List.not_mem_nil

theorem Down.handled (down : Down globals log)
    (found : config.lookupRule conn = some rule)
    (allreduce : Fresh globals conn packet →
      (operationOf config globals packet).1 =
        config.operationTypeAllreduce)
    (handled : Handled config fuel globals conn rule packet next frames) :
    Down next (log ++ .received conn packet :: frames.map Entry.sent) := by
  have toParent : next.downEpsn = globals.downEpsn → ∀ i < fanIn, ∀ psn,
      globals.downEpsn ≤ psn →
        firstSent (log ++ .received conn packet :: frames.map Entry.sent)
          i psn = firstSent log i psn := by
    intro quiet i isChild psn _
    refine firstSent_handled_of_none fun frame member sameConn _ payload => ?_
    have toFanIn :=
      handled.payload_conn found allreduce quiet member payload
    omega
  have nonneg : 0 ≤ (packet.psn : Int) := Int.natCast_nonneg _
  cases handled with
  | replied => exact down.congr (.refl globals) (toParent rfl)
  | broadcast isParent _ _ cached =>
      exact down.cache nonneg
        (outConns_of_broadcast found (Or.inr isParent)) cached
  | waiting => exact down.congr sameBroadcast_gathered (toParent rfl)
  | uploaded => exact down.congr sameBroadcast_gathered (toParent rfl)
  | finished fresh isRoot _ finished =>
      rcases finish_cases finished with ⟨cached, -, took, covered⟩ |
        ⟨notAllreduce, -⟩
      · have gathered' : Down (gathered config globals conn packet) log :=
          down.of_same sameBroadcast_gathered
        exact (gathered'.cache nonneg
          (outConns_of_broadcast found (Or.inl isRoot)) took).of_same
            (sameBroadcast_of_downAckCovers covered)
      · exact absurd (allreduce fresh) notAllreduce
  | parentAck _ _ _ covered =>
      have same := sameBroadcast_of_downAckCovers covered
      exact down.congr same (toParent same.downEpsn)
  | parentNak _ _ _ covered =>
      have same := sameBroadcast_of_downAckCovers covered
      exact down.congr same (toParent same.downEpsn)
  | childAck _ _ taken =>
      obtain ⟨counted, latest, change, rfl⟩ := upstreamAck_frame taken
      exact down.keep change.slots change.downEpsn (toParent change.downEpsn)
  | childNak _ _ taken =>
      obtain ⟨counted, latest, change, rfl⟩ := upstreamNak_frame taken
      exact down.keep change.slots change.downEpsn (toParent change.downEpsn)

end Broadcasts

/-! ## Uploads -/

section Uploads

variable {config : Config} {globals next : Globals} {conn fuel : Nat}
  {psn high : Int} {packet : Packet} {rule : Rule} {frames : List Frame}
  {log rest : List Entry}

theorem Up.keep (up : Up globals log)
    (slots : ∀ slot, InRing slot →
      (next.aggBuffer slot = globals.aggBuffer slot ∧
        next.aggDegree slot = globals.aggDegree slot) ∨
      (next.aggDegree slot = 0 ∧
        (globals.aggBuffer slot).psn ≤ next.downAck))
    (downAck : globals.downAck ≤ next.downAck)
    (none : ∀ psn, 0 ≤ psn → firstSent (log ++ rest) fanIn psn ≠ none →
      firstSent log fanIn psn ≠ none) : Up next (log ++ rest) := by
  refine ⟨?_, ?_⟩
  · intro slot inside full above
    rcases slots slot inside with ⟨buffer, degree⟩ | ⟨cleared, -⟩
    · rw [buffer] at above ⊢
      rw [degree] at full
      exact (up.sent slot inside full (by omega)).append rest
    · exact absurd (cleared.symm.trans full) (by decide)
  · intro psn nonneg sent
    rcases up.held psn nonneg (none psn nonneg sent) with covered | held
    · exact Or.inl (covered.trans downAck)
    · rcases slots (idx psn) (inRing_idx nonneg) with ⟨buffer, degree⟩ |
        ⟨-, below⟩
      · right
        rw [buffer, degree]
        exact held
      · rw [held.2] at below
        exact Or.inl below

theorem Up.congr (up : Up globals log) (same : SameAggregation globals next)
    (none : ∀ psn, 0 ≤ psn → firstSent (log ++ rest) fanIn psn ≠ none →
      firstSent log fanIn psn ≠ none) : Up next (log ++ rest) :=
  up.keep (fun slot _ => Or.inl ⟨congrFun same.aggBuffer slot,
    congrFun same.aggDegree slot⟩) same.downAck.ge none

theorem Up.covers (up : Up globals log)
    (covered : downAckCovers fuel globals high = some next)
    (none : ∀ psn, 0 ≤ psn → firstSent (log ++ rest) fanIn psn ≠ none →
      firstSent log fanIn psn ≠ none) : Up next (log ++ rest) := by
  obtain ⟨cleared, change, rfl⟩ := downAckCovers_spec covered
  refine up.keep (fun slot _ => ?_) (le_max_left _ _) none
  rcases change.slots slot with ⟨buffer, degree, -⟩ | ⟨-, degree, -, below⟩
  · exact Or.inl ⟨buffer, degree⟩
  · exact Or.inr ⟨degree, le_max_of_le_right below⟩

theorem aggBuffer_gathered_of_ne {slot : Int} (apart : slot ≠ idx packet.psn) :
    (gathered config globals conn packet).aggBuffer slot =
        globals.aggBuffer slot ∧
      (gathered config globals conn packet).aggDegree slot =
        globals.aggDegree slot :=
  ⟨Function.update_of_ne apart .., Function.update_of_ne apart ..⟩

theorem psn_gathered :
    ((gathered config globals conn packet).aggBuffer (idx packet.psn)).psn =
      packet.psn := by
  simp [gathered, gather, contributionOf]

/-- A contribution to a slot that is not full before it. -/
theorem Up.contribute (up : Up globals log) (arrived : Arrived globals)
    (fresh : Fresh globals conn packet)
    (own : (gathered config globals conn packet).aggDegree (idx packet.psn) =
        fanIn →
      globals.downAck < packet.psn → firstSent log fanIn packet.psn = none →
        SentFirst rest fanIn packet.psn
          ((gathered config globals conn packet).aggBuffer
            (idx packet.psn)).packetType
          ((gathered config globals conn packet).aggBuffer
            (idx packet.psn)).words)
    (other : ∀ psn, 0 ≤ psn → firstSent rest fanIn psn ≠ none →
      psn = packet.psn ∧
        (gathered config globals conn packet).aggDegree (idx packet.psn) =
          fanIn) :
    Up (gathered config globals conn packet) (log ++ rest) := by
  have notFull := arrived.not_full fresh
  have nonneg' : 0 ≤ (packet.psn : Int) := Int.natCast_nonneg _
  refine ⟨?_, ?_⟩
  · intro slot inside full above
    by_cases isOwn : slot = idx packet.psn
    · subst isOwn
      rw [psn_gathered] at above ⊢
      have above' : globals.downAck < packet.psn := above
      have unsent : firstSent log fanIn packet.psn = none := by
        by_contra sent
        rcases up.held _ nonneg' sent with covered | held
        · omega
        · exact notFull held.1
      exact (own full above' unsent).of_none unsent
    · obtain ⟨buffer, degree⟩ := aggBuffer_gathered_of_ne isOwn
      rw [buffer] at above ⊢
      rw [degree] at full
      exact (up.sent slot inside full above).append rest
  · intro psn nonneg sent
    by_cases before : firstSent log fanIn psn = none
    · rw [firstSent_append, before, Option.none_or] at sent
      obtain ⟨rfl, full⟩ := other psn nonneg sent
      exact Or.inr ⟨full, psn_gathered⟩
    · rcases up.held psn nonneg before with covered | held
      · exact Or.inl covered
      · have apart : idx psn ≠ idx packet.psn := by
          intro sameSlot
          rw [sameSlot] at held
          exact notFull held.1
        obtain ⟨buffer, degree⟩ := aggBuffer_gathered_of_ne apart
        right
        rw [buffer, degree]
        exact held

/-- The slot is full, with a PSN that is not acknowledged up to `high`. -/
def fullAbove (globals : Globals) (high slot : Int) : Bool :=
  globals.aggDegree slot = fanIn ∧
    max globals.downAck high < (globals.aggBuffer slot).psn

/-- The NAK of the parent asks for sums that are in the broadcast slots of the
same PSNs as well. -/
def NakRepeats (globals : Globals) (packet : Packet) : Prop :=
  ∀ psn, (packet.psn : Int) ≤ psn → psn < packet.psn + N →
    PassesThrough (fullAbove globals packet.acknowledges) packet.psn psn →
      (globals.aggBuffer (idx psn)).psn = psn ∧
        (globals.bcastBuffer (idx psn)).packetType =
          (globals.aggBuffer (idx psn)).packetType ∧
        (globals.bcastBuffer (idx psn)).words =
          (globals.aggBuffer (idx psn)).words

instance (globals : Globals) (packet : Packet) :
    Decidable (NakRepeats globals packet) :=
  inferInstanceAs (Decidable (∀ _, _ → _ → _ → _))

/-- What the forward walk of a NAK passes was a full slot above `down_ack`. -/
theorem passes_iff (covered : downAckCovers fuel globals high = some next)
    {start : Int} :
    PassesThrough (resends next) start psn ↔
      PassesThrough (fullAbove globals high) start psn := by
  unfold PassesThrough fullAbove
  simp only [resends_downAckCovers covered]

theorem Up.sent_of_passes (up : Up globals log) {start : Int}
    (nonneg : 0 ≤ start) (above : start ≤ psn)
    (stored : (globals.aggBuffer (idx psn)).psn = psn)
    (passes : PassesThrough (fullAbove globals high) start psn) :
    SentFirst log fanIn psn (globals.aggBuffer (idx psn)).packetType
      (globals.aggBuffer (idx psn)).words := by
  have last := of_decide_eq_true (passes psn above (le_refl psn))
  have sent := up.sent (idx psn) (inRing_idx (by omega)) last.1 (by omega)
  rwa [stored] at sent

/-- The sum that a packet completes is sent to the parent. -/
theorem Up.uploaded (up : Up globals log) (arrived : Arrived globals)
    (fresh : Fresh globals conn packet)
    (full : (gathered config globals conn packet).aggDegree
      (idx packet.psn) = fanIn)
    (outConns : rule.outConns = [fanIn]) :
    let slot := (gathered config globals conn packet).aggBuffer
      (idx packet.psn)
    Up (gathered config globals conn packet)
      (log ++ .received conn packet ::
        (forwarding rule packet.psn .ack [] 0x11 ++
          forwarding rule packet.psn .data slot.words slot.packetType).map
            Entry.sent) := by
  intro slot
  have uploads : ∀ frame ∈ forwarding rule packet.psn .ack [] 0x11 ++
      forwarding rule packet.psn .data slot.words slot.packetType,
      frame.Payload →
        frame = ⟨fanIn, .data, packet.psn, slot.packetType, slot.words⟩ := by
    intro frame member payload
    rcases List.mem_append.mp member with ack | sent
    · exact absurd payload (not_payload_of_mem_ack ack)
    · obtain ⟨other, isOut, rfl⟩ := List.mem_map.mp sent
      rw [outConns] at isOut
      rw [List.mem_singleton.mp isOut]
  refine up.contribute arrived fresh (fun _ _ _ => ?_) ?_
  · refine SentFirst.received (sentFirst_of_mem (List.mem_append_right _
      (List.mem_map.mpr ⟨fanIn, ?_, rfl⟩)) (Or.inl rfl) ?_)
    · rw [outConns]
      exact List.mem_singleton_self fanIn
    · intro other isFrame _ _ payload
      rw [uploads other isFrame payload]
      exact ⟨rfl, rfl⟩
  · intro psn _ sent
    obtain ⟨frame, isFrame, -, samePsn, payload⟩ :=
      exists_frame_of_firstSent sent
    rw [uploads frame isFrame payload] at samePsn
    exact ⟨samePsn.symm, full⟩

/-- What a NAK has sent again was sent before. -/
theorem Up.resent (up : Up globals log)
    (covered : downAckCovers fuel globals (packet.psn - 1) = some next)
    (returned : iterate (resendRound next rule) fuel (packet.psn, []) =
      some frames)
    (isNak : IsAckPacket packet false) (repeats : NakRepeats globals packet) :
    Up next (log ++ .received conn packet :: frames.map Entry.sent) := by
  have start : 0 ≤ (packet.psn : Int) := Int.natCast_nonneg _
  refine up.covers covered fun psn nonneg sent => ?_
  rw [firstSent_append] at sent
  by_contra before
  rw [before, Option.none_or] at sent
  obtain ⟨frame, isFrame, -, samePsn, -⟩ := exists_frame_of_firstSent sent
  obtain ⟨other, above, passes, rfl⟩ :=
    (mem_resent_iff returned frame).mp isFrame
  obtain rfl : other = psn := samePsn
  have turn := lt_of_passesThrough returned start passes
  rw [passes_iff covered, ← isNak.acknowledges_nak] at passes
  have stored := (repeats other above turn passes).1
  exact (up.sent_of_passes start above stored passes).ne_none before

theorem Up.handled (up : Up globals log) (arrived : Arrived globals)
    (notRoot : config.root = false)
    (found : config.lookupRule conn = some rule)
    (repeats : conn = fanIn → IsAckPacket packet false →
      NakRepeats globals packet)
    (handled : Handled config fuel globals conn rule packet next frames) :
    Up next (log ++ .received conn packet :: frames.map Entry.sent) := by
  have quiet : (∀ frame ∈ frames, frame.Payload → frame.conn ≠ fanIn) →
      ∀ psn, 0 ≤ psn →
        firstSent (log ++ .received conn packet :: frames.map Entry.sent)
          fanIn psn ≠ none → firstSent log fanIn psn ≠ none := by
    intro notParent psn _ sent
    rwa [firstSent_handled_of_none fun frame member sameConn _ payload =>
      notParent frame member payload sameConn] at sent
  cases handled with
  | replied _ replies =>
      refine up.congr ⟨rfl, rfl, rfl, rfl⟩ (quiet ?_)
      intro frame member payload
      exact absurd payload (not_payload_of_reply (replies frame member))
  | broadcast isParent _ _ cached =>
      refine up.congr (sameAggregation_of_cache cached) (quiet ?_)
      obtain ⟨-, -, rfl⟩ := cache_eq_some cached
      intro frame member payload
      rcases List.mem_append.mp member with ack | sent
      · exact absurd payload (not_payload_of_mem_ack ack)
      · obtain ⟨other, isOut, rfl⟩ := List.mem_map.mp sent
        rw [outConns_of_broadcast found (Or.inr isParent)] at isOut
        exact (List.mem_range.mp isOut).ne
  | waiting fresh notFull =>
      refine up.contribute arrived fresh (fun full => absurd full notFull) ?_
      intro psn _ sent
      obtain ⟨frame, member, -, -, payload⟩ := exists_frame_of_firstSent sent
      exact absurd payload (not_payload_of_mem_ack member)
  | uploaded fresh _ full =>
      exact up.uploaded arrived fresh full
        (outConns_of_upload found notRoot fresh.isChild)
  | finished _ isRoot => exact Bool.noConfusion (notRoot.symm.trans isRoot)
  | parentAck _ _ _ covered =>
      refine up.covers covered (quiet ?_)
      exact fun frame member => absurd member List.not_mem_nil
  | parentNak isParent _ isAckPacket covered resent =>
      exact up.resent covered resent isAckPacket
        (repeats isParent isAckPacket)
  | childAck _ _ taken =>
      refine up.congr (sameAggregation_of_upstreamAck taken) (quiet ?_)
      exact fun frame member => absurd member List.not_mem_nil
  | childNak _ _ taken =>
      refine up.congr (sameAggregation_of_upstreamNak taken) (quiet ?_)
      exact fun frame member => absurd member List.not_mem_nil

end Uploads

end IncEmulation.Switch
