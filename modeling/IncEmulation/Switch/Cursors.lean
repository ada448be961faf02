import IncEmulation.Switch.Record

/-!
# Arrivals and acknowledgements

The degree of an aggregation slot is the number of children whose packet is in
it, and the cursors `latest_ack` and `down_ack` say what the peers have
acknowledged in the record.
-/

namespace IncEmulation.Switch

open Tally

/-- The degree of a slot is the number of children that have arrived. -/
def Arrived (globals : Globals) : Prop :=
  ∀ slot, InRing slot → globals.aggDegree slot =
    tally fanIn fun i => globals.arrivalState i slot

/-- The cursors are those of the record. -/
structure Acks (config : Config) (globals : Globals) (log : List Entry) :
    Prop where
  child : ∀ i < fanIn, ∀ psn, 0 ≤ psn →
    (AcknowledgedBy log i psn ↔ psn ≤ globals.latestAck i)
  parent : config.root = false → ∀ psn, 0 ≤ psn →
    (AcknowledgedBy log fanIn psn ↔ psn ≤ globals.downAck)

/-! ## What an acknowledgement from a child leaves alone -/

section Frame

variable {globals next : Globals} {id fuel : Nat} {high psn : Int}
  {rule : Rule}

theorem upstreamAck_frame
    (taken : upstreamAck fuel globals id high = some next) :
    ∃ counted latest, AckChange globals counted ∧
      next = { counted with latestAck := latest } := by
  unfold upstreamAck at taken
  split at taken
  · obtain ⟨counted, returned, rfl⟩ := Option.map_eq_some_iff.mp taken
    exact ⟨counted, _, (AckChange.mark _ _ _).trans (ackRound_change returned),
      rfl⟩
  · obtain rfl := Option.some.inj taken
    exact ⟨globals, globals.latestAck, .refl globals, rfl⟩

theorem nakCovers_frame
    (taken : nakCovers fuel globals id high = some next) :
    ∃ counted latest, AckChange globals counted ∧
      next = { counted with latestAck := latest } := by
  unfold nakCovers at taken
  split at taken
  · obtain ⟨counted, returned, rfl⟩ := Option.map_eq_some_iff.mp taken
    exact ⟨counted, _, nakRound_change returned, rfl⟩
  · obtain rfl := Option.some.inj taken
    exact ⟨globals, globals.latestAck, .refl globals, rfl⟩

theorem upstreamNak_frame
    (taken : upstreamNak fuel globals id rule psn = some next) :
    ∃ counted latest, AckChange globals counted ∧
      next = { counted with
        latestAck := latest
        reRule := Function.update globals.reRule id rule
        rePsn := Function.update globals.rePsn id psn
        queue := globals.queue ++ [id] } := by
  obtain ⟨covered, took, rfl⟩ := Option.map_eq_some_iff.mp taken
  obtain ⟨counted, latest, change, rfl⟩ := nakCovers_frame took
  have reRule : counted.reRule = globals.reRule := by rw [change.frame]
  have rePsn : counted.rePsn = globals.rePsn := by rw [change.frame]
  have queue : counted.queue = globals.queue := by rw [change.frame]
  exact ⟨counted, latest, change, by simp only [reRule, rePsn, queue]⟩

/-- The aggregation side of a state. -/
structure SameAggregation (globals next : Globals) : Prop where
  arrivalState : next.arrivalState = globals.arrivalState
  aggBuffer : next.aggBuffer = globals.aggBuffer
  aggDegree : next.aggDegree = globals.aggDegree
  downAck : next.downAck = globals.downAck

theorem AckChange.sameAggregation (change : AckChange globals next) :
    SameAggregation globals next := by
  rw [change.frame]
  exact ⟨rfl, rfl, rfl, rfl⟩

theorem sameAggregation_of_upstreamAck
    (taken : upstreamAck fuel globals id high = some next) :
    SameAggregation globals next := by
  obtain ⟨counted, latest, change, rfl⟩ := upstreamAck_frame taken
  obtain ⟨arrival, buffer, degree, ack⟩ := change.sameAggregation
  exact ⟨arrival, buffer, degree, ack⟩

theorem sameAggregation_of_upstreamNak
    (taken : upstreamNak fuel globals id rule psn = some next) :
    SameAggregation globals next := by
  obtain ⟨counted, latest, change, rfl⟩ := upstreamNak_frame taken
  obtain ⟨arrival, buffer, degree, ack⟩ := change.sameAggregation
  exact ⟨arrival, buffer, degree, ack⟩

end Frame

/-! ## Arrivals -/

section Arrivals

variable {config : Config} {globals next : Globals} {conn fuel : Nat}
  {high : Int} {packet : Packet} {rule : Rule} {frames : List Frame}

theorem Arrived.congr (arrived : Arrived globals)
    (same : SameAggregation globals next) : Arrived next := by
  unfold Arrived
  rw [same.aggDegree, same.arrivalState]
  exact arrived

theorem Arrived.clear (arrived : Arrived globals)
    (change : ClearChange globals high next) : Arrived next := by
  intro slot inside
  rcases change.slots slot with ⟨-, degree, arrival⟩ |
    ⟨-, degree, arrival, -⟩
  · rw [degree, arrived slot inside]
    exact tally_congr fun i _ => (arrival i).symm
  · rw [degree]
    exact (tally_of_unmarked arrival).symm

theorem Arrived.downAckCovers (arrived : Arrived globals)
    (covered : downAckCovers fuel globals high = some next) :
    Arrived next := by
  obtain ⟨cleared, change, rfl⟩ := downAckCovers_spec covered
  have arrived' : Arrived cleared := arrived.clear change
  exact arrived'

theorem arrivalState_gathered (slot : Int) :
    (fun i => (gathered config globals conn packet).arrivalState i slot) =
      if slot = idx packet.psn then
        Function.update (fun i => globals.arrivalState i slot) conn true
      else
        fun i => globals.arrivalState i slot := by
  by_cases isOwn : slot = idx packet.psn
  · rw [if_pos isOwn]
    funext i
    by_cases same : i = conn
    · simp [gathered, gather, accept, isOwn, same]
    · simp [gathered, gather, accept, isOwn, same]
  · rw [if_neg isOwn]
    funext i
    simp [gathered, gather, accept, isOwn]

theorem aggDegree_gathered :
    (gathered config globals conn packet).aggDegree =
      Function.update globals.aggDegree (idx packet.psn)
        (globals.aggDegree (idx packet.psn) + 1) := rfl

theorem Arrived.contribute (arrived : Arrived globals)
    (fresh : Fresh globals conn packet) :
    Arrived (gathered config globals conn packet) := by
  intro slot inside
  rw [arrivalState_gathered, aggDegree_gathered]
  by_cases isOwn : slot = idx packet.psn
  · subst isOwn
    rw [if_pos rfl, Function.update_self, arrived _ inside]
    exact (tally_update fresh.isChild fresh.first).symm
  · rw [if_neg isOwn, Function.update_of_ne isOwn]
    exact arrived slot inside

theorem Arrived.not_full (arrived : Arrived globals)
    (fresh : Fresh globals conn packet) :
    globals.aggDegree (idx packet.psn) ≠ fanIn := by
  rw [arrived _ (inRing_idx (Int.natCast_nonneg _))]
  exact (tally_lt_of_missing fresh.isChild fresh.first).ne

theorem sameAggregation_of_cache {psn : Int} {data : Nat → UInt32} {len : Nat}
    {packetType : UInt8}
    (cached : cache globals rule psn data len packetType =
      some (next, frames)) : SameAggregation globals next := by
  obtain ⟨-, rfl, -⟩ := cache_eq_some cached
  exact ⟨rfl, rfl, rfl, rfl⟩

theorem Arrived.handled (arrived : Arrived globals)
    (allreduce : Fresh globals conn packet →
      (operationOf config globals packet).1 =
        config.operationTypeAllreduce)
    (handled : Handled config fuel globals conn rule packet next frames) :
    Arrived next := by
  cases handled with
  | replied => exact arrived
  | broadcast _ _ _ cached =>
      exact arrived.congr (sameAggregation_of_cache cached)
  | waiting fresh => exact arrived.contribute fresh
  | uploaded fresh => exact arrived.contribute fresh
  | finished fresh _ _ finished =>
      rcases finish_cases finished with ⟨cached, -, took, covered⟩ |
        ⟨notAllreduce, -⟩
      · exact ((arrived.contribute fresh).congr
          (sameAggregation_of_cache took)).downAckCovers covered
      · exact absurd (allreduce fresh) notAllreduce
  | parentAck _ _ _ covered => exact arrived.downAckCovers covered
  | parentNak _ _ _ covered => exact arrived.downAckCovers covered
  | childAck _ _ taken =>
      exact arrived.congr (sameAggregation_of_upstreamAck taken)
  | childNak _ _ taken =>
      exact arrived.congr (sameAggregation_of_upstreamNak taken)

end Arrivals

/-! ## Cursors -/

section Cursors

variable {config : Config} {globals next : Globals} {conn fuel : Nat}
  {high : Int} {packet : Packet} {rule : Rule} {frames : List Frame}
  {log : List Entry}

theorem downAck_of_downAckCovers
    (covered : downAckCovers fuel globals high = some next) :
    next.downAck = max globals.downAck high := by
  obtain ⟨cleared, -, rfl⟩ := downAckCovers_spec covered
  rfl

theorem latestAck_of_cache {psn : Int} {data : Nat → UInt32} {len : Nat}
    {packetType : UInt8}
    (cached : cache globals rule psn data len packetType =
      some (next, frames)) : next.latestAck = globals.latestAck := by
  obtain ⟨-, rfl, -⟩ := cache_eq_some cached
  rfl

theorem Handled.latestAck (settled : globals.Settled)
    (handled : Handled config fuel globals conn rule packet next frames)
    (sent : conn < fanIn → packet.opcode = 0x11 →
      packet.acknowledges < globals.downEpsn) {i : Nat} (isChild : i < fanIn) :
    next.latestAck i =
      if i = conn ∧ packet.opcode = 0x11 then
        max (globals.latestAck i) packet.acknowledges
      else
        globals.latestAck i := by
  have ofParent : conn = fanIn → ¬(i = conn ∧ packet.opcode = 0x11) :=
    fun isParent both => by omega
  have ofData : packet.opcode ≠ 0x11 →
      ¬(i = conn ∧ packet.opcode = 0x11) := fun data both => data both.2
  have ofAck : packet.opcode = 0x11 →
      TakesAck globals conn packet.acknowledges next →
        next.latestAck i =
          if i = conn ∧ packet.opcode = 0x11 then
            max (globals.latestAck i) packet.acknowledges
          else
            globals.latestAck i := by
    intro opcode takes
    rw [takes.latest]
    by_cases same : i = conn
    · rw [same, Function.update_self, if_pos ⟨rfl, opcode⟩]
    · rw [Function.update_of_ne same, if_neg fun both => same both.1]
  cases handled with
  | replied data => rw [if_neg (ofData data)]
  | broadcast isParent data _ cached =>
      rw [if_neg (ofData data), latestAck_of_cache cached]
  | waiting fresh =>
      rw [if_neg (ofData (opcode_ne_of_send fresh.send))]
      rfl
  | uploaded fresh =>
      rw [if_neg (ofData (opcode_ne_of_send fresh.send))]
      rfl
  | finished fresh _ _ finished =>
      rw [if_neg (ofData (opcode_ne_of_send fresh.send))]
      rcases finish_cases finished with ⟨cached, -, took, covered⟩ |
        ⟨-, rfl | rfl⟩
      · rw [(sameBroadcast_of_downAckCovers covered).latestAck,
          latestAck_of_cache took]
        rfl
      · rfl
      · rfl
  | parentAck isParent _ _ covered =>
      rw [if_neg (ofParent isParent),
        (sameBroadcast_of_downAckCovers covered).latestAck]
  | parentNak isParent _ _ covered =>
      rw [if_neg (ofParent isParent),
        (sameBroadcast_of_downAckCovers covered).latestAck]
  | childAck isSender isAckPacket taken =>
      have sent' := sent isSender isAckPacket.opcode
      refine ofAck isAckPacket.opcode ?_
      rw [isAckPacket.acknowledges_ack] at sent' ⊢
      exact upstreamAck_spec settled isSender sent' taken
  | childNak isSender isAckPacket taken =>
      have sent' := sent isSender isAckPacket.opcode
      refine ofAck isAckPacket.opcode ?_
      rw [isAckPacket.acknowledges_nak] at sent' ⊢
      exact upstreamNak_spec settled isSender sent' taken

theorem Handled.downAck (notRoot : config.root = false)
    (handled : Handled config fuel globals conn rule packet next frames) :
    next.downAck =
      if fanIn = conn ∧ packet.opcode = 0x11 then
        max globals.downAck packet.acknowledges
      else
        globals.downAck := by
  have ofChild : conn < fanIn → ¬(fanIn = conn ∧ packet.opcode = 0x11) :=
    fun isChild both => by omega
  cases handled with
  | replied data => rw [if_neg fun both => data both.2]
  | broadcast _ data _ cached =>
      rw [if_neg fun both => data both.2,
        (sameAggregation_of_cache cached).downAck]
  | waiting fresh =>
      rw [if_neg (ofChild fresh.isChild)]
      rfl
  | uploaded fresh =>
      rw [if_neg (ofChild fresh.isChild)]
      rfl
  | finished _ isRoot => exact Bool.noConfusion (notRoot.symm.trans isRoot)
  | parentAck isParent _ isAckPacket covered =>
      rw [if_pos ⟨isParent.symm, isAckPacket.opcode⟩,
        isAckPacket.acknowledges_ack, downAck_of_downAckCovers covered]
  | parentNak isParent _ isAckPacket covered =>
      rw [if_pos ⟨isParent.symm, isAckPacket.opcode⟩,
        isAckPacket.acknowledges_nak, downAck_of_downAckCovers covered]
  | childAck isChild _ taken =>
      rw [if_neg (ofChild isChild),
        (sameAggregation_of_upstreamAck taken).downAck]
  | childNak isChild _ taken =>
      rw [if_neg (ofChild isChild),
        (sameAggregation_of_upstreamNak taken).downAck]

theorem acknowledged_step {latest latest' : Int} {i : Nat} {psn : Int}
    (same : AcknowledgedBy log i psn ↔ psn ≤ latest)
    (taken : latest' =
      if i = conn ∧ packet.opcode = 0x11 then
        max latest packet.acknowledges
      else latest) :
    AcknowledgedBy (log ++ .received conn packet :: frames.map Entry.sent)
      i psn ↔ psn ≤ latest' := by
  rw [acknowledgedBy_handled, same, taken]
  by_cases isAckOf : i = conn ∧ packet.opcode = 0x11
  · rw [if_pos isAckOf, le_max_iff]
    simp only [isAckOf, true_and]
  · rw [if_neg isAckOf]
    constructor
    · rintro (old | ⟨sender, opcode, -⟩)
      · exact old
      · exact absurd ⟨sender, opcode⟩ isAckOf
    · exact Or.inl

theorem Acks.handled (acks : Acks config globals log)
    (settled : globals.Settled)
    (handled : Handled config fuel globals conn rule packet next frames)
    (sent : conn < fanIn → packet.opcode = 0x11 →
      packet.acknowledges < globals.downEpsn) :
    Acks config next
      (log ++ .received conn packet :: frames.map Entry.sent) where
  child := fun i isChild psn nonneg =>
    acknowledged_step (acks.child i isChild psn nonneg)
      (handled.latestAck settled sent isChild)
  parent := fun notRoot psn nonneg =>
    acknowledged_step (acks.parent notRoot psn nonneg)
      (handled.downAck notRoot)

end Cursors

end IncEmulation.Switch
