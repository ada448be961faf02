import Mathlib.Algebra.GroupWithZero.Nat
import IncEmulation.Switch.Counting
import IncEmulation.Switch.Spec

/-!
# Broadcasts and their acknowledgements over a run

As long as the children acknowledge what was broadcast, every reachable state
holds exactly the broadcasts that some child has not acknowledged, each with
the number of children that have.
-/

namespace IncEmulation.Switch

open Loop Tally

/-- Nothing that the counting of acknowledgements reads is different. -/
structure SameBroadcast (globals other : Globals) : Prop where
  rArrivalState : other.rArrivalState = globals.rArrivalState
  bcastBuffer : other.bcastBuffer = globals.bcastBuffer
  rDegree : other.rDegree = globals.rDegree
  downEpsn : other.downEpsn = globals.downEpsn
  latestAck : other.latestAck = globals.latestAck

section Preservation

variable {globals next other : Globals} {config : Config} {fuel conn id : Nat}
  {rule : Rule} {packet : Packet} {frames : List Frame} {high : Int}

theorem SameBroadcast.refl (globals : Globals) : SameBroadcast globals globals :=
  ⟨rfl, rfl, rfl, rfl, rfl⟩

theorem sameBroadcast_of_downAckCovers
    (covered : downAckCovers fuel globals high = some next) :
    SameBroadcast globals next := by
  obtain ⟨cleared, change, rfl⟩ := downAckCovers_spec covered
  rw [change.frame]
  exact ⟨rfl, rfl, rfl, rfl, rfl⟩

theorem sameBroadcast_gathered :
    SameBroadcast globals (gathered config globals conn packet) :=
  ⟨rfl, rfl, rfl, rfl, rfl⟩

theorem Globals.Settled.congr (settled : globals.Settled)
    (same : SameBroadcast globals other) : other.Settled := by
  obtain ⟨counted, marked, latest⟩ := settled
  have covers : other.covers = globals.covers := by
    unfold Globals.covers
    rw [same.latestAck]
  have holds : other.Broadcasting = globals.Broadcasting := by
    unfold Globals.Broadcasting
    rw [same.bcastBuffer]
  refine ⟨⟨?_, ?_, ?_, ?_⟩, ⟨?_, ?_⟩, ?_⟩
  · rw [covers, holds, same.rDegree, same.downEpsn]
    exact counted.counted
  · rw [covers, same.bcastBuffer, same.downEpsn]
    exact counted.waiting
  · rw [same.bcastBuffer, same.rDegree]
    exact counted.empty
  · rw [covers, same.downEpsn]
    exact counted.sent
  · rw [covers, holds, same.rArrivalState]
    exact marked.marked
  · rw [same.bcastBuffer, same.rArrivalState]
    exact marked.unmarked
  · rw [same.latestAck]
    exact latest

/-- The next broadcast starts with no acknowledgement. -/
theorem Globals.Settled.cache {psn : Int} {data : Nat → UInt32} {len : Nat}
    {packetType : UInt8} (settled : globals.Settled) (nonneg : 0 ≤ psn)
    (free : (globals.bcastBuffer (idx psn)).state = false)
    (cached : cache globals rule psn data len packetType =
      some (next, frames)) : next.Settled := by
  obtain ⟨counted, marked, latest⟩ := settled
  obtain ⟨rfl, rfl, -⟩ := cache_eq_some cached
  have unsent : ∀ i < fanIn, globals.covers i globals.downEpsn = false := by
    intro i isChild
    rw [← Bool.not_eq_true]
    intro isCovered
    exact absurd (counted.sent i isChild _ isCovered) (lt_irrefl _)
  have apart : ∀ psn, globals.Broadcasting psn →
      idx psn ≠ idx globals.downEpsn := by
    intro psn broadcasting same
    rw [← same, broadcasting.1] at free
    exact Bool.noConfusion free
  refine ⟨⟨?_, ?_, ?_, ?_⟩, ⟨?_, ?_⟩, latest⟩
  · rintro psn nonneg' sent ⟨i, isChild, uncovered⟩
    by_cases isNew : psn = globals.downEpsn
    · subst isNew
      refine ⟨⟨?_, ?_⟩, ?_⟩
      · simp [cachedSlot]
      · simp [cachedSlot]
      · rw [counted.empty _ (inRing_idx nonneg') free]
        exact (tally_of_unmarked unsent).symm
    · have before : psn < globals.downEpsn := by
        simp only at sent
        omega
      obtain ⟨broadcasting, degree⟩ :=
        counted.counted psn nonneg' before ⟨i, isChild, uncovered⟩
      refine ⟨?_, degree⟩
      simp only [Globals.Broadcasting,
        Function.update_of_ne (apart psn broadcasting)]
      exact broadcasting
  · intro slot inside used
    by_cases isNew : slot = idx globals.downEpsn
    · subst isNew
      refine ⟨globals.downEpsn, nonneg, by simp only; omega, rfl, ?_,
        0, by decide, unsent 0 (by decide)⟩
      simp [cachedSlot]
    · simp only [Function.update_of_ne isNew] at used ⊢
      obtain ⟨psn, nonneg', before, rest⟩ := counted.waiting slot inside used
      exact ⟨psn, nonneg', by omega, rest⟩
  · intro slot inside unused
    have isOld : slot ≠ idx globals.downEpsn := by
      rintro rfl
      simp [cachedSlot] at unused
    simp only [Function.update_of_ne isOld] at unused
    exact counted.empty slot inside unused
  · intro i isChild psn isCovered
    have before := counted.sent i isChild psn isCovered
    simp only
    omega
  · intro i isChild psn nonneg' holds flag
    by_cases sameSlot : idx psn = idx globals.downEpsn
    · have unflagged :=
        marked.unmarked i isChild _ (inRing_idx nonneg) free
      rw [← sameSlot] at unflagged
      exact Bool.noConfusion (flag.symm.trans unflagged)
    · simp only [Globals.Broadcasting,
        Function.update_of_ne sameSlot] at holds
      exact marked.marked i isChild psn nonneg' holds flag
  · intro i isChild slot inside unused
    have isOld : slot ≠ idx globals.downEpsn := by
      rintro rfl
      simp [cachedSlot] at unused
    simp only [Function.update_of_ne isOld] at unused
    exact marked.unmarked i isChild slot inside unused

theorem Acknowledged.settled (settled : globals.Settled)
    (above : globals.latestAck id < high) (isChild : id < fanIn)
    (acknowledged : Acknowledged globals id high next) :
    (next.setLatestAck id high).Settled := by
  obtain ⟨change, counted, marked⟩ := acknowledged
  have covers : (next.setLatestAck id high).covers =
      (globals.setLatestAck id high).covers := by
    unfold Globals.covers Globals.setLatestAck
    rw [change.latestAck]
  refine ⟨?_, ?_, ?_⟩
  · rw [covers]
    exact ⟨counted.counted, counted.waiting, counted.empty, counted.sent⟩
  · rw [covers]
    exact ⟨marked.marked, marked.unmarked⟩
  · intro i isChild'
    have latest := settled.latest i isChild'
    by_cases same : i = id
    · subst same
      simp only [Globals.setLatestAck, Function.update_self]
      omega
    · simp only [Globals.setLatestAck, Function.update_of_ne same,
        change.latestAck]
      exact latest

/-- An acknowledgement of broadcast PSNs, with the state it leaves. -/
structure TakesAck (globals : Globals) (id : Nat) (high : Int)
    (next : Globals) : Prop where
  settled : next.Settled
  latest : next.latestAck =
    Function.update globals.latestAck id (max (globals.latestAck id) high)
  downEpsn : next.downEpsn = globals.downEpsn

theorem takesAck_of_old (settled : globals.Settled)
    (old : ¬globals.latestAck id < high) : TakesAck globals id high globals := by
  refine ⟨settled, ?_, rfl⟩
  rw [max_eq_left (Int.not_lt.mp old), Function.update_eq_self]

theorem takesAck_of_walk (settled : globals.Settled) (isChild : id < fanIn)
    (above : globals.latestAck id < high)
    (acknowledged : Acknowledged globals id high next) :
    TakesAck globals id high (next.setLatestAck id high) := by
  refine ⟨acknowledged.settled settled above isChild, ?_,
    acknowledged.change.downEpsn⟩
  rw [max_eq_right above.le]
  exact congrArg (Function.update · id high) acknowledged.change.latestAck

/-- The guard of an ACK only lets an old one go. -/
theorem Globals.Settled.unacknowledged (settled : globals.Settled)
    (isChild : id < fanIn) (sent : high < globals.downEpsn)
    (above : globals.latestAck id < high) :
    globals.unacknowledged id high := by
  have start := Walking.start settled above
  refine start.unacknowledged settled isChild sent ?_
  rw [Coverage.through_self]
  exact settled.marked

theorem TakesAck.congr (takes : TakesAck globals id high next)
    (same : SameBroadcast next other) : TakesAck globals id high other :=
  ⟨takes.settled.congr same, same.latestAck.trans takes.latest,
    same.downEpsn.trans takes.downEpsn⟩

theorem upstreamAck_spec (settled : globals.Settled) (isChild : id < fanIn)
    (sent : high < globals.downEpsn)
    (taken : upstreamAck fuel globals id high = some next) :
    TakesAck globals id high next := by
  unfold upstreamAck at taken
  split at taken
  · rename_i fresh
    obtain ⟨counted, returned, rfl⟩ := Option.map_eq_some_iff.mp taken
    exact takesAck_of_walk settled isChild fresh.1
      (ackRound_walk settled isChild sent fresh.1 returned)
  · rename_i notFresh
    obtain rfl := Option.some.inj taken
    refine takesAck_of_old settled fun above => notFresh ⟨above, ?_⟩
    exact settled.unacknowledged isChild sent above

theorem nakCovers_spec (settled : globals.Settled) (isChild : id < fanIn)
    (sent : high < globals.downEpsn)
    (taken : nakCovers fuel globals id high = some next) :
    TakesAck globals id high next := by
  unfold nakCovers at taken
  split at taken
  · rename_i above
    obtain ⟨counted, returned, rfl⟩ := Option.map_eq_some_iff.mp taken
    exact takesAck_of_walk settled isChild above
      (nakRound_walk settled isChild sent above returned)
  · rename_i old
    obtain rfl := Option.some.inj taken
    exact takesAck_of_old settled old

theorem upstreamNak_spec (settled : globals.Settled) (isChild : id < fanIn)
    (sent : high - 1 < globals.downEpsn)
    (taken : upstreamNak fuel globals id rule high = some next) :
    TakesAck globals id (high - 1) next := by
  obtain ⟨counted, covered, rfl⟩ := Option.map_eq_some_iff.mp taken
  exact (nakCovers_spec settled isChild sent covered).congr
    ⟨rfl, rfl, rfl, rfl, rfl⟩

theorem upstreamAck_returns (globals : Globals) (id : Nat) (high : Int) :
    ∃ enough next, upstreamAck enough globals id high = some next := by
  by_cases above : globals.latestAck id < high
  · have marked : (globals.mark id (idx high)).latestAck id < high := above
    obtain ⟨enough, result, returned⟩ := ends_iff.mp (ackRound_ends marked)
    refine ⟨enough, ?_⟩
    unfold upstreamAck
    split
    · exact ⟨_, by rw [returned]; rfl⟩
    · exact ⟨globals, rfl⟩
  · exact ⟨0, globals, if_neg fun fresh => above fresh.1⟩

theorem upstreamNak_returns (rule : Rule) (settled : globals.Settled)
    (isChild : id < fanIn) (sent : high - 1 < globals.downEpsn) :
    ∃ enough next, upstreamNak enough globals id rule high = some next := by
  unfold upstreamNak nakCovers
  by_cases above : globals.latestAck id < high - 1
  · obtain ⟨enough, result, returned⟩ :=
      ends_iff.mp (nakRound_ends settled isChild sent above)
    exact ⟨enough, _, by rw [if_pos above, returned]; rfl⟩
  · exact ⟨0, _, by rw [if_neg above]; rfl⟩

/-- The highest PSN that a packet acknowledges. -/
def Packet.acknowledges (packet : Packet) : Int :=
  if isAck packet.synMsn then packet.psn else packet.psn - 1

theorem IsAckPacket.acknowledges_ack (isAckPacket : IsAckPacket packet true) :
    packet.acknowledges = packet.psn := by
  rw [Packet.acknowledges, isAckPacket.syndrome, if_pos rfl]

theorem IsAckPacket.acknowledges_nak (isAckPacket : IsAckPacket packet false) :
    packet.acknowledges = packet.psn - 1 := by
  rw [Packet.acknowledges, isAckPacket.syndrome, if_neg Bool.false_ne_true]

/-- Data and the acknowledgements of the parent. -/
theorem Handled.settled (settled : globals.Settled)
    (handled : Handled config fuel globals conn rule packet next frames)
    (sent : conn < fanIn → packet.opcode = 0x11 →
      packet.acknowledges < globals.downEpsn) : next.Settled := by
  cases handled with
  | replied => exact settled
  | broadcast _ _ free cached =>
      exact settled.cache (Int.natCast_nonneg _) free cached
  | waiting => exact settled.congr sameBroadcast_gathered
  | uploaded => exact settled.congr sameBroadcast_gathered
  | finished fresh isRoot full finished =>
      have settled' : (gathered config globals conn packet).Settled :=
        settled.congr sameBroadcast_gathered
      rcases finish_cases finished with ⟨cached, free, took, covered⟩ |
        ⟨-, rfl | rfl⟩
      · have nonneg : 0 ≤ (contributionOf config globals packet).psn :=
          Int.natCast_nonneg _
        exact (settled'.cache nonneg free took).congr
          (sameBroadcast_of_downAckCovers covered)
      · exact settled'.congr ⟨rfl, rfl, rfl, rfl, rfl⟩
      · exact settled'
  | parentAck _ _ _ covered =>
      exact settled.congr (sameBroadcast_of_downAckCovers covered)
  | parentNak _ _ _ covered =>
      exact settled.congr (sameBroadcast_of_downAckCovers covered)
  | childAck isChild isAckPacket taken =>
      have sent' := sent isChild isAckPacket.opcode
      rw [isAckPacket.acknowledges_ack] at sent'
      exact (upstreamAck_spec settled isChild sent' taken).settled
  | childNak isChild isAckPacket taken =>
      have sent' := sent isChild isAckPacket.opcode
      rw [isAckPacket.acknowledges_nak] at sent'
      exact (upstreamNak_spec settled isChild sent' taken).settled

end Preservation

/-! ## Runs -/

/-- A child acknowledges only PSNs that were broadcast. -/
def AcksBroadcast (world : World) : Event → Prop
  | .packet conn packet =>
      conn < fanIn → packet.opcode = 0x11 →
        packet.acknowledges < world.globals.downEpsn
  | _ => True

instance (world : World) : DecidablePred (AcksBroadcast world)
  | .packet _ _ => inferInstanceAs (Decidable (_ → _ → _))
  | .start => .isTrue trivial
  | .round _ => .isTrue trivial

section Runs

variable {config : Config} {memory : Globals} {fuel : Nat}
  {world next : World} {event : Event} {events : List Event}

theorem settled_initAll : (initAll config memory).Settled := by
  refine ⟨⟨?_, ?_, ?_, ?_⟩, ⟨?_, ?_⟩, ?_⟩
  · intro psn nonneg sent
    exact absurd (lt_of_le_of_lt nonneg sent) (lt_irrefl 0)
  · intro slot inside used
    simp [initAll, inside, AggBuffer.zero] at used
  · intro slot inside _
    simp [initAll, inside]
  · intro i _ psn isCovered
    have below : psn ≤ -1 := by
      simpa [Globals.covers, initAll] using isCovered
    have empty : (initAll config memory).downEpsn = 0 := rfl
    omega
  · intro i _ psn nonneg _ flag
    simp [initAll, inRing_idx nonneg] at flag
  · intro i _ slot inside _
    simp [initAll, inside]
  · intro i _
    exact le_refl _

/-- The inversion of a step. -/
theorem step_cases (taken : step config fuel world event = some next) :
    (∃ conn packet frames rule, event = .packet conn packet ∧
      config.lookupRule conn = some rule ∧
      Handled config fuel world.globals conn rule packet next.globals frames ∧
      next.log =
        world.log ++ .received conn packet :: frames.map Entry.sent) ∨
    (∃ id queue, event = .start ∧ world.globals.queue = id :: queue ∧
      next = ⟨{ world.globals with
        queue := queue
        jobs := world.globals.jobs ++
          [⟨id, world.globals.reRule id, world.globals.rePsn id⟩] },
        world.log⟩) ∨
    (∃ index job, event = .round index ∧
      world.globals.jobs[index]? = some job ∧
      ((reSends world.globals job.id (idx job.psn) = true ∧
        next = ⟨{ world.globals with
            jobs := world.globals.jobs.set index
              { job with psn := job.psn + 1 } },
          world.log ++
            (retransmit world.globals job.rule job.psn).map Entry.sent⟩) ∨
      (reSends world.globals job.id (idx job.psn) = false ∧
        next = ⟨{ world.globals with
          jobs := world.globals.jobs.eraseIdx index }, world.log⟩))) := by
  cases event with
  | packet conn packet =>
      obtain ⟨⟨after, frames⟩, handled, rest⟩ :=
        Option.bind_eq_some_iff.mp taken
      cases rest
      obtain ⟨rule, found, cases⟩ := packetHandler_cases handled
      exact Or.inl ⟨conn, packet, frames, rule, rfl, found, cases, rfl⟩
  | start =>
      right
      left
      unfold step at taken
      simp only at taken
      split at taken
      · cases taken
      · rename_i id queue same
        cases taken
        exact ⟨id, queue, rfl, same, rfl⟩
  | round index =>
      right
      right
      obtain ⟨job, active, rest⟩ := Option.bind_eq_some_iff.mp taken
      refine ⟨index, job, rfl, active, ?_⟩
      unfold reRound at rest
      by_cases sends : reSends world.globals job.id (idx job.psn) = true
      · simp only [sends, if_true, Option.some.injEq] at rest
        exact Or.inl ⟨sends, rest.symm⟩
      · rw [if_neg sends] at rest
        exact Or.inr ⟨Bool.not_eq_true _ ▸ sends, (Option.some.inj rest).symm⟩

theorem step_settled (settled : world.globals.Settled)
    (sent : AcksBroadcast world event)
    (taken : step config fuel world event = some next) :
    next.globals.Settled := by
  rcases step_cases taken with
    ⟨conn, packet, frames, rule, rfl, -, handled, -⟩ |
    ⟨id, queue, rfl, -, rfl⟩ |
    ⟨index, job, rfl, -, ⟨-, rfl⟩ | ⟨-, rfl⟩⟩
  · exact handled.settled settled sent
  · exact settled.congr ⟨rfl, rfl, rfl, rfl, rfl⟩
  · exact settled.congr ⟨rfl, rfl, rfl, rfl, rfl⟩
  · exact settled.congr ⟨rfl, rfl, rfl, rfl, rfl⟩

theorem run_settled
    (taken : Machine.run (step config fuel) (.initial config memory) events =
      some world)
    (sent : Machine.Meets (step config fuel) AcksBroadcast
      (.initial config memory) events) : world.globals.Settled :=
  Machine.run_invariant (fun world => world.globals.Settled)
    (fun _ _ _ settled sent taken => step_settled settled sent taken)
    settled_initAll sent taken

end Runs

/-! ## The count of a broadcast -/

/-- A slot holds the broadcasts that some child has not acknowledged, and its
degree is the number of children that have. -/
structure CountsAcks (globals : Globals) : Prop where
  held : ∀ psn, 0 ≤ psn → psn < globals.downEpsn →
    (globals.Broadcasting psn ↔ ∃ i < fanIn, globals.latestAck i < psn)
  degree : ∀ psn, 0 ≤ psn → psn < globals.downEpsn →
    globals.Broadcasting psn →
      globals.rDegree (idx psn) =
        ((Finset.range fanIn).filter fun i =>
          psn ≤ globals.latestAck i).card

/-- An acknowledgement up to `high` counts once for each PSN that it is the
child's first to cover, and releases those that the other children cover. -/
structure CountsOnce (globals : Globals) (id : Nat) (high : Int)
    (next : Globals) : Prop where
  latest : next.latestAck =
    Function.update globals.latestAck id (max (globals.latestAck id) high)
  once : ∀ psn, 0 ≤ psn → globals.Broadcasting psn →
    next.Broadcasting psn →
      next.rDegree (idx psn) = globals.rDegree (idx psn) +
        if globals.latestAck id < psn ∧ psn ≤ high then 1 else 0
  released : ∀ psn, 0 ≤ psn → globals.Broadcasting psn →
    (¬next.Broadcasting psn ↔
      psn ≤ high ∧ ∀ i < fanIn, i ≠ id → psn ≤ globals.latestAck i)

section Counts

variable {config : Config} {globals next : Globals} {id : Nat}
  {high psn : Int} {packet : Packet} {world : World}

theorem Globals.Settled.sent (settled : globals.Settled) (nonneg : 0 ≤ psn)
    (broadcasting : globals.Broadcasting psn) : psn < globals.downEpsn := by
  obtain ⟨other, -, sent, -, holds, -⟩ :=
    settled.counted.waiting _ (inRing_idx nonneg) broadcasting.1
  rw [broadcasting.2] at holds
  exact holds ▸ sent

theorem Globals.covers_eq_false {i : Nat} :
    globals.covers i psn = false ↔ globals.latestAck i < psn := by
  simp [Globals.covers]

theorem Globals.Settled.held_iff (settled : globals.Settled)
    (nonneg : 0 ≤ psn) (sent : psn < globals.downEpsn) :
    globals.Broadcasting psn ↔ ∃ i < fanIn, globals.latestAck i < psn := by
  simp only [← Globals.covers_eq_false]
  constructor
  · intro broadcasting
    obtain ⟨other, -, -, -, holds, missing⟩ :=
      settled.counted.waiting _ (inRing_idx nonneg) broadcasting.1
    rw [broadcasting.2] at holds
    rw [holds]
    exact missing
  · intro missing
    exact (settled.counted.counted psn nonneg sent missing).1

theorem Globals.Settled.degree (settled : globals.Settled)
    (nonneg : 0 ≤ psn) (broadcasting : globals.Broadcasting psn) :
    globals.rDegree (idx psn) =
      tally fanIn fun i => globals.covers i psn := by
  have sent := settled.sent nonneg broadcasting
  obtain ⟨i, isChild, missing⟩ :=
    (settled.held_iff nonneg sent).mp broadcasting
  exact (settled.counted.counted psn nonneg sent
    ⟨i, isChild, Globals.covers_eq_false.mpr missing⟩).2

theorem Globals.Settled.countsAcks (settled : globals.Settled) :
    CountsAcks globals := by
  refine ⟨fun psn => settled.held_iff, fun psn nonneg _ broadcasting => ?_⟩
  rw [settled.degree nonneg broadcasting]
  simp only [tally, Globals.covers, decide_eq_true_eq]

theorem TakesAck.covers_of_fresh (takes : TakesAck globals id high next)
    (fresh : globals.latestAck id < psn) (isCovered : psn ≤ high) :
    (fun i => next.covers i psn) =
      Function.update (fun i => globals.covers i psn) id true := by
  funext i
  by_cases same : i = id
  · subst same
    simp [Globals.covers, takes.latest, isCovered]
  · simp [Globals.covers, takes.latest, same]

theorem TakesAck.covers_of_not (takes : TakesAck globals id high next)
    (old : ¬(globals.latestAck id < psn ∧ psn ≤ high)) (i : Nat) :
    next.covers i psn = globals.covers i psn := by
  by_cases same : i = id
  · subst same
    have agree : psn ≤ max (globals.latestAck i) high ↔
        psn ≤ globals.latestAck i := by
      omega
    simp only [Globals.covers, takes.latest, Function.update_self, agree]
  · simp [Globals.covers, takes.latest, same]

theorem TakesAck.countsOnce (settled : globals.Settled)
    (isChild : id < fanIn) (takes : TakesAck globals id high next) :
    CountsOnce globals id high next := by
  refine ⟨takes.latest, ?_, ?_⟩
  · intro psn nonneg broadcasting broadcasting'
    rw [settled.degree nonneg broadcasting,
      takes.settled.degree nonneg broadcasting']
    by_cases fresh : globals.latestAck id < psn ∧ psn ≤ high
    · rw [if_pos fresh, takes.covers_of_fresh fresh.1 fresh.2,
        tally_update isChild (Globals.covers_eq_false.mpr fresh.1)]
    · rw [if_neg fresh, Nat.add_zero]
      exact tally_congr fun i _ => takes.covers_of_not fresh i
  · intro psn nonneg broadcasting
    have sent := settled.sent nonneg broadcasting
    have sent' : psn < next.downEpsn := takes.downEpsn ▸ sent
    obtain ⟨j, isChild', missing⟩ :=
      (settled.held_iff nonneg sent).mp broadcasting
    rw [takes.settled.held_iff nonneg sent', takes.latest]
    push Not
    constructor
    · intro all
      have others : ∀ i < fanIn, i ≠ id → psn ≤ globals.latestAck i := by
        intro i isChild'' different
        have := all i isChild''
        rwa [Function.update_of_ne different] at this
      have isLast : j = id := by
        by_contra different
        exact absurd (others j isChild' different) (not_le.mpr missing)
      subst isLast
      have own := all j isChild'
      rw [Function.update_self] at own
      exact ⟨by omega, others⟩
    · rintro ⟨isCovered, others⟩ i isChild''
      by_cases same : i = id
      · rw [same, Function.update_self]
        exact le_max_of_le_right isCovered
      · rw [Function.update_of_ne same]
        exact others i isChild'' same

theorem lookupRule_child (config : Config) (isChild : id < fanIn) :
    ∃ rule, config.lookupRule id = some rule ∧ rule.direction = .up := by
  have notParent : id ≠ fanIn := by omega
  have exists' : ¬(fanIn < id ∨ (config.root = true ∧ id = fanIn)) := by
    omega
  refine ⟨_, if_neg exists', ?_⟩
  simp [notParent]

theorem ack_returns (settled : world.globals.Settled) (isChild : id < fanIn)
    (opcode : packet.opcode = 0x11)
    (sent : packet.acknowledges < world.globals.downEpsn) :
    ∃ enough, ∀ fuel, enough ≤ fuel → ∃ next,
      step config fuel world (.packet id packet) = some next ∧
        TakesAck world.globals id packet.acknowledges next.globals := by
  obtain ⟨rule, found, up⟩ := lookupRule_child config isChild
  cases syndrome : isAck packet.synMsn with
  | true =>
      have isAckPacket : IsAckPacket packet true := ⟨opcode, syndrome⟩
      rw [isAckPacket.acknowledges_ack] at sent ⊢
      obtain ⟨enough, next, returned⟩ :=
        upstreamAck_returns world.globals id packet.psn
      refine ⟨enough, fun fuel bound => ?_⟩
      have taken := upstreamAck_extends bound _ _ _ next returned
      refine ⟨⟨next, world.log ++ [.received id packet]⟩, ?_,
        upstreamAck_spec settled isChild sent taken⟩
      simp only [step, packetHandler, found, Option.bind_eq_bind,
        Option.bind_some, opcode, if_true, up, syndrome, taken,
        Option.map_some]
      rfl
  | false =>
      have isAckPacket : IsAckPacket packet false := ⟨opcode, syndrome⟩
      rw [isAckPacket.acknowledges_nak] at sent ⊢
      obtain ⟨enough, next, returned⟩ :=
        upstreamNak_returns rule settled isChild sent
      refine ⟨enough, fun fuel bound => ?_⟩
      have taken := upstreamNak_extends bound _ _ _ _ next returned
      refine ⟨⟨next, world.log ++ [.received id packet]⟩, ?_,
        upstreamNak_spec settled isChild sent taken⟩
      simp only [step, packetHandler, found, Option.bind_eq_bind,
        Option.bind_some, opcode, if_true, up, syndrome, taken,
        Option.map_some, Bool.false_eq_true, if_false]
      rfl

end Counts

/-- Every reachable state counts the acknowledgements of its broadcasts, and
handles the next one to its end. -/
theorem broadcasts_counted (config : Config) (memory : Globals) (fuel : Nat)
    (events : List Event) (world : World)
    (taken : Machine.run (step config fuel) (.initial config memory) events =
      some world)
    (sent : Machine.Meets (step config fuel) AcksBroadcast
      (.initial config memory) events) :
    CountsAcks world.globals ∧
      ∀ id < fanIn, ∀ packet : Packet, packet.opcode = 0x11 →
        packet.acknowledges < world.globals.downEpsn →
          ∃ enough, ∀ fuel, enough ≤ fuel → ∃ next,
            step config fuel world (.packet id packet) = some next ∧
              CountsOnce world.globals id packet.acknowledges next.globals ∧
              CountsAcks next.globals := by
  have settled := run_settled taken sent
  refine ⟨settled.countsAcks, fun id isChild packet opcode sent' => ?_⟩
  obtain ⟨enough, returns⟩ := ack_returns settled isChild opcode sent'
  refine ⟨enough, fun fuel bound => ?_⟩
  obtain ⟨next, handled, takes⟩ := returns fuel bound
  exact ⟨next, handled, takes.countsOnce settled isChild,
    takes.settled.countsAcks⟩

theorem psns_ne_zero : 2 ^ 24 ≠ 0 := by decide

scoped instance neZeroPsns : NeZero (2 ^ 24) := ⟨psns_ne_zero⟩

/-- Packets with one word, without one, and a negative acknowledgement. -/
def Packet.word (psn : Fin (2 ^ 24)) (value : UInt32) : Packet :=
  ⟨0x04, psn, psn.isLt, 0, 1, by decide, fun _ => value⟩

def Packet.ack (psn : Fin (2 ^ 24)) : Packet :=
  ⟨0x11, psn, psn.isLt, 0, 0, by decide, fun _ => 0⟩

def Packet.nak (psn : Fin (2 ^ 24)) : Packet :=
  ⟨0x11, psn, psn.isLt, 0x60000000, 0, by decide, fun _ => 0⟩

/-- Memory of zeros around the arrays. -/
def zeroMemory : Globals where
  arrivalState := fun _ _ => false
  rArrivalState := fun _ _ => false
  aggBuffer := fun _ => .zero
  aggDegree := fun _ => 0
  bcastBuffer := fun _ => .zero
  rDegree := fun _ => 0
  aggEpsn := fun _ => 0
  downEpsn := 0
  latestAck := fun _ => 0
  downAck := 0
  currentOperationType := 0
  currentRootRank := 0
  reRule := fun _ => ⟨0, .up, 0, []⟩
  rePsn := fun _ => 0
  queue := []
  jobs := []

/-- An inner switch; the operation types are those of `util.h`. -/
def innerConfig : Config := ⟨false, 1, 2⟩

def broadcastEvents : List Event :=
  [.packet 2 (.word 0 7), .packet 2 (.word 1 8), .packet 0 (.ack 1),
    .packet 1 (.nak 1)]

/-- The first broadcast is released, the second has one acknowledgement. -/
def broadcastWorld : World :=
  (Machine.run (step innerConfig 4) (.initial innerConfig zeroMemory)
    broadcastEvents).get (by decide +kernel)

theorem broadcasts_counted_twoPsns : CountsAcks broadcastWorld.globals :=
  (broadcasts_counted innerConfig zeroMemory 4 broadcastEvents broadcastWorld
    (Option.some_get _).symm (by decide +kernel)).1

example : broadcastWorld.globals.rDegree 0 = 0 ∧
    broadcastWorld.globals.rDegree 1 = 1 := by
  decide +kernel

end IncEmulation.Switch
