import IncEmulation.Switch.FirstTurn

/-!
# The walks over the rings

When each of the `while (1)` loops stays inside of its ring and comes to an
end, as a condition on the slots that it starts with.
-/

namespace IncEmulation.Switch

open Loop

/-- Every round works on a slot of the ring, and there is a last one. -/
structure StaysAndEnds {State Result : Type*}
    (body : State → Round State Result) (position : State → Int)
    (start : State) : Prop where
  inside : ∀ state, Visits body start state → InRing (idx (position state))
  ends : Ends body start

section Rules

variable {State Result : Type*} {body : State → Round State Result}
  {position : State → Int} {start : State}

/-- A walk that gets one PSN closer to a PSN of the ring in each round. -/
theorem staysAndEnds_of_invariant (invariant : State → Prop)
    (measure : State → Nat)
    (nonneg : ∀ state, invariant state → 0 ≤ position state)
    (lowered : ∀ state next, invariant state → body state = .again next →
      invariant next ∧ measure next < measure state)
    (initially : invariant start) : StaysAndEnds body position start where
  inside := fun state visits => inRing_idx (nonneg state
    (visits.invariant invariant
      (fun state next holds round => (lowered state next holds round).1)
      initially))
  ends := ends_of_measure invariant measure lowered initially

/-- A walk that goes up as long as the slots pass a test; `walker` is what its
rounds keep. -/
structure GoesUp (body : State → Round State Result) (position : State → Int)
    (walker : State → Prop) (passes : Int → Bool) : Prop where
  again : ∀ state, walker state → passes (idx (position state)) = true →
    ∃ next, body state = .again next ∧ walker next ∧
      position next = position state + 1
  stop : ∀ state, walker state → passes (idx (position state)) = false →
    ∃ result, body state = .stop result

/-- It ends if and only if some slot does not pass. -/
theorem GoesUp.staysAndEnds_iff {walker : State → Prop} {passes : Int → Bool}
    (up : GoesUp body position walker passes) (isWalker : walker start)
    (nonneg : 0 ≤ position start) :
    StaysAndEnds body position start ↔
      ∃ slot, InRing slot ∧ passes slot = false := by
  constructor
  · intro stays
    by_contra none
    push Not at none
    refine not_ends_of_invariant
      (fun state => walker state ∧ 0 ≤ position state)
      ?_ ⟨isWalker, nonneg⟩ stays.ends
    rintro state ⟨isWalker', nonneg'⟩
    have pass : passes (idx (position state)) = true := by
      rw [← Bool.not_eq_false]
      exact none _ (inRing_idx nonneg')
    obtain ⟨next, round, nextWalker, above⟩ := up.again state isWalker' pass
    exact ⟨next, round, nextWalker, by omega⟩
  · rintro ⟨slot, inside, fails⟩
    obtain ⟨last, low, -, rfl⟩ := exists_idx_eq nonneg inside
    refine staysAndEnds_of_invariant
      (fun state => walker state ∧ 0 ≤ position state ∧
        position state ≤ last)
      (fun state => (last - position state).toNat)
      (fun state holds => holds.2.1) ?_ ⟨isWalker, nonneg, low⟩
    rintro state next ⟨isWalker', nonneg', below⟩ round
    have pass : passes (idx (position state)) = true := by
      rw [← Bool.not_eq_false]
      intro failed
      obtain ⟨result, stopped⟩ := up.stop state isWalker' failed
      rw [stopped] at round
      cases round
    obtain ⟨other, round', nextWalker, above⟩ := up.again state isWalker' pass
    rw [round'] at round
    obtain rfl := Round.again.inj round
    have different : position state ≠ last := by
      intro same
      rw [same, fails] at pass
      exact Bool.noConfusion pass
    exact ⟨⟨nextWalker, by omega, by omega⟩, by omega⟩

end Rules

/-! ## The walks of `down_ack_handler` -/

section Downstream

variable {globals next : Globals} {psn high : Int} {fuel : Nat} {rule : Rule}

/-- The aggregation slot of the PSN holds it. -/
def Globals.Aggregating (globals : Globals) (psn : Int) : Prop :=
  (globals.aggBuffer (idx psn)).state = true ∧
    (globals.aggBuffer (idx psn)).psn = psn

instance (globals : Globals) (psn : Int) :
    Decidable (globals.Aggregating psn) :=
  inferInstanceAs (Decidable (_ ∧ _))

theorem clearRound_of_aggregating (holds : globals.Aggregating psn) :
    clearRound (globals, psn) =
      .again (globals.clearAgg (idx psn), psn - 1) :=
  if_pos holds

theorem aggregating_of_clearRound_again {walk next : Globals × Int}
    (round : clearRound walk = .again next) :
    walk.1.Aggregating walk.2 ∧
      next = (walk.1.clearAgg (idx walk.2), walk.2 - 1) :=
  clearRound_eq_again round

theorem aggregating_clearAgg {other : Int} (holds : globals.Aggregating psn) :
    (globals.clearAgg (idx psn)).Aggregating other ↔
      globals.Aggregating other ∧ other ≠ psn := by
  by_cases sameSlot : idx other = idx psn
  · constructor
    · intro cleared
      have state := cleared.1
      simp [Globals.clearAgg, sameSlot, AggBuffer.zero] at state
    · rintro ⟨holds', different⟩
      refine absurd ?_ different
      rw [← holds'.2, sameSlot, holds.2]
  · have different : other ≠ psn := fun same => sameSlot (congrArg idx same)
    simp only [Globals.Aggregating, Globals.clearAgg,
      Function.update_of_ne sameSlot, different, ne_eq, not_false_eq_true,
      and_true]

/-- The walk leaves the ring below PSN 0. -/
theorem clearRound_visits_below (nonneg : -1 ≤ high)
    (all : ∀ psn, 0 ≤ psn → psn ≤ high → globals.Aggregating psn) :
    ∃ below, Visits clearRound (globals, high) (below, -1) := by
  obtain ⟨count, same⟩ : ∃ count : Nat, high = (count : Int) - 1 :=
    ⟨(high + 1).toNat, by omega⟩
  subst same
  induction count generalizing globals with
  | zero => exact ⟨globals, .here _⟩
  | succ count induction =>
      have last : (((count + 1 : Nat) : Int) - 1) = (count : Int) := by omega
      rw [last] at all ⊢
      have holds := all count (by omega) (le_refl _)
      obtain ⟨below, visits⟩ : ∃ below, Visits clearRound
          (globals.clearAgg (idx count), (count : Int) - 1) (below, -1) :=
        induction (by omega) fun psn nonneg' bound =>
          (aggregating_clearAgg holds).mpr
            ⟨all psn nonneg' (by omega), by omega⟩
      exact ⟨below, .later (clearRound_of_aggregating holds) visits⟩

/-- A backward walk over aggregation slots has to meet one that does not hold
its PSN. -/
theorem clearRound_staysAndEnds_iff (nonneg : 0 ≤ high) :
    StaysAndEnds clearRound Prod.snd (globals, high) ↔
      ∃ psn, 0 ≤ psn ∧ psn ≤ high ∧ ¬globals.Aggregating psn := by
  constructor
  · intro stays
    by_contra none
    push Not at none
    obtain ⟨below, visits⟩ := clearRound_visits_below (by omega) none
    have outside : ¬InRing (idx (-1)) := by decide
    exact outside (stays.inside _ visits)
  · rintro ⟨psn, nonneg', bound, free⟩
    refine staysAndEnds_of_invariant
      (fun walk => psn ≤ walk.2 ∧ ¬walk.1.Aggregating psn)
      (fun walk => (walk.2 - psn).toNat)
      (fun walk holds => le_trans nonneg' holds.1) ?_ ⟨bound, free⟩
    rintro walk next ⟨above, free'⟩ round
    obtain ⟨holds, rfl⟩ := aggregating_of_clearRound_again round
    have different : walk.2 ≠ psn := by
      rintro rfl
      exact free' holds
    refine ⟨⟨by simp only; omega, fun cleared => ?_⟩, by simp only; omega⟩
    exact free' ((aggregating_clearAgg holds).mp cleared).1

theorem resendRound_goesUp :
    GoesUp (resendRound globals rule) Prod.fst (fun _ => True)
      (resends globals) := by
  refine ⟨fun walk _ pass => ⟨_, if_pos pass, trivial, rfl⟩,
    fun walk _ fails => ?_⟩
  exact ⟨walk.2, if_neg (by rw [fails]; exact Bool.false_ne_true)⟩

/-- Clearing slots up to `high` does not change which of them the forward walk
passes. -/
theorem resends_downAckCovers
    (covered : downAckCovers fuel globals high = some next) (slot : Int) :
    resends next slot =
      decide (globals.aggDegree slot = fanIn ∧
        max globals.downAck high < (globals.aggBuffer slot).psn) := by
  obtain ⟨cleared, change, rfl⟩ := downAckCovers_spec covered
  unfold resends
  rcases change.slots slot with ⟨buffer, degree, -⟩ |
    ⟨buffer, degree, -, below⟩
  · simp only [buffer, degree]
  · have notFull : (0 : Nat) ≠ fanIn := by decide
    have notAbove : ¬max globals.downAck high <
        (globals.aggBuffer slot).psn := by omega
    simp [degree, notFull, notAbove]

end Downstream

/-! ## The walks of the upstream acknowledgements -/

section Upstream

variable {globals result : Globals} {id fuel : Nat} {high psn : Int}
  {walk next : Globals × Int}

theorem ackRound_staysAndEnds (latest : -1 ≤ globals.latestAck id)
    (above : globals.latestAck id < high) :
    StaysAndEnds (ackRound id) Prod.snd (globals, high) := by
  refine staysAndEnds_of_invariant
    (fun walk => walk.1.latestAck = globals.latestAck ∧
      globals.latestAck id < walk.2)
    (fun walk => (walk.2 - globals.latestAck id).toNat)
    (fun walk holds => by have := holds.2; omega) ?_ ⟨rfl, above⟩
  rintro walk next ⟨same, above'⟩ round
  obtain ⟨rfl, more⟩ := ackRound_eq_again round
  rw [same] at more
  exact ⟨⟨(AckChange.countAck walk.1 _).latestAck.trans same,
    by simp only; omega⟩, by simp only; omega⟩

/-- The PSNs that a NAK acknowledges are all fresh. -/
def Globals.AllFresh (globals : Globals) (id : Nat) (high : Int) : Prop :=
  ∀ psn, globals.latestAck id < psn → psn ≤ high →
    globals.unacknowledged id psn

/-- The round of a NAK. -/
def nakCount (globals : Globals) (id : Nat) (slot : Int) : Globals :=
  (globals.mark id slot).countAck slot

theorem nakCount_of_ne (globals : Globals) (id : Nat) {slot other : Int}
    (apart : other ≠ slot) :
    (nakCount globals id slot).bcastBuffer other =
        globals.bcastBuffer other ∧
      (nakCount globals id slot).rArrivalState id other =
        globals.rArrivalState id other := by
  refine ⟨(countAck_of_ne (globals.mark id slot) apart).1, ?_⟩
  unfold nakCount
  by_cases full : (globals.mark id slot).rDegree slot + 1 = fanIn
  · rw [Globals.countAck_of_full full]
    simp [Globals.release, Globals.mark, apart]
  · rw [Globals.countAck_of_not_full full]
    simp [Globals.raise, Globals.mark, apart]

/-- The slot of the round does not hold a fresh PSN any more, unless it is
released and the PSN is 0. -/
theorem nakCount_self (globals : Globals) (id : Nat) (slot : Int) :
    (nakCount globals id slot).rArrivalState id slot = true ∨
      ((nakCount globals id slot).bcastBuffer slot).psn = 0 := by
  unfold nakCount
  by_cases full : (globals.mark id slot).rDegree slot + 1 = fanIn
  · right
    rw [Globals.countAck_of_full full]
    simp [Globals.release, AggBuffer.zero]
  · left
    rw [Globals.countAck_of_not_full full]
    simp [Globals.raise, Globals.mark]

theorem unacknowledged_nakCount (apart : idx psn ≠ idx high) :
    (nakCount globals id (idx high)).unacknowledged id psn ↔
      globals.unacknowledged id psn := by
  obtain ⟨buffer, flag⟩ := nakCount_of_ne globals id apart
  unfold Globals.unacknowledged
  rw [buffer, flag]

theorem nakRound_eq_again
    (fresh : walk.1.unacknowledged id walk.2)
    (round : nakRound id walk = .again next) :
    next = (nakCount walk.1 id (idx walk.2), walk.2 - 1) ∧
      walk.2 - 1 ≠ walk.1.latestAck id := by
  rw [nakRound_of_unacknowledged fresh] at round
  exact ackRound_eq_again round

theorem nakCount_latestAck (globals : Globals) (id : Nat) (slot : Int) :
    (nakCount globals id slot).latestAck = globals.latestAck :=
  (AckChange.countAck _ _).latestAck

theorem nakRound_staysAndEnds_of_fresh (latest : -1 ≤ globals.latestAck id)
    (above : globals.latestAck id < high)
    (fresh : globals.AllFresh id high) :
    StaysAndEnds (nakRound id) Prod.snd (globals, high) := by
  refine staysAndEnds_of_invariant
    (fun walk => walk.1.latestAck = globals.latestAck ∧
      globals.latestAck id < walk.2 ∧ walk.1.AllFresh id walk.2)
    (fun walk => (walk.2 - globals.latestAck id).toNat)
    (fun walk holds => by have := holds.2.1; omega) ?_ ⟨rfl, above, fresh⟩
  rintro walk next ⟨same, above', fresh'⟩ round
  have own := fresh' walk.2 (by rw [same]; exact above') (le_refl _)
  obtain ⟨rfl, more⟩ := nakRound_eq_again own round
  rw [same] at more
  refine ⟨⟨(nakCount_latestAck _ _ _).trans same, by simp only; omega, ?_⟩,
    by simp only; omega⟩
  intro psn above'' below
  simp only [nakCount_latestAck] at above'' below
  have old := fresh' psn above'' (by omega)
  have apart : idx psn ≠ idx walk.2 := by
    intro sameSlot
    have equal : psn = walk.2 := by rw [← old.2, sameSlot, own.2]
    omega
  exact (unacknowledged_nakCount apart).mpr old

/-- How far the walk of a NAK has come: the PSNs above its own were fresh, and
their slots hold no fresh PSN any more. -/
structure NakWalk (globals : Globals) (id : Nat) (high : Int)
    (walk : Globals × Int) : Prop where
  latest : walk.1.latestAck = globals.latestAck
  above : globals.latestAck id < walk.2
  below : walk.2 ≤ high
  fresh : ∀ psn, walk.2 < psn → psn ≤ high → globals.unacknowledged id psn
  untouched : ∀ slot, (∀ psn, walk.2 < psn → psn ≤ high → slot ≠ idx psn) →
    walk.1.bcastBuffer slot = globals.bcastBuffer slot ∧
      walk.1.rArrivalState id slot = globals.rArrivalState id slot
  touched : ∀ psn, walk.2 < psn → psn ≤ high →
    walk.1.rArrivalState id (idx psn) = true ∨
      (walk.1.bcastBuffer (idx psn)).psn = 0

theorem NakWalk.own (ranged : globals.Ranged) (isChild : id < fanIn)
    (walking : NakWalk globals id high walk)
    (own : walk.1.unacknowledged id walk.2) :
    globals.unacknowledged id walk.2 := by
  have latest := ranged.latest id
  have above := walking.above
  by_cases isTouched : ∃ psn, walk.2 < psn ∧ psn ≤ high ∧ idx walk.2 = idx psn
  · obtain ⟨psn, above', below, sameSlot⟩ := isTouched
    have old := walking.fresh psn above' below
    rcases walking.touched psn above' below with flag | released
    · rw [← sameSlot, own.1] at flag
      exact Bool.noConfusion flag
    · -- Only PSN 0 passes in a released slot, and the ring has not turned.
      rw [← sameSlot, own.2] at released
      have first := ranged.first ⟨id, isChild, by omega⟩
      have small := first.lt_of_fresh ranged (by omega) old
      rw [released] at sameSlot above'
      exact absurd sameSlot (idx_ne_zero above' small)
  · push Not at isTouched
    obtain ⟨buffer, flag⟩ := walking.untouched (idx walk.2) isTouched
    unfold Globals.unacknowledged at own ⊢
    rwa [buffer, flag] at own

theorem NakWalk.again (ranged : globals.Ranged) (isChild : id < fanIn)
    (walking : NakWalk globals id high walk)
    (own : walk.1.unacknowledged id walk.2)
    (round : nakRound id walk = .again next) :
    NakWalk globals id high next := by
  have ownBefore := walking.own ranged isChild own
  obtain ⟨rfl, more⟩ := nakRound_eq_again own round
  rw [walking.latest] at more
  have above := walking.above
  have below := walking.below
  refine ⟨(nakCount_latestAck _ _ _).trans walking.latest,
    by simp only; omega, by simp only; omega, ?_, ?_, ?_⟩
  · intro psn above' below'
    by_cases isOwn : psn = walk.2
    · rw [isOwn]
      exact ownBefore
    · simp only at above'
      exact walking.fresh psn (by omega) below'
  · intro slot apart
    obtain ⟨buffer, flag⟩ := nakCount_of_ne walk.1 id
      (apart walk.2 (by simp only; omega) below)
    obtain ⟨buffer', flag'⟩ := walking.untouched slot fun psn above' =>
      apart psn (by simp only; omega)
    exact ⟨buffer.trans buffer', flag.trans flag'⟩
  · intro psn above' below'
    simp only at above' ⊢
    by_cases sameSlot : idx psn = idx walk.2
    · rw [sameSlot]
      exact nakCount_self walk.1 id (idx walk.2)
    · obtain ⟨buffer, flag⟩ := nakCount_of_ne walk.1 id sameSlot
      have different : psn ≠ walk.2 := fun same => sameSlot (congrArg idx same)
      rw [buffer, flag]
      exact walking.touched psn (by omega) below'

/-- The walk of a NAK ends if and only if it finds fresh PSNs only. -/
theorem nakRound_staysAndEnds_iff (ranged : globals.Ranged)
    (isChild : id < fanIn) (above : globals.latestAck id < high) :
    StaysAndEnds (nakRound id) Prod.snd (globals, high) ↔
      globals.AllFresh id high := by
  refine ⟨fun stays => ?_,
    nakRound_staysAndEnds_of_fresh (ranged.latest id) above⟩
  obtain ⟨fuel, result, returned⟩ := ends_iff.mp stays.ends
  refine iterate_invariant
    (fun walk => NakWalk globals id high walk ∧ Ends (nakRound id) walk)
    (fun _ => globals.AllFresh id high) ?_ ?_ ⟨?_, stays.ends⟩ returned
  · rintro walk next ⟨walking, ends⟩ round
    exact ⟨walking.again ranged isChild (unacknowledged_of_ends ends) round,
      (ends_of_again round).mp ends⟩
  · rintro walk result ⟨walking, ends⟩ round psn above' below
    have own := unacknowledged_of_ends ends
    rw [nakRound_of_unacknowledged own] at round
    obtain ⟨-, last⟩ := ackRound_eq_stop round
    rw [show (walk.1.mark id (idx walk.2)).latestAck = globals.latestAck from
      walking.latest] at last
    by_cases isOwn : psn = walk.2
    · rw [isOwn]
      exact walking.own ranged isChild own
    · simp only at last
      exact walking.fresh psn (by omega) below
  · refine ⟨rfl, above, le_refl _, ?_, fun slot _ => ⟨rfl, rfl⟩, ?_⟩
    · intro psn above' below
      exact absurd below (not_le.mpr above')
    · intro psn above' below
      exact absurd below (not_le.mpr above')

end Upstream

/-! ## The walk of `re_thread` -/

theorem reRound_goesUp (globals : Globals) (id : Nat) :
    GoesUp (reRound globals) Job.psn (fun job => job.id = id)
      (reSends globals id) := by
  refine ⟨fun job isJob pass => ⟨{ job with psn := job.psn + 1 }, ?_, isJob,
    rfl⟩, fun job isJob fails => ⟨(), ?_⟩⟩
  · subst isJob
    exact if_pos pass
  · subst isJob
    exact if_neg (by rw [fails]; exact Bool.false_ne_true)

/-! ## All walks of a call -/

/-- A call that walks over a ring: `down_ack_handler` for a packet from the
parent or for the acknowledgement that the root gives itself, the upstream
branch of `packet_handler`, and `re_thread`. -/
inductive Call where
  | parent (rule : Rule) (packet : Packet)
  | own (conn : Nat) (rule : Rule) (packet : Packet)
  | child (id : Nat) (packet : Packet)
  | reThread (job : Job)

/-- The call can be made in the state. -/
def Call.Possible (config : Config) (globals : Globals) : Call → Prop
  | .parent _ _ => config.root = false
  | .own conn _ packet =>
      config.root = true ∧ Fresh globals conn packet ∧
        (gathered config globals conn packet).aggDegree (idx packet.psn) =
          fanIn ∧
        (globals.bcastBuffer (idx packet.psn)).state = false ∧
        (operationOf config globals packet).1 = config.operationTypeAllreduce
  | .child id _ => id < fanIn
  | .reThread job => job ∈ globals.jobs ∨
      ∃ id ∈ globals.queue,
        job = ⟨id, globals.reRule id, globals.rePsn id⟩

/-- Each walk of the call stays in its ring and ends. -/
def Call.WalksStay (config : Config) (globals : Globals) : Call → Prop
  | .parent rule packet =>
      (globals.downAck < packet.acknowledges →
        StaysAndEnds clearRound Prod.snd (globals, packet.acknowledges)) ∧
      (isAck packet.synMsn = false → ∀ fuel next,
        downAckCovers fuel globals packet.acknowledges = some next →
          StaysAndEnds (resendRound next rule) Prod.fst (packet.psn, []))
  | .own conn rule packet =>
      ∀ cached frames,
        cache (gathered config globals conn packet) rule packet.psn
          ((gathered config globals conn packet).aggBuffer
            (idx packet.psn)).buffer packet.dataLen packet.opcode =
              some (cached, frames) →
          cached.downAck < packet.psn →
            StaysAndEnds clearRound Prod.snd (cached, (packet.psn : Int))
  | .child id packet =>
      (isAck packet.synMsn = true → globals.latestAck id < packet.psn →
        globals.unacknowledged id packet.psn →
          StaysAndEnds (ackRound id) Prod.snd
            (globals.mark id (idx packet.psn), (packet.psn : Int))) ∧
      (isAck packet.synMsn = false →
        globals.latestAck id < packet.psn - 1 →
          StaysAndEnds (nakRound id) Prod.snd
            (globals, (packet.psn : Int) - 1))
  | .reThread job => StaysAndEnds (reRound globals) Job.psn job

/-- Not all PSNs down to 0 wait in their slots, some slot ends each forward
walk, and a NAK from a child finds fresh PSNs only. -/
def Call.Condition (config : Config) (globals : Globals) : Call → Prop
  | .parent _ packet =>
      (globals.downAck < packet.acknowledges →
        ∃ psn, 0 ≤ psn ∧ psn ≤ packet.acknowledges ∧
          ¬globals.Aggregating psn) ∧
      (isAck packet.synMsn = false → ∃ slot, InRing slot ∧
        ¬(globals.aggDegree slot = fanIn ∧
          max globals.downAck packet.acknowledges <
            (globals.aggBuffer slot).psn))
  | .own conn _ packet =>
      (packet.psn : Int) = globals.downEpsn →
        globals.downAck < packet.psn →
          ∃ psn : Int, 0 ≤ psn ∧ psn ≤ packet.psn ∧
            ¬(gathered config globals conn packet).Aggregating psn
  | .child id packet =>
      isAck packet.synMsn = false →
        globals.AllFresh id (packet.psn - 1)
  | .reThread job => ∃ slot, InRing slot ∧
      ¬((globals.bcastBuffer slot).state = true ∧
        globals.latestAck job.id < (globals.bcastBuffer slot).psn)

section Calls

variable {config : Config} {globals : Globals} {rule : Rule}
  {packet : Packet} {id conn : Nat} {job : Job}

theorem downAckCovers_of_ends {high : Int}
    (ends : globals.downAck < high → Ends clearRound (globals, high)) :
    ∃ fuel next, downAckCovers fuel globals high = some next := by
  by_cases above : globals.downAck < high
  · obtain ⟨fuel, cleared, returned⟩ := ends_iff.mp (ends above)
    exact ⟨fuel, _, by rw [downAckCovers, if_pos above, returned]; rfl⟩
  · exact ⟨0, globals, if_neg above⟩

theorem parent_walksStay_iff (ranged : globals.Ranged) :
    (Call.parent rule packet).WalksStay config globals ↔
      (Call.parent rule packet).Condition config globals := by
  have downAck := ranged.downAck
  have clears : (globals.downAck < packet.acknowledges →
      StaysAndEnds clearRound Prod.snd (globals, packet.acknowledges)) ↔
      (globals.downAck < packet.acknowledges →
        ∃ psn, 0 ≤ psn ∧ psn ≤ packet.acknowledges ∧
          ¬globals.Aggregating psn) := by
    refine imp_congr_right fun above => ?_
    exact clearRound_staysAndEnds_iff (by omega)
  have resends : ∀ {fuel next},
      downAckCovers fuel globals packet.acknowledges = some next →
        (StaysAndEnds (resendRound next rule) Prod.fst
          ((packet.psn : Int), []) ↔
          ∃ slot, InRing slot ∧ ¬(globals.aggDegree slot = fanIn ∧
            max globals.downAck packet.acknowledges <
              (globals.aggBuffer slot).psn)) := by
    intro fuel next covered
    rw [resendRound_goesUp.staysAndEnds_iff trivial (Int.natCast_nonneg _)]
    simp only [resends_downAckCovers covered, decide_eq_false_iff_not]
  constructor
  · rintro ⟨first, second⟩
    refine ⟨clears.mp first, fun negative => ?_⟩
    obtain ⟨fuel, next, covered⟩ :=
      downAckCovers_of_ends fun above => (first above).ends
    exact (resends covered).mp (second negative fuel next covered)
  · rintro ⟨first, second⟩
    exact ⟨clears.mpr first, fun negative fuel next covered =>
      (resends covered).mpr (second negative)⟩

theorem own_walksStay_iff :
    (Call.own conn rule packet).WalksStay config globals ↔
      (Call.own conn rule packet).Condition config globals := by
  have walk : ∀ {cached : Globals},
      cached.aggBuffer = (gathered config globals conn packet).aggBuffer →
        (StaysAndEnds clearRound Prod.snd (cached, (packet.psn : Int)) ↔
          ∃ psn, 0 ≤ psn ∧ psn ≤ (packet.psn : Int) ∧
            ¬(gathered config globals conn packet).Aggregating psn) := by
    intro cached same
    rw [clearRound_staysAndEnds_iff (Int.natCast_nonneg _)]
    unfold Globals.Aggregating
    rw [same]
  constructor
  · intro stays next above
    obtain ⟨⟨cached, frames⟩, took⟩ : ∃ cached,
        cache (gathered config globals conn packet) rule packet.psn
          ((gathered config globals conn packet).aggBuffer
            (idx packet.psn)).buffer packet.dataLen packet.opcode =
              some cached :=
      ⟨_, if_neg (not_not.mpr next)⟩
    obtain ⟨-, same, -⟩ := cache_eq_some took
    have above' : cached.downAck < packet.psn := by
      rw [same]
      exact above
    exact (walk (by rw [same])).mp (stays cached frames took above')
  · intro condition cached frames took above
    obtain ⟨next, same, -⟩ := cache_eq_some took
    have above' : globals.downAck < packet.psn := by
      rw [same] at above
      exact above
    exact (walk (by rw [same])).mpr (condition next above')

theorem child_walksStay_iff (ranged : globals.Ranged) (isChild : id < fanIn) :
    (Call.child id packet).WalksStay config globals ↔
      (Call.child id packet).Condition config globals := by
  have nak : (globals.latestAck id < (packet.psn : Int) - 1 →
      StaysAndEnds (nakRound id) Prod.snd
        (globals, (packet.psn : Int) - 1)) ↔
      globals.AllFresh id (packet.psn - 1) := by
    by_cases above : globals.latestAck id < (packet.psn : Int) - 1
    · rw [← nakRound_staysAndEnds_iff ranged isChild above]
      exact ⟨fun stays => stays above, fun stays _ => stays⟩
    · refine iff_of_true (fun below => absurd below above) ?_
      intro psn above' below
      omega
  constructor
  · rintro ⟨-, second⟩ negative
    exact nak.mp (second negative)
  · intro condition
    refine ⟨fun _ above _ => ?_, fun negative => nak.mpr (condition negative)⟩
    exact ackRound_staysAndEnds (ranged.latest id) above

theorem reThread_walksStay_iff (nonneg : 0 ≤ job.psn) :
    (Call.reThread job).WalksStay config globals ↔
      (Call.reThread job).Condition config globals := by
  refine ((reRound_goesUp globals job.id).staysAndEnds_iff rfl nonneg).trans ?_
  simp only [reSends, decide_eq_false_iff_not]
  rfl

end Calls

/-- In every reachable state. -/
theorem walksStay_iff (config : Config) (memory : Globals) (world : World)
    (reached : Reached config memory world) (call : Call)
    (possible : call.Possible config world.globals) :
    call.WalksStay config world.globals ↔
      call.Condition config world.globals := by
  have ranged := reached.ranged
  cases call with
  | parent rule packet => exact parent_walksStay_iff ranged
  | own conn rule packet => exact own_walksStay_iff
  | child id packet => exact child_walksStay_iff ranged possible
  | reThread job =>
      refine reThread_walksStay_iff ?_
      rcases possible with active | ⟨id, queued, rfl⟩
      · exact ranged.active job active
      · exact ranged.queued id queued

/-- A child that acknowledges the last broadcast with a NAK. -/
theorem walksStay_iff_lastBroadcast :
    (Call.child 1 (.nak 2)).WalksStay innerConfig broadcastWorld.globals := by
  refine (walksStay_iff innerConfig zeroMemory broadcastWorld
    ⟨4, broadcastEvents, (Option.some_get _).symm⟩ (.child 1 (.nak 2))
    Nat.one_lt_two).mpr ?_
  intro _ psn above below
  have latest : broadcastWorld.globals.latestAck 1 = 0 := by decide +kernel
  have last : ((Packet.nak 2).psn : Int) - 1 = 1 := by decide
  obtain rfl : psn = 1 := by omega
  decide +kernel

/-- An inner switch has sent its first sum to the parent. -/
def firstSumEvents : List Event :=
  [.packet 0 (.word 0 5), .packet 1 (.word 0 6)]

def firstSumWorld : World :=
  (Machine.run (step innerConfig 4) (.initial innerConfig zeroMemory)
    firstSumEvents).get (by decide +kernel)

/-- The acknowledgement of the first sum leads below the ring, and a NAK for
PSNs that are not broadcast leads nowhere. -/
theorem not_always_walksStay :
    Reached innerConfig zeroMemory firstSumWorld ∧
      (∀ rule, ¬(Call.parent rule (.ack 0)).WalksStay innerConfig
        firstSumWorld.globals) ∧
      ¬(Call.child 0 (.nak 2)).WalksStay innerConfig
        firstSumWorld.globals := by
  refine ⟨⟨4, firstSumEvents, (Option.some_get _).symm⟩, fun rule stays => ?_,
    fun stays => ?_⟩
  · have acknowledges : (Packet.ack 0).acknowledges = 0 := by decide
    have above : firstSumWorld.globals.downAck < 0 := by decide +kernel
    have holds : firstSumWorld.globals.Aggregating 0 := by decide +kernel
    have walk := stays.1
    rw [acknowledges] at walk
    obtain ⟨psn, nonneg, bound, free⟩ :=
      (clearRound_staysAndEnds_iff (le_refl 0)).mp (walk above)
    obtain rfl : psn = 0 := by omega
    exact free holds
  · have spins : ¬firstSumWorld.globals.unacknowledged 0 1 := by
      decide +kernel
    have walk := (stays.2 (by decide) (by decide +kernel)).ends
    exact spins (unacknowledged_of_ends walk)

end IncEmulation.Switch
