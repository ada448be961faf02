import IncEmulation.Switch.BroadcastRun

/-!
# The first turn of the ring

What every reachable state keeps, whatever the peers send.  As long as one
child has acknowledged nothing, PSN 0 stays in its slot and the broadcasts have
not come round to it again.
-/

namespace IncEmulation.Switch

open Loop Tally

/-- The children that have acknowledged some PSN. -/
def Globals.acknowledging (globals : Globals) (i : Nat) : Bool :=
  decide (0 ≤ globals.latestAck i)

structure FirstTurn (globals : Globals) : Prop where
  within : globals.downEpsn ≤ N
  inUse : 0 < globals.downEpsn → (globals.bcastBuffer 0).state = true
  degree : globals.rDegree 0 ≤ tally fanIn globals.acknowledging

structure Globals.Ranged (globals : Globals) : Prop where
  downEpsn : 0 ≤ globals.downEpsn
  latest : ∀ i, -1 ≤ globals.latestAck i
  downAck : -1 ≤ globals.downAck
  broadcast : ∀ slot, InRing slot → (globals.bcastBuffer slot).psn = 0 ∨
    (globals.bcastBuffer slot).psn < globals.downEpsn
  queued : ∀ id ∈ globals.queue, 0 ≤ globals.rePsn id
  active : ∀ job ∈ globals.jobs, 0 ≤ job.psn
  first : (∃ i < fanIn, globals.latestAck i = -1) → FirstTurn globals

section Walk

variable {globals next result : Globals} {id fuel : Nat} {high psn : Int}
  {walk : Globals × Int}

theorem ackRound_change
    (returned : iterate (ackRound id) fuel walk = some result) :
    AckChange walk.1 result := by
  refine iterate_invariant (fun other => AckChange walk.1 other.1)
    (AckChange walk.1) ?_ ?_ (.refl walk.1) returned
  · intro other next change round
    obtain ⟨rfl, -⟩ := ackRound_eq_again round
    exact change.trans (.countAck _ _)
  · intro other result change round
    obtain ⟨rfl, -⟩ := ackRound_eq_stop round
    exact change.trans (.countAck _ _)

theorem nakRound_of_acknowledged
    (again : ¬walk.1.unacknowledged id walk.2) :
    nakRound id walk = .again walk :=
  if_neg again

theorem nakRound_change
    (returned : iterate (nakRound id) fuel walk = some result) :
    AckChange walk.1 result := by
  refine iterate_invariant (fun other => AckChange walk.1 other.1)
    (AckChange walk.1) ?_ ?_ (.refl walk.1) returned
  · intro other next change round
    by_cases fresh : other.1.unacknowledged id other.2
    · rw [nakRound_of_unacknowledged fresh] at round
      obtain ⟨rfl, -⟩ := ackRound_eq_again round
      exact (change.trans (.mark _ _ _)).trans (.countAck _ _)
    · rw [nakRound_of_acknowledged fresh] at round
      obtain rfl := Round.again.inj round
      exact change
  · intro other result change round
    by_cases fresh : other.1.unacknowledged id other.2
    · rw [nakRound_of_unacknowledged fresh] at round
      obtain ⟨rfl, -⟩ := ackRound_eq_stop round
      exact (change.trans (.mark _ _ _)).trans (.countAck _ _)
    · rw [nakRound_of_acknowledged fresh] at round
      cases round

theorem countAck_of_ne (globals : Globals) {slot other : Int}
    (apart : other ≠ slot) :
    (globals.countAck slot).bcastBuffer other = globals.bcastBuffer other ∧
      (globals.countAck slot).rDegree other = globals.rDegree other := by
  by_cases full : globals.rDegree slot + 1 = fanIn
  · rw [Globals.countAck_of_full full]
    exact ⟨Function.update_of_ne apart .., Function.update_of_ne apart ..⟩
  · rw [Globals.countAck_of_not_full full]
    exact ⟨rfl, Function.update_of_ne apart ..⟩

/-- A walk within the first turn, before it counts PSN 0. -/
structure BeforeZero (globals : Globals) (id : Nat) (walk : Globals × Int) :
    Prop where
  slot : walk.1.bcastBuffer 0 = globals.bcastBuffer 0
  degree : walk.1.rDegree 0 = globals.rDegree 0
  latest : walk.1.latestAck = globals.latestAck
  above : globals.latestAck id < walk.2
  within : walk.2 < N

/-- What such a walk leaves of PSN 0. -/
structure KeepsZero (globals : Globals) (id : Nat) (result : Globals) :
    Prop where
  state : (result.bcastBuffer 0).state = (globals.bcastBuffer 0).state
  degree : result.rDegree 0 ≤
    globals.rDegree 0 + if globals.latestAck id = -1 then 1 else 0

theorem idx_ne_zero (positive : 0 < psn) (within : psn < N) :
    (0 : Int) ≠ idx psn := by
  rw [idx_of_inRing ⟨positive.le, within⟩]
  exact positive.ne

theorem BeforeZero.again (latest : -1 ≤ globals.latestAck id)
    (before : BeforeZero globals id walk) {next : Globals × Int}
    (round : ackRound id walk = .again next) :
    BeforeZero globals id next := by
  obtain ⟨rfl, more⟩ := ackRound_eq_again round
  rw [before.latest] at more
  have above := before.above
  have within := before.within
  have apart : (0 : Int) ≠ idx walk.2 := idx_ne_zero (by omega) within
  obtain ⟨slot, degree⟩ := countAck_of_ne walk.1 apart
  exact ⟨slot.trans before.slot, degree.trans before.degree,
    (AckChange.countAck walk.1 _).latestAck.trans before.latest,
    by simp only; omega, by simp only; omega⟩

theorem BeforeZero.stop (latest : -1 ≤ globals.latestAck id)
    (few : globals.latestAck id = -1 → globals.rDegree 0 + 1 < fanIn)
    (before : BeforeZero globals id walk)
    (round : ackRound id walk = .stop result) :
    KeepsZero globals id result := by
  obtain ⟨rfl, last⟩ := ackRound_eq_stop round
  rw [before.latest] at last
  by_cases isZero : walk.2 = 0
  · -- The last PSN of the walk is 0, and the other child is missing.
    have none : globals.latestAck id = -1 := by omega
    have zero : idx walk.2 = 0 := by rw [isZero]; rfl
    have notFull : walk.1.rDegree (idx walk.2) + 1 ≠ fanIn := by
      rw [zero, before.degree]
      exact (few none).ne
    rw [Globals.countAck_of_not_full notFull, zero]
    refine ⟨congrArg AggBuffer.state before.slot, ?_⟩
    simp only [Globals.raise, Function.update_self, before.degree, none,
      if_true, le_refl]
  · have above := before.above
    have apart : (0 : Int) ≠ idx walk.2 :=
      idx_ne_zero (by omega) before.within
    obtain ⟨slot, degree⟩ := countAck_of_ne walk.1 apart
    rw [before.slot] at slot
    rw [before.degree] at degree
    exact ⟨congrArg AggBuffer.state slot, by omega⟩

section Rounds

variable (latest : -1 ≤ globals.latestAck id)
  (few : globals.latestAck id = -1 → globals.rDegree 0 + 1 < fanIn)
  (above : globals.latestAck id < high) (within : high < N)

include latest few above within

theorem ackRound_keepsZero {slot : Int}
    (returned : iterate (ackRound id) fuel
      (globals.mark id slot, high) = some result) :
    KeepsZero globals id result :=
  iterate_invariant (BeforeZero globals id) (KeepsZero globals id)
    (fun _ _ before round => before.again latest round)
    (fun _ _ before round => before.stop latest few round)
    ⟨rfl, rfl, rfl, above, within⟩ returned

theorem nakRound_keepsZero
    (returned : iterate (nakRound id) fuel (globals, high) = some result) :
    KeepsZero globals id result := by
  refine iterate_invariant (BeforeZero globals id) (KeepsZero globals id)
    ?_ ?_ ⟨rfl, rfl, rfl, above, within⟩ returned
  · intro walk next before round
    by_cases fresh : walk.1.unacknowledged id walk.2
    · rw [nakRound_of_unacknowledged fresh] at round
      have marked : BeforeZero globals id
          (walk.1.mark id (idx walk.2), walk.2) :=
        ⟨before.slot, before.degree, before.latest, before.above,
          before.within⟩
      exact marked.again latest round
    · rw [nakRound_of_acknowledged fresh] at round
      obtain rfl := Round.again.inj round
      exact before
  · intro walk result before round
    by_cases fresh : walk.1.unacknowledged id walk.2
    · rw [nakRound_of_unacknowledged fresh] at round
      have marked : BeforeZero globals id
          (walk.1.mark id (idx walk.2), walk.2) :=
        ⟨before.slot, before.degree, before.latest, before.above,
          before.within⟩
      exact marked.stop latest few round
    · rw [nakRound_of_acknowledged fresh] at round
      cases round

end Rounds

theorem unacknowledged_of_ends (ends : Ends (nakRound id) walk) :
    walk.1.unacknowledged id walk.2 := by
  by_contra spins
  refine not_ends_of_invariant (· = walk) ?_ rfl ends
  rintro other rfl
  exact ⟨other, nakRound_of_acknowledged spins, rfl⟩

end Walk

section Preservation

variable {config : Config} {globals next result : Globals}
  {id fuel conn : Nat} {high psn : Int} {rule : Rule} {packet : Packet}
  {frames : List Frame}

theorem acknowledging_setLatestAck (nonneg : 0 ≤ high) :
    (globals.setLatestAck id high).acknowledging =
      Function.update globals.acknowledging id true := by
  funext i
  by_cases same : i = id
  · simp [Globals.acknowledging, Globals.setLatestAck, same, nonneg]
  · simp [Globals.acknowledging, Globals.setLatestAck, same]

theorem tally_lt_of_missing {marked : Nat → Bool} {i : Nat}
    (isChild : i < fanIn) (missing : marked i = false) :
    tally fanIn marked < fanIn := by
  refine lt_of_le_of_ne tally_le fun full => ?_
  rw [tally_eq_total_iff] at full
  exact Bool.noConfusion ((full i isChild).symm.trans missing)

theorem FirstTurn.few {i : Nat} (first : FirstTurn globals)
    (isChild : id < fanIn) (isChild' : i < fanIn) (different : i ≠ id)
    (missing : globals.latestAck i = -1)
    (none : globals.latestAck id = -1) : globals.rDegree 0 + 1 < fanIn := by
  have fresh : globals.acknowledging id = false := by
    simp [Globals.acknowledging, none]
  have missing' : Function.update globals.acknowledging id true i = false := by
    simp [Globals.acknowledging, different, missing]
  have bound := tally_lt_of_missing isChild' missing'
  rw [tally_update isChild fresh] at bound
  have degree := first.degree
  omega

theorem FirstTurn.acked (first : FirstTurn globals) (isChild : id < fanIn)
    (latest : -1 ≤ globals.latestAck id) (nonneg : 0 ≤ high)
    (change : AckChange globals result) (keeps : KeepsZero globals id result) :
    FirstTurn (result.setLatestAck id high) := by
  have acknowledging : (result.setLatestAck id high).acknowledging =
      Function.update globals.acknowledging id true := by
    rw [acknowledging_setLatestAck nonneg]
    unfold Globals.acknowledging
    rw [change.latestAck]
  refine ⟨change.downEpsn ▸ first.within, fun sent => ?_, ?_⟩
  · have sent' : 0 < globals.downEpsn := change.downEpsn ▸ sent
    exact keeps.state.trans (first.inUse sent')
  · rw [acknowledging]
    have degree := first.degree
    have kept : (result.setLatestAck id high).rDegree 0 ≤ _ := keeps.degree
    by_cases none : globals.latestAck id = -1
    · have fresh : globals.acknowledging id = false := by
        simp [Globals.acknowledging, none]
      rw [if_pos none] at kept
      rw [tally_update isChild fresh]
      omega
    · have already : Function.update globals.acknowledging id true =
          globals.acknowledging := by
        rw [Function.update_eq_self_iff]
        simp only [Globals.acknowledging, eq_comm (a := true)]
        exact decide_eq_true (by omega)
      rw [if_neg none] at kept
      rw [already]
      omega

/-- The walk of an acknowledgement whose first PSN is in its slot. -/
theorem Globals.Ranged.acked (ranged : globals.Ranged) (isChild : id < fanIn)
    (above : globals.latestAck id < high)
    (change : AckChange globals result)
    (keeps : FirstTurn globals →
      (globals.latestAck id = -1 → globals.rDegree 0 + 1 < fanIn) →
        KeepsZero globals id result) :
    (result.setLatestAck id high).Ranged := by
  have nonneg : 0 ≤ high := by
    have := ranged.latest id
    omega
  refine ⟨?_, ?_, ?_, ?_, ?_, ?_, ?_⟩
  · exact change.downEpsn ▸ ranged.downEpsn
  · intro i
    by_cases same : i = id
    · simp only [Globals.setLatestAck, same, Function.update_self]
      omega
    · simp only [Globals.setLatestAck, Function.update_of_ne same,
        change.latestAck]
      exact ranged.latest i
  · have same : result.downAck = globals.downAck := by rw [change.frame]
    exact same ▸ ranged.downAck
  · intro slot inside
    simp only [Globals.setLatestAck, change.downEpsn]
    rcases change.slots slot with same | cleared
    · rw [same]
      exact ranged.broadcast slot inside
    · rw [cleared]
      exact Or.inl rfl
  · have queue : result.queue = globals.queue := by rw [change.frame]
    have rePsn : result.rePsn = globals.rePsn := by rw [change.frame]
    simp only [Globals.setLatestAck, queue, rePsn]
    exact ranged.queued
  · have jobs : result.jobs = globals.jobs := by rw [change.frame]
    simp only [Globals.setLatestAck, jobs]
    exact ranged.active
  · rintro ⟨i, isChild', missing⟩
    have different : i ≠ id := by
      rintro rfl
      simp only [Globals.setLatestAck, Function.update_self] at missing
      omega
    simp only [Globals.setLatestAck, Function.update_of_ne different,
      change.latestAck] at missing
    have first := ranged.first ⟨i, isChild', missing⟩
    exact first.acked isChild (ranged.latest id) nonneg change
      (keeps first (first.few isChild isChild' different missing))

theorem FirstTurn.lt_of_fresh (first : FirstTurn globals)
    (ranged : globals.Ranged) (nonneg : 0 ≤ high)
    (fresh : globals.unacknowledged id high) : high < N := by
  have within := first.within
  rcases ranged.broadcast _ (inRing_idx nonneg) with zero | sent
  · rw [fresh.2] at zero
    rw [zero]
    decide
  · rw [fresh.2] at sent
    omega

theorem upstreamAck_ranged (ranged : globals.Ranged) (isChild : id < fanIn)
    (taken : upstreamAck fuel globals id high = some next) : next.Ranged := by
  unfold upstreamAck at taken
  split at taken
  · rename_i fresh
    obtain ⟨above, unacknowledged⟩ := fresh
    obtain ⟨counted, returned, rfl⟩ := Option.map_eq_some_iff.mp taken
    have latest := ranged.latest id
    refine ranged.acked isChild above
      ((AckChange.mark _ _ _).trans (ackRound_change returned)) ?_
    intro first few
    have within :=
      first.lt_of_fresh ranged (by omega) unacknowledged
    exact ackRound_keepsZero latest few above within returned
  · obtain rfl := Option.some.inj taken
    exact ranged

theorem nakCovers_ranged (ranged : globals.Ranged) (isChild : id < fanIn)
    (taken : nakCovers fuel globals id high = some next) : next.Ranged := by
  unfold nakCovers at taken
  split at taken
  · rename_i above
    obtain ⟨counted, returned, rfl⟩ := Option.map_eq_some_iff.mp taken
    have latest := ranged.latest id
    refine ranged.acked isChild above (nakRound_change returned) ?_
    intro first few
    have ends : Ends (nakRound id) (globals, high) :=
      ⟨fuel, by rw [returned]; rfl⟩
    have unacknowledged : globals.unacknowledged id high :=
      unacknowledged_of_ends ends
    have within := first.lt_of_fresh ranged (by omega) unacknowledged
    exact nakRound_keepsZero latest few above within returned
  · obtain rfl := Option.some.inj taken
    exact ranged

theorem upstreamNak_ranged (ranged : globals.Ranged) (isChild : id < fanIn)
    (nonneg : 0 ≤ psn)
    (taken : upstreamNak fuel globals id rule psn = some next) :
    next.Ranged := by
  obtain ⟨counted, covered, rfl⟩ := Option.map_eq_some_iff.mp taken
  have ranged' := nakCovers_ranged ranged isChild covered
  refine ⟨ranged'.downEpsn, ranged'.latest, ranged'.downAck,
    ranged'.broadcast, ?_, ranged'.active, fun missing => ?_⟩
  · intro other member
    by_cases same : other = id
    · simp only [same, Function.update_self]
      exact nonneg
    · simp only [Function.update_of_ne same]
      rcases List.mem_append.mp member with old | new
      · exact ranged'.queued other old
      · exact absurd (List.mem_singleton.mp new) same
  · obtain ⟨within, inUse, degree⟩ := ranged'.first missing
    exact ⟨within, inUse, degree⟩

theorem Globals.Ranged.congr (ranged : globals.Ranged)
    (same : SameBroadcast globals next) (downAck : -1 ≤ next.downAck)
    (queued : ∀ id ∈ next.queue, 0 ≤ next.rePsn id)
    (active : ∀ job ∈ next.jobs, 0 ≤ job.psn) : next.Ranged := by
  refine ⟨?_, ?_, downAck, ?_, queued, active, ?_⟩
  · rw [same.downEpsn]
    exact ranged.downEpsn
  · rw [same.latestAck]
    exact ranged.latest
  · rw [same.bcastBuffer, same.downEpsn]
    exact ranged.broadcast
  · rw [same.latestAck]
    intro missing
    obtain ⟨within, inUse, degree⟩ := ranged.first missing
    refine ⟨?_, ?_, ?_⟩
    · rw [same.downEpsn]
      exact within
    · rw [same.downEpsn, same.bcastBuffer]
      exact inUse
    · unfold Globals.acknowledging
      rw [same.rDegree, same.latestAck]
      exact degree

theorem downAckCovers_ranged (ranged : globals.Ranged)
    (covered : downAckCovers fuel globals high = some next) : next.Ranged := by
  have same := sameBroadcast_of_downAckCovers covered
  obtain ⟨cleared, change, rfl⟩ := downAckCovers_spec covered
  have queue : cleared.queue = globals.queue := by rw [change.frame]
  have rePsn : cleared.rePsn = globals.rePsn := by rw [change.frame]
  have jobs : cleared.jobs = globals.jobs := by rw [change.frame]
  refine ranged.congr same (le_trans ranged.downAck (le_max_left _ _)) ?_ ?_
  · simp only [queue, rePsn]
    exact ranged.queued
  · simp only [jobs]
    exact ranged.active

theorem cache_ranged {data : Nat → UInt32} {len : Nat} {packetType : UInt8}
    (ranged : globals.Ranged)
    (free : (globals.bcastBuffer (idx psn)).state = false)
    (cached : cache globals rule psn data len packetType =
      some (next, frames)) : next.Ranged := by
  obtain ⟨rfl, rfl, -⟩ := cache_eq_some cached
  have nonneg := ranged.downEpsn
  refine ⟨by simp only; omega, ranged.latest, ranged.downAck, ?_,
    ranged.queued, ranged.active, fun missing => ?_⟩
  · intro slot inside
    by_cases isNew : slot = idx globals.downEpsn
    · right
      simp [isNew, cachedSlot]
    · simp only [Function.update_of_ne isNew]
      rcases ranged.broadcast slot inside with zero | sent
      · exact Or.inl zero
      · exact Or.inr (by omega)
  · obtain ⟨within, inUse, degree⟩ := ranged.first missing
    have below : globals.downEpsn < N := by
      refine lt_of_le_of_ne within fun full => ?_
      have zero : idx globals.downEpsn = 0 := by rw [full]; rfl
      have used := inUse (by rw [full]; decide)
      rw [zero, used] at free
      exact Bool.noConfusion free
    refine ⟨by simp only; omega, fun _ => ?_, degree⟩
    by_cases isFirst : globals.downEpsn = 0
    · have zero : idx globals.downEpsn = 0 := by rw [isFirst]; rfl
      simp [zero, cachedSlot]
    · have apart : (0 : Int) ≠ idx globals.downEpsn :=
        idx_ne_zero (by omega) below
      simp only [Function.update_of_ne apart]
      exact inUse (by omega)

theorem Handled.ranged (ranged : globals.Ranged)
    (handled : Handled config fuel globals conn rule packet next frames) :
    next.Ranged := by
  have gathered : (gathered config globals conn packet).Ranged :=
    ranged.congr sameBroadcast_gathered ranged.downAck ranged.queued
      ranged.active
  cases handled with
  | replied => exact ranged
  | broadcast _ _ free cached => exact cache_ranged ranged free cached
  | waiting => exact gathered
  | uploaded => exact gathered
  | finished fresh isRoot full finished =>
      rcases finish_cases finished with ⟨cached, free, took, covered⟩ |
        ⟨-, rfl | rfl⟩
      · exact downAckCovers_ranged (cache_ranged gathered free took) covered
      · exact gathered.congr ⟨rfl, rfl, rfl, rfl, rfl⟩ gathered.downAck
          gathered.queued gathered.active
      · exact gathered
  | parentAck _ _ _ covered => exact downAckCovers_ranged ranged covered
  | parentNak _ _ _ covered => exact downAckCovers_ranged ranged covered
  | childAck isChild _ taken => exact upstreamAck_ranged ranged isChild taken
  | childNak isChild _ taken =>
      exact upstreamNak_ranged ranged isChild (Int.natCast_nonneg _) taken

end Preservation

section Runs

variable {config : Config} {memory : Globals} {fuel : Nat}
  {world next : World} {event : Event}

theorem ranged_initAll : (initAll config memory).Ranged := by
  refine ⟨le_refl _, fun _ => le_refl _, le_refl _, ?_, ?_, ?_, fun _ => ?_⟩
  · intro slot inside
    simp [initAll, inside, AggBuffer.zero]
  · intro id member
    exact absurd member (List.not_mem_nil)
  · intro job member
    exact absurd member (List.not_mem_nil)
  · have inside : InRing 0 := by decide
    have small : (0 : Int) ≤ N := by decide
    refine ⟨small, fun sent => absurd sent (lt_irrefl 0), ?_⟩
    simp [initAll, inside]

theorem step_ranged (ranged : world.globals.Ranged)
    (taken : step config fuel world event = some next) :
    next.globals.Ranged := by
  rcases step_cases taken with
    ⟨conn, packet, frames, rule, rfl, -, handled, -⟩ |
    ⟨id, queue, rfl, queued, rfl⟩ |
    ⟨index, job, rfl, active, ⟨-, rfl⟩ | ⟨-, rfl⟩⟩
  · exact handled.ranged ranged
  · refine ranged.congr ⟨rfl, rfl, rfl, rfl, rfl⟩ ranged.downAck ?_ ?_
    · intro other member
      exact ranged.queued other (queued ▸ List.mem_cons_of_mem id member)
    · intro job member
      rcases List.mem_append.mp member with old | new
      · exact ranged.active job old
      · rw [List.mem_singleton.mp new]
        exact ranged.queued id (queued ▸ List.mem_cons_self)
  · refine ranged.congr ⟨rfl, rfl, rfl, rfl, rfl⟩ ranged.downAck
      ranged.queued ?_
    intro other member
    rcases List.mem_or_eq_of_mem_set member with old | rfl
    · exact ranged.active other old
    · have nonneg := ranged.active job (List.mem_of_getElem? active)
      simp only
      omega
  · refine ranged.congr ⟨rfl, rfl, rfl, rfl, rfl⟩ ranged.downAck
      ranged.queued ?_
    intro other member
    exact ranged.active other (List.mem_of_mem_eraseIdx member)

theorem Reached.ranged (reached : Reached config memory world) :
    world.globals.Ranged := by
  obtain ⟨fuel, reachable⟩ := reached
  exact reachable.invariant (fun world => world.globals.Ranged)
    (fun _ _ _ ranged taken => step_ranged ranged taken) ranged_initAll

end Runs

end IncEmulation.Switch
