import IncEmulation.Switch.Exactness

/-!
# The window of the aggregation slots

The slots hold exactly the PSNs behind `down_ack`: the backward walk of an
acknowledgement clears all PSNs that it covers and comes to its end.  So a child
finds its slot in use when it is a full ring ahead of `down_ack`.
-/

namespace IncEmulation.Switch

open Gather Loop

structure Window (globals : Globals) (streams : Nat → List Packet) : Prop where
  behind : ∀ i < fanIn, globals.downAck < count streams i
  kept : ∀ psn : Nat, globals.downAck < psn →
    (∀ i < fanIn, psn < count streams i) → globals.Aggregating psn
  gone : ∀ psn : Nat, globals.Aggregating psn → globals.downAck < psn
  low : -1 ≤ globals.downAck
  outside : ¬globals.Aggregating (-1)

section Holding

variable {globals next : Globals} {streams : Nat → List Packet} {psn : Nat}
  {conn : Nat}

theorem Collecting.holds_iff (collecting : Collecting globals streams) :
    globals.holds (psn % N.toNat) = some psn ↔ globals.Aggregating psn := by
  constructor
  · intro held
    have stored := (collecting.held held).stored
    unfold Globals.holds at held
    split at held
    · rename_i used
      rw [← idx_natCast] at used
      exact ⟨used.2, stored⟩
    · cases held
  · rintro ⟨state, stored⟩
    exact holds_idx state stored

/-- The packet before the last turn of the ring is still in the slot. -/
theorem arrivalState_iff (collecting : Collecting globals streams)
    (window : Window globals streams) (isChild : conn < fanIn) :
    globals.arrivalState conn (idx (count streams conn)) = true ↔
      ∃ psn : Nat, psn + N.toNat = count streams conn ∧
        globals.downAck < psn := by
  have size : N.toNat = 300 := rfl
  have turn : ∀ psn : Nat, psn + N.toNat = count streams conn →
      psn % N.toNat = count streams conn % N.toNat := by
    intro psn same
    rw [← same, Nat.add_mod_right]
  constructor
  · intro flag
    have cell : count streams conn % N.toNat < N.toNat :=
      Nat.mod_lt _ (by decide)
    cases held : globals.holds (count streams conn % N.toNat) with
    | none =>
        have unmarked := (collecting.empty _ cell held).2.2 conn isChild
        rw [← idx_natCast, flag] at unmarked
        cases unmarked
    | some psn =>
        have place := collecting.occupied.place held
        have sameCell : idx psn = idx (count streams conn) := by
          rw [idx_natCast, idx_natCast, place]
        have collected := collecting.held held
        have passed := (collected.arrival conn isChild).mp (sameCell ▸ flag)
        have above := window.gone psn (collecting.holds_iff.mp (place ▸ held))
        rw [size] at place ⊢
        exact ⟨count streams conn - 300, by omega, by omega⟩
  · rintro ⟨psn, isLast, above⟩
    have held : globals.holds (psn % N.toNat) = some psn := by
      rcases collecting.occupied.kept isChild (by omega : psn < _) with
        held | finished
      · exact held
      · exact collecting.holds_iff.mpr (window.kept psn above finished)
    have flag := ((collecting.held held).arrival conn isChild).mpr (by omega)
    rwa [idx_natCast, turn psn isLast, ← idx_natCast] at flag

end Holding

/-! ## Acknowledgements move the window -/

section Moving

variable {config : Config} {globals next : Globals}
  {streams : Nat → List Packet} {high : Int} {fuel : Nat} {conn : Nat}
  {packet : Packet}

/-- The backward walk at the PSN `walk.2`: what it has passed is cleared. -/
structure ClearWalk (globals : Globals) (high : Int)
    (walk : Globals × Int) : Prop where
  above : globals.downAck ≤ walk.2
  below : walk.2 ≤ high
  holds : ∀ psn : Int, walk.1.Aggregating psn ↔
    globals.Aggregating psn ∧ (psn ≤ walk.2 ∨ high < psn)

theorem ClearWalk.start (above : globals.downAck < high) :
    ClearWalk globals high (globals, high) := by
  refine ⟨above.le, le_refl high, fun psn => ?_⟩
  simp only [le_or_gt, and_true]

theorem ClearWalk.lt (window : Window globals streams)
    {walk : Globals × Int} (clear : ClearWalk globals high walk)
    (holds : walk.1.Aggregating walk.2) : globals.downAck < walk.2 := by
  have before := ((clear.holds walk.2).mp holds).1
  have low := window.low
  have above := clear.above
  by_cases outside : walk.2 = -1
  · rw [outside] at before
    exact absurd before window.outside
  · obtain ⟨psn, isPsn⟩ := Int.eq_ofNat_of_zero_le (by omega : 0 ≤ walk.2)
    rw [isPsn] at before ⊢
    exact window.gone psn before

theorem ClearWalk.again (window : Window globals streams)
    {walk after : Globals × Int} (clear : ClearWalk globals high walk)
    (round : clearRound walk = .again after) :
    ClearWalk globals high after ∧
      (after.2 - globals.downAck).toNat <
        (walk.2 - globals.downAck).toNat := by
  obtain ⟨holds, rfl⟩ := aggregating_of_clearRound_again round
  have above := clear.lt window holds
  have below := clear.below
  refine ⟨⟨by simp only; omega, by simp only; omega, fun psn => ?_⟩,
    by simp only; omega⟩
  rw [aggregating_clearAgg holds, clear.holds psn]
  simp only
  constructor
  · rintro ⟨⟨before, side⟩, different⟩
    exact ⟨before, by omega⟩
  · rintro ⟨before, side⟩
    exact ⟨⟨before, by omega⟩, by omega⟩

/-- It stops at `down_ack`. -/
theorem ClearWalk.stop (window : Window globals streams)
    (passed : ∀ i < fanIn, high < count streams i)
    {walk : Globals × Int} {cleared : Globals}
    (clear : ClearWalk globals high walk)
    (round : clearRound walk = .stop cleared) :
    ∀ psn : Int, cleared.Aggregating psn ↔
      globals.Aggregating psn ∧ (psn ≤ globals.downAck ∨ high < psn) := by
  have stops : ¬walk.1.Aggregating walk.2 := by
    intro holds
    rw [clearRound_of_aggregating holds] at round
    cases round
  obtain rfl := clearRound_eq_stop round
  have low := window.low
  have atLast : walk.2 = globals.downAck := by
    by_contra different
    have above := clear.above
    have below := clear.below
    obtain ⟨psn, isPsn⟩ := Int.eq_ofNat_of_zero_le (by omega : 0 ≤ walk.2)
    refine stops ((clear.holds walk.2).mpr ⟨?_, Or.inl (le_refl _)⟩)
    rw [isPsn]
    refine window.kept psn (by omega) fun i bound => ?_
    have := passed i bound
    omega
  intro psn
  rw [clear.holds psn, atLast]

theorem Window.covers (window : Window globals streams)
    (passed : ∀ i < fanIn, high < count streams i)
    (covered : downAckCovers fuel globals high = some next) :
    Window next streams := by
  unfold downAckCovers at covered
  split at covered
  · rename_i above
    obtain ⟨cleared, returned, rfl⟩ := Option.map_eq_some_iff.mp covered
    have holds : ∀ psn : Int, cleared.Aggregating psn ↔
        globals.Aggregating psn ∧ (psn ≤ globals.downAck ∨ high < psn) :=
      iterate_invariant (ClearWalk globals high)
        (fun cleared => ∀ psn : Int, cleared.Aggregating psn ↔
          globals.Aggregating psn ∧ (psn ≤ globals.downAck ∨ high < psn))
        (fun _ _ clear round => (clear.again window round).1)
        (fun _ _ clear round => clear.stop window passed round)
        (.start above) returned
    have low := window.low
    refine ⟨passed, ?_, ?_, by simp only; omega, ?_⟩
    · intro psn behind all
      simp only at behind
      exact (holds psn).mpr
        ⟨window.kept psn (by omega) all, Or.inr behind⟩
    · intro psn held
      obtain ⟨before, side⟩ := (holds psn).mp held
      have := window.gone psn before
      simp only
      omega
    · exact fun held => window.outside ((holds (-1)).mp held).1
  · obtain rfl := Option.some.inj covered
    exact window

theorem Window.ends (window : Window globals streams) (high : Int) :
    ∃ enough, ∀ fuel, enough ≤ fuel → ∃ next,
      downAckCovers fuel globals high = some next := by
  obtain ⟨enough, next, covered⟩ :=
    @downAckCovers_of_ends globals high fun above =>
      ends_of_measure (ClearWalk globals high)
        (fun walk => (walk.2 - globals.downAck).toNat)
        (fun _ _ clear round => clear.again window round) (.start above)
  exact ⟨enough, fun fuel bound =>
    ⟨next, downAckCovers_extends bound globals high next covered⟩⟩

theorem Window.congr (window : Window globals streams)
    (aggBuffer : next.aggBuffer = globals.aggBuffer)
    (downAck : next.downAck = globals.downAck) : Window next streams := by
  refine ⟨?_, ?_, ?_, ?_, ?_⟩
  · rw [downAck]
    exact window.behind
  · unfold Globals.Aggregating
    rw [downAck, aggBuffer]
    exact window.kept
  · unfold Globals.Aggregating
    rw [downAck, aggBuffer]
    exact window.gone
  · rw [downAck]
    exact window.low
  · unfold Globals.Aggregating
    rw [aggBuffer]
    exact window.outside

theorem Window.contribute (window : Window globals streams)
    (collecting : Collecting globals streams)
    (fresh : Fresh globals conn packet) :
    Window (gathered config globals conn packet)
      (extend streams conn packet) := by
  have isNext := fresh.psn_eq collecting
  have first := fresh.first
  rw [isNext] at first
  obtain ⟨state, stored, -⟩ := @shape_gathered config globals conn packet
  have downAck : (gathered config globals conn packet).downAck =
    globals.downAck := rfl
  have own : ∀ psn : Int, idx psn = idx packet.psn →
      ((gathered config globals conn packet).Aggregating psn ↔
        psn = packet.psn) := by
    intro psn sameCell
    unfold Globals.Aggregating
    rw [sameCell]
    exact ⟨fun holds => holds.2.symm.trans stored,
      fun same => ⟨state, stored.trans same.symm⟩⟩
  have other : ∀ psn : Int, idx psn ≠ idx packet.psn →
      ((gathered config globals conn packet).Aggregating psn ↔
        globals.Aggregating psn) := by
    intro psn apart
    unfold Globals.Aggregating
    rw [(@aggBuffer_gathered_of_ne config globals conn packet _ apart).1]
  refine ⟨?_, ?_, ?_, window.low, ?_⟩
  · intro i bound
    have before := window.behind i bound
    have grows := le_advance (count streams) conn i
    rw [count_extend, downAck]
    omega
  · intro psn above all
    rw [count_extend] at all
    by_cases isOwn : psn = packet.psn
    · exact (own psn (by rw [isOwn])).mpr (congrArg Nat.cast isOwn)
    · have different : psn ≠ count streams conn := by omega
      have passed : ∀ i < fanIn, psn < count streams i := fun i bound =>
        (lt_advance_iff different).mp (all i bound)
      have holds := window.kept psn above passed
      refine (other psn fun sameCell => ?_).mpr holds
      have held := collecting.holds_iff.mpr holds
      rw [idx_natCast, idx_natCast] at sameCell
      rw [Int.ofNat_inj.mp sameCell, isNext] at held
      have admitted := collecting.admitted fresh.isChild first held
      have := passed conn fresh.isChild
      omega
  · intro psn holds
    by_cases sameCell : idx (psn : Int) = idx packet.psn
    · have same := (own psn sameCell).mp holds
      have := window.behind conn fresh.isChild
      rw [downAck]
      omega
    · exact window.gone psn ((other psn sameCell).mp holds)
  · intro holds
    have nonneg : 0 ≤ (packet.psn : Int) := Int.natCast_nonneg _
    have inside := (inRing_idx nonneg).1
    have below : idx (-1) = -1 := by decide
    exact window.outside ((other (-1) (by omega)).mp holds)

theorem window_initAll {memory : Globals}
    (outside : ¬memory.Aggregating (-1))
    (nothing : ∀ i < fanIn, streams i = []) :
    Window (initAll config memory) streams := by
  have downAck : (initAll config memory).downAck = -1 := rfl
  have free : ∀ psn : Nat, ¬(initAll config memory).Aggregating psn := by
    intro psn holds
    have zero : (initAll config memory).aggBuffer (idx psn) = .zero := by
      simp only [initAll, inRing_idx (Int.natCast_nonneg psn), if_true]
    have state := holds.1
    rw [zero] at state
    cases state
  have before : ¬InRing (idx (-1)) := by decide
  refine ⟨fun i _ => by rw [downAck]; omega, fun psn _ all => ?_,
    fun psn holds => absurd holds (free psn), le_refl _, ?_⟩
  · have none := all 0 (by decide)
    rw [count, nothing 0 (by decide)] at none
    cases none
  · simp only [Globals.Aggregating, initAll, before, if_false]
    exact outside

end Moving

end IncEmulation.Switch
