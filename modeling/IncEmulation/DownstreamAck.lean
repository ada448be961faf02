import IncEmulation.SwitchMain
import Mathlib.Tactic.Push

/-!
# Acknowledgements of the parent

`handle_downstream_ack` walks over all PSNs up to the acknowledged one.  The
walk may pass a slot several times and releases it at most once, for the PSN
that the slot stores.
-/

namespace IncEmulation

namespace SwitchContext

/-- Every slot in use stores a PSN that maps to it. -/
def InPlace (ctx : SwitchContext) : Prop :=
  ∀ index < switchArrayLength,
    (ctx.psnStates index).aggBuffer.state = true →
      (ctx.psnStates index).aggBuffer.psn.tmod switchArrayLength = index

/-- The slot is in use for a PSN between the last acknowledged one and `psn`. -/
def Acknowledges (ctx : SwitchContext) (psn index : Nat) : Prop :=
  (ctx.psnStates index).aggBuffer.state = true ∧
    (ctx.downAck : Int) < (ctx.psnStates index).aggBuffer.psn ∧
    (ctx.psnStates index).aggBuffer.psn ≤ psn

/-- An ACK for `psn` is worth the ACKs for all PSNs up to it. -/
structure Cumulative (ctx after : SwitchContext) (psn : Nat) : Prop where
  singles : after =
    (List.range' (ctx.downAck + 1) (psn - ctx.downAck)).foldl
      (fun ctx psn => handleDownstreamAck ctx psn false) ctx
  later : ∀ earlier ≤ psn, handleDownstreamAck after earlier false = after
  emptied : ∀ index < switchArrayLength, ctx.Acknowledges psn index →
    after.psnStates index = (ctx.psnStates index).clear
  kept : ∀ index < switchArrayLength, ¬ctx.Acknowledges psn index →
    after.psnStates index = ctx.psnStates index
  frame : after =
    { ctx with
      psnStates := after.psnStates
      downAck := max ctx.downAck psn }

variable {ctx : SwitchContext} {psn index : Nat} {psns : List Nat}

/-- The walk releases a slot for no other PSN than the one it stores. -/
theorem foldl_releaseSlot_psnStates :
    (∃ stored ∈ psns, idx stored = index ∧
        (ctx.psnStates index).aggBuffer.state = true ∧
        (ctx.psnStates index).aggBuffer.psn = stored) ∧
      (psns.foldl releaseSlot ctx).psnStates index =
        (ctx.psnStates index).clear ∨
    (¬∃ stored ∈ psns, idx stored = index ∧
        (ctx.psnStates index).aggBuffer.state = true ∧
        (ctx.psnStates index).aggBuffer.psn = stored) ∧
      (psns.foldl releaseSlot ctx).psnStates index = ctx.psnStates index := by
  induction psns generalizing ctx with
  | nil => exact .inr ⟨by simp, rfl⟩
  | cons psn psns induction =>
      rw [List.foldl_cons]
      have rest := @induction (releaseSlot ctx psn)
      by_cases here : idx psn = index ∧
          (ctx.psnStates index).aggBuffer.state = true ∧
          (ctx.psnStates index).aggBuffer.psn = psn
      · obtain ⟨rfl, inUse, stored⟩ := here
        have released : (releaseSlot ctx psn).psnStates (idx psn) =
            (ctx.psnStates (idx psn)).clear := by
          simp [releaseSlot, inUse, stored, clearSlot]
        rw [released] at rest
        refine .inl ⟨⟨psn, List.mem_cons_self, rfl, inUse, stored⟩, ?_⟩
        rcases rest with ⟨⟨_, _, _, inUseAfter, _⟩, _⟩ | ⟨_, same⟩
        · cases inUseAfter
        · exact same
      · have untouched : (releaseSlot ctx psn).psnStates index =
            ctx.psnStates index := by
          dsimp only [releaseSlot]
          split_ifs with matched
          · have elsewhere : index ≠ idx psn := by
              rintro rfl
              exact here ⟨rfl, matched⟩
            exact Function.update_of_ne elsewhere ..
          · rfl
        rw [untouched] at rest
        have member : (∃ stored ∈ psn :: psns, idx stored = index ∧
            (ctx.psnStates index).aggBuffer.state = true ∧
            (ctx.psnStates index).aggBuffer.psn = stored) ↔
            ∃ stored ∈ psns, idx stored = index ∧
              (ctx.psnStates index).aggBuffer.state = true ∧
              (ctx.psnStates index).aggBuffer.psn = stored := by
          rw [List.exists_mem_cons_iff, or_iff_right here]
        rw [member]
        exact rest

theorem foldl_releaseSlot_eq :
    psns.foldl releaseSlot ctx =
      { ctx with psnStates := (psns.foldl releaseSlot ctx).psnStates } := by
  induction psns generalizing ctx with
  | nil => rfl
  | cons psn psns induction =>
      rw [List.foldl_cons]
      have first : releaseSlot ctx psn =
          { ctx with psnStates := (releaseSlot ctx psn).psnStates } := by
        dsimp only [releaseSlot]
        split_ifs <;> rfl
      rw [induction]
      rw [first]

theorem releaseSlot_withDownAck (ctx : SwitchContext) (downAck psn : Nat) :
    releaseSlot { ctx with downAck := downAck } psn =
      { releaseSlot ctx psn with downAck := downAck } := by
  unfold releaseSlot
  dsimp only
  split_ifs <;> rfl

theorem handleDownstreamAck_succ (ctx : SwitchContext) :
    handleDownstreamAck ctx (ctx.downAck + 1) false =
      { releaseSlot ctx (ctx.downAck + 1) with
        downAck := ctx.downAck + 1 } := by
  simp [handleDownstreamAck, List.range'_succ]

/-- Single ACKs add up to the walk. -/
theorem foldl_handleDownstreamAck (count : Nat) :
    (List.range' (ctx.downAck + 1) count).foldl
        (fun ctx psn => handleDownstreamAck ctx psn false) ctx =
      { (List.range' (ctx.downAck + 1) count).foldl releaseSlot ctx with
        downAck := ctx.downAck + count } := by
  induction count with
  | zero => rfl
  | succ count induction =>
      have last : ctx.downAck + 1 + 1 * count = ctx.downAck + count + 1 := by
        omega
      rw [List.range'_concat, List.foldl_append, List.foldl_append, induction,
        last]
      simp only [List.foldl_cons, List.foldl_nil]
      have next := handleDownstreamAck_succ
        { (List.range' (ctx.downAck + 1) count).foldl releaseSlot ctx with
          downAck := ctx.downAck + count }
      rw [releaseSlot_withDownAck] at next
      exact next

theorem handleDownstreamAck_of_le (le : psn ≤ ctx.downAck) :
    handleDownstreamAck ctx psn false = ctx := by
  simp [handleDownstreamAck, Nat.not_lt.mpr le]

theorem handleDownstreamAck_of_lt (later : ctx.downAck < psn) :
    handleDownstreamAck ctx psn false =
      { (List.range' (ctx.downAck + 1) (psn - ctx.downAck)).foldl releaseSlot
          ctx with downAck := psn } := by
  simp [handleDownstreamAck, later]

/-- The PSNs of the walk are those after the last acknowledged one. -/
theorem InPlace.acknowledges_iff (inPlace : ctx.InPlace)
    (bound : index < switchArrayLength) :
    (∃ stored ∈ List.range' (ctx.downAck + 1) (psn - ctx.downAck),
        idx stored = index ∧
          (ctx.psnStates index).aggBuffer.state = true ∧
          (ctx.psnStates index).aggBuffer.psn = stored) ↔
      ctx.Acknowledges psn index := by
  constructor
  · rintro ⟨stored, member, -, inUse, same⟩
    obtain ⟨least, most⟩ := List.mem_range'_1.mp member
    refine ⟨inUse, ?_, ?_⟩
    · rw [same]
      omega
    · rw [same]
      omega
  · rintro ⟨inUse, later, le⟩
    have here := inPlace index bound inUse
    obtain ⟨stored, same⟩ := Int.eq_ofNat_of_zero_le
      (show 0 ≤ (ctx.psnStates index).aggBuffer.psn by omega)
    rw [same] at here later le
    refine ⟨stored, List.mem_range'_1.mpr ⟨by omega, by omega⟩, ?_, inUse, same⟩
    exact Int.ofNat_inj.mp here

/-- Downstream ACKs are cumulative. -/
theorem handleDownstreamAck_cumulative (ctx : SwitchContext)
    (inPlace : ctx.InPlace) (psn : Nat) :
    ctx.Cumulative (handleDownstreamAck ctx psn false) psn := by
  rcases Nat.lt_or_ge ctx.downAck psn with later | old
  · have after := handleDownstreamAck_of_lt later
    have states (index : Nat) :
        (handleDownstreamAck ctx psn false).psnStates index =
          ((List.range' (ctx.downAck + 1) (psn - ctx.downAck)).foldl
            releaseSlot ctx).psnStates index := by
      rw [after]
    refine ⟨?_, ?_, ?_, ?_, ?_⟩
    · rw [after, foldl_handleDownstreamAck,
        Nat.add_sub_cancel' (Nat.le_of_lt later)]
    · intro earlier le
      apply handleDownstreamAck_of_le
      rw [after]
      exact le
    · intro index bound acknowledges
      rw [states]
      rcases foldl_releaseSlot_psnStates with ⟨-, released⟩ | ⟨none, -⟩
      · exact released
      · exact absurd ((inPlace.acknowledges_iff bound).mpr acknowledges) none
    · intro index bound acknowledges
      rw [states]
      rcases foldl_releaseSlot_psnStates with ⟨some, -⟩ | ⟨-, same⟩
      · exact absurd ((inPlace.acknowledges_iff bound).mp some) acknowledges
      · exact same
    · rw [after, Nat.max_eq_right (Nat.le_of_lt later)]
      exact congrArg (fun ctx : SwitchContext => { ctx with downAck := psn })
        foldl_releaseSlot_eq
  · have after := handleDownstreamAck_of_le old
    have none (index : Nat) : ¬ctx.Acknowledges psn index := by
      rintro ⟨-, above, below⟩
      omega
    refine ⟨?_, ?_, ?_, ?_, ?_⟩
    · rw [after, Nat.sub_eq_zero_of_le old]
      rfl
    · intro earlier le
      rw [after]
      exact handleDownstreamAck_of_le (le.trans old)
    · exact fun index _ acknowledges => absurd acknowledges (none index)
    · intro index _ _
      rw [after]
    · rw [after, Nat.max_eq_left old]

/-- Slot 1 is in use for PSN 301, which an ACK for PSN 2 passes by. -/
theorem handleDownstreamAck_cumulative_aliased :
    ({ switchContextInit 0 with
        psnStates := Function.update (fun _ => initPsnState) 1
          { initPsnState with
            aggBuffer := { AggBuffer.init with state := true, psn := 301 } } } :
      SwitchContext).Cumulative
      (handleDownstreamAck
        { switchContextInit 0 with
          psnStates := Function.update (fun _ => initPsnState) 1
            { initPsnState with
              aggBuffer := { AggBuffer.init with state := true, psn := 301 } } }
        2 false) 2 := by
  refine handleDownstreamAck_cumulative _ ?_ 2
  intro index _ inUse
  by_cases own : index = 1
  · subst own
    rfl
  · dsimp only at inUse
    rw [Function.update_of_ne own] at inUse
    cases inUse

end SwitchContext

end IncEmulation
