import IncEmulation.NonTermination.Filling
import IncEmulation.Lib.SlotRing

/-!
# The root pipeline

The root's half of an upward packet is a cell of a slot ring: as long as the
children keep their windows, the sixteen slots show what a slot for every number
would show.  A slot for one number holds the sum of the children that have
arrived, so every frame of a number carries the sum over all of them.
-/

namespace IncEmulation.NonTermination

open Machine SlotRing

structure Upward where
  port : Nat
  transfer : Transfer
  packet : Packet

section Cell

variable {fanIn : Nat} {slot : Slot} {transfer : Transfer} {port : Nat}
  {packet : Packet}

theorem handleUpRoot_again (again : slot.arrived port = true) :
    slot.handleUpRoot fanIn transfer port packet =
      (slot.bumpDegree,
        if slot.arrived fanIn = true then
          [slot.bumpDegree.result transfer port packet.psn packet.opcode]
        else []) := by
  simp only [Slot.handleUpRoot, again, if_true]

theorem handleUpRoot_unfilled (first : slot.arrived port = false)
    (unfilled : (slot.bumpDegree.contribute transfer port packet).full fanIn =
      false) :
    slot.handleUpRoot fanIn transfer port packet =
      (slot.bumpDegree.contribute transfer port packet, []) := by
  simp only [Slot.handleUpRoot, first, unfilled, Bool.false_eq_true, if_false]

theorem handleUpRoot_filled (first : slot.arrived port = false)
    (filled : (slot.bumpDegree.contribute transfer port packet).full fanIn =
      true) :
    slot.handleUpRoot fanIn transfer port packet =
      let closed :=
        (slot.bumpDegree.contribute transfer port packet).setArrived fanIn
      (closed, closed.broadcast fanIn transfer packet.psn packet.opcode) := by
  simp only [Slot.handleUpRoot, first, filled, Bool.false_eq_true, if_false,
    if_true]

theorem complete_setArrived (full : slot.full fanIn = true) :
    (slot.setArrived fanIn).complete fanIn = true :=
  Bool.and_eq_true_iff.mpr
    ⟨Function.update_self .., slot.full_setArrived fanIn fanIn full⟩

theorem handleUpRoot_complete (complete : slot.complete fanIn = true) :
    (slot.handleUpRoot fanIn transfer port packet).1.complete fanIn = true := by
  cases again : slot.arrived port with
  | true =>
      rw [handleUpRoot_again again]
      exact complete
  | false =>
      have full : slot.full fanIn = true :=
        (Bool.and_eq_true_iff.mp complete).2
      have filled : (slot.bumpDegree.contribute transfer port packet).full
          fanIn = true := full_contribute full
      rw [handleUpRoot_filled again filled]
      exact complete_setArrived filled

/-- The root's half as a cell. -/
def upwardCell (fanIn : Nat) : Cell Slot Upward Emission where
  blank := .blank
  handle := fun slot input =>
    slot.handleUpRoot fanIn input.transfer input.port input.packet
  complete := Slot.complete fanIn
  blank_incomplete := rfl
  complete_handle := fun _ _ => handleUpRoot_complete

/-- The slot holds what the children have sent, and is closed once it is
full. -/
structure Slot.Sums (fanIn : Nat) (payload : Nat → Nat → Word)
    (slot : Slot) : Prop where
  values : ∀ word < payloadCount, slot.values word =
    ∑ port ∈ Finset.range fanIn,
      if slot.arrived port = true then ntohl (payload port word) else 0
  closed : slot.arrived fanIn = slot.full fanIn

section Sums

variable {payload : Nat → Nat → Word}

theorem Slot.Sums.blank (valid : ValidFanIn fanIn) :
    Slot.blank.Sums fanIn payload := by
  refine ⟨fun word _ => ?_, ?_⟩
  · exact (Finset.sum_eq_zero fun port _ => rfl).symm
  · exact (unfilled_of_first valid.positive rfl).symm

theorem Slot.Sums.handle (sums : slot.Sums fanIn payload)
    (isChild : port < fanIn)
    (carried : slot.arrived port = false → ∀ word < payloadCount,
      transfer.payload packet word = payload port word) :
    (slot.handleUpRoot fanIn transfer port packet).1.Sums fanIn payload := by
  cases again : slot.arrived port with
  | true =>
      rw [handleUpRoot_again again]
      exact ⟨sums.values, sums.closed⟩
  | false =>
      have values : ∀ word < payloadCount,
          (slot.bumpDegree.contribute transfer port packet).values word =
            ∑ child ∈ Finset.range fanIn,
              if (slot.bumpDegree.contribute transfer port packet).arrived
                child = true then ntohl (payload child word) else 0 :=
        fun word inRange => contribute_sum isChild again inRange
          (sums.values word inRange) (carried again word inRange)
      have parent : (slot.bumpDegree.contribute transfer port packet).arrived
          fanIn = false := by
        rw [contribute_arrived, Function.update_of_ne (by omega)]
        exact sums.closed.trans (unfilled_of_first isChild again)
      cases filled : (slot.bumpDegree.contribute transfer port packet).full
          fanIn with
      | false =>
          rw [handleUpRoot_unfilled again filled]
          exact ⟨values, parent.trans filled.symm⟩
      | true =>
          rw [handleUpRoot_filled again filled]
          refine ⟨fun word inRange => (values word inRange).trans ?_, ?_⟩
          · refine Finset.sum_congr rfl fun child inside => ?_
            rw [setArrived_of_child (Finset.mem_range.mp inside)]
          · rw [full_of_setArrived, filled]
            exact Function.update_self ..

theorem Slot.Sums.frame (sums : slot.Sums fanIn payload)
    (isChild : port < fanIn) {frame : Emission}
    (sent : frame ∈ (slot.handleUpRoot fanIn transfer port packet).2) :
    let after := (slot.handleUpRoot fanIn transfer port packet).1
    after.complete fanIn = true ∧ ∃ child < fanIn,
      frame = after.result transfer child packet.psn packet.opcode := by
  cases again : slot.arrived port with
  | true =>
      rw [handleUpRoot_again again] at sent ⊢
      dsimp only at sent ⊢
      split_ifs at sent with closed
      · exact ⟨Bool.and_eq_true_iff.mpr ⟨closed, sums.closed.symm.trans closed⟩,
          port, isChild, List.mem_singleton.mp sent⟩
      · cases sent
  | false =>
      cases filled : (slot.bumpDegree.contribute transfer port packet).full
          fanIn with
      | false =>
          rw [handleUpRoot_unfilled again filled] at sent
          cases sent
      | true =>
          rw [handleUpRoot_filled again filled] at sent ⊢
          obtain ⟨child, inside, same⟩ := List.mem_map.mp sent
          exact ⟨complete_setArrived filled, child, List.mem_range.mp inside,
            same.symm⟩

end Sums

/-- What a slot holds of the packets of one number. -/
structure Slot.Sound (fanIn : Nat) (traffic : Traffic) (number : Nat)
    (slot : Slot) : Prop extends
    Slot.Sums fanIn (traffic.payload number) slot where
  reth : ∀ port < fanIn, slot.arrived port = true →
    traffic.transfer number = .write →
      slot.reth port = traffic.reth number port

variable {traffic : Traffic} {number : Nat}

theorem Slot.Sound.blank (valid : ValidFanIn fanIn) :
    Slot.blank.Sound fanIn traffic number := by
  refine ⟨.blank valid, fun _ _ arrived => ?_⟩
  cases arrived

theorem Traffic.Fits.atRoot (fits : traffic.Fits number port packet)
    (root : traffic.root = true) :
    Transfer.ofOpcode packet.opcode = some (traffic.transfer number) ∧
      (traffic.transfer number).dataLen packet = payloadLen ∧
      (∀ word < payloadCount, (traffic.transfer number).payload packet word =
        traffic.payload number port word) ∧
      (traffic.transfer number = .write →
        rethOf packet = traffic.reth number port) := by
  obtain ⟨⟨-, transfer, opcode, length, payload⟩, consistent⟩ := fits
  obtain ⟨kind, reth⟩ := consistent root
  rw [Option.mem_def, kind, Option.some.injEq] at opcode
  subst opcode
  exact ⟨kind, length, payload, reth⟩

theorem Slot.Sound.contribute_reth (sound : slot.Sound fanIn traffic number)
    (fits : traffic.Fits number port packet) (root : traffic.root = true)
    {child : Nat} (isChild : child < fanIn)
    (arrived : (slot.contribute (traffic.transfer number) port packet).arrived
      child = true) (isWrite : traffic.transfer number = .write) :
    (slot.contribute (traffic.transfer number) port packet).reth child =
      traffic.reth number child := by
  obtain ⟨-, -, -, reth⟩ := fits.atRoot root
  rw [isWrite] at arrived ⊢
  rw [contribute_arrived] at arrived
  by_cases here : child = port
  · subst here
    exact (Function.update_self ..).trans (reth isWrite)
  · rw [Function.update_of_ne here] at arrived
    exact (Function.update_of_ne here ..).trans
      (sound.reth child isChild arrived isWrite)

theorem Slot.Sound.handle (sound : slot.Sound fanIn traffic number)
    (isChild : port < fanIn) (fits : traffic.Fits number port packet)
    (root : traffic.root = true) :
    (slot.handleUpRoot fanIn (traffic.transfer number) port
      packet).1.Sound fanIn traffic number := by
  obtain ⟨-, -, payload, -⟩ := fits.atRoot root
  refine ⟨sound.toSums.handle isChild fun _ => payload,
    fun child isAlso arrived => ?_⟩
  have counted : slot.bumpDegree.Sound fanIn traffic number :=
    ⟨⟨sound.values, sound.closed⟩, sound.reth⟩
  cases again : slot.arrived port with
  | true =>
      rw [handleUpRoot_again again] at arrived ⊢
      exact counted.reth child isAlso arrived
  | false =>
      cases filled : (slot.bumpDegree.contribute (traffic.transfer number) port
          packet).full fanIn with
      | false =>
          rw [handleUpRoot_unfilled again filled] at arrived ⊢
          exact counted.contribute_reth fits root isAlso arrived
      | true =>
          rw [handleUpRoot_filled again filled] at arrived ⊢
          rw [setArrived_of_child isAlso] at arrived
          exact counted.contribute_reth fits root isAlso arrived

/-- The arrival bits of the children. -/
theorem handleUpRoot_arrived {child : Nat} (isChild : child < fanIn) :
    (slot.handleUpRoot fanIn transfer port packet).1.arrived child = true ↔
      slot.arrived child = true ∨ child = port := by
  have contributed : (slot.bumpDegree.contribute transfer port packet).arrived
      child = true ↔ slot.arrived child = true ∨ child = port := by
    rw [contribute_arrived]
    by_cases same : child = port
    · simp [same]
    · simp [same]
  cases again : slot.arrived port with
  | true =>
      rw [handleUpRoot_again again]
      exact ⟨Or.inl, fun either => either.elim id fun same => same ▸ again⟩
  | false =>
      cases filled : (slot.bumpDegree.contribute transfer port packet).full
          fanIn with
      | false =>
          rw [handleUpRoot_unfilled again filled]
          exact contributed
      | true =>
          rw [handleUpRoot_filled again filled, setArrived_of_child isChild]
          exact contributed

theorem Slot.Sound.result (sound : slot.Sound fanIn traffic number)
    (full : slot.full fanIn = true) {child psn : Nat} {opcode : Opcode}
    (isChild : child < fanIn) :
    (slot.result (traffic.transfer number) child psn opcode).data =
        traffic.result fanIn number ∧
      (traffic.transfer number = .write →
        (slot.result (traffic.transfer number) child psn opcode).reth =
          some (traffic.reth number child)) := by
  have arrived := full_iff.mp full
  have data := sum_of_full full sound.values
  cases kind : traffic.transfer number with
  | send => exact ⟨data, fun isWrite => by cases isWrite⟩
  | write =>
      exact ⟨data, fun _ => congrArg some
        (sound.reth child isChild (arrived child isChild) kind)⟩

/-- A first transmission is answered exactly when it fills the slot. -/
theorem handleUpRoot_broadcasts (valid : ValidFanIn fanIn)
    (isChild : port < fanIn) :
    (!slot.arrived port &&
        !(slot.handleUpRoot fanIn transfer port packet).2.isEmpty) =
      (!slot.full fanIn &&
        (slot.handleUpRoot fanIn transfer port packet).1.full fanIn) := by
  cases again : slot.arrived port with
  | true =>
      rw [handleUpRoot_again again, Slot.bumpDegree_full, Bool.not_and_self]
      rfl
  | false =>
      rw [unfilled_of_first isChild again]
      cases filled : (slot.bumpDegree.contribute transfer port packet).full
          fanIn with
      | false =>
          rw [handleUpRoot_unfilled again filled, filled]
          rfl
      | true =>
          rw [handleUpRoot_filled again filled]
          dsimp only
          rw [full_of_setArrived, filled, broadcast_nonempty valid]
          rfl

theorem handleUpRoot_toAll (first : slot.arrived port = false)
    (answered :
      (slot.handleUpRoot fanIn transfer port packet).2.isEmpty = false) :
    (slot.handleUpRoot fanIn transfer port packet).2.map Emission.port =
      List.range fanIn := by
  cases filled : (slot.bumpDegree.contribute transfer port packet).full
      fanIn with
  | false =>
      rw [handleUpRoot_unfilled first filled] at answered
      cases answered
  | true =>
      rw [handleUpRoot_filled first filled]
      exact broadcast_ports packet.psn packet.opcode

theorem handleUpRoot_toSender (again : slot.arrived port = true)
    {frame : Emission}
    (sent : frame ∈ (slot.handleUpRoot fanIn transfer port packet).2) :
    frame.port = port := by
  rw [handleUpRoot_again again] at sent
  dsimp only at sent
  split_ifs at sent
  · rw [List.mem_singleton.mp sent, result_port]
  · cases sent

theorem Slot.Sound.frames (sound : slot.Sound fanIn traffic number)
    (isChild : port < fanIn) (fits : traffic.Fits number port packet)
    (root : traffic.root = true) {frame : Emission}
    (sent : frame ∈ (slot.handleUpRoot fanIn (traffic.transfer number) port
      packet).2) :
    frame.psn = packet.psn ∧ frame.data = traffic.result fanIn number ∧
      (traffic.transfer number = .write →
        frame.reth = some (traffic.reth number frame.port)) := by
  have after := sound.handle isChild fits root
  obtain ⟨complete, child, isAlso, rfl⟩ := sound.toSums.frame isChild sent
  have full := (Bool.and_eq_true_iff.mp complete).2
  rw [result_port]
  exact ⟨result_psn .., after.result full isAlso⟩

end Cell

end IncEmulation.NonTermination
