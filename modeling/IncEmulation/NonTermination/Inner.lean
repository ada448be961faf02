import IncEmulation.NonTermination.Filling

/-!
# The inner pipeline

A slot of an inner switch collects the sum of its children, until the result of
the parent takes the place of the sum.
-/

namespace IncEmulation.NonTermination

variable {fanIn : Nat} {slot : Slot} {transfer : Transfer} {port : Nat}
  {packet : Packet}

theorem handleUpInner_again (again : slot.arrived port = true) :
    (slot.handleUpInner fanIn transfer port packet).1 = slot.bumpDegree := by
  simp only [Slot.handleUpInner, again, if_true]

theorem handleUpInner_first (first : slot.arrived port = false) :
    (slot.handleUpInner fanIn transfer port packet).1 =
      slot.bumpDegree.contribute transfer port packet := by
  simp only [Slot.handleUpInner, first, Bool.false_eq_true, if_false]

/-- A frame shows the slot as it was left: to the child that asked again, or to
the parent. -/
theorem handleUpInner_frame {frame : Emission}
    (sent : frame ∈ (slot.handleUpInner fanIn transfer port packet).2) :
    let after := (slot.handleUpInner fanIn transfer port packet).1
    slot.arrived port = true ∧ slot.arrived fanIn = true ∧
        frame = after.result transfer port packet.psn packet.opcode ∨
      (slot.arrived fanIn = true → slot.arrived port = false) ∧
        after.full fanIn = true ∧
        frame = after.upload fanIn transfer packet.psn packet.opcode := by
  cases again : slot.arrived port with
  | true =>
      cases closed : slot.arrived fanIn with
      | true =>
          simp only [Slot.handleUpInner, again, closed, if_true] at sent ⊢
          exact Or.inl ⟨trivial, trivial, List.mem_singleton.mp sent⟩
      | false =>
          simp only [Slot.handleUpInner, again, closed, if_true,
            Bool.false_eq_true, if_false] at sent ⊢
          split_ifs at sent with due
          · exact Or.inr ⟨fun impossible => impossible.elim, due.1,
              List.mem_singleton.mp sent⟩
          · cases sent
  | false =>
      simp only [Slot.handleUpInner, again, Bool.false_eq_true,
        if_false] at sent ⊢
      split_ifs at sent with filled
      · exact Or.inr ⟨fun _ => trivial, filled, List.mem_singleton.mp sent⟩
      · cases sent

theorem handleUpInner_arrived (other : Nat) :
    (slot.handleUpInner fanIn transfer port packet).1.arrived other = true ↔
      slot.arrived other = true ∨ other = port := by
  cases again : slot.arrived port with
  | true =>
      rw [handleUpInner_again again]
      exact ⟨Or.inl, fun either => either.elim id fun same => same ▸ again⟩
  | false =>
      rw [handleUpInner_first again, contribute_arrived]
      by_cases same : other = port
      · simp [same]
      · simp [same]

theorem handleUpInner_parent (isChild : port < fanIn) :
    (slot.handleUpInner fanIn transfer port packet).1.arrived fanIn =
      slot.arrived fanIn := by
  rw [Bool.eq_iff_iff, handleUpInner_arrived]
  exact or_iff_left (by omega)

/-- A result of the parent is taken once the slot is full, and only one. -/
theorem handleDown_cases (fanIn : Nat) (slot : Slot) (transfer : Transfer)
    (packet : Packet) :
    slot.arrived fanIn = false ∧ slot.full fanIn = true ∧
        (slot.handleDown fanIn transfer packet =
          let relayed := (slot.overwrite transfer packet).setArrived fanIn
          (relayed, relayed.broadcast fanIn transfer packet.psn
            packet.opcode)) ∨
      (slot.full fanIn = true → slot.arrived fanIn = true) ∧
        slot.handleDown fanIn transfer packet = (slot, []) := by
  cases closed : slot.arrived fanIn with
  | true =>
      exact Or.inr ⟨fun _ => rfl, by simp only [Slot.handleDown, closed]; rfl⟩
  | false =>
      cases full : slot.full fanIn with
      | true =>
          refine Or.inl ⟨rfl, rfl, ?_⟩
          simp only [Slot.handleDown, closed, full, Bool.not_false,
            Bool.and_self, if_true]
      | false =>
          refine Or.inr ⟨fun isFull => absurd isFull Bool.false_ne_true, ?_⟩
          simp only [Slot.handleDown, full, Bool.and_false,
            Bool.false_eq_true, if_false]

theorem handleDown_arrived {child : Nat} (isChild : child < fanIn) :
    (slot.handleDown fanIn transfer packet).1.arrived child =
      slot.arrived child := by
  rcases handleDown_cases fanIn slot transfer packet with ⟨-, -, same⟩ | ⟨-, same⟩
  · rw [same]
    exact setArrived_of_child isChild
  · rw [same]

/-- The slot holds what the children and the parent have sent. -/
structure Slot.Holds (fanIn : Nat) (payload : Nat → Nat → Word)
    (answer : Nat → Word) (slot : Slot) : Prop where
  sum : slot.arrived fanIn = false → ∀ word < payloadCount,
    slot.values word = ∑ port ∈ Finset.range fanIn,
      if slot.arrived port = true then ntohl (payload port word) else 0
  answer : slot.arrived fanIn = true → ∀ word < payloadCount,
    slot.values word = answer word
  full : slot.arrived fanIn = true → slot.full fanIn = true

variable {payload : Nat → Nat → Word} {answer : Nat → Word}

theorem Slot.Holds.blank : Slot.blank.Holds fanIn payload answer := by
  refine ⟨fun _ word _ => ?_, fun closed => ?_, fun closed => ?_⟩
  · exact (Finset.sum_eq_zero fun port _ => rfl).symm
  · cases closed
  · cases closed

theorem Slot.Holds.open_of_first (holds : slot.Holds fanIn payload answer)
    (isChild : port < fanIn) (first : slot.arrived port = false) :
    slot.arrived fanIn = false :=
  Bool.eq_false_iff.mpr fun closed => by
    rw [full_iff.mp (holds.full closed) port isChild] at first
    cases first

theorem Slot.Holds.handleUp (holds : slot.Holds fanIn payload answer)
    (isChild : port < fanIn)
    (carried : slot.arrived port = false → ∀ word < payloadCount,
      transfer.payload packet word = payload port word) :
    (slot.handleUpInner fanIn transfer port packet).1.Holds fanIn payload
      answer := by
  cases again : slot.arrived port with
  | true =>
      rw [handleUpInner_again again]
      exact ⟨holds.sum, holds.answer, holds.full⟩
  | false =>
      rw [handleUpInner_first again]
      have unanswered := holds.open_of_first isChild again
      have parent : (slot.bumpDegree.contribute transfer port packet).arrived
          fanIn = false := by
        rw [contribute_arrived, Function.update_of_ne (by omega)]
        exact unanswered
      refine ⟨fun _ word inRange => ?_, fun closed => ?_, fun closed => ?_⟩
      · exact contribute_sum isChild again inRange
          (holds.sum unanswered word inRange) (carried again word inRange)
      · rw [parent] at closed
        cases closed
      · rw [parent] at closed
        cases closed

theorem Slot.Holds.handleDown (holds : slot.Holds fanIn payload answer)
    (carried : ∀ word < payloadCount, transfer.payload packet word =
      answer word) :
    (slot.handleDown fanIn transfer packet).1.Holds fanIn payload answer := by
  rcases handleDown_cases fanIn slot transfer packet with
    ⟨-, full, same⟩ | ⟨-, same⟩
  · rw [same]
    have closed : ((slot.overwrite transfer packet).setArrived fanIn).arrived
        fanIn = true := Function.update_self ..
    refine ⟨fun unanswered => ?_, fun _ word inRange => ?_, fun _ => ?_⟩
    · rw [closed] at unanswered
      cases unanswered
    · rw [← carried word inRange]
      exact if_pos inRange
    · exact full_of_setArrived.trans full
  · rw [same]
    exact holds

@[simp]
theorem result_data (child psn : Nat) (opcode : Opcode) :
    (slot.result transfer child psn opcode).data =
      (List.range payloadCount).map slot.values := by
  cases transfer <;> rfl

@[simp]
theorem upload_data (psn : Nat) (opcode : Opcode) :
    (slot.upload fanIn transfer psn opcode).data =
      (List.range payloadCount).map slot.values := by
  cases transfer <;> rfl

@[simp]
theorem upload_port (psn : Nat) (opcode : Opcode) :
    (slot.upload fanIn transfer psn opcode).port = fanIn := by
  cases transfer <;> rfl

@[simp]
theorem upload_psn (psn : Nat) (opcode : Opcode) :
    (slot.upload fanIn transfer psn opcode).psn = psn := by
  cases transfer <;> rfl

theorem Slot.Holds.data (holds : slot.Holds fanIn payload answer)
    (closed : slot.arrived fanIn = true) :
    (List.range payloadCount).map slot.values =
      (List.range payloadCount).map answer :=
  List.map_congr_left fun word inside =>
    holds.answer closed word (List.mem_range.mp inside)

/-- A packet of a child is answered with the parent's result, or the whole sum
is sent to the parent. -/
theorem Slot.Holds.frames_up (holds : slot.Holds fanIn payload answer)
    (isChild : port < fanIn)
    (carried : slot.arrived port = false → ∀ word < payloadCount,
      transfer.payload packet word = payload port word)
    {frame : Emission}
    (sent : frame ∈ (slot.handleUpInner fanIn transfer port packet).2) :
    frame.psn = packet.psn ∧
      (frame.port = port ∧ slot.arrived fanIn = true ∧
          frame.data = (List.range payloadCount).map answer ∨
        frame.port = fanIn ∧ frame.data = sumData fanIn payload) := by
  have after := holds.handleUp isChild carried
  rcases handleUpInner_frame sent with ⟨-, closed, rfl⟩ | ⟨openly, full, rfl⟩
  · refine ⟨result_psn .., Or.inl ⟨result_port .., closed, ?_⟩⟩
    rw [result_data]
    exact after.data ((handleUpInner_parent isChild).trans closed)
  · refine ⟨upload_psn .., Or.inr ⟨upload_port .., ?_⟩⟩
    have unanswered : slot.arrived fanIn = false :=
      Bool.eq_false_iff.mpr fun closed =>
        Bool.eq_false_iff.mp (openly closed)
          (full_iff.mp (holds.full closed) port isChild)
    rw [upload_data]
    exact sum_of_full full
      (after.sum ((handleUpInner_parent isChild).trans unanswered))

theorem Slot.Holds.frames_down (holds : slot.Holds fanIn payload answer)
    (carried : ∀ word < payloadCount, transfer.payload packet word =
      answer word)
    {frame : Emission}
    (sent : frame ∈ (slot.handleDown fanIn transfer packet).2) :
    frame.psn = packet.psn ∧ frame.port < fanIn ∧
      (slot.handleDown fanIn transfer packet).1.arrived fanIn = true ∧
      frame.data = (List.range payloadCount).map answer := by
  have after := holds.handleDown carried
  rcases handleDown_cases fanIn slot transfer packet with
    ⟨-, full, same⟩ | ⟨-, same⟩
  · rw [same] at sent after ⊢
    obtain ⟨child, inside, rfl⟩ := List.mem_map.mp sent
    have closed : ((slot.overwrite transfer packet).setArrived fanIn).arrived
        fanIn = true := Function.update_self ..
    refine ⟨result_psn .., ?_, closed, ?_⟩
    · rw [result_port]
      exact List.mem_range.mp inside
    · rw [result_data]
      exact after.data closed
  · rw [same] at sent
    cases sent

end IncEmulation.NonTermination
