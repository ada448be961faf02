import IncEmulation.NonTermination.Traffic
import Mathlib.Algebra.BigOperators.Group.Finset.Basic
import Mathlib.Data.BitVec

/-!
# How a slot fills

Every first transmission sets one bit and adds one summand, so a slot holds the
sum over the children whose bits it has.
-/

namespace IncEmulation.NonTermination

/-- The sums of what the children have sent. -/
def sumData (fanIn : Nat) (payload : Nat → Nat → Word) : List Word :=
  (List.range payloadCount).map fun word =>
    ∑ port ∈ Finset.range fanIn, ntohl (payload port word)

/-- The payload of the result of a number. -/
def Traffic.result (traffic : Traffic) (fanIn number : Nat) : List Word :=
  sumData fanIn (traffic.payload number)

variable {fanIn : Nat} {slot : Slot} {transfer : Transfer} {port : Nat}
  {packet : Packet}

@[simp]
theorem keepReth_arrived :
    (slot.keepReth transfer port packet).arrived = slot.arrived := by
  cases transfer <;> rfl

@[simp]
theorem contribute_arrived :
    (slot.contribute transfer port packet).arrived =
      Function.update slot.arrived port true :=
  keepReth_arrived

theorem full_iff :
    slot.full fanIn = true ↔ ∀ port < fanIn, slot.arrived port = true :=
  decide_eq_true_iff

theorem full_contribute (full : slot.full fanIn = true) :
    (slot.contribute transfer port packet).full fanIn = true := by
  refine full_iff.mpr fun child isChild => ?_
  rw [contribute_arrived]
  by_cases same : child = port
  · rw [same, Function.update_self]
  · rw [Function.update_of_ne same]
    exact full_iff.mp full child isChild

theorem sum_arrived {arrived : Nat → Bool} (isChild : port < fanIn)
    (first : arrived port = false) (summand : Nat → Word) :
    (∑ child ∈ Finset.range fanIn,
        if Function.update arrived port true child = true then summand child
        else 0) =
      (∑ child ∈ Finset.range fanIn,
        if arrived child = true then summand child else 0) + summand port := by
  have member : port ∈ Finset.range fanIn := Finset.mem_range.mpr isChild
  have others : (∑ child ∈ (Finset.range fanIn).erase port,
        if Function.update arrived port true child = true then summand child
        else 0) =
      ∑ child ∈ (Finset.range fanIn).erase port,
        if arrived child = true then summand child else 0 := by
    refine Finset.sum_congr rfl fun child inside => ?_
    rw [Function.update_of_ne (Finset.ne_of_mem_erase inside)]
  rw [← Finset.sum_erase_add _ _ member, others,
    ← Finset.sum_erase_add (Finset.range fanIn) _ member]
  simp [first]

theorem setArrived_of_child {child : Nat} (isChild : child < fanIn) :
    (slot.setArrived fanIn).arrived child = slot.arrived child :=
  Function.update_of_ne (by omega) ..

theorem full_of_setArrived :
    (slot.setArrived fanIn).full fanIn = slot.full fanIn := by
  refine decide_eq_decide.mpr ⟨fun all child isChild => ?_,
    fun all child isChild => ?_⟩
  · rw [← setArrived_of_child isChild]
    exact all child isChild
  · rw [setArrived_of_child isChild]
    exact all child isChild

@[simp]
theorem result_port (child psn : Nat) (opcode : Opcode) :
    (slot.result transfer child psn opcode).port = child := by
  cases transfer <;> rfl

@[simp]
theorem result_psn (child psn : Nat) (opcode : Opcode) :
    (slot.result transfer child psn opcode).psn = psn := by
  cases transfer <;> rfl

theorem broadcast_ports (psn : Nat) (opcode : Opcode) :
    (slot.broadcast fanIn transfer psn opcode).map Emission.port =
      List.range fanIn := by
  rw [Slot.broadcast, List.map_map]
  exact (List.map_congr_left fun child _ => result_port child psn opcode).trans
    (List.map_id _)

theorem broadcast_nonempty (valid : ValidFanIn fanIn) (psn : Nat)
    (opcode : Opcode) :
    (slot.broadcast fanIn transfer psn opcode).isEmpty = false := by
  have positive := valid.positive
  rw [Slot.broadcast, List.isEmpty_eq_false_iff]
  intro empty
  have length := congrArg List.length empty
  simp only [List.length_map, List.length_range, List.length_nil] at length
  omega

theorem unfilled_of_first (isChild : port < fanIn)
    (first : slot.arrived port = false) : slot.full fanIn = false :=
  Bool.eq_false_iff.mpr fun full => by
    rw [full_iff.mp full port isChild] at first
    cases first

theorem contribute_sum {payload : Nat → Nat → Word} {word : Nat}
    (isChild : port < fanIn) (first : slot.arrived port = false)
    (inRange : word < payloadCount)
    (sum : slot.values word = ∑ child ∈ Finset.range fanIn,
      if slot.arrived child = true then ntohl (payload child word) else 0)
    (carried : transfer.payload packet word = payload port word) :
    (slot.contribute transfer port packet).values word =
      ∑ child ∈ Finset.range fanIn,
        if (slot.contribute transfer port packet).arrived child = true then
          ntohl (payload child word) else 0 := by
  rw [contribute_arrived,
    sum_arrived isChild first fun child => ntohl (payload child word), ← sum,
    ← carried]
  simp only [Slot.contribute, inRange, if_true]

section Full

variable {payload : Nat → Nat → Word}

theorem values_of_full (full : slot.full fanIn = true)
    (sums : ∀ word < payloadCount, slot.values word =
      ∑ child ∈ Finset.range fanIn,
        if slot.arrived child = true then ntohl (payload child word) else 0)
    {word : Nat} (inRange : word < payloadCount) :
    slot.values word =
      ∑ child ∈ Finset.range fanIn, ntohl (payload child word) := by
  rw [sums word inRange]
  refine Finset.sum_congr rfl fun child member => ?_
  rw [if_pos (full_iff.mp full child (Finset.mem_range.mp member))]

theorem sum_of_full (full : slot.full fanIn = true)
    (sums : ∀ word < payloadCount, slot.values word =
      ∑ child ∈ Finset.range fanIn,
        if slot.arrived child = true then ntohl (payload child word) else 0) :
    (List.range payloadCount).map slot.values = sumData fanIn payload :=
  List.map_congr_left fun _ inside =>
    values_of_full full sums (List.mem_range.mp inside)

theorem sum_forget (fanIn : Nat) (payload : Nat → Nat → Word)
    (first : slot.arrived port = false) (other : Nat → Word) (word : Nat) :
    (∑ child ∈ Finset.range fanIn,
        if slot.arrived child = true then
          ntohl (Function.update payload port other child word) else 0) =
      ∑ child ∈ Finset.range fanIn,
        if slot.arrived child = true then ntohl (payload child word) else 0 := by
  refine Finset.sum_congr rfl fun child _ => ?_
  by_cases same : child = port
  · rw [same, first, if_neg Bool.false_ne_true, if_neg Bool.false_ne_true]
  · rw [Function.update_of_ne same]

end Full

end IncEmulation.NonTermination
