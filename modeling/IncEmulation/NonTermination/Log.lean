import IncEmulation.NonTermination.Traffic

/-!
# The log of a switch
-/

namespace IncEmulation.NonTermination

/-- The slot at `index` as `init_topology` left it. -/
structure Tables.Zero (fanIn : Nat) (tables : Tables) (index : Nat) : Prop where
  aggregator : ∀ word < payloadCount, tables.aggregator index word = 0
  rethKeeper : ∀ port < fanIn, tables.rethKeeper index port = .zero
  arrivalState : tables.arrivalState index = 0
  degree : tables.degree index = 0

/-- The packet took the branch of a retransmission. -/
def Handled.retransmitted (entry : Handled) : Bool :=
  entry.tables.recvFromPort entry.port entry.packet.psn

/-- A packet of the number has arrived from the port. -/
def Arrived (log : List Handled) (port number : Nat) : Prop :=
  ∃ entry ∈ log, entry.port = port ∧ entry.number = number

instance (log : List Handled) (port number : Nat) :
    Decidable (Arrived log port number) := by
  unfold Arrived
  infer_instance

variable {fanIn : Nat} {log : List Handled} {entry : Handled}

theorem arrived_append {port number : Nat} :
    Arrived (log ++ [entry]) port number ↔
      Arrived log port number ∨ entry.port = port ∧ entry.number = number := by
  simp only [Arrived, List.mem_append, List.mem_singleton, or_and_right,
    exists_or, exists_eq_left]

theorem Tables.zero_of_slot {tables : Tables} {index : Nat}
    (blank : tables.slot fanIn index = .blank) : tables.Zero fanIn index := by
  refine ⟨fun word inRange => ?_, fun port isChild => ?_, ?_,
    congrArg Slot.degree blank⟩
  · have value := congrFun (congrArg Slot.values blank) word
    simpa [Tables.slot, inRange, Slot.blank] using value
  · have reth := congrFun (congrArg Slot.reth blank) port
    simpa [Tables.slot, isChild, Slot.blank] using reth
  · apply BitVec.eq_of_getLsbD_eq
    intro bit _
    have unset := congrFun (congrArg Slot.arrived blank) bit
    exact unset.trans BitVec.getLsbD_zero.symm

theorem split_append {before after : List Handled} {each : Handled}
    (split : log ++ [entry] = before ++ each :: after) :
    before = log ∧ each = entry ∨
      ∃ shorter, log = before ++ each :: shorter := by
  rcases List.eq_nil_or_concat after with rfl | ⟨shorter, last, rfl⟩
  · obtain ⟨same, lastSame⟩ := List.append_inj' split rfl
    exact Or.inl ⟨same.symm, (List.singleton_inj.mp lastSame).symm⟩
  · have regrouped : log ++ [entry] =
        (before ++ each :: shorter) ++ [last] := by
      simpa using split
    exact Or.inr ⟨shorter, (List.append_inj' regrouped rfl).1⟩

theorem exists_first (kind : Handled → Bool) (member : entry ∈ log)
    (ofKind : kind entry = true) :
    ∃ before first after, log = before ++ first :: after ∧
      kind first = true ∧ ∀ earlier ∈ before, kind earlier = false := by
  obtain ⟨first, found⟩ := Option.isSome_iff_exists.mp
    (List.find?_isSome.mpr ⟨entry, member, ofKind⟩)
  obtain ⟨firstKind, before, after, split, none⟩ :=
    List.find?_eq_some_iff_append.mp found
  refine ⟨before, first, after, split, firstKind, fun earlier inBefore => ?_⟩
  have other := none earlier inBefore
  rwa [Bool.not_eq_true'] at other

theorem idx_psn {number : Nat} {packet : Packet} {payload : Nat → Word}
    (carries : Carries packet number payload) :
    idx packet.psn = idx number := by
  rw [carries.1, idx, idx, slotCount, windowSize]
  omega

theorem update_sublist {up : Nat → List Sent} {port : Nat} {queue : List Sent}
    (sub : queue.Sublist (up port)) (other : Nat) :
    (Function.update up port queue other).Sublist (up other) := by
  by_cases same : other = port
  · subst same
    rwa [Function.update_self]
  · rw [Function.update_of_ne same]

theorem mem_update_append {up : Nat → List Sent} {port other : Nat}
    {sent last : Sent}
    (member : sent ∈ Function.update up port (up port ++ [last]) other) :
    sent ∈ up other ∨ other = port ∧ sent = last := by
  by_cases same : other = port
  · subst same
    rw [Function.update_self] at member
    rcases List.mem_append.mp member with old | new
    · exact Or.inl old
    · exact Or.inr ⟨rfl, List.mem_singleton.mp new⟩
  · rw [Function.update_of_ne same] at member
    exact Or.inl member

theorem seen_of_seenBefore {system : System} {port number earlier : Nat}
    (seen : system.SeenBefore port number)
    (before : earlier + windowSize ≤ number) :
    (port, earlier) ∈ system.received := by
  refine seen earlier ?_
  rw [windowSize] at before
  omega

end IncEmulation.NonTermination
