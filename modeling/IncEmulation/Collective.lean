import IncEmulation.Deployment

/-!
# The collectives a host announces

A control message carries the operation in its immediate data.  `immData` is
what the hosts of `api.c` build, `metadata` what the switch keeps while the
operation is in force, and `targets` the connections a result goes to.
-/

namespace IncEmulation

inductive Collective where
  | allreduce
  | reduce (root : Nat)
  | broadcast (root : Nat)
  deriving DecidableEq, Repr

namespace Collective

def immData : Collective → Word
  | allreduce =>
      buildImmData ctlDestRankAll ctlPrimitiveAllreduce ctlOperatorSum
        ctlDatatypeInt32
  | reduce root =>
      buildImmData root ctlPrimitiveReduce ctlOperatorSum ctlDatatypeInt32
  | broadcast root =>
      buildImmData root ctlPrimitiveBroadcast ctlOperatorSum ctlDatatypeInt32

/-- `operation_type` and `root_rank` while the operation is in force. -/
def metadata : Collective → PrimitiveType × Int
  | allreduce => (.allreduce, -1)
  | reduce root => (.reduce, root)
  | broadcast root => (.broadcast, root)

/-- Whether the switch sums up the packets of the operation. -/
def aggregates : Collective → Bool
  | allreduce => true
  | reduce _ => true
  | broadcast _ => false

def targets (hosts : Nat) : Collective → List Nat
  | allreduce => List.range hosts
  | reduce root => [root]
  | broadcast root => (List.range hosts).filter fun conn => conn ≠ root

/-- The operations whose packets the controller's rules let in from `conn`. -/
def Admissible (hosts conn : Nat) : Collective → Prop
  | allreduce => True
  | reduce root => root < hosts
  | broadcast root => root = conn

/-- The operations a host of the communicator can announce. -/
def Valid (hosts : Nat) : Collective → Prop
  | allreduce => True
  | reduce root => root < hosts
  | broadcast root => root < hosts

instance (hosts : Nat) : DecidablePred (Valid hosts)
  | allreduce => .isTrue trivial
  | reduce root => inferInstanceAs (Decidable (root < hosts))
  | broadcast root => inferInstanceAs (Decidable (root < hosts))

theorem admissible_of_aggregates {hosts : Nat} {operation : Collective}
    (aggregates : operation.aggregates = true)
    (valid : operation.Valid hosts) (conn : Nat) :
    operation.Admissible hosts conn := by
  cases operation with
  | allreduce => trivial
  | reduce root => exact valid
  | broadcast root => cases aggregates

theorem metadata_injective : Function.Injective metadata := by
  intro left right same
  cases left <;> cases right <;> simp_all [metadata]

theorem targets_nodup (hosts : Nat) (operation : Collective) :
    (operation.targets hosts).Nodup := by
  cases operation with
  | allreduce => exact List.nodup_range
  | reduce root => exact List.nodup_singleton root
  | broadcast root => exact List.nodup_range.filter _

end Collective

/-- The switch reads back what the host announced. -/
theorem Packet.announced_of_immData {packet : Packet} {operation : Collective}
    {hosts conn : Nat} (fits : hosts ≤ maxConnectionsNum) (bound : conn < hosts)
    (admissible : operation.Admissible hosts conn)
    (immediate : packet.immData = operation.immData) :
    packet.announced = operation.metadata := by
  have small : hosts ≤ 10 := fits
  unfold Packet.announced
  cases operation with
  | allreduce =>
      have dest : getImmDestRank packet.immData = ctlDestRankAll := by
        rw [immediate]
        exact getImmDestRank_buildImmData (by decide) _ _ _
      have primitive :
          getImmPrimitive packet.immData = ctlPrimitiveAllreduce := by
        rw [immediate]
        exact getImmPrimitive_buildImmData (by decide) _ _ _
      simp [dest, primitive, Collective.metadata]
  | reduce root =>
      have rootBound : root < hosts := admissible
      have dest : getImmDestRank packet.immData = root := by
        rw [immediate]
        exact getImmDestRank_buildImmData (by omega) _ _ _
      have primitive : getImmPrimitive packet.immData = ctlPrimitiveReduce := by
        rw [immediate]
        exact getImmPrimitive_buildImmData (by decide) _ _ _
      have notAll : root ≠ ctlDestRankAll := by
        simp only [ctlDestRankAll]
        omega
      simp [dest, primitive, notAll, Collective.metadata, ctlPrimitiveReduce,
        ctlPrimitiveAllreduce]
  | broadcast root =>
      have rootIsConn : root = conn := admissible
      have dest : getImmDestRank packet.immData = root := by
        rw [immediate]
        exact getImmDestRank_buildImmData (by omega) _ _ _
      have primitive :
          getImmPrimitive packet.immData = ctlPrimitiveBroadcast := by
        rw [immediate]
        exact getImmPrimitive_buildImmData (by decide) _ _ _
      have notAll : root ≠ ctlDestRankAll := by
        simp only [ctlDestRankAll]
        omega
      simp [dest, primitive, notAll, Collective.metadata, ctlPrimitiveReduce,
        ctlPrimitiveAllreduce, ctlPrimitiveBroadcast]

end IncEmulation
