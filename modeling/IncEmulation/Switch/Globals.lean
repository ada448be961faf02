import Mathlib.Logic.Function.Basic
import Mathlib.Tactic.Common

/-!
# The static data of `switch.c`

The arrays of the source are functions of the index that the code computes, so
an access outside of a ring reads or writes memory that belongs to no slot.
Payload words stand in host order, where the source adds them.
-/

namespace IncEmulation.Switch

/-- `N`, the length of every ring. -/
def N : Int := 300

/-- `FAN_IN` -/
def fanIn : Nat := 2

/-- `Idx`.  The remainder of C has the sign of the PSN. -/
def idx (psn : Int) : Int := psn.tmod N

/-- The indices inside of a ring. -/
def InRing (slot : Int) : Prop := 0 ≤ slot ∧ slot < N

instance (slot : Int) : Decidable (InRing slot) :=
  inferInstanceAs (Decidable (_ ∧ _))

section Index

variable {psn other slot : Int}

theorem idx_eq_emod (nonneg : 0 ≤ psn) : idx psn = psn % N :=
  Int.tmod_eq_emod_of_nonneg nonneg

theorem inRing_idx (nonneg : 0 ≤ psn) : InRing (idx psn) := by
  rw [idx_eq_emod nonneg]
  exact ⟨Int.emod_nonneg psn (by decide), Int.emod_lt_of_pos psn (by decide)⟩

theorem idx_of_inRing (inside : InRing slot) : idx slot = slot := by
  rw [idx_eq_emod inside.1]
  exact Int.emod_eq_of_lt inside.1 inside.2

theorem eq_of_idx_eq (nonneg : 0 ≤ psn) (nonneg' : 0 ≤ other)
    (same : idx psn = idx other) (above : psn < other + N)
    (below : other < psn + N) : psn = other := by
  rw [idx_eq_emod nonneg, idx_eq_emod nonneg'] at same
  unfold N at same above below
  omega

theorem exists_idx_eq (nonneg : 0 ≤ psn) (inside : InRing slot) :
    ∃ next, psn ≤ next ∧ next < psn + N ∧ idx next = slot := by
  obtain ⟨low, high⟩ := inside
  refine ⟨psn + (slot - psn) % N, ?_, ?_, ?_⟩
  · have := Int.emod_nonneg (slot - psn) (b := N) (by decide)
    omega
  · have := Int.emod_lt_of_pos (slot - psn) (b := N) (by decide)
    omega
  · rw [idx_eq_emod (by unfold N at *; omega)]
    unfold N at *
    omega

end Index

/-- `agg_buffer_t` -/
structure AggBuffer where
  len : Nat
  packetType : UInt8
  state : Bool
  psn : Int
  operationType : UInt32
  rootRank : UInt32
  buffer : Nat → UInt32

/-- What `memset` leaves. -/
def AggBuffer.zero : AggBuffer := ⟨0, 0, false, 0, 0, 0, fun _ => 0⟩

/-- The payload of a frame that is sent from the buffer. -/
def AggBuffer.words (slot : AggBuffer) : List UInt32 :=
  (List.range slot.len).map slot.buffer

inductive Direction where
  | up
  | down
  deriving DecidableEq

/-- `rule_t`.  A connection is its index in `conns`; the receiving thread of a
connection only captures what its peer sends, so the addresses of a packet
select the rule of that connection. -/
structure Rule where
  id : Nat
  direction : Direction
  ackConn : Nat
  outConns : List Nat

/-- What the controller configures and the two operation types, which the
sources name and do not define. -/
structure Config where
  root : Bool
  operationTypeAllreduce : UInt32
  operationTypeReduce : UInt32

/-- The rule that `init_all` adds for a connection; the root has no parent. -/
def Config.lookupRule (config : Config) (i : Nat) : Option Rule :=
  if fanIn < i ∨ (config.root ∧ i = fanIn) then
    none
  else
    some {
      id := i
      direction := if i ≠ fanIn then .up else .down
      ackConn := i
      outConns := if config.root ∨ i = fanIn then List.range fanIn
        else [fanIn] }

/-- A call of `re_thread` with its local variables. -/
structure Job where
  id : Nat
  rule : Rule
  psn : Int

/-- The global variables, the queue of the thread pool and the calls of
`re_thread` under way. -/
structure Globals where
  arrivalState : Nat → Int → Bool
  rArrivalState : Nat → Int → Bool
  aggBuffer : Int → AggBuffer
  aggDegree : Int → Nat
  bcastBuffer : Int → AggBuffer
  rDegree : Int → Nat
  aggEpsn : Nat → Int
  downEpsn : Int
  latestAck : Nat → Int
  downAck : Int
  currentOperationType : UInt32
  currentRootRank : UInt32
  reRule : Nat → Rule
  rePsn : Nat → Int
  queue : List Nat
  jobs : List Job

/-- `init_all`; what lies around the arrays keeps the contents it has. -/
def initAll (config : Config) (memory : Globals) : Globals where
  arrivalState := fun i slot =>
    if InRing slot then false else memory.arrivalState i slot
  rArrivalState := fun i slot =>
    if InRing slot then false else memory.rArrivalState i slot
  aggBuffer := fun slot =>
    if InRing slot then .zero else memory.aggBuffer slot
  aggDegree := fun slot => if InRing slot then 0 else memory.aggDegree slot
  bcastBuffer := fun slot =>
    if InRing slot then .zero else memory.bcastBuffer slot
  rDegree := fun slot => if InRing slot then 0 else memory.rDegree slot
  aggEpsn := fun _ => 0
  downEpsn := 0
  latestAck := fun _ => -1
  downAck := -1
  currentOperationType := config.operationTypeAllreduce
  currentRootRank := 0
  reRule := memory.reRule
  rePsn := memory.rePsn
  queue := []
  jobs := []

namespace Globals

variable (globals : Globals)

/-- The `memset` of an aggregation slot with its degree and arrival flags. -/
def clearAgg (slot : Int) : Globals :=
  { globals with
    aggDegree := Function.update globals.aggDegree slot 0
    aggBuffer := Function.update globals.aggBuffer slot .zero
    arrivalState := fun i other =>
      if i < fanIn ∧ other = slot then false
      else globals.arrivalState i other }

/-- `r_arrival_state[id][slot] = 1` -/
def mark (id : Nat) (slot : Int) : Globals :=
  { globals with
    rArrivalState := fun i other =>
      if i = id ∧ other = slot then true else globals.rArrivalState i other }

/-- The end of a broadcast. -/
def release (slot : Int) : Globals :=
  { globals with
    rDegree := Function.update globals.rDegree slot 0
    bcastBuffer := Function.update globals.bcastBuffer slot .zero
    rArrivalState := fun i other =>
      if i < fanIn ∧ other = slot then false
      else globals.rArrivalState i other }

/-- `r_degree[slot] += 1` -/
def raise (slot : Int) : Globals :=
  { globals with
    rDegree := Function.update globals.rDegree slot (globals.rDegree slot + 1) }

/-- One acknowledgement of the PSN in the slot. -/
def countAck (slot : Int) : Globals :=
  if (globals.raise slot).rDegree slot = fanIn then
    (globals.raise slot).release slot
  else
    globals.raise slot

def setLatestAck (id : Nat) (psn : Int) : Globals :=
  { globals with latestAck := Function.update globals.latestAck id psn }

variable {globals : Globals} {slot : Int}

theorem countAck_of_full (full : globals.rDegree slot + 1 = fanIn) :
    globals.countAck slot = globals.release slot := by
  simp only [countAck, raise, Function.update_self, full, if_true, release,
    Function.update_idem]

theorem countAck_of_not_full (waiting : globals.rDegree slot + 1 ≠ fanIn) :
    globals.countAck slot = globals.raise slot := by
  simp only [countAck, raise, Function.update_self, waiting, if_false]

end Globals

end IncEmulation.Switch
