import IncEmulation.NonTermination.Pipeline

/-!
# The tables seen as slots

The pipeline looks at one slot of its four tables at a time.  A `Slot` collects
what the tables hold for one index, with the arrival bits as a predicate, and
every operation on the tables is an operation on one slot.
-/

namespace IncEmulation.NonTermination

@[ext]
structure Slot where
  values : Nat → Word
  reth : Nat → RethHeader
  arrived : Nat → Bool
  degree : Nat

def Slot.blank : Slot where
  values := fun _ => 0
  reth := fun _ => .zero
  arrived := fun _ => false
  degree := 0

/-- The slot at an index: the payload words and the children's ports only. -/
def Tables.slot (fanIn : Nat) (tables : Tables) (index : Nat) : Slot where
  values := fun word =>
    if word < payloadCount then tables.aggregator index word else 0
  reth := fun port =>
    if port < fanIn then tables.rethKeeper index port else .zero
  arrived := fun port => (tables.arrivalState index).getLsbD port
  degree := tables.degree index

/-- The bitmap has a bit for every child and one for the parent. -/
structure ValidFanIn (fanIn : Nat) : Prop where
  positive : 0 < fanIn
  bound : fanIn < 32

namespace Slot

variable (fanIn : Nat) (slot : Slot)

def setArrived (port : Nat) : Slot :=
  { slot with arrived := Function.update slot.arrived port true }

def bumpDegree : Slot := { slot with degree := slot.degree + 1 }

@[simp]
theorem bumpDegree_arrived : slot.bumpDegree.arrived = slot.arrived := rfl

/-- A packet of every child has arrived. -/
def full : Bool := decide (∀ port < fanIn, slot.arrived port = true)

/-- The result was sent, and every child had contributed to it. -/
def complete : Bool := slot.arrived fanIn && slot.full fanIn

@[simp]
theorem bumpDegree_full : slot.bumpDegree.full fanIn = slot.full fanIn := rfl

@[simp]
theorem bumpDegree_complete :
    slot.bumpDegree.complete fanIn = slot.complete fanIn := rfl

theorem full_setArrived (port : Nat) (full : slot.full fanIn = true) :
    (slot.setArrived port).full fanIn = true := by
  refine decide_eq_true fun child isChild => ?_
  have arrived := of_decide_eq_true full child isChild
  by_cases same : child = port
  · simp [setArrived, same]
  · simpa [setArrived, same] using arrived

def keepReth (transfer : Transfer) (port : Nat) (packet : Packet) : Slot :=
  match transfer with
  | .send => slot
  | .write =>
      { slot with
        reth := Function.update slot.reth port
          ⟨packet.bodyWord 0, packet.bodyWord 1, packet.bodyWord 2,
            packet.bodyWord 3⟩ }

def contribute (transfer : Transfer) (port : Nat) (packet : Packet) : Slot :=
  let recorded := (slot.setArrived port).keepReth transfer port packet
  { recorded with
    values := fun word =>
      if word < payloadCount then
        slot.values word + ntohl (transfer.payload packet word)
      else 0 }

def overwrite (transfer : Transfer) (packet : Packet) : Slot :=
  { slot with
    values := fun word =>
      if word < payloadCount then transfer.payload packet word else 0 }

/-- The slot as it is sent to a child. -/
def result (transfer : Transfer) (port psn : Nat) (opcode : Opcode) :
    Emission :=
  match transfer with
  | .send => sendRoceData port slot.values psn opcode
  | .write => sendRoceDataWithReth port (some (slot.reth port)) slot.values psn
      opcode

def upload (transfer : Transfer) (psn : Nat) (opcode : Opcode) : Emission :=
  match transfer with
  | .send => sendRoceData fanIn slot.values psn opcode
  | .write => sendRoceDataWithReth fanIn none slot.values psn opcode

def broadcast (transfer : Transfer) (psn : Nat) (opcode : Opcode) :
    List Emission :=
  (List.range fanIn).map fun port => slot.result transfer port psn opcode

/-- The root's half of an upward packet, the clearing of the slot one window
ahead left out. -/
def handleUpRoot (transfer : Transfer) (port : Nat) (packet : Packet) :
    Slot × List Emission :=
  let counted := slot.bumpDegree
  if slot.arrived port then
    (counted,
      if slot.arrived fanIn then
        [counted.result transfer port packet.psn packet.opcode]
      else [])
  else
    let added := counted.contribute transfer port packet
    if added.full fanIn then
      let closed := added.setArrived fanIn
      (closed, closed.broadcast fanIn transfer packet.psn packet.opcode)
    else (added, [])

def handleUpInner (transfer : Transfer) (port : Nat) (packet : Packet) :
    Slot × List Emission :=
  let counted := slot.bumpDegree
  if slot.arrived port then
    (counted,
      if slot.arrived fanIn then
        [counted.result transfer port packet.psn packet.opcode]
      else if slot.full fanIn ∧ counted.degree % fanIn = 0 then
        [counted.upload fanIn transfer packet.psn packet.opcode]
      else [])
  else
    let added := counted.contribute transfer port packet
    (added,
      if added.full fanIn then
        [added.upload fanIn transfer packet.psn packet.opcode]
      else [])

def handleDown (transfer : Transfer) (packet : Packet) :
    Slot × List Emission :=
  if !slot.arrived fanIn && slot.full fanIn then
    let relayed := (slot.overwrite transfer packet).setArrived fanIn
    (relayed, relayed.broadcast fanIn transfer packet.psn packet.opcode)
  else (slot, [])

end Slot

section Bitmap

theorem getLsbD_maskPort {port : Nat} (bound : port < 32) (bit : Nat) :
    (maskPort port).getLsbD bit = decide (bit = port) := by
  rw [maskPort, ← BitVec.twoPow_eq, BitVec.getLsbD_twoPow]
  simp [bound, eq_comm]

theorem getLsbD_maskAllFanIn {fanIn : Nat} (bound : fanIn < 32) (bit : Nat) :
    (maskAllFanIn fanIn).getLsbD bit = decide (bit < fanIn) := by
  have ones : 0xFFFFFFFF#32 = BitVec.allOnes 32 := by decide
  rw [maskAllFanIn, ones, BitVec.getLsbD_ushiftRight, BitVec.getLsbD_allOnes]
  exact decide_eq_decide.mpr (by omega)

theorem and_maskPort_eq_zero {port : Nat} (bound : port < 32)
    (bitmap : BitVec 32) :
    bitmap &&& maskPort port = 0 ↔ bitmap.getLsbD port = false := by
  constructor
  · intro zero
    have bit := congrArg (fun word => word.getLsbD port) zero
    simpa [getLsbD_maskPort bound] using bit
  · intro unset
    apply BitVec.eq_of_getLsbD_eq
    intro bit _
    rw [BitVec.getLsbD_and, getLsbD_maskPort bound]
    by_cases same : bit = port
    · simp [same, unset]
    · simp [same]

theorem and_maskAllFanIn_eq {fanIn : Nat} (bound : fanIn < 32)
    (bitmap : BitVec 32) :
    bitmap &&& maskAllFanIn fanIn = maskAllFanIn fanIn ↔
      ∀ port < fanIn, bitmap.getLsbD port = true := by
  constructor
  · intro covers port isChild
    have bit := congrArg (fun word => word.getLsbD port) covers
    simpa [getLsbD_maskAllFanIn bound, isChild] using bit
  · intro all
    apply BitVec.eq_of_getLsbD_eq
    intro bit _
    rw [BitVec.getLsbD_and, getLsbD_maskAllFanIn bound]
    by_cases isChild : bit < fanIn
    · simp [isChild, all bit isChild]
    · simp [isChild]

end Bitmap

section Tables

variable (fanIn : Nat) (tables : Tables) (psn : Nat) {port : Nat}
  {packet : Packet}

theorem slot_init : Tables.init.slot fanIn = fun _ => .blank := by
  funext index
  simp [Tables.slot, Tables.init, Slot.blank]

theorem recvFromPort_eq (bound : port < 32) :
    tables.recvFromPort port psn =
      (tables.slot fanIn (idx psn)).arrived port := by
  cases bit : (tables.arrivalState (idx psn)).getLsbD port with
  | true =>
      refine (decide_eq_true ?_).trans bit.symm
      intro zero
      rw [(and_maskPort_eq_zero bound _).mp zero] at bit
      cases bit
  | false =>
      have zero := (and_maskPort_eq_zero bound _).mpr bit
      exact (decide_eq_false (not_not.mpr zero)).trans bit.symm

theorem recvFromAllFanIn_eq {fanIn : Nat} (valid : ValidFanIn fanIn) :
    tables.recvFromAllFanIn fanIn psn =
      (tables.slot fanIn (idx psn)).full fanIn :=
  decide_eq_decide.mpr (and_maskAllFanIn_eq valid.bound _)

private theorem eq_update {before after : Nat → Slot} {index : Nat}
    {slot : Slot} (here : after index = slot)
    (elsewhere : ∀ other, other ≠ index → after other = before other) :
    after = Function.update before index slot := by
  funext other
  by_cases same : other = index
  · rw [same, here, Function.update_self]
  · rw [elsewhere other same, Function.update_of_ne same]

theorem slot_bumpDegree :
    (tables.bumpDegree psn).slot fanIn =
      Function.update (tables.slot fanIn) (idx psn)
        (tables.slot fanIn (idx psn)).bumpDegree := by
  refine eq_update ?_ fun other different => ?_
  · exact Slot.ext rfl rfl rfl (Function.update_self ..)
  · exact Slot.ext rfl rfl rfl (Function.update_of_ne different ..)

theorem slot_setArriveState (bound : port < 32) :
    (tables.setArriveState port psn).slot fanIn =
      Function.update (tables.slot fanIn) (idx psn)
        ((tables.slot fanIn (idx psn)).setArrived port) := by
  refine eq_update ?_ fun other different => ?_
  · refine Slot.ext rfl rfl (funext fun bit => ?_) rfl
    simp only [Tables.slot, Tables.setArriveState, Slot.setArrived,
      Function.update_self, BitVec.getLsbD_or, getLsbD_maskPort bound]
    by_cases same : bit = port
    · simp [same]
    · simp [same]
  · refine Slot.ext rfl rfl (funext fun bit => ?_) rfl
    simp only [Tables.slot, Tables.setArriveState,
      Function.update_of_ne different]

theorem slot_clearStateData :
    (tables.clearStateData fanIn psn).slot fanIn =
      Function.update (tables.slot fanIn) (idx psn) .blank := by
  refine eq_update ?_ fun other different => ?_
  · refine Slot.ext (funext fun word => ?_) (funext fun child => ?_)
      (funext fun bit => ?_) ?_
    · simp only [Tables.slot, Tables.clearStateData, Slot.blank,
        Function.update_self]
      split_ifs <;> rfl
    · simp only [Tables.slot, Tables.clearStateData, Slot.blank,
        Function.update_self]
      split_ifs <;> rfl
    · simp [Tables.slot, Tables.clearStateData, Slot.blank]
    · simp [Tables.slot, Tables.clearStateData, Slot.blank]
  · simp only [Tables.slot, Tables.clearStateData,
      Function.update_of_ne different]

theorem slot_keepReth {fanIn : Nat} (transfer : Transfer)
    (isChild : port < fanIn) :
    (transfer.keepReth tables port psn packet).slot fanIn =
      Function.update (tables.slot fanIn) (idx psn)
        ((tables.slot fanIn (idx psn)).keepReth transfer port packet) := by
  cases transfer with
  | send => exact (Function.update_eq_self ..).symm
  | write =>
      refine eq_update ?_ fun other different => ?_
      · refine Slot.ext rfl (funext fun child => ?_) rfl rfl
        simp only [Tables.slot, Transfer.keepReth, Slot.keepReth,
          Function.update_self]
        by_cases same : child = port
        · simp [same, isChild]
        · simp [same]
      · simp only [Tables.slot, Transfer.keepReth,
          Function.update_of_ne different]

@[simp]
theorem keepReth_aggregator (transfer : Transfer) :
    (transfer.keepReth tables port psn packet).aggregator =
      tables.aggregator := by
  cases transfer <;> rfl

theorem slot_contribute {fanIn : Nat} (valid : ValidFanIn fanIn)
    (transfer : Transfer) (isChild : port < fanIn) :
    (transfer.contribute tables port psn packet).slot fanIn =
      Function.update (tables.slot fanIn) (idx psn)
        ((tables.slot fanIn (idx psn)).contribute transfer port packet) := by
  have recorded : (transfer.keepReth (tables.setArriveState port psn) port psn
      packet).slot fanIn = Function.update (tables.slot fanIn) (idx psn)
        (((tables.slot fanIn (idx psn)).setArrived port).keepReth transfer port
          packet) := by
    rw [slot_keepReth _ _ transfer isChild,
      slot_setArriveState _ _ _ (isChild.trans valid.bound),
      Function.update_idem, Function.update_self]
  refine eq_update ?_ fun other different => ?_
  · have here := congrFun recorded (idx psn)
    rw [Function.update_self] at here
    have reth := congrArg Slot.reth here
    have arrived := congrArg Slot.arrived here
    have degree := congrArg Slot.degree here
    refine Slot.ext (funext fun word => ?_) reth arrived degree
    simp only [Tables.slot, Transfer.contribute, Slot.contribute,
      Function.update_self, keepReth_aggregator, Tables.setArriveState]
    split_ifs <;> rfl
  · have there := congrFun recorded other
    rw [Function.update_of_ne different] at there
    rw [← there]
    simp only [Tables.slot, Transfer.contribute,
      Function.update_of_ne different]

theorem slot_overwrite (transfer : Transfer) :
    (transfer.overwrite tables psn packet).slot fanIn =
      Function.update (tables.slot fanIn) (idx psn)
        ((tables.slot fanIn (idx psn)).overwrite transfer packet) := by
  refine eq_update ?_ fun other different => ?_
  · refine Slot.ext (funext fun word => ?_) rfl rfl rfl
    simp only [Tables.slot, Transfer.overwrite, Slot.overwrite,
      Function.update_self]
    split_ifs <;> rfl
  · simp only [Tables.slot, Transfer.overwrite,
      Function.update_of_ne different]

theorem result_eq {fanIn : Nat} (transfer : Transfer) (isChild : port < fanIn)
    (opcode : Opcode) :
    transfer.result tables port psn opcode =
      (tables.slot fanIn (idx psn)).result transfer port psn opcode := by
  have data : (List.range payloadCount).map (tables.aggregator (idx psn)) =
      (List.range payloadCount).map
        (tables.slot fanIn (idx psn)).values := by
    refine List.map_congr_left fun word member => ?_
    simp only [Tables.slot, List.mem_range.mp member, if_true]
  cases transfer with
  | send => simp only [Transfer.result, Slot.result, sendRoceData, data]
  | write =>
      simp only [Transfer.result, Slot.result, sendRoceDataWithReth, data]
      simp only [Tables.slot, isChild, if_true]

theorem upload_eq (transfer : Transfer) (opcode : Opcode) :
    transfer.upload fanIn tables psn opcode =
      (tables.slot fanIn (idx psn)).upload fanIn transfer psn opcode := by
  have data : (List.range payloadCount).map (tables.aggregator (idx psn)) =
      (List.range payloadCount).map
        (tables.slot fanIn (idx psn)).values := by
    refine List.map_congr_left fun word member => ?_
    simp only [Tables.slot, List.mem_range.mp member, if_true]
  cases transfer with
  | send => simp only [Transfer.upload, Slot.upload, sendRoceData, data]
  | write =>
      simp only [Transfer.upload, Slot.upload, sendRoceDataWithReth, data]

theorem broadcast_eq (transfer : Transfer) (opcode : Opcode) :
    transfer.broadcast fanIn tables psn opcode =
      (tables.slot fanIn (idx psn)).broadcast fanIn transfer psn opcode :=
  List.map_congr_left fun _ member =>
    result_eq tables psn transfer (List.mem_range.mp member) opcode

end Tables

section Branches

variable {fanIn : Nat} (tables : Tables) {port : Nat} (packet : Packet)
  (transfer : Transfer)

theorem slot_added (valid : ValidFanIn fanIn) (isChild : port < fanIn) :
    (transfer.contribute (tables.bumpDegree packet.psn) port packet.psn
        packet).slot fanIn =
      Function.update (tables.slot fanIn) (idx packet.psn)
        ((tables.slot fanIn (idx packet.psn)).bumpDegree.contribute transfer
          port packet) := by
  rw [slot_contribute _ _ valid transfer isChild, slot_bumpDegree,
    Function.update_idem, Function.update_self]

/-- The inner switch's half works on the slot of the packet alone. -/
theorem handleUpInner_slot (valid : ValidFanIn fanIn)
    (isChild : port < fanIn) :
    let handled := transfer.handleUpInner fanIn (tables.bumpDegree packet.psn)
      port packet.psn packet
    let slot := (tables.slot fanIn (idx packet.psn)).handleUpInner fanIn
      transfer port packet
    handled.1.slot fanIn =
        Function.update (tables.slot fanIn) (idx packet.psn) slot.1 ∧
      handled.2 = slot.2 := by
  have counted := slot_bumpDegree fanIn tables packet.psn
  have added := slot_added tables packet transfer valid isChild
  have countedHere := congrFun counted (idx packet.psn)
  have addedHere := congrFun added (idx packet.psn)
  rw [Function.update_self] at countedHere addedHere
  have degree : (tables.bumpDegree packet.psn).degree (idx packet.psn) =
      (tables.slot fanIn (idx packet.psn)).bumpDegree.degree :=
    congrArg Slot.degree countedHere
  simp only [Transfer.handleUpInner, Slot.handleUpInner,
    recvFromPort_eq fanIn _ _ (isChild.trans valid.bound),
    recvFromPort_eq fanIn _ _ valid.bound, recvFromAllFanIn_eq _ _ valid,
    countedHere, addedHere, result_eq _ _ transfer isChild, upload_eq,
    Slot.bumpDegree_arrived, Slot.bumpDegree_full, degree]
  by_cases again : (tables.slot fanIn (idx packet.psn)).arrived port = true
  · simp only [again, if_true, and_true]
    exact counted
  · simp only [again]
    exact ⟨added, rfl⟩

theorem handleDown_slot (valid : ValidFanIn fanIn)
    (length : transfer.dataLen packet = payloadLen) :
    ∃ handled, transfer.handleDown fanIn tables packet.psn packet =
        some handled ∧
      let slot :=
        (tables.slot fanIn (idx packet.psn)).handleDown fanIn transfer packet
      handled.1.slot fanIn =
          Function.update (tables.slot fanIn) (idx packet.psn) slot.1 ∧
        handled.2 = slot.2 := by
  simp only [Transfer.handleDown, length, if_true, Slot.handleDown,
    recvFromPort_eq fanIn _ _ valid.bound, recvFromAllFanIn_eq _ _ valid]
  by_cases ready : (!(tables.slot fanIn (idx packet.psn)).arrived fanIn &&
      (tables.slot fanIn (idx packet.psn)).full fanIn) = true
  · have relayed := slot_setArriveState fanIn
      (transfer.overwrite tables packet.psn packet) packet.psn valid.bound
    rw [slot_overwrite, Function.update_idem, Function.update_self] at relayed
    have here := congrFun relayed (idx packet.psn)
    rw [Function.update_self] at here
    simp only [ready, if_true]
    exact ⟨_, rfl, relayed, by rw [broadcast_eq, here]⟩
  · simp only [ready]
    exact ⟨_, rfl, (Function.update_eq_self ..).symm, rfl⟩

theorem idx_window_ne (psn : Nat) : idx psn ≠ idx (psn + windowSize) := by
  simp only [idx, slotCount, windowSize]
  omega

/-- The root's half works on the slot of the packet and, at a completion,
clears the slot one window ahead. -/
theorem handleUpRoot_slot (valid : ValidFanIn fanIn)
    (isChild : port < fanIn) :
    let handled := transfer.handleUpRoot fanIn (tables.bumpDegree packet.psn)
      port packet.psn packet
    let before := tables.slot fanIn (idx packet.psn)
    let slot := before.handleUpRoot fanIn transfer port packet
    let written :=
      Function.update (tables.slot fanIn) (idx packet.psn) slot.1
    handled.1.slot fanIn =
        (if !before.complete fanIn && slot.1.complete fanIn then
          Function.update written (idx (packet.psn + windowSize)) .blank
        else written) ∧
      handled.2 = slot.2 := by
  have counted := slot_bumpDegree fanIn tables packet.psn
  have added := slot_added tables packet transfer valid isChild
  have countedHere := congrFun counted (idx packet.psn)
  have addedHere := congrFun added (idx packet.psn)
  rw [Function.update_self] at countedHere addedHere
  simp only [Transfer.handleUpRoot, Slot.handleUpRoot,
    recvFromPort_eq fanIn _ _ (isChild.trans valid.bound),
    recvFromPort_eq fanIn _ _ valid.bound, recvFromAllFanIn_eq _ _ valid,
    countedHere, addedHere, result_eq _ _ transfer isChild, broadcast_eq,
    Slot.bumpDegree_arrived]
  by_cases again : (tables.slot fanIn (idx packet.psn)).arrived port = true
  · simp only [again, if_true, Slot.bumpDegree_complete, Bool.not_and_self,
      Bool.false_eq_true, if_false, and_true]
    exact counted
  · have unfilled : (tables.slot fanIn (idx packet.psn)).full fanIn = false :=
      decide_eq_false fun full => again (full port isChild)
    simp only [again, Slot.complete, unfilled, Bool.and_false, Bool.not_false,
      Bool.true_and]
    cases filled : ((tables.slot fanIn (idx packet.psn)).bumpDegree.contribute
        transfer port packet).full fanIn with
    | false =>
        simp only [Bool.false_eq_true, if_false, filled, Bool.and_false,
          and_true]
        exact added
    | true =>
        have closed := slot_setArriveState fanIn (transfer.contribute
          (tables.bumpDegree packet.psn) port packet.psn packet) packet.psn
            valid.bound
        rw [added, Function.update_idem, Function.update_self] at closed
        have apart := idx_window_ne packet.psn
        have stillFilled := Slot.full_setArrived _ _ fanIn filled
        have bit : ∀ slot : Slot, (slot.setArrived fanIn).arrived fanIn = true :=
          fun slot => Function.update_self ..
        simp only [Bool.false_eq_true, if_false, if_true, slot_clearStateData,
          closed, Function.update_of_ne apart, Function.update_self,
          stillFilled, bit, Bool.and_self, and_self]

end Branches

end IncEmulation.NonTermination
