import IncEmulation.NonTermination.Root
import IncEmulation.NonTermination.InnerRun
import IncEmulation.NonTermination.Encoding

/-!
# Byte order along a run

Beside the tables a run keeps, for every slot, the integers of the packets the
slot stands for.  A slot holds the sum of its children in the byte order of the
host and the result of the parent in that of the network.
-/

namespace IncEmulation.NonTermination

open Machine

/-- The integers of the packets that a slot stands for. -/
structure Standing where
  child : Nat → Nat → Word
  parent : Nat → Word

namespace Standing

def nothing : Standing := ⟨fun _ _ => 0, fun _ => 0⟩

def sum (fanIn : Nat) (standing : Standing) (word : Nat) : Word :=
  ∑ port ∈ Finset.range fanIn, standing.child port word

def hear (standing : Standing) (port : Nat) (integer : Nat → Word) : Standing :=
  { standing with child := Function.update standing.child port integer }

def take (standing : Standing) (integer : Nat → Word) : Standing :=
  { standing with parent := integer }

/-- What a frame to a port should carry: the sum at the root and towards the
parent, the parent's integers towards the children of an inner switch. -/
def integerFor (fanIn : Nat) (root : Bool) (standing : Standing)
    (port : Nat) : Nat → Word :=
  if root = true ∨ port = fanIn then standing.sum fanIn else standing.parent

/-- The words of the packets. -/
def payload (standing : Standing) (port word : Nat) : Word :=
  htonl (standing.child port word)

def answer (standing : Standing) (word : Nat) : Word :=
  htonl (standing.parent word)

end Standing

/-- The slot holds what it stands for. -/
def Slot.Stands (fanIn : Nat) (root : Bool) (standing : Standing)
    (slot : Slot) : Prop :=
  if root then slot.Sums fanIn standing.payload
  else slot.Holds fanIn standing.payload standing.answer

/-- A packet of the port makes the pipeline send the slot. -/
def Slot.answers (fanIn : Nat) (root : Bool) (slot : Slot)
    (port : Nat) : Bool :=
  if port < fanIn then
    if slot.arrived port then
      slot.arrived fanIn ||
        !root && slot.full fanIn && decide ((slot.degree + 1) % fanIn = 0)
    else (slot.setArrived port).full fanIn
  else !slot.arrived fanIn && slot.full fanIn

/-- What it sends is the parent's. -/
def Slot.relays (fanIn : Nat) (root : Bool) (slot : Slot) (port : Nat) : Bool :=
  !root && (!decide (port < fanIn) || slot.arrived fanIn)

/-- What a slot stands for after a packet of a child. -/
def Standing.up (standing : Standing) (slot : Slot) (port : Nat)
    (transfer : Transfer) (packet : Packet) : Standing :=
  if slot.arrived port then standing
  else standing.hear port (transfer.integer packet)

/-- And after a packet of the parent. -/
def Standing.down (standing : Standing) (fanIn : Nat) (slot : Slot)
    (transfer : Transfer) (packet : Packet) : Standing :=
  if !slot.arrived fanIn && slot.full fanIn then
    standing.take (transfer.integer packet)
  else standing

section Slot

variable {fanIn : Nat} {root : Bool} {slot after : Slot} {standing : Standing}
  {transfer : Transfer} {port : Nat} {packet : Packet} {frames : List Emission}

theorem payload_hear (integer : Nat → Word) :
    (standing.hear port integer).payload =
      Function.update standing.payload port fun word => htonl (integer word) := by
  funext child word
  by_cases same : child = port
  · subst same
    simp [Standing.payload, Standing.hear]
  · simp [Standing.payload, Standing.hear, same]

theorem payload_eq_htonl (word : Nat) :
    transfer.payload packet word = htonl (transfer.integer packet word) :=
  (htonl_ntohl _).symm

theorem carried_up (first : slot.arrived port = false) (word : Nat) :
    transfer.payload packet word =
      (standing.up slot port transfer packet).payload port word := by
  rw [Standing.up, first, if_neg Bool.false_ne_true, payload_hear,
    Function.update_self, payload_eq_htonl]

theorem Slot.Stands.up (stands : slot.Stands fanIn root standing) (port : Nat)
    (transfer : Transfer) (packet : Packet) :
    slot.Stands fanIn root (standing.up slot port transfer packet) := by
  unfold Standing.up
  cases first : slot.arrived port with
  | true => exact stands
  | false =>
      have forget := sum_forget fanIn standing.payload first fun word =>
        htonl (transfer.integer packet word)
      cases root with
      | true =>
          have sums : slot.Sums fanIn standing.payload := stands
          refine ⟨fun word inRange => ?_, sums.closed⟩
          rw [if_neg Bool.false_ne_true, payload_hear, forget]
          exact sums.values word inRange
      | false =>
          have holds : slot.Holds fanIn standing.payload standing.answer :=
            stands
          refine ⟨fun unanswered word inRange => ?_, holds.answer, holds.full⟩
          rw [if_neg Bool.false_ne_true, payload_hear, forget]
          exact holds.sum unanswered word inRange

theorem sum_payload (standing : Standing) (word : Nat) :
    ∑ child ∈ Finset.range fanIn, ntohl (standing.payload child word) =
      standing.sum fanIn word :=
  Finset.sum_congr rfl fun _ _ => ntohl_htonl _

/-- What is sent, and that it shows the slot as it was left. -/
structure Sends (fanIn : Nat) (root : Bool) (slot after : Slot)
    (standing : Standing) (port : Nat) (transfer : Transfer) (packet : Packet)
    (frames : List Emission) : Prop where
  stands : after.Stands fanIn root standing
  answers : frames.isEmpty = !slot.answers fanIn root port
  shows : ∀ frame ∈ frames,
    (∃ child, frame = after.result transfer child packet.psn packet.opcode) ∨
      frame = after.upload fanIn transfer packet.psn packet.opcode
  integer : ∀ frame ∈ frames, standing.integerFor fanIn root frame.port =
    if slot.relays fanIn root port then standing.parent else standing.sum fanIn
  values : frames ≠ [] → ∀ word < payloadCount, after.values word =
    if slot.relays fanIn root port then htonl (standing.parent word)
    else standing.sum fanIn word

/-- Frames of the sum are right behind a RETH, frames of the parent's result
without one. -/
theorem Sends.right_iff
    (sends : Sends fanIn root slot after standing port transfer packet frames) :
    (∀ frame ∈ frames,
        Shown.Right ⟨frame, standing.integerFor fanIn root frame.port⟩) ↔
      (slot.answers fanIn root port = true →
        (transfer = if slot.relays fanIn root port then .send else .write) ∨
          ∀ word < payloadCount, Symmetric
            (if slot.relays fanIn root port then standing.parent word
            else standing.sum fanIn word)) := by
  obtain ⟨-, answers, shows, integer, values⟩ := sends
  have each : ∀ frame ∈ frames,
      (Shown.Right ⟨frame, standing.integerFor fanIn root frame.port⟩ ↔
        (transfer = if slot.relays fanIn root port then .send else .write) ∨
          ∀ word < payloadCount, Symmetric
            (if slot.relays fanIn root port then standing.parent word
            else standing.sum fanIn word)) := by
    intro frame sent
    rw [integer frame sent]
    have held := values (List.ne_nil_of_mem sent)
    have shown : Shown.Right ⟨frame, if slot.relays fanIn root port then
        standing.parent else standing.sum fanIn⟩ ↔
          ∀ word < payloadCount, transfer.encode (after.values word) =
            (if slot.relays fanIn root port then standing.parent
            else standing.sum fanIn) word := by
      rcases shows frame sent with ⟨child, rfl⟩ | rfl
      · exact result_right_iff
      · exact upload_right_iff
    rw [shown]
    cases relays : slot.relays fanIn root port with
    | true =>
        simp only [relays, if_true] at held ⊢
        rw [← encode_network]
        exact forall₂_congr fun word inRange => by rw [held word inRange]
    | false =>
        simp only [relays, Bool.false_eq_true, if_false] at held ⊢
        rw [← encode_host]
        exact forall₂_congr fun word inRange => by rw [held word inRange]
  cases frames with
  | nil =>
      have silent : slot.answers fanIn root port = false := by
        simpa using answers
      simp [silent]
  | cons frame rest =>
      have speaks : slot.answers fanIn root port = true := by
        simpa using answers
      rw [speaks]
      exact ⟨fun right _ => (each frame List.mem_cons_self).mp
          (right frame List.mem_cons_self),
        fun ordered other sent => (each other sent).mpr (ordered rfl)⟩

theorem contribute_full :
    (slot.bumpDegree.contribute transfer port packet).full fanIn =
      (slot.setArrived port).full fanIn := by
  unfold Slot.full
  rw [contribute_arrived]
  rfl

theorem sends_root_up (stands : slot.Stands fanIn true standing)
    (valid : ValidFanIn fanIn) (isChild : port < fanIn) :
    let handled := slot.handleUpRoot fanIn transfer port packet
    Sends fanIn true slot handled.1 (standing.up slot port transfer packet) port
      transfer packet handled.2 := by
  have before : slot.Sums fanIn
      (standing.up slot port transfer packet).payload :=
    stands.up port transfer packet
  have after := before.handle isChild fun first word _ => carried_up first word
  refine ⟨after, ?_, fun frame sent => ?_, fun frame _ => ?_, fun sent => ?_⟩
  · cases again : slot.arrived port with
    | true =>
        cases closed : slot.arrived fanIn <;>
          simp [Slot.handleUpRoot, Slot.answers, isChild, again, closed]
    | false =>
        cases filled : (slot.setArrived port).full fanIn with
        | true =>
            rw [handleUpRoot_filled again (contribute_full.trans filled)]
            simp [Slot.answers, isChild, again, filled,
              broadcast_nonempty valid]
        | false =>
            rw [handleUpRoot_unfilled again (contribute_full.trans filled)]
            simp [Slot.answers, isChild, again, filled]
  · obtain ⟨-, child, -, shows⟩ := before.frame isChild sent
    exact Or.inl ⟨child, shows⟩
  · rfl
  · obtain ⟨frame, member⟩ := List.exists_mem_of_ne_nil _ sent
    obtain ⟨complete, -⟩ := before.frame isChild member
    have full := (Bool.and_eq_true_iff.mp complete).2
    intro word inRange
    exact (values_of_full full after.values inRange).trans (sum_payload _ word)

/-- A root's slot is completed by the first packet that fills it. -/
theorem completed_eq (isChild : port < fanIn) :
    (!slot.complete fanIn &&
        (slot.handleUpRoot fanIn transfer port packet).1.complete fanIn) =
      (!slot.arrived port && (slot.setArrived port).full fanIn) := by
  cases again : slot.arrived port with
  | true =>
      rw [handleUpRoot_again again, Slot.bumpDegree_complete, Bool.not_and_self]
      rfl
  | false =>
      have incomplete : slot.complete fanIn = false := by
        rw [Slot.complete, unfilled_of_first isChild again, Bool.and_false]
      rw [incomplete]
      cases filled : (slot.setArrived port).full fanIn with
      | true =>
          have added : (slot.bumpDegree.contribute transfer port packet).full
              fanIn = true := contribute_full.trans filled
          rw [handleUpRoot_filled again added]
          exact complete_setArrived added
      | false =>
          have added : (slot.bumpDegree.contribute transfer port packet).full
              fanIn = false := contribute_full.trans filled
          rw [handleUpRoot_unfilled again added, Slot.complete, added,
            Bool.and_false]

theorem sends_inner_up (stands : slot.Stands fanIn false standing)
    (isChild : port < fanIn) :
    let handled := slot.handleUpInner fanIn transfer port packet
    Sends fanIn false slot handled.1 (standing.up slot port transfer packet)
      port transfer packet handled.2 := by
  have before : slot.Holds fanIn
      (standing.up slot port transfer packet).payload
      (standing.up slot port transfer packet).answer :=
    stands.up port transfer packet
  have after := before.handleUp isChild fun first word _ =>
    carried_up first word
  have parent : (slot.handleUpInner fanIn transfer port packet).1.arrived fanIn =
      slot.arrived fanIn := handleUpInner_parent isChild
  have relays : slot.relays fanIn false port = slot.arrived fanIn := by
    simp [Slot.relays, isChild]
  have unanswered : (slot.arrived fanIn = true → slot.arrived port = false) →
      slot.arrived fanIn = false := fun openly =>
    Bool.eq_false_iff.mpr fun closed => Bool.eq_false_iff.mp (openly closed)
      (full_iff.mp (before.full closed) port isChild)
  refine ⟨after, ?_, fun frame sent => ?_, fun frame sent => ?_, fun sent => ?_⟩
  · cases again : slot.arrived port with
    | true =>
        cases closed : slot.arrived fanIn with
        | true => simp [Slot.handleUpInner, Slot.answers, isChild, again, closed]
        | false =>
            simp only [Slot.handleUpInner, Slot.answers, isChild, again, closed,
              if_true, Bool.false_eq_true, if_false, Bool.not_false,
              Bool.true_and, Bool.false_or]
            have same : slot.bumpDegree.degree = slot.degree + 1 := rfl
            rw [same]
            by_cases due : slot.full fanIn = true ∧
                (slot.degree + 1) % fanIn = 0
            · rw [if_pos due, due.1, decide_eq_true due.2]
              rfl
            · rw [if_neg due]
              cases full : slot.full fanIn with
              | false => rfl
              | true =>
                  have undue : ¬(slot.degree + 1) % fanIn = 0 :=
                    fun zero => due ⟨full, zero⟩
                  rw [decide_eq_false undue]
                  rfl
    | false =>
        cases filled : (slot.setArrived port).full fanIn <;>
          simp [Slot.handleUpInner, Slot.answers, isChild, again, filled,
            contribute_full]
  · rcases handleUpInner_frame sent with ⟨-, -, shows⟩ | ⟨-, -, shows⟩
    · exact Or.inl ⟨port, shows⟩
    · exact Or.inr shows
  · rw [relays]
    rcases handleUpInner_frame sent with ⟨-, closed, rfl⟩ | ⟨openly, -, rfl⟩
    · have notParent : port ≠ fanIn := by omega
      simp [Standing.integerFor, closed, notParent]
    · simp [Standing.integerFor, unanswered openly]
  · obtain ⟨frame, member⟩ := List.exists_mem_of_ne_nil _ sent
    intro word inRange
    rw [relays]
    rcases handleUpInner_frame member with ⟨-, closed, -⟩ | ⟨openly, full, -⟩
    · rw [closed]
      exact after.answer (parent.trans closed) word inRange
    · rw [unanswered openly]
      exact (values_of_full full
        (after.sum (parent.trans (unanswered openly))) inRange).trans
          (sum_payload _ word)

theorem sends_down (stands : slot.Stands fanIn root standing)
    (valid : ValidFanIn fanIn) (notChild : ¬port < fanIn) :
    let handled := slot.handleDown fanIn transfer packet
    Sends fanIn root slot handled.1
      (standing.down fanIn slot transfer packet) port transfer packet
      handled.2 := by
  have answers : slot.answers fanIn root port =
      (!slot.arrived fanIn && slot.full fanIn) := by
    simp [Slot.answers, notChild]
  rcases handleDown_cases fanIn slot transfer packet with
    ⟨openly, full, same⟩ | ⟨closed, same⟩
  · -- A root closes its slots itself, so this is an inner switch.
    have inner : root = false := by
      cases root with
      | false => rfl
      | true =>
          have sums : slot.Sums fanIn standing.payload := stands
          exact absurd (sums.closed.trans full) (Bool.eq_false_iff.mp openly)
    subst inner
    have taken : standing.down fanIn slot transfer packet =
        standing.take (transfer.integer packet) := by
      simp [Standing.down, openly, full]
    have relays : slot.relays fanIn false port = true := by
      simp [Slot.relays, notChild]
    have before : slot.Holds fanIn standing.payload
        (standing.take (transfer.integer packet)).answer :=
      ⟨Slot.Holds.sum stands, fun closed => absurd closed
        (Bool.eq_false_iff.mp openly), Slot.Holds.full stands⟩
    have after : (slot.handleDown fanIn transfer packet).1.Holds fanIn
        standing.payload (standing.take (transfer.integer packet)).answer :=
      before.handleDown fun word _ => payload_eq_htonl word
    rw [taken]
    refine ⟨after, ?_, fun frame sent => ?_, fun frame sent => ?_,
      fun sent word inRange => ?_⟩
    · rw [answers, openly, full, same]
      exact broadcast_nonempty valid _ _
    · rw [same] at sent ⊢
      obtain ⟨child, -, shows⟩ := List.mem_map.mp sent
      exact Or.inl ⟨child, shows.symm⟩
    · rw [relays]
      obtain ⟨-, toChild, -⟩ := before.frames_down
        (fun word _ => payload_eq_htonl word) sent
      have notParent : frame.port ≠ fanIn := by omega
      simp [Standing.integerFor, notParent]
    · rw [relays]
      refine after.answer ?_ word inRange
      rw [same]
      exact Function.update_self ..
  · have silent : (!slot.arrived fanIn && slot.full fanIn) = false := by
      cases full : slot.full fanIn with
      | true => simp [closed full]
      | false => simp
    have kept : standing.down fanIn slot transfer packet = standing := by
      simp [Standing.down, silent]
    rw [same, kept]
    refine ⟨stands, ?_, nofun, nofun, fun sent => absurd rfl sent⟩
    rw [answers, silent]
    rfl

end Slot

/-- A packet handed to the pipeline: SEND or WRITE_FIRST/ONLY, or an ACK. -/
structure Arrival where
  port : Nat
  previous : MetaType
  packet : Packet
  known : (Transfer.ofOpcode packet.opcode).isSome = true ∨
    packet.opcode = rdmaOpcodeAck

/-- The tables, what their slots stand for, and the frames sent so far. -/
structure Interpreted where
  tables : Tables
  standing : Nat → Standing
  shown : List Shown

namespace Interpreted

def init : Interpreted where
  tables := .init
  standing := fun _ => .nothing
  shown := []

/-- The slot a packet meets. -/
def slotOf (fanIn : Nat) (state : Interpreted) (arrival : Arrival) : Slot :=
  state.tables.slot fanIn (idx arrival.packet.psn)

/-- What the slot stands for after a data packet. -/
def standingOf (fanIn : Nat) (state : Interpreted) (arrival : Arrival)
    (transfer : Transfer) : Standing :=
  let standing := state.standing (idx arrival.packet.psn)
  let slot := state.slotOf fanIn arrival
  if arrival.port < fanIn then
    standing.up slot arrival.port transfer arrival.packet
  else standing.down fanIn slot transfer arrival.packet

/-- The packet completes a slot of a root. -/
def completes (fanIn : Nat) (root : Bool) (state : Interpreted)
    (arrival : Arrival) : Bool :=
  let slot := state.slotOf fanIn arrival
  root && decide (arrival.port < fanIn) && !slot.arrived arrival.port &&
    (slot.setArrived arrival.port).full fanIn

/-- What all slots stand for after a data packet. -/
def heard (fanIn : Nat) (root : Bool) (state : Interpreted)
    (arrival : Arrival) (transfer : Transfer) : Nat → Standing :=
  let index := idx arrival.packet.psn
  let updated := Function.update state.standing index
    (state.standingOf fanIn arrival transfer)
  if state.completes fanIn root arrival then
    Function.update updated (idx (arrival.packet.psn + windowSize)) .nothing
  else updated

def step (fanIn : Nat) (root : Bool) (state : Interpreted)
    (arrival : Arrival) : Option Interpreted :=
  (pipeline fanIn root state.tables
    (System.metadataAt arrival.port arrival.previous) arrival.packet).map
      fun outcome =>
        let standing :=
          match Transfer.ofOpcode arrival.packet.opcode with
          | some transfer => state.heard fanIn root arrival transfer
          | none => state.standing
        { tables := outcome.1
          standing := standing
          shown := state.shown ++ outcome.2.2.map fun frame =>
            ⟨frame, (standing (idx arrival.packet.psn)).integerFor fanIn root
              frame.port⟩ }

/-- The encoder fits what the slot holds: a sum goes behind a RETH, a result of
the parent without one, unless every integer reads the same in both orders. -/
def Ordered (fanIn : Nat) (root : Bool) (state : Interpreted)
    (arrival : Arrival) : Prop :=
  ∀ transfer ∈ Transfer.ofOpcode arrival.packet.opcode,
    let slot := state.slotOf fanIn arrival
    let standing := state.standingOf fanIn arrival transfer
    let relays := slot.relays fanIn root arrival.port
    slot.answers fanIn root arrival.port = true →
      (transfer = if relays then .send else .write) ∨
        ∀ word < payloadCount, Symmetric
          (if relays then standing.parent word else standing.sum fanIn word)

/-- Every slot holds what it stands for. -/
def Stands (fanIn : Nat) (root : Bool) (state : Interpreted) : Prop :=
  ∀ index, (state.tables.slot fanIn index).Stands fanIn root
    (state.standing index)

def Right (state : Interpreted) : Prop := ∀ shown ∈ state.shown, shown.Right

variable {fanIn : Nat} {root : Bool} {state next : Interpreted}
  {arrival : Arrival} {transfer : Transfer}

theorem blank_stands (valid : ValidFanIn fanIn) :
    Slot.blank.Stands fanIn root .nothing := by
  cases root with
  | true => exact Slot.Sums.blank valid
  | false => exact Slot.Holds.blank

theorem Stands.init (valid : ValidFanIn fanIn) :
    Stands fanIn root .init := by
  intro index
  have blank : Interpreted.init.tables.slot fanIn index = .blank :=
    congrFun (slot_init fanIn) index
  rw [blank]
  exact blank_stands valid

theorem Stands.update {slots : Nat → Slot} {standings : Nat → Standing}
    {index : Nat} {slot : Slot} {standing : Standing}
    (stands : ∀ other, (slots other).Stands fanIn root (standings other))
    (new : slot.Stands fanIn root standing) (other : Nat) :
    (Function.update slots index slot other).Stands fanIn root
      (Function.update standings index standing other) := by
  by_cases same : other = index
  · subst same
    rwa [Function.update_self, Function.update_self]
  · rw [Function.update_of_ne same, Function.update_of_ne same]
    exact stands other

/-- What one packet adds to the run. -/
structure Steps (fanIn : Nat) (root : Bool) (state : Interpreted)
    (arrival : Arrival) (next : Interpreted) : Prop where
  stands : next.Stands fanIn root
  shown : ∃ fresh, next.shown = state.shown ++ fresh ∧
    ((∀ shown ∈ fresh, shown.Right) ↔ state.Ordered fanIn root arrival)

theorem step_none (stands : state.Stands fanIn root)
    (opcode : Transfer.ofOpcode arrival.packet.opcode = none)
    (stepped : state.step fanIn root arrival = some next) :
    state.Steps fanIn root arrival next := by
  have ack : arrival.packet.opcode = rdmaOpcodeAck :=
    arrival.known.resolve_left (by simp [opcode])
  have piped : ∃ outcome, pipeline fanIn root state.tables
      (System.metadataAt arrival.port arrival.previous) arrival.packet =
        some outcome ∧ outcome.1 = state.tables ∧
          ∀ frame ∈ outcome.2.2, frame.data = [] := by
    have notData : rdmaOpcodeAck ∉ dataOpcodes := by decide
    have notWrite : rdmaOpcodeAck ∉ writeOpcodes := by decide
    by_cases isChild : arrival.port < fanIn
    · simp [pipeline, classify, System.metadataAt, ack, notData, notWrite,
        isChild, sendRoceAck]
    · simp [pipeline, classify, System.metadataAt, ack, notData, notWrite,
        isChild]
  obtain ⟨outcome, piped, kept, empty⟩ := piped
  simp only [step, piped, opcode, Option.map_some, Option.some.injEq] at stepped
  subst stepped
  refine ⟨?_, _, rfl, ?_⟩
  · unfold Stands
    dsimp only
    rw [kept]
    exact stands
  · refine iff_of_true (fun shown member => ?_) fun transfer known => ?_
    · obtain ⟨frame, sent, rfl⟩ := List.mem_map.mp member
      intro buffer conn word inRange
      simp [empty frame sent] at inRange
    · rw [opcode] at known
      cases known

/-- What a data packet does, from what it does to its slot. -/
theorem step_some (stands : state.Stands fanIn root) (valid : ValidFanIn fanIn)
    (opcode : Transfer.ofOpcode arrival.packet.opcode = some transfer)
    {tables : Tables} {data : Metadata} {frames : List Emission} (after : Slot)
    (piped : pipeline fanIn root state.tables
      (System.metadataAt arrival.port arrival.previous) arrival.packet =
        some (tables, data, frames))
    (slots : tables.slot fanIn =
      let written := Function.update (state.tables.slot fanIn)
        (idx arrival.packet.psn) after
      if state.completes fanIn root arrival then
        Function.update written (idx (arrival.packet.psn + windowSize)) .blank
      else written)
    (sends : Sends fanIn root (state.slotOf fanIn arrival) after
      (state.standingOf fanIn arrival transfer) arrival.port transfer
      arrival.packet frames)
    (stepped : state.step fanIn root arrival = some next) :
    state.Steps fanIn root arrival next := by
  simp only [step, piped, opcode, Option.map_some, Option.some.injEq] at stepped
  have here : state.heard fanIn root arrival transfer (idx arrival.packet.psn) =
      state.standingOf fanIn arrival transfer := by
    unfold heard
    split_ifs
    · rw [Function.update_of_ne (idx_window_ne _), Function.update_self]
    · rw [Function.update_self]
  subst stepped
  refine ⟨?_, _, rfl, ?_⟩
  · unfold Stands heard
    rw [slots]
    split_ifs
    · exact Stands.update (Stands.update stands sends.stands)
        (blank_stands valid)
    · exact Stands.update stands sends.stands
  · rw [here, List.forall_mem_map, sends.right_iff]
    simp only [Ordered, opcode, Option.mem_def, Option.some.injEq, forall_eq']

theorem step_down (stands : state.Stands fanIn root) (valid : ValidFanIn fanIn)
    (opcode : Transfer.ofOpcode arrival.packet.opcode = some transfer)
    (notChild : ¬arrival.port < fanIn)
    (stepped : state.step fanIn root arrival = some next) :
    state.Steps fanIn root arrival next := by
  obtain ⟨data, piped⟩ := pipeline_down root state.tables
    (System.metadataAt arrival.port arrival.previous) notChild opcode
  have length : transfer.dataLen arrival.packet = payloadLen := by
    by_contra other
    simp [step, piped, Transfer.handleDown, other] at stepped
  obtain ⟨handled, taken, slots, frames⟩ :=
    handleDown_slot state.tables arrival.packet transfer valid length
  rw [taken, Option.map_some] at piped
  have notUp : state.completes fanIn root arrival = false := by
    simp [completes, notChild]
  let before := state.slotOf fanIn arrival
  have here : before.Stands fanIn root
      (state.standing (idx arrival.packet.psn)) := stands _
  refine step_some stands valid opcode
    (before.handleDown fanIn transfer arrival.packet).1 piped ?_ ?_ stepped
  · rw [notUp]
    exact slots
  · rw [standingOf, if_neg notChild]
    exact frames ▸ sends_down here valid notChild

theorem step_up (stands : state.Stands fanIn root) (valid : ValidFanIn fanIn)
    (opcode : Transfer.ofOpcode arrival.packet.opcode = some transfer)
    (isChild : arrival.port < fanIn)
    (stepped : state.step fanIn root arrival = some next) :
    state.Steps fanIn root arrival next := by
  obtain ⟨data, piped⟩ := pipeline_up root state.tables
    (System.metadataAt arrival.port arrival.previous) isChild opcode
  have length : transfer.dataLen arrival.packet = payloadLen := by
    by_contra other
    simp [step, piped, Transfer.handleUp, other] at stepped
  rw [Transfer.handleUp, if_pos length, Option.map_some] at piped
  let before := state.slotOf fanIn arrival
  have here : before.Stands fanIn root
      (state.standing (idx arrival.packet.psn)) := stands _
  cases root with
  | true =>
      obtain ⟨slots, frames⟩ := handleUpRoot_slot state.tables arrival.packet
        transfer valid isChild
      rw [completed_eq isChild] at slots
      refine step_some stands valid opcode
        (before.handleUpRoot fanIn transfer arrival.port arrival.packet).1 piped
        ?_ ?_ stepped
      · have completes : state.completes fanIn true arrival =
            (!before.arrived arrival.port &&
              (before.setArrived arrival.port).full fanIn) := by
          rw [completes, decide_eq_true isChild, Bool.true_and, Bool.true_and]
        rw [completes]
        exact slots
      · rw [standingOf, if_pos isChild, if_pos rfl]
        exact frames ▸ sends_root_up here valid isChild
  | false =>
      obtain ⟨slots, frames⟩ := handleUpInner_slot state.tables arrival.packet
        transfer valid isChild
      refine step_some stands valid opcode
        (before.handleUpInner fanIn transfer arrival.port arrival.packet).1 piped
        ?_ ?_ stepped
      · rw [completes, Bool.false_and, Bool.false_and, Bool.false_and]
        exact slots
      · rw [standingOf, if_pos isChild, if_neg Bool.false_ne_true]
        exact frames ▸ sends_inner_up here isChild

theorem step_steps (stands : state.Stands fanIn root) (valid : ValidFanIn fanIn)
    (stepped : state.step fanIn root arrival = some next) :
    state.Steps fanIn root arrival next := by
  cases opcode : Transfer.ofOpcode arrival.packet.opcode with
  | none => exact step_none stands opcode stepped
  | some transfer =>
      by_cases isChild : arrival.port < fanIn
      · exact step_up stands valid opcode isChild stepped
      · exact step_down stands valid opcode isChild stepped

theorem Steps.right_iff (steps : state.Steps fanIn root arrival next)
    (right : state.Right) : next.Right ↔ state.Ordered fanIn root arrival := by
  obtain ⟨fresh, shown, ordered⟩ := steps.shown
  rw [← ordered]
  constructor
  · intro all each member
    refine all each ?_
    rw [shown]
    exact List.mem_append_right _ member
  · intro new each member
    rw [shown] at member
    exact (List.mem_append.mp member).elim (right each) (new each)

instance (state : Interpreted) (arrival : Arrival) :
    Decidable (state.Ordered fanIn root arrival) := by
  unfold Ordered
  dsimp only
  infer_instance

end Interpreted

open Interpreted in
/-- The frames of a run carry their integers exactly when every packet meets a
slot in the byte order of its encoder, and the two encoders make the same of a
slot only when no byte order matters. -/
theorem right_iff_ordered {fanIn : Nat} (root : Bool) (valid : ValidFanIn fanIn)
    (arrivals : List Arrival) (final : Interpreted)
    (taken : run (step fanIn root) .init arrivals = some final) :
    (Throughout (step fanIn root) Right .init arrivals ↔
      Meets (step fanIn root) (Ordered fanIn root) .init arrivals) ∧
    ∀ (slot : Slot) (port psn : Nat) (sendOpcode writeOpcode : Opcode)
      (buffer : Nat → Memory.Byte) (conn : Connection),
      ∀ word < payloadCount,
        ((slot.result .send port psn sendOpcode).integer buffer conn word =
            (slot.result .write port psn writeOpcode).integer buffer conn word ↔
          Symmetric (slot.values word)) := by
  constructor
  · refine throughout_iff_meets
      (fun state => state.Stands fanIn root ∧ state.Right)
      (fun state holds => holds.2) ?_ ?_
      ⟨Stands.init valid, fun shown member => by cases member⟩ taken
    · rintro state arrival next ⟨stands, right⟩ ordered stepped
      have steps := step_steps stands valid stepped
      exact ⟨steps.stands, (steps.right_iff right).mpr ordered⟩
    · rintro state arrival next ⟨stands, right⟩ unordered stepped nextRight
      have steps := step_steps stands valid stepped
      exact unordered ((steps.right_iff right).mp nextRight)
  · intro slot port psn sendOpcode writeOpcode buffer conn word inRange
    rw [Slot.result, Slot.result, integer_sendRoceData buffer conn inRange,
      integer_sendRoceDataWithReth buffer conn inRange]
    rfl

/-- A child that sends the integer 1 in every word, without a RETH. -/
def oneSent : Arrival :=
  ⟨0, .upAck, sendPacket 0 (htonl 1), Or.inl (by decide)⟩

/-- The same behind a RETH. -/
def oneWritten : Arrival where
  port := 0
  previous := .upAck
  packet :=
    { sendPacket 0 (htonl 1) with
      udpLength := 1064
      opcode := opcodeWriteOnly
      body := List.replicate 4 0 ++ List.replicate payloadCount (htonl 1) }
  known := Or.inl (by decide)

/-- The parent's answer. -/
def oneAnswered : Arrival :=
  ⟨1, .upAck, sendPacket 0 (htonl 1), Or.inl (by decide)⟩

/-- A packet written and a packet sent down are both right. -/
theorem right_iff_ordered_writeThenSend :
    Throughout (Interpreted.step 1 false) Interpreted.Right .init
      [oneWritten, oneAnswered] := by
  have taken : (run (Interpreted.step 1 false) .init
      [oneWritten, oneAnswered]).isSome = true := by
    decide +kernel
  obtain ⟨final, ran⟩ := Option.isSome_iff_exists.mp taken
  exact (right_iff_ordered false ⟨by decide, by decide⟩ _ final ran).1.mpr
    (by decide +kernel)

/-- The root broadcasts the 1 of a SEND packet as `0x01000000`. -/
theorem not_right_oneSent :
    ¬∀ (fanIn : Nat) (root : Bool) (arrivals : List Arrival)
      (final : Interpreted), ValidFanIn fanIn →
      run (Interpreted.step fanIn root) .init arrivals = some final →
        final.Right := by
  intro always
  have wrong : (run (Interpreted.step 1 true) .init [oneSent]).map
      (fun state => state.shown.any fun shown =>
        decide (0 < shown.frame.data.length ∧
          shown.integer 0 = 1 ∧
          shown.frame.integer (fun _ => 0) .zero 0 = 0x01000000)) =
        some true := by
    decide +kernel
  obtain ⟨final, ran, any⟩ := Option.map_eq_some_iff.mp wrong
  obtain ⟨shown, member, found⟩ := List.any_eq_true.mp any
  obtain ⟨carries, one, swapped⟩ := of_decide_eq_true found
  have right := always 1 true _ final ⟨by decide, by decide⟩ ran shown member
    (fun _ => 0) .zero 0 carries
  rw [one, swapped] at right
  exact absurd right (by decide)

end IncEmulation.NonTermination
