import IncEmulation.Switch.NetworkRun
import IncEmulation.Switch.Retransmission

/-!
# Loss and recovery in the tree

A frame that gets lost between two switches is asked for again, and what
`retransmit` sends arrives in its place.
-/

namespace IncEmulation.Switch

open Gather Hierarchy

/-- The frames with payload for a connection, retransmissions included. -/
def payloadTo (log : List Entry) (conn : Nat) : List Frame :=
  (log.filterMap Entry.outgoing).filter fun frame =>
    frame.conn = conn ∧ frame.Payload

/-- Data from a child: what the host there sends under its PSN, or what is read
of any frame that the switch there has sent up. -/
def DataFromChild (cabling : Cabling) (hosts : Path → List (List UInt32))
    (network : Network) (path : Path) (packet : Packet) : Option Layout → Prop
  | some .leaf => (hosts path)[packet.psn]? = some packet.payload
  | _ => ∃ frame ∈ payloadTo (network path).log fanIn,
      Reads packet (cabling.bytes path frame)

/-- An acknowledgement of a child: a host acknowledges what it was sent. -/
def ReplyFromChild (cabling : Cabling) (network : Network) (conn : Nat)
    (path : Path) (packet : Packet) : Option Layout → Prop
  | some .leaf =>
      packet.acknowledges < (sentData (network path).log conn).length
  | _ => ∃ frame ∈ (network (conn :: path)).log.filterMap Entry.outgoing,
      frame.conn = fanIn ∧ frame.Reply ∧
        Reads packet (cabling.bytes (conn :: path) frame)

/-- What comes from the parent is read of the frames of the switch there. -/
def SentByParent (cabling : Cabling) (network : Network) (packet : Packet) :
    Path → Prop
  | [] => True
  | position :: path =>
      (packet.opcode ∈ sendOpcodes →
        ∃ frame ∈ payloadTo (network path).log position,
          Reads packet (cabling.bytes path frame)) ∧
      (packet.opcode = 0x11 →
        ∃ frame ∈ (network path).log.filterMap Entry.outgoing,
          frame.conn = position ∧ frame.Reply ∧
            Reads packet (cabling.bytes path frame))

/-- What arrives was sent, for the first time or again. -/
def Delivers (cabling : Cabling) (tree : Layout)
    (hosts : Path → List (List UInt32)) (network : Network) :
    Path × Event → Prop
  | (path, .packet conn packet) =>
      (conn < fanIn → packet.opcode ∈ sendOpcodes →
        DataFromChild cabling hosts network (conn :: path) packet
          (tree.subtree fanIn (conn :: path))) ∧
      (conn < fanIn → packet.opcode = 0x11 →
        ReplyFromChild cabling network conn path packet
          (tree.subtree fanIn (conn :: path))) ∧
      (conn = fanIn → SentByParent cabling network packet path)
  | _ => True

/-- The switch that takes the step retransmits what stands in the slots of its
PSNs. -/
def Retransmits (network : Network) (action : Path × Event) : Prop :=
  RetransmitsHeld (network action.1) action.2

section Decisions

variable (cabling : Cabling) (hosts : Path → List (List UInt32))
  (network : Network) (conn : Nat) (path : Path) (packet : Packet)

instance : DecidablePred (DataFromChild cabling hosts network path packet)
  | some .leaf => inferInstanceAs (Decidable (_ = _))
  | some (.node _) => inferInstanceAs (Decidable (∃ _ ∈ _, _))
  | none => inferInstanceAs (Decidable (∃ _ ∈ _, _))

instance : DecidablePred (ReplyFromChild cabling network conn path packet)
  | some .leaf => inferInstanceAs (Decidable (_ < _))
  | some (.node _) => inferInstanceAs (Decidable (∃ _ ∈ _, _))
  | none => inferInstanceAs (Decidable (∃ _ ∈ _, _))

instance : DecidablePred (SentByParent cabling network packet)
  | [] => .isTrue trivial
  | _ :: _ => inferInstanceAs (Decidable ((_ → _) ∧ (_ → _)))

instance (tree : Layout) : DecidablePred (Delivers cabling tree hosts network)
  | (_, .packet _ _) =>
      inferInstanceAs (Decidable ((_ → _ → _) ∧ (_ → _ → _) ∧ (_ → _)))
  | (_, .start) => .isTrue trivial
  | (_, .round _) => .isTrue trivial

instance : DecidablePred (Retransmits network) :=
  fun action => inferInstanceAs
    (Decidable (RetransmitsHeld (network action.1) action.2))

end Decisions

section Originals

variable {log : List Entry} {frame : Frame} {conn : Nat} {packet : Packet}
  {path : Path} {cabling : Cabling}

theorem mem_log_of_outgoing (member : frame ∈ log.filterMap Entry.outgoing) :
    .sent frame ∈ log := by
  obtain ⟨entry, isEntry, same⟩ := List.mem_filterMap.mp member
  cases entry with
  | received => cases same
  | sent other =>
      cases same
      exact isEntry

theorem outgoing_of_mem_log (member : .sent frame ∈ log) :
    frame ∈ log.filterMap Entry.outgoing :=
  List.mem_filterMap.mpr ⟨.sent frame, member, rfl⟩

theorem mem_sentData (member : .sent frame ∈ log) (isConn : frame.conn = conn)
    (data : frame.type = .data) : frame ∈ sentData log conn :=
  List.mem_filter.mpr
    ⟨outgoing_of_mem_log member, decide_eq_true ⟨isConn, data⟩⟩

/-- The first frame for a PSN is no retransmission. -/
theorem Faithful.firstSent_data {before after : List Entry} {psn : Int}
    (faithful : Faithful (before ++ after))
    (found : firstSent before conn psn = some frame) : frame.type = .data := by
  obtain ⟨earlier, entry, later, rfl, carried, none⟩ :=
    List.findSome?_eq_some_iff.mp found
  obtain ⟨-, isConn, isPsn, payload⟩ := firstSent_eq_some found
  refine payload.resolve_right fun single => ?_
  have isEntry : entry = .sent frame := by
    cases entry with
    | received => cases carried
    | sent other =>
        simp only [Entry.carried] at carried
        split at carried
        · rw [Option.some.inj carried]
        · cases carried
  subst isEntry
  have repeats := faithful earlier frame (later ++ after)
    (by rw [List.append_assoc, List.cons_append]) single
  obtain ⟨first, again, -⟩ := repeats.original
  rw [isConn, isPsn, firstSent, List.findSome?_eq_none_iff.mpr none] at again
  cases again

theorem Faithful.exists_original (faithful : Faithful log)
    (member : frame ∈ payloadTo log conn) :
    ∃ original ∈ sentData log conn, original.psn = frame.psn ∧
      original.packetType = frame.packetType ∧ original.data = frame.data := by
  obtain ⟨outgoing, holds⟩ := List.mem_filter.mp member
  obtain ⟨isConn, payload⟩ := of_decide_eq_true holds
  have inLog := mem_log_of_outgoing outgoing
  rcases payload with data | single
  · exact ⟨frame, mem_sentData inLog isConn data, rfl, rfl, rfl⟩
  · obtain ⟨before, after, rfl⟩ := List.append_of_mem inLog
    obtain ⟨first, found, packetType, data⟩ :=
      (faithful before frame after rfl single).original
    obtain ⟨inBefore, firstConn, isPsn, -⟩ := firstSent_eq_some found
    exact ⟨first, mem_sentData (List.mem_append_left _ inBefore)
      (firstConn.trans isConn) (faithful.firstSent_data found), isPsn,
      packetType, data⟩

/-- On the way a retransmission is its original. -/
theorem bytes_of_original {original : Frame} (cabling : Cabling) (path : Path)
    (member : frame ∈ payloadTo log conn)
    (isOriginal : original ∈ sentData log conn) (psn : original.psn = frame.psn)
    (packetType : original.packetType = frame.packetType)
    (data : original.data = frame.data) :
    cabling.bytes path frame = cabling.bytes path original := by
  obtain ⟨-, holds⟩ := List.mem_filter.mp member
  obtain ⟨isConn, payload⟩ := of_decide_eq_true holds
  obtain ⟨-, holds'⟩ := List.mem_filter.mp isOriginal
  obtain ⟨isConn', type⟩ := of_decide_eq_true holds'
  have built : frame.type.built = .data := by
    rcases payload with same | same <;> rw [same] <;> rfl
  have built' : original.type.built = .data := by
    rw [type]
    rfl
  rw [Cabling.bytes, Cabling.bytes, Frame.bytes, Frame.bytes, isConn, isConn',
    psn, packetType, data, built, built']

theorem Faithful.exists_data (faithful : Faithful log)
    (sent : ∃ frame ∈ payloadTo log conn,
      Reads packet (cabling.bytes path frame)) :
    ∃ frame ∈ sentData log conn, Reads packet (cabling.bytes path frame) := by
  obtain ⟨frame, member, reads⟩ := sent
  obtain ⟨original, isOriginal, psn, packetType, data⟩ :=
    faithful.exists_original member
  refine ⟨original, isOriginal, ?_⟩
  rwa [← bytes_of_original cabling path member isOriginal psn packetType data]

end Originals

section Steps

variable {config : Config} {fuel : Nat} {rootRank : UInt32} {tree : Layout}
  {hosts : Path → List (List UInt32)} {network next : Network} {path : Path}
  {event : Event} {conn : Nat} {packet : Packet} {child : Nat → Layout}
  {cabling : Cabling} {action : Path × Event}

/-- What holds of the tree and of the records of its switches. -/
structure Recovering (config : Config) (rootRank : UInt32) (tree : Layout)
    (hosts : Path → List (List UInt32)) (network : Network) : Prop where
  working : Working config rootRank tree hosts network
  recorded : ∀ path, Recorded (config.place path) (network path)

/-- With faithful switches what arrives was sent as data. -/
theorem Recovering.arrives
    (recovering : Recovering config rootRank tree hosts network)
    (delivers : Delivers cabling tree hosts network action) :
    Arrives cabling tree hosts network action := by
  obtain ⟨path, event⟩ := action
  cases event with
  | packet conn packet =>
      obtain ⟨fromChild, -, fromParent⟩ := delivers
      refine ⟨fun bound send => ?_, fun isParent => ?_⟩
      · have sent := fromChild bound send
        have faithful := (recovering.recorded (conn :: path)).faithful
        cases below : tree.subtree fanIn (conn :: path) with
        | none =>
            rw [below] at sent
            exact faithful.exists_data sent
        | some sub =>
            rw [below] at sent
            cases sub with
            | leaf => exact sent
            | node more => exact faithful.exists_data sent
      · have sent := fromParent isParent
        cases path with
        | nil => trivial
        | cons position above =>
            exact ⟨fun send => (recovering.recorded above).faithful.exists_data
              (sent.1 send), sent.2⟩
  | start => trivial
  | round index => trivial

/-- A child is sent no more than was broadcast. -/
theorem Recovering.length_sentData_le
    (recovering : Recovering config rootRank tree hosts network)
    (isNode : tree.subtree fanIn path = some (.node child))
    (bound : conn < fanIn) :
    ((sentData (network path).log conn).length : Int) ≤
      (network path).globals.downEpsn := by
  by_contra more
  have recorded := recovering.recorded path
  obtain ⟨psn, isPsn⟩ := Int.eq_ofNat_of_zero_le recorded.ranged.downEpsn
  obtain ⟨frame, found⟩ : ∃ frame,
      (sentData (network path).log conn)[psn]? = some frame :=
    ⟨_, List.getElem?_eq_getElem (by omega)⟩
  have number := ((recovering.working.serving isNode).numbered bound.le found).1
  obtain ⟨outgoing, holds⟩ :=
    List.mem_filter.mp (List.mem_of_getElem? found)
  obtain ⟨isConn, data⟩ := of_decide_eq_true holds
  have none := recorded.down.unsent conn bound psn isPsn.le
  have carried := List.findSome?_eq_none_iff.mp none (.sent frame)
    (mem_log_of_outgoing outgoing)
  rw [Entry.carried, if_pos ⟨isConn, number, Or.inl data⟩] at carried
  cases carried

theorem Working.length_taken_le
    (working : Working config rootRank tree hosts network)
    (isNode : tree.subtree fanIn (conn :: path) = some (.node child)) :
    (taken (network (conn :: path)).log fanIn).length ≤
      (sentData (network path).log conn).length := by
  by_contra fewer
  obtain ⟨last, isLast⟩ : ∃ last, (taken (network (conn :: path)).log
      fanIn)[(sentData (network path).log conn).length]? = some last :=
    ⟨_, List.getElem?_eq_getElem (not_le.mp fewer)⟩
  obtain ⟨original, found, -⟩ := (working.coupled isNode).parent rfl isLast
  exact lt_irrefl _ (List.getElem?_eq_some_iff.mp found).1

/-- Hosts and switches acknowledge what was broadcast to them. -/
theorem Recovering.acksBroadcast
    (recovering : Recovering config rootRank tree hosts network)
    (isNode : tree.subtree fanIn path = some (.node child))
    (delivers : Delivers cabling tree hosts network (path, event)) :
    AcksBroadcast (network path) event := by
  cases event with
  | packet conn packet =>
      intro bound opcode
      have reply := delivers.2.1 bound opcode
      have sent := recovering.length_sentData_le isNode bound
      have below := subtree_child isNode bound
      rw [below] at reply
      cases isBelow : child conn with
      | leaf =>
          rw [isBelow] at reply
          have acknowledged : packet.acknowledges <
            (sentData (network path).log conn).length := reply
          omega
      | node more =>
          rw [isBelow] at reply below
          obtain ⟨frame, member, isConn, isReply, reads⟩ := reply
          have serving := recovering.working.serving below
          have first : frame.type ≠ .dataSingle := by
            rcases isReply with type | type <;> rw [type] <;>
              exact fun same => by cases same
          have captures := serving.captures member first reads
          obtain ⟨nonneg, covered⟩ := serving.replies frame member isReply
          have atMost := captures.acknowledges_le opcode nonneg
          have few := recovering.working.length_taken_le below
          rw [isConn] at covered
          omega
  | start => trivial
  | round index => trivial

theorem Recovering.inDomain
    (recovering : Recovering config rootRank tree hosts network)
    (reduces : AllReduces config rootRank hosts)
    (isNode : tree.subtree fanIn path = some (.node child))
    (delivers : Delivers cabling tree hosts network (path, event)) :
    InDomain (config.place path) (network path) event := by
  refine ⟨recovering.acksBroadcast isNode delivers, ?_⟩
  have announces := recovering.working.announces reduces isNode
    (recovering.arrives delivers)
  cases event with
  | packet conn packet =>
      intro bound send first _
      exact (announces bound send first).2.1
  | start => trivial
  | round index => trivial

theorem Recovering.step
    (recovering : Recovering config rootRank tree hosts network)
    (reduces : AllReduces config rootRank hosts)
    (delivers : Delivers cabling tree hosts network action)
    (held : Retransmits network action)
    (stepped : networkStep config tree fuel network action = some next) :
    Recovering config rootRank tree hosts next := by
  refine ⟨recovering.working.step reduces (recovering.arrives delivers) stepped,
    fun name => ?_⟩
  obtain ⟨path, event⟩ := action
  obtain ⟨child, world, isNode, local', rfl⟩ := networkStep_cases stepped
  by_cases same : name = path
  · subst same
    rw [Function.update_self]
    exact (recovering.recorded name).step
      (recovering.inDomain reduces isNode delivers) held local'
  · rw [Function.update_of_ne same]
    exact recovering.recorded name

theorem recovering_initial {memory : Path → Globals} :
    Recovering config rootRank tree hosts (.initial config memory) :=
  ⟨working_initial, fun _ => recorded_initial⟩

end Steps

/-- Lost frames are asked for and sent again: as long as the switches
retransmit what stands in the slots of its PSNs, every host gets the sums of
all hosts in turn, and what it gets again is a sum it was sent before. -/
theorem hosts_receive_sums_again (config : Config) (rootRank : UInt32)
    (cabling : Cabling) (tree : Layout) (hosts : Path → List (List UInt32))
    (memory : Path → Globals) (fuel : Nat) (actions : List (Path × Event))
    (network : Network) (reduces : AllReduces config rootRank hosts)
    (taken : Machine.run (networkStep config tree fuel)
      (.initial config memory) actions = some network)
    (delivers : Machine.Meets (networkStep config tree fuel)
      (Delivers cabling tree hosts) (.initial config memory) actions)
    (retransmits : Machine.Meets (networkStep config tree fuel) Retransmits
      (.initial config memory) actions)
    (conn : Nat) (path : Path)
    (isHost : tree.subtree fanIn (conn :: path) = some .leaf) :
    (∀ (psn : Nat) (frame : Frame),
      (sentData (network path).log conn)[psn]? = some frame →
        frame.psn = psn ∧ HostSum config rootRank hosts
          (tree.leaves fanIn []) psn frame.data) ∧
      ∀ frame ∈ payloadTo (network path).log conn, ∃ (psn : Nat) (original : Frame),
        (sentData (network path).log conn)[psn]? = some original ∧
          frame.psn = psn ∧ frame.packetType = original.packetType ∧
            frame.data = original.data := by
  have recovering : Recovering config rootRank tree hosts network :=
    Machine.run_invariant (Recovering config rootRank tree hosts)
      (fun _ _ _ recovering met taken =>
        recovering.step reduces met.1 met.2 taken)
      recovering_initial (delivers.and retransmits) taken
  obtain ⟨bound, child, isNode, -⟩ := subtree_cons_eq_some.mp isHost
  refine ⟨recovering.working.broadcasts reduces isNode conn bound, ?_⟩
  intro frame member
  obtain ⟨original, isOriginal, isPsn, packetType, data⟩ :=
    (recovering.recorded path).faithful.exists_original member
  obtain ⟨psn, found⟩ := List.mem_iff_getElem?.mp isOriginal
  have number :=
    ((recovering.working.serving isNode).numbered bound.le found).1
  exact ⟨psn, original, found, isPsn.symm.trans number, packetType.symm,
    data.symm⟩

/-- What the root reads of the request for the first broadcast. -/
def lostNak : Packet := { Packet.nak 0 with synMsn := 0x60000001 }

/-- The first broadcast is lost on the way to the switch below the root. -/
def lossActions : List (Path × Event) :=
  [([0], .packet 0 (.announcement 1 0)), ([0], .packet 0 (.word 1 2)),
    ([], .packet 1 (.announcement 1 0)), ([0], .packet 1 (.announcement 1 0)),
    ([], .packet 0 (.announcement 1 0)), ([0], .packet 2 smallAck),
    ([], .packet 1 (.word 1 1)), ([0], .packet 1 (.word 1 2)),
    ([], .packet 0 (.word 1 4)), ([0], .packet 2 (.word 1 5)),
    ([], .packet 0 lostNak), ([], .start), ([], .round 0),
    ([0], .packet 2 (.announcement 1 0)), ([], .round 0),
    ([0], .packet 2 (.word 1 5))]

def lossNetwork : Network :=
  (Machine.run (networkStep rootConfig smallTree 4)
    (.initial rootConfig fun _ => zeroMemory) lossActions).get
      (by decide +kernel)

theorem hosts_receive_sums_again_loss :
    HostSum rootConfig 0 smallHosts [[0, 0], [1, 0], [1]] 1 [5] :=
  ((hosts_receive_sums_again rootConfig 0 smallCabling smallTree smallHosts
    (fun _ => zeroMemory) 4 lossActions lossNetwork smallHosts_reduce
    (Option.some_get _).symm (by decide +kernel) (by decide +kernel) 0 [0]
    rfl).1 1 ⟨0, .data, 1, 0x04, [5]⟩ (by decide +kernel)).2

example : (payloadTo (lossNetwork []).log 0).map
    (fun frame => (frame.type, frame.psn)) =
      [(.data, 0), (.data, 1), (.dataSingle, 0), (.dataSingle, 1)] := by
  decide +kernel

end IncEmulation.Switch
