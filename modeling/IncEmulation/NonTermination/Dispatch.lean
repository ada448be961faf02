import IncEmulation.NonTermination.Pipeline

/-!
# The event loop of the non-termination switch (`epoll_process_packets`)

One `metadata_t` serves all packets of an event and starts uninitialised.  The
`switch` of `pipeline` leaves its type alone for an opcode without a case, so
such a packet is handled as the packet before it.
-/

namespace IncEmulation.NonTermination

/-- A ready port with what the stack holds in `meta` and the packets that
`pcap_next_ex` delivers.  A stack value that is no enumerator of the type takes
no branch of `pipeline` and is left out. -/
structure Event where
  ingressPort : Nat
  uninitialised : Metadata
  packets : List Packet

/-- `meta.ingress_port = events[i].data.u32`. -/
def Event.metadata (event : Event) : Metadata :=
  { event.uninitialised with ingressPort := event.ingressPort }

/-- The arguments of one call of `pipeline` and the tables it finds. -/
structure Call where
  tables : Tables
  metadata : Metadata
  packet : Packet

/-- The calls of `pipeline`, the frames sent, and the tables left unless an
`assert` has stopped the program. -/
structure Outcome where
  calls : List Call
  frames : List Emission
  tables : Option Tables

/-- The opcodes that have a case in the `switch`. -/
def handledOpcodes : List Opcode :=
  dataOpcodes ++ writeOpcodes ++ [rdmaOpcodeAck]

section Loops

variable (fanIn : Nat) (root : Bool)

/-- The inner `while` of `epoll_process_packets`. -/
def processPackets (tables : Tables) (data : Metadata) :
    List Packet → Outcome
  | [] => ⟨[], [], some tables⟩
  | packet :: packets =>
      match pipeline fanIn root tables data packet with
      | none => ⟨[⟨tables, data, packet⟩], [], none⟩
      | some (next, data', frames) =>
          let rest := processPackets next data' packets
          ⟨⟨tables, data, packet⟩ :: rest.calls, frames ++ rest.frames,
            rest.tables⟩

/-- `epoll_process_packets` over the events in their order. -/
def epollProcessPackets (tables : Tables) : List Event → Outcome
  | [] => ⟨[], [], some tables⟩
  | event :: events =>
      let first :=
        processPackets fanIn root tables event.metadata event.packets
      match first.tables with
      | none => first
      | some next =>
          let rest := epollProcessPackets next events
          ⟨first.calls ++ rest.calls, first.frames ++ rest.frames, rest.tables⟩

/-- What the packet does to the tables and which frames it causes. -/
def Call.effect (call : Call) : Option (Tables × List Emission) :=
  (pipeline fanIn root call.tables call.metadata call.packet).map
    fun outcome => (outcome.1, outcome.2.2)

/-- The call acts by the tables, the port and the packet alone, and not at all
for an opcode without a case. -/
structure Call.Alone (call : Call) : Prop where
  ignored : call.packet.opcode ∉ handledOpcodes →
    call.effect fanIn root = some (call.tables, [])
  own : ∀ metadata : Metadata,
    metadata.ingressPort = call.metadata.ingressPort →
      ({ call with metadata := metadata } : Call).effect fanIn root =
        call.effect fanIn root

/-- Same ports and packets, on whatever stack. -/
def SameTraffic (left right : List Event) : Prop :=
  left.map (fun event => (event.ingressPort, event.packets)) =
    right.map fun event => (event.ingressPort, event.packets)

/-- Every call is alone, so the frames sent and the tables left are the same on
every stack. -/
structure Independent (tables : Tables) (events : List Event) : Prop where
  alone : ∀ call ∈ (epollProcessPackets fanIn root tables events).calls,
    call.Alone fanIn root
  stack : ∀ others, SameTraffic events others →
    (epollProcessPackets fanIn root tables others).frames =
        (epollProcessPackets fanIn root tables events).frames ∧
      (epollProcessPackets fanIn root tables others).tables =
        (epollProcessPackets fanIn root tables events).tables

end Loops

variable {fanIn port : Nat} {root : Bool} {tables : Tables} {packet : Packet}
  {data : Metadata} {opcode : Opcode} {previous : MetaType}

theorem classify_of_handled (handled : opcode ∈ handledOpcodes)
    (other : MetaType) :
    classify fanIn port opcode other = classify fanIn port opcode previous := by
  unfold classify
  by_cases plain : opcode ∈ dataOpcodes
  · rw [if_pos plain, if_pos plain]
  · by_cases write : opcode ∈ writeOpcodes
    · rw [if_neg plain, if_neg plain, if_pos write, if_pos write]
    · have ack : opcode = rdmaOpcodeAck := by
        simpa [handledOpcodes, plain, write] using handled
      rw [if_neg plain, if_neg plain, if_neg write, if_neg write, if_pos ack,
        if_pos ack]

theorem classify_of_not_handled (unlisted : opcode ∉ handledOpcodes) :
    classify fanIn port opcode previous = previous := by
  simp only [handledOpcodes, List.mem_append, List.mem_singleton,
    not_or] at unlisted
  unfold classify
  rw [if_neg unlisted.1.1, if_neg unlisted.1.2, if_neg unlisted.2]

theorem pipeline_of_handled (handled : packet.opcode ∈ handledOpcodes)
    {other : Metadata} (port : other.ingressPort = data.ingressPort) :
    pipeline fanIn root tables other packet =
      pipeline fanIn root tables data packet := by
  simp only [pipeline]
  rw [port, classify_of_handled handled other.type]

theorem Call.alone_of_handled {call : Call}
    (handled : call.packet.opcode ∈ handledOpcodes) :
    call.Alone fanIn root where
  ignored := fun unlisted => absurd handled unlisted
  own := by
    intro metadata port
    unfold Call.effect
    rw [pipeline_of_handled handled port]

/-- Behind a child's ACK the packet is acknowledged, behind the parent's it is
not. -/
theorem Call.Alone.handled {call : Call} (alone : call.Alone fanIn root) :
    call.packet.opcode ∈ handledOpcodes := by
  by_contra unlisted
  have afterAck := alone.own { call.metadata with type := .upAck } rfl
  rw [alone.ignored unlisted] at afterAck
  simp [Call.effect, pipeline, classify_of_not_handled unlisted] at afterAck

/-- Only the first packet of an event meets the uninitialised record. -/
theorem processPackets_of_handled {packets : List Packet} {other : Metadata}
    (port : other.ingressPort = data.ingressPort)
    (handled : ∀ call ∈ (processPackets fanIn root tables data packets).calls,
      call.packet.opcode ∈ handledOpcodes) :
    (processPackets fanIn root tables other packets).frames =
        (processPackets fanIn root tables data packets).frames ∧
      (processPackets fanIn root tables other packets).tables =
        (processPackets fanIn root tables data packets).tables := by
  cases packets with
  | nil => exact ⟨rfl, rfl⟩
  | cons packet packets =>
      have first : packet.opcode ∈ handledOpcodes := by
        refine handled ⟨tables, data, packet⟩ ?_
        simp only [processPackets]
        split <;> exact List.mem_cons_self
      simp only [processPackets, pipeline_of_handled first port]
      split <;> exact ⟨rfl, rfl⟩

theorem epollProcessPackets_of_handled {events others : List Event}
    (same : SameTraffic events others)
    (handled : ∀ call ∈ (epollProcessPackets fanIn root tables events).calls,
      call.packet.opcode ∈ handledOpcodes) :
    (epollProcessPackets fanIn root tables others).frames =
        (epollProcessPackets fanIn root tables events).frames ∧
      (epollProcessPackets fanIn root tables others).tables =
        (epollProcessPackets fanIn root tables events).tables := by
  induction events generalizing others tables with
  | nil =>
      cases others with
      | nil => exact ⟨rfl, rfl⟩
      | cons other others => cases same
  | cons event events induction =>
      cases others with
      | nil => cases same
      | cons other others =>
          simp only [SameTraffic, List.map_cons, List.cons.injEq,
            Prod.mk.injEq] at same
          obtain ⟨⟨port, packets⟩, later⟩ := same
          have firstHandled : ∀ call ∈ (processPackets fanIn root tables
              event.metadata event.packets).calls,
              call.packet.opcode ∈ handledOpcodes := by
            intro call member
            refine handled call ?_
            simp only [epollProcessPackets]
            split
            · exact member
            · exact List.mem_append_left _ member
          obtain ⟨frames, left⟩ := processPackets_of_handled
            (show other.metadata.ingressPort = event.metadata.ingressPort from
              port.symm) firstHandled
          simp only [epollProcessPackets] at handled ⊢
          rw [← packets, left]
          split at handled
          · exact ⟨frames, left⟩
          · have rest := induction later fun call member =>
              handled call (List.mem_append_right _ member)
            exact ⟨congrArg₂ _ frames rest.1, rest.2⟩

/-- The packets act by themselves exactly when all opcodes that come up have a
case. -/
theorem epollProcessPackets_independent_iff (fanIn : Nat) (root : Bool)
    (tables : Tables) (events : List Event) :
    Independent fanIn root tables events ↔
      ∀ call ∈ (epollProcessPackets fanIn root tables events).calls,
        call.packet.opcode ∈ handledOpcodes := by
  constructor
  · intro independent call member
    exact (independent.alone call member).handled
  · intro handled
    refine ⟨?_, ?_⟩
    · exact fun call member => Call.alone_of_handled (handled call member)
    · exact fun others same => epollProcessPackets_of_handled same handled

/-- A child's ACK and the control message that the same child sends behind
it. -/
def ackThenControl : List Event :=
  [{ ingressPort := 0
     uninitialised := ⟨0, .upData, 0, 0⟩
     packets :=
      [⟨0, 0, 28, rdmaOpcodeAck, 0, [0]⟩,
        ⟨0, 0, 32, rdmaOpcodeSendOnlyWithImm, 0, [0, 0]⟩] }]

/-- The control message is answered by an ACK. -/
theorem not_independent_ackThenControl :
    ¬Independent 2 true Tables.init ackThenControl := by
  intro independent
  have ignored := (independent.alone
    ⟨Tables.init, ⟨0, .upAck, rdmaOpcodeAck, 0⟩,
      ⟨0, 0, 32, rdmaOpcodeSendOnlyWithImm, 0, [0, 0]⟩⟩
    (.tail _ (.head _))).ignored (by decide)
  have acknowledged := congrArg (Option.map Prod.snd) ignored
  revert acknowledged
  decide

end IncEmulation.NonTermination
