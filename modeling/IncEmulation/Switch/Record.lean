import IncEmulation.Switch.FirstTurn

/-!
# The record of a connection

What a peer has been sent under a PSN, what it has acknowledged, and when the
retransmissions of a record repeat their originals.
-/

namespace IncEmulation.Switch

/-- The frame carries payload and is no reply. -/
def Frame.Payload (frame : Frame) : Prop :=
  frame.type = .data ∨ frame.type = .dataSingle

instance (frame : Frame) : Decidable frame.Payload :=
  inferInstanceAs (Decidable (_ ∨ _))

/-- The frame of an entry that carries payload to the peer under the PSN. -/
def Entry.carried (conn : Nat) (psn : Int) : Entry → Option Frame
  | .sent frame =>
      if frame.conn = conn ∧ frame.psn = psn ∧ frame.Payload then some frame
      else none
  | .received _ _ => none

/-- The frame first sent to the peer under the PSN. -/
def firstSent (log : List Entry) (conn : Nat) (psn : Int) : Option Frame :=
  log.findSome? (Entry.carried conn psn)

/-- The peer has acknowledged the PSN. -/
def AcknowledgedBy (log : List Entry) (conn : Nat) (psn : Int) : Prop :=
  ∃ packet, Entry.received conn packet ∈ log ∧ packet.opcode = 0x11 ∧
    psn ≤ packet.acknowledges

/-- The peer has first been sent this payload with this opcode. -/
def SentFirst (log : List Entry) (conn : Nat) (psn : Int)
    (packetType : UInt8) (data : List UInt32) : Prop :=
  ∃ first, firstSent log conn psn = some first ∧
    first.packetType = packetType ∧ first.data = data

/-- The frame repeats the original for a peer that has not acknowledged it. -/
structure RepeatsOriginal (log : List Entry) (frame : Frame) : Prop where
  original : SentFirst log frame.conn frame.psn frame.packetType frame.data
  unacknowledged : ¬AcknowledgedBy log frame.conn frame.psn

/-- Every frame that `retransmit` has sent repeats its original. -/
def Faithful (log : List Entry) : Prop :=
  ∀ before frame after, log = before ++ .sent frame :: after →
    frame.type = .dataSingle → RepeatsOriginal before frame

section Log

variable {log rest : List Entry} {conn other : Nat} {psn psn' : Int}
  {packetType : UInt8} {data : List UInt32} {frame : Frame}
  {frames : List Frame} {packet : Packet}

theorem firstSent_append :
    firstSent (log ++ rest) conn psn =
      (firstSent log conn psn).or (firstSent rest conn psn) :=
  List.findSome?_append

theorem SentFirst.append
    (sent : SentFirst log conn psn packetType data) (rest : List Entry) :
    SentFirst (log ++ rest) conn psn packetType data := by
  obtain ⟨first, found, same⟩ := sent
  exact ⟨first, by rw [firstSent_append, found, Option.some_or], same⟩

theorem firstSent_received :
    firstSent (.received other packet :: rest) conn psn =
      firstSent rest conn psn := rfl

theorem firstSent_sent_eq_none
    (none : ∀ frame ∈ frames, frame.conn = conn → frame.psn = psn →
      ¬frame.Payload) :
    firstSent (frames.map Entry.sent) conn psn = Option.none := by
  unfold firstSent
  rw [List.findSome?_eq_none_iff]
  intro entry member
  obtain ⟨frame, isFrame, rfl⟩ := List.mem_map.mp member
  refine if_neg ?_
  rintro ⟨sameConn, samePsn, payload⟩
  exact none frame isFrame sameConn samePsn payload

theorem not_payload_of_reply (reply : frame.type = .ack ∨ frame.type = .nak) :
    ¬frame.Payload := by
  unfold Frame.Payload
  rcases reply with ack | nak
  · simp [ack]
  · simp [nak]

theorem not_payload_of_mem_ack {rule : Rule}
    (member : frame ∈ forwarding rule psn .ack data packetType) :
    ¬frame.Payload := by
  rw [List.mem_singleton.mp member]
  exact not_payload_of_reply (Or.inl rfl)

theorem firstSent_eq_some (found : firstSent log conn psn = some frame) :
    .sent frame ∈ log ∧ frame.conn = conn ∧ frame.psn = psn ∧
      frame.Payload := by
  obtain ⟨entry, member, carried⟩ := List.exists_of_findSome?_eq_some found
  cases entry with
  | received => cases carried
  | sent other =>
      simp only [Entry.carried] at carried
      split at carried
      · rename_i carries
        obtain rfl := Option.some.inj carried
        exact ⟨member, carries⟩
      · cases carried

theorem exists_frame_of_firstSent
    (sent : firstSent (.received other packet :: frames.map Entry.sent)
      conn psn ≠ none) :
    ∃ frame ∈ frames, frame.conn = conn ∧ frame.psn = psn ∧
      frame.Payload := by
  obtain ⟨first, found⟩ := Option.ne_none_iff_exists'.mp sent
  obtain ⟨isEntry, carries⟩ := firstSent_eq_some
    (firstSent_received.symm.trans found)
  obtain ⟨frame, isFrame, same⟩ := List.mem_map.mp isEntry
  obtain rfl := Entry.sent.inj same
  exact ⟨frame, isFrame, carries⟩

/-- The frames of one event that carry payload to a peer are alike. -/
theorem sentFirst_of_mem (member : frame ∈ frames) (payload : frame.Payload)
    (alike : ∀ other ∈ frames, other.conn = frame.conn →
      other.psn = frame.psn → other.Payload →
        other.packetType = packetType ∧ other.data = data) :
    SentFirst (frames.map Entry.sent) frame.conn frame.psn packetType
      data := by
  cases found :
      firstSent (frames.map Entry.sent) frame.conn frame.psn with
  | none =>
      unfold firstSent at found
      rw [List.findSome?_eq_none_iff] at found
      have none := found (.sent frame) (List.mem_map_of_mem member)
      simp [Entry.carried, payload] at none
  | some first =>
      obtain ⟨isEntry, sameConn, samePsn, payload'⟩ := firstSent_eq_some found
      obtain ⟨other, isFrame, same⟩ := List.mem_map.mp isEntry
      obtain rfl := Entry.sent.inj same
      exact ⟨other, found, alike other isFrame sameConn samePsn payload'⟩

theorem SentFirst.of_none (none : firstSent log conn psn = none)
    (sent : SentFirst rest conn psn packetType data) :
    SentFirst (log ++ rest) conn psn packetType data := by
  obtain ⟨first, found, same⟩ := sent
  exact ⟨first, by rw [firstSent_append, none, Option.none_or, found], same⟩

theorem SentFirst.ne_none
    (sent : SentFirst log conn psn packetType data) :
    firstSent log conn psn ≠ none := by
  obtain ⟨first, found, -⟩ := sent
  rw [found]
  exact Option.some_ne_none first

theorem SentFirst.received
    (sent : SentFirst rest conn psn packetType data) :
    SentFirst (.received other packet :: rest) conn psn packetType data :=
  sent

theorem firstSent_append_sent_of_none
    (none : ∀ frame ∈ frames, frame.conn = conn → frame.psn = psn →
      ¬frame.Payload) :
    firstSent (log ++ frames.map Entry.sent) conn psn =
      firstSent log conn psn := by
  rw [firstSent_append, firstSent_sent_eq_none none, Option.or_none]

theorem firstSent_handled_of_none
    (none : ∀ frame ∈ frames, frame.conn = conn → frame.psn = psn →
      ¬frame.Payload) :
    firstSent (log ++ .received other packet :: frames.map Entry.sent)
      conn psn = firstSent log conn psn := by
  rw [firstSent_append, firstSent_received, firstSent_sent_eq_none none,
    Option.or_none]

theorem acknowledgedBy_append_sent :
    AcknowledgedBy (log ++ frames.map Entry.sent) conn psn ↔
      AcknowledgedBy log conn psn := by
  unfold AcknowledgedBy
  simp

theorem acknowledgedBy_handled :
    AcknowledgedBy (log ++ .received other packet :: frames.map Entry.sent)
      conn psn ↔
      AcknowledgedBy log conn psn ∨
        (conn = other ∧ packet.opcode = 0x11 ∧ psn ≤ packet.acknowledges) := by
  unfold AcknowledgedBy
  constructor
  · rintro ⟨packet', member, rest⟩
    rcases List.mem_append.mp member with old | new
    · exact Or.inl ⟨packet', old, rest⟩
    · simp only [List.mem_cons, Entry.received.injEq, List.mem_map,
        reduceCtorEq, and_false, exists_false, or_false] at new
      obtain ⟨rfl, rfl⟩ := new
      exact Or.inr ⟨rfl, rest⟩
  · rintro (⟨packet', member, rest⟩ | ⟨rfl, rest⟩)
    · exact ⟨packet', List.mem_append_left _ member, rest⟩
    · exact ⟨packet, by simp, rest⟩

theorem acknowledgedBy_received :
    AcknowledgedBy (log ++ [.received other packet]) conn psn ↔
      AcknowledgedBy log conn psn ∨
        (conn = other ∧ packet.opcode = 0x11 ∧ psn ≤ packet.acknowledges) :=
  @acknowledgedBy_handled log conn other psn [] packet

theorem RepeatsOriginal.append_sent (repeats : RepeatsOriginal log frame) :
    RepeatsOriginal (log ++ frames.map Entry.sent) frame :=
  ⟨repeats.original.append _, fun acknowledged =>
    repeats.unacknowledged (acknowledgedBy_append_sent.mp acknowledged)⟩

theorem faithful_nil : Faithful [] := by
  intro before frame after same
  simp at same

theorem Faithful.of_append (faithful : Faithful (log ++ rest)) :
    Faithful log := by
  rintro before frame after rfl
  exact faithful before frame (after ++ rest) (by simp)

theorem Faithful.concat {entry : Entry} (faithful : Faithful log)
    (repeats : ∀ frame, entry = .sent frame → frame.type = .dataSingle →
      RepeatsOriginal log frame) : Faithful (log ++ [entry]) := by
  intro before frame after same kind
  rcases List.eq_nil_or_concat after with rfl | ⟨init, last, rfl⟩
  · obtain ⟨rfl, isLast⟩ := List.append_inj' same rfl
    exact repeats frame (List.cons.inj isLast).1 kind
  · rw [List.concat_eq_append, ← List.cons_append, ← List.append_assoc] at same
    exact faithful before frame init (List.append_inj' same rfl).1 kind

theorem Faithful.append_sent (faithful : Faithful log)
    (repeats : ∀ frame ∈ frames, frame.type = .dataSingle →
      RepeatsOriginal log frame) :
    Faithful (log ++ frames.map Entry.sent) := by
  induction frames using List.reverseRecOn with
  | nil => simpa using faithful
  | append_singleton frames last induction =>
      rw [List.map_append, ← List.append_assoc]
      refine (induction fun frame member =>
        repeats frame (List.mem_append_left _ member)).concat ?_
      intro frame same kind
      obtain rfl := Entry.sent.inj same
      exact (repeats last (by simp) kind).append_sent

theorem Faithful.handled (faithful : Faithful log)
    (repeats : ∀ frame ∈ frames, frame.type = .dataSingle →
      RepeatsOriginal (log ++ [.received other packet]) frame) :
    Faithful (log ++ .received other packet :: frames.map Entry.sent) := by
  rw [List.append_cons]
  refine (faithful.concat ?_).append_sent repeats
  intro frame same
  cases same

end Log

end IncEmulation.Switch
