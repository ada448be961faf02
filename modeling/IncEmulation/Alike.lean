import IncEmulation.Aggregation
import IncEmulation.ControllerComm

/-!
# Contexts the packet handler cannot tell apart

Two contexts are alike when they agree on everything the handler reads.  It
never reads the packet type, the length and the metadata kept in a slot, nor
what the broadcast buffer holds, nor the PSN of the last control message.  Alike
contexts answer every packet with the same frames and stay alike; parsing a
configuration keeps them alike as well.
-/

namespace IncEmulation

open Machine

structure PsnState.Alike (left right : PsnState) : Prop where
  degree : left.degree = right.degree
  arrival : left.arrival = right.arrival
  buffer : left.aggBuffer.buffer = right.aggBuffer.buffer
  state : left.aggBuffer.state = right.aggBuffer.state
  psn : left.aggBuffer.psn = right.aggBuffer.psn
  rDegree : left.rDegree = right.rDegree
  rArrival : left.rArrival = right.rArrival

structure SwitchContext.Alike (left right : SwitchContext) : Prop where
  psnStates : ∀ slot < switchArrayLength,
    (left.psnStates slot).Alike (right.psnStates slot)
  conns : left.conns = right.conns
  fanIn : left.fanIn = right.fanIn
  isRoot : left.isRoot = right.isRoot
  aggEpsn : left.aggEpsn = right.aggEpsn
  downEpsn : left.downEpsn = right.downEpsn
  latestAck : left.latestAck = right.latestAck
  downAck : left.downAck = right.downAck
  sendPsn : left.sendPsn = right.sendPsn
  routingTable : left.routingTable = right.routingTable
  rankToConn : left.rankToConn = right.rankToConn
  operationType : left.operationType = right.operationType
  rootRank : left.rootRank = right.rootRank

/-- Two results of the handler: alike contexts and the same frames. -/
def AlikeResults (left right : SwitchContext × List Frame) : Prop :=
  left.1.Alike right.1 ∧ left.2 = right.2

theorem idx_lt (psn : Nat) : idx psn < switchArrayLength :=
  Nat.mod_lt psn (by decide)

namespace SwitchContext.Alike

variable {left right : SwitchContext}

theorem setPsnState (alike : left.Alike right) (slot : Nat)
    {leftState rightState : PsnState} (states : leftState.Alike rightState) :
    (left.setPsnState slot leftState).Alike
      (right.setPsnState slot rightState) where
  psnStates := by
    intro other bound
    by_cases same : other = slot
    · subst same
      simpa using states
    · simpa [Function.update_of_ne same] using alike.psnStates other bound
  conns := alike.conns
  fanIn := alike.fanIn
  isRoot := alike.isRoot
  aggEpsn := alike.aggEpsn
  downEpsn := alike.downEpsn
  latestAck := alike.latestAck
  downAck := alike.downAck
  sendPsn := alike.sendPsn
  routingTable := alike.routingTable
  rankToConn := alike.rankToConn
  operationType := alike.operationType
  rootRank := alike.rootRank

theorem bumpSendPsn (alike : left.Alike right) (conn : Nat) :
    (left.bumpSendPsn conn).Alike (right.bumpSendPsn conn) :=
  { alike with
    sendPsn := by simp only [bumpSendPsn_sendPsn, alike.sendPsn] }

theorem bumpAggEpsn (alike : left.Alike right) (conn : Nat) :
    (left.bumpAggEpsn conn).Alike (right.bumpAggEpsn conn) :=
  { alike with
    aggEpsn := by simp only [bumpAggEpsn_aggEpsn, alike.aggEpsn] }

theorem clearSlot (alike : left.Alike right) (psn : Nat) :
    (left.clearSlot (idx psn)).Alike (right.clearSlot (idx psn)) := by
  have states := alike.psnStates (idx psn) (idx_lt psn)
  exact alike.setPsnState (idx psn)
    ⟨rfl, rfl, states.buffer, rfl, states.psn, states.rDegree,
      states.rArrival⟩

theorem sendPacket_congr {leftData rightData : Nat → Word} {len : Int}
    (same : ∀ index : Nat, (index : Int) < len →
      leftData index = rightData index)
    (conn : Nat) (type : PacketType) (psn : Nat) (opcode : Opcode) :
    sendPacket conn type leftData len psn opcode =
      sendPacket conn type rightData len psn opcode := by
  simp only [sendPacket, Frame.mk.injEq, true_and, and_true]
  apply List.map_congr_left
  intro index member
  have bound := List.mem_range.mp member
  exact same index (by omega)

theorem sendToEach (alike : left.Alike right) {leftData rightData : Nat → Word}
    {len : Int} (same : ∀ index : Nat, (index : Int) < len →
      leftData index = rightData index)
    (opcode : Opcode) (conns : List Nat) :
    AlikeResults (IncEmulation.sendToEach left leftData len opcode conns)
      (IncEmulation.sendToEach right rightData len opcode conns) := by
  induction conns generalizing left right with
  | nil => exact ⟨alike, rfl⟩
  | cons conn conns induction =>
      obtain ⟨sentAlike, sentFrames⟩ := induction (alike.bumpSendPsn conn)
      obtain ⟨skippedAlike, skippedFrames⟩ := induction alike
      simp only [IncEmulation.sendToEach, alike.fanIn]
      split_ifs
      · refine ⟨sentAlike, ?_⟩
        simp only [sentFrames, alike.sendPsn, sendPacket_congr same]
      · exact ⟨skippedAlike, skippedFrames⟩

theorem cacheDownstream (alike : left.Alike right) (psn : Nat)
    {leftData rightData : Nat → Word} (len : Int) (opcode : Opcode) :
    (left.cacheDownstream psn leftData len opcode).Alike
      (right.cacheDownstream psn rightData len opcode) := by
  have states := alike.psnStates (idx psn) (idx_lt psn)
  have cached : ((left.cacheDownstream psn leftData len opcode).psnStates
      (idx psn)).Alike
        ((right.cacheDownstream psn rightData len opcode).psnStates
          (idx psn)) := by
    simp only [SwitchContext.cacheDownstream, setPsnState_psnStates,
      Function.update_self]
    exact ⟨states.degree, states.arrival, states.buffer, states.state,
      states.psn, states.rDegree, states.rArrival⟩
  have stored := alike.setPsnState (idx psn) cached
  simp only [SwitchContext.cacheDownstream, setPsnState_psnStates,
    Function.update_self] at stored
  exact { stored with downEpsn := congrArg (· + 1) alike.downEpsn }

theorem cacheAndBroadcast (alike : left.Alike right) (rule : Rule) (psn : Nat)
    {leftData rightData : Nat → Word} {len : Int}
    (same : ∀ index : Nat, (index : Int) < len →
      leftData index = rightData index) (opcode : Opcode) :
    AlikeResults
      (IncEmulation.cacheAndBroadcast left rule psn leftData len opcode)
      (IncEmulation.cacheAndBroadcast right rule psn rightData len opcode) := by
  apply (alike.cacheDownstream psn len opcode).sendToEach
  intro index bound
  simp [SwitchContext.cacheDownstream, copyWords, bound, same index bound]

theorem sendToRoot (alike : left.Alike right) (rootRank : Int)
    {leftData rightData : Nat → Word} {len : Int}
    (same : ∀ index : Nat, (index : Int) < len →
      leftData index = rightData index) (opcode : Opcode) :
    AlikeResults (IncEmulation.sendToRoot left rootRank leftData len opcode)
      (IncEmulation.sendToRoot right rootRank rightData len opcode) := by
  simp only [IncEmulation.sendToRoot, alike.rankToConn, alike.fanIn]
  split_ifs
  · exact ⟨alike.bumpSendPsn _, by
      simp only [alike.sendPsn, sendPacket_congr same]⟩
  · exact ⟨alike, rfl⟩

theorem forwarding_congr (rule : Rule) (psn : Nat) (type : PacketType)
    {leftData rightData : Nat → Word} {len : Int}
    (same : ∀ index : Nat, (index : Int) < len →
      leftData index = rightData index) (opcode : Opcode) :
    forwarding rule psn type leftData len opcode =
      forwarding rule psn type rightData len opcode := by
  simp only [forwarding, sendPacket_congr same]

theorem completeAggregation (alike : left.Alike right) (rule : Rule)
    (opType : PrimitiveType) (rootRank : Int) (psn : Nat)
    {leftData rightData : Nat → Word} {len : Int}
    (same : ∀ index : Nat, (index : Int) < len →
      leftData index = rightData index) (opcode : Opcode) :
    AlikeResults
      (IncEmulation.completeAggregation left rule opType rootRank psn leftData
        len opcode)
      (IncEmulation.completeAggregation right rule opType rootRank psn
        rightData len opcode) := by
  simp only [IncEmulation.completeAggregation, alike.isRoot]
  split_ifs
  · cases opType with
    | allreduce =>
        obtain ⟨sent, frames⟩ :=
          alike.cacheAndBroadcast rule psn same opcode
        exact ⟨sent.clearSlot psn, frames⟩
    | reduce =>
        obtain ⟨sent, frames⟩ := alike.sendToRoot rootRank same opcode
        exact ⟨sent.clearSlot psn, frames⟩
    | null => exact ⟨alike, rfl⟩
    | broadcast => exact ⟨alike, rfl⟩
    | other value => exact ⟨alike, rfl⟩
  · exact ⟨alike, forwarding_congr rule psn .data same _⟩

end SwitchContext.Alike

theorem PsnState.Alike.accumulate {left right : PsnState}
    (states : left.Alike right) (opType : PrimitiveType) (rootRank : Int)
    (conn psn : Nat) (data : Nat → Word) (len : Int) (opcode : Opcode) :
    (left.accumulate opType rootRank conn psn data len opcode).Alike
      (right.accumulate opType rootRank conn psn data len opcode) := by
  refine ⟨?_, ?_, ?_, rfl, rfl, states.rDegree, states.rArrival⟩
  · simp only [PsnState.accumulate, states.degree]
  · simp only [PsnState.accumulate, states.arrival]
  · simp only [PsnState.accumulate, states.degree, states.buffer]
    split_ifs <;> rfl

namespace SwitchContext.Alike

variable {left right : SwitchContext}

theorem aggregate (alike : left.Alike right) (rule : Rule) (conn psn : Nat)
    (data : Nat → Word) (len : Int) (opcode : Opcode) :
    AlikeResults
      (IncEmulation.aggregate left rule conn psn data len opcode)
      (IncEmulation.aggregate right rule conn psn data len opcode) := by
  have states := (alike.psnStates (idx psn) (idx_lt psn)).accumulate
    right.operationType right.rootRank conn psn data len opcode
  simp only [IncEmulation.aggregate, handleBroadcast, alike.operationType,
    alike.rootRank, alike.fanIn, states.degree]
  split_ifs
  · exact alike.sendToEach (fun _ _ => rfl) _ _
  · apply (alike.setPsnState (idx psn) states).completeAggregation
    intro index _
    rw [states.buffer]
  · exact ⟨alike.setPsnState (idx psn) states, rfl⟩

theorem releaseSlot (alike : left.Alike right) (psn : Nat) :
    (IncEmulation.releaseSlot left psn).Alike
      (IncEmulation.releaseSlot right psn) := by
  have states := alike.psnStates (idx psn) (idx_lt psn)
  simp only [IncEmulation.releaseSlot, states.state, states.psn]
  split_ifs
  · exact alike.clearSlot psn
  · exact alike

theorem handleDownstreamAck (alike : left.Alike right) (psn : Nat)
    (isNak : Bool) :
    (IncEmulation.handleDownstreamAck left psn isNak).Alike
      (IncEmulation.handleDownstreamAck right psn isNak) := by
  have released : ∀ (psns : List Nat) {left right : SwitchContext},
      left.Alike right →
        (psns.foldl IncEmulation.releaseSlot left).Alike
          (psns.foldl IncEmulation.releaseSlot right) := by
    intro psns
    induction psns with
    | nil => exact fun alike => alike
    | cons psn psns induction =>
        exact fun alike => induction (alike.releaseSlot psn)
  simp only [IncEmulation.handleDownstreamAck, alike.downAck]
  split_ifs
  · exact alike
  · exact { released _ alike with downAck := rfl }
  · exact alike

theorem handleUpstreamAck (alike : left.Alike right) (conn psn : Nat)
    (isNak : Bool) :
    (IncEmulation.handleUpstreamAck left conn psn isNak).Alike
      (IncEmulation.handleUpstreamAck right conn psn isNak) := by
  have states := alike.psnStates (idx psn) (idx_lt psn)
  have acknowledged :
      ((left.psnStates (idx psn)).acknowledge conn right.fanIn).Alike
        ((right.psnStates (idx psn)).acknowledge conn right.fanIn) := by
    simp only [PsnState.acknowledge, states.rArrival, states.rDegree]
    split_ifs
    · exact states
    · exact { states with rDegree := rfl, rArrival := rfl }
    · exact { states with rDegree := rfl, rArrival := rfl }
  simp only [IncEmulation.handleUpstreamAck, alike.latestAck, alike.fanIn]
  split_ifs
  · exact alike
  · exact { alike.setPsnState (idx psn) acknowledged with latestAck := rfl }
  · exact alike

theorem handleByRule (alike : left.Alike right) (rule : Rule) (conn : Nat)
    (packet : Packet) :
    AlikeResults (IncEmulation.handleByRule left rule conn packet)
      (IncEmulation.handleByRule right rule conn packet) := by
  simp only [IncEmulation.handleByRule, handleDownstreamData,
    handleUpstreamData, alike.downEpsn, alike.aggEpsn]
  split_ifs
  · exact ⟨alike, rfl⟩
  · exact ⟨alike, rfl⟩
  · obtain ⟨sent, frames⟩ := alike.cacheAndBroadcast rule packet.psn
      (fun _ _ => rfl)
      packet.opcode
    exact ⟨sent, by simp only [frames]⟩
  · exact ⟨alike, rfl⟩
  · exact ⟨alike, rfl⟩
  · obtain ⟨sent, frames⟩ := (alike.bumpAggEpsn conn).aggregate rule conn
      packet.psn packet.data packet.dataLen packet.opcode
    exact ⟨sent, by simp only [frames]⟩
  · exact ⟨alike.handleDownstreamAck _ _, rfl⟩
  · exact ⟨alike.handleUpstreamAck _ _ _, rfl⟩
  · exact ⟨alike, rfl⟩

theorem storeMetadata (alike : left.Alike right) (packet : Packet) :
    (left.storeMetadata packet).Alike (right.storeMetadata packet) := by
  simp only [SwitchContext.storeMetadata]
  split_ifs
  · exact { alike with operationType := rfl, rootRank := rfl }
  · exact { alike with operationType := rfl, rootRank := rfl }
  · exact alike

/-- One packet: the same frames, and the contexts stay alike. -/
theorem packetHandler (alike : left.Alike right) (conn : Nat)
    (packet : Packet) :
    AlikeResults (IncEmulation.packetHandler left conn packet)
      (IncEmulation.packetHandler right conn packet) := by
  have stored := alike.storeMetadata packet
  have key : left.lookupKey packet = right.lookupKey packet := by
    simp only [lookupKey, alike.operationType, alike.rootRank]
  simp only [IncEmulation.packetHandler, key, stored.routingTable]
  split
  · exact ⟨stored, rfl⟩
  · split_ifs
    · exact ⟨stored.bumpAggEpsn conn, rfl⟩
    · exact stored.handleByRule _ conn packet

/-- Whole runs: alike contexts cannot be told apart. -/
theorem sameFrames (alike : left.Alike right)
    (arrivals : List (Nat × Packet)) :
    (feed deliver left arrivals).2 = (feed deliver right arrivals).2 :=
  @feed_outputs_eq_of_bisimulation _ _ _ deliver (fun _ => True)
    SwitchContext.Alike
    (fun _ _ arrival alike _ => alike.packetHandler arrival.1 arrival.2)
    left right alike arrivals (fun _ _ => trivial)

end SwitchContext.Alike

section Parsing

variable {reader : YamlReader} {left right : SwitchContext}

theorem parseConnectionNodes_alike (alike : left.Alike right) (index : Nat)
    (nodes : List YamlNode) :
    (reader.parseConnectionNodes left index nodes).1.Alike
        (reader.parseConnectionNodes right index nodes).1 ∧
      (reader.parseConnectionNodes left index nodes).2 =
        (reader.parseConnectionNodes right index nodes).2 := by
  induction nodes generalizing left right index with
  | nil => exact ⟨{ alike with fanIn := rfl }, rfl⟩
  | cons node nodes induction =>
      simp only [YamlReader.parseConnectionNodes]
      split_ifs
      · exact ⟨{ alike with fanIn := rfl }, rfl⟩
      · exact ⟨alike, rfl⟩
      · apply induction
        exact { alike with
          conns := by simp only [alike.conns]
          rankToConn := by simp only [alike.rankToConn] }

theorem parseRuleNodes_alike (alike : left.Alike right)
    (nodes : List YamlNode) :
    (reader.parseRuleNodes left nodes).1.Alike
        (reader.parseRuleNodes right nodes).1 ∧
      (reader.parseRuleNodes left nodes).2 =
        (reader.parseRuleNodes right nodes).2 := by
  induction nodes generalizing left right with
  | nil => exact ⟨alike, rfl⟩
  | cons node nodes induction =>
      simp only [YamlReader.parseRuleNodes, alike.routingTable]
      split_ifs
      · exact ⟨alike, rfl⟩
      · exact ⟨alike, rfl⟩
      · exact induction { alike with routingTable := rfl }

/-- The part of the parser behind the reset. -/
theorem parseConnections_parseRules_alike (alike : left.Alike right)
    (connections rules : Option YamlNode) :
    (if (reader.parseConnections left connections).2 then
        reader.parseRules (reader.parseConnections left connections).1 rules
      else reader.parseConnections left connections).1.Alike
      (if (reader.parseConnections right connections).2 then
        reader.parseRules (reader.parseConnections right connections).1 rules
      else reader.parseConnections right connections).1 := by
  have connected :
      (reader.parseConnections left connections).1.Alike
          (reader.parseConnections right connections).1 ∧
        (reader.parseConnections left connections).2 =
          (reader.parseConnections right connections).2 := by
    simp only [YamlReader.parseConnections]
    split
    · exact ⟨alike, rfl⟩
    · exact parseConnectionNodes_alike alike 0 _
  rw [connected.2]
  split_ifs
  · simp only [YamlReader.parseRules]
    split
    · exact connected.1
    · exact (parseRuleNodes_alike connected.1 _).1
  · exact connected.1

end Parsing

end IncEmulation
