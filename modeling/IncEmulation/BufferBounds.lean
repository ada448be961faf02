import IncEmulation.Forwarding
import IncEmulation.FrameCodec
import IncEmulation.WellFormed

/-!
# Payloads and the buffers they go through

A payload is read from the captured bytes, copied to a slot of the switch and
sent on in frames that `send_packet` builds on its stack.  Its length is that of
the UDP length field, which nothing compares with any of these buffers.
-/

namespace IncEmulation

open Machine Memory

/-- The words of `agg_buffer.buffer`. -/
def bufferWords : Nat := 1024
/-- The bytes of `packet` in `send_packet`. -/
def packetBufferSize : Nat := 4096
/-- The bytes of `pack` in `compute_icrc`. -/
def icrcBufferSize : Nat := 5555
/-- The snapshot length of the receivers. -/
def bufsiz : Nat := 8192

/-- A captured packet.  The memory behind the captured bytes can be read, and
holds anything. -/
structure Capture where
  memory : List Byte
  caplen : Nat
  captured : caplen ≤ memory.length
  snapped : caplen ≤ bufsiz

def Capture.packet (capture : Capture) : Packet := .parse capture.memory

/-- Where `data` points. -/
def Capture.payloadOffset (capture : Capture) : Int :=
  sizeofEthHeader + sizeofIpv4Header + sizeofUdpHeader + sizeofBthHeader +
    capture.packet.immOffset

/-- One call of `packet_handler` by a receiver thread. -/
def capturing (ctx : SwitchContext) (arrival : Nat × Capture) :
    SwitchContext × List Frame :=
  packetHandler ctx arrival.1 arrival.2.packet

namespace SwitchContext

/-- `packet_handler` comes to its call of `aggregate` or `cache_and_broadcast`. -/
structure PassesOn (ctx : SwitchContext) (connId : Nat) (packet : Packet)
    (rule : Rule) : Prop where
  found : lookupRule ctx.routingTable packet.srcIp packet.dstIp
    (ctx.lookupKey packet).1 (ctx.lookupKey packet).2 = some rule
  notControl : packet.isControlMessage = false
  isSend : packet.isSend = true
  expected : packet.psn =
    if rule.direction = .down then ctx.downEpsn else ctx.aggEpsn connId

/-- The connections the root switch sends a result to. -/
def resultConns (ctx : SwitchContext) (rule : Rule) :
    PrimitiveType × Int → List Nat
  | (.allreduce, _) =>
      rule.outConns.filter fun conn => decide (conn < ctx.fanIn)
  | (.reduce, rank) =>
      if 0 ≤ ctx.rankToConn rank ∧ ctx.rankToConn rank < ctx.fanIn then
        [(ctx.rankToConn rank).toNat]
      else []
  | _ => []

/-- The connections `aggregate` sends to. -/
def aggregateTargets (ctx : SwitchContext) (rule : Rule)
    (operation : PrimitiveType × Int) (connId psn : Nat) : List Nat :=
  if operation.1 = .broadcast then
    (List.range ctx.fanIn).filter fun conn => conn ≠ connId
  else if (ctx.psnStates (idx psn)).degree + 1 = ctx.fanIn then
    if ctx.isRoot then ctx.resultConns rule operation else rule.outConns
  else []

/-- The connections a payload is sent to at once. -/
def receivers (ctx : SwitchContext) (rule : Rule) (connId : Nat)
    (packet : Packet) : List Nat :=
  if rule.direction = .down then
    rule.outConns.filter fun conn => decide (conn < ctx.fanIn)
  else ctx.aggregateTargets rule (ctx.lookupKey packet) connId packet.psn

end SwitchContext

/-- The frame fits the buffers it is built in. -/
def Frame.FitsBuffers (frame : Frame) : Prop :=
  ∀ (packet : Nat → Byte) (conn : Connection),
    (frame.bytes packet conn).length ≤ packetBufferSize ∧
      8 + (ipTotalLength (frame.bytes packet conn) - 4) ≤ icrcBufferSize

section Sizes

variable {frame : Frame}

theorem Frame.length_bytes (packet : Nat → Byte) (conn : Connection) :
    (frame.bytes packet conn).length =
      58 + 4 * frame.data.length + extraHeaderLen frame.type := by
  rw [Frame.bytes, buildEthPacket_eq, List.length_append, length_builtFrame_eq,
    bytesOfWords_length, bytesOfWord_length]
  omega

theorem Frame.fitsBuffers_iff :
    frame.FitsBuffers ↔
      58 + 4 * frame.data.length + extraHeaderLen frame.type ≤
        packetBufferSize := by
  constructor
  · intro fits
    have bounded := (fits (fun _ => 0) .zero).1
    rwa [Frame.length_bytes] at bounded
  · intro bounded packet conn
    rw [Frame.length_bytes]
    refine ⟨bounded, ?_⟩
    rw [packetBufferSize] at bounded
    have short : (bytesOfWords frame.data).length ≤ 4096 := by
      rw [bytesOfWords_length]
      omega
    rw [Frame.bytes, buildEthPacket_eq, ipTotalLength_built short,
      totalLen_eq short, bytesOfWords_length, icrcBufferSize]
    omega

theorem Frame.fitsBuffers_of_ack (type : frame.type = .ack ∨ frame.type = .nak)
    (empty : frame.data = []) : frame.FitsBuffers := by
  rw [Frame.fitsBuffers_iff, empty]
  rcases type with same | same <;> rw [same] <;> decide

theorem Frame.fitsBuffers_iff_of_data (type : frame.type = .data) :
    frame.FitsBuffers ↔ frame.data.length ≤ 1009 := by
  rw [Frame.fitsBuffers_iff, type, extraHeaderLen, packetBufferSize]
  omega

end Sizes

section Passing

variable {ctx : SwitchContext} {connId : Nat} {packet : Packet} {rule : Rule}

/-- What `packet_handler` does with a payload that it passes on. -/
theorem SwitchContext.PassesOn.packetHandler_eq
    (passes : ctx.PassesOn connId packet rule) :
    let sent :=
      if rule.direction = .down then
        cacheAndBroadcast (ctx.storeMetadata packet) rule packet.psn packet.data
          packet.dataLen packet.opcode
      else
        aggregate ((ctx.storeMetadata packet).bumpAggEpsn connId) rule connId
          packet.psn packet.data packet.dataLen packet.opcode
    packetHandler ctx connId packet =
      (sent.1, forwardingAck rule packet.psn .ack ++ sent.2) := by
  have stored := storeMetadata_configuration ctx packet
  have found := passes.found
  rw [← stored.routingTable] at found
  have expected := passes.expected
  dsimp only
  simp only [packetHandler, found, passes.notControl, Bool.false_eq_true,
    if_false, handleByRule, passes.isSend, if_true]
  by_cases down : rule.direction = .down
  · have downEpsn : (ctx.storeMetadata packet).downEpsn = ctx.downEpsn := by
      unfold SwitchContext.storeMetadata
      split_ifs <;> rfl
    rw [if_pos down] at expected
    rw [if_pos down, if_pos down, handleDownstreamData, downEpsn, expected,
      if_neg (Nat.lt_irrefl _), if_neg (Nat.lt_irrefl _)]
  · rw [if_neg down] at expected
    rw [if_neg down, if_neg down, handleUpstreamData, storeMetadata_aggEpsn,
      expected, if_neg (Nat.lt_irrefl _), if_neg (Nat.lt_irrefl _)]

theorem dataFrames_ack_append (psn : Nat) {type : PacketType}
    (isAck : type = .ack ∨ type = .nak) (frames : List Frame) :
    dataFrames (forwardingAck rule psn type ++ frames) = dataFrames frames := by
  have silent : (forwardingAck rule psn type).filter
      (fun frame => frame.type = .data) = [] :=
    dataFrames_forwardingAck rule psn isAck
  rw [dataFrames, List.filter_append, silent, List.nil_append]
  rfl

/-- A packet that is not passed on brings nothing but acknowledgements. -/
theorem SwitchContext.dataFrames_of_not_passesOn
    (stays : ∀ rule, ¬ctx.PassesOn connId packet rule) :
    dataFrames (packetHandler ctx connId packet).2 = [] := by
  have stored := storeMetadata_configuration ctx packet
  have downEpsn : (ctx.storeMetadata packet).downEpsn = ctx.downEpsn := by
    unfold SwitchContext.storeMetadata
    split_ifs <;> rfl
  unfold packetHandler
  dsimp only
  rw [stored.routingTable]
  split
  · rfl
  · rename_i rule found
    by_cases control : packet.isControlMessage = true
    · rw [if_pos control]
      exact dataFrames_forwardingAck rule packet.psn (Or.inl rfl)
    rw [if_neg control, handleByRule]
    by_cases send : packet.isSend = true
    · rw [if_pos send]
      have unexpected : ¬(packet.psn =
          if rule.direction = .down then ctx.downEpsn
          else ctx.aggEpsn connId) := by
        intro expected
        exact stays rule ⟨found, Bool.eq_false_iff.mpr control, send, expected⟩
      by_cases down : rule.direction = .down
      · rw [if_pos down] at unexpected ⊢
        rw [handleDownstreamData, downEpsn]
        by_cases late : packet.psn < ctx.downEpsn
        · rw [if_pos late]
          exact dataFrames_forwardingAck rule _ (Or.inl rfl)
        · rw [if_neg late, if_pos (by omega)]
          exact dataFrames_forwardingAck rule _ (Or.inr rfl)
      · rw [if_neg down] at unexpected ⊢
        rw [handleUpstreamData, storeMetadata_aggEpsn]
        by_cases late : packet.psn < ctx.aggEpsn connId
        · rw [if_pos late]
          exact dataFrames_forwardingAck rule _ (Or.inl rfl)
        · rw [if_neg late, if_pos (by omega)]
          exact dataFrames_forwardingAck rule _ (Or.inr rfl)
    · rw [if_neg send]
      split_ifs <;> rfl

theorem dataFrames_forwarding (psn : Nat) (data : Nat → Word) (len : Int)
    (opcode : Opcode) :
    (dataFrames (forwarding rule psn .data data len opcode)).map Frame.conn =
      rule.outConns := by
  have allData : dataFrames (forwarding rule psn .data data len opcode) =
      forwarding rule psn .data data len opcode := by
    apply List.filter_eq_self.mpr
    intro frame member
    obtain ⟨conn, -, rfl⟩ := List.mem_map.mp member
    rfl
  have notAck : ¬(PacketType.data = .ack ∨ PacketType.data = .nak) := by
    simp only [reduceCtorEq, or_self, not_false_eq_true]
  rw [allData, forwarding, if_neg notAck, if_pos (Or.inl rfl), List.map_map]
  exact List.map_id _

theorem map_conn_completeAggregation (primitive : PrimitiveType) (rank : Int)
    (psn : Nat) (data : Nat → Word) (len : Int) (opcode : Opcode) :
    (dataFrames (completeAggregation ctx rule primitive rank psn data len
        opcode).2).map Frame.conn =
      if ctx.isRoot then ctx.resultConns rule (primitive, rank)
      else rule.outConns := by
  unfold completeAggregation
  split_ifs
  · cases primitive with
    | allreduce =>
        dsimp only [cacheAndBroadcast]
        rw [dataFrames_sendToEach]
        exact map_conn_sendToEach _
    | reduce => exact map_conn_sendToRoot rank
    | null => rfl
    | broadcast => rfl
    | other value => rfl
  · exact dataFrames_forwarding psn data len _

theorem map_conn_aggregate (psn : Nat) (data : Nat → Word) (len : Int)
    (opcode : Opcode) :
    (dataFrames (aggregate ctx rule connId psn data len opcode).2).map
        Frame.conn =
      ctx.aggregateTargets rule (ctx.operationType, ctx.rootRank) connId
        psn := by
  unfold aggregate SwitchContext.aggregateTargets
  dsimp only
  rw [PsnState.degree_accumulate]
  by_cases broadcast : ctx.operationType = .broadcast
  · rw [if_pos broadcast, if_pos broadcast, handleBroadcast,
      dataFrames_sendToEach, map_conn_sendToEach]
    apply List.filter_eq_self.mpr
    intro target inside
    exact decide_eq_true (List.mem_range.mp (List.mem_of_mem_filter inside))
  rw [if_neg broadcast, if_neg broadcast]
  by_cases complete : (ctx.psnStates (idx psn)).degree + 1 = ctx.fanIn
  · rw [if_pos complete, if_pos complete]
    exact map_conn_completeAggregation ..
  · rw [if_neg complete, if_neg complete]
    rfl

theorem SwitchContext.aggregateTargets_congr {ready : SwitchContext}
    (same : ctx.SameConfiguration ready)
    (slots : ready.psnStates = ctx.psnStates) :
    ready.aggregateTargets rule = ctx.aggregateTargets rule := by
  unfold SwitchContext.aggregateTargets SwitchContext.resultConns
  simp only [same.fanIn, same.isRoot, same.rankToConn, slots]

theorem SwitchContext.PassesOn.map_conn
    (passes : ctx.PassesOn connId packet rule) :
    (dataFrames (packetHandler ctx connId packet).2).map Frame.conn =
      ctx.receivers rule connId packet := by
  have stored := storeMetadata_configuration ctx packet
  have operation := storeMetadata_operation ctx packet
  rw [passes.packetHandler_eq]
  dsimp only
  rw [dataFrames_ack_append packet.psn (Or.inl rfl)]
  by_cases down : rule.direction = .down
  · rw [if_pos down, SwitchContext.receivers, if_pos down, cacheAndBroadcast,
      dataFrames_sendToEach, map_conn_sendToEach, ← stored.fanIn]
    rfl
  · rw [if_neg down, SwitchContext.receivers, if_neg down, map_conn_aggregate]
    have key : (((ctx.storeMetadata packet).bumpAggEpsn connId).operationType,
        ((ctx.storeMetadata packet).bumpAggEpsn connId).rootRank) =
          ctx.lookupKey packet := operation
    rw [key]
    rw [SwitchContext.aggregateTargets_congr]
    · exact stored.trans ⟨rfl, rfl, rfl, rfl⟩
    · exact storeMetadata_psnStates ctx packet

/-- What a frame of the handler can be. -/
def Frame.Carries (frame : Frame) (len : Int) : Prop :=
  frame.type = .data ∧ frame.data.length = len.toNat ∨
    (frame.type = .ack ∨ frame.type = .nak) ∧ frame.data = []

theorem packetHandler_carries :
    ∀ frame ∈ (packetHandler ctx connId packet).2,
      frame.Carries packet.dataLen := by
  apply packetHandler_all
  · exact fun _ _ => Or.inr ⟨Or.inl rfl, rfl⟩
  · exact fun _ _ => Or.inr ⟨Or.inr rfl, rfl⟩
  · intro _ conn data psn
    refine Or.inl ⟨rfl, ?_⟩
    rw [sendPacket, List.length_map, List.length_range]

end Passing

/-- A captured packet is passed on with at most as many words as a slot holds, of
which none lies behind the capture, in frames that fit their buffers. -/
structure Bounded (ctx : SwitchContext) (arrival : Nat × Capture) : Prop where
  words : ∀ rule, ctx.PassesOn arrival.1 arrival.2.packet rule →
    0 ≤ arrival.2.packet.dataLen ∧ arrival.2.packet.dataLen ≤ bufferWords
  inside : ∀ rule, ctx.PassesOn arrival.1 arrival.2.packet rule →
    arrival.2.payloadOffset + 4 * arrival.2.packet.dataLen ≤ arrival.2.caplen
  frames : ∀ frame ∈ (capturing ctx arrival).2, frame.FitsBuffers

/-- The UDP length field covers the headers, keeps inside the capture, and asks
for at most 1024 words, or 1009 where they are sent on at once. -/
structure Fitting (ctx : SwitchContext) (arrival : Nat × Capture)
    (rule : Rule) : Prop where
  headers : 24 + arrival.2.packet.immOffset ≤ arrival.2.packet.udpLength
  capture : arrival.2.payloadOffset +
    (arrival.2.packet.udpLength - 24 - arrival.2.packet.immOffset) / 4 * 4 ≤
      arrival.2.caplen
  buffer : arrival.2.packet.udpLength < 24 + arrival.2.packet.immOffset + 4100
  packet : arrival.2.packet.udpLength <
      24 + arrival.2.packet.immOffset + 4040 ∨
    ctx.receivers rule arrival.1 arrival.2.packet = []

section Bounds

variable {ctx : SwitchContext} {arrival : Nat × Capture}

theorem Packet.dataLen_eq (packet : Packet) :
    packet.dataLen = (packet.udpLength - 24 - packet.immOffset) / 4 := by
  rw [Packet.dataLen, Packet.payloadLen, sizeofUdpHeader, sizeofBthHeader,
    sizeofIcrc]
  congr 2
  omega

/-- The buffers are kept exactly if the UDP length field fits. -/
theorem bounded_iff :
    Bounded ctx arrival ↔
      ∀ rule, ctx.PassesOn arrival.1 arrival.2.packet rule →
        Fitting ctx arrival rule := by
  have length := arrival.2.packet.dataLen_eq
  have carries : ∀ frame ∈ (capturing ctx arrival).2,
      frame.Carries arrival.2.packet.dataLen := packetHandler_carries
  constructor
  · intro bounded rule passes
    obtain ⟨least, most⟩ := bounded.words rule passes
    have inside := bounded.inside rule passes
    rw [bufferWords] at most
    constructor
    · omega
    · omega
    · omega
    · by_contra! sent
      have conns := passes.map_conn
      obtain ⟨conn, receives⟩ := List.exists_mem_of_ne_nil _ sent.2
      rw [← conns, List.mem_map] at receives
      obtain ⟨frame, isSent, -⟩ := receives
      obtain ⟨member, isData⟩ := List.mem_filter.mp isSent
      have type : frame.type = .data := of_decide_eq_true isData
      have fits := bounded.frames frame member
      rw [Frame.fitsBuffers_iff_of_data type] at fits
      rcases carries frame member with ⟨-, words⟩ | ⟨acknowledges, -⟩
      · omega
      · rw [type] at acknowledges
        rcases acknowledges with same | same <;> cases same
  · intro fitting
    constructor
    · intro rule passes
      obtain ⟨headers, -, buffer, -⟩ := fitting rule passes
      rw [bufferWords]
      omega
    · intro rule passes
      obtain ⟨-, capture, -, -⟩ := fitting rule passes
      rw [length, Int.mul_comm]
      exact capture
    · intro frame member
      rcases carries frame member with ⟨type, words⟩ | ⟨acknowledges, empty⟩
      · rw [Frame.fitsBuffers_iff_of_data type]
        have isSent : frame ∈
            dataFrames (packetHandler ctx arrival.1 arrival.2.packet).2 :=
          List.mem_filter.mpr ⟨member, decide_eq_true type⟩
        have passed : ∃ rule,
            ctx.PassesOn arrival.1 arrival.2.packet rule := by
          by_contra! stays
          rw [SwitchContext.dataFrames_of_not_passesOn stays] at isSent
          cases isSent
        obtain ⟨rule, passes⟩ := passed
        rcases (fitting rule passes).packet with short | silent
        · omega
        · have none := passes.map_conn.trans silent
          rw [List.map_eq_nil_iff.mp none] at isSent
          cases isSent
      · exact Frame.fitsBuffers_of_ack acknowledges empty

end Bounds

/-- Along any run the buffers are kept exactly if every UDP length field fits. -/
theorem bounded_iff_fitting (ctx : SwitchContext)
    (captures : List (Nat × Capture)) :
    Admits capturing Bounded ctx captures ↔
      Admits capturing (fun ctx arrival =>
        ∀ rule, ctx.PassesOn arrival.1 arrival.2.packet rule →
          Fitting ctx arrival rule) ctx captures :=
  admits_congr (fun _ _ => bounded_iff) ctx captures

/-- SEND ONLY from the peer of connection 0, with a UDP length field of 0. -/
def lengthlessCapture : Capture where
  memory :=
    List.replicate 12 0 ++ [0x08, 0x00] ++
      [0x45, 0, 0, 44, 0, 0, 0x40, 0, 64, 17, 0, 0, 10, 0, 1, 1, 10, 0, 1, 2] ++
      [0x12, 0xB7, 0x12, 0xB7, 0, 0, 0, 0] ++
      [0x04, 0, 0xFF, 0xFF, 0, 0, 0, 28, 0x80, 0, 0, 0] ++ List.replicate 4 0
  caplen := 58
  captured := by decide
  snapped := by decide

theorem lengthlessCapture_passesOn :
    ∃ rule, twoHosts.context.PassesOn 0 lengthlessCapture.packet rule := by
  have bound : 0 < twoHosts.connections.length := by decide
  have srcIp : lengthlessCapture.packet.srcIp = twoHosts.addressing.srcIp 0 := by
    decide +kernel
  have dstIp : lengthlessCapture.packet.dstIp = twoHosts.addressing.dstIp 0 := by
    decide +kernel
  have found := HostNet.lookupRule_allreduce bound (-1)
  rw [← srcIp, ← dstIp] at found
  exact ⟨_, found, by decide, by decide, (ite_self 0).symm⟩

/-- The frame above is passed on with -6 words. -/
theorem not_bounded_lengthlessCapture :
    ¬∀ net ctx, Configured net ctx → ∀ captures,
      Admits capturing Bounded ctx captures := by
  intro always
  obtain ⟨rule, passes⟩ := lengthlessCapture_passesOn
  have bounded := always twoHosts twoHosts.context twoHosts.context_configured
    [(0, lengthlessCapture)]
  exact absurd (bounded.1.words rule passes).1 (by decide)

end IncEmulation
