import IncEmulation.BufferBounds

/-!
# Aggregation within the buffers

A slot of the switch has room for 1024 words, and the stack buffer of
`send_packet` for a data frame of 1009.  Nothing in the handler compares the
length of a payload with either, so the sums are those of the memory as long as
every payload in turn stays within them, and no longer.
-/

namespace IncEmulation

open Gather Machine

/-- Handling the packet writes no buffer of the switch beyond its end: a payload
that is passed on fits `agg_buffer.buffer`, a frame fits those of `send_packet`. -/
structure Contained (ctx : SwitchContext) (arrival : Nat × Packet) : Prop where
  words : ∀ rule, ctx.PassesOn arrival.1 arrival.2 rule →
    0 ≤ arrival.2.dataLen ∧ arrival.2.dataLen ≤ bufferWords
  frames : ∀ frame ∈ (deliver ctx arrival).2, frame.FitsBuffers

/-- A data packet in turn fits a frame, or fits a slot in which the packet of
another connection is still missing. -/
def Roomy (hosts : Nat) (ctx : SwitchContext) (arrival : Nat × Packet) : Prop :=
  arrival.2.Plain → arrival.2.psn = ctx.aggEpsn arrival.1 →
    arrival.2.dataLen ≤ 1009 ∨
      arrival.2.dataLen ≤ bufferWords ∧
        ∃ other < hosts, other ≠ arrival.1 ∧
          ctx.aggEpsn other ≤ arrival.2.psn

section Step

variable {addressing : Addressing} {hosts conn : Nat} {ctx : SwitchContext}
  {packet : Packet} {operation : Collective}

theorem acknowledgement_fitsBuffers (psn : Nat) :
    (acknowledgement conn psn).FitsBuffers :=
  Frame.fitsBuffers_of_ack (Or.inl rfl) rfl

/-- A data packet finds the rule of the operation in force: an uplink, or none
where the operation is a Broadcast of another rank. -/
theorem Routed.uplink_of_lookupKey {rule : Rule}
    (routed : Routed addressing hosts ctx) (bound : conn < hosts)
    (origin : packet.From addressing conn) (valid : operation.Valid hosts)
    (inForce : ctx.InForce operation) (plain : packet.Plain)
    (found : IncEmulation.lookupRule ctx.routingTable packet.srcIp packet.dstIp
      (ctx.lookupKey packet).1 (ctx.lookupKey packet).2 = some rule) :
    rule.Uplink conn := by
  have key : ctx.lookupKey packet = operation.metadata := by
    rw [SwitchContext.lookupKey, plain.hasImmData, if_neg Bool.false_ne_true]
    exact inForce
  rw [key, origin.srcIp, origin.dstIp] at found
  by_cases dropped : ∃ root, operation = .broadcast root ∧ root ≠ conn
  · obtain ⟨root, rfl, other⟩ := dropped
    have absent := routed.broadcast_other conn bound root
      (by exact_mod_cast other)
    exact absurd (absent.symm.trans found) (by simp)
  · have admissible : operation.Admissible hosts conn := by
      cases operation with
      | allreduce => trivial
      | reduce root => exact valid
      | broadcast root =>
          by_contra other
          exact dropped ⟨root, rfl, other⟩
    obtain ⟨known, isFound, uplink, -⟩ := routed.lookupRule bound admissible
    rwa [Option.some.inj (found.symm.trans isFound)]

theorem SwitchContext.PassesOn.inTurn {rule : Rule}
    (routed : Routed addressing hosts ctx) (bound : conn < hosts)
    (origin : packet.From addressing conn) (valid : operation.Valid hosts)
    (inForce : ctx.InForce operation) (plain : packet.Plain)
    (passes : ctx.PassesOn conn packet rule) :
    packet.psn = ctx.aggEpsn conn := by
  have uplink := routed.uplink_of_lookupKey bound origin valid inForce plain
    passes.found
  have up : rule.direction ≠ .down := by simp [uplink.direction]
  have expected := passes.expected
  rwa [if_neg up] at expected

theorem passesOn_of_inTurn (routed : Routed addressing hosts ctx)
    (bound : conn < hosts) (origin : packet.From addressing conn)
    (admissible : operation.Admissible hosts conn)
    (inForce : ctx.InForce operation) (plain : packet.Plain)
    (expected : packet.psn = ctx.aggEpsn conn) :
    ∃ rule, ctx.PassesOn conn packet rule := by
  obtain ⟨rule, found, uplink, -⟩ := routed.lookupRule bound admissible
  have key : ctx.lookupKey packet = operation.metadata := by
    rw [SwitchContext.lookupKey, plain.hasImmData, if_neg Bool.false_ne_true]
    exact inForce
  have up : rule.direction ≠ .down := by simp [uplink.direction]
  refine ⟨rule, ?_, plain.not_control, plain.isSend, ?_⟩
  · rwa [key, origin.srcIp, origin.dstIp]
  · rwa [if_neg up]

theorem resultFrames_fitsBuffers_iff {data : Nat → Word} {words : Nat}
    {opcode : Opcode} {targets : List Nat} (nonempty : targets ≠ []) :
    (∀ frame ∈ ctx.resultFrames data words opcode targets,
      frame.FitsBuffers) ↔ words ≤ 1009 := by
  have fits : ∀ target, (sendPacket target .data data words
      (ctx.sendPsn target) opcode).FitsBuffers ↔ words ≤ 1009 := by
    intro target
    rw [Frame.fitsBuffers_iff_of_data rfl, sendPacket, List.length_map,
      List.length_range, Int.toNat_natCast]
  constructor
  · intro all
    obtain ⟨target, member⟩ := List.exists_mem_of_ne_nil _ nonempty
    exact (fits target).mp (all _ (List.mem_map_of_mem member))
  · intro short frame member
    obtain ⟨target, -, rfl⟩ := List.mem_map.mp member
    exact (fits target).mpr short

theorem Collective.targets_ne_nil {hosts : Nat} {operation : Collective}
    (nonempty : 0 < hosts) (aggregates : operation.aggregates = true) :
    operation.targets hosts ≠ [] := by
  cases operation with
  | allreduce =>
      have present : 0 ∈ List.range hosts := List.mem_range.mpr nonempty
      exact List.ne_nil_of_mem present
  | reduce root => exact List.cons_ne_nil root []
  | broadcast root => cases aggregates

/-- Nothing but the room in the slot and the length of the frames can go wrong
with a data packet in turn. -/
theorem contained_iff_of_inTurn {words : Nat}
    (routed : Routed addressing hosts ctx) (bound : conn < hosts)
    (origin : packet.From addressing conn)
    (admissible : operation.Admissible hosts conn)
    (inForce : ctx.InForce operation) (plain : packet.Plain)
    (expected : packet.psn = ctx.aggEpsn conn)
    (dataLen : packet.dataLen = words) :
    Contained ctx (conn, packet) ↔ words ≤ bufferWords ∧
      ∀ frame ∈ (packetHandler ctx conn packet).2, frame.FitsBuffers := by
  constructor
  · intro contained
    obtain ⟨rule, passes⟩ := passesOn_of_inTurn routed bound origin admissible
      inForce plain expected
    have fits := (contained.words rule passes).2
    rw [dataLen] at fits
    exact ⟨by exact_mod_cast fits, contained.frames⟩
  · rintro ⟨fits, frames⟩
    refine ⟨fun rule passes => ?_, frames⟩
    rw [dataLen]
    omega

theorem packetHandler_fitsBuffers_iff_of_complete {words : Nat}
    (deployed : Deployed addressing hosts ctx) (bound : conn < hosts)
    (origin : packet.From addressing conn)
    (admissible : operation.Admissible hosts conn)
    (aggregates : operation.aggregates = true)
    (inForce : ctx.InForce operation) (plain : packet.Plain)
    (expected : packet.psn = ctx.aggEpsn conn)
    (complete : (ctx.psnStates (idx packet.psn)).degree + 1 = hosts)
    (dataLen : packet.dataLen = words) :
    (∀ frame ∈ (packetHandler ctx conn packet).2, frame.FitsBuffers) ↔
      words ≤ 1009 := by
  obtain ⟨-, frames⟩ := packetHandler_complete deployed bound origin admissible
    aggregates inForce plain expected complete
  rw [frames, dataLen, List.forall_mem_cons, resultFrames_fitsBuffers_iff
    (Collective.targets_ne_nil (Nat.zero_lt_of_lt bound) aggregates)]
  exact and_iff_right (acknowledgement_fitsBuffers _)

theorem packetHandler_fitsBuffers_of_incomplete
    (routed : Routed addressing hosts ctx) (bound : conn < hosts)
    (origin : packet.From addressing conn)
    (admissible : operation.Admissible hosts conn)
    (aggregates : operation.aggregates = true)
    (inForce : ctx.InForce operation) (plain : packet.Plain)
    (expected : packet.psn = ctx.aggEpsn conn)
    (incomplete : (ctx.psnStates (idx packet.psn)).degree + 1 ≠ hosts) :
    ∀ frame ∈ (packetHandler ctx conn packet).2, frame.FitsBuffers := by
  intro frame isSent
  rw [packetHandler_incomplete routed bound origin admissible aggregates inForce
    plain expected incomplete, List.mem_singleton] at isSent
  rw [isSent]
  exact acknowledgement_fitsBuffers _

theorem roomy_iff_of_last {words : Nat} (plain : packet.Plain)
    (expected : packet.psn = ctx.aggEpsn conn)
    (dataLen : packet.dataLen = words)
    (last : ∀ other < hosts, other ≠ conn →
      ctx.aggEpsn conn < ctx.aggEpsn other) :
    Roomy hosts ctx (conn, packet) ↔ words ≤ 1009 := by
  constructor
  · intro roomy
    rcases roomy plain expected with short | ⟨-, other, bound, different,
      behind⟩
    · rw [dataLen] at short
      exact_mod_cast short
    · have ahead := last other bound different
      rw [← expected] at ahead
      exact absurd ahead (Nat.not_lt.mpr behind)
  · intro short _ _
    exact .inl (by rw [dataLen]; exact_mod_cast short)

theorem roomy_iff_of_missing {words other : Nat} (plain : packet.Plain)
    (expected : packet.psn = ctx.aggEpsn conn)
    (dataLen : packet.dataLen = words) (bound : other < hosts)
    (different : other ≠ conn) (behind : ctx.aggEpsn other ≤ ctx.aggEpsn conn) :
    Roomy hosts ctx (conn, packet) ↔ words ≤ bufferWords := by
  constructor
  · intro roomy
    rcases roomy plain expected with short | ⟨fits, -⟩
    · rw [dataLen] at short
      rw [bufferWords]
      omega
    · rw [dataLen] at fits
      exact_mod_cast fits
  · intro fits _ _
    exact .inr ⟨by rw [dataLen]; exact_mod_cast fits, other, bound, different,
      expected ▸ behind⟩

end Step

namespace Streams

variable {streams : Streams} {addressing : Addressing} {hosts : Nat}
  {first : Nat → Nat} {ctx : SwitchContext} {outputs : List Frame}

theorem Invariant.contained_control {conn : Nat} {packet : Packet}
    (valid : streams.operation.Valid hosts)
    (aggregates : streams.operation.aggregates = true)
    (invariant : streams.Invariant addressing hosts first ctx outputs)
    (bound : conn < hosts) (origin : packet.From addressing conn)
    (announces : packet.Announces streams.operation) :
    Contained ctx (conn, packet) := by
  obtain ⟨frontier, aggregating, -⟩ := invariant.sent
  constructor
  · intro rule passes
    have notControl := passes.notControl
    rw [announces.control] at notControl
    cases notControl
  · intro frame member
    rw [deliver, packetHandler_control aggregating.deployed.toRouted bound
      origin (Collective.admissible_of_aggregates aggregates valid conn)
      announces, List.mem_singleton] at member
    rw [member]
    exact acknowledgement_fitsBuffers _

theorem Invariant.contained_stray {conn : Nat} {packet : Packet}
    (invariant : streams.Invariant addressing hosts first ctx outputs)
    (bound : conn < hosts) (origin : packet.From addressing conn)
    (plain : packet.Plain) (outOfTurn : packet.psn ≠ ctx.aggEpsn conn) :
    Contained ctx (conn, packet) := by
  obtain ⟨operation, valid, inForce⟩ := invariant.inForce
  obtain ⟨frontier, aggregating, -⟩ := invariant.sent
  have stays : ∀ rule, ¬ctx.PassesOn conn packet rule := fun rule passes =>
    outOfTurn (passes.inTurn aggregating.deployed.toRouted bound origin valid
      inForce plain)
  constructor
  · exact fun rule passes => absurd passes (stays rule)
  · intro frame member
    rcases packetHandler_carries frame member with ⟨type, -⟩ | ⟨type, empty⟩
    · have isData : frame ∈ dataFrames (packetHandler ctx conn packet).2 :=
        List.mem_filter.mpr ⟨member, decide_eq_true type⟩
      rw [SwitchContext.dataFrames_of_not_passesOn stays] at isData
      cases isData
    · exact Frame.fitsBuffers_of_ack type empty

/-- A packet in turn is contained exactly if the slot has room for it and, where
it is the last of its slot, a frame has. -/
theorem Invariant.contained_data_iff {conn k : Nat} {packet : Packet}
    (valid : streams.operation.Valid hosts)
    (aggregates : streams.operation.aggregates = true)
    (invariant : streams.Invariant addressing hosts first ctx outputs)
    (within : Within hosts ctx.aggEpsn switchArrayLength)
    (bound : conn < hosts) (origin : packet.From addressing conn)
    (inStream : k < streams.count)
    (turn : ctx.aggEpsn conn = streams.base + 1 + k)
    (data : streams.Data conn k packet) :
    Contained ctx (conn, packet) ↔ Roomy hosts ctx (conn, packet) := by
  obtain ⟨frontier, aggregating, -⟩ := invariant.sent
  have routed := aggregating.deployed.toRouted
  have admissible := Collective.admissible_of_aggregates aggregates valid conn
  have member : streams.schedule.IsAggregated (ctx.aggEpsn conn) := by
    rw [isAggregated_iff, turn]
    omega
  have inForce : ctx.InForce streams.operation :=
    invariant.started ⟨conn, bound, by omega⟩
  have expected : packet.psn = ctx.aggEpsn conn := data.psn_eq.trans turn.symm
  have dataLen : packet.dataLen = streams.length k := by
    rw [Packet.dataLen, data.payloadLen]
    omega
  have complete := aggregating.slots.complete_iff bound member
    (slotFree_inTurn within bound)
  rw [contained_iff_of_inTurn routed bound origin admissible inForce data.plain
    expected dataLen]
  by_cases last : ∀ other < hosts, other ≠ conn →
      ctx.aggEpsn conn < ctx.aggEpsn other
  · rw [roomy_iff_of_last data.plain expected dataLen last,
      packetHandler_fitsBuffers_iff_of_complete aggregating.deployed bound
        origin admissible aggregates inForce data.plain expected
        (expected ▸ complete.mpr last) dataLen]
    exact and_iff_right_of_imp fun short => short.trans (by decide)
  · have incomplete :
        (ctx.psnStates (idx packet.psn)).degree + 1 ≠ hosts := by
      rw [expected]
      exact fun full => last (complete.mp full)
    have fits := packetHandler_fitsBuffers_of_incomplete routed bound origin
      admissible aggregates inForce data.plain expected incomplete
    push Not at last
    obtain ⟨other, otherBound, different, behind⟩ := last
    rw [roomy_iff_of_missing data.plain expected dataLen otherBound different
      behind]
    exact and_iff_left fits

theorem Invariant.contained_iff {arrival : Nat × Packet}
    (valid : streams.operation.Valid hosts)
    (aggregates : streams.operation.aggregates = true)
    (invariant : streams.Invariant addressing hosts first ctx outputs)
    (allowed : streams.Allowed addressing hosts ctx arrival) :
    Contained ctx arrival ↔ Roomy hosts ctx arrival := by
  obtain ⟨within, arrives⟩ := allowed
  cases arrives with
  | control bound origin turn announces =>
      have contained := invariant.contained_control valid aggregates bound
        origin announces
      refine iff_of_true contained fun plain => ?_
      have control := announces.control
      rw [plain.not_control] at control
      cases control
  | data bound origin inStream turn data =>
      exact invariant.contained_data_iff valid aggregates within bound origin
        inStream turn data
  | stray bound origin plain outOfTurn =>
      have contained := invariant.contained_stray bound origin plain outOfTurn
      exact iff_of_true contained fun _ inTurn => absurd inTurn outOfTurn

end Streams

/-- Along the run the sums are emitted exactly once and in order, and no buffer
is written beyond its end. -/
structure Exact (hosts : Nat) (ctx : SwitchContext) (streams : Streams)
    (arrivals : List (Nat × Packet)) : Prop where
  summed : streams.Summed hosts ctx arrivals
  contained : Admits deliver Contained ctx arrivals

/-- The run keeps to the buffers exactly if each payload in turn has room. -/
theorem Streams.exact_iff_roomy {net : HostNet} {ctx : SwitchContext}
    {streams : Streams} {arrivals : List (Nat × Packet)}
    (nonempty : 0 < net.worldSize)
    (deployed : Deployed net.addressing net.worldSize ctx)
    (aggregates : streams.operation.aggregates = true)
    (valid : streams.operation.Valid net.worldSize)
    (ready : Ready net.worldSize streams.base ctx)
    (admitted : Admits deliver
      (streams.Allowed net.addressing net.worldSize) ctx arrivals) :
    Exact net.worldSize ctx streams arrivals ↔
      Admits deliver (Roomy net.worldSize) ctx arrivals := by
  have initially := Streams.Invariant.initial deployed nonempty ready
  have preserved : ∀ state outputs arrival,
      streams.Invariant net.addressing net.worldSize ctx.sendPsn state
        outputs →
      streams.Allowed net.addressing net.worldSize state arrival →
        streams.Invariant net.addressing net.worldSize ctx.sendPsn
          (deliver state arrival).1 (outputs ++ (deliver state arrival).2) :=
    fun _ _ _ invariant allowed => invariant.step valid aggregates allowed
  have final := feed_invariant _ preserved initially admitted
  rw [List.nil_append] at final
  have agree : Admits deliver (fun state arrival =>
      Contained state arrival ↔ Roomy net.worldSize state arrival) ctx
      arrivals :=
    Admits.derive _ preserved (fun _ _ _ invariant allowed =>
      invariant.contained_iff valid aggregates allowed) initially
      admitted
  have same := admits_congr_of (fun _ _ agrees => agrees) agree
  exact ⟨fun exactly => same.mp exactly.contained,
    fun roomy => ⟨final.summed, same.mpr roomy⟩⟩

/-- Two hosts reduce to rank 1: one contributes 1, the other 2, in every word
of one packet. -/
def reduceOfTwo (length : Nat) : Streams where
  operation := .reduce 1
  base := 0
  count := 1
  length _ := length
  opcode _ := rdmaOpcodeSendOnly
  vector conn _ _ := BitVec.ofNat 32 (conn + 1)

def reduceControl (conn : Nat) : Nat × Packet :=
  (conn, twoHosts.addressing.controlPacket conn 0 (.reduce 1) 0)

def reduceData (length conn : Nat) : Nat × Packet :=
  (conn, twoHosts.addressing.dataPacket conn 1 rdmaOpcodeSendOnly
    (List.replicate length (htonl (BitVec.ofNat 32 (conn + 1)))))

/-- Rank 0 is ahead, and its data packet arrives twice. -/
def reduceOfTwoArrivals (length : Nat) : List (Nat × Packet) :=
  [reduceControl 0, reduceData length 0, reduceControl 1, reduceData length 0,
    reduceData length 1]

theorem twoHosts_ready : Ready 2 0 twoHosts.context :=
  ⟨fun _ => ⟨rfl, fun _ => rfl⟩, fun _ _ => rfl, .allreduce, trivial, rfl⟩

theorem reduceOfTwo_data (length conn : Nat) :
    (reduceOfTwo length).Data conn 0 (reduceData length conn).2 where
  plain := Addressing.dataPacket_plain (by simp [Addressing.IsPlainOpcode])
  psn_eq := Addressing.dataPacket_psn
  opcode := rfl
  payloadLen := by
    rw [reduceData, Addressing.dataPacket_payloadLen
      (by simp [Addressing.IsPlainOpcode]), List.length_replicate]
    rfl
  body := by
    have words : (List.range length).map (fun _ =>
        htonl (BitVec.ofNat 32 (conn + 1))) =
          List.replicate length (htonl (BitVec.ofNat 32 (conn + 1))) := by
      rw [List.map_const', List.length_range]
    exact words ▸ List.prefix_rfl

theorem reduceOfTwoArrivals_admitted {length : Nat}
    (either : length = 1 ∨ length = 1010) :
    Admits deliver ((reduceOfTwo length).Allowed twoHosts.addressing 2)
      twoHosts.context (reduceOfTwoArrivals length) := by
  have announces : ∀ conn < 2,
      (reduceControl conn).2.Announces (.reduce 1) := fun conn bound =>
    Addressing.controlPacket_announces (by decide) bound
      (show 1 < 2 by decide)
  refine ⟨⟨?_, .control (by decide) ⟨rfl, rfl⟩ ?_ (announces 0 (by decide))⟩,
    ⟨?_, .data (k := 0) (by decide) ⟨rfl, rfl⟩ Nat.one_pos ?_
      (reduceOfTwo_data length 0)⟩,
    ⟨?_, .control (by decide) ⟨rfl, rfl⟩ ?_ (announces 1 (by decide))⟩,
    ⟨?_, .stray (by decide) ⟨rfl, rfl⟩ ⟨rfl, rfl⟩ ?_⟩,
    ⟨?_, .data (k := 0) (by decide) ⟨rfl, rfl⟩ Nat.one_pos ?_
      (reduceOfTwo_data length 1)⟩, trivial⟩
  all_goals first | unfold Within | skip
  all_goals rcases either with rfl | rfl <;> decide +kernel

/-- In every interleaving the sums are emitted exactly and within the buffers if
and only if each data packet that takes effect has at most 1009 words, or at
most 1024 while the packet of another connection is missing. -/
theorem aggregation_exact (net : HostNet) (ctx : SwitchContext)
    (streams : Streams) (arrivals : List (Nat × Packet))
    (atLeastTwo : 2 ≤ net.worldSize) (atMostNine : net.worldSize ≤ 9)
    (configured : Configured net ctx)
    (aggregates : streams.operation.aggregates = true)
    (valid : streams.operation.Valid net.worldSize)
    (ready : Ready net.worldSize streams.base ctx)
    (admitted : Admits deliver
      (streams.Allowed net.addressing net.worldSize) ctx arrivals) :
    Exact net.worldSize ctx streams arrivals ↔
      Admits deliver (Roomy net.worldSize) ctx arrivals :=
  Streams.exact_iff_roomy (by omega)
    (configured.deployed (Nat.le_succ_of_le atMostNine)) aggregates valid ready
    admitted

theorem aggregation_exact_reduceOfTwo :
    Exact 2 twoHosts.context (reduceOfTwo 1) (reduceOfTwoArrivals 1) := by
  have exactly := aggregation_exact twoHosts twoHosts.context (reduceOfTwo 1)
    (reduceOfTwoArrivals 1) (by decide) (by decide) twoHosts.context_configured
    rfl (by decide) twoHosts_ready (reduceOfTwoArrivals_admitted (Or.inl rfl))
  have short : ∀ conn, (reduceData 1 conn).2.dataLen ≤ 1009 := by
    intro conn
    rw [reduceData, Addressing.dataPacket_dataLen
      (by simp [Addressing.IsPlainOpcode]), List.length_replicate]
    decide
  exact exactly.mpr ⟨fun plain => absurd plain.hasImmData (by decide),
    fun _ _ => Or.inl (short 0),
    fun plain => absurd plain.hasImmData (by decide),
    fun _ _ => Or.inl (short 0), fun _ _ => Or.inl (short 1), trivial⟩

/-- 1010 words are one too many for the frame of the result. -/
theorem not_exact_reduceOfTwo :
    ¬∀ (net : HostNet) (ctx : SwitchContext) (streams : Streams)
      (arrivals : List (Nat × Packet)), 2 ≤ net.worldSize →
      net.worldSize ≤ 9 → Configured net ctx →
      streams.operation.aggregates = true →
      streams.operation.Valid net.worldSize →
      Ready net.worldSize streams.base ctx →
      Admits deliver (streams.Allowed net.addressing net.worldSize) ctx
        arrivals →
      Exact net.worldSize ctx streams arrivals := by
  intro always
  have exactly := always twoHosts twoHosts.context (reduceOfTwo 1010)
    (reduceOfTwoArrivals 1010) (by decide) (by decide)
    twoHosts.context_configured rfl (by decide) twoHosts_ready
    (reduceOfTwoArrivals_admitted (Or.inr rfl))
  have same : Exact twoHosts.worldSize twoHosts.context (reduceOfTwo 1010)
        (reduceOfTwoArrivals 1010) ↔
      Admits deliver (Roomy twoHosts.worldSize) twoHosts.context
        (reduceOfTwoArrivals 1010) :=
    Streams.exact_iff_roomy (by decide)
      (twoHosts.context_configured.deployed (by decide)) rfl (by decide)
      twoHosts_ready (reduceOfTwoArrivals_admitted (Or.inr rfl))
  have roomy := same.mp exactly
  obtain ⟨-, -, -, -, last, -⟩ := roomy
  rcases last (reduceOfTwo_data 1010 1).plain (by decide +kernel) with
    short | ⟨-, other, bound, different, behind⟩
  · exact absurd short (by decide +kernel)
  · have first : other = 0 := by
      have otherBound : other < 2 := bound
      have notOne : other ≠ 1 := different
      omega
    rw [first] at behind
    exact absurd behind (by decide +kernel)

end IncEmulation
