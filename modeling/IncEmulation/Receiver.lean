import IncEmulation.HandlerFrame
import IncEmulation.HostPacket
import IncEmulation.Lib.GoBackN

/-!
# The connections as go-back-N receivers

An arrival conforms to go-back-N when a packet in turn takes effect once and any
other packet is only answered.  Data messages are checked against `agg_epsn`,
but the metadata of immediate data is stored before the check and a control
message is not checked at all.  The conforming arrivals are characterised
exactly, for one arrival and for every run.
-/

namespace IncEmulation

open Gather Machine

/-- The packet finds a rule that accepts packets from its connection. -/
def Packet.Matched (ctx : SwitchContext) (conn : Nat) (packet : Packet) :
    Prop :=
  ∃ rule, lookupRule ctx.routingTable packet.srcIp packet.dstIp
      (ctx.lookupKey packet).1 (ctx.lookupKey packet).2 = some rule ∧
    rule.Uplink conn

/-- What the handler does with a data message in turn. -/
def acceptData (ctx : SwitchContext) (rule : Rule) (conn : Nat)
    (packet : Packet) : SwitchContext × List Frame :=
  let sent := aggregate (ctx.bumpAggEpsn conn) rule conn packet.psn
    packet.data packet.dataLen packet.opcode
  (sent.1, acknowledgement conn packet.psn :: sent.2)

/-- The packet is handled as the next one of its connection. -/
inductive TakesEffect (ctx : SwitchContext) (conn : Nat) (packet : Packet) :
    Prop
  | control (isControl : packet.isControlMessage = true)
      (handled : packetHandler ctx conn packet =
        ((ctx.storeMetadata packet).bumpAggEpsn conn,
          [acknowledgement conn packet.psn]))
  | data (rule : Rule) (notControl : packet.isControlMessage = false)
      (handled : packetHandler ctx conn packet =
        acceptData (ctx.storeMetadata packet) rule conn packet)

/-- The packet is answered and changes nothing. -/
structure LeftAlone (ctx : SwitchContext) (conn : Nat) (packet : Packet) :
    Prop where
  aggEpsn : (packetHandler ctx conn packet).1.aggEpsn = ctx.aggEpsn
  operationType :
    (packetHandler ctx conn packet).1.operationType = ctx.operationType
  rootRank : (packetHandler ctx conn packet).1.rootRank = ctx.rootRank
  psnStates : (packetHandler ctx conn packet).1.psnStates = ctx.psnStates
  answer : (packetHandler ctx conn packet).2 =
    if packet.psn < ctx.aggEpsn conn then
      [acknowledgement conn (ctx.aggEpsn conn - 1)]
    else [refusal conn (ctx.aggEpsn conn)]

/-- The arrival is treated as a go-back-N receiver treats it. -/
def Conforms (ctx : SwitchContext) (conn : Nat) (packet : Packet) : Prop :=
  (packet.psn = ctx.aggEpsn conn → TakesEffect ctx conn packet ∧
    (packetHandler ctx conn packet).1.aggEpsn = advance ctx.aggEpsn conn) ∧
  (packet.psn ≠ ctx.aggEpsn conn → LeftAlone ctx conn packet)

/-- The packet is in turn, or it brings no metadata, or it is a data message
whose metadata is in force already. -/
def Harmless (ctx : SwitchContext) (conn : Nat) (packet : Packet) : Prop :=
  packet.psn = ctx.aggEpsn conn ∨ packet.hasImmData = false ∨
    (packet.isControlMessage = false ∧
      packet.announced = (ctx.operationType, ctx.rootRank))

section Arrival

variable {ctx : SwitchContext} {conn : Nat} {packet : Packet}

theorem packetHandler_matched_control (matched : packet.Matched ctx conn)
    (control : packet.isControlMessage = true) :
    packetHandler ctx conn packet =
      ((ctx.storeMetadata packet).bumpAggEpsn conn,
        [acknowledgement conn packet.psn]) := by
  obtain ⟨rule, found, uplink⟩ := matched
  simp only [packetHandler, (storeMetadata_configuration ctx packet).routingTable,
    found, control,
    if_true, handleControlMessage, forwardingAck_ack uplink]

theorem packetHandler_matched_data (matched : packet.Matched ctx conn)
    (isSend : packet.isSend = true)
    (notControl : packet.isControlMessage = false) :
    ∃ rule, rule.Uplink conn ∧
      packetHandler ctx conn packet =
        handleUpstreamData (ctx.storeMetadata packet) rule conn packet := by
  obtain ⟨rule, found, uplink⟩ := matched
  have up : rule.direction ≠ .down := by simp [uplink.direction]
  refine ⟨rule, uplink, ?_⟩
  simp [packetHandler, (storeMetadata_configuration ctx packet).routingTable,
    found, notControl,
    handleByRule, isSend, up]

/-- A packet in turn always takes effect once. -/
theorem takesEffect_of_matched (matched : packet.Matched ctx conn)
    (isSend : packet.isSend = true)
    (inTurn : packet.psn = ctx.aggEpsn conn) :
    TakesEffect ctx conn packet ∧
      (packetHandler ctx conn packet).1.aggEpsn =
        advance ctx.aggEpsn conn := by
  cases control : packet.isControlMessage with
  | true =>
      have handled := packetHandler_matched_control matched control
      refine ⟨.control control handled, ?_⟩
      rw [handled, SwitchContext.bumpAggEpsn_aggEpsn, storeMetadata_aggEpsn]
      rfl
  | false =>
      obtain ⟨rule, uplink, upstream⟩ :=
        packetHandler_matched_data matched isSend control
      have epsn := storeMetadata_aggEpsn ctx packet
      have handled : packetHandler ctx conn packet =
          acceptData (ctx.storeMetadata packet) rule conn packet := by
        rw [upstream, handleUpstreamData, epsn, if_neg (by omega),
          if_neg (by omega), forwardingAck_ack uplink]
        rfl
      refine ⟨.data rule control handled, ?_⟩
      rw [handled]
      simp only [acceptData, (aggregate_undisturbed _ _ _ _ _ _).aggEpsn,
        SwitchContext.bumpAggEpsn_aggEpsn, epsn]
      rfl

/-- A data message out of turn is answered; all it can change is the
metadata. -/
theorem packetHandler_matched_outOfTurn (matched : packet.Matched ctx conn)
    (isSend : packet.isSend = true)
    (notControl : packet.isControlMessage = false)
    (outOfTurn : packet.psn ≠ ctx.aggEpsn conn) :
    packetHandler ctx conn packet =
      (ctx.storeMetadata packet,
        if packet.psn < ctx.aggEpsn conn then
          [acknowledgement conn (ctx.aggEpsn conn - 1)]
        else [refusal conn (ctx.aggEpsn conn)]) := by
  obtain ⟨rule, uplink, upstream⟩ :=
    packetHandler_matched_data matched isSend notControl
  have epsn := storeMetadata_aggEpsn ctx packet
  rw [upstream, handleUpstreamData, epsn]
  by_cases stale : packet.psn < ctx.aggEpsn conn
  · rw [if_pos stale, if_pos stale, forwardingAck_ack uplink]
  · rw [if_neg stale, if_neg stale, if_pos (by omega),
      forwardingAck_nak uplink]

/-- Exactly the harmless arrivals conform. -/
theorem conforms_iff_harmless (matched : packet.Matched ctx conn)
    (isSend : packet.isSend = true) :
    Conforms ctx conn packet ↔ Harmless ctx conn packet := by
  constructor
  · rintro ⟨-, outside⟩
    by_cases inTurn : packet.psn = ctx.aggEpsn conn
    · exact Or.inl inTurn
    · have alone := outside inTurn
      refine Or.inr ?_
      cases immediate : packet.hasImmData with
      | false => exact Or.inl rfl
      | true =>
          cases control : packet.isControlMessage with
          | true =>
              have moved := congrFun alone.aggEpsn conn
              rw [packetHandler_matched_control matched control,
                SwitchContext.bumpAggEpsn_aggEpsn, storeMetadata_aggEpsn,
                Function.update_self] at moved
              omega
          | false =>
              have handled := packetHandler_matched_outOfTurn matched isSend
                control inTurn
              have sameType := alone.operationType
              have sameRoot := alone.rootRank
              rw [handled] at sameType sameRoot
              simp only [SwitchContext.storeMetadata, immediate, if_true]
                at sameType sameRoot
              exact Or.inr ⟨rfl, Prod.ext sameType sameRoot⟩
  · intro harmless
    refine ⟨takesEffect_of_matched matched isSend, fun outOfTurn => ?_⟩
    have notControl : packet.isControlMessage = false := by
      rcases harmless with inTurn | noImmediate | ⟨notControl, -⟩
      · exact absurd inTurn outOfTurn
      · by_contra control
        simp only [Bool.not_eq_false] at control
        have immediate := Packet.hasImmData_of_isControlMessage control
        rw [noImmediate] at immediate
        cases immediate
      · exact notControl
    have handled := packetHandler_matched_outOfTurn matched isSend notControl
      outOfTurn
    have sameMetadata :
        (ctx.storeMetadata packet).operationType = ctx.operationType ∧
          (ctx.storeMetadata packet).rootRank = ctx.rootRank := by
      rcases harmless with inTurn | noImmediate | ⟨-, inForce⟩
      · exact absurd inTurn outOfTurn
      · simp [SwitchContext.storeMetadata, noImmediate]
      · by_cases immediate : packet.hasImmData = true
        · simp only [SwitchContext.storeMetadata, immediate, if_true]
          exact ⟨congrArg Prod.fst inForce, congrArg Prod.snd inForce⟩
        · simp [SwitchContext.storeMetadata, immediate]
    refine ⟨?_, ?_, ?_, ?_, ?_⟩ <;> rw [handled]
    · exact storeMetadata_aggEpsn _ packet
    · exact sameMetadata.1
    · exact sameMetadata.2
    · rw [SwitchContext.storeMetadata]
      split_ifs <;> rfl

end Arrival

theorem Packet.Announces.matched {addressing : Addressing} {hosts conn : Nat}
    {ctx : SwitchContext} {packet : Packet} {operation : Collective}
    (announces : packet.Announces operation)
    (deployed : Deployed addressing hosts ctx) (bound : conn < hosts)
    (origin : packet.From addressing conn)
    (admissible : operation.Admissible hosts conn) :
    packet.Matched ctx conn := by
  obtain ⟨rule, found, uplink, -⟩ := deployed.lookupRule bound admissible
  have immediate := Packet.hasImmData_of_isControlMessage announces.control
  refine ⟨rule, ?_, uplink⟩
  simpa only [SwitchContext.lookupKey, immediate, if_true,
    announces.announced, origin.srcIp, origin.dstIp] using found

theorem Packet.Plain.matched {addressing : Addressing} {hosts conn : Nat}
    {ctx : SwitchContext} {packet : Packet} {operation : Collective}
    (plain : packet.Plain) (deployed : Deployed addressing hosts ctx)
    (bound : conn < hosts) (origin : packet.From addressing conn)
    (inForce : ctx.InForce operation)
    (admissible : operation.Admissible hosts conn) :
    packet.Matched ctx conn := by
  obtain ⟨rule, found, uplink, -⟩ := deployed.lookupRule bound admissible
  have key : (ctx.operationType, ctx.rootRank) = operation.metadata := inForce
  refine ⟨rule, ?_, uplink⟩
  simpa only [SwitchContext.lookupKey, plain.hasImmData, Bool.false_eq_true,
    if_false, key, origin.srcIp, origin.dstIp] using found

/-- An arrival on the switch: packet `k` of the stream under study, or any
packet on another connection. -/
inductive StreamArrival where
  | own (k : Nat)
  | foreign (conn : Nat) (packet : Packet)
  deriving DecidableEq, Repr

section Run

variable (conn : Nat) (stream : Nat → Packet)

/-- Handle an arrival and report the number of the packet if it moved
`agg_epsn`. -/
def handleArrival (ctx : SwitchContext) :
    StreamArrival → SwitchContext × List Nat
  | .own k =>
      let after := (packetHandler ctx conn (stream k)).1
      (after, if after.aggEpsn conn = ctx.aggEpsn conn then [] else [k])
  | .foreign other packet => ((packetHandler ctx other packet).1, [])

/-- A property of the arrivals on the connection under study. -/
def OnOwn (property : SwitchContext → Nat → Packet → Prop)
    (ctx : SwitchContext) : StreamArrival → Prop
  | .own k => property ctx conn (stream k)
  | .foreign _ _ => True

/-- Every arrival conforms, and the packets that took effect are a prefix of the
stream. -/
def ReceivesGoBackN (ctx : SwitchContext) (arrivals : List StreamArrival) :
    Prop :=
  Admits (handleArrival conn stream) (OnOwn conn stream Conforms) ctx
      arrivals ∧
    (feed (handleArrival conn stream) ctx arrivals).2 =
      List.range
        ((feed (handleArrival conn stream) ctx arrivals).1.aggEpsn conn)

/-- The arrivals that can happen on the connection. -/
def Arrives (count : Nat) (ctx : SwitchContext) : StreamArrival → Prop
  | .own k => k < count ∧ (stream k).Matched ctx conn
  | .foreign other _ => other ≠ conn

variable {conn stream}

theorem takes_of_conforms {count : Nat} (psn : ∀ k < count, (stream k).psn = k)
    {ctx : SwitchContext} {arrival : StreamArrival}
    (arrives : Arrives conn stream count ctx arrival)
    (conforms : OnOwn conn stream Conforms ctx arrival) :
    GoBackN.Takes (fun ctx : SwitchContext => ctx.aggEpsn conn) ctx
      (handleArrival conn stream ctx arrival).1
      (handleArrival conn stream ctx arrival).2 := by
  cases arrival with
  | own k =>
      obtain ⟨inStream, -⟩ := arrives
      by_cases inTurn : (stream k).psn = ctx.aggEpsn conn
      · have moved := (conforms.1 inTurn).2
        have number : k = ctx.aggEpsn conn := by rw [← inTurn, psn k inStream]
        refine Or.inr ⟨?_, ?_⟩
        · simp only [handleArrival, moved, advance_self, ← number]
          simp
        · simp only [handleArrival, moved, advance_self]
      · have same := (conforms.2 inTurn).aggEpsn
        refine Or.inl ⟨?_, ?_⟩ <;> simp only [handleArrival, same, if_true]
  | foreign other packet =>
      exact Or.inl ⟨rfl, packetHandler_aggEpsn_of_ne packet arrives.symm⟩

end Run

/-- Over every run the connection is a go-back-N receiver exactly when every
arrival on it is harmless. -/
theorem receivesGoBackN_iff (conn count : Nat) (stream : Nat → Packet)
    (ctx : SwitchContext) (arrivals : List StreamArrival)
    (psn : ∀ k < count, (stream k).psn = k)
    (isSend : ∀ k < count, (stream k).isSend = true)
    (fresh : ctx.aggEpsn conn = 0)
    (arrive : Admits (handleArrival conn stream) (Arrives conn stream count)
      ctx arrivals) :
    ReceivesGoBackN conn stream ctx arrivals ↔
      Admits (handleArrival conn stream) (OnOwn conn stream Harmless) ctx
        arrivals := by
  have agree (ctx : SwitchContext) (arrival : StreamArrival)
      (arrives : Arrives conn stream count ctx arrival) :
      OnOwn conn stream Conforms ctx arrival ↔
        OnOwn conn stream Harmless ctx arrival := by
    cases arrival with
    | own k => exact conforms_iff_harmless arrives.2 (isSend k arrives.1)
    | foreign other packet => exact Iff.rfl
  have pointwise := admits_congr_of agree arrive
  constructor
  · rintro ⟨conforms, -⟩
    exact pointwise.mp conforms
  · intro harmless
    have conforms := pointwise.mpr harmless
    refine ⟨conforms, ?_⟩
    exact GoBackN.feed_eq_range
      (fun _ _ condition => takes_of_conforms psn condition.1 condition.2)
      fresh (arrive.and conforms)

/-- Rank 0 of two hosts announces an AllReduce and sends words after it. -/
def announcedStream (k : Nat) : Packet :=
  if k = 0 then twoHosts.addressing.controlPacket 0 0 .allreduce 0
  else twoHosts.addressing.dataPacket 0 k rdmaOpcodeSendOnly [htonl 7]

theorem announcedStream_zero : (announcedStream 0).Announces .allreduce :=
  Addressing.controlPacket_announces (show 2 ≤ maxConnectionsNum by decide)
    (by decide) trivial

/-- A packet is lost, one arrives early and one twice. -/
theorem receivesGoBackN_iff_announcedStream :
    ReceivesGoBackN 0 announcedStream twoHosts.context
        [.own 0, .own 2, .own 1, .own 1] ↔
      Admits (handleArrival 0 announcedStream)
        (OnOwn 0 announcedStream Harmless) twoHosts.context
        [.own 0, .own 2, .own 1, .own 1] := by
  have deployed := twoHosts.context_configured.deployed (by decide)
  have matched : ∀ ctx : SwitchContext,
      Deployed twoHosts.addressing 2 ctx → ctx.InForce .allreduce →
        ∀ k, k ≠ 0 → (announcedStream k).Matched ctx 0 := by
    intro ctx ctxDeployed inForce k later
    have plain : (announcedStream k).Plain := by
      simp only [announcedStream, later, if_false]
      exact ⟨rfl, rfl⟩
    have origin : (announcedStream k).From twoHosts.addressing 0 := by
      simp only [announcedStream, later, if_false]
      exact ⟨rfl, rfl⟩
    exact plain.matched ctxDeployed (by decide) origin inForce trivial
  refine receivesGoBackN_iff 0 3 announcedStream twoHosts.context _
    (by decide +kernel) (by decide +kernel) rfl ⟨⟨by decide, ?_⟩, ⟨by decide, ?_⟩,
      ⟨by decide, ?_⟩, ⟨by decide, ?_⟩, trivial⟩
  · exact announcedStream_zero.matched deployed (by decide) ⟨rfl, rfl⟩ trivial
  all_goals
    exact matched _ (deployed.congr ⟨rfl, rfl, rfl, rfl⟩) rfl _ (by decide)

/-- A retransmitted control message advances `agg_epsn` a second time. -/
theorem not_receivesGoBackN_repeated_control :
    Admits (handleArrival 0 announcedStream) (Arrives 0 announcedStream 1)
        twoHosts.context [.own 0, .own 0] ∧
      ¬ReceivesGoBackN 0 announcedStream twoHosts.context
        [.own 0, .own 0] := by
  have deployed := twoHosts.context_configured.deployed (by decide)
  have again : Deployed twoHosts.addressing 2
      (handleArrival 0 announcedStream twoHosts.context (.own 0)).1 :=
    deployed.congr ⟨rfl, rfl, rfl, rfl⟩
  refine ⟨⟨⟨by decide, ?_⟩, ⟨by decide, ?_⟩, trivial⟩, ?_⟩
  · exact announcedStream_zero.matched deployed (by decide) ⟨rfl, rfl⟩ trivial
  · exact announcedStream_zero.matched again (by decide) ⟨rfl, rfl⟩ trivial
  · rintro ⟨-, prefixed⟩
    revert prefixed
    decide +kernel

end IncEmulation
