import Mathlib
import IncEmulation.Alike
import IncEmulation.Configuration

/-!
# A reconfigured switch and a fresh one

`parse_yaml_config` resets the PSN states before it reads the new configuration,
but the reset leaves `send_psn` and the contents of the slot buffers as they
were.  A switch behaves like a fresh one after every configuration exactly when
both were zero before it.  A stale word of a buffer is seen when the second
contribution to its slot is longer than the first.
-/

namespace IncEmulation

open Machine

/-- A context after `switch_context_init`, with the same `is_root`. -/
def SwitchContext.freshLike (ctx : SwitchContext) : SwitchContext :=
  { switchContextInit ctx.switchId with isRoot := ctx.isRoot }

/-- After the configuration the switch sends the same frames as a fresh one, and
every PSN counter is back at zero. -/
structure LikeFresh (reader : YamlReader) (ctx : SwitchContext)
    (document : Option YamlNode) : Prop where
  sameFrames : ∀ arrivals,
    (feed deliver (reader.parseYamlConfig ctx document).1 arrivals).2 =
      (feed deliver (reader.parseYamlConfig ctx.freshLike document).1
        arrivals).2
  aggEpsn : ∀ conn, (reader.parseYamlConfig ctx document).1.aggEpsn conn = 0
  downEpsn : (reader.parseYamlConfig ctx document).1.downEpsn = 0
  latestAck : ∀ conn,
    (reader.parseYamlConfig ctx document).1.latestAck conn = 0
  downAck : (reader.parseYamlConfig ctx document).1.downAck = 0
  sendPsn : ∀ conn, (reader.parseYamlConfig ctx document).1.sendPsn conn = 0

/-- Nothing the reset forgets has been used. -/
structure Untouched (ctx : SwitchContext) : Prop where
  sendPsn : ∀ conn, ctx.sendPsn conn = 0
  buffer : ∀ slot < switchArrayLength, ∀ index,
    (ctx.psnStates slot).aggBuffer.buffer index = 0

section Parse

variable {reader : YamlReader} {ctx : SwitchContext}

theorem parseConnectionNodes_shape (index : Nat) (nodes : List YamlNode) :
    ∃ (conns : Nat → Connection) (fanIn : Nat) (rankToConn : Int → Int),
      (reader.parseConnectionNodes ctx index nodes).1 =
        { ctx with
          conns := conns
          fanIn := fanIn
          rankToConn := rankToConn } := by
  induction nodes generalizing ctx index with
  | nil => exact ⟨ctx.conns, index, ctx.rankToConn, rfl⟩
  | cons node nodes induction =>
      simp only [YamlReader.parseConnectionNodes]
      split_ifs
      · exact ⟨ctx.conns, index, ctx.rankToConn, rfl⟩
      · exact ⟨ctx.conns, ctx.fanIn, ctx.rankToConn, rfl⟩
      · obtain ⟨conns, fanIn, rankToConn, parsed⟩ := induction (index + 1)
        exact ⟨conns, fanIn, rankToConn, parsed⟩

theorem parseConnections_shape (connections : Option YamlNode) :
    ∃ (conns : Nat → Connection) (fanIn : Nat) (rankToConn : Int → Int),
      (reader.parseConnections ctx connections).1 =
        { ctx with
          conns := conns
          fanIn := fanIn
          rankToConn := rankToConn } := by
  unfold YamlReader.parseConnections
  split
  · exact ⟨ctx.conns, ctx.fanIn, ctx.rankToConn, rfl⟩
  · exact parseConnectionNodes_shape 0 _

theorem parseRules_shape (rules : Option YamlNode) :
    ∃ table : RuleTable,
      (reader.parseRules ctx rules).1 = { ctx with routingTable := table } := by
  have loop : ∀ (nodes : List YamlNode) (ctx : SwitchContext),
      ∃ table : RuleTable, (reader.parseRuleNodes ctx nodes).1 =
        { ctx with routingTable := table } := by
    intro nodes
    induction nodes with
    | nil => exact fun ctx => ⟨ctx.routingTable, rfl⟩
    | cons node nodes induction =>
        intro ctx
        simp only [YamlReader.parseRuleNodes]
        split_ifs
        · exact ⟨ctx.routingTable, rfl⟩
        · exact ⟨ctx.routingTable, rfl⟩
        · obtain ⟨table, parsed⟩ := induction
            { ctx with
              routingTable :=
                { rules := ctx.routingTable.rules ++ [reader.ruleOf node] } }
          exact ⟨table, parsed⟩
  unfold YamlReader.parseRules
  split
  · exact ⟨ctx.routingTable, rfl⟩
  · exact loop _ ctx

/-- Behind the reset only the configuration is written. -/
theorem parseSwitchNode_shape (node : YamlNode) :
    ∃ (conns : Nat → Connection) (fanIn : Nat) (rankToConn : Int → Int)
      (table : RuleTable),
      (reader.parseSwitchNode ctx node).1 =
        { switchContextResetPsnStates (YamlReader.clearConfig ctx) with
          conns := conns
          fanIn := fanIn
          rankToConn := rankToConn
          routingTable := table } := by
  obtain ⟨conns, fanIn, rankToConn, connected⟩ := parseConnections_shape
    (node.get "connections")
  unfold YamlReader.parseSwitchNode
  dsimp only
  split_ifs
  · obtain ⟨table, ruled⟩ := parseRules_shape
      (node.get "rules")
    refine ⟨conns, fanIn, rankToConn, table, ?_⟩
    rw [ruled, connected]
  · refine ⟨conns, fanIn, rankToConn, { rules := [] }, ?_⟩
    rw [connected]
    rfl

/-- A successful parse has gone through the reset. -/
theorem parseYamlConfig_shape {document : Option YamlNode}
    (success : (reader.parseYamlConfig ctx document).2 = true) :
    ∃ (conns : Nat → Connection) (fanIn : Nat) (rankToConn : Int → Int)
      (table : RuleTable) (switchId : Int),
      (reader.parseYamlConfig ctx document).1 =
        { switchContextResetPsnStates (YamlReader.clearConfig ctx) with
          switchId := switchId
          conns := conns
          fanIn := fanIn
          rankToConn := rankToConn
          routingTable := table } := by
  unfold YamlReader.parseYamlConfig at success ⊢
  split at success
  · cases success
  · split_ifs at success ⊢
    split at success
    · cases success
    · split_ifs at success ⊢
      split at success
      · obtain ⟨conns, fanIn, rankToConn, table, parsed⟩ :=
          parseSwitchNode_shape _
        exact ⟨conns, fanIn, rankToConn, table, ctx.switchId, parsed⟩
      · split at success
        · cases success
        · rename_i switchId _
          obtain ⟨conns, fanIn, rankToConn, table, parsed⟩ :=
            parseSwitchNode_shape
              _
          exact ⟨conns, fanIn, rankToConn, table, switchId, parsed⟩

/-- Two switches the reset leaves alike are alike after the same document. -/
theorem parseYamlConfig_alike {left right : SwitchContext}
    (resetAlike : (switchContextResetPsnStates
        (YamlReader.clearConfig left)).Alike
      (switchContextResetPsnStates (YamlReader.clearConfig right)))
    {document : Option YamlNode}
    (success : (reader.parseYamlConfig left document).2 = true) :
    (reader.parseYamlConfig left document).1.Alike
      (reader.parseYamlConfig right document).1 := by
  have renamed : ∀ leftId rightId : Int,
      (switchContextResetPsnStates
          (YamlReader.clearConfig { left with switchId := leftId })).Alike
        (switchContextResetPsnStates
          (YamlReader.clearConfig { right with switchId := rightId })) :=
    fun _ _ => { resetAlike with conns := rfl }
  unfold YamlReader.parseYamlConfig at success ⊢
  split at success
  · cases success
  · split_ifs at success ⊢
    split at success
    · cases success
    · split_ifs at success ⊢
      split at success
      · exact parseConnections_parseRules_alike resetAlike _ _
      · split at success
        · cases success
        · exact parseConnections_parseRules_alike (renamed _ _) _ _

/-- An untouched switch and a fresh one differ in nothing after the reset. -/
theorem Untouched.alike (untouched : Untouched ctx) :
    (switchContextResetPsnStates (YamlReader.clearConfig ctx)).Alike
      (switchContextResetPsnStates
        (YamlReader.clearConfig ctx.freshLike)) where
  psnStates := by
    intro slot bound
    refine ⟨rfl, rfl, ?_, rfl, rfl, rfl, rfl⟩
    funext index
    exact untouched.buffer slot bound index
  conns := rfl
  fanIn := rfl
  isRoot := rfl
  aggEpsn := rfl
  downEpsn := rfl
  latestAck := rfl
  downAck := rfl
  sendPsn := funext untouched.sendPsn
  routingTable := rfl
  rankToConn := rfl
  operationType := rfl
  rootRank := rfl

theorem Untouched.likeFresh (untouched : Untouched ctx)
    {document : Option YamlNode}
    (success : (reader.parseYamlConfig ctx document).2 = true) :
    LikeFresh reader ctx document := by
  have alike := parseYamlConfig_alike untouched.alike success
  obtain ⟨conns, fanIn, rankToConn, table, switchId, parsed⟩ :=
    parseYamlConfig_shape success
  refine ⟨alike.sameFrames, ?_, ?_, ?_, ?_, ?_⟩ <;> rw [parsed]
  · exact fun _ => rfl
  · rfl
  · exact fun _ => rfl
  · rfl
  · exact untouched.sendPsn

/-- A document that configures no connection at all. -/
def emptyDocument : Option YamlNode :=
  some (.map [("switch", .map [("connections", .sequence [])])])

theorem parseYamlConfig_emptyDocument :
    (reader.parseYamlConfig ctx emptyDocument).2 = true ∧
      (reader.parseYamlConfig ctx emptyDocument).1.sendPsn = ctx.sendPsn := by
  constructor <;>
  simp [emptyDocument, YamlReader.parseYamlConfig, YamlNode.subscriptThrows,
    YamlNode.get, YamlReader.parseSwitchNode, YamlReader.parseConnections,
    YamlNode.items?, YamlReader.parseConnectionNodes, YamlReader.parseRules,
    switchContextResetPsnStates, YamlReader.clearConfig]

end Parse

section Probe

/-- Arrivals that show word `word` of slot `slot`: both hosts announce an
AllReduce until the slot is their turn; then rank 0 contributes nothing to it
and rank 1 contributes zeros up to the word. -/
def probeControls (conn slot : Nat) : List (Nat × Packet) :=
  List.replicate slot
    (conn, twoHosts.addressing.controlPacket conn 0 .allreduce 0)

def probeData (conn slot words : Nat) : Packet :=
  twoHosts.addressing.dataPacket conn slot rdmaOpcodeSendOnly
    (List.replicate words 0)

def probeContributions (slot word : Nat) : List (Nat × Packet) :=
  [(0, probeData 0 slot 0), (1, probeData 1 slot (word + 1))]

def probe (slot word : Nat) : List (Nat × Packet) :=
  probeControls 0 slot ++ (probeControls 1 slot ++
    probeContributions slot word)

/-- The word a run shows in its first data frame. -/
def shownWord (frames : List Frame) (word : Nat) : Option Word :=
  (dataFrames frames).head?.map fun frame => frame.data.getD word 0

/-- A two-host switch on its way to the slot under study. -/
structure Probing (states : Nat → PsnState) (progress : Nat → Nat)
    (ctx : SwitchContext) : Prop where
  routed : Routed twoHosts.addressing 2 ctx
  inForce : ctx.InForce .allreduce
  psnStates : ctx.psnStates = states
  aggEpsn : ctx.aggEpsn = progress

variable {states : Nat → PsnState} {progress : Nat → Nat} {slot word : Nat}
  {ctx : SwitchContext}

/-- Control messages only move the receive PSN. -/
theorem Probing.controls {conn : Nat} (bound : conn < 2)
    (probing : Probing states progress ctx) (slot : Nat) :
    Probing states (fun other => progress other + if other = conn then slot
        else 0) (feed deliver ctx (probeControls conn slot)).1 ∧
      dataFrames (feed deliver ctx (probeControls conn slot)).2 = [] := by
  induction slot generalizing progress ctx with
  | zero => exact ⟨by simpa [probeControls] using probing, rfl⟩
  | succ slot induction =>
      have handled : deliver ctx
          (conn, twoHosts.addressing.controlPacket conn 0 .allreduce 0) =
          _ :=
        packetHandler_control probing.routed bound
          Addressing.controlPacket_from
          (show Collective.allreduce.Admissible 2 conn from trivial)
          (Addressing.controlPacket_announces (by decide) bound
            trivial)
      have next : Probing states
          (fun other => progress other + if other = conn then 1 else 0)
          (deliver ctx (conn, twoHosts.addressing.controlPacket conn 0
            .allreduce 0)).1 := by
        rw [handled]
        refine ⟨probing.routed.congr ⟨rfl, rfl, rfl, rfl⟩, rfl,
          probing.psnStates, ?_⟩
        funext other
        by_cases same : other = conn
        · simp [SwitchContext.afterControl, same, probing.aggEpsn]
        · simp [SwitchContext.afterControl, same, probing.aggEpsn]
      obtain ⟨rest, silent⟩ := induction next
      have total : (fun other => (progress other +
            if other = conn then 1 else 0) +
              if other = conn then slot else 0) =
          fun other => progress other + if other = conn then slot + 1
            else 0 := by
        funext other
        split_ifs <;> omega
      rw [total] at rest
      refine ⟨rest, ?_⟩
      rw [probeControls, List.replicate_succ, feed_cons]
      simp only [dataFrames, List.filter_append, List.append_eq_nil_iff]
      refine ⟨?_, silent⟩
      rw [handled]
      rfl

theorem probeData_plain (conn slot words : Nat) :
    (probeData conn slot words).Plain :=
  Addressing.dataPacket_plain (Or.inr (Or.inr (Or.inr rfl)))

theorem probeData_psn {conn words : Nat} (bound : slot < switchArrayLength) :
    (probeData conn slot words).psn = slot := by
  rw [probeData, Addressing.dataPacket_psn]
  simp only [switchArrayLength] at bound
  omega

theorem probeData_dataLen (conn slot words : Nat) :
    (probeData conn slot words).dataLen = words := by
  rw [probeData,
    Addressing.dataPacket_dataLen (Or.inr (Or.inr (Or.inr rfl))),
    List.length_replicate]

/-- Adding nothing and then zeros leaves the stale word. -/
theorem contribution_stale {first second : SwitchContext}
    (bound : slot < switchArrayLength)
    (idle : (first.psnStates slot).degree = 0)
    (reached : second.psnStates slot =
      first.contribution .allreduce 0 (probeData 0 slot 0))
    (word : Nat) :
    let state := second.contribution .allreduce 1 (probeData 1 slot (word + 1))
    state.degree = 2 ∧ state.aggBuffer.buffer word =
      (first.psnStates slot).aggBuffer.buffer word := by
  have here : idx slot = slot := Nat.mod_eq_of_lt bound
  have zero : (probeData 1 slot (word + 1)).data word = 0 := by
    have noImmediate := (probeData_plain 1 slot (word + 1)).hasImmData
    simp only [Packet.data, noImmediate, Packet.bodyWord, Bool.false_eq_true,
      if_false, Nat.add_zero]
    simp [probeData, Addressing.dataPacket, List.getD_eq_getElem?_getD]
  have covered : (word : Int) < (word + 1 : Nat) := by omega
  have stale : ((first.psnStates slot).aggBuffer.buffer word) =
      htonl (ntohl ((first.psnStates slot).aggBuffer.buffer word) +
        ntohl 0) := by
    have nothing : ntohl 0 = 0 := by decide
    rw [nothing, add_zero, htonl_ntohl]
  simp only [SwitchContext.contribution, probeData_psn bound, here] at reached
  simp only [SwitchContext.contribution, probeData_psn bound, here, reached,
    probeData_dataLen]
  constructor
  · simp [PsnState.accumulate, idle]
  · have nothing : ¬(word : Int) < (0 : Nat) := by omega
    simp only [PsnState.accumulate, idle, if_true, Nat.zero_add,
      Nat.one_ne_zero, if_false, copyWords, covered, nothing, zero]
    exact stale.symm

theorem shownWord_results {frames : List Frame} {data : Nat → Word}
    {psn : Nat → Nat} {opcode : Opcode} (acknowledged : Frame)
    (isAck : acknowledged.type = .ack)
    (sent : frames = acknowledged :: (List.range 2).map fun conn =>
      sendPacket conn .data data (word + 1 : Nat) (psn conn) opcode) :
    shownWord frames word = some (data word) := by
  rw [sent]
  simp [shownWord, dataFrames, isAck, sendPacket, List.range_succ,
    List.getD_eq_getElem?_getD]

/-- A completed AllReduce sends its result to both hosts, from a root switch
and from any other. -/
theorem completeAggregation_sends {rule : Rule} {rootRank : Int} {psn : Nat}
    {data : Nat → Word} {len : Int} {opcode : Opcode}
    (routed : Routed twoHosts.addressing 2 ctx)
    (outConns : rule.outConns = List.range 2) :
    ∃ sendPsn : Nat → Nat,
      (completeAggregation ctx rule .allreduce rootRank psn data len
          opcode).2 =
        (List.range 2).map fun conn => sendPacket conn .data data len
          (sendPsn conn) (stripImmediateOpcode opcode) := by
  cases isRoot : ctx.isRoot with
  | true =>
      refine ⟨ctx.sendPsn, ?_⟩
      simp only [completeAggregation, isRoot, if_true,
        cacheAndBroadcast_eq routed.fanIn outConns]
      rfl
  | false =>
      refine ⟨fun _ => psn, ?_⟩
      simp [completeAggregation, isRoot, forwarding, outConns]

/-- The two contributions make the switch show the stale word. -/
theorem Probing.exposed (probing : Probing states progress ctx)
    (first : progress 0 = slot) (second : progress 1 = slot)
    (bound : slot < switchArrayLength) (idle : (states slot).degree = 0) :
    shownWord (feed deliver ctx (probeContributions slot word)).2 word =
      some ((states slot).aggBuffer.buffer word) := by
  have here : idx slot = slot := Nat.mod_eq_of_lt bound
  have slotIdle : (ctx.psnStates slot).degree = 0 := by
    rw [probing.psnStates, idle]
  have firstHandled : deliver ctx (0, probeData 0 slot 0) = _ :=
    packetHandler_incomplete probing.routed (show 0 < 2 by decide)
      Addressing.dataPacket_from
      (show Collective.allreduce.Admissible 2 0 from trivial) rfl
      probing.inForce (probeData_plain 0 slot 0)
      (by rw [probeData_psn bound, probing.aggEpsn, first])
      (by rw [probeData_psn bound, here, slotIdle]; decide)
  have routed : Routed twoHosts.addressing 2
      (ctx.afterContribution .allreduce 0 (probeData 0 slot 0)) :=
    probing.routed.congr ⟨rfl, rfl, rfl, rfl⟩
  obtain ⟨rule, outConns, secondHandled⟩ := packetHandler_aggregate
    routed (show 1 < 2 by decide)
    (show (probeData 1 slot (word + 1)).From _ 1 from
      Addressing.dataPacket_from)
    (show Collective.allreduce.Admissible 2 1 from trivial) rfl
    probing.inForce (probeData_plain 1 slot (word + 1)) (by
      rw [probeData_psn bound]
      have other : (ctx.bumpAggEpsn 0).aggEpsn 1 = ctx.aggEpsn 1 := by simp
      exact (other.trans (by rw [probing.aggEpsn, second])).symm)
  have reached : (ctx.afterContribution .allreduce 0
      (probeData 0 slot 0)).psnStates slot =
      ctx.contribution .allreduce 0 (probeData 0 slot 0) := by
    simp [SwitchContext.afterContribution, probeData_psn bound, here]
  obtain ⟨full, shown⟩ := contribution_stale bound slotIdle reached word
  simp only [full, if_true, probeData_dataLen] at secondHandled
  rw [probing.psnStates] at shown
  have outputs : (feed deliver ctx (probeContributions slot word)).2 =
      acknowledgement 0 (probeData 0 slot 0).psn ::
        (packetHandler (ctx.afterContribution .allreduce 0
          (probeData 0 slot 0)) 1 (probeData 1 slot (word + 1))).2 := by
    simp only [probeContributions, feed_cons, firstHandled, feed_nil]
    simp [deliver]
  have skip : ∀ frames : List Frame,
      shownWord (acknowledgement 0 (probeData 0 slot 0).psn :: frames) word =
        shownWord frames word := fun frames => by
    rw [shownWord, Aggregating.dataFrames_cons_acknowledgement, shownWord]
  have twice : Routed twoHosts.addressing 2 ((ctx.afterContribution .allreduce
      0 (probeData 0 slot 0)).afterContribution .allreduce 1
        (probeData 1 slot (word + 1))) :=
    routed.congr ⟨rfl, rfl, rfl, rfl⟩
  obtain ⟨sendPsn, sent⟩ := completeAggregation_sends twice (outConns rfl)
  rw [outputs, skip, secondHandled, ← shown]
  exact shownWord_results (acknowledgement 1 _) rfl
    (congrArg (List.cons _) sent)

theorem shownWord_probe (routed : Routed twoHosts.addressing 2 ctx)
    (inForce : ctx.InForce .allreduce) (fresh : ctx.aggEpsn = fun _ => 0)
    (bound : slot < switchArrayLength)
    (idle : (ctx.psnStates slot).degree = 0) :
    shownWord (feed deliver ctx (probe slot word)).2 word =
      some ((ctx.psnStates slot).aggBuffer.buffer word) := by
  have start : Probing ctx.psnStates (fun _ => 0) ctx :=
    ⟨routed, inForce, rfl, fresh⟩
  obtain ⟨middle, firstSilent⟩ := start.controls (show 0 < 2 by decide) slot
  obtain ⟨final, secondSilent⟩ := middle.controls (show 1 < 2 by decide) slot
  have shown : shownWord _ word = _ :=
    final.exposed (by simp) (by simp) bound idle
  rw [← shown, probe, feed_append, feed_append]
  simp only [shownWord, dataFrames, List.filter_append] at *
  rw [firstSilent, secondSilent, List.nil_append, List.nil_append]

end Probe

section Characterisation

variable {reader : YamlReader} {ctx : SwitchContext}

theorem parsed_twoHosts (reads : reader.Reads) :
    ∃ parsed : SwitchContext,
      reader.parseYamlConfig ctx (twoHosts.document 0) = (parsed, true) ∧
      Routed twoHosts.addressing 2 parsed ∧ parsed.InForce .allreduce ∧
      (parsed.aggEpsn = fun _ => 0) ∧
      ∀ slot, parsed.psnStates slot = (ctx.psnStates slot).reset := by
  obtain ⟨conns, rankToConn, ranks, parsed⟩ := parseYamlConfig_document
    reads (show twoHosts.worldSize ≤ 9 by decide)
    (show FitsInt 0 from fitsInt_of_small (by decide) (by decide)) ctx
  have routed := (twoHosts.context_configured.deployed (by decide)).toRouted
  refine ⟨_, parsed, ?_, rfl, rfl, fun _ => rfl⟩
  exact { routed with rankToConn := ranks }

/-- A stale word is seen by the probe after the document for two hosts. -/
theorem LikeFresh.buffer_eq_zero (reads : reader.Reads)
    (likeFresh : LikeFresh reader ctx (twoHosts.document 0)) {slot : Nat}
    (bound : slot < switchArrayLength) (index : Nat) :
    (ctx.psnStates slot).aggBuffer.buffer index = 0 := by
  obtain ⟨used, usedParsed, usedRouted, usedInForce, usedEpsn, usedStates⟩ :=
    parsed_twoHosts reads
  obtain ⟨fresh, freshParsed, freshRouted, freshInForce, freshEpsn,
    freshStates⟩ := parsed_twoHosts reads
  have same := likeFresh.sameFrames (probe slot index)
  rw [usedParsed, freshParsed] at same
  have usedShows : shownWord _ index = _ := shownWord_probe usedRouted
    usedInForce usedEpsn bound (by rw [usedStates]; rfl)
  have freshShows : shownWord _ index = _ := shownWord_probe freshRouted
    freshInForce freshEpsn bound (by rw [freshStates]; rfl)
  rw [same, freshShows, usedStates, freshStates] at usedShows
  exact (Option.some.inj usedShows).symm

end Characterisation

/-- A used switch behaves like a fresh one after every configuration exactly
when nothing the reset forgets has been used. -/
theorem likeFresh_iff_untouched {reader : YamlReader} (reads : reader.Reads)
    (ctx : SwitchContext) :
    (∀ document, (reader.parseYamlConfig ctx document).2 = true →
        LikeFresh reader ctx document) ↔ Untouched ctx := by
  constructor
  · intro always
    obtain ⟨success, unchanged⟩ :=
      parseYamlConfig_emptyDocument
    obtain ⟨parsed, configured, -⟩ := parsed_twoHosts reads
    refine ⟨fun conn => ?_, fun slot bound index => ?_⟩
    · rw [← unchanged]
      exact (always emptyDocument success).sendPsn conn
    · exact (always _ (by rw [configured])).buffer_eq_zero reads bound index
  · exact fun untouched document success => untouched.likeFresh success

/-- A fresh root switch with the configuration of two hosts. -/
def configuredSwitch : SwitchContext :=
  (plainReader.parseYamlConfig { switchContextInit 0 with isRoot := true }
    (twoHosts.document 0)).1

/-- Rank 0 announces a Broadcast. -/
def announcement : Packet :=
  twoHosts.addressing.controlPacket 0 0 (.broadcast 0) 0

/-- The switch once rank 0 has announced a Broadcast. -/
def afterAnnouncement : SwitchContext :=
  (feed deliver configuredSwitch [(0, announcement)]).1

/-- The switch of two hosts after a Broadcast of one word by rank 0. -/
def afterBroadcast : SwitchContext :=
  (feed deliver
    (plainReader.parseYamlConfig { switchContextInit 0 with isRoot := true }
      (twoHosts.document 0)).1
    [(0, twoHosts.addressing.controlPacket 0 0 (.broadcast 0) 0),
      (0, twoHosts.addressing.dataPacket 0 1 rdmaOpcodeSendOnly [htonl 7])]).1

theorem configuredSwitch_eq :
    ∃ (conns : Nat → Connection) (rankToConn : Int → Int),
      (∀ rank : Nat, rank < 2 → rankToConn rank = rank) ∧
      configuredSwitch =
        { switchContextResetPsnStates (YamlReader.clearConfig
            { switchContextInit 0 with isRoot := true }) with
          switchId := 0
          conns := conns
          fanIn := 2
          rankToConn := rankToConn
          routingTable := twoHosts.routingTable } := by
  obtain ⟨conns, rankToConn, ranks, parsed⟩ := parseYamlConfig_document
    plainReader_reads (show twoHosts.worldSize ≤ 9 by decide)
    (show FitsInt 0 from fitsInt_of_small (by decide) (by decide))
    { switchContextInit 0 with isRoot := true }
  exact ⟨conns, rankToConn, ranks, congrArg Prod.fst parsed⟩

theorem configuredSwitch_routed :
    Routed twoHosts.addressing 2 configuredSwitch := by
  obtain ⟨conns, rankToConn, ranks, parsed⟩ := configuredSwitch_eq
  rw [parsed]
  exact { (twoHosts.context_configured.deployed (by decide)).toRouted with
    rankToConn := ranks }

theorem packetHandler_announcement :
    packetHandler configuredSwitch 0 announcement =
      (configuredSwitch.afterControl (.broadcast 0) 0 announcement.psn,
        [acknowledgement 0 announcement.psn]) := by
  have admissible : (Collective.broadcast 0).Admissible 2 0 := rfl
  exact packetHandler_control configuredSwitch_routed (by decide)
    Addressing.controlPacket_from admissible
    (Addressing.controlPacket_announces (show 2 ≤ maxConnectionsNum by decide)
      (by decide) admissible)

theorem afterAnnouncement_untouched : Untouched afterAnnouncement := by
  obtain ⟨conns, rankToConn, -, parsed⟩ := configuredSwitch_eq
  have announced : afterAnnouncement =
      configuredSwitch.afterControl (.broadcast 0) 0 announcement.psn := by
    simp only [afterAnnouncement, feed_cons, feed_nil, deliver,
      packetHandler_announcement]
  rw [announced, parsed]
  exact ⟨fun conn => rfl, fun slot bound index => rfl⟩

theorem afterBroadcast_sendPsn : afterBroadcast.sendPsn 1 = 1 := by
  obtain ⟨conns, rankToConn, -, parsed⟩ := configuredSwitch_eq
  have informed : Routed twoHosts.addressing 2
      (configuredSwitch.afterControl (.broadcast 0) 0 announcement.psn) :=
    configuredSwitch_routed.congr ⟨rfl, rfl, rfl, rfl⟩
  have plain : (twoHosts.addressing.dataPacket 0 1 rdmaOpcodeSendOnly
      [htonl 7]).Plain :=
    Addressing.dataPacket_plain (Or.inr (Or.inr (Or.inr rfl)))
  have data := packetHandler_broadcast informed
    (by decide) Addressing.dataPacket_from rfl plain (by
      rw [Addressing.dataPacket_psn, parsed]
      rfl)
  have used : afterBroadcast =
      (packetHandler
        (configuredSwitch.afterControl (.broadcast 0) 0 announcement.psn) 0
        (twoHosts.addressing.dataPacket 0 1 rdmaOpcodeSendOnly
          [htonl 7])).1 := by
    have control := packetHandler_announcement
    simp only [configuredSwitch, announcement] at control ⊢
    simp only [afterBroadcast, feed_cons, feed_nil, deliver, control]
  rw [used, data, parsed]
  rfl

/-- After a control message the switch still behaves like a fresh one, after a
Broadcast it does not. -/
theorem likeFresh_iff_untouched_afterAnnouncement :
    (∀ document, (plainReader.parseYamlConfig afterAnnouncement document).2 =
        true → LikeFresh plainReader afterAnnouncement document) ∧
      ¬∀ document, (plainReader.parseYamlConfig afterBroadcast document).2 =
        true → LikeFresh plainReader afterBroadcast document := by
  refine ⟨(likeFresh_iff_untouched plainReader_reads _).mpr
    afterAnnouncement_untouched, fun always => ?_⟩
  have zero :=
    ((likeFresh_iff_untouched plainReader_reads _).mp always).sendPsn 1
  rw [afterBroadcast_sendPsn] at zero
  cases zero

/-- The counter survives the new configuration. -/
theorem not_likeFresh_afterBroadcast :
    ¬∀ document, (plainReader.parseYamlConfig afterBroadcast document).2 =
        true →
      LikeFresh plainReader afterBroadcast document := by
  intro always
  obtain ⟨success, unchanged⟩ := parseYamlConfig_emptyDocument
  have zero := (always emptyDocument success).sendPsn 1
  rw [unchanged, afterBroadcast_sendPsn] at zero
  cases zero

end IncEmulation
