import IncEmulation.HandlerFrame
import IncEmulation.Reconfiguration

/-!
# What a rejected packet and a rejected configuration leave behind

`packet_handler` stores the metadata of immediate data before it looks up the
rule, and `parse_yaml_config` clears the switch before it reads the connections.
Neither takes anything back when it gives up.
-/

namespace IncEmulation

open Machine

section Packets

/-- `lookup_rule` finds no rule for the packet. -/
def SwitchContext.NoRule (ctx : SwitchContext) (packet : Packet) : Prop :=
  lookupRule ctx.routingTable packet.srcIp packet.dstIp
    (ctx.lookupKey packet).1 (ctx.lookupKey packet).2 = none

instance (ctx : SwitchContext) (packet : Packet) :
    Decidable (ctx.NoRule packet) :=
  inferInstanceAs (Decidable (_ = _))

/-- Everything is as if the packet had not arrived. -/
structure SwitchContext.Ignores (ctx : SwitchContext) (connId : Nat)
    (packet : Packet) : Prop where
  unchanged : (packetHandler ctx connId packet).1 = ctx
  silent : (packetHandler ctx connId packet).2 = []
  later : ∀ arrivals,
    feed deliver (packetHandler ctx connId packet).1 arrivals =
      feed deliver ctx arrivals

/-- The packet announces nothing that is not in force. -/
def SwitchContext.Repeats (ctx : SwitchContext) (packet : Packet) : Prop :=
  packet.hasImmData = true →
    packet.announced = (ctx.operationType, ctx.rootRank) ∧
      (packet.isControlMessage = true → ctx.ctrlPsn = packet.psn)

variable {ctx : SwitchContext} {connId : Nat} {packet : Packet}

theorem packetHandler_noRule (noRule : ctx.NoRule packet) :
    packetHandler ctx connId packet = (ctx.storeMetadata packet, []) := by
  have stored := storeMetadata_configuration ctx packet
  rw [SwitchContext.NoRule, ← stored.routingTable] at noRule
  rw [packetHandler, noRule]

theorem storeMetadata_eq_self_iff :
    ctx.storeMetadata packet = ctx ↔ ctx.Repeats packet := by
  unfold SwitchContext.storeMetadata SwitchContext.Repeats
  by_cases immediate : packet.hasImmData = true
  · rw [if_pos immediate]
    constructor
    · intro same _
      have operationType := congrArg SwitchContext.operationType same
      have rootRank := congrArg SwitchContext.rootRank same
      have ctrlPsn := congrArg SwitchContext.ctrlPsn same
      refine ⟨Prod.ext operationType rootRank, fun control => ?_⟩
      rw [← ctrlPsn]
      exact if_pos control
    · intro repeats
      obtain ⟨announced, ctrlPsn⟩ := repeats immediate
      rw [announced]
      by_cases control : packet.isControlMessage = true
      · rw [if_pos control, ← ctrlPsn control]
      · rw [if_neg control]
  · rw [if_neg immediate]
    exact ⟨fun _ isImmediate => absurd isImmediate immediate, fun _ => rfl⟩

theorem ignores_of_repeats (noRule : ctx.NoRule packet)
    (repeats : ctx.Repeats packet) : ctx.Ignores connId packet := by
  have handled : packetHandler ctx connId packet = (ctx, []) := by
    rw [packetHandler_noRule noRule, storeMetadata_eq_self_iff.mpr repeats]
  constructor
  · rw [handled]
  · rw [handled]
  · intro arrivals
    rw [handled]

/-- A packet without a rule is ignored exactly if it announces nothing new. -/
theorem ignores_iff_repeats (noRule : ctx.NoRule packet) :
    ctx.Ignores connId packet ↔ ctx.Repeats packet := by
  constructor
  · intro ignores
    have unchanged := ignores.unchanged
    rw [packetHandler_noRule noRule] at unchanged
    exact storeMetadata_eq_self_iff.mp unchanged
  · exact ignores_of_repeats noRule

/-- The arrivals for which a rule is found. -/
def ruled (ctx : SwitchContext) :
    List (Nat × Packet) → List (Nat × Packet)
  | [] => []
  | arrival :: arrivals =>
      if ctx.NoRule arrival.2 then ruled (deliver ctx arrival).1 arrivals
      else arrival :: ruled (deliver ctx arrival).1 arrivals

/-- A run is that of the packets with a rule, if every other packet announces
nothing new. -/
theorem feed_ruled {arrivals : List (Nat × Packet)}
    (repeats : Admits deliver
      (fun ctx arrival => ctx.NoRule arrival.2 → ctx.Repeats arrival.2)
      ctx arrivals) :
    feed deliver ctx (ruled ctx arrivals) = feed deliver ctx arrivals := by
  induction arrivals generalizing ctx with
  | nil => rfl
  | cons arrival arrivals induction =>
      obtain ⟨now, later⟩ := repeats
      rw [ruled, feed_cons]
      by_cases noRule : ctx.NoRule arrival.2
      · have ignores : ctx.Ignores arrival.1 arrival.2 :=
          ignores_of_repeats noRule (now noRule)
        have unchanged : (deliver ctx arrival).1 = ctx := ignores.unchanged
        have silent : (deliver ctx arrival).2 = [] := ignores.silent
        rw [unchanged] at later
        rw [if_pos noRule, unchanged, silent, List.nil_append]
        exact induction later
      · rw [if_neg noRule, feed_cons, induction later]

/-- Rank 0 announces a Broadcast of rank 1, for which it has no rule. -/
def foreignAnnouncement : Packet :=
  twoHosts.addressing.controlPacket 0 0 (.broadcast 1) 0

theorem foreignAnnouncement_noRule :
    twoHosts.context.NoRule foreignAnnouncement :=
  HostNet.lookupRule_broadcast_other (show 0 < twoHosts.connections.length by
    decide) (show 1 ≠ 0 by decide)

/-- An ACK that finds no rule under a Broadcast of rank 1. -/
theorem ignores_iff_repeats_ack :
    SwitchContext.Ignores
      { twoHosts.context with operationType := .broadcast, rootRank := 1 } 0
      (twoHosts.addressing.dataPacket 0 7 rdmaOpcodeAck []) := by
  have noRule : SwitchContext.NoRule
      { twoHosts.context with operationType := .broadcast, rootRank := 1 }
      (twoHosts.addressing.dataPacket 0 7 rdmaOpcodeAck []) :=
    HostNet.lookupRule_broadcast_other (show 0 < twoHosts.connections.length by
      decide) (show 1 ≠ 0 by decide)
  exact (ignores_iff_repeats noRule).mpr nofun

/-- The announcement replaces the AllReduce in force. -/
theorem not_ignores_foreignAnnouncement :
    ¬∀ net ctx, Configured net ctx → ∀ connId packet,
      ctx.NoRule packet → ctx.Ignores connId packet := by
  intro always
  have ignores := always twoHosts twoHosts.context twoHosts.context_configured 0
    foreignAnnouncement foreignAnnouncement_noRule
  have handled : packetHandler twoHosts.context 0 foreignAnnouncement =
      (twoHosts.context.storeMetadata foreignAnnouncement, []) :=
    packetHandler_noRule foreignAnnouncement_noRule
  have unchanged := ignores.unchanged
  rw [handled] at unchanged
  have operation := congrArg SwitchContext.operationType unchanged
  exact absurd operation (by decide)

end Packets

section Configurations

/-- The nodes a loop reads before one of them throws. -/
def YamlNode.readable (nodes : List YamlNode) : List YamlNode :=
  nodes.takeWhile fun node => !node.subscriptThrows

/-- No node of the list throws. -/
def YamlNode.allReadable (nodes : List YamlNode) : Bool :=
  nodes.all fun node => !node.subscriptThrows

/-- What a document configures before it fails. -/
structure Draft where
  connections : List YamlNode
  fanIn : Nat
  rules : List YamlNode

/-- The draft that a `switch` section leaves, `none` if it does not fail. -/
def YamlNode.draft (node : YamlNode) : Option Draft :=
  match YamlNode.items? (node.get "connections") with
  | none => some ⟨[], 0, []⟩
  | some connections =>
      let stored := connections.take maxConnectionsNum
      if allReadable stored then
        match YamlNode.items? (node.get "rules") with
        | none => none
        | some rules =>
            if allReadable (rules.take maxRules) then none
            else some ⟨stored, stored.length, readable (rules.take maxRules)⟩
      else some ⟨readable stored, 0, []⟩

namespace YamlReader

variable (reader : YamlReader)

/-- The ranks recorded for the nodes from `index` on. -/
def recordRanks (rankToConn : Int → Int) (index : Nat) :
    List YamlNode → Int → Int
  | [] => rankToConn
  | node :: nodes =>
      recordRanks (reader.recordRank rankToConn index node) (index + 1) nodes

/-- The `switch` section and its id, `none` if `parse_yaml_config` does not get
that far. -/
def switchSection (document : Option YamlNode) :
    Option (YamlNode × Option Int) :=
  match document with
  | none => none
  | some root =>
      if root.subscriptThrows then none
      else
        match root.get "switch" with
        | none => none
        | some node =>
            if node.subscriptThrows then none
            else
              match node.get "id" with
              | none => some (node, none)
              | some idNode => (reader.asInt idNode).map fun id => (node, some id)

end YamlReader

namespace SwitchContext

/-- The context with the id of a section, if it has one. -/
def withId (ctx : SwitchContext) (id : Option Int) : SwitchContext :=
  { ctx with switchId := id.getD ctx.switchId }

/-- The switch configured with a draft. -/
def drafted (ctx : SwitchContext) (reader : YamlReader) (draft : Draft) :
    SwitchContext :=
  { switchContextResetPsnStates (YamlReader.clearConfig ctx) with
    conns := reader.storeConnections (fun _ => .zero) 0 draft.connections
    fanIn := draft.fanIn
    rankToConn := reader.recordRanks (fun _ => -1) 0 draft.connections
    routingTable := ⟨draft.rules.map reader.ruleOf⟩ }

/-- The PSN states and the operation are those of a reset. -/
structure IsReset (ctx : SwitchContext) : Prop where
  psnStates : ∀ index, (ctx.psnStates index).reset = ctx.psnStates index
  aggEpsn : ∀ conn, ctx.aggEpsn conn = 0
  downEpsn : ctx.downEpsn = 0
  latestAck : ∀ conn, ctx.latestAck conn = 0
  downAck : ctx.downAck = 0
  operationType : ctx.operationType = .allreduce
  rootRank : ctx.rootRank = -1

/-- The switch is configured with no more and no less than a draft. -/
structure HoldsDraft (ctx : SwitchContext) (reader : YamlReader)
    (draft : Draft) : Prop where
  conns :
    ctx.conns = reader.storeConnections (fun _ => .zero) 0 draft.connections
  fanIn : ctx.fanIn = draft.fanIn
  rankToConn :
    ctx.rankToConn = reader.recordRanks (fun _ => -1) 0 draft.connections
  rules : ctx.routingTable.rules = draft.rules.map reader.ruleOf

variable {ctx : SwitchContext} {reader : YamlReader}

theorem IsReset.reset_eq (reset : ctx.IsReset) :
    switchContextResetPsnStates ctx = ctx := by
  cases ctx
  simp only [switchContextResetPsnStates, SwitchContext.mk.injEq, true_and,
    and_true]
  refine ⟨funext reset.psnStates, ?_, ?_, ?_, ?_, ?_, ?_⟩
  · exact (funext reset.aggEpsn).symm
  · exact reset.downEpsn.symm
  · exact (funext reset.latestAck).symm
  · exact reset.downAck.symm
  · exact reset.operationType.symm
  · exact reset.rootRank.symm

theorem drafted_eq_self_iff {id : Option Int} {draft : Draft} :
    (ctx.withId id).drafted reader draft = ctx ↔
      (∀ value, id = some value → ctx.switchId = value) ∧
        ctx.IsReset ∧ ctx.HoldsDraft reader draft := by
  constructor
  · intro same
    refine ⟨?_, ?_, ?_⟩
    · rintro value rfl
      exact (congrArg SwitchContext.switchId same).symm
    · constructor
      · exact congrFun (congrArg SwitchContext.psnStates same)
      · exact fun conn =>
          (congrFun (congrArg SwitchContext.aggEpsn same) conn).symm
      · exact (congrArg SwitchContext.downEpsn same).symm
      · exact fun conn =>
          (congrFun (congrArg SwitchContext.latestAck same) conn).symm
      · exact (congrArg SwitchContext.downAck same).symm
      · exact (congrArg SwitchContext.operationType same).symm
      · exact (congrArg SwitchContext.rootRank same).symm
    · constructor
      · exact (congrArg SwitchContext.conns same).symm
      · exact (congrArg SwitchContext.fanIn same).symm
      · exact (congrArg SwitchContext.rankToConn same).symm
      · exact (congrArg (·.routingTable.rules) same).symm
  · rintro ⟨sameId, reset, holds⟩
    have switchId : id.getD ctx.switchId = ctx.switchId := by
      cases id with
      | none => rfl
      | some value => exact (sameId value rfl).symm
    obtain ⟨conns, fanIn, rankToConn, rules⟩ := holds
    rw [drafted, withId, switchId, ← conns, ← fanIn, ← rankToConn, ← rules]
    exact reset.reset_eq

end SwitchContext

section Loops

variable {reader : YamlReader}

theorem YamlNode.readable_cons (node : YamlNode) (nodes : List YamlNode) :
    readable (node :: nodes) =
      if node.subscriptThrows then [] else node :: readable nodes := by
  rw [readable, List.takeWhile_cons]
  cases node.subscriptThrows <;> rfl

theorem YamlNode.allReadable_cons (node : YamlNode) (nodes : List YamlNode) :
    allReadable (node :: nodes) =
      (!node.subscriptThrows && allReadable nodes) := rfl

theorem YamlNode.readable_eq_self {nodes : List YamlNode}
    (all : allReadable nodes = true) : readable nodes = nodes :=
  List.takeWhile_eq_self_iff.mpr (List.all_eq_true.mp all)

/-- `parse_connections` stores the nodes before the one that throws; `fan_in`
is only written at the end. -/
theorem parseConnectionNodes_eq {index room : Nat}
    (total : index + room = maxConnectionsNum) (nodes : List YamlNode)
    (ctx : SwitchContext) :
    reader.parseConnectionNodes ctx index nodes =
      ({ ctx with
          conns := reader.storeConnections ctx.conns index
            (YamlNode.readable (nodes.take room))
          fanIn :=
            if YamlNode.allReadable (nodes.take room) then
              index + (nodes.take room).length
            else ctx.fanIn
          rankToConn := reader.recordRanks ctx.rankToConn index
            (YamlNode.readable (nodes.take room)) },
        YamlNode.allReadable (nodes.take room)) := by
  induction nodes generalizing index room ctx with
  | nil =>
      rw [List.take_nil]
      rfl
  | cons node nodes induction =>
      rw [YamlReader.parseConnectionNodes]
      cases room with
      | zero =>
          rw [if_pos (by omega), List.take_zero]
          rfl
      | succ room =>
          rw [if_neg (by omega), List.take_succ_cons, YamlNode.readable_cons,
            YamlNode.allReadable_cons]
          by_cases throws : node.subscriptThrows = true
          · rw [throws]
            rfl
          · rw [if_neg throws, if_neg throws,
              induction (show index + 1 + room = maxConnectionsNum by omega),
              Bool.eq_false_iff.mpr throws, Bool.not_false, Bool.true_and,
              YamlReader.storeConnections, YamlReader.recordRanks,
              List.length_cons, Nat.add_right_comm, Nat.add_assoc index]

/-- `parse_rules` stores the rules before the one that throws. -/
theorem parseRuleNodes_eq {room : Nat} (nodes : List YamlNode)
    {ctx : SwitchContext}
    (total : ctx.routingTable.rules.length + room = maxRules) :
    reader.parseRuleNodes ctx nodes =
      ({ ctx with
          routingTable :=
            ⟨ctx.routingTable.rules ++
              (YamlNode.readable (nodes.take room)).map reader.ruleOf⟩ },
        YamlNode.allReadable (nodes.take room)) := by
  induction nodes generalizing room ctx with
  | nil =>
      rw [List.take_nil, YamlReader.parseRuleNodes]
      exact congrArg (fun rules => ({ ctx with routingTable := ⟨rules⟩ }, true))
        (List.append_nil _).symm
  | cons node nodes induction =>
      rw [YamlReader.parseRuleNodes]
      cases room with
      | zero =>
          rw [if_pos (by omega), List.take_zero]
          exact congrArg
            (fun rules => ({ ctx with routingTable := ⟨rules⟩ }, true))
            (List.append_nil _).symm
      | succ room =>
          rw [if_neg (by omega), List.take_succ_cons, YamlNode.readable_cons,
            YamlNode.allReadable_cons]
          by_cases throws : node.subscriptThrows = true
          · rw [throws, if_pos rfl]
            exact congrArg
              (fun rules => ({ ctx with routingTable := ⟨rules⟩ }, false))
              (List.append_nil _).symm
          · rw [if_neg throws, if_neg throws, induction,
              Bool.eq_false_iff.mpr throws, Bool.not_false, Bool.true_and,
              List.map_cons, List.append_assoc]
            · rfl
            · rw [List.length_append, List.length_singleton]
              omega

variable {ctx : SwitchContext} {node : YamlNode}

theorem parseSwitchNode_of_draft {draft : Draft}
    (fails : node.draft = some draft) :
    reader.parseSwitchNode ctx node = (ctx.drafted reader draft, false) := by
  rw [YamlReader.parseSwitchNode, YamlReader.parseConnections]
  unfold YamlNode.draft at fails
  revert fails
  cases YamlNode.items? (node.get "connections") with
  | none =>
      intro fails
      obtain rfl := Option.some.inj fails
      rfl
  | some connections =>
      intro fails
      simp only [parseConnectionNodes_eq (Nat.zero_add maxConnectionsNum)]
      dsimp only at fails
      split at fails
      case isTrue stored =>
        rw [if_pos stored, if_pos stored, YamlReader.parseRules]
        revert fails
        cases YamlNode.items? (node.get "rules") with
        | none =>
            intro fails
            cases fails
        | some rules =>
            intro fails
            dsimp only at fails ⊢
            split_ifs at fails with kept
            obtain rfl := Option.some.inj fails
            rw [parseRuleNodes_eq rules (Nat.zero_add maxRules),
              YamlNode.readable_eq_self stored, Bool.eq_false_iff.mpr kept,
              Nat.zero_add]
            rfl
      case isFalse broken =>
        obtain rfl := Option.some.inj fails
        rw [if_neg broken, if_neg broken, Bool.eq_false_iff.mpr broken]
        rfl

theorem parseSwitchNode_of_no_draft (complete : node.draft = none) :
    (reader.parseSwitchNode ctx node).2 = true := by
  rw [YamlReader.parseSwitchNode, YamlReader.parseConnections]
  unfold YamlNode.draft at complete
  revert complete
  cases YamlNode.items? (node.get "connections") with
  | none =>
      intro complete
      cases complete
  | some connections =>
      intro complete
      simp only [parseConnectionNodes_eq (Nat.zero_add maxConnectionsNum)]
      dsimp only at complete
      split_ifs at complete with stored
      rw [if_pos stored, YamlReader.parseRules]
      revert complete
      cases YamlNode.items? (node.get "rules") with
      | none => exact fun _ => rfl
      | some rules =>
          intro complete
          dsimp only at complete ⊢
          split_ifs at complete with kept
          rw [parseRuleNodes_eq rules (Nat.zero_add maxRules), kept]

/-- `parse_yaml_config` works on the section it finds. -/
theorem parseYamlConfig_eq (document : Option YamlNode) :
    reader.parseYamlConfig ctx document =
      match reader.switchSection document with
      | none => (ctx, false)
      | some (node, id) => reader.parseSwitchNode (ctx.withId id) node := by
  unfold YamlReader.parseYamlConfig YamlReader.switchSection
  cases document with
  | none => rfl
  | some root =>
      dsimp only
      split_ifs
      · rfl
      · cases root.get "switch" with
        | none => rfl
        | some node =>
            dsimp only
            split_ifs
            · rfl
            · cases node.get "id" with
              | none => rfl
              | some idNode =>
                  dsimp only
                  cases reader.asInt idNode <;> rfl

end Loops

/-- What the threads of the switch do: a receiver handles a captured packet, or
the controller's document arrives. -/
inductive SwitchEvent where
  | captured (connId : Nat) (packet : Packet)
  | configured (document : Option YamlNode)

def switchStep (reader : YamlReader) (ctx : SwitchContext) :
    SwitchEvent → SwitchContext × List Frame
  | .captured connId packet => packetHandler ctx connId packet
  | .configured document => ((reader.parseYamlConfig ctx document).1, [])

/-- A document for which -1 is returned leaves the switch as it was. -/
def KeepsConfig (reader : YamlReader) (ctx : SwitchContext) :
    SwitchEvent → Prop
  | .captured _ _ => True
  | .configured document =>
      (reader.parseYamlConfig ctx document).2 = false →
        (reader.parseYamlConfig ctx document).1 = ctx

/-- The document fails before its switch id is stored, or the switch is a reset
one configured with what the document has before it fails. -/
def FailsHarmlessly (reader : YamlReader) (ctx : SwitchContext) :
    SwitchEvent → Prop
  | .captured _ _ => True
  | .configured document =>
      ∀ node id draft, reader.switchSection document = some (node, id) →
        node.draft = some draft →
          (∀ value, id = some value → ctx.switchId = value) ∧
            ctx.IsReset ∧ ctx.HoldsDraft reader draft

theorem keepsConfig_iff (reader : YamlReader) (ctx : SwitchContext)
    (event : SwitchEvent) :
    KeepsConfig reader ctx event ↔ FailsHarmlessly reader ctx event := by
  cases event with
  | captured connId packet => exact Iff.rfl
  | configured document =>
      rw [KeepsConfig, FailsHarmlessly, parseYamlConfig_eq]
      cases located : reader.switchSection document with
      | none => exact ⟨fun _ => nofun, fun _ _ => rfl⟩
      | some found =>
          obtain ⟨node, id⟩ := found
          dsimp only
          cases drafted : node.draft with
          | none =>
              rw [parseSwitchNode_of_no_draft drafted]
              refine ⟨fun _ => ?_, fun _ => nofun⟩
              rintro _ _ draft same fails
              obtain ⟨rfl, rfl⟩ := Prod.mk.inj (Option.some.inj same)
              rw [drafted] at fails
              cases fails
          | some draft =>
              rw [parseSwitchNode_of_draft drafted]
              dsimp only
              rw [SwitchContext.drafted_eq_self_iff]
              constructor
              · rintro keeps _ _ other same fails
                obtain ⟨rfl, rfl⟩ := Prod.mk.inj (Option.some.inj same)
                rw [drafted] at fails
                obtain rfl := Option.some.inj fails
                exact keeps rfl
              · exact fun harmless _ => harmless node id draft rfl drafted

/-- From the start on, every rejected document leaves the switch as it was
exactly if each of them fails harmlessly. -/
theorem keepsConfig_iff_failsHarmlessly (reader : YamlReader) (switchId : Int)
    (isRoot : Bool) (events : List SwitchEvent) :
    Admits (switchStep reader) (KeepsConfig reader)
        { switchContextInit switchId with isRoot := isRoot } events ↔
      Admits (switchStep reader) (FailsHarmlessly reader)
        { switchContextInit switchId with isRoot := isRoot } events :=
  admits_congr (keepsConfig_iff reader) _ events

/-- A `switch` section without connections. -/
def connectionlessDocument : Option YamlNode :=
  some (.map [("switch", .map [])])

/-- Two hosts are configured and then lost to the document above. -/
theorem not_keepsConfig_connectionless :
    ¬∀ reader : YamlReader, reader.Reads → ∀ switchId isRoot events,
      Admits (switchStep reader) (KeepsConfig reader)
        { switchContextInit switchId with isRoot := isRoot } events := by
  intro always
  obtain ⟨conns, rankToConn, -, parsed⟩ := parseYamlConfig_document
    plainReader_reads (show twoHosts.worldSize ≤ 9 by decide)
    (show FitsInt 0 from fitsInt_of_small (by decide) (by decide))
    { switchContextInit 0 with isRoot := true }
  have keeps := always plainReader plainReader_reads 0 true
    [.configured (twoHosts.document 0), .configured connectionlessDocument]
  have kept := keeps.2.1
  rw [switchStep, parsed] at kept
  have fanIn : 0 = 2 := congrArg SwitchContext.fanIn (kept rfl)
  cases fanIn

end Configurations

end IncEmulation
