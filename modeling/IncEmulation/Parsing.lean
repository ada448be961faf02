import Mathlib
import IncEmulation.Deployment

/-!
# Parsing what the controller writes

The switch reads back the rules and connections of a document as the controller
wrote them.  The connections beyond `MAX_CONNECTIONS_NUM` and the rules beyond
`MAX_RULES` are left out.
-/

namespace IncEmulation

theorem fitsInt_of_small {value : Int} (low : -1 ≤ value) (high : value ≤ 10) :
    FitsInt value := by
  constructor <;> omega

/-- All integers of the connection are C integers. -/
structure ConnectionConfig.Fits (conn : ConnectionConfig) : Prop where
  connId : FitsInt conn.connId
  peerId : FitsInt conn.peerId
  myPort : FitsInt conn.myPort
  myQp : FitsInt conn.myQp
  peerPort : FitsInt conn.peerPort
  peerQp : FitsInt conn.peerQp

/-- All integers of a generated rule are small. -/
structure RuleConfig.Small (config : RuleConfig) : Prop where
  primitive : FitsInt config.primitive
  primitiveParam : FitsInt config.primitiveParam
  connId : FitsInt config.connId
  direction : FitsInt config.direction
  ackConn : FitsInt config.ackConn
  outConns : ∀ conn ∈ config.outConns, FitsInt conn

theorem uplinkRule_small {conn : ConnectionConfig}
    {primitive primitiveParam : Int} {outConns : List Int}
    (connSmall : FitsInt conn.connId) (primitiveSmall : FitsInt primitive)
    (paramSmall : FitsInt primitiveParam)
    (outConnsSmall : ∀ out ∈ outConns, FitsInt out) :
    (uplinkRule conn primitive primitiveParam outConns).Small :=
  ⟨primitiveSmall, paramSmall, connSmall,
    (fitsInt_of_small (by decide) (by decide) : FitsInt 0), connSmall,
    outConnsSmall⟩

namespace ConnectionConfig

/-- The connection that `parse_connections` stores. -/
def toConnection (conn : ConnectionConfig) : Connection where
  device := String.ofList (conn.myName.toList.take 15)
  myIp := inetAddr conn.myIp
  peerIp := inetAddr conn.peerIp
  myPort := BitVec.ofInt 16 conn.myPort
  peerPort := BitVec.ofInt 16 conn.peerPort
  myQp := BitVec.ofInt 32 conn.myQp
  peerQp := BitVec.ofInt 32 conn.peerQp
  psn := 0
  msn := 0
  ok := true
  myMac := scanMac Connection.zero.myMac conn.myMac.toList
  peerMac := scanMac Connection.zero.peerMac conn.peerMac.toList

/-- The rank that `parse_connections` records. -/
def record (rankToConn : Int → Int) (conn : ConnectionConfig) : Int → Int :=
  if conn.isSwitch = false ∧ 0 ≤ conn.peerId ∧ conn.peerId < maxRanks then
    Function.update rankToConn conn.peerId conn.connId
  else rankToConn

end ConnectionConfig

namespace YamlReader

/-- The connections stored from `index` on. -/
def storeConnections (reader : YamlReader) (conns : Nat → Connection)
    (index : Nat) : List YamlNode → Nat → Connection
  | [] => conns
  | node :: nodes =>
      reader.storeConnections
        (Function.update conns index (reader.connectionOf node)) (index + 1)
        nodes

variable {reader : YamlReader} {conns : Nat → Connection} {index : Nat}

theorem storeConnections_of_lt {position : Nat} (nodes : List YamlNode)
    (before : position < index) :
    reader.storeConnections conns index nodes position = conns position := by
  induction nodes generalizing index conns with
  | nil => rfl
  | cons node nodes induction =>
      rw [storeConnections, induction (by omega),
        Function.update_of_ne (by omega)]

theorem storeConnections_get {offset : Nat} {nodes : List YamlNode}
    {node : YamlNode} (found : nodes[offset]? = some node) :
    reader.storeConnections conns index nodes (index + offset) =
      reader.connectionOf node := by
  induction nodes generalizing index offset conns with
  | nil => cases found
  | cons first nodes induction =>
      rw [storeConnections]
      cases offset with
      | zero =>
          obtain rfl : first = node := by simpa using found
          rw [storeConnections_of_lt _ (by omega)]
          exact Function.update_self ..
      | succ offset =>
          have inRest : nodes[offset]? = some node := by
            simpa using found
          rw [show index + (offset + 1) = index + 1 + offset by omega]
          exact induction inRest

end YamlReader

section Nodes

variable {reader : YamlReader} {conn : ConnectionConfig}

theorem connectionOf_encode (reads : reader.Reads) (fits : conn.Fits) :
    reader.connectionOf conn.encode = conn.toConnection := by
  simp [YamlReader.connectionOf, ConnectionConfig.encode,
    ConnectionConfig.toConnection, YamlReader.stringField, YamlReader.intField,
    YamlNode.get, reads.asString, reads.asInt _ fits.myPort,
    reads.asInt _ fits.peerPort, reads.asInt _ fits.myQp,
    reads.asInt _ fits.peerQp]

theorem recordRank_encode (reads : reader.Reads) (connId : FitsInt conn.connId)
    (peerId : FitsInt conn.peerId) (rankToConn : Int → Int) (index : Nat) :
    reader.recordRank rankToConn index conn.encode =
      conn.record rankToConn := by
  simp [YamlReader.recordRank, ConnectionConfig.record, ConnectionConfig.encode,
    YamlReader.intField, YamlReader.boolField, YamlNode.get, reads.asBool,
    reads.asInt _ connId, reads.asInt _ peerId]

theorem ruleOf_encode (reads : reader.Reads) {config : RuleConfig}
    (small : config.Small) :
    reader.ruleOf config.encode = config.toRule := by
  have outConns : (config.outConns.map YamlNode.ofInt).map
      (fun item => (reader.asInt item).getD (-1)) = config.outConns := by
    rw [List.map_map]
    conv_rhs => rw [← List.map_id config.outConns]
    apply List.map_congr_left
    intro conn member
    simp [reads.asInt conn (small.outConns conn member)]
  simp [YamlReader.ruleOf, RuleConfig.encode, RuleConfig.toRule,
    YamlReader.stringField, YamlReader.intField, YamlReader.boolField,
    YamlNode.get, YamlNode.items?, reads.asString, reads.asBool,
    reads.asInt _ small.primitive, reads.asInt _ small.primitiveParam,
    reads.asInt _ small.connId, reads.asInt _ small.direction,
    reads.asInt _ small.ackConn, -List.map_map, outConns]

/-- `parse_connections` stores what fits into the array. -/
theorem parseConnectionNodes_encode (reads : reader.Reads)
    {connections : List ConnectionConfig}
    (connIds : ∀ conn ∈ connections, FitsInt conn.connId)
    (peerIds : ∀ conn ∈ connections, FitsInt conn.peerId) {index room : Nat}
    (total : index + room = maxConnectionsNum) (ctx : SwitchContext) :
    reader.parseConnectionNodes ctx index
        (connections.map ConnectionConfig.encode) =
      ({ ctx with
          conns := reader.storeConnections ctx.conns index
            ((connections.take room).map ConnectionConfig.encode)
          fanIn := index + (connections.take room).length
          rankToConn :=
            (connections.take room).foldl ConnectionConfig.record
              ctx.rankToConn }, true) := by
  induction connections generalizing index room ctx with
  | nil =>
      simp [YamlReader.parseConnectionNodes, YamlReader.storeConnections]
  | cons conn connections induction =>
      rw [List.map_cons, YamlReader.parseConnectionNodes]
      cases room with
      | zero =>
          rw [if_pos (by omega)]
          simp [YamlReader.storeConnections]
      | succ room =>
          have notThrown : conn.encode.subscriptThrows = false := rfl
          have recorded := recordRank_encode reads
            (connIds conn List.mem_cons_self) (peerIds conn List.mem_cons_self)
            ctx.rankToConn index
          rw [if_neg (by omega), notThrown, if_neg Bool.false_ne_true, recorded,
            induction
              (fun other inside =>
                connIds other (List.mem_cons_of_mem _ inside))
              (fun other inside =>
                peerIds other (List.mem_cons_of_mem _ inside))
              (show index + 1 + room = maxConnectionsNum by omega)]
          simp only [List.take_succ_cons, List.map_cons,
            YamlReader.storeConnections, List.length_cons, List.foldl_cons,
            Prod.mk.injEq, and_true]
          congr 1
          omega

/-- `parse_rules` stores what fits into the table. -/
theorem parseRuleNodes_take {nodes : List YamlNode} {ctx : SwitchContext}
    (regular : ∀ node ∈ nodes, node.subscriptThrows = false)
    (room : ctx.routingTable.rules.length ≤ maxRules) :
    reader.parseRuleNodes ctx nodes =
      ({ ctx with
          routingTable :=
            ⟨(ctx.routingTable.rules ++ nodes.map reader.ruleOf).take
              maxRules⟩ }, true) := by
  induction nodes generalizing ctx with
  | nil =>
      simp [YamlReader.parseRuleNodes, List.take_of_length_le room]
  | cons node nodes induction =>
      rw [YamlReader.parseRuleNodes]
      by_cases full : ctx.routingTable.rules.length ≥ maxRules
      · have exactly : maxRules = ctx.routingTable.rules.length := by omega
        rw [if_pos full, exactly, List.take_left]
      · rw [if_neg full, regular node List.mem_cons_self,
          if_neg Bool.false_ne_true, induction fun other inside =>
            regular other (List.mem_cons_of_mem _ inside)]
        · simp
        · simp only [List.length_append, List.length_singleton]
          omega

end Nodes

/-- The integers the parser needs of a switch's entry. -/
structure SwitchConfig.Fits (sw : SwitchConfig) : Prop where
  id : FitsInt sw.id
  connIds : ∀ conn ∈ sw.connections, FitsInt conn.connId
  peerIds : ∀ conn ∈ sw.connections, FitsInt conn.peerId
  rules : ∀ rule ∈ sw.rules, rule.Small

/-- What a switch is configured with by its entry. -/
def SwitchContext.configure (ctx : SwitchContext) (reader : YamlReader)
    (sw : SwitchConfig) : SwitchContext :=
  let stored := sw.connections.take maxConnectionsNum
  { switchContextResetPsnStates (YamlReader.clearConfig ctx) with
    switchId := sw.id
    conns := reader.storeConnections (fun _ => .zero) 0
      (stored.map ConnectionConfig.encode)
    fanIn := stored.length
    rankToConn := stored.foldl ConnectionConfig.record fun _ => -1
    routingTable := ⟨(sw.rules.map RuleConfig.toRule).take maxRules⟩ }

/-- The document of a switch configures it. -/
theorem parseYamlConfig_encode {reader : YamlReader} (reads : reader.Reads)
    (worldSize : Int) {switches : List SwitchConfig} {position : Nat}
    {sw : SwitchConfig} (found : switches[position]? = some sw) (fits : sw.Fits)
    (ctx : SwitchContext) :
    reader.parseYamlConfig ctx
        (generateYamlForSwitch worldSize switches position) =
      (ctx.configure reader sw, true) := by
  have connected := parseConnectionNodes_encode reads fits.connIds fits.peerIds
    (Nat.zero_add _) (switchContextResetPsnStates
      (YamlReader.clearConfig { ctx with switchId := sw.id }))
  have rules : (sw.rules.map RuleConfig.encode).map reader.ruleOf =
      sw.rules.map RuleConfig.toRule := by
    rw [List.map_map]
    exact List.map_congr_left fun config member =>
      ruleOf_encode reads (fits.rules config member)
  simp only [generateYamlForSwitch, found, SwitchConfig.encode, Option.map_some,
    YamlReader.parseYamlConfig, YamlNode.subscriptThrows, YamlNode.get,
    Bool.false_eq_true, if_false]
  simp only [List.find?_cons, String.reduceEq, decide_false, decide_true,
    Option.map, reads.asInt sw.id fits.id, YamlReader.parseSwitchNode,
    YamlNode.get, YamlReader.parseConnections, YamlNode.items?, connected,
    if_true, YamlReader.parseRules]
  rw [parseRuleNodes_take]
  · rw [rules, Nat.zero_add]
    rfl
  · intro node member
    obtain ⟨config, -, rfl⟩ := List.mem_map.mp member
    rfl
  · exact Nat.zero_le _

section Ranks

variable {connections : List ConnectionConfig} {rank : Int}

theorem foldl_record_of_absent
    (absent : ∀ conn ∈ connections, conn.isSwitch = false →
      conn.peerId ≠ rank) (rankToConn : Int → Int) :
    connections.foldl ConnectionConfig.record rankToConn rank =
      rankToConn rank := by
  induction connections generalizing rankToConn with
  | nil => rfl
  | cons conn connections induction =>
      rw [List.foldl_cons, induction fun other inside =>
        absent other (List.mem_cons_of_mem _ inside)]
      unfold ConnectionConfig.record
      split_ifs with recorded
      · have different := absent conn List.mem_cons_self recorded.1
        exact Function.update_of_ne different.symm _ _
      · rfl

theorem foldl_record_of_mem (low : 0 ≤ rank) (high : rank < maxRanks)
    {id : Int}
    (present : ∃ conn ∈ connections, conn.isSwitch = false ∧
      conn.peerId = rank)
    (only : ∀ conn ∈ connections, conn.isSwitch = false →
      conn.peerId = rank → conn.connId = id) (rankToConn : Int → Int) :
    connections.foldl ConnectionConfig.record rankToConn rank = id := by
  induction connections generalizing rankToConn with
  | nil =>
      obtain ⟨conn, inside, -⟩ := present
      cases inside
  | cons first connections induction =>
      rw [List.foldl_cons]
      by_cases later : ∃ conn ∈ connections, conn.isSwitch = false ∧
          conn.peerId = rank
      · exact induction later
          (fun conn inside => only conn (List.mem_cons_of_mem _ inside)) _
      · obtain ⟨conn, inside, host, peer⟩ := present
        have here : conn = first := by
          refine (List.mem_cons.mp inside).resolve_right fun rest => ?_
          exact later ⟨conn, rest, host, peer⟩
        subst here
        have absent : ∀ other ∈ connections, other.isSwitch = false →
            other.peerId ≠ rank := fun other rest otherHost otherPeer =>
          later ⟨other, rest, otherHost, otherPeer⟩
        rw [foldl_record_of_absent absent, ConnectionConfig.record, peer,
          if_pos ⟨host, low, high⟩, Function.update_self]
        exact only conn List.mem_cons_self host peer

end Ranks

/-- A reader with Lean's own conversions. -/
def plainReader : YamlReader where
  asInt
    | .scalar text => text.toInt?
    | _ => none
  asBool
    | .scalar text =>
        if text = "true" then some true
        else if text = "false" then some false
        else none
    | _ => none
  asString
    | .scalar text => some text
    | _ => none

theorem plainReader_reads : plainReader.Reads where
  asInt value _ := Int.toInt?_repr value
  asBool value := by cases value <;> rfl
  asString _ := rfl

end IncEmulation
