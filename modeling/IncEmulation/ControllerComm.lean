import IncEmulation.Controller
import IncEmulation.SwitchMain

/-!
# Applying a configuration to the switch (`controller_comm.cpp`)

A result is the context together with the flag that `parse_yaml_config` returned
0; where the source throws, the context is the one reached when it throws.
-/

namespace IncEmulation

namespace YamlReader

variable (reader : YamlReader)

/-- The connection written from one node over a zeroed `connection_t`. -/
def connectionOf (node : YamlNode) : Connection where
  device :=
    String.ofList ((reader.stringField node "my_name" "").toList.take 15)
  myIp := inetAddr (reader.stringField node "my_ip" "")
  peerIp := inetAddr (reader.stringField node "peer_ip" "")
  myPort := BitVec.ofInt 16 (reader.intField node "my_port" 4791)
  peerPort := BitVec.ofInt 16 (reader.intField node "peer_port" 4791)
  myQp := BitVec.ofInt 32 (reader.intField node "my_qp" 0)
  peerQp := BitVec.ofInt 32 (reader.intField node "peer_qp" 0)
  psn := 0
  msn := 0
  ok := true
  myMac :=
    scanMac Connection.zero.myMac (reader.stringField node "my_mac" "").toList
  peerMac :=
    scanMac Connection.zero.peerMac
      (reader.stringField node "peer_mac" "").toList

/-- `rank_to_conn` after one connection node: only host connections with a
rank in range are recorded, under the configured `conn_id`. -/
def recordRank (rankToConn : Int → Int) (index : Nat) (node : YamlNode) :
    Int → Int :=
  let connId := reader.intField node "conn_id" index
  let isSwitch := reader.boolField node "is_switch" false
  let peerId := reader.intField node "peer_id" (-1)
  if ¬isSwitch ∧ 0 ≤ peerId ∧ peerId < maxRanks then
    Function.update rankToConn peerId connId
  else rankToConn

/-- The loop of `parse_connections`; the flag is false when it threw. -/
def parseConnectionNodes (ctx : SwitchContext) (index : Nat) :
    List YamlNode → SwitchContext × Bool
  | [] => ({ ctx with fanIn := index }, true)
  | node :: nodes =>
      if index ≥ maxConnectionsNum then ({ ctx with fanIn := index }, true)
      else if node.subscriptThrows then (ctx, false)
      else
        parseConnectionNodes
          { ctx with
            conns := Function.update ctx.conns index (reader.connectionOf node)
            rankToConn := reader.recordRank ctx.rankToConn index node }
          (index + 1) nodes

def parseConnections (ctx : SwitchContext) (connections : Option YamlNode) :
    SwitchContext × Bool :=
  match YamlNode.items? connections with
  | none => (ctx, false)
  | some nodes => reader.parseConnectionNodes ctx 0 nodes

/-- A configured index as a connection pointer. -/
def connectionPointer (connId : Int) : Option Nat :=
  if 0 ≤ connId ∧ connId < maxConnectionsNum then some connId.toNat else none

/-- The loop over `out_conns`: ids out of range are skipped and at most
`MAX_PORT_NUM` pointers are kept. -/
def outConnsOf (ids : List Int) : List Nat :=
  (ids.filterMap connectionPointer).take maxPortNum

def ruleOf (node : YamlNode) : Rule where
  srcIp := inetAddr (reader.stringField node "src_ip" "")
  dstIp := inetAddr (reader.stringField node "dst_ip" "")
  primitive := .ofInt (reader.intField node "primitive" 0)
  primitiveParam := reader.intField node "primitive_param" (-1)
  connId := reader.intField node "conn_id" 0
  direction := .ofInt (reader.intField node "direction" 0)
  root := reader.boolField node "root" false
  ackConn := connectionPointer (reader.intField node "ack_conn" (-1))
  outConns :=
    match YamlNode.items? (node.get "out_conns") with
    | none => []
    | some nodes =>
        outConnsOf (nodes.map fun item => (reader.asInt item).getD (-1))

/-- The loop of `parse_rules`. -/
def parseRuleNodes (ctx : SwitchContext) : List YamlNode → SwitchContext × Bool
  | [] => (ctx, true)
  | node :: nodes =>
      if ctx.routingTable.rules.length ≥ maxRules then (ctx, true)
      else if node.subscriptThrows then (ctx, false)
      else
        parseRuleNodes
          { ctx with
            routingTable :=
              { rules := ctx.routingTable.rules ++ [reader.ruleOf node] } }
          nodes

def parseRules (ctx : SwitchContext) (rules : Option YamlNode) :
    SwitchContext × Bool :=
  match YamlNode.items? rules with
  | none => (ctx, true)
  | some nodes => reader.parseRuleNodes ctx nodes

/-- Step 2 of `parse_yaml_config`: the old connections and rules go. -/
def clearConfig (ctx : SwitchContext) : SwitchContext :=
  { ctx with
    conns := fun _ => .zero
    fanIn := 0
    routingTable := { rules := [] }
    rankToConn := fun _ => -1 }

/-- `parse_yaml_config` from the `switch` node on. -/
def parseSwitchNode (ctx : SwitchContext) (node : YamlNode) :
    SwitchContext × Bool :=
  let cleared := switchContextResetPsnStates (clearConfig ctx)
  let connected := reader.parseConnections cleared (node.get "connections")
  if connected.2 then reader.parseRules connected.1 (node.get "rules")
  else connected

/-- `parse_yaml_config` on the tree `YAML::Load` returned, `none` when it
threw. -/
def parseYamlConfig (ctx : SwitchContext) (document : Option YamlNode) :
    SwitchContext × Bool :=
  match document with
  | none => (ctx, false)
  | some root =>
      if root.subscriptThrows then (ctx, false)
      else
        match root.get "switch" with
        | none => (ctx, false)
        | some node =>
            if node.subscriptThrows then (ctx, false)
            else
              match node.get "id" with
              | none => reader.parseSwitchNode ctx node
              | some idNode =>
                  match reader.asInt idNode with
                  | none => (ctx, false)
                  | some switchId =>
                      reader.parseSwitchNode { ctx with switchId := switchId }
                        node

end YamlReader

end IncEmulation
