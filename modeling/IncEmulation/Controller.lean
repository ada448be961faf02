import IncEmulation.Inet
import IncEmulation.SwitchContext
import IncEmulation.Yaml

/-!
# The controller's configuration and its rule generators (`controller.h`)

`TOPOLOGY_SIZE` is 1, so the generators run over the connections of the one
switch and the world size of the group.
-/

namespace IncEmulation

structure ConnectionConfig where
  connId : Int
  isSwitch : Bool
  peerId : Int
  myIp : String
  myMac : String
  myName : String
  myPort : Int
  myQp : Int
  peerIp : String
  peerMac : String
  peerPort : Int
  peerQp : Int
  deriving DecidableEq, Repr

structure RuleConfig where
  srcIp : String
  dstIp : String
  primitive : Int
  primitiveParam : Int
  connId : Int
  direction : Int
  root : Bool
  ackConn : Int
  outConns : List Int
  deriving DecidableEq, Repr

structure SwitchConfig where
  id : Int
  connections : List ConnectionConfig
  rules : List RuleConfig
  deriving DecidableEq, Repr

namespace ConnectionConfig

def encode (conn : ConnectionConfig) : YamlNode :=
  .map
    [("conn_id", .ofInt conn.connId),
      ("is_switch", .ofBool conn.isSwitch),
      ("peer_id", .ofInt conn.peerId),
      ("my_ip", .ofString conn.myIp),
      ("my_mac", .ofString conn.myMac),
      ("my_name", .ofString conn.myName),
      ("my_port", .ofInt conn.myPort),
      ("my_qp", .ofInt conn.myQp),
      ("peer_ip", .ofString conn.peerIp),
      ("peer_mac", .ofString conn.peerMac),
      ("peer_port", .ofInt conn.peerPort),
      ("peer_qp", .ofInt conn.peerQp)]

end ConnectionConfig

namespace RuleConfig

def encode (rule : RuleConfig) : YamlNode :=
  .map
    [("src_ip", .ofString rule.srcIp),
      ("dst_ip", .ofString rule.dstIp),
      ("primitive", .ofInt rule.primitive),
      ("primitive_param", .ofInt rule.primitiveParam),
      ("conn_id", .ofInt rule.connId),
      ("direction", .ofInt rule.direction),
      ("root", .ofBool rule.root),
      ("ack_conn", .ofInt rule.ackConn),
      ("out_conns", .sequence (rule.outConns.map .ofInt))]

end RuleConfig

namespace SwitchConfig

def encode (sw : SwitchConfig) : YamlNode :=
  .map
    [("id", .ofInt sw.id),
      ("connections", .sequence (sw.connections.map ConnectionConfig.encode)),
      ("rules", .sequence (sw.rules.map RuleConfig.encode))]

end SwitchConfig

/-- The document sent to the switch at `switchId`; `none` is the empty
string. -/
def generateYamlForSwitch (worldSize : Int) (switches : List SwitchConfig)
    (switchId : Nat) : Option YamlNode :=
  switches[switchId]?.map fun sw =>
    .map [("world_size", .ofInt worldSize), ("switch", sw.encode)]

variable (connections : List ConnectionConfig)

def getHostConns : List Int :=
  (connections.filter fun conn => !conn.isSwitch).map ConnectionConfig.connId

def getConnForRank (rank : Int) : Int :=
  match connections.find? fun conn => !conn.isSwitch ∧ conn.peerId = rank with
  | some conn => conn.connId
  | none => -1

def getHostConnsExcept (exceptRank : Int) : List Int :=
  (connections.filter fun conn => !conn.isSwitch ∧ conn.peerId ≠ exceptRank).map
    ConnectionConfig.connId

/-- The rule every generator builds from a connection: only the primitive, its
parameter and the outgoing connections differ. -/
def uplinkRule (conn : ConnectionConfig) (primitive primitiveParam : Int)
    (outConns : List Int) : RuleConfig where
  srcIp := conn.peerIp
  dstIp := conn.myIp
  primitive := primitive
  primitiveParam := primitiveParam
  connId := conn.connId
  direction := 0
  root := true
  ackConn := conn.connId
  outConns := outConns

def generateAllreduceRules : List RuleConfig :=
  (connections.filter fun conn => !conn.isSwitch).map fun conn =>
    uplinkRule conn 1 (-1) (getHostConns connections)

def generateReduceRules (worldSize : Nat) : List RuleConfig :=
  (List.range worldSize).flatMap fun (rootRank : Nat) =>
    (connections.filter fun conn => !conn.isSwitch).map fun conn =>
      uplinkRule conn 2 rootRank [getConnForRank connections rootRank]

/-- `sw.connections[sender_conn]` is an index into the list, not a search for
the connection id. -/
def generateBroadcastRules (worldSize : Nat) : List RuleConfig :=
  (List.range worldSize).flatMap fun (senderRank : Nat) =>
    let senderConn := getConnForRank connections senderRank
    if senderConn < 0 then []
    else
      (connections[senderConn.toNat]?).toList.map fun conn =>
        uplinkRule conn 3 senderRank
          (getHostConnsExcept connections senderRank)

/-- The rules of a switch in the order `calculate_route` pushes them. -/
def generateRules (worldSize : Nat) : List RuleConfig :=
  generateAllreduceRules connections ++
    generateReduceRules connections worldSize ++
    generateBroadcastRules connections worldSize

end IncEmulation
