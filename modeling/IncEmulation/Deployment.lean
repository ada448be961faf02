import IncEmulation.ControllerComm

/-!
# The switch as the controller deploys it

A `HostNet` is a switch whose connections all lead to hosts, rank `r` on
connection `r`, as `calculate_route` lays them out.  `Configured` says that a
context holds the rules the controller generates for it.  `Deployed` is what the
packet handler's proofs need of such a context: what each lookup answers.
-/

namespace IncEmulation

/-- The connections of a switch with hosts only. -/
structure HostNet where
  connections : List ConnectionConfig
  connId_eq : ∀ index (bound : index < connections.length),
    connections[index].connId = index
  host : ∀ conn ∈ connections, conn.isSwitch = false
  peerId_eq : ∀ index (bound : index < connections.length),
    connections[index].peerId = index
  distinct : ∀ left (leftBound : left < connections.length)
    right (rightBound : right < connections.length),
    inetAddr connections[left].peerIp = inetAddr connections[right].peerIp →
    inetAddr connections[left].myIp = inetAddr connections[right].myIp →
      left = right

/-- The addresses a host's packets carry, by the connection they arrive on. -/
structure Addressing where
  srcIp : Nat → Word
  dstIp : Nat → Word

namespace HostNet

variable (net : HostNet)

abbrev worldSize : Nat := net.connections.length

def addressing : Addressing where
  srcIp conn := inetAddr ((net.connections[conn]?).elim "" (·.peerIp))
  dstIp conn := inetAddr ((net.connections[conn]?).elim "" (·.myIp))

end HostNet

/-- The rule `parse_rules` stores for a rule of the controller. -/
def RuleConfig.toRule (config : RuleConfig) : Rule where
  srcIp := inetAddr config.srcIp
  dstIp := inetAddr config.dstIp
  primitive := .ofInt config.primitive
  primitiveParam := config.primitiveParam
  connId := config.connId
  direction := .ofInt config.direction
  root := config.root
  ackConn := YamlReader.connectionPointer config.ackConn
  outConns := YamlReader.outConnsOf config.outConns

/-- The table holding every rule the controller generates. -/
def HostNet.routingTable (net : HostNet) : RuleTable where
  rules := (generateRules net.connections net.worldSize).map RuleConfig.toRule

/-- A root switch configured for the hosts of `net`. -/
structure Configured (net : HostNet) (ctx : SwitchContext) : Prop where
  isRoot : ctx.isRoot = true
  fanIn : ctx.fanIn = net.worldSize
  routingTable : ctx.routingTable = net.routingTable
  rankToConn : ∀ rank < net.worldSize, ctx.rankToConn rank = rank

/-- A rule that accepts packets from `conn` and acknowledges them there. -/
structure Rule.Uplink (rule : Rule) (conn : Nat) : Prop where
  direction : rule.direction = .up
  ackConn : rule.ackConn = some conn

/-- A switch that serves `hosts` hosts, rank `r` on connection `r`. -/
structure Routed (addressing : Addressing) (hosts : Nat)
    (ctx : SwitchContext) : Prop where
  fits : hosts ≤ maxConnectionsNum
  fanIn : ctx.fanIn = hosts
  rankToConn : ∀ rank < hosts, ctx.rankToConn rank = rank
  allreduce : ∀ conn < hosts, ∀ param, ∃ rule,
    lookupRule ctx.routingTable (addressing.srcIp conn)
        (addressing.dstIp conn) .allreduce param = some rule ∧
      rule.Uplink conn ∧ rule.outConns = List.range hosts
  reduce : ∀ conn < hosts, ∀ rank < hosts, ∃ rule,
    lookupRule ctx.routingTable (addressing.srcIp conn)
        (addressing.dstIp conn) .reduce (rank : Nat) = some rule ∧
      rule.Uplink conn
  broadcast : ∀ conn < hosts, ∃ rule,
    lookupRule ctx.routingTable (addressing.srcIp conn)
        (addressing.dstIp conn) .broadcast conn = some rule ∧
      rule.Uplink conn
  broadcast_other : ∀ conn < hosts, ∀ sender : Int, sender ≠ conn →
    lookupRule ctx.routingTable (addressing.srcIp conn)
        (addressing.dstIp conn) .broadcast sender = none

/-- A fresh root switch that has taken over the controller's configuration. -/
def HostNet.context (net : HostNet) : SwitchContext :=
  { switchContextInit 0 with
    isRoot := true
    fanIn := net.worldSize
    routingTable := net.routingTable
    rankToConn := fun rank =>
      if 0 ≤ rank ∧ rank < net.worldSize then rank else -1 }

theorem HostNet.context_configured (net : HostNet) :
    Configured net net.context where
  isRoot := rfl
  fanIn := rfl
  routingTable := rfl
  rankToConn := by
    intro rank bound
    have inRange : (0 : Int) ≤ rank ∧ (rank : Int) < net.worldSize := by omega
    simp [context, inRange]

/-- A root switch that serves `hosts` hosts. -/
structure Deployed (addressing : Addressing) (hosts : Nat)
    (ctx : SwitchContext) : Prop extends Routed addressing hosts ctx where
  isRoot : ctx.isRoot = true

namespace HostNet

variable {net : HostNet}

theorem filter_isSwitch :
    (net.connections.filter fun conn => !conn.isSwitch) = net.connections := by
  apply List.filter_eq_self.mpr
  intro conn member
  simp [net.host conn member]

theorem map_connId :
    net.connections.map ConnectionConfig.connId =
      (List.range net.worldSize).map Int.ofNat := by
  apply List.ext_getElem
  · simp
  · intro index leftBound rightBound
    simp only [List.length_map] at leftBound
    simp [net.connId_eq index leftBound]

theorem getHostConns_eq :
    getHostConns net.connections = (List.range net.worldSize).map Int.ofNat := by
  rw [getHostConns, filter_isSwitch, map_connId]

theorem getConnForRank_eq {rank : Nat} (bound : rank < net.worldSize) :
    getConnForRank net.connections rank = rank := by
  have found :
      (net.connections.find? fun conn =>
        !conn.isSwitch ∧ conn.peerId = (rank : Int)) =
          some (net.connections.get ⟨rank, bound⟩) := by
    apply List.find?_eq_some_iff_getElem.mpr
    refine ⟨?_, rank, bound, rfl, ?_⟩
    · simp [net.host _ (List.getElem_mem bound), net.peerId_eq rank bound]
    · intro earlier before
      have earlierBound : earlier < net.connections.length :=
        Nat.lt_trans before bound
      have different : (earlier : Int) ≠ rank := by omega
      simp [net.peerId_eq earlier earlierBound, different]
  simp only [getConnForRank, found]
  exact net.connId_eq rank bound

/-- The rules of the table, by the generator they come from. -/
theorem mem_generateRules {rule : RuleConfig} :
    rule ∈ generateRules net.connections net.worldSize ↔
      (∃ conn ∈ net.connections,
          rule = uplinkRule conn 1 (-1) (getHostConns net.connections)) ∨
        (∃ rank < net.worldSize, ∃ conn ∈ net.connections,
          rule = uplinkRule conn 2 rank [(rank : Int)]) ∨
        (∃ rank : Nat, ∃ bound : rank < net.worldSize,
          rule = uplinkRule (net.connections.get ⟨rank, bound⟩) 3 rank
            (getHostConnsExcept net.connections rank)) := by
  simp only [generateRules, generateAllreduceRules, generateReduceRules,
    generateBroadcastRules, filter_isSwitch, List.mem_append, List.mem_map,
    List.mem_flatMap, List.mem_range, or_assoc]
  refine or_congr ?_ (or_congr ?_ ?_)
  · constructor
    · rintro ⟨conn, member, rfl⟩
      exact ⟨conn, member, rfl⟩
    · rintro ⟨conn, member, rfl⟩
      exact ⟨conn, member, rfl⟩
  · constructor
    · rintro ⟨rank, bound, conn, member, rfl⟩
      exact ⟨rank, bound, conn, member, by rw [getConnForRank_eq bound]⟩
    · rintro ⟨rank, bound, conn, member, rfl⟩
      exact ⟨rank, bound, conn, member, by rw [getConnForRank_eq bound]⟩
  · constructor
    · rintro ⟨rank, bound, member⟩
      have inRange : rank < net.connections.length := bound
      have nonnegative : ¬((rank : Int) < 0) := by omega
      simp only [getConnForRank_eq bound, nonnegative, if_false,
        Int.toNat_natCast, List.getElem?_eq_getElem inRange,
        Option.toList_some, List.map_cons, List.map_nil,
        List.mem_singleton] at member
      exact ⟨rank, bound, member⟩
    · rintro ⟨rank, bound, rfl⟩
      have inRange : rank < net.connections.length := bound
      have nonnegative : ¬((rank : Int) < 0) := by omega
      refine ⟨rank, bound, ?_⟩
      simp [getConnForRank_eq bound, nonnegative,
        List.getElem?_eq_getElem inRange]

theorem srcIp_eq {conn : Nat} (bound : conn < net.connections.length) :
    net.addressing.srcIp conn = inetAddr net.connections[conn].peerIp := by
  simp [addressing, List.getElem?_eq_getElem bound]

theorem dstIp_eq {conn : Nat} (bound : conn < net.connections.length) :
    net.addressing.dstIp conn = inetAddr net.connections[conn].myIp := by
  simp [addressing, List.getElem?_eq_getElem bound]

theorem connection_eq_of_addresses {conn : Nat}
    (bound : conn < net.connections.length) {other : ConnectionConfig}
    (member : other ∈ net.connections)
    (sameSrc : inetAddr other.peerIp = net.addressing.srcIp conn)
    (sameDst : inetAddr other.myIp = net.addressing.dstIp conn) :
    other = net.connections[conn] := by
  obtain ⟨index, indexBound, rfl⟩ := List.getElem_of_mem member
  rw [srcIp_eq bound] at sameSrc
  rw [dstIp_eq bound] at sameDst
  have same := net.distinct index indexBound conn bound sameSrc sameDst
  subst same
  rfl

/-- Every rule of the table is an uplink of its own connection, and the
connection is determined by the addresses it matches. -/
theorem rule_of_match {rule : Rule} {conn : Nat}
    (bound : conn < net.connections.length)
    (member : rule ∈ net.routingTable.rules)
    (sameSrc : rule.srcIp = net.addressing.srcIp conn)
    (sameDst : rule.dstIp = net.addressing.dstIp conn) :
    rule = (uplinkRule net.connections[conn] 1 (-1)
          (getHostConns net.connections)).toRule ∨
      (∃ rank < net.worldSize,
        rule = (uplinkRule net.connections[conn] 2 rank
          [(rank : Int)]).toRule) ∨
      rule = (uplinkRule net.connections[conn] 3 conn
        (getHostConnsExcept net.connections conn)).toRule := by
  obtain ⟨config, configMember, rfl⟩ := List.mem_map.mp member
  rcases mem_generateRules.mp configMember with
    ⟨other, otherMember, rfl⟩ | ⟨rank, rankBound, other, otherMember, rfl⟩ |
      ⟨rank, rankBound, rfl⟩
  · have same :=
      connection_eq_of_addresses bound otherMember sameSrc sameDst
    exact Or.inl (by rw [same])
  · have same :=
      connection_eq_of_addresses bound otherMember sameSrc sameDst
    exact Or.inr (Or.inl ⟨rank, rankBound, by rw [same]⟩)
  · have rankInRange : rank < net.connections.length := rankBound
    have sameSrc' := sameSrc
    have sameDst' := sameDst
    rw [srcIp_eq bound] at sameSrc'
    rw [dstIp_eq bound] at sameDst'
    have same := net.distinct rank rankInRange conn bound sameSrc' sameDst'
    subst same
    exact Or.inr (Or.inr rfl)

theorem uplink_toRule {conn : Nat} (bound : conn < net.connections.length)
    (small : net.worldSize ≤ maxConnectionsNum)
    (primitive primitiveParam : Int) (outConns : List Int) :
    (uplinkRule net.connections[conn] primitive primitiveParam
      outConns).toRule.Uplink conn := by
  have pointer : conn < maxConnectionsNum := Nat.lt_of_lt_of_le bound small
  constructor
  · rfl
  · simp [RuleConfig.toRule, uplinkRule, YamlReader.connectionPointer,
      net.connId_eq conn bound, pointer]

theorem outConnsOf_range {count : Nat} (small : count ≤ maxConnectionsNum) :
    YamlReader.outConnsOf ((List.range count).map Int.ofNat) =
      List.range count := by
  have pointers :
      ((List.range count).map Int.ofNat).filterMap
          YamlReader.connectionPointer =
        List.range count := by
    rw [List.filterMap_map]
    conv_rhs => rw [← List.filterMap_some (l := List.range count)]
    apply List.filterMap_congr
    intro index member
    have bound := List.mem_range.mp member
    have pointer : index < maxConnectionsNum := Nat.lt_of_lt_of_le bound small
    simp [YamlReader.connectionPointer, pointer]
  rw [YamlReader.outConnsOf, pointers]
  apply List.take_of_length_le
  simpa [maxPortNum, maxConnectionsNum] using small

theorem mem_routingTable {config : RuleConfig}
    (member : config ∈ generateRules net.connections net.worldSize) :
    config.toRule ∈ net.routingTable.rules :=
  List.mem_map_of_mem member

theorem lookupRule_allreduce {conn : Nat}
    (bound : conn < net.connections.length) (param : Int) :
    lookupRule net.routingTable (net.addressing.srcIp conn)
        (net.addressing.dstIp conn) .allreduce param =
      some (uplinkRule net.connections[conn] 1 (-1)
        (getHostConns net.connections)).toRule := by
  apply lookupRule_eq_some_of_unique
  · apply mem_routingTable
    exact mem_generateRules.mpr
      (Or.inl ⟨_, List.getElem_mem bound, rfl⟩)
  · rw [matchRule_iff, srcIp_eq bound, dstIp_eq bound]
    exact ⟨rfl, rfl, rfl, Or.inl rfl⟩
  · intro other member matching
    obtain ⟨sameSrc, sameDst, primitive, -⟩ := matchRule_iff.mp matching
    rcases rule_of_match bound member sameSrc sameDst with
      same | ⟨rank, -, rfl⟩ | rfl
    · exact same
    · cases primitive
    · cases primitive

theorem lookupRule_reduce {conn : Nat}
    (bound : conn < net.connections.length)
    {rank : Nat} (rankBound : rank < net.worldSize) :
    lookupRule net.routingTable (net.addressing.srcIp conn)
        (net.addressing.dstIp conn) .reduce (rank : Nat) =
      some (uplinkRule net.connections[conn] 2 rank
        [(rank : Int)]).toRule := by
  apply lookupRule_eq_some_of_unique
  · apply mem_routingTable
    exact mem_generateRules.mpr
      (Or.inr (Or.inl ⟨rank, rankBound, _, List.getElem_mem bound, rfl⟩))
  · rw [matchRule_iff, srcIp_eq bound, dstIp_eq bound]
    exact ⟨rfl, rfl, rfl, Or.inr rfl⟩
  · intro other member matching
    obtain ⟨sameSrc, sameDst, primitive, param⟩ := matchRule_iff.mp matching
    rcases rule_of_match bound member sameSrc sameDst with
      rfl | ⟨otherRank, -, rfl⟩ | rfl
    · cases primitive
    · rcases param with absurdity | param
      · cases absurdity
      · simp only [RuleConfig.toRule, uplinkRule] at param
        rw [param]
    · cases primitive

theorem lookupRule_broadcast {conn : Nat}
    (bound : conn < net.connections.length) :
    lookupRule net.routingTable (net.addressing.srcIp conn)
        (net.addressing.dstIp conn) .broadcast conn =
      some (uplinkRule net.connections[conn] 3 conn
        (getHostConnsExcept net.connections conn)).toRule := by
  apply lookupRule_eq_some_of_unique
  · apply mem_routingTable
    exact mem_generateRules.mpr (Or.inr (Or.inr ⟨conn, bound, rfl⟩))
  · rw [matchRule_iff, srcIp_eq bound, dstIp_eq bound]
    exact ⟨rfl, rfl, rfl, Or.inr rfl⟩
  · intro other member matching
    obtain ⟨sameSrc, sameDst, primitive, -⟩ := matchRule_iff.mp matching
    rcases rule_of_match bound member sameSrc sameDst with
      rfl | ⟨otherRank, -, rfl⟩ | same
    · cases primitive
    · cases primitive
    · exact same

theorem lookupRule_broadcast_other {conn : Nat}
    (bound : conn < net.connections.length) {sender : Int}
    (different : sender ≠ conn) :
    lookupRule net.routingTable (net.addressing.srcIp conn)
        (net.addressing.dstIp conn) .broadcast sender = none := by
  rw [lookupRule_eq_none_iff]
  intro rule member
  by_contra matching
  simp only [Bool.not_eq_false] at matching
  obtain ⟨sameSrc, sameDst, primitive, param⟩ := matchRule_iff.mp matching
  rcases rule_of_match bound member sameSrc sameDst with
    rfl | ⟨otherRank, -, rfl⟩ | rfl
  · cases primitive
  · cases primitive
  · rcases param with absurdity | param
    · cases absurdity
    · exact different param.symm

end HostNet

/-- The connection of a host to port `port` of the switch. -/
def hostConnection (port : Nat) (myIp peerIp : String) : ConnectionConfig where
  connId := port
  isSwitch := false
  peerId := port
  myIp := myIp
  myMac := ""
  myName := ""
  myPort := 4791
  myQp := 28
  peerIp := peerIp
  peerMac := ""
  peerPort := 4791
  peerQp := 28

/-- The smallest star. -/
def twoHosts : HostNet where
  connections :=
    [hostConnection 0 "10.0.1.2" "10.0.1.1",
      hostConnection 1 "10.0.2.2" "10.0.2.1"]
  connId_eq := by decide
  host := by decide
  peerId_eq := by decide
  distinct := by decide +kernel

/-- The controller's rules give a deployment as long as every connection fits
into the switch's arrays. -/
theorem Configured.deployed {net : HostNet} {ctx : SwitchContext}
    (configured : Configured net ctx)
    (small : net.worldSize ≤ maxConnectionsNum) :
    Deployed net.addressing net.worldSize ctx where
  fits := small
  isRoot := configured.isRoot
  fanIn := configured.fanIn
  rankToConn := configured.rankToConn
  allreduce := by
    intro conn bound param
    refine ⟨_, ?_, HostNet.uplink_toRule bound small 1 (-1)
      (getHostConns net.connections), ?_⟩
    · rw [configured.routingTable, HostNet.lookupRule_allreduce bound]
    · simp only [RuleConfig.toRule, uplinkRule]
      rw [HostNet.getHostConns_eq, HostNet.outConnsOf_range small]
  reduce := by
    intro conn bound rank rankBound
    refine ⟨_, ?_, HostNet.uplink_toRule bound small 2 rank [(rank : Int)]⟩
    rw [configured.routingTable, HostNet.lookupRule_reduce bound rankBound]
  broadcast := by
    intro conn bound
    refine ⟨_, ?_, HostNet.uplink_toRule bound small 3 conn
      (getHostConnsExcept net.connections conn)⟩
    rw [configured.routingTable, HostNet.lookupRule_broadcast bound]
  broadcast_other := by
    intro conn bound sender different
    rw [configured.routingTable,
      HostNet.lookupRule_broadcast_other bound different]

end IncEmulation
