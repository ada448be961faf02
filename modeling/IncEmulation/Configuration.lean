import IncEmulation.Parsing

/-!
# Parsing what the controller generates

The switch reads back the document the controller sends it: parsing it succeeds
and leaves the switch configured for the hosts of the net.
-/

namespace IncEmulation

namespace HostNet

variable (net : HostNet)

/-- The entry of the switch after `calculate_route`. -/
def switchConfig (id : Int) : SwitchConfig where
  id := id
  connections := net.connections
  rules := generateRules net.connections net.worldSize

/-- The document the controller sends to a single switch. -/
def document (id : Int) : Option YamlNode :=
  generateYamlForSwitch net.worldSize [net.switchConfig id] 0

end HostNet

section Parsing

variable {reader : YamlReader} {net : HostNet}

theorem getHostConnsExcept_subset {except : Int} :
    ∀ out ∈ getHostConnsExcept net.connections except,
      ∃ conn ∈ net.connections, out = conn.connId := by
  intro out member
  obtain ⟨conn, connMember, rfl⟩ := List.mem_map.mp member
  exact ⟨conn, (List.mem_filter.mp connMember).1, rfl⟩

theorem connId_fits (small : net.worldSize ≤ maxConnectionsNum)
    {conn : ConnectionConfig} (member : conn ∈ net.connections) :
    FitsInt conn.connId := by
  have bounded : net.connections.length ≤ 10 := small
  obtain ⟨index, bound, rfl⟩ := List.getElem_of_mem member
  rw [net.connId_eq index bound]
  exact fitsInt_of_small (by omega) (by omega)

theorem small_of_mem_generateRules (small : net.worldSize ≤ maxConnectionsNum)
    {config : RuleConfig}
    (member : config ∈ generateRules net.connections net.worldSize) :
    config.Small := by
  have bounded : net.worldSize ≤ 10 := small
  rcases HostNet.mem_generateRules.mp member with
    ⟨conn, connMember, rfl⟩ | ⟨rank, rankBound, conn, connMember, rfl⟩ |
      ⟨rank, rankBound, rfl⟩
  · refine uplinkRule_small (connId_fits small connMember)
      (fitsInt_of_small (by decide) (by decide))
      (fitsInt_of_small (by decide) (by decide)) ?_
    intro out outMember
    rw [HostNet.getHostConns_eq] at outMember
    obtain ⟨index, inRange, rfl⟩ := List.mem_map.mp outMember
    have bound := List.mem_range.mp inRange
    exact fitsInt_of_small (by simp) (by simp; omega)
  · have rankFits : FitsInt (rank : Int) :=
      fitsInt_of_small (by omega) (by omega)
    refine uplinkRule_small (connId_fits small connMember)
      (fitsInt_of_small (by decide) (by decide)) rankFits ?_
    intro out outMember
    rw [List.mem_singleton.mp outMember]
    exact rankFits
  · refine uplinkRule_small (connId_fits small (List.getElem_mem rankBound))
      (fitsInt_of_small (by decide) (by decide))
      (fitsInt_of_small (by omega) (by omega)) ?_
    intro out outMember
    obtain ⟨conn, connMember, rfl⟩ := getHostConnsExcept_subset out outMember
    exact connId_fits small connMember

/-- Every connection has a rule of its own for AllReduce and for Broadcast,
and one for each root of a Reduce. -/
theorem length_generateRules :
    (generateRules net.connections net.worldSize).length =
      net.worldSize + net.worldSize * net.worldSize + net.worldSize := by
  have allreduce : (generateAllreduceRules net.connections).length =
      net.worldSize := by
    rw [generateAllreduceRules, HostNet.filter_isSwitch, List.length_map]
  have reduce :
      (generateReduceRules net.connections net.worldSize).length =
        net.worldSize * net.worldSize := by
    simp [generateReduceRules, HostNet.filter_isSwitch, List.length_flatMap]
  have broadcast :
      (generateBroadcastRules net.connections net.worldSize).length =
        net.worldSize := by
    rw [generateBroadcastRules, List.length_flatMap]
    have one : ∀ rank ∈ List.range net.worldSize,
        (let senderConn := getConnForRank net.connections rank
          if senderConn < 0 then []
          else
            (net.connections[senderConn.toNat]?).toList.map fun conn =>
              uplinkRule conn 3 rank
                (getHostConnsExcept net.connections rank)).length = 1 := by
      intro rank member
      have bound : rank < net.connections.length := List.mem_range.mp member
      have nonnegative : ¬((rank : Int) < 0) := by omega
      simp [HostNet.getConnForRank_eq bound, nonnegative,
        List.getElem?_eq_getElem bound]
    rw [List.map_congr_left one]
    simp
  simp only [generateRules, List.length_append, allreduce, reduce, broadcast]

theorem switchConfig_fits (small : net.worldSize ≤ maxConnectionsNum) {id : Int}
    (fits : FitsInt id) : (net.switchConfig id).Fits where
  id := fits
  connIds := fun _ member => connId_fits small member
  peerIds := by
    intro conn member
    have bounded : net.connections.length ≤ 10 := small
    obtain ⟨index, bound, rfl⟩ := List.getElem_of_mem member
    have peer : (net.switchConfig id).connections[index].peerId = index :=
      net.peerId_eq index bound
    have inRange : index < net.connections.length := bound
    rw [peer]
    exact fitsInt_of_small (by omega) (by omega)
  rules := fun _ member => small_of_mem_generateRules small member

theorem foldl_record_eq (small : net.worldSize ≤ maxConnectionsNum)
    {rank : Nat} (bound : rank < net.worldSize) (rankToConn : Int → Int) :
    net.connections.foldl ConnectionConfig.record rankToConn rank = rank := by
  have bounded : net.connections.length ≤ 10 := small
  have inRange : rank < net.connections.length := bound
  refine foldl_record_of_mem (Int.natCast_nonneg rank) ?_
    ⟨net.connections[rank], List.getElem_mem bound,
      net.host _ (List.getElem_mem bound), net.peerId_eq rank bound⟩ ?_ _
  · simp only [maxRanks]
    omega
  · intro conn member _ peer
    obtain ⟨index, indexBound, rfl⟩ := List.getElem_of_mem member
    rw [net.connId_eq index indexBound, ← net.peerId_eq index indexBound, peer]

/-- The controller's document configures the switch. -/
theorem parseYamlConfig_document (reads : reader.Reads)
    (atMostNine : net.worldSize ≤ 9) {id : Int} (fits : FitsInt id)
    (ctx : SwitchContext) :
    ∃ (conns : Nat → Connection) (rankToConn : Int → Int),
      (∀ rank < net.worldSize, rankToConn rank = rank) ∧
      reader.parseYamlConfig ctx (net.document id) =
        ({ switchContextResetPsnStates (YamlReader.clearConfig ctx) with
            switchId := id
            conns := conns
            fanIn := net.worldSize
            rankToConn := rankToConn
            routingTable := net.routingTable }, true) := by
  have small : net.worldSize ≤ maxConnectionsNum :=
    Nat.le_succ_of_le atMostNine
  have all : net.connections.take maxConnectionsNum = net.connections :=
    List.take_of_length_le small
  have room : ((generateRules net.connections net.worldSize).map
      RuleConfig.toRule).length ≤ maxRules := by
    rw [List.length_map, length_generateRules]
    have square : net.worldSize * net.worldSize ≤ 9 * 9 :=
      Nat.mul_le_mul atMostNine atMostNine
    simp only [maxRules]
    omega
  have configured := parseYamlConfig_encode reads net.worldSize
    (show [net.switchConfig id][0]? = some (net.switchConfig id) from rfl)
    (switchConfig_fits small fits) ctx
  simp only [SwitchContext.configure, HostNet.switchConfig, all,
    List.take_of_length_le room] at configured
  exact ⟨_, _, fun rank bound => foldl_record_eq small bound _, configured⟩

theorem configured_of_parse (reads : reader.Reads)
    (atMostNine : net.worldSize ≤ 9) {id : Int} (fits : FitsInt id)
    {ctx : SwitchContext} (isRoot : ctx.isRoot = true) :
    Configured net (reader.parseYamlConfig ctx (net.document id)).1 := by
  obtain ⟨conns, rankToConn, ranks, parsed⟩ :=
    parseYamlConfig_document reads atMostNine fits ctx
  rw [parsed]
  exact ⟨isRoot, rfl, rfl, ranks⟩

end Parsing

end IncEmulation
