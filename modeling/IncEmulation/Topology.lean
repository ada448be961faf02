import IncEmulation.Collective
import IncEmulation.Lib.Unique

/-!
# What the generated rules mean

A `Topology` is a switch among hosts and other switches, with every rank on one
host connection, wherever it stands.  For every operation the generators give a
connection at most one rule, and that rule names the connections the operation
reaches.
-/

namespace IncEmulation

open Unique

/-- The connection leads to the host of that rank. -/
def ConnectionConfig.isHost (rank : Int) (conn : ConnectionConfig) : Bool :=
  !conn.isSwitch && decide (conn.peerId = rank)

structure Topology where
  worldSize : Nat
  connections : List ConnectionConfig
  connId_eq : ∀ index (bound : index < connections.length),
    (connections.get ⟨index, bound⟩).connId = index
  ranked : ∀ rank < worldSize,
    (connections.filter (ConnectionConfig.isHost rank)).length = 1

namespace Topology

variable (topology : Topology)

def rules : List RuleConfig :=
  generateRules topology.connections topology.worldSize

/-- The addresses of a packet of the peer tell the connections apart. -/
def Distinct : Prop :=
  ∀ left ∈ topology.connections, ∀ right ∈ topology.connections,
    inetAddr left.peerIp = inetAddr right.peerIp →
      inetAddr left.myIp = inetAddr right.myIp → left = right

instance : Decidable topology.Distinct := by
  unfold Distinct
  infer_instance

end Topology

/-- The rule matches a packet of the peer of `conn`. -/
def RuleConfig.matchesPeer (conn : ConnectionConfig)
    (primitive : PrimitiveType) (param : Int) (config : RuleConfig) : Bool :=
  matchRule config.toRule (inetAddr conn.peerIp) (inetAddr conn.myIp) primitive
    param

namespace Collective

/-- The connections that have a rule for the operation. -/
def FromConn (conn : ConnectionConfig) : Collective → Prop
  | allreduce => True
  | reduce _ => True
  | broadcast root => conn.peerId = root

/-- The connections its results go to. -/
def Reaches (conn : ConnectionConfig) : Collective → Prop
  | allreduce => True
  | reduce root => conn.peerId = root
  | broadcast root => conn.peerId ≠ root

instance (conn : ConnectionConfig) : DecidablePred (FromConn conn)
  | allreduce => .isTrue trivial
  | reduce _ => .isTrue trivial
  | broadcast root => inferInstanceAs (Decidable (conn.peerId = root))

instance (conn : ConnectionConfig) : DecidablePred (Reaches conn)
  | allreduce => .isTrue trivial
  | reduce root => inferInstanceAs (Decidable (conn.peerId = root))
  | broadcast root => inferInstanceAs (Decidable (conn.peerId ≠ root))

/-- The outgoing connections of the operation's rules. -/
def outConns (connections : List ConnectionConfig) : Collective → List Int
  | allreduce => getHostConns connections
  | reduce root => [getConnForRank connections root]
  | broadcast root => getHostConnsExcept connections root

/-- The rule of a connection for the operation. -/
def ruleOf (connections : List ConnectionConfig) (conn : ConnectionConfig)
    (operation : Collective) : RuleConfig :=
  match operation with
  | allreduce => uplinkRule conn 1 (-1) (operation.outConns connections)
  | reduce root => uplinkRule conn 2 root (operation.outConns connections)
  | broadcast root => uplinkRule conn 3 root (operation.outConns connections)

section RuleOf

variable {connections : List ConnectionConfig} {conn : ConnectionConfig}
  {operation : Collective}

@[simp]
theorem ruleOf_srcIp :
    (operation.ruleOf connections conn).srcIp = conn.peerIp := by
  cases operation <;> rfl

@[simp]
theorem ruleOf_dstIp :
    (operation.ruleOf connections conn).dstIp = conn.myIp := by
  cases operation <;> rfl

@[simp]
theorem ruleOf_primitive :
    .ofInt (operation.ruleOf connections conn).primitive =
      operation.metadata.1 := by
  cases operation <;> rfl

@[simp]
theorem ruleOf_primitiveParam :
    (operation.ruleOf connections conn).primitiveParam =
      operation.metadata.2 := by
  cases operation <;> rfl

@[simp]
theorem ruleOf_connId :
    (operation.ruleOf connections conn).connId = conn.connId := by
  cases operation <;> rfl

@[simp]
theorem ruleOf_direction :
    .ofInt (operation.ruleOf connections conn).direction =
      RuleDirection.up := by
  cases operation <;> rfl

@[simp]
theorem ruleOf_ackConn :
    (operation.ruleOf connections conn).ackConn = conn.connId := by
  cases operation <;> rfl

end RuleOf

end Collective

namespace Topology

variable {topology : Topology} {conn other : ConnectionConfig} {rank : Nat}

theorem nodup : topology.connections.Nodup := by
  refine List.nodup_iff_injective_get.mpr fun left right same => ?_
  have leftId := topology.connId_eq left left.isLt
  have rightId := topology.connId_eq right right.isLt
  rw [Fin.eta] at leftId rightId
  rw [same, rightId] at leftId
  exact Fin.ext (Int.ofNat.inj leftId).symm

theorem getElem?_connId (member : conn ∈ topology.connections) :
    0 ≤ conn.connId ∧
      topology.connections[conn.connId.toNat]? = some conn := by
  obtain ⟨⟨index, bound⟩, rfl⟩ := List.mem_iff_get.mp member
  rw [topology.connId_eq index bound]
  exact ⟨Int.natCast_nonneg index, List.getElem?_eq_getElem bound⟩

theorem connId_lt (member : conn ∈ topology.connections) :
    0 ≤ conn.connId ∧ conn.connId < topology.connections.length := by
  obtain ⟨nonnegative, stands⟩ := getElem?_connId member
  obtain ⟨bound, -⟩ := List.getElem?_eq_some_iff.mp stands
  omega

theorem eq_of_connId (member : conn ∈ topology.connections)
    (otherMember : other ∈ topology.connections)
    (same : other.connId = conn.connId) : other = conn := by
  have found := (getElem?_connId otherMember).2
  rw [same, (getElem?_connId member).2] at found
  exact (Option.some.inj found).symm

theorem exists_rank (bound : rank < topology.worldSize) :
    ∃ conn, topology.connections.filter (ConnectionConfig.isHost rank) =
      [conn] :=
  List.length_eq_one_iff.mp (topology.ranked rank bound)

structure HostOf (topology : Topology) (rank : Nat)
    (conn : ConnectionConfig) : Prop where
  member : conn ∈ topology.connections
  host : conn.isSwitch = false
  peerId : conn.peerId = rank
  unique : ∀ other ∈ topology.connections, other.isSwitch = false →
    other.peerId = rank → other = conn
  found : getConnForRank topology.connections rank = conn.connId
  single : topology.connections.filter (ConnectionConfig.isHost rank) = [conn]

theorem exists_hostOf (bound : rank < topology.worldSize) :
    ∃ conn, topology.HostOf rank conn := by
  obtain ⟨conn, single⟩ := exists_rank bound
  obtain ⟨member, isHost⟩ := mem_of_filter_eq single
  simp only [ConnectionConfig.isHost, Bool.and_eq_true, Bool.not_eq_true',
    decide_eq_true_eq] at isHost
  refine ⟨conn, member, isHost.1, isHost.2,
    fun other otherMember host same => ?_, ?_, ?_⟩
  · exact eq_of_filter_eq single otherMember
      (by simp [ConnectionConfig.isHost, host, same])
  · have first : (topology.connections.find? fun conn =>
        decide (!conn.isSwitch ∧ conn.peerId = (rank : Int))) = some conn := by
      rw [← List.head?_filter]
      simp only [Bool.decide_and, Bool.decide_eq_true]
      exact congrArg List.head? single
    simp only [getConnForRank, first]
  · exact single

theorem matchesPeer_uplinkRule {primitive : PrimitiveType} {param : Int}
    {code ruleParam : Int} {outs : List Int} :
    (uplinkRule other code ruleParam outs).matchesPeer conn primitive param =
        true ↔
      inetAddr other.peerIp = inetAddr conn.peerIp ∧
        inetAddr other.myIp = inetAddr conn.myIp ∧
          PrimitiveType.ofInt code = primitive ∧
            (primitive = .allreduce ∨ ruleParam = param) :=
  matchRule_iff

/-- One rule for every host connection gives a connection exactly one. -/
theorem filter_uplinks (distinct : topology.Distinct)
    (member : conn ∈ topology.connections) (host : conn.isSwitch = false)
    (primitive : PrimitiveType) (param code ruleParam : Int)
    (outs : List Int) :
    ((topology.connections.filter fun conn => !conn.isSwitch).map fun other =>
        uplinkRule other code ruleParam outs).filter
      (RuleConfig.matchesPeer conn primitive param) =
      if PrimitiveType.ofInt code = primitive ∧
          (primitive = .allreduce ∨ ruleParam = param) then
        [uplinkRule conn code ruleParam outs]
      else [] := by
  rw [List.filter_map]
  split_ifs with sameKey
  · have single : (topology.connections.filter fun conn => !conn.isSwitch).filter
        (RuleConfig.matchesPeer conn primitive param ∘ fun other =>
          uplinkRule other code ruleParam outs) = [conn] := by
      refine filter_eq_singleton _ (nodup.filter _)
        (List.mem_filter.mpr ⟨member, by simp [host]⟩) fun other inside => ?_
      rw [Function.comp_apply, matchesPeer_uplinkRule]
      constructor
      · rintro ⟨sameSrc, sameDst, -⟩
        exact distinct other (List.mem_filter.mp inside).1 conn member sameSrc
          sameDst
      · rintro rfl
        exact ⟨rfl, rfl, sameKey⟩
    rw [single]
    rfl
  · have empty : (topology.connections.filter fun conn => !conn.isSwitch).filter
        (RuleConfig.matchesPeer conn primitive param ∘ fun other =>
          uplinkRule other code ruleParam outs) = [] := by
      refine List.filter_eq_nil_iff.mpr fun other _ matching => sameKey ?_
      rw [Function.comp_apply, matchesPeer_uplinkRule] at matching
      exact matching.2.2
    rw [empty]
    rfl

theorem broadcastRules_eq :
    generateBroadcastRules topology.connections topology.worldSize =
      (List.range topology.worldSize).flatMap fun (sender : Nat) =>
        (topology.connections.filter (ConnectionConfig.isHost sender)).map
          fun conn => uplinkRule conn 3 sender
            (getHostConnsExcept topology.connections sender) := by
  refine List.flatMap_congr fun sender inside => ?_
  obtain ⟨conn, hostOf⟩ := exists_hostOf (List.mem_range.mp inside)
  obtain ⟨nonnegative, stands⟩ := getElem?_connId hostOf.member
  have notNegative : ¬conn.connId < 0 := by omega
  simp only [hostOf.found, notNegative, if_false, stands, hostOf.single]
  rfl

theorem filter_allreduce (distinct : topology.Distinct)
    (member : conn ∈ topology.connections) (host : conn.isSwitch = false)
    (primitive : PrimitiveType) (param : Int) :
    (generateAllreduceRules topology.connections).filter
        (RuleConfig.matchesPeer conn primitive param) =
      if primitive = .allreduce then
        [Collective.allreduce.ruleOf topology.connections conn]
      else [] := by
  rw [generateAllreduceRules, filter_uplinks distinct member host]
  refine if_congr ⟨fun same => same.1.symm, fun same => ?_⟩ rfl rfl
  exact ⟨same.symm, Or.inl same⟩

theorem filter_reduce (distinct : topology.Distinct)
    (member : conn ∈ topology.connections) (host : conn.isSwitch = false)
    (primitive : PrimitiveType) (param : Int) :
    (generateReduceRules topology.connections topology.worldSize).filter
        (RuleConfig.matchesPeer conn primitive param) =
      (List.range topology.worldSize).flatMap fun (root : Nat) =>
        if primitive = .reduce ∧ (root : Int) = param then
          [(Collective.reduce root).ruleOf topology.connections conn]
        else [] := by
  rw [generateReduceRules, List.filter_flatMap]
  refine List.flatMap_congr fun root _ => ?_
  rw [filter_uplinks distinct member host]
  refine if_congr ?_ rfl rfl
  constructor
  · rintro ⟨rfl, either⟩
    exact ⟨rfl, either.resolve_left (by decide)⟩
  · rintro ⟨rfl, same⟩
    exact ⟨rfl, Or.inr same⟩

theorem filter_broadcast (distinct : topology.Distinct)
    (member : conn ∈ topology.connections) (host : conn.isSwitch = false)
    (primitive : PrimitiveType) (param : Int) :
    (generateBroadcastRules topology.connections topology.worldSize).filter
        (RuleConfig.matchesPeer conn primitive param) =
      (List.range topology.worldSize).flatMap fun (sender : Nat) =>
        if primitive = .broadcast ∧ (sender : Int) = param ∧
            conn.peerId = sender then
          [(Collective.broadcast sender).ruleOf topology.connections conn]
        else [] := by
  rw [broadcastRules_eq, List.filter_flatMap]
  refine List.flatMap_congr fun sender inside => ?_
  obtain ⟨source, hostOf⟩ := exists_hostOf (List.mem_range.mp inside)
  have isSource : conn.peerId = sender ↔ source = conn :=
    ⟨fun same => (hostOf.unique conn member host same).symm,
      fun same => same ▸ hostOf.peerId⟩
  rw [hostOf.single, List.map_singleton]
  split_ifs with sameKey
  · obtain ⟨rfl, rfl, isPeer⟩ := sameKey
    obtain rfl := isSource.mp isPeer
    refine List.filter_eq_self.mpr fun rule inside => ?_
    rw [List.mem_singleton.mp inside, matchesPeer_uplinkRule]
    exact ⟨rfl, rfl, rfl, Or.inr rfl⟩
  · refine List.filter_eq_nil_iff.mpr fun rule inside matching => sameKey ?_
    rw [List.mem_singleton.mp inside, matchesPeer_uplinkRule] at matching
    obtain ⟨sameSrc, sameDst, rfl, either⟩ := matching
    exact ⟨rfl, either.resolve_left (by decide), isSource.mpr
      (distinct source hostOf.member conn member sameSrc sameDst)⟩

theorem filter_rules_eq (distinct : topology.Distinct)
    (member : conn ∈ topology.connections) (host : conn.isSwitch = false)
    (primitive : PrimitiveType) (param : Int) :
    topology.rules.filter (RuleConfig.matchesPeer conn primitive param) =
      (if primitive = .allreduce then
        [Collective.allreduce.ruleOf topology.connections conn]
      else []) ++
      ((List.range topology.worldSize).flatMap fun (root : Nat) =>
        if primitive = .reduce ∧ (root : Int) = param then
          [(Collective.reduce root).ruleOf topology.connections conn]
        else []) ++
      (List.range topology.worldSize).flatMap fun (sender : Nat) =>
        if primitive = .broadcast ∧ (sender : Int) = param ∧
            conn.peerId = sender then
          [(Collective.broadcast sender).ruleOf topology.connections conn]
        else [] := by
  rw [rules, generateRules, List.filter_append, List.filter_append,
    filter_allreduce distinct member host, filter_reduce distinct member host,
    filter_broadcast distinct member host]

/-- Every connection has one rule for an operation it takes part in as a source,
and none for another. -/
theorem filter_rules (distinct : topology.Distinct)
    (member : conn ∈ topology.connections) (host : conn.isSwitch = false)
    {operation : Collective} (valid : operation.Valid topology.worldSize)
    {param : Int}
    (key : operation = .allreduce ∨ param = operation.metadata.2) :
    topology.rules.filter
        (RuleConfig.matchesPeer conn operation.metadata.1 param) =
      if operation.FromConn conn then
        [operation.ruleOf topology.connections conn]
      else [] := by
  cases operation with
  | allreduce =>
      refine (filter_rules_eq distinct member host .allreduce param).trans ?_
      simp [Collective.FromConn]
  | reduce root =>
      obtain rfl : param = root := key.resolve_left (by simp)
      have bound : root ∈ List.range topology.worldSize :=
        List.mem_range.mpr valid
      refine (filter_rules_eq distinct member host .reduce root).trans ?_
      rw [flatMap_eq_of_unique _ List.nodup_range bound]
      · simp [Collective.FromConn]
      · intro other _ different
        simp [different]
  | broadcast root =>
      obtain rfl : param = root := key.resolve_left (by simp)
      have bound : root ∈ List.range topology.worldSize :=
        List.mem_range.mpr valid
      have noReduce : (List.range topology.worldSize).flatMap
          (fun other : Nat =>
            if PrimitiveType.broadcast = .reduce ∧ (other : Int) = root then
              [(Collective.reduce other).ruleOf topology.connections conn]
            else []) = [] :=
        List.flatMap_eq_nil_iff.mpr fun other _ => by simp
      refine (filter_rules_eq distinct member host .broadcast root).trans ?_
      rw [noReduce, flatMap_eq_of_unique _ List.nodup_range bound]
      · by_cases source : conn.peerId = root <;>
          simp [Collective.FromConn, source]
      · intro other _ different
        simp [different]

/-- Every rule is that of a host connection for an operation it sends data
of. -/
theorem mem_rules {rule : RuleConfig} :
    rule ∈ topology.rules ↔
      ∃ operation : Collective, operation.Valid topology.worldSize ∧
        ∃ conn ∈ topology.connections, conn.isSwitch = false ∧
          operation.FromConn conn ∧
            rule = operation.ruleOf topology.connections conn := by
  rw [rules, generateRules, broadcastRules_eq]
  simp only [generateAllreduceRules, generateReduceRules, List.mem_append,
    List.mem_map, List.mem_filter, List.mem_flatMap, List.mem_range,
    Bool.not_eq_true', ConnectionConfig.isHost, Bool.and_eq_true,
    decide_eq_true_eq]
  constructor
  · rintro ((⟨conn, ⟨member, host⟩, rfl⟩ |
      ⟨root, bound, conn, ⟨member, host⟩, rfl⟩) |
      ⟨sender, bound, conn, ⟨member, host, source⟩, rfl⟩)
    · exact ⟨.allreduce, trivial, conn, member, host, trivial, rfl⟩
    · exact ⟨.reduce root, bound, conn, member, host, trivial, rfl⟩
    · exact ⟨.broadcast sender, bound, conn, member, host, source, rfl⟩
  · rintro ⟨operation, valid, conn, member, host, source, rfl⟩
    cases operation with
    | allreduce => exact Or.inl (Or.inl ⟨conn, ⟨member, host⟩, rfl⟩)
    | reduce root =>
        exact Or.inl (Or.inr ⟨root, valid, conn, ⟨member, host⟩, rfl⟩)
    | broadcast sender =>
        exact Or.inr ⟨sender, valid, conn, ⟨member, host, source⟩, rfl⟩

theorem mem_getHostConns {id : Int} :
    id ∈ getHostConns topology.connections ↔
      ∃ conn ∈ topology.connections, conn.isSwitch = false ∧
        conn.connId = id := by
  simp [getHostConns, and_assoc]

theorem mem_getHostConnsExcept {id except : Int} :
    id ∈ getHostConnsExcept topology.connections except ↔
      ∃ conn ∈ topology.connections, conn.isSwitch = false ∧
        conn.peerId ≠ except ∧ conn.connId = id := by
  simp [getHostConnsExcept, and_assoc]

theorem nodup_connIds (kind : ConnectionConfig → Bool) :
    ((topology.connections.filter kind).map ConnectionConfig.connId).Nodup := by
  refine List.Nodup.map_on ?_ (nodup.filter _)
  intro left leftInside right rightInside same
  exact eq_of_connId (List.mem_filter.mp rightInside).1
    (List.mem_filter.mp leftInside).1 same

/-- The rule names every connection its operation reaches, once. -/
structure Serves (topology : Topology) (operation : Collective)
    (conn : ConnectionConfig) (rule : RuleConfig) : Prop where
  ackConn : rule.ackConn = conn.connId
  once : rule.outConns.Nodup
  outConns : ∀ id, id ∈ rule.outConns ↔
    ∃ other ∈ topology.connections, other.isSwitch = false ∧
      operation.Reaches other ∧ other.connId = id

theorem serves_ruleOf {operation : Collective}
    (valid : operation.Valid topology.worldSize) :
    topology.Serves operation conn
      (operation.ruleOf topology.connections conn) := by
  cases operation with
  | allreduce =>
      refine ⟨rfl, nodup_connIds _, fun id => ?_⟩
      exact mem_getHostConns.trans (by simp [Collective.Reaches])
  | broadcast root =>
      refine ⟨rfl, nodup_connIds _, fun id => ?_⟩
      exact mem_getHostConnsExcept.trans (by simp [Collective.Reaches])
  | reduce root =>
      obtain ⟨target, hostOf⟩ := exists_hostOf valid
      have single : ((Collective.reduce root).ruleOf topology.connections
          conn).outConns = [target.connId] :=
        congrArg (fun id => [id]) hostOf.found
      refine ⟨rfl, single ▸ List.nodup_singleton _, fun id => ?_⟩
      rw [single, List.mem_singleton]
      constructor
      · rintro rfl
        exact ⟨target, hostOf.member, hostOf.host, hostOf.peerId, rfl⟩
      · rintro ⟨other, member, host, same, rfl⟩
        rw [hostOf.unique other member host same]

end Topology

/-- The rules added one after the other; a full table takes no more. -/
def addRules (table : RuleTable) (rules : List Rule) : RuleTable :=
  rules.foldl (fun table rule => (addRule table rule).getD table) table

theorem addRules_eq {table : RuleTable} (room : table.rules.length ≤ maxRules)
    (rules : List Rule) :
    addRules table rules = ⟨(table.rules ++ rules).take maxRules⟩ := by
  induction rules generalizing table with
  | nil =>
      rw [List.append_nil, List.take_of_length_le room]
      rfl
  | cons rule rules induction =>
      by_cases full : table.rules.length ≥ maxRules
      · have same : (addRule table rule).getD table = table := by
          simp [addRule, full]
        rw [addRules, List.foldl_cons, same, ← addRules, induction room]
        have exactly : table.rules.length = maxRules := by omega
        rw [← exactly, List.take_left, List.take_left]
      · have added : (addRule table rule).getD table =
            ⟨table.rules ++ [rule]⟩ := by
          simp [addRule, full]
        rw [addRules, List.foldl_cons, added, ← addRules, induction]
        · simp
        · simp only [List.length_append, List.length_singleton]
          omega

namespace Topology

variable {topology : Topology} {conn : ConnectionConfig}

/-- The hosts of the switch. -/
def hosts (topology : Topology) : List ConnectionConfig :=
  topology.connections.filter fun conn => !conn.isSwitch

theorem length_rules :
    topology.rules.length = topology.hosts.length +
      topology.worldSize * topology.hosts.length + topology.worldSize := by
  have broadcast : (generateBroadcastRules topology.connections
      topology.worldSize).length = topology.worldSize := by
    rw [broadcastRules_eq, List.length_flatMap]
    have one : ∀ sender ∈ List.range topology.worldSize,
        ((topology.connections.filter (ConnectionConfig.isHost sender)).map
          fun conn => uplinkRule conn 3 sender
            (getHostConnsExcept topology.connections sender)).length = 1 := by
      intro sender inside
      rw [List.length_map]
      exact topology.ranked sender (List.mem_range.mp inside)
    rw [List.map_congr_left one]
    simp
  have reduce : (generateReduceRules topology.connections
      topology.worldSize).length =
        topology.worldSize * topology.hosts.length := by
    simp [generateReduceRules, List.length_flatMap, hosts]
  rw [rules, generateRules, List.length_append, List.length_append, broadcast,
    reduce, generateAllreduceRules, List.length_map]
  rfl

theorem rules_eq_append (topology : Topology) :
    ∃ earlier : List RuleConfig,
      earlier.length =
          topology.hosts.length + topology.worldSize * topology.hosts.length ∧
        (∀ rule ∈ earlier, PrimitiveType.ofInt rule.primitive ≠ .broadcast) ∧
        topology.rules = earlier ++
          generateBroadcastRules topology.connections topology.worldSize := by
  refine ⟨_, ?_, ?_, rfl⟩
  · simp [generateAllreduceRules, generateReduceRules, List.length_flatMap,
      hosts]
  · intro rule inside
    simp only [generateAllreduceRules, generateReduceRules, List.mem_append,
      List.mem_map, List.mem_flatMap] at inside
    rcases inside with ⟨conn, -, rfl⟩ | ⟨root, -, conn, -, rfl⟩
    · intro same
      cases same
    · intro same
      cases same

theorem not_broadcast_of_full
    (full : maxRules ≤
      topology.hosts.length + topology.worldSize * topology.hosts.length)
    {rule : Rule}
    (inside : rule ∈ (topology.rules.map RuleConfig.toRule).take maxRules) :
    rule.primitive ≠ .broadcast := by
  obtain ⟨earlier, length, noBroadcast, same⟩ := topology.rules_eq_append
  rw [same, ← List.map_take, List.take_append_of_le_length (length ▸ full),
    List.map_take] at inside
  obtain ⟨config, isEarlier, rfl⟩ :=
    List.mem_map.mp (List.mem_of_mem_take inside)
  exact noBroadcast config isEarlier

theorem toTable_eq {order : List RuleConfig} (fits : order.length ≤ maxRules) :
    addRules ⟨[]⟩ (order.map RuleConfig.toRule) =
      ⟨order.map RuleConfig.toRule⟩ := by
  rw [addRules_eq (Nat.zero_le _), List.nil_append, List.take_of_length_le]
  rwa [List.length_map]

theorem lookupRule_map (order : List RuleConfig) (conn : ConnectionConfig)
    (primitive : PrimitiveType) (param : Int) :
    lookupRule ⟨order.map RuleConfig.toRule⟩ (inetAddr conn.peerIp)
        (inetAddr conn.myIp) primitive param =
      (order.find? (RuleConfig.matchesPeer conn primitive param)).map
        RuleConfig.toRule := by
  rw [lookupRule, List.find?_map]
  rfl

/-- A host connection has exactly one rule for an operation it sends data of,
which names the connections the operation reaches, and in a table that holds all
rules this is the one that is found, in whatever order they were added. -/
theorem rules_meaning (topology : Topology) (distinct : topology.Distinct)
    {conn : ConnectionConfig} (member : conn ∈ topology.connections)
    (host : conn.isSwitch = false) {operation : Collective}
    (valid : operation.Valid topology.worldSize) {param : Int}
    (key : operation = .allreduce ∨ param = operation.metadata.2) :
    (operation.FromConn conn → ∃ rule,
      topology.rules.filter
          (RuleConfig.matchesPeer conn operation.metadata.1 param) = [rule] ∧
        topology.Serves operation conn rule ∧
        (topology.rules.length ≤ maxRules →
          ∀ order : List RuleConfig, order.Perm topology.rules →
            lookupRule (addRules ⟨[]⟩ (order.map RuleConfig.toRule))
                (inetAddr conn.peerIp) (inetAddr conn.myIp)
                operation.metadata.1 param =
              some rule.toRule)) ∧
    (¬operation.FromConn conn →
      topology.rules.filter
          (RuleConfig.matchesPeer conn operation.metadata.1 param) = [] ∧
        ∀ order : List RuleConfig, order.Perm topology.rules →
          lookupRule (addRules ⟨[]⟩ (order.map RuleConfig.toRule))
              (inetAddr conn.peerIp) (inetAddr conn.myIp)
              operation.metadata.1 param =
            none) := by
  have filtered := filter_rules distinct member host valid key
  constructor
  · intro source
    rw [if_pos source] at filtered
    refine ⟨_, filtered, serves_ruleOf valid, fun fits order perm => ?_⟩
    rw [toTable_eq (perm.length_eq ▸ fits), lookupRule_map,
      find?_eq_some_of_perm perm filtered]
    rfl
  · intro other
    rw [if_neg other] at filtered
    refine ⟨filtered, fun order perm => ?_⟩
    have none := find?_eq_none_of_perm perm filtered
    rw [addRules_eq (Nat.zero_le _), List.nil_append, lookupRule_eq_none_iff]
    intro rule inTable
    obtain ⟨config, inOrder, rfl⟩ :=
      List.mem_map.mp (List.mem_of_mem_take inTable)
    exact Bool.eq_false_iff.mpr (List.find?_eq_none.mp none config inOrder)

/-- Rank 1, another switch and rank 0. -/
def besideSwitch : Topology where
  worldSize := 2
  connections :=
    [{ hostConnection 0 "10.0.1.2" "10.0.1.1" with peerId := 1 },
      { hostConnection 1 "10.0.2.2" "10.0.2.1" with isSwitch := true },
      { hostConnection 2 "10.0.3.2" "10.0.3.1" with peerId := 0 }]
  connId_eq := by decide
  ranked := by decide

/-- Rank 1 finds its rule for its own Broadcast in a table of any order, and has
none while rank 0 broadcasts. -/
theorem rules_meaning_besideSwitch :
    (∃ rule, besideSwitch.Serves (.broadcast 1)
        { hostConnection 0 "10.0.1.2" "10.0.1.1" with peerId := 1 } rule ∧
      ∀ order : List RuleConfig, order.Perm besideSwitch.rules →
        lookupRule (addRules ⟨[]⟩ (order.map RuleConfig.toRule))
            (inetAddr "10.0.1.1") (inetAddr "10.0.1.2") .broadcast 1 =
          some rule.toRule) ∧
      besideSwitch.rules.filter (RuleConfig.matchesPeer
        { hostConnection 0 "10.0.1.2" "10.0.1.1" with peerId := 1 }
          .broadcast 0) = [] := by
  have distinct : besideSwitch.Distinct := by
    decide +kernel
  have member : { hostConnection 0 "10.0.1.2" "10.0.1.1" with peerId := 1 } ∈
      besideSwitch.connections := by
    simp [besideSwitch]
  have own : (Collective.broadcast 1).Valid besideSwitch.worldSize := by
    decide
  have other : (Collective.broadcast 0).Valid besideSwitch.worldSize := by
    decide
  constructor
  · obtain ⟨rule, -, serves, found⟩ := (rules_meaning besideSwitch distinct
      member rfl own (Or.inr rfl)).1 rfl
    exact ⟨rule, serves, found (by decide +kernel)⟩
  · exact ((rules_meaning besideSwitch distinct member rfl other
      (Or.inr rfl)).2 (by decide)).1

/-- Ten hosts. -/
def tenHosts : Topology where
  worldSize := 10
  connections :=
    ["10.0.0", "10.0.1", "10.0.2", "10.0.3", "10.0.4", "10.0.5", "10.0.6",
      "10.0.7", "10.0.8", "10.0.9"].mapIdx fun port net =>
        hostConnection port (net ++ ".2") (net ++ ".1")
  connId_eq := by decide
  ranked := by decide

/-- Ten hosts have 120 rules, and the table ends before those of Broadcast. -/
theorem not_found_tenHosts :
    ¬∀ (topology : Topology), topology.Distinct →
      ∀ conn ∈ topology.connections, conn.isSwitch = false →
      ∀ operation : Collective, operation.Valid topology.worldSize →
      operation.FromConn conn →
      ∀ order : List RuleConfig, order.Perm topology.rules →
        ∃ rule ∈ topology.rules,
          lookupRule (addRules ⟨[]⟩ (order.map RuleConfig.toRule))
              (inetAddr conn.peerIp) (inetAddr conn.myIp) operation.metadata.1
              operation.metadata.2 =
            some rule.toRule := by
  intro always
  have lost : (lookupRule (addRules ⟨[]⟩ (tenHosts.rules.map RuleConfig.toRule))
      (inetAddr "10.0.0.1") (inetAddr "10.0.0.2") .broadcast 0).isNone =
        true := by
    decide +kernel
  have distinct : tenHosts.Distinct := by
    decide +kernel
  obtain ⟨rule, -, found⟩ := always tenHosts distinct
    (hostConnection 0 "10.0.0.2" "10.0.0.1") (by decide +kernel) rfl
    (.broadcast 0) (show 0 < tenHosts.worldSize by decide) rfl _
    (List.Perm.refl _)
  have absent := Option.isNone_iff_eq_none.mp lost
  have present := absent.symm.trans found
  cases present

end Topology

end IncEmulation
