import IncEmulation.TopoParser

/-!
# How a host looks its switch port up (`get_switch_info`)

The search compares `peer_id` with the rank and does not look at `is_switch`, so
a link to the switch whose id is the rank answers as well.
-/

namespace IncEmulation

namespace TopoParser

/-- The return value, `*ip` and `*qpnum`. -/
structure SwitchInfo where
  result : Int
  ip : Word
  qpnum : Word
  deriving DecidableEq

section Search

variable (reader : YamlReader) (asUnsigned : YamlNode → Option Word)

/-- `peer_id`, else `host_id`, else -1. -/
def connPeerId (conn : Option YamlNode) : Except YamlException Int :=
  match conn with
  | none => .error (.invalidNode "")
  | some node =>
      if node.subscriptThrows then .error .badSubscript
      else if (node.get "peer_id").isSome then
        YamlNode.fieldAs reader.asInt conn "peer_id"
      else if (node.get "host_id").isSome then
        YamlNode.fieldAs reader.asInt conn "host_id"
      else .ok (-1)

/-- The loop over the connections; `none` where it ends without a match. -/
def searchConnections (rank : Int) :
    List (Option YamlNode) → Except YamlException (Option SwitchInfo)
  | [] => .ok none
  | conn :: conns => do
      let peerId ← connPeerId reader conn
      if peerId = rank then
        let myIp ← YamlNode.fieldAs reader.asString conn "my_ip"
        let myQp ← YamlNode.fieldAs asUnsigned conn "my_qp"
        return some ⟨0, getIp myIp, myQp⟩
      else searchConnections rank conns

/-- The loop over the switches and what follows it. -/
def searchSwitches (rank : Int) (info : SwitchInfo) :
    List (Option YamlNode) → Except YamlException SwitchInfo
  | [] => .ok { info with result := -1 }
  | none :: _ => .error (.invalidNode "")
  | some sw :: switches =>
      if sw.subscriptThrows then .error .badSubscript
      else do
        let found ← searchConnections reader asUnsigned rank
          (YamlNode.loopNodes (sw.get "connections"))
        match found with
        | some info => return info
        | none => searchSwitches rank info switches

/-- The return value and the outputs, for the file that has been loaded. -/
def getSwitchInfo (config : YamlNode) (rank : Int) (info : SwitchInfo) :
    Except YamlException SwitchInfo :=
  if config.subscriptThrows then .error .badSubscript
  else
    searchSwitches reader asUnsigned rank info
      (YamlNode.loopNodes (config.get "switches"))

end Search

/-- `as<unsigned int>` of what the library writes for an `int`. -/
def ReadsUnsigned (asUnsigned : YamlNode → Option Word) : Prop :=
  ∀ value, 0 ≤ value → FitsInt value →
    asUnsigned (.ofInt value) = some (BitVec.ofInt 32 value)

/-- The connections of all switches as they stand in the document. -/
def allConnections (switches : List SwitchConfig) : List ConnectionConfig :=
  switches.flatMap SwitchConfig.connections

/-- A host connection of the rank. -/
def HostOf (rank : Int) (conn : ConnectionConfig) : Prop :=
  conn.isSwitch = false ∧ conn.peerId = rank

/-- A connection to the switch with the rank for its id. -/
def LinkTo (rank : Int) (conn : ConnectionConfig) : Prop :=
  conn.isSwitch = true ∧ conn.peerId = rank

instance decidableLinkTo (rank : Int) : DecidablePred (LinkTo rank) :=
  fun _ => inferInstanceAs (Decidable (_ ∧ _))

/-- The rank appears on one host connection, which stands between the others. -/
structure OnlyHost (rank : Int) (connections before : List ConnectionConfig)
    (host : ConnectionConfig) (after : List ConnectionConfig) : Prop where
  stands : connections = before ++ host :: after
  host : HostOf rank host
  others : ∀ conn ∈ before ++ after, ¬HostOf rank conn

/-- A connection as the controller assigns it. -/
structure Assigned (conn : ConnectionConfig) : Prop where
  peerId : FitsInt conn.peerId
  myQp : FitsInt conn.myQp
  nonnegative : 0 ≤ conn.myQp

/-- What a host asks for, whatever the outputs held. -/
structure FindsPort
    (search : SwitchInfo → Except YamlException SwitchInfo)
    (connections : List ConnectionConfig) (rank : Int) : Prop where
  present : ∀ {before host after},
    OnlyHost rank connections before host after → ∀ info,
      search info =
        .ok ⟨0, getIp host.myIp, BitVec.ofInt 32 host.myQp⟩
  absent : (∀ conn ∈ connections, ¬HostOf rank conn) → ∀ info,
    ∃ left, search info = .ok left ∧ left.result = -1

/-- The first link to the switch of that id in front of the host does not
differ from the host, and there is none without a host. -/
structure Unshadowed (connections : List ConnectionConfig) (rank : Int) :
    Prop where
  present : ∀ {before host after},
    OnlyHost rank connections before host after →
      ∀ link ∈ before.find? (fun conn => LinkTo rank conn),
        getIp link.myIp = getIp host.myIp ∧ link.myQp = host.myQp
  absent : (∀ conn ∈ connections, ¬HostOf rank conn) →
    ∀ conn ∈ connections, ¬LinkTo rank conn

section Results

variable {reader : YamlReader} {asUnsigned : YamlNode → Option Word}
  {rank : Int} {connections : List ConnectionConfig}
  {switches : List SwitchConfig} {info : SwitchInfo}

/-- What the search makes of a connection. -/
def portOf (conn : ConnectionConfig) : SwitchInfo :=
  ⟨0, getIp conn.myIp, BitVec.ofInt 32 conn.myQp⟩

theorem searchConnections_encode (reads : reader.Reads)
    (readsUnsigned : ReadsUnsigned asUnsigned)
    (assigned : ∀ conn ∈ connections, Assigned conn) :
    searchConnections reader asUnsigned rank
        (connections.map fun conn => some conn.encode) =
      .ok ((connections.find? fun conn => conn.peerId = rank).map portOf) := by
  induction connections with
  | nil => rfl
  | cons conn connections induction =>
      have own := assigned conn List.mem_cons_self
      have later := induction fun other member =>
        assigned other (List.mem_cons_of_mem _ member)
      have peerId : connPeerId reader (some conn.encode) = .ok conn.peerId := by
        simp [connPeerId, ConnectionConfig.encode, YamlNode.fieldAs,
          YamlNode.get, YamlNode.subscriptThrows, reads.asInt _ own.peerId]
      have myIp : YamlNode.fieldAs reader.asString (some conn.encode) "my_ip" =
          .ok conn.myIp := by
        simp [ConnectionConfig.encode, YamlNode.fieldAs, YamlNode.get,
          YamlNode.subscriptThrows, reads.asString]
      have myQp : YamlNode.fieldAs asUnsigned (some conn.encode) "my_qp" =
          .ok (BitVec.ofInt 32 conn.myQp) := by
        simp [ConnectionConfig.encode, YamlNode.fieldAs, YamlNode.get,
          YamlNode.subscriptThrows, readsUnsigned _ own.nonnegative own.myQp]
      rw [List.map_cons, searchConnections, peerId, myIp, myQp, later]
      by_cases here : conn.peerId = rank
      · rw [List.find?_cons_of_pos (by simpa using here)]
        exact if_pos here
      · rw [List.find?_cons_of_neg (by simpa using here)]
        exact if_neg here

theorem searchSwitches_encode (reads : reader.Reads)
    (readsUnsigned : ReadsUnsigned asUnsigned)
    (assigned : ∀ conn ∈ allConnections switches, Assigned conn) :
    searchSwitches reader asUnsigned rank info
        (switches.map fun sw => some sw.encode) =
      .ok (((allConnections switches).find?
        fun conn => conn.peerId = rank).elim { info with result := -1 }
          portOf) := by
  induction switches with
  | nil => rfl
  | cons sw switches induction =>
      have flat : allConnections (sw :: switches) =
          sw.connections ++ allConnections switches := List.flatMap_cons
      rw [flat] at assigned
      have nodes : YamlNode.loopNodes (sw.encode.get "connections") =
          sw.connections.map fun conn => some conn.encode := by
        simp [SwitchConfig.encode, YamlNode.get, YamlNode.loopNodes]
      have first : searchConnections reader asUnsigned rank
          (sw.connections.map fun conn => some conn.encode) = _ :=
        searchConnections_encode reads readsUnsigned fun conn member =>
          assigned conn (List.mem_append_left _ member)
      have later := induction fun conn member =>
        assigned conn (List.mem_append_right _ member)
      have notThrown : ¬sw.encode.subscriptThrows = true := Bool.false_ne_true
      rw [List.map_cons, searchSwitches, if_neg notThrown, nodes, first, later,
        flat, List.find?_append]
      cases sw.connections.find? fun conn => conn.peerId = rank with
      | none => rfl
      | some conn => rfl

theorem getSwitchInfo_generateYaml (reads : reader.Reads)
    (readsUnsigned : ReadsUnsigned asUnsigned) {worldSize : Int}
    (assigned : ∀ conn ∈ allConnections switches, Assigned conn) :
    getSwitchInfo reader asUnsigned (generateYaml worldSize switches) rank
        info =
      .ok (((allConnections switches).find?
        fun conn => conn.peerId = rank).elim { info with result := -1 }
          portOf) := by
  have nodes : YamlNode.loopNodes ((generateYaml worldSize switches).get
      "switches") = switches.map fun sw => some sw.encode := by
    simp [generateYaml, YamlNode.get, YamlNode.loopNodes]
  have notThrown : ¬(generateYaml worldSize switches).subscriptThrows = true :=
    Bool.false_ne_true
  rw [getSwitchInfo, if_neg notThrown, nodes]
  exact searchSwitches_encode reads readsUnsigned assigned

/-- In front of the only host the search stops at links alone. -/
theorem OnlyHost.find? {before after : List ConnectionConfig}
    {host : ConnectionConfig}
    (only : OnlyHost rank connections before host after) :
    connections.find? (fun conn => conn.peerId = rank) =
      some ((before.find? fun conn => LinkTo rank conn).getD host) := by
  have same : before.find? (fun conn => conn.peerId = rank) =
      before.find? fun conn => LinkTo rank conn := by
    refine List.find?_congr fun conn member => ?_
    have noHost := only.others conn (List.mem_append_left _ member)
    cases kind : conn.isSwitch with
    | false =>
        have other : conn.peerId ≠ rank := fun own => noHost ⟨kind, own⟩
        simp [LinkTo, kind, other]
    | true => simp [LinkTo, kind]
  rw [only.stands, List.find?_append, same,
    List.find?_cons_of_pos (by simpa using only.host.2)]
  cases before.find? fun conn => LinkTo rank conn <;> rfl

end Results

theorem portOf_eq_iff {link host : ConnectionConfig} (linked : Assigned link)
    (hosted : Assigned host) :
    portOf link = portOf host ↔
      getIp link.myIp = getIp host.myIp ∧ link.myQp = host.myQp := by
  constructor
  · intro same
    refine ⟨congrArg SwitchInfo.ip same, ?_⟩
    have qpnum : BitVec.ofInt 32 link.myQp = BitVec.ofInt 32 host.myQp :=
      congrArg SwitchInfo.qpnum same
    rw [← toInt_ofInt_qp linked.myQp, qpnum, toInt_ofInt_qp hosted.myQp]
  · rintro ⟨ip, qp⟩
    rw [portOf, portOf, ip, qp]

/-- A host finds its port exactly when no link to a switch stands in for it. -/
theorem findsPort_iff {reader : YamlReader} (reads : reader.Reads)
    {asUnsigned : YamlNode → Option Word}
    (readsUnsigned : ReadsUnsigned asUnsigned) (worldSize : Int)
    {switches : List SwitchConfig}
    (assigned : ∀ conn ∈ allConnections switches, Assigned conn) (rank : Int) :
    FindsPort
        (getSwitchInfo reader asUnsigned (generateYaml worldSize switches) rank)
        (allConnections switches) rank ↔
      Unshadowed (allConnections switches) rank := by
  have searched (info : SwitchInfo) : getSwitchInfo reader asUnsigned
      (generateYaml worldSize switches) rank info = _ :=
    getSwitchInfo_generateYaml reads readsUnsigned assigned
  constructor
  · intro finds
    refine ⟨?_, ?_⟩
    · intro before host after only link found
      have port := finds.present only ⟨0, 0, 0⟩
      rw [searched, only.find?, Option.mem_def.mp found] at port
      have linkStands : link ∈ allConnections switches := by
        rw [only.stands]
        exact List.mem_append_left _
          (List.mem_of_find?_eq_some (Option.mem_def.mp found))
      have hostStands : host ∈ allConnections switches := by
        rw [only.stands]
        exact List.mem_append_right _ List.mem_cons_self
      exact (portOf_eq_iff (assigned link linkStands)
        (assigned host hostStands)).mp (Except.ok.inj port)
    · intro noHost conn member linked
      obtain ⟨left, found, failed⟩ := finds.absent noHost ⟨0, 0, 0⟩
      rw [searched] at found
      obtain rfl := Except.ok.inj found
      cases first : (allConnections switches).find?
          fun conn => conn.peerId = rank with
      | none =>
          have other := List.find?_eq_none.mp first conn member
          exact absurd linked.2 (by simpa using other)
      | some other =>
          rw [first] at failed
          have succeeded : (0 : Int) = -1 := failed
          exact absurd succeeded (by decide)
  · intro clear
    refine ⟨?_, ?_⟩
    · intro before host after only info
      rw [searched, only.find?]
      cases first : before.find? fun conn => LinkTo rank conn with
      | none => rfl
      | some link =>
          obtain ⟨ip, qp⟩ := clear.present only link first
          show Except.ok (portOf link) = _
          rw [portOf, ip, qp]
    · intro noHost info
      refine ⟨_, searched info, ?_⟩
      have nothing : (allConnections switches).find?
          (fun conn => conn.peerId = rank) = none := by
        refine List.find?_eq_none.mpr fun conn member own => ?_
        have own : conn.peerId = rank := by simpa using own
        cases kind : conn.isSwitch with
        | false => exact noHost conn member ⟨kind, own⟩
        | true => exact clear.absent noHost conn member ⟨kind, own⟩
      rw [nothing]
      rfl

/-- Two switches with one host each, of ranks 0 and 1; the switches have ids
0 and 1 and the link between them comes first. -/
def linkFirst : List SwitchConfig :=
  [{ id := 0
     connections :=
      [{ hostConnection 0 "10.0.9.1" "10.0.9.2" with
          isSwitch := true
          peerId := 1 },
        { hostConnection 1 "10.0.1.2" "10.0.1.1" with peerId := 0 }]
     rules := [] },
    { id := 1
      connections :=
        [{ hostConnection 0 "10.0.9.2" "10.0.9.1" with
            isSwitch := true
            peerId := 0 },
          { hostConnection 1 "10.0.2.2" "10.0.2.1" with peerId := 1 }]
      rules := [] }]

theorem assigned_linkFirst :
    ∀ conn ∈ allConnections linkFirst, Assigned conn := by
  have all : ∀ conn ∈ allConnections linkFirst, FitsInt conn.peerId ∧
      FitsInt conn.myQp ∧ 0 ≤ conn.myQp := by
    decide
  exact fun conn member =>
    ⟨(all conn member).1, (all conn member).2.1, (all conn member).2.2⟩

/-- An unsigned conversion that goes with `plainReader`. -/
def plainUnsigned (node : YamlNode) : Option Word :=
  (plainReader.asInt node).map fun value => BitVec.ofInt 32 value

theorem plainUnsigned_reads : ReadsUnsigned plainUnsigned := by
  intro value _ fits
  rw [plainUnsigned, plainReader_reads.asInt _ fits]
  rfl

theorem findsPort_iff_linkFirst :
    FindsPort (getSwitchInfo plainReader plainUnsigned
        (generateYaml 2 linkFirst) 0) (allConnections linkFirst) 0 ↔
      Unshadowed (allConnections linkFirst) 0 :=
  findsPort_iff plainReader_reads plainUnsigned_reads 2 assigned_linkFirst 0

/-- Rank 1 is given the end of the link. -/
theorem not_always_findsPort :
    ¬∀ (reader : YamlReader) (asUnsigned : YamlNode → Option Word),
      reader.Reads → ReadsUnsigned asUnsigned →
        ∀ (worldSize : Int) (switches : List SwitchConfig),
          (∀ conn ∈ allConnections switches, Assigned conn) → ∀ rank,
            FindsPort
              (getSwitchInfo reader asUnsigned (generateYaml worldSize switches)
                rank)
              (allConnections switches) rank := by
  intro always
  have finds := always plainReader plainUnsigned plainReader_reads
    plainUnsigned_reads 2 linkFirst assigned_linkFirst 1
  have only : OnlyHost 1 (allConnections linkFirst)
      ((allConnections linkFirst).take 3)
      { hostConnection 1 "10.0.2.2" "10.0.2.1" with peerId := 1 } [] :=
    ⟨rfl, ⟨rfl, rfl⟩, by unfold HostOf; decide⟩
  have port := finds.present only ⟨0, 0, 0⟩
  rw [getSwitchInfo_generateYaml plainReader_reads plainUnsigned_reads
    assigned_linkFirst] at port
  revert port
  decide +kernel

end TopoParser

end IncEmulation
