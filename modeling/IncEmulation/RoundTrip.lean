import IncEmulation.Parsing
import IncEmulation.Topology

/-!
# The round trip of a configuration

What a switch of hosts is configured with carries what the controller wrote,
exactly when the table holds every rule and the addresses tell the hosts apart.
-/

namespace IncEmulation

open Unique

section Mac

/-- The hexadecimal digits of a byte. -/
structure IsByteText (digits : List Char) (byte : BitVec 8) : Prop where
  nonempty : digits ≠ []
  value : digitsValue 16 0 digits = some byte.toNat

/-- The text of a MAC address. -/
def IsMacText (text : String) (mac : List (BitVec 8)) : Prop :=
  mac.length = 6 ∧ ∃ groups, List.Forall₂ IsByteText groups mac ∧
    text.toList = [':'].intercalate groups

theorem isSome_digitValue_of_digitsValue {base start value : Nat}
    {digits : List Char} (read : digitsValue base start digits = some value) :
    ∀ digit ∈ digits, (digitValue base digit).isSome = true := by
  induction digits generalizing start with
  | nil => exact fun digit inside => absurd inside List.not_mem_nil
  | cons first digits induction =>
      rw [digitsValue, Option.bind_eq_some_iff] at read
      obtain ⟨digit, firstRead, rest⟩ := read
      intro other inside
      rcases List.mem_cons.mp inside with rfl | later
      · rw [firstRead]
        rfl
      · exact induction rest other later

section Conversion

variable {digits tail : List Char} {byte : BitVec 8}

theorem dropWhile_of_digit {first : Char} {rest : List Char}
    (digit : (digitValue 16 first).isSome = true) :
    (first :: rest).dropWhile Char.isWhitespace = first :: rest := by
  refine List.dropWhile_cons_of_neg ?_
  intro blank
  have cases : first = ' ' ∨ first = '\t' ∨ first = '\r' ∨ first = '\n' := by
    simpa [Char.isWhitespace, or_assoc] using blank
  rcases cases with rfl | rfl | rfl | rfl <;> exact absurd digit (by decide)

theorem skipSign_of_digit {first : Char} {rest : List Char}
    (digit : (digitValue 16 first).isSome = true) :
    skipSign (first :: rest) = first :: rest := by
  unfold skipSign
  split
  · next same =>
    cases same
    exact absurd digit (by decide)
  · next same =>
    cases same
    exact absurd digit (by decide)
  · rfl

theorem skipPrefix_of_follows {first : Char} {rest : List Char}
    (follows : ∀ next ∈ rest.head?, next ≠ 'x' ∧ next ≠ 'X') :
    skipPrefix (first :: rest) = first :: rest := by
  unfold skipPrefix
  split
  · next same =>
    cases same
    exact absurd rfl (follows 'x' rfl).1
  · next same =>
    cases same
    exact absurd rfl (follows 'X' rfl).2
  · rfl

theorem scanHex_append (isByte : IsByteText digits byte)
    (stops : ∀ next ∈ tail.head?, next = ':') :
    scanHex (digits ++ tail) = some (byte.setWidth 32, tail) := by
  have areDigits := isSome_digitValue_of_digitsValue isByte.value
  have taken : (digits ++ tail).takeWhile
      (fun character => (digitValue 16 character).isSome) = digits := by
    rw [List.takeWhile_append_of_pos areDigits]
    cases tail with
    | nil => exact List.append_nil _
    | cons next tail =>
        obtain rfl := stops next rfl
        rw [List.takeWhile_cons_of_neg (by decide), List.append_nil]
  obtain ⟨first, rest, rfl⟩ := List.exists_cons_of_ne_nil isByte.nonempty
  have digit := areDigits first List.mem_cons_self
  have follows : ∀ next ∈ (rest ++ tail).head?, next ≠ 'x' ∧ next ≠ 'X' := by
    intro next isNext
    cases rest with
    | nil =>
        rw [stops next isNext]
        decide
    | cons second rest =>
        obtain rfl : second = next := by simpa using isNext
        have another := areDigits second (by simp)
        constructor <;> rintro rfl <;> exact absurd another (by decide)
  have notMinus : first ≠ '-' := by
    rintro rfl
    exact absurd digit (by decide)
  have small := byte.isLt
  rw [List.cons_append] at taken ⊢
  simp only [scanHex, dropWhile_of_digit digit, skipSign_of_digit digit,
    skipPrefix_of_follows follows, taken, isByte.value, List.head?_cons,
    Option.some.injEq, if_neg notMinus]
  rw [if_neg (by omega), ← List.cons_append, List.drop_left]
  have stored : BitVec.ofNat 32 byte.toNat = byte.setWidth 32 :=
    BitVec.ofNat_toNat ..
  rw [stored]

end Conversion

/-- `sscanf` reads the bytes that were written. -/
theorem scanMac_intercalate {groups : List (List Char)} {mac : List (BitVec 8)}
    (written : List.Forall₂ IsByteText groups mac)
    {stored : List (BitVec 8)} (same : stored.length = mac.length) :
    scanMac stored ([':'].intercalate groups) = mac := by
  induction written generalizing stored with
  | nil =>
      rw [List.length_eq_zero_iff.mp same]
      rfl
  | @cons digits byte groups mac isByte written induction =>
      obtain ⟨old, olds, rfl⟩ := List.exists_cons_of_length_eq_add_one same
      have sameRest : olds.length = mac.length := Nat.succ.inj same
      have narrow : (byte.setWidth 32).setWidth 8 = byte := by
        simp
      cases written with
      | nil =>
          have scanned : scanHex (digits ++ []) =
              some (byte.setWidth 32, []) := scanHex_append isByte nofun
          rw [List.append_nil] at scanned
          obtain rfl := List.length_eq_zero_iff.mp sameRest
          rw [List.intercalate_singleton]
          simp only [scanMac, scanned, narrow]
      | @cons nextDigits nextByte groups mac nextIsByte written =>
          have scanned : scanHex
              (digits ++ ':' :: [':'].intercalate (nextDigits :: groups)) =
                some (byte.setWidth 32,
                  ':' :: [':'].intercalate (nextDigits :: groups)) :=
            scanHex_append isByte (by simp)
          rw [List.intercalate_cons_cons, List.append_assoc,
            List.singleton_append]
          simp only [scanMac, scanned, narrow, induction sameRest]

theorem scanMac_of_isMacText {text : String} {mac stored : List (BitVec 8)}
    (isMac : IsMacText text mac) (six : stored.length = 6) :
    scanMac stored text.toList = mac := by
  obtain ⟨length, groups, written, same⟩ := isMac
  rw [same]
  exact scanMac_intercalate written (six.trans length.symm)

end Mac

/-- The stored connection carries every field of the configured one. -/
structure Connection.Carries (stored : Connection) (conn : ConnectionConfig) :
    Prop where
  device : stored.device = conn.myName
  myIp : stored.myIp = inetAddr conn.myIp
  peerIp : stored.peerIp = inetAddr conn.peerIp
  myMac : ∀ mac, IsMacText conn.myMac mac → stored.myMac = mac
  peerMac : ∀ mac, IsMacText conn.peerMac mac → stored.peerMac = mac
  myPort : (stored.myPort.toNat : Int) = conn.myPort
  peerPort : (stored.peerPort.toNat : Int) = conn.peerPort
  myQp : stored.myQp.toInt = conn.myQp
  peerQp : stored.peerQp.toInt = conn.peerQp

/-- The ports are port numbers. -/
structure ConnectionConfig.Ports (conn : ConnectionConfig) : Prop where
  my : 0 ≤ conn.myPort ∧ conn.myPort < 2 ^ 16
  peer : 0 ≤ conn.peerPort ∧ conn.peerPort < 2 ^ 16

theorem toNat_ofInt_port {port : Int} :
    ((BitVec.ofInt 16 port).toNat : Int) = port ↔ 0 ≤ port ∧ port < 2 ^ 16 := by
  rw [BitVec.toNat_ofInt]
  omega

theorem toInt_ofInt_qp {qp : Int} (fits : FitsInt qp) :
    (BitVec.ofInt 32 qp).toInt = qp := by
  obtain ⟨low, high⟩ := fits
  rw [BitVec.toInt_ofInt, Int.bmod_eq_of_le] <;> omega

theorem carries_toConnection {conn : ConnectionConfig} (fits : conn.Fits)
    (named : conn.myName.length ≤ 15) :
    conn.toConnection.Carries conn ↔ conn.Ports := by
  constructor
  · intro carries
    exact ⟨toNat_ofInt_port.mp carries.myPort,
      toNat_ofInt_port.mp carries.peerPort⟩
  · intro ports
    have whole : conn.myName.toList.take 15 = conn.myName.toList :=
      List.take_of_length_le (by rwa [String.length_toList])
    exact {
      device := by
        show String.ofList (conn.myName.toList.take 15) = conn.myName
        rw [whole, String.ofList_toList]
      myIp := rfl
      peerIp := rfl
      myMac := fun mac isMac => scanMac_of_isMacText isMac rfl
      peerMac := fun mac isMac => scanMac_of_isMacText isMac rfl
      myPort := toNat_ofInt_port.mpr ports.my
      peerPort := toNat_ofInt_port.mpr ports.peer
      myQp := toInt_ofInt_qp fits.myQp
      peerQp := toInt_ofInt_qp fits.peerQp }

/-- The stored rule carries every field of the generated one. -/
structure Rule.Carries (rule : Rule) (config : RuleConfig) : Prop where
  primitive : rule.primitive = .ofInt config.primitive
  primitiveParam : rule.primitiveParam = config.primitiveParam
  direction : rule.direction = .ofInt config.direction
  root : rule.root = config.root
  ackConn : rule.ackConn.map Int.ofNat = some config.ackConn
  outConns : rule.outConns.map Int.ofNat = config.outConns

section Pointers

variable {ids : List Int}

/-- Distinct ids are not cut off: there are as many ports as connections. -/
theorem outConnsOf_eq (once : ids.Nodup) :
    YamlReader.outConnsOf ids = ids.filterMap YamlReader.connectionPointer := by
  have pointers : (ids.filterMap YamlReader.connectionPointer).Nodup := by
    refine List.Nodup.filterMap ?_ once
    intro left right pointer leftPointer rightPointer
    simp only [YamlReader.connectionPointer, Option.mem_def,
      Option.ite_none_right_eq_some, Option.some.injEq]
      at leftPointer rightPointer
    omega
  refine List.take_of_length_le ?_
  have inside : ids.filterMap YamlReader.connectionPointer ⊆
      List.range maxConnectionsNum := by
    intro pointer isPointer
    obtain ⟨id, -, here⟩ := List.mem_filterMap.mp isPointer
    simp only [YamlReader.connectionPointer, Option.ite_none_right_eq_some,
      Option.some.injEq] at here
    exact List.mem_range.mpr (by omega)
  have shorter := (pointers.subperm inside).length_le
  rwa [List.length_range] at shorter

theorem mem_outConnsOf (once : ids.Nodup) {target : Nat} :
    target ∈ YamlReader.outConnsOf ids ↔
      (target : Int) ∈ ids ∧ target < maxConnectionsNum := by
  rw [outConnsOf_eq once, List.mem_filterMap]
  simp only [YamlReader.connectionPointer, Option.ite_none_right_eq_some,
    Option.some.injEq]
  constructor
  · rintro ⟨id, inside, bounds, rfl⟩
    rw [Int.toNat_of_nonneg bounds.1]
    exact ⟨inside, by omega⟩
  · rintro ⟨inside, few⟩
    exact ⟨target, inside, by omega, Int.toNat_natCast target⟩

theorem map_outConnsOf (inRange : ∀ id ∈ ids, 0 ≤ id ∧ id < maxConnectionsNum)
    (once : ids.Nodup) :
    (YamlReader.outConnsOf ids).map Int.ofNat = ids := by
  have pointers : ids.filterMap YamlReader.connectionPointer =
      ids.map Int.toNat := by
    rw [← List.filterMap_eq_map]
    refine List.filterMap_congr fun id inside => ?_
    rw [YamlReader.connectionPointer, if_pos (inRange id inside)]
    rfl
  rw [outConnsOf_eq once, pointers, List.map_map]
  conv_rhs => rw [← List.map_id ids]
  refine List.map_congr_left fun id inside => ?_
  exact Int.toNat_of_nonneg (inRange id inside).1

theorem carries_toRule {config : RuleConfig}
    (ackConn : 0 ≤ config.ackConn ∧ config.ackConn < maxConnectionsNum)
    (outConns : ∀ id ∈ config.outConns, 0 ≤ id ∧ id < maxConnectionsNum)
    (once : config.outConns.Nodup) : config.toRule.Carries config where
  primitive := rfl
  primitiveParam := rfl
  direction := rfl
  root := rfl
  ackConn := by
    simp only [RuleConfig.toRule, YamlReader.connectionPointer, if_pos ackConn]
    exact congrArg some (Int.toNat_of_nonneg ackConn.1)
  outConns := map_outConnsOf outConns once

end Pointers

namespace Topology

/-- The entry of the switch after `calculate_route`. -/
def switchConfig (topology : Topology) (id : Int) : SwitchConfig where
  id := id
  connections := topology.connections
  rules := topology.rules

/-- Only hosts, one for each rank, as many as the switch has connections for. -/
structure Star (topology : Topology) : Prop where
  host : ∀ conn ∈ topology.connections, conn.isSwitch = false
  complete : topology.worldSize = topology.connections.length
  few : topology.connections.length ≤ maxConnectionsNum
  fits : ∀ conn ∈ topology.connections, conn.Fits
  named : ∀ conn ∈ topology.connections, conn.myName.length ≤ 15

/-- The switch holds what the controller wrote. -/
structure RoundTrip (topology : Topology) (ctx : SwitchContext) : Prop where
  fanIn : ctx.fanIn = topology.connections.length
  conns : ∀ index (bound : index < topology.connections.length),
    (ctx.conns index).Carries (topology.connections.get ⟨index, bound⟩)
  rankToConn : ∀ rank < topology.worldSize, ∀ conn ∈ topology.connections,
    conn.peerId = rank → ctx.rankToConn rank = conn.connId
  otherRanks : ∀ rank : Int, rank < 0 ∨ topology.worldSize ≤ rank →
    ctx.rankToConn rank = -1
  rules : ∀ config ∈ topology.rules, ∃ rule,
    lookupRule ctx.routingTable (inetAddr config.srcIp) (inetAddr config.dstIp)
        (.ofInt config.primitive) config.primitiveParam = some rule ∧
      rule.Carries config

variable {topology : Topology} {conn : ConnectionConfig}

theorem small_of_mem_rules
    (connIds : ∀ conn ∈ topology.connections, FitsInt conn.connId)
    (world : FitsInt topology.worldSize) {rule : RuleConfig}
    (inside : rule ∈ topology.rules) : rule.Small := by
  have ranks : ∀ rank < topology.worldSize, FitsInt rank := by
    intro rank bound
    have high := world.2
    constructor <;> omega
  obtain ⟨operation, valid, conn, member, host, source, rfl⟩ :=
    mem_rules.mp inside
  have outs : ∀ out ∈ (operation.ruleOf topology.connections conn).outConns,
      FitsInt out := by
    intro out isOut
    obtain ⟨other, otherMember, -, -, rfl⟩ :=
      ((serves_ruleOf valid).outConns out).mp isOut
    exact connIds other otherMember
  have own := connIds conn member
  cases operation with
  | allreduce =>
      exact uplinkRule_small own (fitsInt_of_small (by decide) (by decide))
        (fitsInt_of_small (by decide) (by decide)) outs
  | reduce root =>
      exact uplinkRule_small own (fitsInt_of_small (by decide) (by decide))
        (ranks root valid) outs
  | broadcast root =>
      exact uplinkRule_small own (fitsInt_of_small (by decide) (by decide))
        (ranks root valid) outs

theorem switchConfig_fits
    (connIds : ∀ conn ∈ topology.connections, FitsInt conn.connId)
    (peerIds : ∀ conn ∈ topology.connections, FitsInt conn.peerId)
    (world : FitsInt topology.worldSize) {id : Int} (fits : FitsInt id) :
    (topology.switchConfig id).Fits where
  id := fits
  connIds := connIds
  peerIds := peerIds
  rules := fun _ inside => small_of_mem_rules connIds world inside

namespace Star

/-- As many hosts as ranks: every host has a rank. -/
theorem exists_rank (star : topology.Star)
    (member : conn ∈ topology.connections) :
    ∃ rank < topology.worldSize, topology.HostOf rank conn := by
  choose hostOf isHost using fun rank : Fin topology.worldSize =>
    show ∃ conn, topology.HostOf rank conn from exists_hostOf rank.isLt
  have inRange : ∀ other ∈ topology.connections,
      other.connId.toNat < topology.worldSize := by
    intro other otherMember
    have bounds := connId_lt otherMember
    have complete := star.complete
    omega
  let place : Fin topology.worldSize → Fin topology.worldSize := fun rank =>
    ⟨(hostOf rank).connId.toNat, inRange _ (isHost rank).member⟩
  have injective : Function.Injective place := by
    intro left right same
    have sameId : (hostOf left).connId = (hostOf right).connId := by
      have places : (hostOf left).connId.toNat = (hostOf right).connId.toNat :=
        congrArg Fin.val same
      have leftLow := (connId_lt (isHost left).member).1
      have rightLow := (connId_lt (isHost right).member).1
      omega
    have sameHost := eq_of_connId (isHost right).member (isHost left).member
      sameId
    have ranks := (isHost left).peerId
    rw [sameHost, (isHost right).peerId] at ranks
    exact Fin.ext (Int.ofNat.inj ranks).symm
  obtain ⟨rank, here⟩ := Finite.surjective_of_injective injective
    ⟨conn.connId.toNat, inRange conn member⟩
  have sameId : (hostOf rank).connId = conn.connId := by
    have places : (hostOf rank).connId.toNat = conn.connId.toNat :=
      congrArg Fin.val here
    have low := (connId_lt (isHost rank).member).1
    have connLow := (connId_lt member).1
    omega
  have same := eq_of_connId member (isHost rank).member sameId
  exact ⟨rank, rank.isLt, same ▸ isHost rank⟩

theorem hosts_eq (star : topology.Star) :
    topology.hosts = topology.connections :=
  List.filter_eq_self.mpr fun conn member => by simp [star.host conn member]

theorem worldSize_fits (star : topology.Star) : FitsInt topology.worldSize := by
  have complete := star.complete
  have few : topology.connections.length ≤ 10 := star.few
  exact fitsInt_of_small (by omega) (by omega)

theorem length_rules_le (star : topology.Star)
    (atMostNine : topology.connections.length ≤ 9) :
    topology.rules.length ≤ maxRules := by
  have square : topology.connections.length * topology.connections.length ≤
      9 * 9 := Nat.mul_le_mul atMostNine atMostNine
  rw [length_rules, star.hosts_eq, star.complete, maxRules]
  omega

end Star

theorem lookupRule_own (distinct : topology.Distinct) {config : RuleConfig}
    (inside : config ∈ topology.rules) :
    lookupRule ⟨topology.rules.map RuleConfig.toRule⟩ (inetAddr config.srcIp)
        (inetAddr config.dstIp) (.ofInt config.primitive)
        config.primitiveParam = some config.toRule := by
  obtain ⟨operation, valid, conn, member, host, source, rfl⟩ :=
    mem_rules.mp inside
  have single := filter_rules distinct member host valid
    (Or.inr (Eq.refl operation.metadata.2))
  rw [if_pos source] at single
  simp only [Collective.ruleOf_srcIp, Collective.ruleOf_dstIp,
    Collective.ruleOf_primitive, Collective.ruleOf_primitiveParam]
  rw [lookupRule_map, find?_eq_some_of_perm (List.Perm.refl _) single]
  rfl

/-- The connections the switch has room for. -/
def stored (topology : Topology) : List ConnectionConfig :=
  topology.connections.take maxConnectionsNum

/-- What the switch knows after its configuration. -/
structure Configures (topology : Topology) (ctx : SwitchContext) : Prop where
  fanIn : ctx.fanIn = topology.stored.length
  rankToConn : ctx.rankToConn =
    topology.stored.foldl ConnectionConfig.record fun _ => -1
  rules : ctx.routingTable.rules =
    (topology.rules.map RuleConfig.toRule).take maxRules

theorem configures (topology : Topology) (reader : YamlReader) (id : Int)
    (ctx : SwitchContext) :
    topology.Configures (ctx.configure reader (topology.switchConfig id)) :=
  ⟨rfl, rfl, rfl⟩

theorem Star.stored_eq (star : topology.Star) :
    topology.stored = topology.connections :=
  List.take_of_length_le star.few

theorem Star.conns_eq (star : topology.Star) {reader : YamlReader}
    (reads : reader.Reads) (id : Int) (ctx : SwitchContext) (index : Nat)
    (bound : index < topology.connections.length) :
    (ctx.configure reader (topology.switchConfig id)).conns index =
      (topology.connections.get ⟨index, bound⟩).toConnection := by
  have all : topology.connections.take maxConnectionsNum =
      topology.connections := star.stored_eq
  have here : (topology.connections.map ConnectionConfig.encode)[index]? =
      some (topology.connections.get ⟨index, bound⟩).encode := by
    rw [List.getElem?_map, List.getElem?_eq_getElem bound]
    rfl
  have stored : reader.storeConnections (fun _ => .zero) 0
      (topology.connections.map ConnectionConfig.encode) (0 + index) =
        reader.connectionOf (topology.connections.get ⟨index, bound⟩).encode :=
    YamlReader.storeConnections_get here
  rw [Nat.zero_add] at stored
  simp only [SwitchContext.configure, switchConfig, all]
  rw [stored]
  exact connectionOf_encode reads (star.fits _ (List.get_mem _ _))

namespace Configures

variable {ctx : SwitchContext}

theorem rankToConn_host (configures : topology.Configures ctx)
    (star : topology.Star) {rank : Nat} (hostOf : topology.HostOf rank conn)
    (bound : rank < topology.worldSize) :
    ctx.rankToConn rank = conn.connId := by
  have few : topology.connections.length ≤ 10 := star.few
  have complete := star.complete
  rw [configures.rankToConn, star.stored_eq]
  refine foldl_record_of_mem (Int.natCast_nonneg rank) ?_
    ⟨conn, hostOf.member, hostOf.host, hostOf.peerId⟩ ?_ _
  · simp only [maxRanks]
    omega
  · intro other member host peer
    rw [hostOf.unique other member host peer]

theorem rankToConn_other (configures : topology.Configures ctx)
    (star : topology.Star) {rank : Int}
    (other : rank < 0 ∨ topology.worldSize ≤ rank) :
    ctx.rankToConn rank = -1 := by
  rw [configures.rankToConn, star.stored_eq]
  refine foldl_record_of_absent (fun conn member _ peer => ?_) _
  obtain ⟨own, bound, hostOf⟩ := star.exists_rank member
  have ownPeer := hostOf.peerId
  omega

/-- Room for every rule and distinct addresses bring back every rule. -/
theorem rules_carried (configures : topology.Configures ctx)
    (star : topology.Star) (fits : topology.rules.length ≤ maxRules)
    (distinct : topology.Distinct) {config : RuleConfig}
    (inside : config ∈ topology.rules) :
    ∃ rule, lookupRule ctx.routingTable (inetAddr config.srcIp)
        (inetAddr config.dstIp) (.ofInt config.primitive)
        config.primitiveParam = some rule ∧ rule.Carries config := by
  have table : ctx.routingTable = ⟨topology.rules.map RuleConfig.toRule⟩ := by
    have rules := configures.rules
    rw [List.take_of_length_le (by rwa [List.length_map])] at rules
    exact congrArg RuleTable.mk rules
  have few := star.few
  have inRange : ∀ other ∈ topology.connections,
      0 ≤ other.connId ∧ other.connId < maxConnectionsNum := by
    intro other member
    have bounds := connId_lt member
    omega
  refine ⟨_, table ▸ lookupRule_own distinct inside, ?_⟩
  obtain ⟨operation, valid, conn, member, host, source, rfl⟩ :=
    mem_rules.mp inside
  have serves : topology.Serves operation conn
      (operation.ruleOf topology.connections conn) := serves_ruleOf valid
  refine carries_toRule ?_ ?_ serves.once
  · rw [serves.ackConn]
    exact inRange conn member
  · intro out isOut
    obtain ⟨other, otherMember, -, -, rfl⟩ := (serves.outConns out).mp isOut
    exact inRange other otherMember

end Configures

namespace RoundTrip

variable {ctx : SwitchContext}

/-- Ten hosts fill the table before the rules of Broadcast. -/
theorem atMostNine (roundTrip : topology.RoundTrip ctx) (star : topology.Star)
    (configures : topology.Configures ctx) :
    topology.connections.length ≤ 9 := by
  by_contra more
  have ten : 10 ≤ topology.connections.length := by omega
  have bound : 0 < topology.worldSize := by
    rw [star.complete]
    omega
  have full : maxRules ≤ topology.hosts.length +
      topology.worldSize * topology.hosts.length := by
    have square : 10 * 10 ≤ topology.connections.length *
        topology.connections.length := Nat.mul_le_mul ten ten
    rw [star.hosts_eq, star.complete, maxRules]
    omega
  obtain ⟨conn, hostOf⟩ := exists_hostOf bound
  have generated : (Collective.broadcast 0).ruleOf topology.connections conn ∈
      topology.rules :=
    mem_rules.mpr ⟨.broadcast 0, bound, conn, hostOf.member, hostOf.host,
      hostOf.peerId, rfl⟩
  obtain ⟨rule, found, carries⟩ := roundTrip.rules _ generated
  have inTable := List.mem_of_find?_eq_some found
  rw [configures.rules] at inTable
  exact not_broadcast_of_full full inTable carries.primitive

/-- Hosts with the same addresses would share the rule of one of them. -/
theorem distinct (roundTrip : topology.RoundTrip ctx) (star : topology.Star) :
    topology.Distinct := by
  intro left leftMember right rightMember sameSrc sameDst
  have generated : ∀ conn ∈ topology.connections,
      Collective.allreduce.ruleOf topology.connections conn ∈
        topology.rules := fun conn member =>
    mem_rules.mpr ⟨.allreduce, trivial, conn, member, star.host conn member,
      trivial, rfl⟩
  obtain ⟨leftRule, leftFound, leftCarries⟩ :=
    roundTrip.rules _ (generated left leftMember)
  obtain ⟨rightRule, rightFound, rightCarries⟩ :=
    roundTrip.rules _ (generated right rightMember)
  simp only [Collective.ruleOf_srcIp, Collective.ruleOf_dstIp,
    Collective.ruleOf_primitive, Collective.ruleOf_primitiveParam]
    at leftFound rightFound
  rw [sameSrc, sameDst, rightFound] at leftFound
  obtain rfl := Option.some.inj leftFound
  have sameId := leftCarries.ackConn.symm.trans rightCarries.ackConn
  rw [Collective.ruleOf_ackConn, Collective.ruleOf_ackConn] at sameId
  exact eq_of_connId rightMember leftMember (Option.some.inj sameId)

end RoundTrip

theorem Star.parseYamlConfig_eq (star : topology.Star) {reader : YamlReader}
    (reads : reader.Reads) {switches : List SwitchConfig} {position : Nat}
    {id : Int} (fits : FitsInt id)
    (found : switches[position]? = some (topology.switchConfig id))
    (ctx : SwitchContext) :
    reader.parseYamlConfig ctx
        (generateYamlForSwitch topology.worldSize switches position) =
      (ctx.configure reader (topology.switchConfig id), true) :=
  parseYamlConfig_encode reads topology.worldSize found
    (switchConfig_fits (fun conn member => (star.fits conn member).connId)
      (fun conn member => (star.fits conn member).peerId) star.worldSize_fits
      fits) ctx

/-- What a switch of hosts reads back is what the controller wrote exactly when
at most nine hosts have addresses of their own and ports that are port
numbers. -/
theorem roundTrip_iff (star : topology.Star) {reader : YamlReader}
    (reads : reader.Reads) {switches : List SwitchConfig} {position : Nat}
    {id : Int} (fits : FitsInt id)
    (found : switches[position]? = some (topology.switchConfig id))
    (ctx : SwitchContext) :
    (∃ configured, reader.parseYamlConfig ctx
        (generateYamlForSwitch topology.worldSize switches position) =
          (configured, true) ∧ topology.RoundTrip configured) ↔
      topology.connections.length ≤ 9 ∧ topology.Distinct ∧
        ∀ conn ∈ topology.connections, conn.Ports := by
  have configures := topology.configures reader id ctx
  have carried : ∀ index (bound : index < topology.connections.length),
      ((ctx.configure reader (topology.switchConfig id)).conns index).Carries
          (topology.connections.get ⟨index, bound⟩) ↔
        (topology.connections.get ⟨index, bound⟩).Ports := by
    intro index bound
    have member := List.get_mem topology.connections ⟨index, bound⟩
    rw [star.conns_eq reads id ctx index bound]
    exact carries_toConnection (star.fits _ member) (star.named _ member)
  rw [star.parseYamlConfig_eq reads fits found]
  constructor
  · rintro ⟨configured, same, roundTrip⟩
    obtain rfl := congrArg Prod.fst same
    refine ⟨roundTrip.atMostNine star configures, roundTrip.distinct star,
      fun conn member => ?_⟩
    obtain ⟨⟨index, bound⟩, rfl⟩ := List.mem_iff_get.mp member
    exact (carried index bound).mp (roundTrip.conns index bound)
  · rintro ⟨atMostNine, distinct, ports⟩
    have fanIn := configures.fanIn
    rw [star.stored_eq] at fanIn
    refine ⟨_, rfl, fanIn, fun index bound => ?_,
      fun rank bound conn member peer => ?_, fun rank other => ?_,
      fun config inside => ?_⟩
    · exact (carried index bound).mpr (ports _ (List.get_mem _ _))
    · obtain ⟨own, ownBound, hostOf⟩ := star.exists_rank member
      obtain rfl : own = rank := by
        have ownPeer := hostOf.peerId
        omega
      exact configures.rankToConn_host star hostOf ownBound
    · exact configures.rankToConn_other star other
    · exact configures.rules_carried star (star.length_rules_le atMostNine)
        distinct inside

instance (value : Int) : Decidable (FitsInt value) :=
  inferInstanceAs (Decidable (_ ∧ _))

instance (conn : ConnectionConfig) : Decidable conn.Fits :=
  decidable_of_iff
    (FitsInt conn.connId ∧ FitsInt conn.peerId ∧ FitsInt conn.myPort ∧
      FitsInt conn.myQp ∧ FitsInt conn.peerPort ∧ FitsInt conn.peerQp)
    ⟨fun ⟨connId, peerId, myPort, myQp, peerPort, peerQp⟩ =>
      ⟨connId, peerId, myPort, myQp, peerPort, peerQp⟩,
      fun ⟨connId, peerId, myPort, myQp, peerPort, peerQp⟩ =>
        ⟨connId, peerId, myPort, myQp, peerPort, peerQp⟩⟩

instance (conn : ConnectionConfig) : Decidable conn.Ports :=
  decidable_of_iff
    ((0 ≤ conn.myPort ∧ conn.myPort < 2 ^ 16) ∧
      0 ≤ conn.peerPort ∧ conn.peerPort < 2 ^ 16)
    ⟨fun ⟨my, peer⟩ => ⟨my, peer⟩, fun ⟨my, peer⟩ => ⟨my, peer⟩⟩

/-- Rank 1 on the first connection and rank 0 on the second. -/
def crossed : Topology where
  worldSize := 2
  connections :=
    [{ hostConnection 0 "10.0.1.2" "10.0.1.1" with
        peerId := 1, myName := "eth1", myMac := "52:54:00:46:57:28" },
      { hostConnection 1 "10.0.2.2" "10.0.2.1" with
        peerId := 0, myName := "eth2", myMac := "52:54:00:46:57:29" }]
  connId_eq := by decide
  ranked := by decide

theorem crossed_star : crossed.Star where
  host := by decide
  complete := rfl
  few := by decide
  fits := by decide
  named := by decide

theorem roundTrip_iff_crossed :
    ∃ configured, plainReader.parseYamlConfig (switchContextInit 0)
        (generateYamlForSwitch 2 [crossed.switchConfig 0] 0) =
          (configured, true) ∧ crossed.RoundTrip configured := by
  have distinct : crossed.Distinct := by
    decide +kernel
  exact (roundTrip_iff crossed_star plainReader_reads (by decide : FitsInt 0)
    (show [crossed.switchConfig 0][0]? = some (crossed.switchConfig 0) from rfl)
    (switchContextInit 0)).mpr ⟨by decide, distinct, by decide⟩

theorem tenHosts_star : tenHosts.Star where
  host := by decide
  complete := rfl
  few := by decide
  fits := by decide
  named := by decide

/-- The rules of Broadcast for ten hosts are lost. -/
theorem not_roundTrip_tenHosts :
    ¬∀ topology : Topology, topology.Star → 2 ≤ topology.connections.length →
      ∀ reader : YamlReader, reader.Reads → ∀ ctx : SwitchContext,
        ∃ configured, reader.parseYamlConfig ctx
            (generateYamlForSwitch topology.worldSize
              [topology.switchConfig 0] 0) = (configured, true) ∧
          topology.RoundTrip configured := by
  intro always
  obtain ⟨configured, same, roundTrip⟩ := always tenHosts tenHosts_star
    (by decide) plainReader plainReader_reads (switchContextInit 0)
  rw [tenHosts_star.parseYamlConfig_eq plainReader_reads
    (by decide : FitsInt 0) rfl] at same
  obtain rfl := congrArg Prod.fst same
  have atMostNine := roundTrip.atMostNine tenHosts_star
    (tenHosts.configures plainReader 0 _)
  exact absurd atMostNine (by decide)

end Topology

end IncEmulation
