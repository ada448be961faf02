import IncEmulation.RoundTrip

/-!
# The topology file and its parser (`topo_parser.cpp`)

`generate_yaml` writes all switches into one file, in which a switch looks its
own entry up with `parse_config`.  Nobody catches what yaml-cpp throws, so an
exception is all that is left of a call that throws.  A character of a name is
a byte.
-/

namespace IncEmulation

/-- What yaml-cpp throws when a node is read. -/
inductive YamlException where
  | invalidNode (key : String)
  | badConversion
  | badSubscript
  deriving DecidableEq

namespace YamlNode

/-- `node[key].as<T>()` of a constant node; `none` is an invalid one. -/
def fieldAs {Value : Type} (convert : YamlNode → Option Value)
    (node : Option YamlNode) (key : String) : Except YamlException Value :=
  match node with
  | none => .error (.invalidNode "")
  | some node =>
      if node.subscriptThrows then .error .badSubscript
      else
        match node.get key with
        | none => .error (.invalidNode key)
        | some field =>
            match convert field with
            | none => .error .badConversion
            | some value => .ok value

/-- The nodes that a loop visits.  The entries of a map are pairs, which are
invalid as nodes. -/
def loopNodes : Option YamlNode → List (Option YamlNode)
  | some (.sequence items) => items.map some
  | some (.map entries) => entries.map fun _ => none
  | _ => []

end YamlNode

/-- The file that the controller writes. -/
def generateYaml (worldSize : Int) (switches : List SwitchConfig) : YamlNode :=
  .map
    [("world_size", .ofInt worldSize),
      ("switches", .sequence (switches.map SwitchConfig.encode))]

namespace TopoParser

/-- A part of an address: decimal, at most 255, without a leading zero. -/
def octetValue (digits : List Char) : Option Nat :=
  match digits with
  | [] => none
  | '0' :: _ :: _ => none
  | _ => (digitsValue 10 0 digits).filter fun value => value < 256

/-- `get_ip` of `util.c`, which calls `inet_pton`. -/
def getIp (text : String) : Word :=
  match (text.toList.splitOn '.').mapM octetValue with
  | some [a, b, c, d] =>
      htonl (BitVec.ofNat 32 (a * 2 ^ 24 + b * 2 ^ 16 + c * 2 ^ 8 + d))
  | _ => 0

/-- The conversions of `sscanf`, `none` unless all of them succeed. -/
def scanGroups : Nat → List Char → Option (List Word)
  | 0, _ => some []
  | 1, text => (scanHex text).map fun scanned => [scanned.1]
  | groups + 2, text =>
      match scanHex text with
      | some (value, ':' :: rest) =>
          (scanGroups (groups + 1) rest).map fun values => value :: values
      | _ => none

/-- The return value and the address. -/
def parseMac (text : String) (mac : List (BitVec 8)) :
    Int × List (BitVec 8) :=
  match scanGroups 6 text.toList with
  | some values => (0, values.map fun value => value.setWidth 8)
  | none => (-1, mac)

/-- The fields of `connection_t` that the parser fills in. -/
structure Connection where
  device : List Char
  myMac : List (BitVec 8)
  peerMac : List (BitVec 8)
  myIp : Word
  peerIp : Word
  myPort : BitVec 16
  peerPort : BitVec 16
  myQp : Word
  peerQp : Word
  deriving DecidableEq

section Mac

theorem scanGroups_intercalate {groups : List (List Char)}
    {mac : List (BitVec 8)} (written : List.Forall₂ IsByteText groups mac) :
    scanGroups mac.length ([':'].intercalate groups) =
      some (mac.map fun byte => byte.setWidth 32) := by
  induction written with
  | nil => rfl
  | @cons digits byte groups mac isByte written induction =>
      cases written with
      | nil =>
          have scanned : scanHex (digits ++ []) =
              some (byte.setWidth 32, []) := scanHex_append isByte nofun
          rw [List.append_nil] at scanned
          rw [List.intercalate_singleton]
          simp [scanGroups, scanned]
      | @cons nextDigits nextByte groups mac nextIsByte written =>
          have scanned : scanHex
              (digits ++ ':' :: [':'].intercalate (nextDigits :: groups)) =
                some (byte.setWidth 32,
                  ':' :: [':'].intercalate (nextDigits :: groups)) :=
            scanHex_append isByte (by simp)
          rw [List.intercalate_cons_cons, List.append_assoc,
            List.singleton_append]
          simp only [List.length_cons, scanGroups, scanned]
          rw [List.length_cons] at induction
          rw [induction]
          rfl

theorem parseMac_of_isMacText {text : String} {mac : List (BitVec 8)}
    (isMac : IsMacText text mac) (stored : List (BitVec 8)) :
    parseMac text stored = (0, mac) := by
  obtain ⟨six, groups, written, same⟩ := isMac
  have scanned := scanGroups_intercalate written
  rw [six] at scanned
  rw [parseMac, same, scanned]
  have bytes : mac.map ((fun value : Word => value.setWidth 8) ∘
      fun byte => byte.setWidth 32) = mac := by
    conv_rhs => rw [← List.map_id mac]
    refine List.map_congr_left fun byte _ => ?_
    simp
  simp only [List.map_map, bytes]

end Mac

def nul : Char := Char.ofNat 0

/-- The bytes at `c_str()`; `beyond` lies behind the string. -/
def cString (text : String) (beyond : Nat → Char) (offset : Nat) : Char :=
  ((text.toList ++ [nul])[offset]?).getD (beyond offset)

/-- `memcpy(device, name.c_str(), 4)`. -/
def copyName (beyond : Nat → Char) (name : String) (device : List Char) :
    List Char :=
  (List.range 4).map (cString name beyond) ++ device.drop 4

/-- `*root` and `conns`. -/
structure Output where
  root : Int
  conns : Nat → Connection

section Parser

variable (reader : YamlReader) (beyond : Nat → Char)

/-- The body of the loop over the connections. -/
def readConnection (conn : Connection) (node : Option YamlNode) :
    Except YamlException Connection := do
  let myMac ← YamlNode.fieldAs reader.asString node "my_mac"
  let peerMac ← YamlNode.fieldAs reader.asString node "peer_mac"
  let myIp ← YamlNode.fieldAs reader.asString node "my_ip"
  let peerIp ← YamlNode.fieldAs reader.asString node "peer_ip"
  let myPort ← YamlNode.fieldAs reader.asInt node "my_port"
  let peerPort ← YamlNode.fieldAs reader.asInt node "peer_port"
  let myQp ← YamlNode.fieldAs reader.asInt node "my_qp"
  let peerQp ← YamlNode.fieldAs reader.asInt node "peer_qp"
  let myName ← YamlNode.fieldAs reader.asString node "my_name"
  return {
    device := copyName beyond myName conn.device
    myMac := (parseMac myMac conn.myMac).2
    peerMac := (parseMac peerMac conn.peerMac).2
    myIp := getIp myIp
    peerIp := getIp peerIp
    myPort := BitVec.ofInt 16 myPort
    peerPort := BitVec.ofInt 16 peerPort
    myQp := BitVec.ofInt 32 myQp
    peerQp := BitVec.ofInt 32 peerQp }

/-- The loop over the connections and what follows it. -/
def readConnections (maxCount : Int) (output : Output) (index : Nat) :
    List (Option YamlNode) → Except YamlException (Int × Output)
  | [] => .ok (index, output)
  | node :: nodes =>
      if maxCount ≤ index then .ok (-1, output)
      else do
        let conn ← readConnection reader beyond (output.conns index) node
        readConnections maxCount
          { output with conns := Function.update output.conns index conn }
          (index + 1) nodes

/-- The loop over the switches and what follows it. -/
def readSwitches (maxCount : Int) (switchId : Int) (output : Output) :
    List (Option YamlNode) → Except YamlException (Int × Output)
  | [] => .ok (-1, output)
  | sw :: switches => do
      let id ← YamlNode.fieldAs reader.asInt sw "id"
      if id = switchId then
        let root ← YamlNode.fieldAs reader.asBool sw "root"
        readConnections reader beyond maxCount
          { output with root := if root then 1 else 0 } 0
          (YamlNode.loopNodes (sw.bind fun node => node.get "connections"))
      else readSwitches maxCount switchId output switches

/-- The return value and the output, for the file that has been loaded. -/
def parseConfig (config : YamlNode) (maxCount : Int) (switchId : Int)
    (output : Output) : Except YamlException (Int × Output) :=
  if config.subscriptThrows then .error .badSubscript
  else
    readSwitches reader beyond maxCount switchId output
      (YamlNode.loopNodes (config.get "switches"))

end Parser

section Nodes

variable {reader : YamlReader} {beyond : Nat → Char}

/-- The connection after its entry has been read. -/
def Connection.fill (beyond : Nat → Char) (conn : Connection)
    (config : ConnectionConfig) : Connection where
  device := copyName beyond config.myName conn.device
  myMac := (parseMac config.myMac conn.myMac).2
  peerMac := (parseMac config.peerMac conn.peerMac).2
  myIp := getIp config.myIp
  peerIp := getIp config.peerIp
  myPort := BitVec.ofInt 16 config.myPort
  peerPort := BitVec.ofInt 16 config.peerPort
  myQp := BitVec.ofInt 32 config.myQp
  peerQp := BitVec.ofInt 32 config.peerQp

/-- The array after the entries from `index` on have been read. -/
def fillAll (beyond : Nat → Char) (conns : Nat → Connection) (index : Nat) :
    List ConnectionConfig → Nat → Connection
  | [] => conns
  | config :: configs =>
      fillAll beyond
        (Function.update conns index ((conns index).fill beyond config))
        (index + 1) configs

theorem readConnection_encode (reads : reader.Reads)
    {config : ConnectionConfig} (fits : config.Fits) (conn : Connection) :
    readConnection reader beyond conn (some config.encode) =
      .ok (conn.fill beyond config) := by
  simp [readConnection, Connection.fill, ConnectionConfig.encode,
    YamlNode.fieldAs, YamlNode.get, YamlNode.subscriptThrows, reads.asString,
    reads.asInt _ fits.myPort, reads.asInt _ fits.peerPort,
    reads.asInt _ fits.myQp, reads.asInt _ fits.peerQp]
  rfl

theorem readConnections_encode (reads : reader.Reads)
    {configs : List ConnectionConfig} (fits : ∀ config ∈ configs, config.Fits)
    {maxCount : Int} {index : Nat} (few : index + configs.length ≤ maxCount)
    (output : Output) :
    readConnections reader beyond maxCount output index
        (configs.map fun config => some config.encode) =
      .ok ((index + configs.length : Nat),
        { output with conns := fillAll beyond output.conns index configs }) := by
  induction configs generalizing index output with
  | nil => rfl
  | cons config configs induction =>
      have room : ¬maxCount ≤ index := by
        rw [List.length_cons] at few
        omega
      have read : readConnection reader beyond (output.conns index)
          (some config.encode) = .ok ((output.conns index).fill beyond config) :=
        readConnection_encode reads (fits config List.mem_cons_self) _
      rw [List.map_cons, readConnections, if_neg room, read]
      rw [List.length_cons] at few
      have fewer : (index + 1 : Nat) + configs.length ≤ maxCount := by
        omega
      have later := induction
        (fun other inside => fits other (List.mem_cons_of_mem _ inside)) fewer
        { output with
          conns := Function.update output.conns index
            ((output.conns index).fill beyond config) }
      rw [List.length_cons, show index + (configs.length + 1) =
        index + 1 + configs.length by omega]
      exact later

end Nodes

section Switches

variable {reader : YamlReader} {beyond : Nat → Char} {maxCount : Int}
  {switchId : Int} {output : Output} {switches : List SwitchConfig}
  {sw : SwitchConfig}

/-- Entries of other switches are passed over: the first one of the switch
decides. -/
theorem readSwitches_eq
    {entry : SwitchConfig → YamlNode}
    (ids : ∀ other ∈ switches,
      YamlNode.fieldAs reader.asInt (some (entry other)) "id" = .ok other.id)
    (found : switches.find? (fun other => other.id = switchId) = some sw) :
    readSwitches reader beyond maxCount switchId output
        (switches.map fun other => some (entry other)) = (do
      let root ← YamlNode.fieldAs reader.asBool (some (entry sw)) "root"
      readConnections reader beyond maxCount
        { output with root := if root then 1 else 0 } 0
        (YamlNode.loopNodes ((entry sw).get "connections"))) := by
  induction switches with
  | nil => cases found
  | cons first switches induction =>
      rw [List.map_cons, readSwitches, ids first List.mem_cons_self]
      by_cases own : first.id = switchId
      · rw [List.find?_cons_of_pos (by simpa using own)] at found
        cases found
        exact if_pos own
      · rw [List.find?_cons_of_neg (by simpa using own)] at found
        have later := induction
          (fun other inside => ids other (List.mem_cons_of_mem _ inside)) found
        exact (if_neg own).trans later

theorem exists_find (member : sw ∈ switches) :
    ∃ first, switches.find? (fun other => other.id = sw.id) = some first := by
  have found : (switches.find? fun other => other.id = sw.id).isSome = true :=
    List.find?_isSome.mpr ⟨sw, member, by simp⟩
  exact Option.isSome_iff_exists.mp found

/-- No entry of the controller's file names a root. -/
theorem parseConfig_generateYaml (reads : reader.Reads) {worldSize : Int}
    (ids : ∀ other ∈ switches, FitsInt other.id) (member : sw ∈ switches) :
    parseConfig reader beyond (generateYaml worldSize switches) maxCount sw.id
        output = .error (.invalidNode "root") := by
  obtain ⟨first, found⟩ := exists_find member
  have named : ∀ other ∈ switches,
      YamlNode.fieldAs reader.asInt (some other.encode) "id" = .ok other.id := by
    intro other inside
    simp [YamlNode.fieldAs, YamlNode.subscriptThrows, YamlNode.get,
      SwitchConfig.encode, reads.asInt _ (ids other inside)]
  have nodes : YamlNode.loopNodes ((generateYaml worldSize switches).get
      "switches") = switches.map fun other => some other.encode := by
    simp [generateYaml, YamlNode.get, YamlNode.loopNodes]
  have notThrown : (generateYaml worldSize switches).subscriptThrows = false :=
    rfl
  rw [parseConfig, if_neg (by simp [notThrown]), nodes,
    readSwitches_eq named found]
  rfl

end Switches

section Rooted

/-- The name that the switch opens its device with. -/
def Connection.deviceName (conn : Connection) : List Char :=
  conn.device.takeWhile fun character => character ≠ nul

/-- The connection carries what the controller wrote for it. -/
structure Connection.Carries (conn : Connection) (config : ConnectionConfig) :
    Prop where
  device : conn.deviceName = config.myName.toList
  myIp : conn.myIp = getIp config.myIp
  peerIp : conn.peerIp = getIp config.peerIp
  myMac : ∀ mac, IsMacText config.myMac mac → conn.myMac = mac
  peerMac : ∀ mac, IsMacText config.peerMac mac → conn.peerMac = mac
  myPort : (conn.myPort.toNat : Int) = config.myPort
  peerPort : (conn.peerPort.toNat : Int) = config.peerPort
  myQp : conn.myQp.toInt = config.myQp
  peerQp : conn.peerQp.toInt = config.peerQp

/-- The call succeeds and returns the connections of the switch. -/
def Loads (call : Except YamlException (Int × Output)) (sw : SwitchConfig) :
    Prop :=
  ∃ output, call = .ok ((sw.connections.length : Int), output) ∧
    ∀ index (bound : index < sw.connections.length),
      (output.conns index).Carries (sw.connections.get ⟨index, bound⟩)

/-- An entry as `parse_config` reads it. -/
def rooted (root : SwitchConfig → Bool) (sw : SwitchConfig) : YamlNode :=
  .map
    [("id", .ofInt sw.id),
      ("root", .ofBool (root sw)),
      ("connections", .sequence (sw.connections.map ConnectionConfig.encode))]

/-- A topology file whose entries name the root. -/
def rootedFile (root : SwitchConfig → Bool) (switches : List SwitchConfig) :
    YamlNode :=
  .map [("switches", .sequence (switches.map (rooted root)))]

variable {reader : YamlReader} {beyond : Nat → Char} {maxCount : Int}
  {output : Output} {switches : List SwitchConfig} {sw : SwitchConfig}

/-- Files with a root are read, up to `max_count` connections. -/
theorem parseConfig_rootedFile (reads : reader.Reads)
    (root : SwitchConfig → Bool)
    (ids : ∀ other ∈ switches, FitsInt other.id)
    (found : switches.find? (fun other => other.id = sw.id) = some sw)
    (fits : ∀ conn ∈ sw.connections, conn.Fits)
    (few : sw.connections.length ≤ maxCount) :
    parseConfig reader beyond (rootedFile root switches) maxCount sw.id output =
      .ok ((sw.connections.length : Int),
        { root := if root sw then 1 else 0
          conns := fillAll beyond output.conns 0 sw.connections }) := by
  have named : ∀ other ∈ switches,
      YamlNode.fieldAs reader.asInt (some (rooted root other)) "id" =
        .ok other.id := by
    intro other inside
    simp [YamlNode.fieldAs, YamlNode.subscriptThrows, YamlNode.get, rooted,
      reads.asInt _ (ids other inside)]
  have nodes : YamlNode.loopNodes ((rootedFile root switches).get "switches") =
      switches.map fun other => some (rooted root other) := by
    simp [rootedFile, YamlNode.get, YamlNode.loopNodes]
  have isRoot :
      YamlNode.fieldAs reader.asBool (some (rooted root sw)) "root" =
        .ok (root sw) := by
    simp [YamlNode.fieldAs, YamlNode.subscriptThrows, YamlNode.get, rooted,
      reads.asBool]
  have connections :
      YamlNode.loopNodes ((rooted root sw).get "connections") =
        sw.connections.map fun conn => some conn.encode := by
    simp [rooted, YamlNode.get, YamlNode.loopNodes]
  have notThrown : (rootedFile root switches).subscriptThrows = false := rfl
  rw [parseConfig, if_neg (by simp [notThrown]), nodes,
    readSwitches_eq named found, isRoot, connections]
  have room : (0 : Nat) + sw.connections.length ≤ maxCount := by
    omega
  have read : readConnections reader beyond maxCount
      { output with root := if root sw then 1 else 0 } 0
      (sw.connections.map fun conn => some conn.encode) = _ :=
    readConnections_encode reads fits room _
  rw [Nat.zero_add] at read
  exact read

theorem fillAll_of_lt {conns : Nat → Connection} {index position : Nat}
    (configs : List ConnectionConfig) (before : position < index) :
    fillAll beyond conns index configs position = conns position := by
  induction configs generalizing index conns with
  | nil => rfl
  | cons config configs induction =>
      rw [fillAll, induction (by omega), Function.update_of_ne (by omega)]

theorem fillAll_get {conns : Nat → Connection} {index offset : Nat}
    {configs : List ConnectionConfig} {config : ConnectionConfig}
    (found : configs[offset]? = some config) :
    fillAll beyond conns index configs (index + offset) =
      (conns (index + offset)).fill beyond config := by
  induction configs generalizing index offset conns with
  | nil => cases found
  | cons first configs induction =>
      rw [fillAll]
      cases offset with
      | zero =>
          obtain rfl : first = config := by simpa using found
          rw [fillAll_of_lt _ (by omega)]
          exact Function.update_self ..
      | succ offset =>
          have inRest : configs[offset]? = some config := by
            simpa using found
          rw [show index + (offset + 1) = index + 1 + offset by omega,
            induction inRest, Function.update_of_ne (by omega)]

/-- Four bytes are copied, and the array behind them was empty. -/
theorem takeWhile_copyName {name : String} (isText : nul ∉ name.toList)
    {device : List Char} (empty : ∀ character ∈ device, character = nul) :
    (copyName beyond name device).takeWhile
        (fun character => decide (character ≠ nul)) = name.toList.take 4 := by
  have behind : (device.drop 4).takeWhile
      (fun character => decide (character ≠ nul)) = [] := by
    cases rest : device.drop 4 with
    | nil => rfl
    | cons first others =>
        have inside : first ∈ device.drop 4 := by
          rw [rest]
          exact List.mem_cons_self
        have isNul := empty first (List.mem_of_mem_drop inside)
        exact List.takeWhile_cons_of_neg (by simp [isNul])
  have copied : copyName beyond name device =
      [cString name beyond 0, cString name beyond 1, cString name beyond 2,
        cString name beyond 3] ++ device.drop 4 := rfl
  rw [copied]
  simp only [cString]
  match name.toList, isText with
  | [], _ => simp
  | [a], isText =>
      have texts : a ≠ nul := by
        simpa [eq_comm] using isText
      simp [texts]
  | [a, b], isText =>
      have texts : a ≠ nul ∧ b ≠ nul := by
        simpa [eq_comm] using isText
      simp [texts]
  | [a, b, c], isText =>
      have texts : a ≠ nul ∧ b ≠ nul ∧ c ≠ nul := by
        simpa [eq_comm] using isText
      simp [texts]
  | a :: b :: c :: d :: rest, isText =>
      have texts : a ≠ nul ∧ b ≠ nul ∧ c ≠ nul ∧ d ≠ nul ∧ nul ∉ rest := by
        simpa [eq_comm] using isText
      simpa [texts] using behind

/-- A zeroed entry takes a connection over exactly when its name is short and
its ports are port numbers. -/
theorem carries_fill_iff {config : ConnectionConfig} (fits : config.Fits)
    (isText : nul ∉ config.myName.toList) {conn : Connection}
    (empty : ∀ character ∈ conn.device, character = nul) :
    (conn.fill beyond config).Carries config ↔
      config.myName.length ≤ 4 ∧ config.Ports := by
  have copied : (conn.fill beyond config).deviceName =
      config.myName.toList.take 4 := takeWhile_copyName isText empty
  constructor
  · intro carries
    have name : config.myName.toList.take 4 = config.myName.toList :=
      copied.symm.trans carries.device
    refine ⟨?_, toNat_ofInt_port.mp carries.myPort,
      toNat_ofInt_port.mp carries.peerPort⟩
    rw [← String.length_toList]
    exact List.take_eq_self_iff _ |>.mp name
  · rintro ⟨short, ports⟩
    have whole : config.myName.toList.take 4 = config.myName.toList :=
      List.take_of_length_le (by rwa [String.length_toList])
    exact {
      device := copied.trans whole
      myIp := rfl
      peerIp := rfl
      myMac := fun mac isMac => congrArg Prod.snd (parseMac_of_isMacText isMac _)
      peerMac := fun mac isMac =>
        congrArg Prod.snd (parseMac_of_isMacText isMac _)
      myPort := toNat_ofInt_port.mpr ports.my
      peerPort := toNat_ofInt_port.mpr ports.peer
      myQp := toInt_ofInt_qp fits.myQp
      peerQp := toInt_ofInt_qp fits.peerQp }

/-- Files with a root are taken over as far as four bytes of a name go. -/
theorem loads_rootedFile_iff (reads : reader.Reads)
    (root : SwitchConfig → Bool)
    (ids : ∀ other ∈ switches, FitsInt other.id)
    (found : switches.find? (fun other => other.id = sw.id) = some sw)
    (fits : ∀ conn ∈ sw.connections, conn.Fits)
    (texts : ∀ conn ∈ sw.connections, nul ∉ conn.myName.toList)
    (few : sw.connections.length ≤ maxCount)
    (empty : ∀ index, ∀ character ∈ (output.conns index).device,
      character = nul) :
    Loads (parseConfig reader beyond (rootedFile root switches) maxCount sw.id
        output) sw ↔
      ∀ conn ∈ sw.connections, conn.myName.length ≤ 4 ∧ conn.Ports := by
  have carries : ∀ index (bound : index < sw.connections.length),
      (fillAll beyond output.conns 0 sw.connections index).Carries
          (sw.connections.get ⟨index, bound⟩) ↔
        (sw.connections.get ⟨index, bound⟩).myName.length ≤ 4 ∧
          (sw.connections.get ⟨index, bound⟩).Ports := by
    intro index bound
    have filled : fillAll beyond output.conns 0 sw.connections (0 + index) =
        (output.conns (0 + index)).fill beyond
          (sw.connections.get ⟨index, bound⟩) :=
      fillAll_get (List.getElem?_eq_getElem bound)
    rw [Nat.zero_add] at filled
    rw [filled]
    exact carries_fill_iff (fits _ (List.get_mem ..)) (texts _ (List.get_mem ..))
      (empty index)
  rw [Loads, parseConfig_rootedFile reads root ids found fits few]
  constructor
  · rintro ⟨loaded, same, all⟩ conn inside
    cases same
    obtain ⟨⟨index, bound⟩, rfl⟩ := List.get_of_mem inside
    exact (carries index bound).mp (all index bound)
  · intro short
    exact ⟨_, rfl, fun index bound =>
      (carries index bound).mpr (short _ (List.get_mem ..))⟩

end Rooted

section File

/-- A switch as the controller holds it. -/
structure Held (sw : SwitchConfig) : Prop where
  id : FitsInt sw.id
  few : sw.connections.length ≤ maxConnectionsNum
  fits : ∀ conn ∈ sw.connections, conn.Fits
  ports : ∀ conn ∈ sw.connections, conn.Ports
  named : ∀ conn ∈ sw.connections, conn.myName.length ≤ 15

/-- The controller's file gives no switch its connections. -/
theorem not_loads {reader : YamlReader} (reads : reader.Reads)
    (beyond : Nat → Char) (worldSize maxCount : Int) (output : Output)
    {switches : List SwitchConfig} (ids : ∀ other ∈ switches, FitsInt other.id)
    {sw : SwitchConfig} (member : sw ∈ switches) :
    ¬Loads (parseConfig reader beyond (generateYaml worldSize switches) maxCount
      sw.id output) sw := by
  rintro ⟨loaded, same, -⟩
  rw [parseConfig_generateYaml reads ids member] at same
  cases same

/-- A switch with two hosts, and `conns` before anything is stored. -/
def hostsOf (id : Int) : SwitchConfig where
  id := id
  connections := twoHosts.connections
  rules := []

def Output.zero : Output where
  root := 0
  conns := fun _ =>
    { device := List.replicate 16 nul
      myMac := List.replicate 6 0
      peerMac := List.replicate 6 0
      myIp := 0
      peerIp := 0
      myPort := 0
      peerPort := 0
      myQp := 0
      peerQp := 0 }

theorem held_hostsOf {id : Int} (fits : FitsInt id) : Held (hostsOf id) where
  id := fits
  few := by
    show 2 ≤ 10
    decide
  fits := by
    show ∀ conn ∈ twoHosts.connections, conn.Fits
    decide
  ports := by
    show ∀ conn ∈ twoHosts.connections, conn.Ports
    decide
  named := by
    show ∀ conn ∈ twoHosts.connections, conn.myName.length ≤ 15
    decide

theorem not_loads_second :
    ¬Loads (parseConfig plainReader (fun _ => nul)
      (generateYaml 4 [hostsOf 0, hostsOf 1]) 10 1 .zero) (hostsOf 1) :=
  not_loads plainReader_reads (fun _ => nul) 4 10 .zero
    (by decide) (List.mem_cons_of_mem _ List.mem_cons_self)

theorem not_always_loads :
    ¬∀ (reader : YamlReader) (beyond : Nat → Char) (worldSize : Int)
        (switches : List SwitchConfig), reader.Reads →
      (∀ sw ∈ switches, Held sw) → ∀ sw ∈ switches,
        Loads (parseConfig reader beyond (generateYaml worldSize switches) 10
          sw.id .zero) sw := by
  intro always
  obtain ⟨loaded, same, -⟩ := always plainReader (fun _ => nul) 2 [hostsOf 0]
    plainReader_reads
    (fun sw inside => by
      obtain rfl := List.mem_singleton.mp inside
      exact held_hostsOf (by decide))
    (hostsOf 0) List.mem_cons_self
  rw [parseConfig_generateYaml plainReader_reads (by decide)
    List.mem_cons_self] at same
  cases same

end File

end TopoParser

end IncEmulation
