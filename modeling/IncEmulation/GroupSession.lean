import IncEmulation.Controller
import IncEmulation.Lib.Bytes

/-!
# The controller's session with rank 0 (`group_session`)

Requests arrive complete.  An access outside what was allocated, and one
through the null pointer that `group` starts as, ends the session with a
`Fault`; nothing is said about what the program does behind it.
-/

namespace IncEmulation

namespace GroupSession

open Memory

inductive Fault where
  | nullGroup
  | outOfBounds
  deriving DecidableEq

/-- `switch_port`. -/
structure SwitchPort where
  name : String
  ip : String
  mac : String

/-- `switch_topology[0]`. -/
structure SwitchTopology where
  id : Int
  ports : List SwitchPort

/-- `controller_group` with the words that `ip_list` owns. -/
structure Group where
  id : Nat
  worldSize : Nat
  ipList : List Word
  deriving DecidableEq

/-- `controller_communicator` once its route is calculated, as far as the
configurations are generated from it. -/
structure Communicator where
  id : Nat
  worldSize : Nat
  qpList : List Word
  switches : List SwitchConfig
  deriving DecidableEq

/-- The variables of `group_session` and the two static counters. -/
structure Session where
  group : Option Group
  worldSize : Nat
  comms : List Communicator
  groupNum : Nat
  communicatorNum : Nat

def Session.start : Session where
  group := none
  worldSize := 0
  comms := []
  groupNum := 0
  communicatorNum := 10

/-- `'G'` with `world_size` and the IPs, `'C'` with the QP numbers. -/
inductive Request where
  | group (worldSize : Nat) (ips : List Word)
  | communicator (qps : List Word)
  deriving DecidableEq

/-- `new uint32_t(ws)`: one word, of value `ws`. -/
def newWords (ws : Nat) : List Word := [BitVec.ofNat 32 ws]

def read {α : Type} (values : List α) (index : Nat) : Except Fault α :=
  match values[index]? with
  | some value => .ok value
  | none => .error .outOfBounds

def write {α : Type} (values : List α) (index : Nat) (value : α) :
    Except Fault (List α) :=
  if index < values.length then .ok (values.set index value)
  else .error .outOfBounds

/-- The loops that receive one word for each rank. -/
def receiveWords (list : List Word) (rank : Nat) :
    List Word → Except Fault (List Word)
  | [] => .ok list
  | word :: words => do
      let list ← write list rank word
      receiveWords list (rank + 1) words

/-- `inet_ntop`. -/
def inetNtop (address : Word) : String :=
  ".".intercalate ((bytesOfWord address).map fun byte => toString byte.toNat)

section Route

variable (topology : SwitchTopology) (uninitialised : ConnectionConfig)

/-- The connections as they are pushed; the other fields of a `cc` are filled in
later, for two of them. -/
def initConnections (id : Nat) : List ConnectionConfig :=
  topology.ports.mapIdx fun connId port =>
    { uninitialised with
      connId := connId
      myIp := port.ip
      myMac := port.mac
      myName := port.name
      myPort := 4791
      myQp := id + connId }

/-- The block that fills the peer of a rank in. -/
def fillPeer (connections : List ConnectionConfig) (rank : Nat) (mac : String)
    (ipList qpList : List Word) : Except Fault (List ConnectionConfig) := do
  let conn ← read connections rank
  let ip ← read ipList rank
  let qp ← read qpList rank
  write connections rank
    { conn with
      isSwitch := false
      peerId := rank
      peerIp := inetNtop ip
      peerMac := mac
      peerPort := 4791
      peerQp := qp.toInt }

/-- `calculate_route`. -/
def calculateRoute (group : Group) (id : Nat) (qpList : List Word) :
    Except Fault (List SwitchConfig) := do
  let connections := initConnections topology uninitialised id
  let connections ←
    fillPeer connections 0 "fa:16:3e:87:09:4c" group.ipList qpList
  let connections ←
    fillPeer connections 1 "fa:16:3e:7b:25:36" group.ipList qpList
  return [{ id := topology.id
            connections := connections
            rules := generateRules connections group.worldSize }]

/-- One round of the request loop. -/
def serve (session : Session) : Request → Except Fault Session
  | .group worldSize ips => do
      let ipList ← receiveWords (newWords worldSize) 0 ips
      return { session with
        worldSize := worldSize
        groupNum := session.groupNum + 1
        group := some
          { id := session.groupNum + 1
            worldSize := worldSize
            ipList := ipList } }
  | .communicator qps =>
      match session.group with
      | none => .error .nullGroup
      | some group => do
          let id := session.communicatorNum + 1
          let qpList ← receiveWords (newWords group.worldSize) 0 qps
          let switches ← calculateRoute topology uninitialised group id qpList
          return { session with
            communicatorNum := id
            comms :=
              session.comms ++ [⟨id, group.worldSize, qpList, switches⟩] }

/-- `group_session` until the client closes the connection. -/
def groupSession (requests : List Request) : Except Fault Session :=
  requests.foldlM (serve topology uninitialised) .start

end Route

/-- Each request carries as many words as there are ranks. -/
def Complete (worldSize : Nat) : List Request → Prop
  | [] => True
  | .group size ips :: requests =>
      1 ≤ size ∧ ips.length = size ∧ Complete size requests
  | .communicator qps :: requests =>
      qps.length = worldSize ∧ Complete worldSize requests

/-- The IPs and QP numbers that each `'C'` is about. -/
def orders (latest : Option (List Word)) :
    List Request → List (Option (List Word) × List Word)
  | [] => []
  | .group _ ips :: requests => orders (some ips) requests
  | .communicator qps :: requests =>
      (latest, qps) :: orders latest requests

/-- Rank by rank, the hosts of the configuration have these IPs and QP
numbers. -/
structure Communicator.Built (comm : Communicator) (ips qps : List Word) :
    Prop where
  worldSize : comm.worldSize = ips.length
  hosts :
    ((comm.switches.flatMap SwitchConfig.connections).filter
        fun conn => !conn.isSwitch).map
        (fun conn => (conn.peerId, conn.peerIp, conn.peerQp)) =
      (ips.zip qps).mapIdx fun rank entry =>
        ((rank : Int), inetNtop entry.1, entry.2.toInt)

/-- The session stays within what it has allocated and each `'C'` gives the
configuration it asks for. -/
def Serves (run : Except Fault Session) (requests : List Request) : Prop :=
  ∃ session, run = .ok session ∧
    List.Forall₂ (fun order comm => ∃ ips, order.1 = some ips ∧
      Communicator.Built comm ips order.2) (orders none requests) session.comms

/-- A `'G'` for a single rank. -/
def Request.Single (request : Request) : Prop :=
  ∃ ip, request = .group 1 [ip]

/-- No more than one IP is ever held. -/
def Session.OneIp (session : Session) : Prop :=
  ∀ group ∈ session.group, group.ipList.length = 1

section Serving

variable {topology : SwitchTopology} {uninitialised : ConnectionConfig}
  {session after : Session} {requests : List Request}
  {latest : Option (List Word)} {worldSize rank : Nat}

theorem length_receiveWords {list words left : List Word}
    (received : receiveWords list rank words = .ok left) :
    left.length = list.length ∧
      (rank ≤ list.length → rank + words.length ≤ list.length) := by
  induction words generalizing list rank with
  | nil =>
      cases received
      exact ⟨rfl, id⟩
  | cons word words induction =>
      by_cases inside : rank < list.length
      · rw [receiveWords, write, if_pos inside] at received
        obtain ⟨length, fits⟩ := induction received
        rw [List.length_set] at length fits
        refine ⟨length, fun _ => ?_⟩
        have rest := fits inside
        rw [List.length_cons]
        omega
      · rw [receiveWords, write, if_neg inside] at received
        cases received

theorem calculateRoute_of_oneIp {group : Group} (one : group.ipList.length = 1)
    (id : Nat) (qpList : List Word) :
    ∃ fault, calculateRoute topology uninitialised group id qpList =
      .error fault := by
  have noSecond (connections : List ConnectionConfig) (mac : String) :
      ∃ fault, fillPeer connections 1 mac group.ipList qpList =
        .error fault := by
    have missing : read group.ipList 1 = .error .outOfBounds := by
      rw [read, List.getElem?_eq_none (by omega)]
    cases second : read connections 1 with
    | error fault => exact ⟨fault, by rw [fillPeer, second]; rfl⟩
    | ok conn => exact ⟨.outOfBounds, by rw [fillPeer, second, missing]; rfl⟩
  cases first : fillPeer (initConnections topology uninitialised id) 0
      "fa:16:3e:87:09:4c" group.ipList qpList with
  | error fault => exact ⟨fault, by rw [calculateRoute, first]; rfl⟩
  | ok connections =>
      obtain ⟨fault, failed⟩ := noSecond connections "fa:16:3e:7b:25:36"
      refine ⟨fault, ?_⟩
      rw [calculateRoute, first]
      show (fillPeer connections 1 _ _ _ >>= fun _ => _) = _
      rw [failed]
      rfl

/-- Only a group of one rank is taken in. -/
theorem serve_ok (oneIp : session.OneIp) {request : Request}
    (complete : Complete worldSize (request :: requests))
    (served : serve topology uninitialised session request = .ok after) :
    request.Single ∧ after.OneIp ∧ after.comms = session.comms ∧
      Complete 1 requests := by
  cases request with
  | group size ips =>
      obtain ⟨least, length, rest⟩ := complete
      cases received : receiveWords (newWords size) 0 ips with
      | error fault =>
          rw [serve, received] at served
          cases served
      | ok ipList =>
          rw [serve, received] at served
          cases served
          obtain ⟨one, fits⟩ := length_receiveWords received
          have single : ips.length = 1 := by
            have most := fits (Nat.zero_le _)
            rw [newWords, List.length_singleton] at most
            omega
          obtain ⟨ip, rfl⟩ := List.length_eq_one_iff.mp single
          obtain rfl : 1 = size := length
          refine ⟨⟨ip, rfl⟩, ?_, rfl, rest⟩
          rintro group ⟨⟩
          exact one
  | communicator qps =>
      cases found : session.group with
      | none =>
          rw [serve, found] at served
          cases served
      | some group =>
          rw [serve, found] at served
          cases received : receiveWords (newWords group.worldSize) 0 qps with
          | error fault =>
              simp only [received] at served
              cases served
          | ok qpList =>
              obtain ⟨fault, failed⟩ : ∃ fault, calculateRoute topology
                  uninitialised group (session.communicatorNum + 1) qpList =
                    .error fault :=
                calculateRoute_of_oneIp (oneIp group found) _ qpList
              simp only [received] at served
              change (calculateRoute topology uninitialised group _ qpList >>=
                fun _ => _) = _ at served
              rw [failed] at served
              cases served

theorem serve_single {request : Request} (single : request.Single) :
    ∃ next, serve topology uninitialised session request = .ok next ∧
      next.comms = session.comms := by
  obtain ⟨ip, rfl⟩ := single
  exact ⟨_, rfl, rfl⟩

theorem foldlM_serve_ok (oneIp : session.OneIp)
    (complete : Complete worldSize requests)
    (ran : requests.foldlM (serve topology uninitialised) session =
      .ok after) :
    ∀ request ∈ requests, request.Single := by
  induction requests generalizing session worldSize with
  | nil => exact fun _ member => absurd member List.not_mem_nil
  | cons request requests induction =>
      rw [List.foldlM_cons] at ran
      cases served : serve topology uninitialised session request with
      | error fault =>
          rw [served] at ran
          cases ran
      | ok next =>
          rw [served] at ran
          obtain ⟨single, nextOneIp, -, rest⟩ := serve_ok oneIp complete served
          have later := induction nextOneIp rest ran
          intro other member
          rcases List.mem_cons.mp member with rfl | member
          · exact single
          · exact later other member

theorem foldlM_serve_single (single : ∀ request ∈ requests, request.Single)
    (session : Session) :
    ∃ after, requests.foldlM (serve topology uninitialised) session =
      .ok after ∧ after.comms = session.comms := by
  induction requests generalizing session with
  | nil => exact ⟨session, rfl, rfl⟩
  | cons request requests induction =>
      obtain ⟨next, served, comms⟩ : ∃ next,
          serve topology uninitialised session request = .ok next ∧
            next.comms = session.comms :=
        serve_single (single request List.mem_cons_self)
      obtain ⟨after, ran, same⟩ := induction
        (fun other member => single other (List.mem_cons_of_mem _ member)) next
      refine ⟨after, ?_, same.trans comms⟩
      rw [List.foldlM_cons, served]
      exact ran

theorem orders_of_single (single : ∀ request ∈ requests, request.Single) :
    orders latest requests = [] := by
  induction requests generalizing latest with
  | nil => rfl
  | cons request requests induction =>
      obtain ⟨ip, rfl⟩ := single request List.mem_cons_self
      exact induction fun other member =>
        single other (List.mem_cons_of_mem _ member)

end Serving

/-- The session serves its requests exactly when all of them set a group of one
rank up. -/
theorem serves_iff (topology : SwitchTopology)
    (uninitialised : ConnectionConfig) {requests : List Request}
    (complete : Complete 0 requests) :
    Serves (groupSession topology uninitialised requests) requests ↔
      ∀ request ∈ requests, request.Single := by
  constructor
  · rintro ⟨session, ran, -⟩
    have noGroup : Session.start.OneIp := by
      rintro group ⟨⟩
    exact foldlM_serve_ok noGroup complete ran
  · intro single
    obtain ⟨session, ran, comms⟩ : ∃ session,
        groupSession topology uninitialised requests = .ok session ∧
          session.comms = Session.start.comms :=
      foldlM_serve_single single .start
    refine ⟨session, ran, ?_⟩
    rw [orders_of_single single, comms]
    exact .nil

/-- The switch that `main` knows beforehand. -/
def preknowledge : SwitchTopology where
  id := 0
  ports :=
    [⟨"eth1", "172.16.0.21", "fa:16:3e:9a:26:99"⟩,
      ⟨"eth2", "10.10.0.14", "fa:16:3e:3d:ab:78"⟩]

/-- What stands in a `ConnectionConfig` whose numbers happen to be zero. -/
def zeroConfig : ConnectionConfig :=
  ⟨0, false, 0, "", "", "", 0, 0, "", "", 0, 0⟩

theorem serves_iff_oneRank :
    Serves (groupSession preknowledge zeroConfig [.group 1 [0x010010AC]])
        [.group 1 [0x010010AC]] ↔
      ∀ request ∈ [Request.group 1 [0x010010AC]], request.Single :=
  serves_iff preknowledge zeroConfig ⟨Nat.le_refl 1, rfl, trivial⟩

/-- The second IP of the first group lies behind the block. -/
theorem not_always_serves :
    ¬∀ (topology : SwitchTopology) (uninitialised : ConnectionConfig)
        (requests : List Request), Complete 0 requests →
      Serves (groupSession topology uninitialised requests) requests := by
  intro always
  obtain ⟨session, ran, -⟩ := always preknowledge zeroConfig
    [.group 2 [0x010010AC, 0x02000A0A]] ⟨by decide, rfl, trivial⟩
  cases ran

end GroupSession

end IncEmulation
