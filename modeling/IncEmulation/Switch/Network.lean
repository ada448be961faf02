import IncEmulation.Lib.Tree
import IncEmulation.Switch.Relay
import IncEmulation.Switch.Results
import IncEmulation.Switch.Wire

/-!
# A tree of switches

Hosts at the leaves, a root at the top and inner switches between them run an
AllReduce.  Between two switches the bytes of the frames get lost, overtake each
other and arrive again.
-/

namespace IncEmulation.Switch

open Gather Hierarchy
open scoped UInt32.CommRing

/-- The switches, by their names in the tree. -/
abbrev Network := Path → World

/-- Only the switch at the top is a root. -/
def Config.place (config : Config) (path : Path) : Config :=
  { config with root := path = [] }

/-- One switch of the tree handles an event. -/
def networkStep (config : Config) (tree : Layout) (fuel : Nat)
    (network : Network) (action : Path × Event) : Option Network :=
  match tree.subtree fanIn action.1 with
  | some (.node _) =>
      (step (config.place action.1) fuel (network action.1) action.2).map
        fun next => Function.update network action.1 next
  | _ => none

def Network.initial (config : Config) (memory : Path → Globals) : Network :=
  fun path => .initial (config.place path) (memory path)

/-- What the frames on the way carry besides: the addresses of a connection, and
what a buffer on the stack holds before a frame is built in it. -/
structure Cabling where
  addresses : Path → Nat → Addresses
  dstPacket : Nat → Memory.Byte

def Cabling.bytes (cabling : Cabling) (path : Path) (frame : Frame) :
    List Memory.Byte :=
  frame.bytes cabling.dstPacket (cabling.addresses path frame.conn)

/-- A packet with data from a child carries what the host sends under its PSN,
or is read of the bytes of the switch there. -/
def FromChild (cabling : Cabling) (hosts : Path → List (List UInt32))
    (network : Network) (path : Path) (packet : Packet) : Option Layout → Prop
  | some .leaf => (hosts path)[packet.psn]? = some packet.payload
  | _ => ∃ frame ∈ sentData (network path).log fanIn,
      Reads packet (cabling.bytes path frame)

instance (cabling : Cabling) (hosts : Path → List (List UInt32))
    (network : Network) (path : Path) (packet : Packet) :
    DecidablePred (FromChild cabling hosts network path packet)
  | some .leaf => inferInstanceAs (Decidable (_ = _))
  | some (.node _) => inferInstanceAs (Decidable (∃ _ ∈ _, _))
  | none => inferInstanceAs (Decidable (∃ _ ∈ _, _))

/-- A packet from the parent is read of the bytes of the switch there. -/
def FromParent (cabling : Cabling) (network : Network) (packet : Packet) :
    Path → Prop
  | [] => True
  | position :: path =>
      (packet.opcode ∈ sendOpcodes →
        ∃ frame ∈ sentData (network path).log position,
          Reads packet (cabling.bytes path frame)) ∧
      (packet.opcode = 0x11 →
        ∃ frame ∈ (network path).log.filterMap Entry.outgoing,
          frame.conn = position ∧ frame.Reply ∧
            Reads packet (cabling.bytes path frame))

instance (cabling : Cabling) (network : Network) (packet : Packet) :
    DecidablePred (FromParent cabling network packet)
  | [] => .isTrue trivial
  | _ :: _ => inferInstanceAs (Decidable ((_ → _) ∧ (_ → _)))

/-- What arrives was sent. -/
def Arrives (cabling : Cabling) (tree : Layout)
    (hosts : Path → List (List UInt32)) (network : Network) :
    Path × Event → Prop
  | (path, .packet conn packet) =>
      (conn < fanIn → packet.opcode ∈ sendOpcodes →
        FromChild cabling hosts network (conn :: path) packet
          (tree.subtree fanIn (conn :: path))) ∧
      (conn = fanIn → FromParent cabling network packet path)
  | _ => True

instance (cabling : Cabling) (tree : Layout)
    (hosts : Path → List (List UInt32)) (network : Network) :
    DecidablePred (Arrives cabling tree hosts network)
  | (_, .packet _ _) => inferInstanceAs (Decidable ((_ → _ → _) ∧ (_ → _)))
  | (_, .start) => .isTrue trivial
  | (_, .round _) => .isTrue trivial

/-- The hosts run an AllReduce: their payloads with the same PSN are equally
long, and the first one announces the operation. -/
structure AllReduces (config : Config) (rootRank : UInt32)
    (hosts : Path → List (List UInt32)) : Prop where
  alike : ∀ {host other : Path} {psn : Nat} {payload payload' : List UInt32},
    (hosts host)[psn]? = some payload →
      (hosts other)[psn]? = some payload' →
        payload.length = payload'.length
  announced : ∀ {host : Path} {payload : List UInt32},
    (hosts host)[0]? = some payload →
      payload[0]? = some config.operationTypeAllreduce ∧
        payload[1]? = some rootRank

/-- What a host contributes to a word of a PSN. -/
def hostWord (hosts : Path → List (List UInt32)) (psn i : Nat) (host : Path) :
    UInt32 :=
  ((hosts host)[psn]?.bind fun payload => payload[i]?).getD 0

/-- The payload is the sum of what the hosts sent under the PSN, metadata
apart. -/
structure HostSum (config : Config) (rootRank : UInt32)
    (hosts : Path → List (List UInt32)) (names : List Path) (psn : Nat)
    (data : List UInt32) : Prop where
  complete : ∀ host ∈ names, ∃ payload, (hosts host)[psn]? = some payload ∧
    payload.length = data.length
  words : ∀ i word, data[i]? = some word → 2 ≤ i ∨ 0 < psn →
    word = (names.map fun host => hostWord hosts psn i host).sum
  metadata : psn = 0 → data[0]? = some config.operationTypeAllreduce ∧
    data[1]? = some rootRank

/-- What a switch has taken from its neighbours. -/
structure Coupled (tree : Layout) (hosts : Path → List (List UInt32))
    (network : Network) (path : Path) : Prop where
  host : ∀ {conn psn : Nat} {packet : Packet}, conn < fanIn →
    tree.subtree fanIn (conn :: path) = some .leaf →
      (taken (network path).log conn)[psn]? = some packet →
        (hosts (conn :: path))[psn]? = some packet.payload
  child : ∀ {conn psn : Nat} {packet : Packet} {below : Nat → Layout},
    conn < fanIn →
    tree.subtree fanIn (conn :: path) = some (.node below) →
      (taken (network path).log conn)[psn]? = some packet →
        ∃ frame, (sentData (network (conn :: path)).log fanIn)[psn]? =
          some frame ∧ Captures frame packet
  parent : ∀ {position psn : Nat} {above : Path} {packet : Packet},
    path = position :: above →
    (taken (network path).log fanIn)[psn]? = some packet →
      ∃ frame, (sentData (network above).log position)[psn]? = some frame ∧
        Captures frame packet

/-- A switch acknowledges what it has taken. -/
def RepliesTaken (log : List Entry) : Prop :=
  ∀ frame ∈ log.filterMap Entry.outgoing, frame.Reply →
    0 ≤ frame.psn ∧ frame.acknowledges < (taken log frame.conn).length

/-- What holds of every switch of the tree. -/
structure Serving (config : Config) (rootRank : UInt32) (path : Path)
    (world : World) : Prop where
  root : path = [] → Delivering (config.place path)
    config.operationTypeAllreduce rootRank world
  inner : path ≠ [] → Relaying world
  replies : RepliesTaken world.log
  sound : ∀ frame ∈ world.log.filterMap Entry.outgoing,
    frame.type = .dataSingle ∨ frame.Sound

structure Working (config : Config) (rootRank : UInt32) (tree : Layout)
    (hosts : Path → List (List UInt32)) (network : Network) : Prop where
  serving : ∀ {path child}, tree.subtree fanIn path = some (.node child) →
    Serving config rootRank path (network path)
  coupled : ∀ {path child}, tree.subtree fanIn path = some (.node child) →
    Coupled tree hosts network path

/-- What goes up from a host or from an inner switch under a PSN. -/
def Uplink (hosts : Path → List (List UInt32)) (network : Network) (path : Path)
    (psn : Nat) (data : List UInt32) : Layout → Prop
  | .leaf => (hosts path)[psn]? = some data
  | .node _ => ∃ frame, (sentData (network path).log fanIn)[psn]? =
      some frame ∧ data = frame.data

section Sums

variable {config : Config} {rootRank : UInt32} {tree : Layout}
  {hosts : Path → List (List UInt32)} {network : Network} {path : Path} {psn i : Nat}
  {child : Nat → Layout} {data : List UInt32} {packetType : UInt8}
  {packet : Packet} {streams : Nat → List Packet} {word : UInt32}

theorem AllReduces.hostSum (reduces : AllReduces config rootRank hosts)
    (found : (hosts path)[psn]? = some data) :
    HostSum config rootRank hosts [path] psn data where
  complete := by
    intro host member
    rw [List.mem_singleton.mp member]
    exact ⟨data, found, rfl⟩
  words := by
    intro i word isWord _
    rw [List.map_singleton, List.sum_singleton, hostWord, found,
      Option.bind_some, isWord]
    rfl
  metadata := by
    rintro rfl
    exact reduces.announced found

/-- The sum of the children is the sum of the hosts below them. -/
theorem AllReduces.sum_node (reduces : AllReduces config rootRank hosts)
    (carries : CarriesTotal streams psn packetType data)
    (below : ∀ conn < fanIn, ∃ packet, (streams conn)[psn]? = some packet ∧
      HostSum config rootRank hosts
        ((child conn).leaves fanIn (conn :: path)) psn packet.payload) :
    HostSum config rootRank hosts ((Layout.node child).leaves fanIn path) psn
      data := by
  -- All contributions are as long as the packets of the hosts.
  have alike : ∀ conn < fanIn, ∀ packet, (streams conn)[psn]? = some packet →
      packet.dataLen = data.length := by
    obtain ⟨conn, bound, packet, found, length, -⟩ := carries.shape
    obtain ⟨packet', found', sums⟩ := below conn bound
    rw [found] at found'
    obtain rfl := Option.some.inj found'
    obtain ⟨name, isName⟩ :=
      exists_leaf (by decide : 0 < fanIn) (child conn) (conn :: path)
    obtain ⟨own, isOwn, ownLength⟩ := sums.complete name isName
    intro other otherBound packet' found'
    obtain ⟨packet'', found'', sums'⟩ := below other otherBound
    rw [found'] at found''
    obtain rfl := Option.some.inj found''
    obtain ⟨name', isName'⟩ :=
      exists_leaf (by decide : 0 < fanIn) (child other) (other :: path)
    obtain ⟨own', isOwn', ownLength'⟩ := sums'.complete name' isName'
    have same := reduces.alike isOwn isOwn'
    rw [length_payload] at ownLength ownLength'
    omega
  refine ⟨?_, ?_, ?_⟩
  · intro host member
    obtain ⟨conn, bound, inside⟩ := mem_leaves_node.mp member
    obtain ⟨packet, found, sums⟩ := below conn bound
    obtain ⟨own, isOwn, length⟩ := sums.complete host inside
    rw [length_payload, alike conn bound packet found] at length
    exact ⟨own, isOwn, length⟩
  · intro i word isWord counts
    rw [carries.words i word isWord counts, sum_leaves_node]
    refine Finset.sum_congr rfl fun conn member => ?_
    have bound := Finset.mem_range.mp member
    obtain ⟨packet, found, sums⟩ := below conn bound
    have inside : i < packet.dataLen := by
      rw [alike conn bound packet found]
      exact (List.getElem?_eq_some_iff.mp isWord).1
    rw [← sums.words i (packet.data i) (getElem?_payload inside) counts,
      contribution, found]
    exact if_pos inside
  · intro isZero
    obtain ⟨conn, bound, packet, found, same⟩ := carries.metadata isZero
    obtain ⟨packet', found', sums⟩ := below conn bound
    rw [isZero, found] at found'
    obtain rfl := Option.some.inj found'
    obtain ⟨operation, rank⟩ := sums.metadata isZero
    have length := alike conn bound packet (isZero ▸ found)
    have inData : ∀ i < 2, ∀ word, packet.payload[i]? = some word →
        data[i]? = some word := by
      intro i inFront word isWord
      obtain ⟨inside, rfl⟩ := lt_of_getElem?_payload isWord
      have bound : i < data.length := length ▸ inside
      rw [List.getElem?_eq_getElem bound,
        same i inFront _ (List.getElem?_eq_getElem bound)]
    exact ⟨inData 0 (by decide) _ operation, inData 1 (by decide) _ rank⟩

variable {sub : Layout} {frame : Frame} {target conn position : Nat}

theorem Coupled.uplink (coupled : Coupled tree hosts network path)
    (isNode : tree.subtree fanIn path = some (.node child))
    (bound : conn < fanIn)
    (found : (taken (network path).log conn)[psn]? = some packet) :
    Uplink hosts network (conn :: path) psn packet.payload (child conn) := by
  have isChild := subtree_child isNode bound
  cases below : child conn with
  | leaf =>
      rw [below] at isChild
      exact coupled.host bound isChild found
  | node more =>
      rw [below] at isChild
      obtain ⟨frame, sent, captures⟩ := coupled.child bound isChild found
      exact ⟨frame, sent, captures.payload (psn_of_taken found).2⟩

theorem children_of_lt (bound : conn < fanIn) (log : List Entry) :
    children log conn = taken log conn := if_pos bound

/-- What a switch sums up is the sum of the hosts below it. -/
theorem Working.hostSum (working : Working config rootRank tree hosts network)
    (reduces : AllReduces config rootRank hosts)
    (isNode : tree.subtree fanIn path = some (.node child))
    (sums : ExactSums (network path).log target)
    (found : (sentData (network path).log target)[psn]? = some frame)
    (below : ∀ conn < fanIn, ∀ psn data,
      Uplink hosts network (conn :: path) psn data (child conn) →
        HostSum config rootRank hosts
          ((child conn).leaves fanIn (conn :: path)) psn data) :
    frame.psn = psn ∧ HostSum config rootRank hosts
      ((Layout.node child).leaves fanIn path) psn frame.data := by
  obtain ⟨isPsn, carries⟩ := sums.sums psn frame found
  refine ⟨isPsn, reduces.sum_node carries fun conn bound => ?_⟩
  have passed : psn < count (children (network path).log) conn :=
    (List.getElem?_eq_some_iff.mp found).1.trans_le
      (sums.frontier.le conn bound)
  obtain ⟨packet, isPacket⟩ : ∃ packet,
      (children (network path).log conn)[psn]? = some packet :=
    ⟨_, List.getElem?_eq_getElem passed⟩
  refine ⟨_, isPacket, below conn bound psn _ ?_⟩
  rw [children_of_lt bound] at isPacket
  exact (working.coupled isNode).uplink isNode bound isPacket

/-- What goes up is the sum of the hosts below. -/
theorem Working.sums (working : Working config rootRank tree hosts network)
    (reduces : AllReduces config rootRank hosts)
    (found : tree.subtree fanIn path = some sub) :
    ∀ psn data, Uplink hosts network path psn data sub →
      HostSum config rootRank hosts (sub.leaves fanIn path) psn data := by
  refine ascend (motive := fun path sub => ∀ psn data,
    Uplink hosts network path psn data sub →
      HostSum config rootRank hosts (sub.leaves fanIn path) psn data)
    ?_ ?_ found
  · intro path _ psn data sent
    exact reduces.hostSum sent
  · rintro path child isNode below psn data ⟨frame, sent, rfl⟩
    have serving := working.serving isNode
    by_cases isRoot : path = []
    · have nothing := (serving.root isRoot).delivered.nothing fanIn
        fun receives => lt_irrefl fanIn receives.isChild
      rw [nothing] at sent
      cases sent
    · exact (working.hostSum reduces isNode
        (serving.inner isRoot).relayed.sums sent below).2

/-- What a switch sends its children is the sum of all hosts. -/
theorem Working.broadcasts
    (working : Working config rootRank tree hosts network)
    (reduces : AllReduces config rootRank hosts)
    (isNode : tree.subtree fanIn path = some (.node child)) :
    ∀ conn < fanIn, ∀ (psn : Nat) (frame : Frame),
      (sentData (network path).log conn)[psn]? = some frame →
        frame.psn = psn ∧ HostSum config rootRank hosts
          (tree.leaves fanIn []) psn frame.data := by
  refine descend (motive := fun path => ∀ child,
    tree.subtree fanIn path = some (.node child) → ∀ conn < fanIn,
      ∀ (psn : Nat) (frame : Frame),
        (sentData (network path).log conn)[psn]? = some frame →
          frame.psn = psn ∧ HostSum config rootRank hosts
            (tree.leaves fanIn []) psn frame.data) ?_ ?_ isNode child isNode
  · intro child isNode conn bound psn frame found
    have delivering := (working.serving isNode).root rfl
    have sums := delivering.delivered.sums conn ⟨bound, Or.inl rfl⟩
    have isTree : tree = .node child := Option.some.inj isNode
    have total := working.hostSum reduces isNode sums found
      fun conn bound => working.sums reduces (subtree_child isNode bound)
    rwa [← isTree] at total
  · rintro position path bound ⟨above, isParent⟩ induction child isNode conn
      bound' psn frame found
    have relaying := (working.serving isNode).inner (List.cons_ne_nil _ _)
    rw [relaying.relayed.packets conn bound', List.getElem?_map] at found
    obtain ⟨packet, isTaken, rfl⟩ := Option.map_eq_some_iff.mp found
    obtain ⟨frame, sent, captures⟩ :=
      (working.coupled isNode).parent rfl isTaken
    have total := (induction above isParent position bound psn frame sent).2
    rw [← captures.payload (psn_of_taken isTaken).2] at total
    exact ⟨congrArg Nat.cast (psn_of_taken isTaken).1, total⟩

end Sums

end IncEmulation.Switch
