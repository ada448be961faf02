import Mathlib.Algebra.Group.Nat.Defs
import IncEmulation.Lib.Loop
import IncEmulation.Lib.Machine
import IncEmulation.Switch.Globals

/-!
# The packet handler of `switch.c`

A function of the source returns nothing when an `assert` fails or when one of
its walks needs more than `fuel` rounds; every call that returns does so for
all large values of `fuel`.
-/

namespace IncEmulation.Switch

open Loop

inductive PacketType where
  | ack
  | nak
  | data
  | dataSingle
  deriving DecidableEq

/-- What a capture hands to the callback: the fields of BTH and AETH, and the
payload with the memory behind it. -/
structure Packet where
  opcode : UInt8
  psn : Nat
  psn_lt : psn < 2 ^ 24
  synMsn : UInt32
  dataLen : Nat
  dataLen_le : dataLen ≤ 1036
  data : Nat → UInt32

/-- The syndrome is that of an acknowledgement. -/
def isAck (synMsn : UInt32) : Bool := synMsn >>> 29 = 0

/-- A frame given to `pcap_sendpacket`, with the type `forwarding` was called
with. -/
structure Frame where
  conn : Nat
  type : PacketType
  psn : Int
  packetType : UInt8
  data : List UInt32
  deriving DecidableEq

def forwarding (rule : Rule) (psn : Int) (type : PacketType)
    (data : List UInt32) (packetType : UInt8) : List Frame :=
  match type with
  | .data => rule.outConns.map fun conn => ⟨conn, type, psn, packetType, data⟩
  | _ => [⟨rule.ackConn, type, psn, packetType, data⟩]

section Functions

variable (config : Config) (fuel : Nat) (globals : Globals)

def retransmit (rule : Rule) (psn : Int) : List Frame :=
  let slot := globals.bcastBuffer (idx psn)
  forwarding rule psn .dataSingle slot.words slot.packetType

/-- What `cache` leaves in the slot. -/
def cachedSlot (psn : Int) (data : Nat → UInt32) (len : Nat)
    (packetType : UInt8) : AggBuffer :=
  let slot := globals.bcastBuffer (idx psn)
  { slot with
    buffer := fun i => if i < len then data i else slot.buffer i
    len := len
    packetType := packetType
    state := true
    psn := psn }

def cache (rule : Rule) (psn : Int) (data : Nat → UInt32) (len : Nat)
    (packetType : UInt8) : Option (Globals × List Frame) :=
  if psn ≠ globals.downEpsn then
    none
  else
    let slot := cachedSlot globals psn data len packetType
    some ({ globals with
        downEpsn := globals.downEpsn + 1
        bcastBuffer := Function.update globals.bcastBuffer (idx psn) slot },
      forwarding rule psn .data slot.words packetType)

/-- A round of the backward walks of `down_ack_handler`. -/
def clearRound (walk : Globals × Int) : Round (Globals × Int) Globals :=
  let slot := walk.1.aggBuffer (idx walk.2)
  if slot.state ∧ slot.psn = walk.2 then
    .again (walk.1.clearAgg (idx walk.2), walk.2 - 1)
  else
    .stop walk.1

/-- The test of the forward walk of `down_ack_handler`. -/
def resends (slot : Int) : Bool :=
  globals.aggDegree slot = fanIn ∧
    globals.downAck < (globals.aggBuffer slot).psn

/-- A round of that walk, with the frames sent so far. -/
def resendRound (rule : Rule) (walk : Int × List Frame) :
    Round (Int × List Frame) (List Frame) :=
  if resends globals (idx walk.1) then
    .again (walk.1 + 1, walk.2 ++ retransmit globals rule walk.1)
  else
    .stop walk.2

/-- The slots are cleared from a new PSN down, and `down_ack` takes it. -/
def downAckCovers (psn : Int) : Option Globals :=
  if globals.downAck < psn then
    (iterate clearRound fuel (globals, psn)).map fun cleared =>
      { cleared with downAck := psn }
  else
    some globals

def downAckHandler (synMsn : UInt32) (rule : Option Rule) (psn : Int) :
    Option (Globals × List Frame) :=
  if isAck synMsn then
    (downAckCovers fuel globals psn).map fun next => (next, [])
  else do
    let next ← downAckCovers fuel globals (psn - 1)
    -- Only the acknowledgement that the root gives itself comes without rule.
    let rule ← rule
    let frames ← iterate (resendRound next rule) fuel (psn, [])
    some (next, frames)

/-- What a child sends in one packet to `aggregate`. -/
structure Contribution where
  psn : Int
  data : Nat → UInt32
  len : Nat
  packetType : UInt8
  operationType : UInt32
  rootRank : UInt32

/-- The words of the slot after the contribution; those in front of `first`
are not added. -/
def addPayload (first len : Nat) (dst src : Nat → UInt32) (i : Nat) : UInt32 :=
  if first ≤ i ∧ i < len then dst i + src i else dst i

/-- The part of `aggregate` under the mutex. -/
def gather (input : Contribution) : Globals :=
  let slot := globals.aggBuffer (idx input.psn)
  let filled : AggBuffer :=
    if globals.aggDegree (idx input.psn) = 0 then
      if input.psn = 0 then
        { slot with
          buffer := fun i =>
            if i < 2 ∨ i < input.len then input.data i else slot.buffer i
          operationType := input.operationType
          rootRank := input.rootRank }
      else
        { slot with
          buffer := fun i =>
            if i < input.len then input.data i else slot.buffer i
          operationType := (globals.aggBuffer (idx 0)).operationType
          rootRank := (globals.aggBuffer (idx 0)).rootRank }
    else
      { slot with
        buffer := addPayload (if input.psn = 0 then 2 else 0) input.len
          slot.buffer input.data }
  { globals with
    aggBuffer := Function.update globals.aggBuffer (idx input.psn)
      { filled with
        len := input.len
        packetType := input.packetType
        state := true
        psn := input.psn }
    aggDegree := Function.update globals.aggDegree (idx input.psn)
      (globals.aggDegree (idx input.psn) + 1) }

/-- `rank_to_conn`, as `init_all` fills it. -/
def rankToConn (i : Nat) : UInt32 := UInt32.ofNat i

/-- The result of a Reduce goes to the first connection of the root rank. -/
def reduceResult (input : Contribution) : List Frame :=
  let found := (List.range fanIn).find? fun i => rankToConn i = input.rootRank
  found.toList.map fun conn =>
    ⟨conn, .data, input.psn, input.packetType,
      (globals.aggBuffer (idx input.psn)).words⟩

/-- What the root does with a complete sum. -/
def finish (rule : Rule) (input : Contribution) :
    Option (Globals × List Frame) :=
  let slot := globals.aggBuffer (idx input.psn)
  if (globals.bcastBuffer (idx input.psn)).state then
    none
  else if input.operationType = config.operationTypeAllreduce then do
    let (cached, frames) ← cache globals rule input.psn slot.buffer input.len
      input.packetType
    let (next, more) ← downAckHandler fuel cached 0 none input.psn
    some (next, frames ++ more)
  else if input.operationType = config.operationTypeReduce then
    some (globals.clearAgg (idx input.psn), reduceResult globals input)
  else
    some (globals, [])

def aggregate (rule : Rule) (input : Contribution) :
    Option (Globals × List Frame) :=
  let gathered := gather globals input
  let slot := gathered.aggBuffer (idx input.psn)
  if gathered.aggDegree (idx input.psn) = fanIn then
    if config.root then
      finish config fuel gathered rule input
    else
      some (gathered,
        forwarding rule input.psn .data slot.words slot.packetType)
  else
    some (gathered, [])

/-- Data from the parent. -/
def downstreamData (rule : Rule) (packet : Packet) :
    Option (Globals × List Frame) :=
  if packet.psn < globals.downEpsn then
    some (globals, forwarding rule (globals.downEpsn - 1) .ack [] 0x11)
  else if globals.downEpsn < packet.psn then
    some (globals, forwarding rule globals.downEpsn .nak [] 0x11)
  else if (globals.bcastBuffer (idx packet.psn)).state then
    none
  else do
    let (next, frames) ← cache globals rule packet.psn packet.data
      packet.dataLen packet.opcode
    some (next, forwarding rule packet.psn .ack [] 0x11 ++ frames)

/-- The operation of a packet with the next PSN: PSN 0 carries it, the later
ones take the one that was stored. -/
def operationOf (packet : Packet) : UInt32 × UInt32 :=
  if packet.psn = 0 ∧ 2 ≤ packet.dataLen then
    (packet.data 0, packet.data 1)
  else if 0 < packet.psn then
    (globals.currentOperationType, globals.currentRootRank)
  else
    (config.operationTypeAllreduce, 0)

/-- The arguments of `aggregate` for a packet from a child. -/
def contributionOf (packet : Packet) : Contribution where
  psn := packet.psn
  data := packet.data
  len := packet.dataLen
  packetType := packet.opcode
  operationType := (operationOf config globals packet).1
  rootRank := (operationOf config globals packet).2

/-- The packet is taken: its PSN is counted, its arrival and its operation are
noted. -/
def accept (id : Nat) (packet : Packet) : Globals :=
  { globals with
    aggEpsn :=
      Function.update globals.aggEpsn id (globals.aggEpsn id + 1)
    arrivalState := fun i slot =>
      if i = id ∧ slot = idx packet.psn then true
      else globals.arrivalState i slot
    currentOperationType :=
      if packet.psn = 0 ∧ 2 ≤ packet.dataLen then packet.data 0
      else globals.currentOperationType
    currentRootRank :=
      if packet.psn = 0 ∧ 2 ≤ packet.dataLen then packet.data 1
      else globals.currentRootRank }

/-- Data from a child. -/
def upstreamData (id : Nat) (rule : Rule) (packet : Packet) :
    Option (Globals × List Frame) :=
  if packet.psn < globals.aggEpsn id then
    some (globals, forwarding rule (globals.aggEpsn id - 1) .ack [] 0x11)
  else if globals.aggEpsn id < packet.psn then
    some (globals, forwarding rule (globals.aggEpsn id) .nak [] 0x11)
  else if globals.arrivalState id (idx packet.psn) then
    none
  else do
    let (next, frames) ← aggregate config fuel (accept globals id packet) rule
      (contributionOf config globals packet)
    some (next, forwarding rule packet.psn .ack [] 0x11 ++ frames)

/-- A round of the walk of an upstream ACK. -/
def ackRound (id : Nat) (walk : Globals × Int) :
    Round (Globals × Int) Globals :=
  let counted := walk.1.countAck (idx walk.2)
  if walk.2 - 1 = counted.latestAck id then .stop counted
  else .again (counted, walk.2 - 1)

/-- The acknowledgement of the PSN in the slot would be the first. -/
def Globals.unacknowledged (id : Nat) (psn : Int) : Prop :=
  globals.rArrivalState id (idx psn) = false ∧
    (globals.bcastBuffer (idx psn)).psn = psn

instance (id : Nat) (psn : Int) : Decidable (globals.unacknowledged id psn) :=
  inferInstanceAs (Decidable (_ ∧ _))

/-- A round of the walk of an upstream NAK; `continue` goes on with the same
PSN. -/
def nakRound (id : Nat) (walk : Globals × Int) :
    Round (Globals × Int) Globals :=
  if walk.1.unacknowledged id walk.2 then
    let counted := (walk.1.mark id (idx walk.2)).countAck (idx walk.2)
    if walk.2 - 1 = counted.latestAck id then .stop counted
    else .again (counted, walk.2 - 1)
  else
    .again walk

/-- An ACK from a child. -/
def upstreamAck (id : Nat) (psn : Int) : Option Globals :=
  if globals.latestAck id < psn ∧ globals.unacknowledged id psn then
    (iterate (ackRound id) fuel (globals.mark id (idx psn), psn)).map
      fun counted => counted.setLatestAck id psn
  else
    some globals

/-- The part of a NAK that acknowledges the PSNs before its own. -/
def nakCovers (id : Nat) (psn : Int) : Option Globals :=
  if globals.latestAck id < psn then
    (iterate (nakRound id) fuel (globals, psn)).map
      fun counted => counted.setLatestAck id psn
  else
    some globals

/-- A NAK from a child. -/
def upstreamNak (id : Nat) (rule : Rule) (psn : Int) : Option Globals :=
  (nakCovers fuel globals id (psn - 1)).map fun counted =>
    { counted with
      reRule := Function.update counted.reRule id rule
      rePsn := Function.update counted.rePsn id psn
      queue := counted.queue ++ [id] }

/-- The opcodes of RDMA SEND. -/
def sendOpcodes : List UInt8 := [0x04, 0x00, 0x01, 0x02]

/-- `packet_handler` in the receiving thread of a connection. -/
def packetHandler (id : Nat) (packet : Packet) :
    Option (Globals × List Frame) := do
  let rule ← config.lookupRule id
  if packet.opcode ∈ sendOpcodes then
    match rule.direction with
    | .down => downstreamData globals rule packet
    | .up => upstreamData config fuel globals id rule packet
  else if packet.opcode = 0x11 then
    match rule.direction with
    | .down => downAckHandler fuel globals packet.synMsn rule packet.psn
    | .up =>
        if isAck packet.synMsn then
          (upstreamAck fuel globals id packet.psn).map fun next => (next, [])
        else
          (upstreamNak fuel globals id rule packet.psn).map
            fun next => (next, [])
  else
    some (globals, [])

/-- The test of the walk of `re_thread`. -/
def reSends (id : Nat) (slot : Int) : Bool :=
  (globals.bcastBuffer slot).state ∧
    globals.latestAck id < (globals.bcastBuffer slot).psn

/-- A round of that walk. -/
def reRound (job : Job) : Round Job Unit :=
  if reSends globals job.id (idx job.psn) then
    .again { job with psn := job.psn + 1 }
  else
    .stop ()

end Functions

/-! ## The switch -/

inductive Entry where
  | received (conn : Nat) (packet : Packet)
  | sent (frame : Frame)

/-- The switch and everything that its connections have carried. -/
structure World where
  globals : Globals
  log : List Entry

/-- A packet is handled, a worker of the pool starts the first queued job, or
a job makes a round. -/
inductive Event where
  | packet (conn : Nat) (packet : Packet)
  | start
  | round (index : Nat)

/-- `switch.c` handles one event; `fuel` bounds the rounds of each walk. -/
def step (config : Config) (fuel : Nat) (world : World) :
    Event → Option World
  | .packet conn packet => do
      let (next, frames) ← packetHandler config fuel world.globals conn packet
      some ⟨next,
        world.log ++ .received conn packet :: frames.map Entry.sent⟩
  | .start =>
      match world.globals.queue with
      | [] => none
      | id :: queue =>
          some { world with
            globals := { world.globals with
              queue := queue
              jobs := world.globals.jobs ++
                [⟨id, world.globals.reRule id, world.globals.rePsn id⟩] } }
  | .round index => do
      let job ← world.globals.jobs[index]?
      match reRound world.globals job with
      | .again next =>
          some ⟨{ world.globals with
              jobs := world.globals.jobs.set index next },
            world.log ++
              (retransmit world.globals job.rule job.psn).map Entry.sent⟩
      | .stop _ =>
          some { world with
            globals := { world.globals with
              jobs := world.globals.jobs.eraseIdx index } }

/-- The switch after `init_all`. -/
def World.initial (config : Config) (memory : Globals) : World :=
  ⟨initAll config memory, []⟩

/-- Some run leads to the state. -/
def Reached (config : Config) (memory : Globals) (world : World) : Prop :=
  ∃ fuel, Machine.Reachable (step config fuel) (.initial config memory) world

end IncEmulation.Switch
