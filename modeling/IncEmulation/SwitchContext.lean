import IncEmulation.Rule
import Mathlib.Logic.Function.Basic

/-!
# The switch context (`switch_context.h`, `switch_context.c`)

Arrays are functions of their index and a 0/1 flag is a `Bool`.  The locks, the
thread pool, the receiver threads and the controller socket are left out: one
captured packet is handled at a time.
-/

namespace IncEmulation

def switchArrayLength : Nat := 300
def maxRanks : Nat := 128

structure Connection where
  device : String
  myMac : List (BitVec 8)
  peerMac : List (BitVec 8)
  myIp : Word
  peerIp : Word
  myPort : BitVec 16
  peerPort : BitVec 16
  myQp : Word
  peerQp : Word
  psn : Nat
  msn : Nat
  ok : Bool
  deriving DecidableEq, Repr

/-- A connection after `memset(…, 0, …)`. -/
def Connection.zero : Connection where
  device := ""
  myMac := List.replicate 6 0
  peerMac := List.replicate 6 0
  myIp := 0
  peerIp := 0
  myPort := 0
  peerPort := 0
  myQp := 0
  peerQp := 0
  psn := 0
  msn := 0
  ok := false

/-- The words of a payload.  `buffer` has 1024 of them in the source; a write
beyond these is a write to the fields behind it, and is ruled out where it
matters by a bound on the payload, not here. -/
structure AggBuffer where
  len : Int
  packetType : Opcode
  state : Bool
  psn : Int
  operationType : PrimitiveType
  rootRank : Int
  buffer : Nat → Word

structure PsnState where
  degree : Nat
  arrival : Nat → Bool
  aggBuffer : AggBuffer
  rDegree : Nat
  rArrival : Nat → Bool
  bcastBuffer : AggBuffer

structure SwitchContext where
  psnStates : Nat → PsnState
  conns : Nat → Connection
  fanIn : Nat
  isRoot : Bool
  aggEpsn : Nat → Nat
  downEpsn : Nat
  latestAck : Nat → Nat
  downAck : Nat
  sendPsn : Nat → Nat
  routingTable : RuleTable
  rankToConn : Int → Int
  operationType : PrimitiveType
  rootRank : Int
  ctrlPsn : Int
  switchId : Int

/-- Either buffer as `init_psn_state` leaves it. -/
def AggBuffer.init : AggBuffer where
  len := 0
  packetType := 0
  state := false
  psn := -1
  operationType := .null
  rootRank := -1
  buffer := fun _ => 0

def initPsnState : PsnState where
  degree := 0
  arrival := fun _ => false
  aggBuffer := .init
  rDegree := 0
  rArrival := fun _ => false
  bcastBuffer := .init

/-- The context after `switch_context_init` has succeeded. -/
def switchContextInit (switchId : Int) : SwitchContext where
  psnStates := fun _ => initPsnState
  conns := fun _ => .zero
  fanIn := 0
  isRoot := false
  aggEpsn := fun _ => 0
  downEpsn := 0
  latestAck := fun _ => 0
  downAck := 0
  sendPsn := fun _ => 0
  routingTable := { rules := [] }
  rankToConn := fun _ => -1
  operationType := .allreduce
  rootRank := -1
  ctrlPsn := -1
  switchId := switchId

/-- What the reset writes into either buffer: the contents, the packet type
and the metadata stay. -/
def AggBuffer.reset (buffer : AggBuffer) : AggBuffer :=
  { buffer with state := false, len := 0, psn := -1 }

def PsnState.reset (state : PsnState) : PsnState :=
  { state with
    degree := 0
    rDegree := 0
    arrival := fun _ => false
    rArrival := fun _ => false
    aggBuffer := state.aggBuffer.reset
    bcastBuffer := state.bcastBuffer.reset }

/-- `send_psn` and `ctrl_psn` are not among the fields the source resets. -/
def switchContextResetPsnStates (ctx : SwitchContext) : SwitchContext :=
  { ctx with
    psnStates := fun index => (ctx.psnStates index).reset
    aggEpsn := fun _ => 0
    downEpsn := 0
    latestAck := fun _ => 0
    downAck := 0
    operationType := .allreduce
    rootRank := -1 }

namespace SwitchContext

def setPsnState (ctx : SwitchContext) (index : Nat) (state : PsnState) :
    SwitchContext :=
  { ctx with psnStates := Function.update ctx.psnStates index state }

/-- `ctx->send_psn[conn]++`. -/
def bumpSendPsn (ctx : SwitchContext) (conn : Nat) : SwitchContext :=
  { ctx with
    sendPsn := Function.update ctx.sendPsn conn (ctx.sendPsn conn + 1) }

/-- `ctx->agg_epsn[conn]++`. -/
def bumpAggEpsn (ctx : SwitchContext) (conn : Nat) : SwitchContext :=
  { ctx with
    aggEpsn := Function.update ctx.aggEpsn conn (ctx.aggEpsn conn + 1) }

@[simp]
theorem setPsnState_psnStates (ctx : SwitchContext) (index : Nat)
    (state : PsnState) :
    (ctx.setPsnState index state).psnStates =
      Function.update ctx.psnStates index state := rfl

@[simp]
theorem bumpSendPsn_sendPsn (ctx : SwitchContext) (conn : Nat) :
    (ctx.bumpSendPsn conn).sendPsn =
      Function.update ctx.sendPsn conn (ctx.sendPsn conn + 1) := rfl

@[simp]
theorem bumpAggEpsn_aggEpsn (ctx : SwitchContext) (conn : Nat) :
    (ctx.bumpAggEpsn conn).aggEpsn =
      Function.update ctx.aggEpsn conn (ctx.aggEpsn conn + 1) := rfl

end SwitchContext

end IncEmulation
