import IncEmulation.Wiring

/-!
# What is added up, and under which operation

`Observed` extends the system by a history: what every connection announced
last, what every slot was given since it was last emptied, and what left the
switch when a slot was full.  Nothing in a run depends on it.
-/

namespace IncEmulation

open Gather Machine

/-- A data packet that was added to its slot. -/
structure Contribution where
  conn : Nat
  packet : Packet
  /-- What the last control message of the connection announced. -/
  announced : Option (PrimitiveType × Int)
  /-- The metadata the packet was aggregated under. -/
  inForce : PrimitiveType × Int

/-- A slot that was full. -/
structure Result where
  psn : Nat
  inForce : PrimitiveType × Int
  contributions : List Contribution
  frames : List Frame

def SwitchContext.metadata (ctx : SwitchContext) : PrimitiveType × Int :=
  (ctx.operationType, ctx.rootRank)

structure Observed where
  system : System
  announced : Nat → Option (PrimitiveType × Int)
  /-- What a slot was given since it was last emptied. -/
  slots : Nat → List Contribution
  accepted : List Contribution
  results : List Result

namespace Observed

def init (ctx : SwitchContext) : Observed where
  system := .init ctx
  announced := fun _ => none
  slots := fun _ => []
  accepted := []
  results := []

def contribution (observed : Observed) (rank : Nat) (packet : Packet) :
    Contribution where
  conn := rank
  packet := packet
  announced := observed.announced rank
  inForce := observed.system.switch.metadata

/-- The slot is still short of a contribution. -/
def gather (observed : Observed) (rank : Nat) (packet : Packet)
    (next : System) : Observed :=
  { observed with
    system := next
    slots := Function.update observed.slots (idx packet.psn)
      (observed.slots (idx packet.psn) ++ [observed.contribution rank packet])
    accepted := observed.accepted ++ [observed.contribution rank packet] }

/-- The slot is full and has been emptied. -/
def dispatch (observed : Observed) (rank : Nat) (packet : Packet)
    (frames : List Frame) (next : System) : Observed :=
  { observed with
    system := next
    slots := Function.update observed.slots (idx packet.psn) []
    accepted := observed.accepted ++ [observed.contribution rank packet]
    results := observed.results ++
      [{ psn := packet.psn
         inForce := observed.system.switch.metadata
         contributions := observed.slots (idx packet.psn) ++
           [observed.contribution rank packet]
         frames := frames }] }

def announce (observed : Observed) (rank : Nat)
    (metadata : PrimitiveType × Int) (next : System) : Observed :=
  { observed with
    system := next
    announced := Function.update observed.announced rank (some metadata) }

/-- The record of an accepted packet. -/
def note (observed : Observed) (rank : Nat) (packet : Packet)
    (next : System) : Observed :=
  if packet.isControlMessage then
    observed.announce rank packet.announced next
  else if observed.system.switch.operationType = .broadcast then
    { observed with system := next }
  else if (next.switch.psnStates (idx packet.psn)).degree = 0 then
    observed.dispatch rank packet
      (dataFrames (packetHandler observed.system.switch rank packet).2) next
  else observed.gather rank packet next

/-- The packet an event makes the switch accept. -/
def acceptedPacket (observed : Observed) (next : System) :
    System.Event → Option (Nat × Packet)
  | .handle rank =>
      if next.accepted rank = observed.system.accepted rank then none
      else
        (observed.system.up rank)[observed.system.accepted rank]?.map
          fun sent => (rank, sent.2)
  | _ => none

def observe (observed : Observed) (event : System.Event) (next : System) :
    Observed :=
  match observed.acceptedPacket next event with
  | some (rank, packet) => observed.note rank packet next
  | none => { observed with system := next }

def step (cluster : Cluster) (observed : Observed) (event : System.Event) :
    Option Observed :=
  (System.step cluster observed.system event).map (observed.observe event)

theorem note_system (observed : Observed) (rank : Nat) (packet : Packet)
    (next : System) : (observed.note rank packet next).system = next := by
  unfold note
  split_ifs <;> rfl

theorem observe_system (observed : Observed) (event : System.Event)
    (next : System) : (observed.observe event next).system = next := by
  unfold observe
  split
  · exact note_system ..
  · rfl

variable {cluster : Cluster} {observed next : Observed} {event : System.Event}

theorem step_system (stepped : step cluster observed event = some next) :
    System.step cluster observed.system event = some next.system := by
  obtain ⟨system, moved, rfl⟩ := Option.map_eq_some_iff.mp stepped
  rw [observe_system, moved]

theorem step_of_system {system : System}
    (taken : System.step cluster observed.system event = some system) :
    ∃ after, step cluster observed event = some after ∧
      after.system = system :=
  ⟨observed.observe event system, by rw [step, taken]; rfl,
    observe_system ..⟩

/-- The history changes nothing in a run and goes with every run. -/
theorem run_system_iff {ctx : SwitchContext} {events : List System.Event}
    {system : System} :
    run (System.step cluster) (.init ctx) events = some system ↔
      ∃ observed, run (step cluster) (.init ctx) events = some observed ∧
        observed.system = system := by
  constructor
  · intro taken
    exact run_lift Observed.system (fun _ _ _ => step_of_system)
      (show run _ (init ctx).system events = some system from taken)
  · rintro ⟨observed, taken, rfl⟩
    exact run_project Observed.system (fun _ _ _ => step_system) taken

end Observed

/-- A data packet of `rank` that is in turn. -/
structure System.InTurn (cluster : Cluster) (system : System)
    (rank number k : Nat) (call : Call) (packet : Packet) : Prop where
  bound : rank < cluster.hosts
  current : cluster.program[number]? = some call
  sends : call.collective.sends rank = true
  inCall : k < 4 * call.messageNum
  place : system.switch.aggEpsn rank = (cluster.job rank).base number + 1 + k
  packet_eq : ∃ memory, packet =
    cluster.addressing.dataPacket rank (system.switch.aggEpsn rank)
      (Job.dataOpcode k) (Job.dataWords memory k)
  expected : packet.psn = system.switch.aggEpsn rank
  present : ∃ segment,
    (system.up rank)[system.accepted rank]? = some (segment, packet)

namespace System.InTurn

variable {cluster : Cluster} {system : System} {rank number k : Nat}
  {call : Call} {packet : Packet}

theorem plain (inTurn : system.InTurn cluster rank number k call packet) :
    packet.Plain := by
  obtain ⟨memory, rfl⟩ := inTurn.packet_eq
  exact Addressing.dataPacket_plain (Job.dataOpcode_plain k)

theorem dataLen (inTurn : system.InTurn cluster rank number k call packet) :
    packet.dataLen = mtuWords := by
  obtain ⟨memory, rfl⟩ := inTurn.packet_eq
  rw [Addressing.dataPacket_dataLen (Job.dataOpcode_plain k)]
  simp [Job.dataWords]

theorem opcode (inTurn : system.InTurn cluster rank number k call packet) :
    packet.opcode = Job.dataOpcode k := by
  obtain ⟨memory, rfl⟩ := inTurn.packet_eq
  rfl

end System.InTurn

theorem SwitchContext.Acknowledged.refl (ctx : SwitchContext) :
    ctx.Acknowledged ctx :=
  ⟨.refl ctx, rfl, rfl, rfl, rfl, fun _ => rfl, fun _ => rfl, fun _ => rfl⟩

namespace Observed

/-- What one event adds to the history. -/
inductive Noted (cluster : Cluster) (observed : Observed) :
    System.Event → Observed → Prop where
  | quiet {event : System.Event} {next : System}
      (same : observed.system.switch.Acknowledged next.switch) :
      Noted cluster observed event { observed with system := next }
  | control {next : System} {rank number psn : Nat} {call : Call}
      (bound : rank < cluster.hosts)
      (current : cluster.program[number]? = some call)
      (sends : call.collective.sends rank = true)
      (place : observed.system.switch.aggEpsn rank =
        (cluster.job rank).base number)
      (after : next.switch =
        observed.system.switch.afterControl call.collective rank psn) :
      Noted cluster observed (.handle rank)
        (observed.announce rank call.collective.metadata next)
  | broadcast {next : System} {rank number k : Nat} {call : Call}
      {packet : Packet}
      (inTurn : observed.system.InTurn cluster rank number k call packet)
      (inForce : observed.system.switch.InForce (.broadcast rank))
      (after : next.switch =
        (observed.system.switch.bumpAggEpsn rank).afterSending
          ((Collective.broadcast rank).targets cluster.hosts)) :
      Noted cluster observed (.handle rank) { observed with system := next }
  | incomplete {next : System} {rank number k : Nat} {call : Call}
      {packet : Packet} {operation : Collective}
      (inTurn : observed.system.InTurn cluster rank number k call packet)
      (inForce : observed.system.switch.InForce operation)
      (aggregates : operation.aggregates = true)
      (notFull : (observed.system.switch.psnStates
        (idx packet.psn)).degree + 1 ≠ cluster.hosts)
      (after : next.switch =
        observed.system.switch.afterContribution operation rank packet) :
      Noted cluster observed (.handle rank) (observed.gather rank packet next)
  | complete {next : System} {rank number k : Nat} {call : Call}
      {packet : Packet} {operation : Collective}
      (inTurn : observed.system.InTurn cluster rank number k call packet)
      (inForce : observed.system.switch.InForce operation)
      (aggregates : operation.aggregates = true)
      (full : (observed.system.switch.psnStates
        (idx packet.psn)).degree + 1 = cluster.hosts)
      (completed : observed.system.switch.Completed next.switch rank
        (idx packet.psn) (operation.targets cluster.hosts)) :
      Noted cluster observed (.handle rank)
        (observed.dispatch rank packet
          (observed.system.switch.resultFrames
            (observed.system.switch.contribution operation rank
              packet).aggBuffer.buffer
            packet.dataLen packet.opcode (operation.targets cluster.hosts))
          next)

theorem inForce_not_broadcast {ctx : SwitchContext} {operation : Collective}
    (inForce : ctx.InForce operation)
    (aggregates : operation.aggregates = true) :
    ctx.operationType ≠ .broadcast := by
  have type : ctx.operationType = operation.metadata.1 :=
    congrArg Prod.fst inForce
  cases operation with
  | allreduce => simp [type, Collective.metadata]
  | reduce root => simp [type, Collective.metadata]
  | broadcast root => cases aggregates

variable {cluster : Cluster} {observed next : Observed} {event : System.Event}

theorem noted_of_control {system : System} {rank number : Nat} {call : Call}
    {packet : Packet} {after : SwitchContext} {frames : List Frame}
    (bound : rank < cluster.hosts)
    (current : cluster.program[number]? = some call)
    (sends : call.collective.sends rank = true)
    (place : observed.system.switch.aggEpsn rank =
      (cluster.job rank).base number)
    (announces : packet.Announces call.collective)
    (outcome : Outcome cluster.addressing cluster.hosts rank
      observed.system.switch packet after frames)
    (switch : system.switch = after) :
    Noted cluster observed (.handle rank)
      (observed.note rank packet system) := by
  have notPlain (plain : packet.Plain) : False :=
    Bool.noConfusion (announces.control.symm.trans plain.not_control)
  rw [note, if_pos announces.control, announces.announced]
  cases outcome with
  | control admissible other =>
      obtain rfl := Collective.metadata_injective
        (other.announced.symm.trans announces.announced)
      exact .control bound current sends place switch
  | unmoved plain => exact (notPlain plain).elim
  | broadcast plain => exact (notPlain plain).elim
  | incomplete plain => exact (notPlain plain).elim
  | complete plain => exact (notPlain plain).elim

theorem noted_of_data {system : System} {rank number k : Nat} {call : Call}
    {packet : Packet} {after : SwitchContext} {frames : List Frame}
    (plain : packet.Plain)
    (turn : packet.psn = observed.system.switch.aggEpsn rank →
      observed.system.InTurn cluster rank number k call packet)
    (outcome : Outcome cluster.addressing cluster.hosts rank
      observed.system.switch packet after frames)
    (handled : (packetHandler observed.system.switch rank packet).2 = frames)
    (moves : after.aggEpsn rank ≠ observed.system.switch.aggEpsn rank)
    (switch : system.switch = after) :
    Noted cluster observed (.handle rank)
      (observed.note rank packet system) := by
  rw [note, plain.not_control, if_neg Bool.false_ne_true]
  cases outcome with
  | unmoved => exact absurd rfl moves
  | control admissible announces =>
      exact Bool.noConfusion (announces.control.symm.trans plain.not_control)
  | broadcast _ expected inForce =>
      have type : observed.system.switch.operationType = .broadcast :=
        congrArg Prod.fst inForce
      rw [if_pos type]
      exact .broadcast (turn expected) inForce switch
  | incomplete _ expected valid aggregates inForce notFull =>
      have degree : (system.switch.psnStates (idx packet.psn)).degree ≠ 0 := by
        rw [switch]
        simp [SwitchContext.afterContribution, SwitchContext.contribution,
          PsnState.accumulate]
      rw [if_neg (inForce_not_broadcast inForce aggregates), if_neg degree]
      exact .incomplete (turn expected) inForce aggregates notFull switch
  | complete _ expected valid aggregates inForce full completed =>
      rw [← switch] at completed
      rw [if_neg (inForce_not_broadcast inForce aggregates),
        if_pos completed.idle.degree, handled,
        Aggregating.dataFrames_cons_acknowledgement,
        Aggregating.dataFrames_resultFrames,
        stripImmediateOpcode_of_plain plain]
      exact .complete (turn expected) inForce aggregates full completed

theorem noted_of_step (wired : Wired cluster observed.system)
    (stepped : step cluster observed event = some next) :
    Noted cluster observed event next := by
  obtain ⟨system, taken, rfl⟩ := Option.map_eq_some_iff.mp stepped
  cases System.moved_of_step taken with
  | host => exact .quiet (.refl _)
  | transmit => exact .quiet (.refl _)
  | sendCompletes => exact .quiet (.refl _)
  | acknowledge bound origin opcode =>
      exact .quiet (wired.acknowledge bound origin opcode).1
  | deliver bound present received =>
      cases received <;> exact .quiet (.refl _)
  | @refused rank segment packet bound present stays =>
      have outcome := wired.outcome bound (wired.arriving bound present)
      have same := (outcome.eq_of_stays stays).1
      have none : observed.acceptedPacket
          (observed.system.feedSwitch rank packet) (.handle rank) = none := by
        simp [acceptedPacket, System.feedSwitch]
      rw [observe, none]
      refine .quiet ?_
      simp only [System.feedSwitch, same]
      exact .refl _
  | @handled rank segment packet bound present moves =>
      have arriving := wired.arriving bound present
      have accepted : observed.acceptedPacket
          { observed.system.feedSwitch rank packet with
            accepted := Function.update observed.system.accepted rank
              (observed.system.accepted rank + 1) } (.handle rank) =
            some (rank, packet) := by
        simp [acceptedPacket, present]
      have outcome := wired.outcome bound arriving
      rw [observe, accepted]
      cases arriving with
      | control current sends place =>
          exact noted_of_control bound current sends place
            (Addressing.controlPacket_announces wired.deployed.fits bound
              (Cluster.admissible_of_call current sends)) outcome rfl
      | data current sends inCall place =>
          exact noted_of_data
            (Addressing.dataPacket_plain (Job.dataOpcode_plain _))
            (fun expected => ⟨bound, current, sends, inCall, place,
              ⟨_, rfl⟩, expected, _, present⟩) outcome rfl moves rfl

end Observed

end IncEmulation
