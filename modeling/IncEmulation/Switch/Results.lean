import IncEmulation.Switch.Exactness

/-!
# What the root delivers

An AllReduce brings the sums of the children to all of them, a Reduce to the
one with the root rank, and another operation to nobody.
-/

namespace IncEmulation.Switch

open Gather Loop

/-- Every child announces the operation and the rank in its first packet. -/
def Announces (operationType rootRank : UInt32) : Event → Prop
  | .packet conn packet =>
      conn < fanIn → packet.opcode ∈ sendOpcodes → packet.psn = 0 →
        2 ≤ packet.dataLen ∧ packet.data 0 = operationType ∧
          packet.data 1 = rootRank
  | _ => True

instance (operationType rootRank : UInt32) :
    DecidablePred (Announces operationType rootRank)
  | .packet _ _ => inferInstanceAs (Decidable (_ → _ → _ → _))
  | .start => .isTrue trivial
  | .round _ => .isTrue trivial

/-- The connections that the result of an operation goes to. -/
structure Receives (config : Config) (operationType rootRank : UInt32)
    (conn : Nat) : Prop where
  isChild : conn < fanIn
  operation : operationType = config.operationTypeAllreduce ∨
    (operationType = config.operationTypeReduce ∧ rankToConn conn = rootRank)

/-- What a root has sent. -/
structure Delivered (config : Config) (operationType rootRank : UInt32)
    (log : List Entry) : Prop where
  sums : ∀ conn, Receives config operationType rootRank conn →
    ExactSums log conn
  nothing : ∀ conn, ¬Receives config operationType rootRank conn →
    sentData log conn = []

/-- The frames bring the words of a slot to the connections that receive the
result. -/
structure BringsResult (config : Config) (operationType rootRank : UInt32)
    (slot : AggBuffer) (psn : Int) (frames : List Frame) : Prop where
  received : ∀ conn, Receives config operationType rootRank conn →
    dataTo conn frames = [⟨conn, .data, psn, slot.packetType, slot.words⟩]
  withheld : ∀ conn, ¬Receives config operationType rootRank conn →
    dataTo conn frames = []

structure Delivering (config : Config) (operationType rootRank : UInt32)
    (world : World) : Prop where
  collecting : Collecting world.globals (children world.log)
  operation : ∀ i < fanIn, 0 < count (children world.log) i →
    world.globals.currentOperationType = operationType ∧
      world.globals.currentRootRank = rootRank
  delivered : Delivered config operationType rootRank world.log

section Delivery

variable {config : Config} {fuel : Nat} {world next : World} {conn : Nat}
  {packet : Packet} {frames : List Frame} {rule : Rule}
  {globals globals' : Globals} {event : Event}
  {operationType rootRank : UInt32} {log log' : List Entry} {target : Nat}

theorem Receives.iff_allreduce
    (same : operationType = config.operationTypeAllreduce) :
    Receives config operationType rootRank target ↔ target < fanIn :=
  ⟨fun receives => receives.isChild, fun bound => ⟨bound, Or.inl same⟩⟩

theorem child_of_root (isRoot : config.root = true)
    (found : config.lookupRule conn = some rule) : conn < fanIn := by
  obtain ⟨bound, notParent, -⟩ := lookupRule_eq_some found
  have different : conn ≠ fanIn := fun same => notParent ⟨isRoot, same⟩
  omega

theorem rankToConn_inj {other : Nat} (bound : target < fanIn)
    (bound' : other < fanIn) (same : rankToConn target = rankToConn other) :
    target = other := by
  have numbers := congrArg UInt32.toNat same
  simp only [rankToConn, UInt32.toNat_ofNat'] at numbers
  unfold fanIn at bound bound'
  omega

/-- The result of a Reduce goes to the child with the root rank. -/
theorem dataTo_reduceResult {input : Contribution} :
    dataTo target (reduceResult globals input) =
      if target < fanIn ∧ rankToConn target = input.rootRank then
        [⟨target, .data, input.psn, input.packetType,
          (globals.aggBuffer (idx input.psn)).words⟩]
      else [] := by
  unfold reduceResult
  simp only
  cases found : (List.range fanIn).find?
      fun i => decide (rankToConn i = input.rootRank) with
  | none =>
      have nobody := List.find?_eq_none.mp found
      rw [if_neg]
      · rfl
      · rintro ⟨bound, same⟩
        exact nobody target (List.mem_range.mpr bound) (decide_eq_true same)
  | some conn =>
      have same : rankToConn conn = input.rootRank := by
        simpa using List.find?_some found
      have bound := List.mem_range.mp (List.mem_of_find?_eq_some found)
      by_cases isTarget : target = conn
      · subst isTarget
        rw [if_pos ⟨bound, same⟩]
        simp [dataTo]
      · rw [if_neg]
        · simp [dataTo, Ne.symm isTarget]
        · rintro ⟨bound', same'⟩
          exact isTarget (rankToConn_inj bound' bound (same'.trans same.symm))

theorem Delivering.quiet (delivering : Delivering config operationType rootRank
      world)
    (collecting : Collecting globals (children
      (world.log ++ .received conn packet :: frames.map Entry.sent)))
    (handled : packetHandler config fuel world.globals conn packet =
      some (globals, frames)) (quiet : Quiet world.globals globals frames) :
    Delivering config operationType rootRank ⟨globals,
      world.log ++ .received conn packet :: frames.map Entry.sent⟩ := by
  have sameChildren :=
    children_of_stay delivering.collecting quiet.aggEpsn handled
  refine ⟨collecting, ?_, ⟨?_, ?_⟩⟩
  · rw [sameChildren, quiet.operationType, quiet.rootRank]
    exact delivering.operation
  · intro target receives
    exact (delivering.delivered.sums target receives).congr sameChildren
      quiet.sentData
  · intro target excluded
    rw [quiet.sentData]
    exact delivering.delivered.nothing target excluded

/-- The operation of a packet that is taken, and the one that is stored. -/
theorem Delivering.operationOf (delivering : Delivering config operationType
      rootRank world)
    (announces : Announces operationType rootRank (.packet conn packet))
    (fresh : Fresh world.globals conn packet) :
    Switch.operationOf config world.globals packet =
        (operationType, rootRank) ∧
      (gathered config world.globals conn packet).currentOperationType =
        operationType ∧
      (gathered config world.globals conn packet).currentRootRank =
        rootRank := by
  by_cases first : packet.psn = 0
  · obtain ⟨long, isOperation, isRank⟩ :=
      announces fresh.isChild fresh.send first
    simp [Switch.operationOf, gathered, gather, accept, first, long,
      isOperation, isRank]
  · have isNext := fresh.psn_eq delivering.collecting
    obtain ⟨sameOperation, sameRank⟩ :=
      delivering.operation conn fresh.isChild (by omega)
    simp [Switch.operationOf, gathered, gather, accept, first,
      Nat.pos_of_ne_zero first, sameOperation, sameRank]

/-- A packet is taken: what is sent is the sum of its PSN, to the connections
that it goes to, when it is the last one. -/
theorem Delivering.taken (delivering : Delivering config operationType
      rootRank world)
    (fresh : Fresh world.globals conn packet)
    (collecting : Collecting globals (children
      (world.log ++ .received conn packet :: frames.map Entry.sent)))
    (operation : globals.currentOperationType = operationType ∧
      globals.currentRootRank = rootRank)
    (waits : (gathered config world.globals conn packet).aggDegree
      (idx packet.psn) ≠ fanIn → ∀ target, dataTo target frames = [])
    (full : (gathered config world.globals conn packet).aggDegree
      (idx packet.psn) = fanIn →
        BringsResult config operationType rootRank
          ((gathered config world.globals conn packet).aggBuffer
            (idx packet.psn)) packet.psn frames) :
    Delivering config operationType rootRank ⟨globals,
      world.log ++ .received conn packet :: frames.map Entry.sent⟩ := by
  have isNext := fresh.psn_eq delivering.collecting
  have grown := @children_of_fresh world.globals conn packet frames world.log
    fresh delivering.collecting
  have isFull := @Collecting.full_iff config _ _ _ _ delivering.collecting
    fresh
  refine ⟨collecting, fun _ _ _ => operation, ⟨?_, ?_⟩⟩
  · intro target receives
    have sums := delivering.delivered.sums target receives
    by_cases last : (gathered config world.globals conn packet).aggDegree
        (idx packet.psn) = fanIn
    · have sent := @sentData_handled world.log target conn packet frames
      rw [(full last).received target receives] at sent
      refine sums.last fresh.isChild (isFull.mp last) grown sent
        (congrArg Nat.cast isNext) ?_
      rw [← isNext]
      exact delivering.collecting.carriesTotal fresh last
    · refine sums.owed (fun others => last (isFull.mpr others)) grown ?_
      rw [sentData_handled, waits last, List.append_nil]
  · intro target excluded
    have nothing := delivering.delivered.nothing target excluded
    rw [sentData_handled, nothing, List.nil_append]
    by_cases last : (gathered config world.globals conn packet).aggDegree
        (idx packet.psn) = fanIn
    · exact (full last).withheld target excluded
    · exact waits last target

/-- The frames of a complete sum at the root. -/
theorem Delivering.finished (delivering : Delivering config operationType
      rootRank world)
    (announces : Announces operationType rootRank (.packet conn packet))
    (isRoot : config.root = true)
    (found : config.lookupRule conn = some rule)
    (fresh : Fresh world.globals conn packet)
    (finished : finish config fuel (gathered config world.globals conn packet)
      rule (contributionOf config world.globals packet) =
        some (globals, frames)) :
    (globals.currentOperationType = operationType ∧
      globals.currentRootRank = rootRank) ∧
    BringsResult config operationType rootRank
      ((gathered config world.globals conn packet).aggBuffer
        (idx packet.psn)) packet.psn frames := by
  obtain ⟨isOperation, stored⟩ := delivering.operationOf announces fresh
  have isType : (contributionOf config world.globals packet).operationType =
      operationType := congrArg Prod.fst isOperation
  have isRank : (contributionOf config world.globals packet).rootRank =
      rootRank := congrArg Prod.snd isOperation
  obtain ⟨-, -, len, packetType⟩ :=
    @shape_gathered config world.globals conn packet
  rcases finish_frames finished with ⟨allreduce, cached, took, covered⟩ |
    ⟨notAllreduce, reduce, rfl, rfl⟩ | ⟨notAllreduce, notReduce, rfl, rfl⟩
  · rw [isType] at allreduce
    have quiet := quiet_of_downAckCovers covered (fun _ => rfl : ∀ target,
      dataTo target [] = [])
    obtain ⟨-, rfl, rfl⟩ := cache_eq_some took
    refine ⟨⟨quiet.operationType.trans stored.1,
      quiet.rootRank.trans stored.2⟩, ?_⟩
    have outConns := outConns_of_broadcast found (Or.inl isRoot)
    have words : (cachedSlot (gathered config world.globals conn packet)
        packet.psn ((gathered config world.globals conn packet).aggBuffer
          (idx packet.psn)).buffer packet.dataLen packet.opcode).words =
        ((gathered config world.globals conn packet).aggBuffer
          (idx packet.psn)).words := by
      unfold AggBuffer.words
      rw [len]
      exact List.map_congr_left fun _ member =>
        if_pos (List.mem_range.mp member)
    have sent : ∀ target, dataTo target (forwarding rule packet.psn .data
        (cachedSlot (gathered config world.globals conn packet) packet.psn
          ((gathered config world.globals conn packet).aggBuffer
            (idx packet.psn)).buffer packet.dataLen packet.opcode).words
        packet.opcode) = if target < fanIn then
          [⟨target, .data, packet.psn, packet.opcode,
            ((gathered config world.globals conn packet).aggBuffer
              (idx packet.psn)).words⟩]
        else [] := by
      intro target
      rw [dataTo_forwarding (outConns ▸ List.nodup_range), outConns, words]
      simp only [List.mem_range]
    refine ⟨fun target receives => ?_, fun target excluded => ?_⟩
    · rw [packetType]
      exact (sent target).trans (if_pos receives.isChild)
    · rw [Receives.iff_allreduce allreduce] at excluded
      exact (sent target).trans (if_neg excluded)
  · rw [isType] at notAllreduce reduce
    have sent := @dataTo_reduceResult
      (gathered config world.globals conn packet)
    refine ⟨stored, fun target receives => ?_, fun target excluded => ?_⟩
    · rcases receives with ⟨bound, allreduce | ⟨-, sameRank⟩⟩
      · exact absurd allreduce notAllreduce
      · rw [sent, if_pos ⟨bound, sameRank.trans isRank.symm⟩, packetType]
        rfl
    · rw [sent]
      exact if_neg fun both =>
        excluded ⟨both.1, Or.inr ⟨reduce, both.2.trans isRank⟩⟩
  · rw [isType] at notAllreduce notReduce
    refine ⟨stored, fun target receives => ?_, fun _ _ => rfl⟩
    rcases receives.operation with allreduce | ⟨reduce, -⟩
    · exact absurd allreduce notAllreduce
    · exact absurd reduce notReduce

theorem Delivering.handled (delivering : Delivering config operationType
      rootRank world)
    (isRoot : config.root = true)
    (announces : Announces operationType rootRank (.packet conn packet))
    (handled : packetHandler config fuel world.globals conn packet =
      some (globals, frames)) :
    Delivering config operationType rootRank ⟨globals,
      world.log ++ .received conn packet :: frames.map Entry.sent⟩ := by
  obtain ⟨rule, found, cases⟩ := packetHandler_cases handled
  have isChild := child_of_root isRoot found
  have collecting := delivering.collecting.handled
    (fun isParent => absurd isParent isChild.ne) handled
  cases cases with
  | replied _ replies =>
      exact delivering.quiet collecting handled (quiet_of_replies replies)
  | broadcast isParent => exact absurd isParent isChild.ne
  | waiting fresh notFull =>
      refine delivering.taken fresh collecting
        (delivering.operationOf announces fresh).2 ?_ fun full =>
          absurd full notFull
      exact fun _ target => dataTo_reply (by decide)
  | uploaded _ notRoot => exact Bool.noConfusion (notRoot.symm.trans isRoot)
  | finished fresh _ full finished =>
      obtain ⟨operation, sent⟩ :=
        delivering.finished announces isRoot found fresh finished
      refine delivering.taken fresh collecting operation
        (fun notFull => absurd full notFull) fun _ => ⟨?_, ?_⟩
      · intro target receives
        rw [dataTo_ack_append]
        exact sent.received target receives
      · intro target excluded
        rw [dataTo_ack_append]
        exact sent.withheld target excluded
  | parentAck isParent => exact absurd isParent isChild.ne
  | parentNak isParent => exact absurd isParent isChild.ne
  | childAck _ _ taken =>
      exact delivering.quiet collecting handled (quiet_of_upstreamAck taken)
  | childNak _ _ taken =>
      exact delivering.quiet collecting handled (quiet_of_upstreamNak taken)

theorem Delivering.step (delivering : Delivering config operationType rootRank
      world)
    (isRoot : config.root = true)
    (announces : Announces operationType rootRank event)
    (taken : Switch.step config fuel world event = some next) :
    Delivering config operationType rootRank next := by
  obtain ⟨collecting, operation, sums, nothing⟩ := delivering
  cases event with
  | packet conn packet =>
      obtain ⟨⟨globals, frames⟩, handled, rest⟩ :=
        Option.bind_eq_some_iff.mp taken
      cases rest
      exact Delivering.handled ⟨collecting, operation, sums, nothing⟩ isRoot
        announces handled
  | start =>
      rcases step_cases taken with ⟨_, _, _, _, isPacket, -⟩ |
        ⟨id, queue, -, -, rfl⟩ | ⟨_, _, isRound, -⟩
      · cases isPacket
      · exact ⟨collecting.congr rfl rfl rfl rfl, operation, sums, nothing⟩
      · cases isRound
  | round index =>
      rcases step_cases taken with ⟨_, _, _, _, isPacket, -⟩ |
        ⟨_, _, isStart, -⟩ | ⟨index, job, -, -, ⟨-, rfl⟩ | ⟨-, rfl⟩⟩
      · cases isPacket
      · cases isStart
      · refine ⟨?_, ?_, ⟨fun target receives => (sums target receives).congr
          children_append_sent sentData_retransmit, fun target excluded => ?_⟩⟩
        · rw [children_append_sent]
          exact collecting.congr rfl rfl rfl rfl
        · rw [children_append_sent]
          exact operation
        · rw [sentData_retransmit]
          exact nothing target excluded
      · exact ⟨collecting.congr rfl rfl rfl rfl, operation, sums, nothing⟩

theorem delivering_initial {memory : Globals} :
    Delivering config operationType rootRank (.initial config memory) := by
  have nothing : ∀ i < fanIn, children [] i = [] :=
    fun i bound => if_pos bound
  refine ⟨collecting_initAll nothing, ?_, fun _ _ => exactSums_nil,
    fun _ _ => rfl⟩
  intro i bound some
  rw [count, World.initial, nothing i bound] at some
  cases some

theorem run_delivering {memory : Globals} {events : List Event}
    (isRoot : config.root = true)
    (taken : Machine.run (Switch.step config fuel) (.initial config memory)
      events = some world)
    (announces : Machine.Meets (Switch.step config fuel)
      (fun _ => Announces operationType rootRank)
      (.initial config memory) events) :
    Delivering config operationType rootRank world :=
  Machine.run_invariant (Delivering config operationType rootRank)
    (fun _ _ _ delivering announces taken =>
      delivering.step isRoot announces taken)
    delivering_initial announces taken

end Delivery

/-- In every run of a root whose children announce the same operation, its
results are the exact sums, and go where the operation says. -/
theorem root_delivers_exactly (config : Config) (memory : Globals)
    (fuel : Nat) (operationType rootRank : UInt32) (events : List Event)
    (world : World) (isRoot : config.root = true)
    (taken : Machine.run (step config fuel) (.initial config memory) events =
      some world)
    (announces : Machine.Meets (step config fuel)
      (fun _ => Announces operationType rootRank)
      (.initial config memory) events) :
    Delivered config operationType rootRank world.log :=
  (run_delivering isRoot taken announces).delivered

def rootConfig : Config := ⟨true, 1, 2⟩

/-- The first packet of an operation. -/
def Packet.announcement (operationType rootRank : UInt32) : Packet where
  opcode := 0x04
  psn := 0
  psn_lt := by decide
  synMsn := 0
  dataLen := 2
  dataLen_le := by decide
  data := fun i => if i = 0 then operationType else rootRank

/-- A Reduce to the second child with one word of data. -/
def reduceEvents : List Event :=
  [.packet 1 (.announcement 2 1), .packet 1 (.word 1 30),
    .packet 0 (.announcement 2 1), .packet 0 (.word 1 7)]

def reduceWorld : World :=
  (Machine.run (step rootConfig 4) (.initial rootConfig zeroMemory)
    reduceEvents).get (by decide +kernel)

theorem root_delivers_exactly_reduce :
    Delivered rootConfig 2 1 reduceWorld.log :=
  root_delivers_exactly rootConfig zeroMemory 4 2 1 reduceEvents reduceWorld
    rfl (Option.some_get _).symm (by decide +kernel)

example : (sentData reduceWorld.log 1).map Frame.data = [[2, 1], [37]] ∧
    sentData reduceWorld.log 0 = [] := by
  decide +kernel

end IncEmulation.Switch
