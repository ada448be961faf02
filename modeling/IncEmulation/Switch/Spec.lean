import Mathlib.Algebra.Order.Group.Int
import IncEmulation.Switch.Handler

/-!
# What one packet does

The cases of `packet_handler`, stated once; every invariant of the switch is
proved along them.
-/

namespace IncEmulation.Switch

open Loop

section Rules

variable {config : Config} {conn : Nat} {rule : Rule}

theorem lookupRule_eq_some (found : config.lookupRule conn = some rule) :
    conn ≤ fanIn ∧ ¬(config.root ∧ conn = fanIn) ∧
      rule = {
        id := conn
        direction := if conn ≠ fanIn then .up else .down
        ackConn := conn
        outConns := if config.root ∨ conn = fanIn then List.range fanIn
          else [fanIn] } := by
  unfold Config.lookupRule at found
  split at found
  · cases found
  · rename_i exists'
    push Not at exists'
    exact ⟨exists'.1, by simpa using exists'.2,
      (Option.some.inj found).symm⟩

theorem child_of_up (found : config.lookupRule conn = some rule)
    (up : rule.direction = .up) : conn < fanIn := by
  obtain ⟨bound, -, rfl⟩ := lookupRule_eq_some found
  by_contra notBelow
  have same : conn = fanIn := by omega
  simp [same] at up

theorem parent_of_down (found : config.lookupRule conn = some rule)
    (down : rule.direction = .down) :
    conn = fanIn ∧ config.root = false := by
  obtain ⟨-, notBoth, rfl⟩ := lookupRule_eq_some found
  have same : conn = fanIn := by
    by_contra different
    simp [different] at down
  exact ⟨same, by simpa [same] using notBoth⟩

end Rules

/-! ## Clearing aggregation slots -/

/-- What the backward walks of `down_ack_handler` may change: they clear slots
of PSNs up to `high`. -/
structure ClearChange (globals : Globals) (high : Int) (cleared : Globals) :
    Prop where
  frame : cleared = { globals with
    arrivalState := cleared.arrivalState
    aggBuffer := cleared.aggBuffer
    aggDegree := cleared.aggDegree }
  slots : ∀ slot,
    (cleared.aggBuffer slot = globals.aggBuffer slot ∧
      cleared.aggDegree slot = globals.aggDegree slot ∧
      ∀ i, cleared.arrivalState i slot = globals.arrivalState i slot) ∨
    (cleared.aggBuffer slot = .zero ∧ cleared.aggDegree slot = 0 ∧
      (∀ i < fanIn, cleared.arrivalState i slot = false) ∧
      (globals.aggBuffer slot).psn ≤ high)

namespace ClearChange

variable {globals cleared final : Globals} {high : Int}

theorem refl (globals : Globals) (high : Int) :
    ClearChange globals high globals :=
  ⟨rfl, fun _ => Or.inl ⟨rfl, rfl, fun _ => rfl⟩⟩

theorem trans (first : ClearChange globals high cleared)
    (second : ClearChange cleared high final) :
    ClearChange globals high final := by
  refine ⟨by rw [second.frame, first.frame], fun slot => ?_⟩
  rcases second.slots slot with ⟨buffer, degree, arrival⟩ |
    ⟨buffer, degree, arrival, below⟩
  · rw [buffer, degree]
    simp only [arrival]
    exact first.slots slot
  · rcases first.slots slot with ⟨buffer', -, -⟩ | ⟨-, -, -, below'⟩
    · rw [buffer'] at below
      exact Or.inr ⟨buffer, degree, arrival, below⟩
    · exact Or.inr ⟨buffer, degree, arrival, below'⟩

theorem clearAgg {slot : Int} (below : (globals.aggBuffer slot).psn ≤ high) :
    ClearChange globals high (globals.clearAgg slot) := by
  refine ⟨rfl, fun other => ?_⟩
  by_cases same : other = slot
  · subst same
    exact Or.inr ⟨Function.update_self .., Function.update_self ..,
      fun i isChild => if_pos ⟨isChild, rfl⟩, below⟩
  · exact Or.inl ⟨Function.update_of_ne same .., Function.update_of_ne same ..,
      fun i => if_neg fun both => same both.2⟩

end ClearChange

section Clearing

variable {globals cleared next : Globals} {high : Int} {fuel : Nat}

theorem clearRound_eq_again {walk next : Globals × Int}
    (round : clearRound walk = .again next) :
    ((walk.1.aggBuffer (idx walk.2)).state = true ∧
      (walk.1.aggBuffer (idx walk.2)).psn = walk.2) ∧
      next = (walk.1.clearAgg (idx walk.2), walk.2 - 1) := by
  simp only [clearRound] at round
  split at round
  · rename_i holds
    exact ⟨holds, (Round.again.inj round).symm⟩
  · cases round

theorem clearRound_eq_stop {walk : Globals × Int}
    (round : clearRound walk = .stop cleared) : cleared = walk.1 := by
  simp only [clearRound] at round
  split at round
  · cases round
  · exact (Round.stop.inj round).symm

theorem clearRound_walk
    (returned : iterate clearRound fuel (globals, high) = some cleared) :
    ClearChange globals high cleared := by
  refine iterate_invariant
    (fun walk => ClearChange globals high walk.1 ∧ walk.2 ≤ high)
    (ClearChange globals high) ?_ ?_ ⟨.refl globals high, le_refl high⟩
    returned
  · rintro walk next ⟨change, below⟩ round
    obtain ⟨⟨-, psn⟩, rfl⟩ := clearRound_eq_again round
    exact ⟨change.trans (.clearAgg (by omega)), by simp only; omega⟩
  · rintro walk result ⟨change, -⟩ round
    obtain rfl := clearRound_eq_stop round
    exact change

theorem downAckCovers_spec
    (covered : downAckCovers fuel globals high = some next) :
    ∃ cleared, ClearChange globals high cleared ∧
      next = { cleared with downAck := max globals.downAck high } := by
  unfold downAckCovers at covered
  split at covered
  · rename_i above
    obtain ⟨cleared, returned, rfl⟩ := Option.map_eq_some_iff.mp covered
    exact ⟨cleared, clearRound_walk returned, by rw [max_eq_right above.le]⟩
  · rename_i below
    obtain rfl := Option.some.inj covered
    exact ⟨globals, .refl globals high, by
      rw [max_eq_left (Int.not_lt.mp below)]⟩

end Clearing

/-! ## The packet handler -/

/-- The state after the part of `aggregate` under the mutex. -/
def gathered (config : Config) (globals : Globals) (conn : Nat)
    (packet : Packet) : Globals :=
  gather (accept globals conn packet) (contributionOf config globals packet)

/-- The packet is the next one of the child and its arrival is not noted. -/
structure Fresh (globals : Globals) (conn : Nat) (packet : Packet) : Prop where
  isChild : conn < fanIn
  send : packet.opcode ∈ sendOpcodes
  next : globals.aggEpsn conn = packet.psn
  first : globals.arrivalState conn (idx packet.psn) = false

theorem opcode_ne_of_send {opcode : UInt8} (send : opcode ∈ sendOpcodes) :
    opcode ≠ 0x11 := by
  rintro rfl
  exact absurd send (by decide)

/-- An ACK or NAK. -/
structure IsAckPacket (packet : Packet) (isAck' : Bool) : Prop where
  opcode : packet.opcode = 0x11
  syndrome : isAck packet.synMsn = isAck'

/-- The cases of `packet_handler`. -/
inductive Handled (config : Config) (fuel : Nat) (globals : Globals)
    (conn : Nat) (rule : Rule) (packet : Packet) :
    Globals → List Frame → Prop where
  | replied {frames : List Frame} :
      packet.opcode ≠ 0x11 →
      (∀ frame ∈ frames, frame.type = .ack ∨ frame.type = .nak) →
      Handled config fuel globals conn rule packet globals frames
  | broadcast {next : Globals} {frames : List Frame} :
      conn = fanIn → packet.opcode ≠ 0x11 →
      (globals.bcastBuffer (idx packet.psn)).state = false →
      cache globals rule packet.psn packet.data packet.dataLen packet.opcode =
        some (next, frames) →
      Handled config fuel globals conn rule packet next
        (forwarding rule packet.psn .ack [] 0x11 ++ frames)
  | waiting :
      Fresh globals conn packet →
      (gathered config globals conn packet).aggDegree (idx packet.psn) ≠
        fanIn →
      Handled config fuel globals conn rule packet
        (gathered config globals conn packet)
        (forwarding rule packet.psn .ack [] 0x11)
  | uploaded :
      Fresh globals conn packet → config.root = false →
      (gathered config globals conn packet).aggDegree (idx packet.psn) =
        fanIn →
      Handled config fuel globals conn rule packet
        (gathered config globals conn packet)
        (forwarding rule packet.psn .ack [] 0x11 ++
          forwarding rule packet.psn .data
            ((gathered config globals conn packet).aggBuffer
              (idx packet.psn)).words
            ((gathered config globals conn packet).aggBuffer
              (idx packet.psn)).packetType)
  | finished {next : Globals} {frames : List Frame} :
      Fresh globals conn packet → config.root = true →
      (gathered config globals conn packet).aggDegree (idx packet.psn) =
        fanIn →
      finish config fuel (gathered config globals conn packet) rule
        (contributionOf config globals packet) = some (next, frames) →
      Handled config fuel globals conn rule packet next
        (forwarding rule packet.psn .ack [] 0x11 ++ frames)
  | parentAck {next : Globals} :
      conn = fanIn → config.root = false → IsAckPacket packet true →
      downAckCovers fuel globals packet.psn = some next →
      Handled config fuel globals conn rule packet next []
  | parentNak {next : Globals} {frames : List Frame} :
      conn = fanIn → config.root = false → IsAckPacket packet false →
      downAckCovers fuel globals (packet.psn - 1) = some next →
      iterate (resendRound next rule) fuel (packet.psn, []) = some frames →
      Handled config fuel globals conn rule packet next frames
  | childAck {next : Globals} :
      conn < fanIn → IsAckPacket packet true →
      upstreamAck fuel globals conn packet.psn = some next →
      Handled config fuel globals conn rule packet next []
  | childNak {next : Globals} :
      conn < fanIn → IsAckPacket packet false →
      upstreamNak fuel globals conn rule packet.psn = some next →
      Handled config fuel globals conn rule packet next []

section Cases

variable {config : Config} {fuel : Nat} {globals next : Globals} {conn : Nat}
  {rule : Rule} {packet : Packet} {frames : List Frame}

theorem downstreamData_cases (isParent : conn = fanIn)
    (data : packet.opcode ≠ 0x11)
    (handled : downstreamData globals rule packet = some (next, frames)) :
    Handled config fuel globals conn rule packet next frames := by
  unfold downstreamData at handled
  split at handled
  · -- A PSN from before is acknowledged again.
    cases handled
    refine .replied data fun frame member => Or.inl ?_
    rw [List.mem_singleton.mp member]
  · split at handled
    · -- A PSN is missing.
      cases handled
      refine .replied data fun frame member => Or.inr ?_
      rw [List.mem_singleton.mp member]
    · split at handled
      · cases handled
      · rename_i free
        rw [Bool.not_eq_true] at free
        obtain ⟨⟨cached, more⟩, took, rest⟩ := Option.bind_eq_some_iff.mp handled
        cases rest
        exact .broadcast isParent data free took

theorem aggregate_cases (fresh : Fresh globals conn packet)
    (handled : aggregate config fuel (accept globals conn packet) rule
      (contributionOf config globals packet) = some (next, frames)) :
    Handled config fuel globals conn rule packet next
      (forwarding rule packet.psn .ack [] 0x11 ++ frames) := by
  unfold aggregate at handled
  simp only at handled
  split at handled
  · rename_i full
    split at handled
    · rename_i isRoot
      exact .finished fresh isRoot full handled
    · rename_i notRoot
      cases handled
      exact .uploaded fresh (Bool.not_eq_true _ ▸ notRoot) full
  · rename_i waiting
    cases handled
    rw [List.append_nil]
    exact .waiting fresh waiting

theorem upstreamData_cases (isChild : conn < fanIn)
    (send : packet.opcode ∈ sendOpcodes)
    (handled : upstreamData config fuel globals conn rule packet =
      some (next, frames)) :
    Handled config fuel globals conn rule packet next frames := by
  have data := opcode_ne_of_send send
  unfold upstreamData at handled
  split at handled
  · cases handled
    refine .replied data fun frame member => Or.inl ?_
    rw [List.mem_singleton.mp member]
  · split at handled
    · cases handled
      refine .replied data fun frame member => Or.inr ?_
      rw [List.mem_singleton.mp member]
    · split at handled
      · cases handled
      · rename_i notBelow notAbove first
        rw [Bool.not_eq_true] at first
        obtain ⟨⟨after, more⟩, took, rest⟩ := Option.bind_eq_some_iff.mp handled
        cases rest
        exact aggregate_cases ⟨isChild, send, by omega, first⟩ took

theorem downAckHandler_cases (isParent : conn = fanIn)
    (notRoot : config.root = false) (opcode : packet.opcode = 0x11)
    (handled : downAckHandler fuel globals packet.synMsn rule packet.psn =
      some (next, frames)) :
    Handled config fuel globals conn rule packet next frames := by
  unfold downAckHandler at handled
  split at handled
  · rename_i positive
    obtain ⟨after, covered, rest⟩ := Option.map_eq_some_iff.mp handled
    cases rest
    exact .parentAck isParent notRoot ⟨opcode, positive⟩ covered
  · rename_i negative
    rw [Bool.not_eq_true] at negative
    obtain ⟨after, covered, rest⟩ := Option.bind_eq_some_iff.mp handled
    obtain ⟨given, same, rest⟩ := Option.bind_eq_some_iff.mp rest
    cases same
    obtain ⟨sent, resent, last⟩ := Option.bind_eq_some_iff.mp rest
    cases last
    exact .parentNak isParent notRoot ⟨opcode, negative⟩ covered resent

/-- The inversion of `packet_handler`. -/
theorem packetHandler_cases
    (handled : packetHandler config fuel globals conn packet =
      some (next, frames)) :
    ∃ rule, config.lookupRule conn = some rule ∧
      Handled config fuel globals conn rule packet next frames := by
  unfold packetHandler at handled
  obtain ⟨rule, found, handled⟩ := Option.bind_eq_some_iff.mp handled
  refine ⟨rule, found, ?_⟩
  split at handled
  · rename_i send
    split at handled
    · rename_i down
      exact downstreamData_cases (parent_of_down found down).1
        (opcode_ne_of_send send) handled
    · rename_i up
      exact upstreamData_cases (child_of_up found up) send handled
  · split at handled
    · rename_i opcode
      split at handled
      · rename_i down
        obtain ⟨isParent, notRoot⟩ := parent_of_down found down
        exact downAckHandler_cases isParent notRoot opcode handled
      · rename_i up
        have isChild := child_of_up found up
        split at handled
        · rename_i positive
          obtain ⟨after, covered, rest⟩ := Option.map_eq_some_iff.mp handled
          cases rest
          exact .childAck isChild ⟨opcode, positive⟩ covered
        · rename_i negative
          rw [Bool.not_eq_true] at negative
          obtain ⟨after, covered, rest⟩ := Option.map_eq_some_iff.mp handled
          cases rest
          exact .childNak isChild ⟨opcode, negative⟩ covered
    · rename_i unknown
      cases handled
      exact .replied unknown fun frame member => absurd member (by simp)

theorem cache_eq_some {psn : Int} {data : Nat → UInt32} {len : Nat}
    {packetType : UInt8}
    (cached : cache globals rule psn data len packetType =
      some (next, frames)) :
    psn = globals.downEpsn ∧
      next = { globals with
        downEpsn := globals.downEpsn + 1
        bcastBuffer := Function.update globals.bcastBuffer (idx psn)
          (cachedSlot globals psn data len packetType) } ∧
      frames = forwarding rule psn .data
        (cachedSlot globals psn data len packetType).words packetType := by
  unfold cache at cached
  split at cached
  · cases cached
  · rename_i same
    cases cached
    exact ⟨not_not.mp same, rfl, rfl⟩

/-- What the root does with a complete sum. -/
theorem finish_cases {input : Contribution}
    (finished : finish config fuel globals rule input = some (next, frames)) :
    (∃ cached, (globals.bcastBuffer (idx input.psn)).state = false ∧
      cache globals rule input.psn (globals.aggBuffer (idx input.psn)).buffer
        input.len input.packetType = some (cached, frames) ∧
      downAckCovers fuel cached input.psn = some next) ∨
    (input.operationType ≠ config.operationTypeAllreduce ∧
      (next = globals.clearAgg (idx input.psn) ∨ next = globals)) := by
  unfold finish at finished
  simp only at finished
  split at finished
  · cases finished
  · rename_i free
    rw [Bool.not_eq_true] at free
    split at finished
    · obtain ⟨⟨cached, sent⟩, took, rest⟩ :=
        Option.bind_eq_some_iff.mp finished
      obtain ⟨⟨after, more⟩, acked, last⟩ := Option.bind_eq_some_iff.mp rest
      have positive : isAck 0 = true := rfl
      rw [downAckHandler, if_pos positive] at acked
      obtain ⟨other, covered, same⟩ := Option.map_eq_some_iff.mp acked
      cases same
      cases last
      rw [List.append_nil]
      exact Or.inl ⟨cached, free, took, covered⟩
    · rename_i notAllreduce
      split at finished
      · cases finished
        exact Or.inr ⟨notAllreduce, Or.inl rfl⟩
      · cases finished
        exact Or.inr ⟨notAllreduce, Or.inr rfl⟩

end Cases

/-! ## More rounds -/

section Rounds

variable {config : Config} {memory : Globals} {world next : World}
  {event : Event} {fuel more : Nat}

theorem downAckCovers_extends (enough : fuel ≤ more) (globals : Globals)
    (high : Int) :
    Extends (downAckCovers fuel globals high)
      (downAckCovers more globals high) :=
  .ite (.map _ (iterate_extends enough)) (.refl _)

theorem downAckHandler_extends (enough : fuel ≤ more) (globals : Globals)
    (synMsn : UInt32) (rule : Option Rule) (psn : Int) :
    Extends (downAckHandler fuel globals synMsn rule psn)
      (downAckHandler more globals synMsn rule psn) :=
  .ite (.map _ (downAckCovers_extends enough globals psn))
    (.bind (downAckCovers_extends enough globals (psn - 1)) fun _ =>
      .bind (.refl rule) fun _ =>
        .bind (iterate_extends enough) fun _ => .refl _)

theorem aggregate_extends (enough : fuel ≤ more) (globals : Globals)
    (rule : Rule) (input : Contribution) :
    Extends (aggregate config fuel globals rule input)
      (aggregate config more globals rule input) := by
  have finished (gathered : Globals) :
      Extends (finish config fuel gathered rule input)
        (finish config more gathered rule input) :=
    .ite (.refl _) (.ite
      (.bind (.refl _) fun _ =>
        .bind (downAckHandler_extends enough _ 0 none input.psn) fun _ =>
          .refl _)
      (.refl _))
  exact .ite (.ite (finished _) (.refl _)) (.refl _)

theorem upstreamData_extends (enough : fuel ≤ more) (globals : Globals)
    (id : Nat) (rule : Rule) (packet : Packet) :
    Extends (upstreamData config fuel globals id rule packet)
      (upstreamData config more globals id rule packet) :=
  .ite (.refl _) (.ite (.refl _) (.ite (.refl _)
    (.bind (aggregate_extends enough _ rule _) fun _ => .refl _)))

theorem upstreamAck_extends (enough : fuel ≤ more) (globals : Globals)
    (id : Nat) (psn : Int) :
    Extends (upstreamAck fuel globals id psn)
      (upstreamAck more globals id psn) :=
  .ite (.map _ (iterate_extends enough)) (.refl _)

theorem upstreamNak_extends (enough : fuel ≤ more) (globals : Globals)
    (id : Nat) (rule : Rule) (psn : Int) :
    Extends (upstreamNak fuel globals id rule psn)
      (upstreamNak more globals id rule psn) :=
  .map _ (.ite (.map _ (iterate_extends enough)) (.refl _))

theorem packetHandler_extends (enough : fuel ≤ more) (globals : Globals)
    (conn : Nat) (packet : Packet) :
    Extends (packetHandler config fuel globals conn packet)
      (packetHandler config more globals conn packet) := by
  refine .bind (.refl _) fun rule => .ite ?_ (.ite ?_ (.refl _))
  · cases rule.direction with
    | down => exact .refl _
    | up => exact upstreamData_extends enough globals conn rule packet
  · cases rule.direction with
    | down => exact downAckHandler_extends enough globals _ rule packet.psn
    | up =>
        exact .ite
          (.map _ (upstreamAck_extends enough globals conn packet.psn))
          (.map _ (upstreamNak_extends enough globals conn rule packet.psn))

/-- A larger bound of the walks takes the same steps. -/
theorem step_extends (enough : fuel ≤ more) (world : World) (event : Event) :
    Extends (step config fuel world event)
      (step config more world event) := by
  cases event with
  | packet conn packet =>
      exact .bind (packetHandler_extends enough world.globals conn packet)
        fun _ => .refl _
  | start => exact .refl _
  | round index => exact .refl _

theorem Reached.step (reached : Reached config memory world)
    (stepped : Switch.step config fuel world event = some next) :
    Reached config memory next := by
  obtain ⟨before, events, taken⟩ := reached
  have run := Machine.run_mono
    (step_extends (le_max_left before fuel)) taken
  have final := step_extends (le_max_right before fuel) world event _ stepped
  exact ⟨max before fuel,
    Machine.Reachable.tail ⟨events, run⟩ event final⟩

end Rounds

end IncEmulation.Switch
