import IncEmulation.Switch.Pacing

/-!
# What stops the switch

A packet is handled to its end unless a peer is a full ring ahead: a child of
the acknowledged sums, the parent of the acknowledged broadcasts, or the sums
themselves of a NAK that asks for them.
-/

namespace IncEmulation.Switch

open Gather Loop

/-- What the packet needs is in use one turn of the ring before. -/
inductive Overruns (config : Config) (log : List Entry) (conn : Nat)
    (packet : Packet) : Prop where
  | child {psn : Nat} :
      conn < fanIn → packet.opcode ∈ sendOpcodes →
      packet.psn = (taken log conn).length → psn + N.toNat = packet.psn →
      (config.root = false → ¬AcknowledgedBy log fanIn psn) →
      (config.root = true →
        ∃ other < fanIn, (taken log other).length ≤ psn) →
      Overruns config log conn packet
  | result {psn : Nat} :
      conn < fanIn → config.root = true → packet.opcode ∈ sendOpcodes →
      packet.psn = (taken log conn).length →
      (∀ other < fanIn, other ≠ conn →
        packet.psn < (taken log other).length) →
      psn + N.toNat = packet.psn →
      (∃ i < fanIn, ¬AcknowledgedBy log i psn) →
      Overruns config log conn packet
  | broadcast {psn : Nat} :
      conn = fanIn → packet.opcode ∈ sendOpcodes →
      packet.psn = (taken log fanIn).length → psn + N.toNat = packet.psn →
      (∃ i < fanIn, ¬AcknowledgedBy log i psn) →
      Overruns config log conn packet
  | nak {psn : Nat} :
      conn = fanIn → IsAckPacket packet false → packet.psn ≤ psn →
      ¬AcknowledgedBy log fanIn psn →
      psn + N.toNat ≤ (sentData log fanIn).length →
      Overruns config log conn packet

section Slots

variable {config : Config} {globals : Globals} {streams : Nat → List Packet}
  {length : Nat} {world : World} {conn fuel : Nat} {packet : Packet}
  {rule : Rule}

/-- The broadcast slot of the next PSN is in use. -/
theorem bcastBuffer_state_iff (settled : globals.Settled) {next : Nat}
    (isNext : globals.downEpsn = next) :
    (globals.bcastBuffer (idx next)).state = true ↔
      ∃ psn : Nat, psn + N.toNat = next ∧
        ∃ i < fanIn, globals.latestAck i < psn := by
  have size : N.toNat = 300 := rfl
  constructor
  · intro used
    obtain ⟨psn, nonneg, sent, sameSlot, -, i, isChild, missing⟩ :=
      settled.counted.waiting _ (inRing_idx (Int.natCast_nonneg next)) used
    rw [Globals.covers_eq_false] at missing
    rw [idx_eq_emod nonneg, idx_eq_emod (Int.natCast_nonneg next)] at sameSlot
    unfold N at sameSlot
    exact ⟨next - 300, by omega, i, isChild, by omega⟩
  · rintro ⟨psn, isLast, missing⟩
    have broadcasting := (settled.held_iff (Int.natCast_nonneg psn)
      (by omega)).mpr missing
    have sameSlot : idx (psn : Int) = idx next := by
      rw [idx_natCast, idx_natCast, ← isLast, Nat.add_mod_right]
    rw [← sameSlot]
    exact broadcasting.1

/-- All slots hold sums that are to be retransmitted. -/
theorem resends_all_iff (collecting : Collecting globals streams)
    (window : Window globals streams)
    (frontier : Frontier fanIn (count streams) length) :
    (∀ slot, InRing slot → resends globals slot = true) ↔
      globals.downAck + N < length := by
  have low := window.low
  have size : N.toNat = 300 := rfl
  have width : N = 300 := rfl
  constructor
  · intro all
    -- The slot of the first PSN that has not been sent holds a sum as well.
    have inside := inRing_idx (Int.natCast_nonneg length)
    have passes := of_decide_eq_true (all _ inside)
    have cell : length % N.toNat < N.toNat := Nat.mod_lt _ (by decide)
    rw [idx_natCast] at passes
    cases held : globals.holds (length % N.toNat) with
    | none =>
        rw [(collecting.empty _ cell held).2.1] at passes
        exact absurd passes.1 (by decide)
    | some psn =>
        have place := collecting.occupied.place held
        have collected := collecting.held held
        have degree := collected.degree
        have stored := collected.stored
        rw [idx_natCast, place] at degree stored
        rw [passes.1] at degree
        have passed := card_contributors_eq_iff.mp degree.symm
        obtain ⟨slowest, bound, same⟩ := frontier.attained
        have sent := passed slowest bound
        rw [size] at place
        rw [stored] at passes
        omega
  · intro full slot inside
    obtain ⟨psn, above, below, rfl⟩ :=
      exists_idx_eq (by omega : 0 ≤ globals.downAck + 1) inside
    obtain ⟨psn, rfl⟩ := Int.eq_ofNat_of_zero_le (by omega : 0 ≤ psn)
    have passed : ∀ i < fanIn, psn < count streams i := fun i bound =>
      lt_of_lt_of_le (by omega) (frontier.le i bound)
    have holds := window.kept psn (by omega) passed
    have collected := collecting.held (collecting.holds_iff.mpr holds)
    refine decide_eq_true ⟨?_, ?_⟩
    · rw [collected.degree]
      exact card_contributors_eq_iff.mpr passed
    · rw [collected.stored]
      omega

end Slots

/-! ## Calls that return -/

/-- The packet is handled, if the walks have rounds enough. -/
def Handles (config : Config) (globals : Globals) (conn : Nat)
    (packet : Packet) : Prop :=
  ∃ fuel result, packetHandler config fuel globals conn packet = some result

section Calls

variable {config : Config} {globals : Globals} {world : World}
  {conn fuel : Nat} {packet : Packet} {rule : Rule}
  {streams : Nat → List Packet} {length : Nat}

theorem downstreamData_returns_iff :
    (∃ result, downstreamData globals rule packet = some result) ↔
      ¬((packet.psn : Int) = globals.downEpsn ∧
        (globals.bcastBuffer (idx packet.psn)).state = true) := by
  unfold downstreamData
  split
  · exact iff_of_true ⟨_, rfl⟩ fun both => by omega
  · split
    · exact iff_of_true ⟨_, rfl⟩ fun both => by omega
    · have isNext : (packet.psn : Int) = globals.downEpsn := by omega
      split
      · rename_i used
        refine iff_of_false ?_ fun neither => neither ⟨isNext, used⟩
        rintro ⟨result, none⟩
        cases none
      · rename_i free
        obtain ⟨cached, took⟩ : ∃ cached, cache globals rule packet.psn
            packet.data packet.dataLen packet.opcode = some cached :=
          ⟨_, if_neg (not_not.mpr isNext)⟩
        rw [took]
        exact iff_of_true ⟨_, rfl⟩ fun both => free both.2

/-- The complete sum of the root is sent if the broadcast slot is free. -/
theorem finish_returns_iff {input : Contribution}
    (allreduce : input.operationType = config.operationTypeAllreduce)
    (isNext : input.psn = globals.downEpsn)
    (window : Window globals streams) :
    (∃ fuel result, finish config fuel globals rule input = some result) ↔
      (globals.bcastBuffer (idx input.psn)).state = false := by
  constructor
  · rintro ⟨fuel, ⟨next, frames⟩, finished⟩
    rcases finish_cases finished with ⟨-, free, -⟩ | ⟨notAllreduce, -⟩
    · exact free
    · exact absurd allreduce notAllreduce
  · intro free
    obtain ⟨⟨cached, frames⟩, took⟩ : ∃ cached,
        cache globals rule input.psn
          (globals.aggBuffer (idx input.psn)).buffer input.len
            input.packetType = some cached :=
      ⟨_, if_neg (not_not.mpr isNext)⟩
    have same := sameAggregation_of_cache took
    obtain ⟨enough, ends⟩ :=
      (window.congr same.aggBuffer same.downAck).ends input.psn
    obtain ⟨next, covered⟩ := ends enough (le_refl enough)
    have positive : isAck 0 = true := rfl
    refine ⟨enough, (next, frames ++ []), ?_⟩
    simp only [finish, free, Bool.false_eq_true, if_false, allreduce, if_true,
      took, downAckHandler, positive, covered, Option.map_some,
      Option.bind_eq_bind, Option.bind_some]

theorem packetHandler_child_send (isChild : conn < fanIn)
    (send : packet.opcode ∈ sendOpcodes)
    (found : config.lookupRule conn = some rule) :
    packetHandler config fuel globals conn packet =
      upstreamData config fuel globals conn rule packet := by
  obtain ⟨-, -, rfl⟩ := lookupRule_eq_some found
  have up : ¬conn = fanIn := isChild.ne
  simp only [packetHandler, found, Option.bind_eq_bind, Option.bind_some,
    if_pos send, ne_eq, up, not_false_eq_true, if_true]

theorem packetHandler_parent_send (isParent : conn = fanIn)
    (send : packet.opcode ∈ sendOpcodes)
    (found : config.lookupRule conn = some rule) :
    packetHandler config fuel globals conn packet =
      downstreamData globals rule packet := by
  subst isParent
  obtain ⟨-, -, rfl⟩ := lookupRule_eq_some found
  simp only [packetHandler, found, Option.bind_eq_bind, Option.bind_some,
    if_pos send, ne_eq, not_true_eq_false, if_false]

theorem packetHandler_parent_ack (isParent : conn = fanIn)
    (opcode : packet.opcode = 0x11)
    (found : config.lookupRule conn = some rule) :
    packetHandler config fuel globals conn packet =
      downAckHandler fuel globals packet.synMsn rule packet.psn := by
  have noSend : (0x11 : UInt8) ∉ sendOpcodes := by decide
  subst isParent
  obtain ⟨-, -, rfl⟩ := lookupRule_eq_some found
  simp only [packetHandler, found, Option.bind_eq_bind, Option.bind_some,
    opcode, noSend, if_false, if_true, ne_eq, not_true_eq_false]

/-- A packet that does not have the next PSN is answered. -/
theorem handles_of_not_next (isChild : conn < fanIn)
    (send : packet.opcode ∈ sendOpcodes)
    (found : config.lookupRule conn = some rule)
    (other : globals.aggEpsn conn ≠ packet.psn) :
    Handles config globals conn packet := by
  refine ⟨0, ?_⟩
  rw [packetHandler_child_send isChild send found, upstreamData]
  split
  · exact ⟨_, rfl⟩
  · split
    · exact ⟨_, rfl⟩
    · omega

theorem upstreamData_next (isNext : globals.aggEpsn conn = packet.psn) :
    upstreamData config fuel globals conn rule packet =
      if globals.arrivalState conn (idx packet.psn) then none
      else (aggregate config fuel (accept globals conn packet) rule
        (contributionOf config globals packet)).map fun result =>
          (result.1, forwarding rule packet.psn .ack [] 0x11 ++ result.2) := by
  have notLess : ¬(packet.psn : Int) < globals.aggEpsn conn := by omega
  have notMore : ¬globals.aggEpsn conn < packet.psn := by omega
  rw [upstreamData, if_neg notLess, if_neg notMore]
  split
  · rfl
  · cases aggregate config fuel (accept globals conn packet) rule
      (contributionOf config globals packet) with
    | none => rfl
    | some result => rfl

/-- The next packet of a child, whose slot is free. -/
theorem handles_fresh_iff (fresh : Fresh globals conn packet)
    (found : config.lookupRule conn = some rule) :
    Handles config globals conn packet ↔
      ((gathered config globals conn packet).aggDegree (idx packet.psn) =
          fanIn → config.root = true → ∃ fuel result,
            finish config fuel (gathered config globals conn packet) rule
              (contributionOf config globals packet) = some result) := by
  have handler : ∀ fuel, packetHandler config fuel globals conn packet =
      (aggregate config fuel (accept globals conn packet) rule
        (contributionOf config globals packet)).map fun result =>
          (result.1, forwarding rule packet.psn .ack [] 0x11 ++
            result.2) := by
    intro fuel
    rw [packetHandler_child_send fresh.isChild fresh.send found,
      upstreamData_next fresh.next, fresh.first]
    rfl
  have returns : Handles config globals conn packet ↔ ∃ fuel result,
      aggregate config fuel (accept globals conn packet) rule
        (contributionOf config globals packet) = some result := by
    refine exists_congr fun fuel => ?_
    rw [handler]
    constructor
    · rintro ⟨result, same⟩
      obtain ⟨before, aggregated, -⟩ := Option.map_eq_some_iff.mp same
      exact ⟨before, aggregated⟩
    · rintro ⟨before, aggregated⟩
      exact ⟨_, Option.map_eq_some_iff.mpr ⟨before, aggregated, rfl⟩⟩
  rw [returns]
  have unfolds : ∀ fuel, aggregate config fuel (accept globals conn packet)
      rule (contributionOf config globals packet) =
        if (gathered config globals conn packet).aggDegree (idx packet.psn) =
          fanIn then
          if config.root then
            finish config fuel (gathered config globals conn packet) rule
              (contributionOf config globals packet)
          else
            some (gathered config globals conn packet,
              forwarding rule packet.psn .data
                ((gathered config globals conn packet).aggBuffer
                  (idx packet.psn)).words
                ((gathered config globals conn packet).aggBuffer
                  (idx packet.psn)).packetType)
        else some (gathered config globals conn packet, []) :=
    fun _ => rfl
  simp only [unfolds]
  by_cases full : (gathered config globals conn packet).aggDegree
      (idx packet.psn) = fanIn
  · by_cases isRoot : config.root = true
    · simp only [full, isRoot, if_true, true_implies]
    · simp [full, isRoot]
  · simp [full]

end Calls

/-! ## In terms of the record -/

section Runs

variable {config : Config} {world : World} {conn : Nat} {packet : Packet}
  {rule : Rule} {psn : Nat}

theorem count_children (isChild : conn < fanIn) (log : List Entry) :
    count (children log) conn = (taken log conn).length := by
  rw [count, children, if_pos isChild]

theorem Pacing.acknowledged_iff (pacing : Pacing config world)
    (isChild : conn < fanIn) :
    world.globals.latestAck conn < psn ↔
      ¬AcknowledgedBy world.log conn psn := by
  rw [pacing.acks.child conn isChild psn (Int.natCast_nonneg psn), not_le]

theorem Pacing.missing_iff (pacing : Pacing config world) :
    (∃ i < fanIn, world.globals.latestAck i < psn) ↔
      ∃ i < fanIn, ¬AcknowledgedBy world.log i psn :=
  exists_congr fun _ => and_congr_right fun bound =>
    pacing.acknowledged_iff bound

/-- What stands behind `down_ack`. -/
theorem Pacing.behind_iff (pacing : Pacing config world) :
    world.globals.downAck < psn ↔
      (config.root = false → ¬AcknowledgedBy world.log fanIn psn) ∧
        (config.root = true →
          ∃ other < fanIn, (taken world.log other).length ≤ psn) := by
  cases kind : config.root with
  | false =>
      rw [pacing.acks.parent kind psn (Int.natCast_nonneg psn), not_le]
      simp
  | true =>
      obtain ⟨next, frontier, -, downAck⟩ := pacing.root kind
      rw [downAck]
      simp only [Bool.true_eq_false, false_implies, true_and, true_implies]
      constructor
      · intro behind
        obtain ⟨slowest, bound, same⟩ := frontier.attained
        rw [count_children bound] at same
        exact ⟨slowest, bound, by omega⟩
      · rintro ⟨other, bound, waits⟩
        have least := frontier.le other bound
        rw [count_children bound] at least
        omega

theorem Pacing.child_data_iff (pacing : Pacing config world)
    (carries : CarriesAllReduce config (.packet conn packet))
    (isChild : conn < fanIn) (send : packet.opcode ∈ sendOpcodes)
    (found : config.lookupRule conn = some rule) :
    Handles config world.globals conn packet ↔
      ¬Overruns config world.log conn packet := by
  have collecting := pacing.collecting
  have expected := collecting.expected conn isChild
  have own := count_children isChild world.log
  by_cases isNext : packet.psn = (taken world.log conn).length
  swap
  · refine iff_of_true (handles_of_not_next isChild send found (by omega)) ?_
    intro overruns
    cases overruns with
    | child _ _ same => exact isNext same
    | result _ _ _ same => exact isNext same
    | broadcast isParent => omega
    | nak isParent => omega
  have atNext : world.globals.aggEpsn conn = packet.psn := by omega
  have flag := arrivalState_iff collecting pacing.window isChild
  rw [own, ← isNext] at flag
  cases first : world.globals.arrivalState conn (idx packet.psn) with
  | true =>
      refine iff_of_false ?_ ?_
      · rintro ⟨fuel, result, handled⟩
        rw [packetHandler_child_send isChild send found,
          upstreamData_next atNext, first] at handled
        cases handled
      · obtain ⟨psn, isLast, behind⟩ := flag.mp first
        obtain ⟨inner, root⟩ := pacing.behind_iff.mp behind
        exact not_not.mpr (.child isChild send isNext isLast inner root)
  | false =>
      have fresh : Fresh world.globals conn packet :=
        ⟨isChild, send, atNext, first⟩
      have isFull := @Collecting.full_iff config _ _ _ _ collecting fresh
      have isFull' : (gathered config world.globals conn packet).aggDegree
          (idx packet.psn) = fanIn ↔ ∀ other < fanIn, other ≠ conn →
            packet.psn < (taken world.log other).length := by
        rw [isFull, own, ← isNext]
        refine forall_congr' fun other => forall_congr' fun bound => ?_
        rw [count_children bound]
      rw [handles_fresh_iff fresh found]
      have notChild : ∀ {psn : Nat}, psn + N.toNat = packet.psn →
          ¬((config.root = false → ¬AcknowledgedBy world.log fanIn psn) ∧
            (config.root = true →
              ∃ other < fanIn, (taken world.log other).length ≤ psn)) := by
        intro psn isLast both
        have used := flag.mpr ⟨psn, isLast, pacing.behind_iff.mpr both⟩
        rw [first] at used
        cases used
      by_cases complete : (gathered config world.globals conn packet).aggDegree
          (idx packet.psn) = fanIn ∧ config.root = true
      · obtain ⟨full, isRoot⟩ := complete
        obtain ⟨next, level⟩ := pacing.root isRoot
        have isFrontier :=
          level.frontier.eq_of_last isChild (isFull.mp full)
        have isPsn : (contributionOf config world.globals packet).psn =
          (packet.psn : Int) := rfl
        have downEpsn : world.globals.downEpsn = packet.psn := by
          rw [level.downEpsn]
          omega
        have returns := @finish_returns_iff config
          (gathered config world.globals conn packet) rule _
          (contributionOf config world.globals packet)
          (pacing.standby.allreduce carries fresh) downEpsn.symm
          (pacing.window.contribute collecting fresh)
        have slot := bcastBuffer_state_iff pacing.settled downEpsn
        simp only [full, isRoot, true_implies, returns]
        rw [isPsn, ← Bool.not_eq_true]
        refine not_congr ⟨fun used => ?_, fun overruns => ?_⟩
        · obtain ⟨psn, isLast, missing⟩ := slot.mp used
          exact .result isChild isRoot send isNext (isFull'.mp full) isLast
            (pacing.missing_iff.mp missing)
        · refine slot.mpr ?_
          cases overruns with
          | child _ _ _ isLast inner root =>
              exact absurd ⟨inner, root⟩ (notChild isLast)
          | result _ _ _ _ _ isLast missing =>
              exact ⟨_, isLast, pacing.missing_iff.mpr missing⟩
          | broadcast isParent => omega
          | nak isParent => omega
      · refine iff_of_true
          (fun full isRoot => absurd ⟨full, isRoot⟩ complete) ?_
        intro overruns
        cases overruns with
        | child _ _ _ isLast inner root => exact notChild isLast ⟨inner, root⟩
        | result _ isRoot _ _ others =>
            exact complete ⟨isFull'.mpr others, isRoot⟩
        | broadcast isParent => omega
        | nak isParent => omega

theorem inner_of_parent (isParent : conn = fanIn)
    (found : config.lookupRule conn = some rule) : config.root = false := by
  rw [← Bool.not_eq_true]
  exact fun isRoot => (lookupRule_eq_some found).2.1 ⟨isRoot, isParent⟩

theorem Pacing.parent_data_iff (pacing : Pacing config world)
    (isParent : conn = fanIn) (send : packet.opcode ∈ sendOpcodes)
    (found : config.lookupRule conn = some rule) :
    Handles config world.globals conn packet ↔
      ¬Overruns config world.log conn packet := by
  have cursor := (pacing.inner (inner_of_parent isParent found)).cursor
  have slot := bcastBuffer_state_iff pacing.settled cursor
  have returns : Handles config world.globals conn packet ↔
      ∃ result, downstreamData world.globals rule packet = some result := by
    unfold Handles
    simp only [packetHandler_parent_send isParent send found, exists_const]
  rw [returns, downstreamData_returns_iff]
  refine not_congr ⟨?_, fun overruns => ?_⟩
  · rintro ⟨isNext, used⟩
    rw [isNext, cursor] at used
    obtain ⟨psn, isLast, missing⟩ := slot.mp used
    exact .broadcast isParent send (by omega) (by omega)
      (pacing.missing_iff.mp missing)
  · cases overruns with
    | child isChild => omega
    | result isChild => omega
    | broadcast _ _ isNext isLast missing =>
        have used := slot.mpr
          ⟨_, isLast.trans isNext, pacing.missing_iff.mpr missing⟩
        rw [← isNext] at used cursor
        exact ⟨cursor.symm, used⟩
    | nak _ isAckPacket =>
        exact absurd isAckPacket.opcode (opcode_ne_of_send send)

/-- A NAK of the parent, after the slots that it covers have been cleared. -/
theorem Pacing.nak_returns_iff (pacing : Pacing config world)
    (isParent : conn = fanIn) (isAckPacket : IsAckPacket packet false)
    (acks : AcksSums world (.packet conn packet))
    (found : config.lookupRule conn = some rule) :
    (∃ fuel result, downAckHandler fuel world.globals packet.synMsn rule
        packet.psn = some result) ↔
      max world.globals.downAck (packet.psn - 1) + N ≥
        (sentData world.log fanIn).length := by
  have relaying := pacing.inner (inner_of_parent isParent found)
  have passed := relaying.covers acks isParent isAckPacket.opcode
  rw [isAckPacket.acknowledges_nak] at passed
  have negative : ¬isAck packet.synMsn = true := by
    rw [isAckPacket.syndrome]
    exact Bool.false_ne_true
  obtain ⟨enough, ends⟩ := pacing.window.ends ((packet.psn : Int) - 1)
  have after : ∀ {fuel next},
      downAckCovers fuel world.globals (packet.psn - 1) = some next →
        ((∃ more frames, iterate (resendRound next rule) more
            ((packet.psn : Int), []) = some frames) ↔
          max world.globals.downAck (packet.psn - 1) + N ≥
            (sentData world.log fanIn).length) := by
    intro fuel next covered
    have all := resends_all_iff (pacing.collecting.covers covered passed)
      (pacing.window.covers passed covered) relaying.relayed.sums.frontier
    have nonneg : 0 ≤ (packet.psn : Int) := Int.natCast_nonneg _
    have stays : StaysAndEnds (resendRound next rule) Prod.fst
        ((packet.psn : Int), []) ↔
          ∃ slot, InRing slot ∧ resends next slot = false :=
      resendRound_goesUp.staysAndEnds_iff trivial nonneg
    rw [downAck_of_downAckCovers covered] at all
    constructor
    · rintro ⟨more, frames, resent⟩
      by_contra noRoom
      have passes : PassesThrough (resends next) packet.psn
          (packet.psn + N) := fun other above _ =>
        all.mpr (not_le.mp noRoom) _ (inRing_idx (nonneg.trans above))
      exact lt_irrefl _ (lt_of_passesThrough resent nonneg passes)
    · intro room
      have notAll := mt all.mp (not_lt.mpr room)
      push Not at notAll
      obtain ⟨slot, inside, fails⟩ := notAll
      rw [ne_eq, Bool.not_eq_true] at fails
      exact ends_iff.mp (stays.mpr ⟨slot, inside, fails⟩).ends
  constructor
  · rintro ⟨fuel, result, handled⟩
    rw [downAckHandler, if_neg negative] at handled
    obtain ⟨next, covered, rest⟩ := Option.bind_eq_some_iff.mp handled
    obtain ⟨given, same, rest⟩ := Option.bind_eq_some_iff.mp rest
    cases same
    obtain ⟨frames, resent, -⟩ := Option.bind_eq_some_iff.mp rest
    exact (after covered).mp ⟨fuel, frames, resent⟩
  · intro room
    obtain ⟨next, covered⟩ := ends enough (le_refl enough)
    obtain ⟨more, frames, resent⟩ := (after covered).mpr room
    have covered' :=
      downAckCovers_extends (le_max_left enough more) _ _ next covered
    have resent' := iterate_extends (le_max_right enough more) frames resent
    refine ⟨max enough more, (next, frames), ?_⟩
    simp only [downAckHandler, if_neg negative, covered', resent',
      Option.bind_eq_bind, Option.bind_some]

/-- The oldest sum that a NAK asks for is a full ring behind. -/
theorem Pacing.nak_overruns_iff (pacing : Pacing config world)
    (isParent : conn = fanIn) (isAckPacket : IsAckPacket packet false)
    (found : config.lookupRule conn = some rule) :
    Overruns config world.log conn packet ↔
      max world.globals.downAck (packet.psn - 1) + N <
        (sentData world.log fanIn).length := by
  have inner := inner_of_parent isParent found
  have acked : ∀ psn : Nat, ¬AcknowledgedBy world.log fanIn psn ↔
      world.globals.downAck < psn := fun psn => by
    rw [pacing.acks.parent inner psn (Int.natCast_nonneg psn), not_le]
  have low := pacing.window.low
  have size : N.toNat = 300 := rfl
  have width : N = 300 := rfl
  constructor
  · intro overruns
    cases overruns with
    | child isChild => omega
    | result isChild => omega
    | broadcast _ send =>
        exact absurd isAckPacket.opcode (opcode_ne_of_send send)
    | nak _ _ above missing full =>
        rw [acked] at missing
        omega
  · intro full
    obtain ⟨psn, isPsn⟩ := Int.eq_ofNat_of_zero_le
      (by omega : 0 ≤ max world.globals.downAck ((packet.psn : Int) - 1) + 1)
    have missing := (acked psn).mpr (by omega)
    exact .nak isParent isAckPacket (by omega) missing (by omega)

theorem Pacing.parent_ack_iff (pacing : Pacing config world)
    (isParent : conn = fanIn) (opcode : packet.opcode = 0x11)
    (acks : AcksSums world (.packet conn packet))
    (found : config.lookupRule conn = some rule) :
    Handles config world.globals conn packet ↔
      ¬Overruns config world.log conn packet := by
  have returns : Handles config world.globals conn packet ↔
      ∃ fuel result, downAckHandler fuel world.globals packet.synMsn rule
        packet.psn = some result := by
    unfold Handles
    simp only [packetHandler_parent_ack isParent opcode found]
  rw [returns]
  cases syndrome : isAck packet.synMsn with
  | true =>
      obtain ⟨enough, ends⟩ := pacing.window.ends packet.psn
      obtain ⟨next, covered⟩ := ends enough (le_refl enough)
      refine iff_of_true ⟨enough, (next, []), ?_⟩ fun overruns => ?_
      · simp only [downAckHandler, syndrome, if_true, covered, Option.map_some]
      · cases overruns with
        | child isChild => omega
        | result isChild => omega
        | broadcast _ send => exact opcode_ne_of_send send opcode
        | nak _ isAckPacket =>
            rw [isAckPacket.syndrome] at syndrome
            cases syndrome
  | false =>
      have isAckPacket : IsAckPacket packet false := ⟨opcode, syndrome⟩
      rw [pacing.nak_returns_iff isParent isAckPacket acks found,
        pacing.nak_overruns_iff isParent isAckPacket found, not_lt]

theorem Pacing.child_ack_handles (pacing : Pacing config world)
    (isChild : conn < fanIn) (opcode : packet.opcode = 0x11)
    (sent : AcksBroadcast world (.packet conn packet)) :
    Handles config world.globals conn packet ∧
      ¬Overruns config world.log conn packet := by
  constructor
  · obtain ⟨enough, returns⟩ :=
      ack_returns pacing.settled isChild opcode (sent isChild opcode)
    obtain ⟨next, stepped, -⟩ := returns enough (le_refl enough)
    obtain ⟨result, handled, -⟩ := Option.bind_eq_some_iff.mp stepped
    exact ⟨enough, result, handled⟩
  · intro overruns
    cases overruns with
    | child _ send => exact opcode_ne_of_send send opcode
    | result _ _ send => exact opcode_ne_of_send send opcode
    | broadcast isParent => omega
    | nak isParent => omega

theorem Pacing.handles_iff (pacing : Pacing config world)
    (inPace : InPace config world (.packet conn packet))
    (found : config.lookupRule conn = some rule) :
    Handles config world.globals conn packet ↔
      ¬Overruns config world.log conn packet := by
  obtain ⟨⟨sent, carries⟩, sums⟩ := inPace
  have bound := (lookupRule_eq_some found).1
  by_cases send : packet.opcode ∈ sendOpcodes
  · by_cases isParent : conn = fanIn
    · exact pacing.parent_data_iff isParent send found
    · exact pacing.child_data_iff carries (by omega) send found
  · by_cases opcode : packet.opcode = 0x11
    · by_cases isParent : conn = fanIn
      · exact pacing.parent_ack_iff isParent opcode sums found
      · obtain ⟨handles, fits⟩ :=
          pacing.child_ack_handles (by omega) opcode sent
        exact iff_of_true handles fits
    · refine iff_of_true ⟨0, (world.globals, []), ?_⟩ fun overruns => ?_
      · simp only [packetHandler, found, if_neg send, if_neg opcode,
          Option.bind_eq_bind, Option.bind_some]
      · cases overruns with
        | child _ send' => exact send send'
        | result _ _ send' => exact send send'
        | broadcast _ send' => exact send send'
        | nak _ isAckPacket => exact opcode isAckPacket.opcode

theorem pacing_initial {memory : Globals}
    (outside : ¬memory.Aggregating (-1)) :
    Pacing config (.initial config memory) := by
  have recorded := @recorded_initial config memory
  have nothing : ∀ i < fanIn, children [] i = [] := fun i bound =>
    if_pos bound
  exact ⟨recorded.settled, recorded.acks, recorded.standby,
    collecting_initAll nothing, window_initAll outside nothing,
    fun _ => relaying_initial,
    fun _ => ⟨0, (@exactSums_nil 0).frontier, rfl, rfl⟩⟩

end Runs

/-- In every state of an AllReduce whose peers acknowledge what they were sent,
the switch handles a packet if and only if no peer is a full ring ahead. -/
theorem packet_handled_iff (config : Config) (memory : Globals) (fuel : Nat)
    (events : List Event) (world : World)
    (outside : ¬memory.Aggregating (-1))
    (taken : Machine.run (step config fuel) (.initial config memory) events =
      some world)
    (inPace : Machine.Meets (step config fuel) (InPace config)
      (.initial config memory) events)
    (conn : Nat) (packet : Packet) (hasRule : config.lookupRule conn ≠ none)
    (arrives : InPace config world (.packet conn packet)) :
    (∃ fuel next, step config fuel world (.packet conn packet) = some next) ↔
      ¬Overruns config world.log conn packet := by
  have pacing : Pacing config world :=
    Machine.run_invariant (Pacing config)
      (fun _ _ _ pacing inPace taken => pacing.step inPace taken)
      (pacing_initial outside) inPace taken
  obtain ⟨rule, found⟩ := Option.ne_none_iff_exists'.mp hasRule
  rw [← pacing.handles_iff arrives found]
  refine exists_congr fun fuel => ?_
  constructor
  · rintro ⟨next, stepped⟩
    obtain ⟨result, handled, -⟩ := Option.bind_eq_some_iff.mp stepped
    exact ⟨result, handled⟩
  · rintro ⟨result, handled⟩
    exact ⟨_, Option.bind_eq_some_iff.mpr ⟨result, handled, rfl⟩⟩

/-- The parent has sent two packets, one of which every child has
acknowledged. -/
theorem packet_handled_iff_broadcast :
    (∃ fuel next, step innerConfig fuel broadcastWorld
      (.packet 2 (.word 2 9)) = some next) ∧
      ¬Overruns innerConfig broadcastWorld.log 2 (.word 2 9) := by
  have handled := packet_handled_iff innerConfig zeroMemory 4 broadcastEvents
    broadcastWorld (by decide) (Option.some_get _).symm (by decide +kernel) 2
    (.word 2 9) (by decide) (by decide +kernel)
  have returns : ∃ fuel next, step innerConfig fuel broadcastWorld
      (.packet 2 (.word 2 9)) = some next :=
    ⟨0, _, (Option.some_get (by decide +kernel)).symm⟩
  exact ⟨returns, handled.mp returns⟩

end IncEmulation.Switch
