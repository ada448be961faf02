import IncEmulation.History

/-!
# The history and the switch agree

In every run a slot of the switch holds the sum of the contributions the history
has for it, every contribution is a data packet of the program together with what
its call announces, and every result is the sum of a full slot.
-/

namespace IncEmulation

open Gather Machine

/-- Word `index` of a sum of packets, in host order. -/
def wordSum (contributions : List Contribution) (index : Nat) : Word :=
  (contributions.map fun each => ntohl (each.packet.data index)).sum

/-- The slot holds the sum of the contributions. -/
structure PsnState.Gathers (state : PsnState)
    (contributions : List Contribution) : Prop where
  degree : state.degree = contributions.length
  arrival : ∀ conn,
    state.arrival conn = true ↔ ∃ each ∈ contributions, each.conn = conn
  psn : ∀ last, contributions.getLast? = some last →
    state.aggBuffer.psn = last.packet.psn
  sum : contributions ≠ [] → ∀ index < mtuWords,
    state.aggBuffer.buffer index = htonl (wordSum contributions index)

namespace PsnState.Gathers

variable {state after : PsnState} {contributions : List Contribution}

theorem congr (gathers : state.Gathers contributions)
    (degree : after.degree = state.degree)
    (arrival : after.arrival = state.arrival)
    (aggBuffer : after.aggBuffer = state.aggBuffer) :
    after.Gathers contributions where
  degree := degree.trans gathers.degree
  arrival := by
    rw [arrival]
    exact gathers.arrival
  psn := by
    rw [aggBuffer]
    exact gathers.psn
  sum := by
    rw [aggBuffer]
    exact gathers.sum

theorem of_idle (idle : state.Idle) : state.Gathers [] where
  degree := idle.degree
  arrival := fun conn => by simp [idle.arrival conn]
  psn := nofun
  sum := fun nonempty => (nonempty rfl).elim

theorem accumulate (gathers : state.Gathers contributions)
    (opType : PrimitiveType) (rootRank : Int) (opcode : Opcode)
    (contribution : Contribution)
    (dataLen : contribution.packet.dataLen = mtuWords) :
    (state.accumulate opType rootRank contribution.conn
      contribution.packet.psn contribution.packet.data
      contribution.packet.dataLen opcode).Gathers
        (contributions ++ [contribution]) where
  degree := by
    simp [PsnState.accumulate, gathers.degree]
  arrival := by
    intro conn
    simp only [PsnState.accumulate, Function.update_apply, List.mem_append,
      List.mem_singleton]
    split_ifs with own
    · simp only [true_iff]
      exact ⟨contribution, .inr rfl, own.symm⟩
    · rw [gathers.arrival conn]
      constructor
      · rintro ⟨each, member, same⟩
        exact ⟨each, .inl member, same⟩
      · rintro ⟨each, member | rfl, same⟩
        · exact ⟨each, member, same⟩
        · exact absurd same.symm own
  psn := by
    intro last found
    rw [List.getLast?_concat] at found
    obtain rfl := Option.some.inj found
    rfl
  sum := by
    intro _ index inRange
    have copied : (index : Int) < contribution.packet.dataLen := by
      rw [dataLen]
      exact_mod_cast inRange
    have grown : wordSum (contributions ++ [contribution]) index =
        wordSum contributions index +
          ntohl (contribution.packet.data index) := by
      simp [wordSum]
    rw [grown]
    by_cases first : state.degree = 0
    · have empty : contributions = [] :=
        List.eq_nil_of_length_eq_zero (gathers.degree.symm.trans first)
      simp [PsnState.accumulate, first, copyWords, copied, empty, wordSum]
    · have nonempty : contributions ≠ [] := by
        rintro rfl
        exact first gathers.degree
      simp [PsnState.accumulate, first, copyWords, copied,
        gathers.sum nonempty index inRange]

end PsnState.Gathers

/-- A contribution is a data packet of its rank's program. -/
structure Contribution.Logged (cluster : Cluster) (aggEpsn : Nat → Nat)
    (contribution : Contribution) : Prop where
  bound : contribution.conn < cluster.hosts
  packet : ∃ number call k, cluster.program[number]? = some call ∧
    call.collective.sends contribution.conn = true ∧
    k < 4 * call.messageNum ∧
    contribution.packet.psn =
      (cluster.job contribution.conn).base number + 1 + k ∧
    contribution.announced = some call.collective.metadata
  passed : contribution.packet.psn < aggEpsn contribution.conn

/-- A result is the sum of a full slot. -/
structure Result.Formed (cluster : Cluster) (accepted : List Contribution)
    (result : Result) : Prop where
  full : result.contributions.length = cluster.hosts
  members : ∀ each ∈ result.contributions, each ∈ accepted
  last : ∃ last ∈ result.contributions,
    last.packet.psn = result.psn ∧ last.inForce = result.inForce
  targets : ∃ operation : Collective, operation.metadata = result.inForce ∧
    result.frames.map Frame.conn = operation.targets cluster.hosts
  data : ∀ frame ∈ result.frames, frame.data =
    (List.range mtuWords).map fun index =>
      htonl (wordSum result.contributions index)

/-- The invariant of the history. -/
structure Observed.Recorded (cluster : Cluster) (observed : Observed) :
    Prop where
  wired : Wired cluster observed.system
  slots : ∀ index, (observed.system.switch.psnStates index).Gathers
    (observed.slots index)
  members : ∀ index, ∀ each ∈ observed.slots index,
    each ∈ observed.accepted ∧ idx each.packet.psn = index
  logged : ∀ each ∈ observed.accepted,
    each.Logged cluster observed.system.switch.aggEpsn
  announced : ∀ rank < cluster.hosts, ∀ number call,
    cluster.program[number]? = some call →
    call.collective.sends rank = true →
    (cluster.job rank).base number < observed.system.switch.aggEpsn rank →
    observed.system.switch.aggEpsn rank ≤
      (cluster.job rank).base number + 1 + 4 * call.messageNum →
    observed.announced rank = some call.collective.metadata
  results : ∀ result ∈ observed.results,
    result.Formed cluster observed.accepted

theorem Job.number_eq (job : Job) {left right : Nat} (position : Nat)
    {leftCall rightCall : Call}
    (leftCurrent : job.program[left]? = some leftCall)
    (leftSends : leftCall.collective.sends job.rank = true)
    (rightCurrent : job.program[right]? = some rightCall)
    (rightSends : rightCall.collective.sends job.rank = true)
    (inLeft : job.base left ≤ position ∧
      position < job.base left + 1 + 4 * leftCall.messageNum)
    (inRight : job.base right ≤ position ∧
      position < job.base right + 1 + 4 * rightCall.messageNum) :
    left = right := by
  have leftNext := Job.base_succ leftCurrent
  have rightNext := Job.base_succ rightCurrent
  rw [if_pos leftSends] at leftNext
  rw [if_pos rightSends] at rightNext
  rcases Nat.lt_trichotomy left right with before | same | behind
  · have le := job.base_mono (Nat.succ_le_of_lt before)
    rw [Nat.succ_eq_add_one] at le
    omega
  · exact same
  · have le := job.base_mono (Nat.succ_le_of_lt behind)
    rw [Nat.succ_eq_add_one] at le
    omega

variable {cluster : Cluster}

theorem Contribution.Logged.mono {before after : Nat → Nat}
    {contribution : Contribution}
    (logged : contribution.Logged cluster before)
    (le : before contribution.conn ≤ after contribution.conn) :
    contribution.Logged cluster after :=
  ⟨logged.bound, logged.packet, Nat.lt_of_lt_of_le logged.passed le⟩

theorem Result.Formed.mono {before after : List Contribution}
    {result : Result} (formed : result.Formed cluster before)
    (kept : before ⊆ after) : result.Formed cluster after :=
  ⟨formed.full, fun each member => kept (formed.members each member),
    formed.last, formed.targets, formed.data⟩

namespace Observed.Recorded

variable {observed : Observed} {next : System} {rank number k : Nat}
  {call : Call} {packet : Packet} {operation : Collective}

theorem quiet (recorded : Recorded cluster observed)
    (wired : Wired cluster next)
    (same : observed.system.switch.Acknowledged next.switch) :
    Recorded cluster { observed with system := next } where
  wired := wired
  slots := fun index => (recorded.slots index).congr (same.degree index)
    (same.arrival index) (same.aggBuffer index)
  members := recorded.members
  logged := by
    simp only [same.aggEpsn]
    exact recorded.logged
  announced := by
    simp only [same.aggEpsn]
    exact recorded.announced
  results := recorded.results

theorem announced_inTurn (recorded : Recorded cluster observed)
    (inTurn : observed.system.InTurn cluster rank number k call packet) :
    observed.announced rank = some call.collective.metadata := by
  have place := inTurn.place
  have inCall := inTurn.inCall
  exact recorded.announced rank inTurn.bound number call inTurn.current
    inTurn.sends (by omega) (by omega)

theorem announced_advance (recorded : Recorded cluster observed)
    (inTurn : observed.system.InTurn cluster rank number k call packet) :
    ∀ other < cluster.hosts, ∀ own ownCall,
      cluster.program[own]? = some ownCall →
      ownCall.collective.sends other = true →
      (cluster.job other).base own <
        advance observed.system.switch.aggEpsn rank other →
      advance observed.system.switch.aggEpsn rank other ≤
        (cluster.job other).base own + 1 + 4 * ownCall.messageNum →
      observed.announced other = some ownCall.collective.metadata := by
  intro other bound own ownCall current sends above below
  by_cases same : other = rank
  · subst same
    have place := inTurn.place
    have inCall := inTurn.inCall
    rw [advance_self] at above below
    obtain rfl := (cluster.job other).number_eq
      (observed.system.switch.aggEpsn other) current sends
      inTurn.current inTurn.sends ⟨by omega, by omega⟩ ⟨by omega, by omega⟩
    obtain rfl := Option.some.inj (current.symm.trans inTurn.current)
    exact recorded.announced_inTurn inTurn
  · rw [advance_of_ne same] at above below
    exact recorded.announced other bound own ownCall current sends above
      below

theorem logged_advance (recorded : Recorded cluster observed)
    (inTurn : observed.system.InTurn cluster rank number k call packet) :
    ∀ each ∈ observed.accepted ++ [observed.contribution rank packet],
      each.Logged cluster
        (advance observed.system.switch.aggEpsn rank) := by
  intro each member
  rcases List.mem_append.mp member with old | new
  · exact (recorded.logged each old).mono (le_advance ..)
  · obtain rfl := List.mem_singleton.mp new
    refine ⟨inTurn.bound, ⟨number, call, k, inTurn.current, inTurn.sends,
      inTurn.inCall, ?_, recorded.announced_inTurn inTurn⟩, ?_⟩
    · exact inTurn.expected.trans inTurn.place
    · have own : (observed.contribution rank packet).conn = rank := rfl
      have same : (observed.contribution rank packet).packet = packet := rfl
      rw [own, same, advance_self, inTurn.expected]
      exact Nat.lt_succ_self _

theorem control {psn : Nat} (recorded : Recorded cluster observed)
    (wired : Wired cluster next)
    (current : cluster.program[number]? = some call)
    (sends : call.collective.sends rank = true)
    (place : observed.system.switch.aggEpsn rank =
      (cluster.job rank).base number)
    (after : next.switch =
      observed.system.switch.afterControl call.collective rank psn) :
    Recorded cluster
      (observed.announce rank call.collective.metadata next) where
  wired := wired
  slots := by
    simp only [announce, after]
    exact recorded.slots
  members := recorded.members
  logged := by
    intro each member
    have aggEpsn : next.switch.aggEpsn =
        advance observed.system.switch.aggEpsn rank := by
      rw [after]
      rfl
    simp only [announce, aggEpsn]
    exact (recorded.logged each member).mono (le_advance ..)
  announced := by
    intro other bound own ownCall ownCurrent ownSends above below
    have aggEpsn : next.switch.aggEpsn =
        advance observed.system.switch.aggEpsn rank := by
      rw [after]
      rfl
    simp only [announce, aggEpsn] at above below ⊢
    by_cases same : other = rank
    · subst same
      rw [advance_self] at above below
      obtain rfl := (cluster.job other).number_eq
        (observed.system.switch.aggEpsn other) ownCurrent ownSends
        current sends ⟨by omega, by omega⟩ ⟨by omega, by omega⟩
      obtain rfl := Option.some.inj (ownCurrent.symm.trans current)
      rw [Function.update_self]
    · rw [advance_of_ne same] at above below
      rw [Function.update_of_ne same]
      exact recorded.announced other bound own ownCall ownCurrent ownSends
        above below
  results := recorded.results

theorem broadcast (recorded : Recorded cluster observed)
    (wired : Wired cluster next)
    (inTurn : observed.system.InTurn cluster rank number k call packet)
    (after : next.switch =
      (observed.system.switch.bumpAggEpsn rank).afterSending
        ((Collective.broadcast rank).targets cluster.hosts)) :
    Recorded cluster { observed with system := next } where
  wired := wired
  slots := by
    simp only [after]
    exact recorded.slots
  members := recorded.members
  logged := by
    intro each member
    have aggEpsn : next.switch.aggEpsn =
        advance observed.system.switch.aggEpsn rank := by
      rw [after]
      rfl
    simp only [aggEpsn]
    exact (recorded.logged each member).mono (le_advance ..)
  announced := by
    have aggEpsn : next.switch.aggEpsn =
        advance observed.system.switch.aggEpsn rank := by
      rw [after]
      rfl
    simp only [aggEpsn]
    exact recorded.announced_advance inTurn
  results := recorded.results

theorem gather (recorded : Recorded cluster observed)
    (wired : Wired cluster next)
    (inTurn : observed.system.InTurn cluster rank number k call packet)
    (after : next.switch =
      observed.system.switch.afterContribution operation rank packet) :
    Recorded cluster (observed.gather rank packet next) where
  wired := wired
  slots := by
    intro index
    simp only [Observed.gather, after]
    by_cases own : index = idx packet.psn
    · subst own
      rw [Function.update_self, afterContribution_psnStates_self]
      exact (recorded.slots _).accumulate _ _ _
        (observed.contribution rank packet) inTurn.dataLen
    · rw [Function.update_of_ne own, afterContribution_psnStates_of_ne own]
      exact recorded.slots index
  members := by
    intro index each member
    simp only [Observed.gather] at member ⊢
    by_cases own : index = idx packet.psn
    · subst own
      rw [Function.update_self] at member
      rcases List.mem_append.mp member with old | new
      · obtain ⟨logged, same⟩ := recorded.members _ each old
        exact ⟨List.mem_append_left _ logged, same⟩
      · obtain rfl := List.mem_singleton.mp new
        exact ⟨List.mem_append_right _ new, rfl⟩
    · rw [Function.update_of_ne own] at member
      obtain ⟨logged, same⟩ := recorded.members _ each member
      exact ⟨List.mem_append_left _ logged, same⟩
  logged := by
    simp only [Observed.gather, after, afterContribution_aggEpsn]
    exact recorded.logged_advance inTurn
  announced := by
    simp only [Observed.gather, after, afterContribution_aggEpsn]
    exact recorded.announced_advance inTurn
  results := fun result member =>
    (recorded.results result member).mono (List.subset_append_left _ _)

/-- What leaves the switch with the last contribution. -/
theorem formed (recorded : Recorded cluster observed)
    (inTurn : observed.system.InTurn cluster rank number k call packet)
    (inForce : observed.system.switch.InForce operation)
    (full : (observed.system.switch.psnStates (idx packet.psn)).degree + 1 =
      cluster.hosts)
    {opcode : Opcode} :
    Result.Formed cluster
      (observed.accepted ++ [observed.contribution rank packet])
      { psn := packet.psn
        inForce := observed.system.switch.metadata
        contributions := observed.slots (idx packet.psn) ++
          [observed.contribution rank packet]
        frames := observed.system.switch.resultFrames
          (observed.system.switch.contribution operation rank
            packet).aggBuffer.buffer
          packet.dataLen opcode (operation.targets cluster.hosts) } where
  full := by
    rw [List.length_append, ← (recorded.slots (idx packet.psn)).degree]
    exact full
  members := by
    intro each member
    rcases List.mem_append.mp member with old | new
    · exact List.mem_append_left _ (recorded.members _ each old).1
    · exact List.mem_append_right _ new
  last := ⟨_, List.mem_append_right _ (List.mem_singleton_self _), rfl, rfl⟩
  targets := ⟨operation, inForce.symm, by simp [SwitchContext.resultFrames,
    Function.comp_def, sendPacket]⟩
  data := by
    intro frame member
    obtain ⟨target, -, rfl⟩ := List.mem_map.mp member
    have gathers := (recorded.slots (idx packet.psn)).accumulate
      operation.metadata.1 operation.metadata.2 packet.opcode
      (observed.contribution rank packet) inTurn.dataLen
    simp only [sendPacket, inTurn.dataLen, Int.toNat_natCast]
    apply List.map_congr_left
    intro index inRange
    exact gathers.sum (by simp) index (List.mem_range.mp inRange)

theorem dispatch (recorded : Recorded cluster observed)
    (wired : Wired cluster next)
    (inTurn : observed.system.InTurn cluster rank number k call packet)
    (inForce : observed.system.switch.InForce operation)
    (full : (observed.system.switch.psnStates (idx packet.psn)).degree + 1 =
      cluster.hosts)
    (completed : observed.system.switch.Completed next.switch rank
      (idx packet.psn) (operation.targets cluster.hosts)) :
    Recorded cluster
      (observed.dispatch rank packet
        (observed.system.switch.resultFrames
          (observed.system.switch.contribution operation rank
            packet).aggBuffer.buffer
          packet.dataLen packet.opcode (operation.targets cluster.hosts))
        next) where
  wired := wired
  slots := by
    intro index
    simp only [Observed.dispatch]
    by_cases own : index = idx packet.psn
    · subst own
      rw [Function.update_self]
      exact .of_idle completed.idle
    · rw [Function.update_of_ne own, completed.others index own]
      exact recorded.slots index
  members := by
    intro index each member
    simp only [Observed.dispatch] at member ⊢
    by_cases own : index = idx packet.psn
    · subst own
      rw [Function.update_self] at member
      cases member
    · rw [Function.update_of_ne own] at member
      obtain ⟨logged, same⟩ := recorded.members _ each member
      exact ⟨List.mem_append_left _ logged, same⟩
  logged := by
    simp only [Observed.dispatch, completed.aggEpsn]
    exact recorded.logged_advance inTurn
  announced := by
    simp only [Observed.dispatch, completed.aggEpsn]
    exact recorded.announced_advance inTurn
  results := by
    intro result member
    rcases List.mem_append.mp member with old | new
    · exact (recorded.results result old).mono (List.subset_append_left _ _)
    · obtain rfl := List.mem_singleton.mp new
      exact recorded.formed inTurn inForce full

theorem step {event : System.Event} {after : Observed}
    (recorded : Recorded cluster observed)
    (stepped : Observed.step cluster observed event = some after) :
    Recorded cluster after := by
  have wired := recorded.wired.move
    (System.moved_of_step (step_system stepped))
  cases noted_of_step recorded.wired stepped with
  | quiet same => exact recorded.quiet wired same
  | control bound current sends place switch =>
      exact recorded.control wired current sends place switch
  | broadcast inTurn inForce switch =>
      exact recorded.broadcast wired inTurn switch
  | incomplete inTurn inForce aggregates notFull switch =>
      exact recorded.gather wired inTurn switch
  | complete inTurn inForce aggregates full completed =>
      exact recorded.dispatch wired inTurn inForce full completed

theorem init {ctx : SwitchContext} (fresh : cluster.Fresh ctx) :
    Recorded cluster (.init ctx) where
  wired := .init fresh
  slots := fun index => .of_idle (fresh.ready.idle index)
  members := nofun
  logged := nofun
  announced := by
    intro rank bound number call current sends above
    have zero := fresh.ready.aggEpsn rank bound
    simp only [Observed.init, System.init, zero] at above
    cases above
  results := nofun

theorem of_run {ctx : SwitchContext} {events : List System.Event}
    (fresh : cluster.Fresh ctx)
    (taken : run (Observed.step cluster) (.init ctx) events =
      some observed) : Recorded cluster observed :=
  Reachable.invariant (Recorded cluster)
    (fun _ _ _ recorded stepped => recorded.step stepped)
    (init fresh) ⟨events, taken⟩

end Observed.Recorded

end IncEmulation
