import IncEmulation.Gathering
import IncEmulation.Overwriting

/-!
# Overrunning the ring during a Reduce

`aggregate` never looks at the PSN a slot already holds.  During a Reduce the
slots stay apart exactly as long as no rank gets a whole ring ahead of another,
which nothing in the send loop of a rank other than the root prevents.
-/

namespace IncEmulation

open Gather Machine

/-- The number of arrival flags that are set. -/
def PsnState.flags (state : PsnState) : Nat :=
  (List.range maxConnectionsNum).countP fun conn => state.arrival conn

/-- The slot has one PSN and one contribution for each of its flags. -/
structure PsnState.Unmixed (state : PsnState)
    (contributions : List Contribution) : Prop where
  degree : state.degree = state.flags
  psn : ∀ each ∈ contributions, each.packet.psn = state.aggBuffer.psn

/-- The result is the sum of one packet of every connection under its PSN, and
it goes to the root. -/
structure Result.SumOfAll (hosts root : Nat) (result : Result) : Prop where
  conns : (result.contributions.map Contribution.conn).Perm
    (List.range hosts)
  psn : ∀ each ∈ result.contributions, each.packet.psn = result.psn
  frames : result.frames.map (fun frame => (frame.conn, frame.data)) =
    [(root, (List.range mtuWords).map fun index =>
      htonl (wordSum result.contributions index))]

structure Observed.Unmixed (hosts root : Nat) (observed : Observed) :
    Prop where
  slots : ∀ index, (observed.system.switch.psnStates index).Unmixed
    (observed.slots index)
  results : ∀ result ∈ observed.results, result.SumOfAll hosts root

/-- The program is one Reduce. -/
def Cluster.Reduces (cluster : Cluster) (root : Nat) : Prop :=
  ∃ len, cluster.program = [⟨.reduce root, len⟩]

/-- A packet of a PSN above 300 is handled only when every rank is less than a
ring behind. -/
def System.WithinRing (cluster : Cluster) (system : System) :
    System.Event → Prop
  | .handle rank =>
      2 ^ 24 ≤ system.switch.aggEpsn rank ∨
        system.switch.aggEpsn rank ≤ switchArrayLength ∨
        ∀ other < cluster.hosts, system.switch.aggEpsn rank <
          system.switch.aggEpsn other + switchArrayLength
  | _ => True

instance (cluster : Cluster) (system : System) :
    DecidablePred (System.WithinRing cluster system)
  | .handle rank => by unfold System.WithinRing; infer_instance
  | .host _ => .isTrue trivial
  | .transmit _ => .isTrue trivial
  | .sendCompletes _ => .isTrue trivial
  | .acknowledge _ _ => .isTrue trivial
  | .deliver _ => .isTrue trivial

section Slots

variable {state : PsnState} {hosts : Nat}

theorem PsnState.flags_eq_card (present : Finset Nat)
    (arrival : ∀ conn, state.arrival conn = true ↔ conn ∈ present)
    (within : ∀ conn ∈ present, conn < maxConnectionsNum) :
    state.flags = present.card := by
  have same : present =
      ((List.range maxConnectionsNum).filter fun conn =>
        state.arrival conn).toFinset := by
    ext conn
    rw [List.mem_toFinset, List.mem_filter, List.mem_range, arrival conn]
    exact ⟨fun member => ⟨within conn member, member⟩, And.right⟩
  rw [same, List.toFinset_card_of_nodup (List.nodup_range.filter _),
    PsnState.flags, List.countP_eq_length_filter]

theorem PsnState.Holds.degree_eq_flags {aggEpsn : Nat → Nat} {psn : Nat}
    (holds : state.Holds hosts aggEpsn psn)
    (fits : hosts ≤ maxConnectionsNum) : state.degree = state.flags := by
  rw [holds.degree]
  refine (PsnState.flags_eq_card _ holds.arrival
    fun conn member => ?_).symm
  exact Nat.lt_of_lt_of_le (mem_contributors.mp member).1 fits

theorem PsnState.Idle.degree_eq_flags (idle : state.Idle) :
    state.degree = state.flags := by
  rw [idle.degree]
  refine (PsnState.flags_eq_card ∅ (fun conn => ?_)
    (by simp)).symm
  simp [idle.arrival conn]

end Slots

/-- The data of a Reduce that starts on a fresh switch. -/
def IsReduceData (psn : Nat) : Prop := 1 ≤ psn

/-- The invariant of a Reduce within the ring. -/
structure Observed.Apart (cluster : Cluster) (root : Nat)
    (observed : Observed) : Prop where
  kept : observed.Kept cluster
  gathered : observed.Gathered cluster IsReduceData
  spread : Spread cluster.hosts switchArrayLength
    observed.system.switch.aggEpsn
  results : ∀ result ∈ observed.results,
    result.SumOfAll cluster.hosts root

section Invariant

variable {cluster : Cluster} {root : Nat} {observed next : Observed}
  {system : System} {rank number k : Nat} {call : Call} {packet : Packet}

theorem Cluster.Reduces.only (reduces : cluster.Reduces root)
    (current : cluster.program[number]? = some call) :
    number = 0 ∧ call.collective = .reduce root := by
  obtain ⟨len, program⟩ := reduces
  rw [program] at current
  match number with
  | 0 => exact ⟨rfl, by cases current; rfl⟩
  | number + 1 => cases current

/-- There is only one operation to announce. -/
theorem Cluster.Reduces.orderly (reduces : cluster.Reduces root)
    (system : System) (event : System.Event) :
    system.Orderly cluster event := by
  have only {rank position : Nat} {segment : Segment}
      (present : (cluster.job rank).stream[position]? = some segment) :
      cluster.collectiveOf segment.request.call = some (.reduce root) := by
    obtain ⟨number, call, current, -, found⟩ := Job.stream_cases present
    have own : segment.request.call = number := by
      rcases found with ⟨-, rfl⟩ | ⟨k, -, -, rfl⟩ <;> rfl
    have current : cluster.program[number]? = some call := current
    rw [own, Cluster.collectiveOf, current, Option.map_some,
      (reduces.only current).2]
  cases event with
  | handle rank =>
      intro control expected immediate other bound data owed plain
      rw [only owed, only expected]
  | host rank => trivial
  | transmit rank => trivial
  | sendCompletes rank => trivial
  | acknowledge rank packet => trivial
  | deliver rank => trivial

theorem System.InTurn.isReduceData
    (inTurn : system.InTurn cluster rank number k call packet) :
    IsReduceData (system.switch.aggEpsn rank) := by
  have place := inTurn.place
  unfold IsReduceData
  omega

namespace Observed.Apart

theorem unmixed (apart : Apart cluster root observed) :
    observed.Unmixed cluster.hosts root where
  slots := by
    intro index
    refine ⟨?_, fun each member => apart.gathered.psn_of_mem member⟩
    by_cases occupied : ∃ psn, IsReduceData psn ∧
        Pending cluster.hosts observed.system.switch.aggEpsn psn ∧
        idx psn = index
    · obtain ⟨psn, data, pending, rfl⟩ := occupied
      exact (apart.gathered.slots.pending psn data pending).degree_eq_flags
        apart.kept.recorded.wired.deployed.fits
    · push Not at occupied
      exact (apart.gathered.slots.idle index occupied).degree_eq_flags
  results := apart.results

theorem slotFree (apart : Apart cluster root observed)
    (inTurn : observed.system.InTurn cluster rank number k call packet)
    (paced : Paced cluster.hosts switchArrayLength
      observed.system.switch.aggEpsn rank) :
    SlotFree cluster.hosts IsReduceData observed.system.switch
      (observed.system.switch.aggEpsn rank) :=
  fun _ data pending sameSlot =>
    apart.spread.eq_of_mod_eq inTurn.bound paced inTurn.isReduceData data
      pending sameSlot

theorem metadata (apart : Apart cluster root observed)
    (reduces : cluster.Reduces root)
    (inTurn : observed.system.InTurn cluster rank number k call packet) :
    observed.system.switch.metadata = (Collective.reduce root).metadata := by
  rw [apart.kept.owed rank inTurn.bound number call k inTurn.current
    inTurn.sends inTurn.inCall inTurn.place, (reduces.only inTurn.current).2]

theorem not_broadcast (apart : Apart cluster root observed)
    (reduces : cluster.Reduces root)
    (inTurn : observed.system.InTurn cluster rank number k call packet) :
    ¬observed.system.switch.InForce (.broadcast rank) := by
  intro inForce
  have same := Collective.metadata_injective
    (inForce.symm.trans (apart.metadata reduces inTurn))
  cases same

theorem frames_eq {accepted : List Contribution} {result : Result}
    (formed : result.Formed cluster accepted)
    (inForce : result.inForce = (Collective.reduce root).metadata) :
    result.frames.map (fun frame => (frame.conn, frame.data)) =
      [(root, (List.range mtuWords).map fun index =>
        htonl (wordSum result.contributions index))] := by
  obtain ⟨operation, metadata, targets⟩ := formed.targets
  obtain rfl := Collective.metadata_injective (metadata.trans inForce)
  obtain ⟨frame, only, conn⟩ := List.map_eq_singleton_iff.mp targets
  rw [only, List.map_singleton, conn, formed.data frame (by simp [only])]

theorem control {psn : Nat} (apart : Apart cluster root observed)
    (reduces : cluster.Reduces root)
    (kept : (observed.announce rank call.collective.metadata system).Kept
      cluster)
    (current : cluster.program[number]? = some call)
    (place : observed.system.switch.aggEpsn rank =
      (cluster.job rank).base number)
    (after : system.switch =
      observed.system.switch.afterControl call.collective rank psn) :
    Apart cluster root
      (observed.announce rank call.collective.metadata system) := by
  obtain ⟨rfl, -⟩ := reduces.only current
  rw [Job.base_zero] at place
  have aggEpsn : system.switch.aggEpsn =
      advance observed.system.switch.aggEpsn rank :=
    congrArg SwitchContext.aggEpsn after
  have noData : ¬IsReduceData (observed.system.switch.aggEpsn rank) := by
    simp [place, IsReduceData]
  have psnStates : system.switch.psnStates =
      observed.system.switch.psnStates := by
    rw [after]
    rfl
  refine ⟨kept, apart.gathered.skip kept.recorded noData aggEpsn psnStates
    rfl, ?_, apart.results⟩
  have spread : Spread cluster.hosts switchArrayLength
      (advance observed.system.switch.aggEpsn rank) :=
    apart.spread.advance (.inl (by rw [place]; exact Nat.zero_le _))
  rwa [← aggEpsn] at spread

theorem incomplete {operation : Collective}
    (apart : Apart cluster root observed)
    (kept : (observed.gather rank packet system).Kept cluster)
    (inTurn : observed.system.InTurn cluster rank number k call packet)
    (paced : Paced cluster.hosts switchArrayLength
      observed.system.switch.aggEpsn rank)
    (notFull : (observed.system.switch.psnStates
      (idx packet.psn)).degree + 1 ≠ cluster.hosts)
    (after : system.switch =
      observed.system.switch.afterContribution operation rank packet) :
    Apart cluster root (observed.gather rank packet system) where
  kept := kept
  gathered := apart.gathered.gather kept.recorded inTurn inTurn.isReduceData
    (apart.slotFree inTurn paced) notFull after
  spread := by
    have aggEpsn : system.switch.aggEpsn =
        advance observed.system.switch.aggEpsn rank :=
      congrArg SwitchContext.aggEpsn after
    simp only [gather, aggEpsn]
    exact apart.spread.advance paced
  results := apart.results

theorem complete {frames : List Frame} {targets : List Nat}
    (apart : Apart cluster root observed) (reduces : cluster.Reduces root)
    (kept : (observed.dispatch rank packet frames system).Kept cluster)
    (inTurn : observed.system.InTurn cluster rank number k call packet)
    (paced : Paced cluster.hosts switchArrayLength
      observed.system.switch.aggEpsn rank)
    (full : (observed.system.switch.psnStates
      (idx packet.psn)).degree + 1 = cluster.hosts)
    (completed : observed.system.switch.Completed system.switch rank
      (idx packet.psn) targets) :
    Apart cluster root (observed.dispatch rank packet frames system) := by
  have free := apart.slotFree inTurn paced
  refine ⟨kept, apart.gathered.dispatch kept.recorded inTurn
    inTurn.isReduceData free full completed, ?_, ?_⟩
  · simp only [dispatch, completed.aggEpsn]
    exact apart.spread.advance paced
  · intro result member
    have formed := kept.recorded.results result member
    rcases List.mem_append.mp member with old | new
    · exact apart.results result old
    · obtain rfl := List.mem_singleton.mp new
      exact ⟨apart.gathered.conns_perm inTurn inTurn.isReduceData free full,
        apart.gathered.psn_eq inTurn free,
        frames_eq formed (apart.metadata reduces inTurn)⟩

theorem step {event : System.Event} (apart : Apart cluster root observed)
    (reduces : cluster.Reduces root)
    (paced : observed.system.WithinRing cluster event)
    (stepped : Observed.step cluster observed event = some next) :
    Apart cluster root next := by
  have kept := apart.kept.step (reduces.orderly _ _) stepped
  cases noted_of_step apart.kept.recorded.wired stepped with
  | quiet same =>
      refine ⟨kept, apart.gathered.quiet kept.recorded same, ?_,
        apart.results⟩
      simp only [same.aggEpsn]
      exact apart.spread
  | control bound current sends place after =>
      exact apart.control reduces kept current place after
  | broadcast inTurn inForce after =>
      exact (apart.not_broadcast reduces inTurn inForce).elim
  | incomplete inTurn inForce aggregates notFull after =>
      have near := paced.resolve_left (inTurn.expected ▸
        Nat.not_le.mpr (Packet.psn_lt _))
      exact apart.incomplete kept inTurn near notFull after
  | complete inTurn inForce aggregates full completed =>
      have near := paced.resolve_left (inTurn.expected ▸
        Nat.not_le.mpr (Packet.psn_lt _))
      exact apart.complete reduces kept inTurn near full completed

/-- A rank a whole ring ahead of another has its own contribution in the slot
of its next packet. -/
theorem contributed_of_ahead (apart : Apart cluster root observed)
    (inTurn : observed.system.InTurn cluster rank number k call packet)
    (above : switchArrayLength < observed.system.switch.aggEpsn rank)
    {other : Nat} (otherBound : other < cluster.hosts)
    (behind : observed.system.switch.aggEpsn other + switchArrayLength ≤
      observed.system.switch.aggEpsn rank) :
    ∃ each ∈ observed.slots (idx packet.psn), each.conn = rank := by
  have pending : Pending cluster.hosts observed.system.switch.aggEpsn
      (observed.system.switch.aggEpsn rank - switchArrayLength) :=
    ⟨⟨rank, inTurn.bound, by simp only [switchArrayLength] at *; omega⟩,
      other, otherBound, by omega⟩
  have sameSlot : idx (observed.system.switch.aggEpsn rank -
      switchArrayLength) = idx packet.psn := by
    rw [inTurn.expected]
    simp only [idx, switchArrayLength] at *
    omega
  have holds := apart.gathered.slots.pending _
    (show IsReduceData _ by unfold IsReduceData; omega) pending
  rw [sameSlot] at holds
  refine ((apart.kept.recorded.slots _).arrival rank).mp
    ((holds.arrival rank).mpr (mem_contributors.mpr ⟨inTurn.bound, ?_⟩))
  simp only [switchArrayLength] at *
  omega

/-- The switch accepts every data packet of the Reduce it handles. -/
theorem advances (apart : Apart cluster root observed)
    (reduces : cluster.Reduces root)
    (moved : System.Moved cluster observed.system (.handle rank) system)
    (fits : observed.system.switch.aggEpsn rank < 2 ^ 24)
    (started : 0 < observed.system.switch.aggEpsn rank) :
    system.switch.aggEpsn rank ≠ observed.system.switch.aggEpsn rank := by
  have wired := apart.kept.recorded.wired
  have arrived : ∃ segment packet, rank < cluster.hosts ∧
      Arriving cluster observed.system rank segment packet := by
    cases moved with
    | refused bound present stays =>
        exact ⟨_, _, bound, wired.arriving bound present⟩
    | handled bound present moves =>
        exact ⟨_, _, bound, wired.arriving bound present⟩
  obtain ⟨segment, packet, bound, arriving⟩ := arrived
  cases arriving with
  | control current sends place =>
      obtain ⟨rfl, -⟩ := reduces.only current
      rw [Job.base_zero] at place
      omega
  | data current sends inCall place =>
      have inForce := apart.kept.owed rank bound _ _ _ current sends inCall
        place
      rw [(reduces.only current).2] at inForce
      exact wired.handle_advances moved fits inForce rfl

/-- A second contribution of a rank raises the degree but no flag. -/
theorem not_unmixed_contribution {operation : Collective}
    (apart : Apart cluster root observed)
    (contributed : ∃ each ∈ observed.slots (idx packet.psn),
      each.conn = rank) :
    ¬(observed.system.switch.contribution operation rank packet).degree =
      (observed.system.switch.contribution operation rank packet).flags := by
  have flagged := ((apart.kept.recorded.slots _).arrival rank).mpr contributed
  have same : (observed.system.switch.contribution operation rank
      packet).flags =
      (observed.system.switch.psnStates (idx packet.psn)).flags := by
    have arrival : (observed.system.switch.contribution operation rank
        packet).arrival =
        (observed.system.switch.psnStates (idx packet.psn)).arrival := by
      funext conn
      by_cases own : conn = rank
      · subst own
        simp [SwitchContext.contribution, PsnState.accumulate, flagged]
      · simp [SwitchContext.contribution, PsnState.accumulate, own]
    rw [PsnState.flags, PsnState.flags, arrival]
  have degree : (observed.system.switch.contribution operation rank
      packet).degree =
      (observed.system.switch.psnStates (idx packet.psn)).degree + 1 := rfl
  rw [same, degree, (apart.unmixed.slots _).degree]
  omega

/-- The first packet that overruns the ring spoils its slot. -/
theorem spoiled {event : System.Event} (apart : Apart cluster root observed)
    (reduces : cluster.Reduces root)
    (overrun : ¬observed.system.WithinRing cluster event)
    (stepped : Observed.step cluster observed event = some next) :
    ¬next.Unmixed cluster.hosts root := by
  intro unmixed
  cases event with
  | handle rank =>
      simp only [System.WithinRing, not_or, not_le, not_forall, not_lt,
        exists_prop] at overrun
      obtain ⟨fits, above, other, otherBound, behind⟩ := overrun
      have moved := System.moved_of_step (step_system stepped)
      have wired := apart.kept.recorded.wired
      cases noted_of_step wired stepped with
      | quiet same =>
          exact apart.advances reduces moved fits (by omega)
            (congrFun same.aggEpsn rank)
      | control bound current sends place after =>
          obtain ⟨rfl, -⟩ := reduces.only current
          rw [Job.base_zero] at place
          omega
      | broadcast inTurn inForce after =>
          exact apart.not_broadcast reduces inTurn inForce
      | @incomplete system rank number k call packet operation inTurn inForce
          aggregates notFull after =>
          have contributed :=
            apart.contributed_of_ahead inTurn above otherBound behind
          have degree := (unmixed.slots (idx packet.psn)).degree
          simp only [gather, after, afterContribution_psnStates_self] at degree
          exact apart.not_unmixed_contribution contributed degree
      | @complete system rank number k call packet operation inTurn inForce
          aggregates full completed =>
          obtain ⟨each, member, same⟩ :=
            apart.contributed_of_ahead inTurn above otherBound behind
          have perm := (unmixed.results _ (List.mem_append_right _
            (List.mem_singleton_self _))).conns
          have nodup := perm.nodup_iff.mpr List.nodup_range
          rw [List.map_append] at nodup
          exact (List.nodup_append.mp nodup).2.2 _
            (List.mem_map_of_mem member) _ (List.mem_singleton_self _) same
  | host rank => exact overrun trivial
  | transmit rank => exact overrun trivial
  | sendCompletes rank => exact overrun trivial
  | acknowledge rank packet => exact overrun trivial
  | deliver rank => exact overrun trivial

theorem init {ctx : SwitchContext} (fresh : cluster.Fresh ctx) :
    Apart cluster root (.init ctx) where
  kept := .init fresh
  gathered := .init fresh
  spread := by
    intro first firstBound second secondBound
    have zero := fresh.ready.aggEpsn first firstBound
    simp [Observed.init, System.init, zero]
  results := nofun

end Observed.Apart

end Invariant

/-- During a Reduce no slot mixes PSNs exactly as long as no rank gets a whole
ring ahead of another. -/
theorem unmixed_iff_withinRing (cluster : Cluster) (root : Nat)
    (reduces : cluster.Reduces root) (ctx : SwitchContext)
    (fresh : cluster.Fresh ctx) (events : List System.Event)
    (observed : Observed)
    (taken : run (Observed.step cluster) (.init ctx) events = some observed) :
    Throughout (Observed.step cluster) (Observed.Unmixed cluster.hosts root)
        (.init ctx) events ↔
      Meets (Observed.step cluster)
        (fun state event => state.system.WithinRing cluster event)
        (.init ctx) events :=
  throughout_iff_meets (Observed.Apart cluster root)
    (fun _ apart => apart.unmixed)
    (fun _ _ _ apart paced stepped => apart.step reduces paced stepped)
    (fun _ _ _ apart overrun stepped =>
      apart.spoiled reduces overrun stepped)
    (.init fresh) taken

/-- A Reduce of at most 75 messages never overruns the ring. -/
theorem withinRing_of_short {cluster : Cluster} {call : Call}
    (program : cluster.program = [call])
    (short : 4 * call.messageNum ≤ switchArrayLength) {ctx : SwitchContext}
    (fresh : cluster.Fresh ctx) {events : List System.Event}
    {observed : Observed}
    (taken : run (Observed.step cluster) (.init ctx) events =
      some observed) :
    Meets (Observed.step cluster)
      (fun state event => state.system.WithinRing cluster event)
      (.init ctx) events := by
  refine meets_of_enabled (Observed.Recorded cluster)
    (fun _ _ _ recorded stepped => recorded.step stepped) ?_ (.init fresh)
    taken
  intro state event next recorded stepped
  have small {rank : Nat} {sent : Segment × Packet}
      (bound : rank < cluster.hosts)
      (present : (state.system.up rank)[state.system.accepted rank]? =
        some sent) :
      state.system.switch.aggEpsn rank ≤ switchArrayLength := by
    have inStream := recorded.wired.up_stream
      (show _ = some (sent.1, sent.2) from present)
    rw [recorded.wired.accepted rank bound] at inStream
    obtain ⟨number, own, current, sends, found⟩ := Job.stream_cases inStream
    have current : cluster.program[number]? = some own := current
    rw [program] at current
    match number with
    | 0 =>
        obtain rfl := Option.some.inj current
        rw [Job.base_zero] at found
        rcases found with ⟨place, -⟩ | ⟨k, inCall, place, -⟩ <;> omega
    | number + 1 => cases current
  obtain ⟨system, moved, -⟩ := Option.map_eq_some_iff.mp stepped
  cases System.moved_of_step moved with
  | refused bound present stays => exact .inr (.inl (small bound present))
  | handled bound present moves => exact .inr (.inl (small bound present))
  | host => trivial
  | transmit => trivial
  | sendCompletes => trivial
  | acknowledge => trivial
  | deliver => trivial

/-- Two ranks reduce 76 messages to rank 0. -/
def longReduce : Cluster := .pair [⟨.reduce 0, 77824⟩] (by decide)

/-- Rank 1 announces the Reduce and sends two packets, then rank 0 announces
it. -/
def evenRun : List System.Event :=
  List.flatten
    [List.replicate 2 (.host 1), [.transmit 1, .handle 1, .sendCompletes 1],
      List.replicate 80 (.host 1),
      [.transmit 1, .handle 1, .transmit 1, .handle 1],
      [.host 0, .host 0, .transmit 0, .handle 0]]

theorem unmixed_iff_withinRing_evenRun :
    Throughout (Observed.step longReduce) (Observed.Unmixed 2 0)
      (.init twoHosts.context) evenRun := by
  have taken : (run (Observed.step longReduce) (.init twoHosts.context)
      evenRun).isSome = true := by
    decide +kernel
  obtain ⟨observed, ran⟩ := Option.isSome_iff_exists.mp taken
  exact (unmixed_iff_withinRing longReduce 0 ⟨_, rfl⟩ twoHosts.context
    Cluster.pair_fresh evenRun observed ran).mpr (by decide +kernel)

/-- One message of rank 1 from its packets to the next request. -/
def messageOfRankOne : List System.Event :=
  List.flatten
    [List.replicate 4 (.transmit 1), List.replicate 4 (.handle 1),
      [.sendCompletes 1, .host 1, .host 1]]

/-- Rank 1 sends 75 messages and one more packet while rank 0 sends nothing. -/
def overrunningRun : List System.Event :=
  List.flatten
    [List.replicate 2 (.host 1), [.transmit 1, .handle 1, .sendCompletes 1],
      List.replicate 81 (.host 1),
      (List.replicate 75 messageOfRankOne).flatten, [.transmit 1, .handle 1]]

/-- The result of PSN 301 is the sum of two packets of rank 1. -/
theorem not_unmixed_overrunningRun :
    ¬∀ (cluster : Cluster) (root : Nat) (ctx : SwitchContext)
      (events : List System.Event) (observed : Observed),
      cluster.Reduces root → cluster.Fresh ctx →
      run (Observed.step cluster) (.init ctx) events = some observed →
        observed.Unmixed cluster.hosts root := by
  intro always
  have shape : ((run (Observed.step longReduce) (.init twoHosts.context)
      overrunningRun).map fun observed =>
        observed.results[0]?.map fun result =>
          result.contributions.map Contribution.conn) =
      some (some [1, 1]) := by
    decide +kernel
  obtain ⟨observed, ran, found⟩ := Option.map_eq_some_iff.mp shape
  obtain ⟨result, present, conns⟩ := Option.map_eq_some_iff.mp found
  have unmixed := always longReduce 0 twoHosts.context overrunningRun observed
    ⟨_, rfl⟩ Cluster.pair_fresh ran
  have perm := (unmixed.results result (List.mem_of_getElem? present)).conns
  rw [conns] at perm
  have nodup := perm.nodup_iff.mpr List.nodup_range
  simp at nodup

end IncEmulation
