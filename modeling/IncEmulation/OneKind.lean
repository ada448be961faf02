import IncEmulation.Collectives
import IncEmulation.Overrun
import IncEmulation.Pairing

/-!
# Programs of one kind of call

In a program of Broadcasts alone, or of Reduces to one root alone, the operation
in force is always one of the program, and a rank that sends waits for nothing
but its sends.  What is left to ask of a run is that the receivers of a Broadcast
are ready for it, and that no rank of a Reduce gets a ring ahead.
-/

namespace IncEmulation

open Gather Machine

namespace Cluster

/-- Every call of the program is a Broadcast. -/
def AllBroadcast (cluster : Cluster) : Prop :=
  ∀ call ∈ cluster.program, call.collective.aggregates = false

/-- Every call of the program is a Reduce to the root. -/
def ReducesTo (cluster : Cluster) (root : Nat) : Prop :=
  ∀ call ∈ cluster.program, call.collective = .reduce root

/-- In no call does the rank both send and receive. -/
def OneWay (cluster : Cluster) (rank : Nat) : Prop :=
  ∀ call ∈ cluster.program, call.collective.sends rank = true →
    call.collective.receives rank = false

variable {cluster : Cluster} {root rank : Nat} {call : Call}

theorem AllBroadcast.collective (broadcasts : cluster.AllBroadcast)
    (member : call ∈ cluster.program)
    (sends : call.collective.sends rank = true) :
    call.collective = .broadcast rank := by
  have direct := broadcasts call member
  cases operation : call.collective with
  | allreduce =>
      rw [operation] at direct
      cases direct
  | reduce root =>
      rw [operation] at direct
      cases direct
  | broadcast root =>
      rw [operation] at sends
      rw [of_decide_eq_true sends]

theorem AllBroadcast.oneWay (broadcasts : cluster.AllBroadcast) (rank : Nat) :
    cluster.OneWay rank := by
  intro call member sends
  rw [broadcasts.collective member sends]
  exact decide_eq_false (not_not.mpr rfl)

theorem ReducesTo.oneWay (reduces : cluster.ReducesTo root)
    (other : rank ≠ root) : cluster.OneWay rank := by
  intro call member _
  rw [reduces call member]
  exact decide_eq_false other

theorem ReducesTo.allAggregate (reduces : cluster.ReducesTo root) :
    cluster.AllAggregate := by
  intro call member
  rw [reduces call member]
  rfl

end Cluster

/-! ## Completions of ranks that only send or only receive -/

section Completions

variable {cluster : Cluster} {system next : System} {rank : Nat}

/-- A loop that counts receives and refills is one of a rank that does both. -/
theorem Host.drains_of_oneWay {host : Host} (oneWay : cluster.OneWay rank)
    (invariant : host.Invariant (cluster.job rank)) (action : Host.Action) :
    host.Drains (cluster.job rank) action := by
  rintro - ⟨call, loop⟩ current counts refills
  unfold Host.currentPoll at current
  split at current
  · rename_i loop rest running
    obtain ⟨call, here, same⟩ := Option.map_eq_some_iff.mp current
    cases same
    have inside := invariant.inside_of_current running here
    have isLoop : loop = call.collective.loop rank :=
      (Call.poll_cases inside.suffix).1
    dsimp only at counts refills
    rw [isLoop, Collective.loop_refills] at refills
    rw [isLoop, Collective.loop_counts,
      oneWay call (List.mem_of_getElem? here) refills] at counts
    cases counts
  · cases current

theorem System.finishes_of_clean
    (invariant : (system.hosts rank).Invariant (cluster.job rank))
    (clean : Host.Clean (cluster.job rank) (system.hosts rank)) :
    system.Finishes cluster (.host rank) := by
  intro ended _ _ _
  obtain ⟨call, current, inside⟩ := invariant.inside [] ended
  exact ((clean.tidy [] call ended current).leave inside current).sendsDone

end Completions

/-! ## The operation in force -/

namespace System

/-- Once a packet is accepted, what is in force is an operation of the program. -/
def Announced (cluster : Cluster) (system : System) : Prop :=
  (∀ rank < cluster.hosts, system.switch.aggEpsn rank = 0) ∨
    ∃ call ∈ cluster.program, system.switch.InForce call.collective

section Announcing

variable {cluster : Cluster} {system next : System} {rank : Nat}
  {segment : Segment} {packet : Packet}

theorem Announced.handle (announced : system.Announced cluster)
    (wired : Wired cluster system) (bound : rank < cluster.hosts)
    (present : (system.up rank)[system.accepted rank]? =
      some (segment, packet)) :
    ∃ call ∈ cluster.program,
      (packetHandler system.switch rank packet).1.InForce call.collective := by
  cases wired.arriving bound present with
  | @control number call padding current sends place =>
      have admissible := Cluster.admissible_of_call current sends
      refine ⟨call, List.mem_of_getElem? current, ?_⟩
      rw [packetHandler_control wired.deployed.toRouted bound
        Addressing.controlPacket_from admissible
        (Addressing.controlPacket_announces wired.deployed.fits bound
          admissible)]
      rfl
  | data current sends inCall place =>
      rcases announced with nothing | ⟨call, member, inForce⟩
      · have zero := nothing rank bound
        omega
      · exact ⟨call, member, packetHandler_inForce rank
          (Addressing.dataPacket_plain (Job.dataOpcode_plain _)).hasImmData
          inForce⟩

theorem Announced.move {event : Event} (announced : system.Announced cluster)
    (wired : Wired cluster system)
    (moved : Moved cluster system event next) : next.Announced cluster := by
  cases moved with
  | host => exact announced
  | transmit => exact announced
  | refused bound present =>
      exact .inr (announced.handle wired bound present)
  | handled bound present =>
      exact .inr (announced.handle wired bound present)
  | sendCompletes => exact announced
  | @acknowledge rank packet bound origin opcode =>
      have same := (wired.acknowledge bound origin opcode).1
      have metadata : ((system.feedSwitch rank packet).switch.operationType,
          (system.feedSwitch rank packet).switch.rootRank) =
            (system.switch.operationType, system.switch.rootRank) :=
        Prod.ext same.operationType same.rootRank
      have aggEpsn : (system.feedSwitch rank packet).switch.aggEpsn =
          system.switch.aggEpsn := same.aggEpsn
      simpa only [Announced, SwitchContext.InForce, metadata, aggEpsn]
        using announced
  | deliver bound present received =>
      obtain ⟨switch, -⟩ := received.apart
      simpa only [Announced, switch] using announced

theorem Announced.inForce (announced : system.Announced cluster)
    (bound : rank < cluster.hosts)
    (accepted : 0 < system.switch.aggEpsn rank) :
    ∃ call ∈ cluster.program, system.switch.InForce call.collective := by
  rcases announced with nothing | inForce
  · have zero := nothing rank bound
    omega
  · exact inForce

end Announcing

end System

/-- What every run keeps whose data packets fit. -/
structure Ordinary (cluster : Cluster) (system : System) : Prop where
  delivering : Delivering cluster system
  announced : system.Announced cluster
  clean : ∀ rank, cluster.OneWay rank →
    Host.Clean (cluster.job rank) (system.hosts rank)

namespace Ordinary

variable {cluster : Cluster} {system next : System} {rank : Nat}

theorem init {ctx : SwitchContext} (fresh : cluster.Fresh ctx) :
    Ordinary cluster (.init ctx) where
  delivering := .init fresh
  announced := .inl fresh.ready.aggEpsn
  clean := fun rank _ => Host.init_clean (cluster.job rank)

theorem finishes (ordinary : Ordinary cluster system)
    (oneWay : ∀ rank, (∃ call ∈ cluster.program,
      call.collective.receives rank = false) → cluster.OneWay rank)
    (event : System.Event) : system.Finishes cluster event := by
  cases event with
  | host rank =>
      intro ended call current receives
      have clean := ordinary.clean rank
        (oneWay rank ⟨call, List.mem_of_getElem? current, receives⟩)
      exact System.finishes_of_clean
        (ordinary.delivering.posted.wired.hosts rank) clean ended call current
        receives
  | transmit => trivial
  | handle => trivial
  | sendCompletes => trivial
  | acknowledge => trivial
  | deliver => trivial

theorem step {event : System.Event}
    (short : ∀ call ∈ cluster.program, call.len.toNat < 2 ^ 31)
    (oneWay : ∀ rank, (∃ call ∈ cluster.program,
      call.collective.receives rank = false) → cluster.OneWay rank)
    (ordinary : Ordinary cluster system)
    (prepared : system.Prepared cluster event)
    (stepped : System.step cluster system event = some next) :
    Ordinary cluster next := by
  have wired := ordinary.delivering.posted.wired
  have moved := System.moved_of_step stepped
  refine ⟨ordinary.delivering.step short prepared
    (ordinary.finishes oneWay event) stepped,
    ordinary.announced.move wired moved, fun rank apart => ?_⟩
  have kept (host after : Host) (action : Host.Action)
      (held : host.Invariant (cluster.job rank) ∧
        Host.Clean (cluster.job rank) host)
      (acted : host.act (cluster.job rank) action = some after) :
      after.Invariant (cluster.job rank) ∧
        Host.Clean (cluster.job rank) after :=
    ⟨held.1.act acted, held.2.act held.1
      (Host.drains_of_oneWay apart held.1 action) acted⟩
  exact (moved.keeps kept ⟨wired.hosts rank, ordinary.clean rank apart⟩).2

end Ordinary

/-! ## Broadcasts -/

/-- A root posts a message of a Broadcast only after the other ranks have posted
the receive for it. -/
def System.Heard (cluster : Cluster) (system : System) : System.Event → Prop
  | .host rank => system.Waits cluster rank
  | _ => True

instance (cluster : Cluster) (system : System) :
    DecidablePred (System.Heard cluster system)
  | .host rank => by unfold System.Heard; infer_instance
  | .transmit _ => .isTrue trivial
  | .handle _ => .isTrue trivial
  | .sendCompletes _ => .isTrue trivial
  | .acknowledge _ _ => .isTrue trivial
  | .deliver _ => .isTrue trivial

section Broadcasting

variable {cluster : Cluster} {system : System} {rank : Nat}

theorem System.exists_of_expected {data : Segment} {call : Call}
    (expected : data ∈ system.expected cluster rank)
    (plain : data.request.immData = none)
    (current : cluster.program[data.request.call]? = some call) :
    0 < system.switch.aggEpsn rank ∧ call.collective.sends rank = true ∧
      ∃ k < 4 * call.messageNum, data = Job.dataSegment data.request.call k ∧
        system.switch.aggEpsn rank =
          (cluster.job rank).base data.request.call + 1 + k := by
  obtain ⟨number, own, ownCurrent, sends, found⟩ := Job.stream_cases expected
  rcases found with ⟨-, rfl⟩ | ⟨k, inCall, place, rfl⟩
  · cases plain
  · obtain rfl := Option.some.inj (current.symm.trans ownCurrent)
    exact ⟨by omega, sends, k, inCall, rfl, place⟩

/-- In a program of Broadcasts data goes under its own root or is dropped. -/
theorem Ordinary.prepared_of_heard (ordinary : Ordinary cluster system)
    (broadcasts : cluster.AllBroadcast) {event : System.Event}
    (stepped : System.step cluster system event ≠ none)
    (heard : system.Heard cluster event) :
    system.Prepared cluster event := by
  cases event with
  | handle rank =>
      have bound : rank < cluster.hosts := by
        by_contra outside
        exact stepped (if_neg outside)
      intro data expected plain call current
      obtain ⟨accepted, sends, -⟩ :=
        System.exists_of_expected expected plain current
      have member := List.mem_of_getElem? current
      have collective := broadcasts.collective member sends
      obtain ⟨other, otherMember, inForce⟩ :=
        ordinary.announced.inForce bound accepted
      have direct := broadcasts other otherMember
      cases operation : other.collective with
      | allreduce =>
          rw [operation] at direct
          cases direct
      | reduce root =>
          rw [operation] at direct
          cases direct
      | broadcast root =>
          rw [operation] at inForce
          by_cases own : root = rank
          · subst own
            refine .inr ⟨by rw [collective]; exact inForce, ?_, ?_⟩
            · intro aggregates
              rw [broadcasts call member] at aggregates
              cases aggregates
            · intro aggregates
              rw [broadcasts call member] at aggregates
              cases aggregates
          · refine .inl ⟨congrArg Prod.fst inForce, ?_⟩
            have isRoot : system.switch.rootRank = (root : Int) :=
              congrArg Prod.snd inForce
            rw [isRoot]
            exact fun same => own (Int.ofNat_inj.mp same)
  | host => exact heard
  | transmit => trivial
  | sendCompletes => trivial
  | acknowledge => trivial
  | deliver => trivial

end Broadcasting

/-- Broadcasts of any roots: as long as the roots wait for their receivers, every
rank keeps to its buffers and a call that has returned has left the data of its
root everywhere. -/
theorem broadcasts_deliver (cluster : Cluster) (ctx : SwitchContext)
    (fresh : cluster.Fresh ctx) (broadcasts : cluster.AllBroadcast)
    (room : cluster.MessagesFit)
    (short : ∀ call ∈ cluster.program, call.len.toNat < 2 ^ 31)
    (events : List System.Event) (system : System)
    (taken : run (System.step cluster) (.init ctx) events = some system)
    (heard : Meets (System.step cluster)
      (fun state event => state.Heard cluster event) (.init ctx) events) :
    system.Confined cluster ∧
      ∀ rank < cluster.hosts, ∀ number call root,
        (system.hosts rank).stages = none →
        (system.hosts rank).calls = number + 1 →
        cluster.program[number]? = some call →
        call.collective = .broadcast root → rank ≠ root →
          ∀ index < call.len.toNat,
            (system.hosts rank).dstData index =
              cluster.srcData root number index := by
  have ordinary : Ordinary cluster system :=
    run_invariant (Ordinary cluster)
      (fun state event next before heard stepped => before.step short
        (fun rank _ => broadcasts.oneWay rank)
        (before.prepared_of_heard broadcasts (by rw [stepped]; nofun) heard)
        stepped)
      (.init fresh) heard taken
  refine ⟨System.confined_of_reachable room ⟨events, taken⟩, ?_⟩
  intro rank bound number call root idle calls current collective other index
    inside
  have receives : call.collective.receives rank = true := by
    rw [collective]
    exact decide_eq_true other
  have rootBound : root < cluster.hosts := by
    have valid := Cluster.valid_of_call current
    rwa [collective] at valid
  have sum := (ordinary.delivering.answering rank bound).returned number call
    idle calls current receives index inside
  rwa [collective, Collective.senders_broadcast rootBound,
    Finset.sum_singleton] at sum

/-- A word from rank 0 and a word from rank 1. -/
def twoBroadcasts : Cluster :=
  .pair [⟨.broadcast 0, 1⟩, ⟨.broadcast 1, 1⟩] (by decide)

theorem broadcasts_deliver_twoBroadcastsRun :
    ∃ system, run (System.step twoBroadcasts) (.init twoHosts.context)
        twoBroadcastsRun = some system ∧
      system.Confined twoBroadcasts ∧ (system.hosts 0).dstData 0 = 7 := by
  have shape : (run (System.step twoBroadcasts) (.init twoHosts.context)
      twoBroadcastsRun).map (fun system =>
        ((system.hosts 0).stages.isNone, (system.hosts 0).calls)) =
      some (true, 2) := by decide +kernel
  obtain ⟨system, taken, fields⟩ := Option.map_eq_some_iff.mp shape
  obtain ⟨idle, calls⟩ := Prod.mk.inj fields
  obtain ⟨confined, data⟩ := broadcasts_deliver twoBroadcasts twoHosts.context
    Cluster.pair_fresh (by unfold Cluster.AllBroadcast; decide) (by decide)
    (by decide) twoBroadcastsRun system taken (by decide +kernel)
  exact ⟨system, taken, confined, data 0 (by decide) 1 ⟨.broadcast 1, 1⟩ 1
    (Option.isNone_iff_eq_none.mp idle) calls rfl rfl (by decide) 0 (by decide)⟩

/-! ## Reduces -/

/-- What every run of Reduces within the ring keeps. -/
structure Reducing (cluster : Cluster) (system : System) : Prop where
  ordinary : Ordinary cluster system
  spread : Spread cluster.hosts switchArrayLength system.switch.aggEpsn

namespace Reducing

variable {cluster : Cluster} {system next : System} {root rank : Nat}
  {segment : Segment} {packet : Packet}

theorem aggregated_pos {psn : Nat} (hosts : 0 < cluster.hosts)
    (aggregated : cluster.Aggregated psn) : 1 ≤ psn := by
  obtain ⟨number, call, k, -, -, -, place⟩ := aggregated
  have here := place 0 hosts
  omega

/-- The slot of the next packet is free or has its PSN. -/
theorem slot (reducing : Reducing cluster system)
    (bound : rank < cluster.hosts)
    (paced : Paced cluster.hosts switchArrayLength system.switch.aggEpsn rank)
    (accepted : 0 < system.switch.aggEpsn rank) :
    (system.switch.psnStates (idx (system.switch.aggEpsn rank))).degree = 0 ∨
      (system.switch.psnStates
          (idx (system.switch.aggEpsn rank))).aggBuffer.psn =
        system.switch.aggEpsn rank := by
  have slots := reducing.ordinary.delivering.posted.slots
  by_cases occupied : ∃ psn, cluster.Aggregated psn ∧
      Pending cluster.hosts system.switch.aggEpsn psn ∧
      idx psn = idx (system.switch.aggEpsn rank)
  · obtain ⟨psn, aggregated, pending, sameSlot⟩ := occupied
    have same := reducing.spread.eq_of_mod_eq bound paced accepted
      (aggregated_pos (Nat.zero_lt_of_lt bound) aggregated) pending sameSlot
    right
    rw [← sameSlot, (slots.pending psn aggregated pending).psn_eq, same]
  · push Not at occupied
    exact .inl (slots.idle _ occupied).degree

/-- Within the ring every packet of the Reduces fits. -/
theorem prepared_of_withinRing (reducing : Reducing cluster system)
    (reduces : cluster.ReducesTo root)
    (fits : ∀ rank < cluster.hosts,
      (cluster.job rank).stream.length ≤ 2 ^ 24)
    {event : System.Event} (stepped : System.step cluster system event ≠ none)
    (within : system.WithinRing cluster event) :
    system.Prepared cluster event := by
  cases event with
  | handle rank =>
      have bound : rank < cluster.hosts := by
        by_contra outside
        exact stepped (if_neg outside)
      intro data expected plain call current
      obtain ⟨accepted, -⟩ := System.exists_of_expected expected plain current
      have inStream := (List.getElem?_eq_some_iff.mp expected).1
      have paced := within.resolve_left
        (Nat.not_le.mpr (inStream.trans_le (fits rank bound)))
      obtain ⟨other, otherMember, inForce⟩ :=
        reducing.ordinary.announced.inForce bound accepted
      right
      refine ⟨?_, ?_, fun _ => reducing.slot bound paced accepted⟩
      · rw [reduces call (List.mem_of_getElem? current),
          ← reduces other otherMember]
        exact inForce
      · intro _ other _
        exact reduces.allAggregate.base_eq current other rank
  | host rank =>
      intro _ call current direct
      rw [reduces call (List.mem_of_getElem? current)] at direct
      cases direct
  | transmit => trivial
  | sendCompletes => trivial
  | acknowledge => trivial
  | deliver => trivial

theorem init {ctx : SwitchContext} (fresh : cluster.Fresh ctx) :
    Reducing cluster (.init ctx) where
  ordinary := .init fresh
  spread := by
    intro first firstBound second _
    left
    rw [show (System.init ctx).switch.aggEpsn first = 0 from
      fresh.ready.aggEpsn first firstBound]
    exact Nat.zero_le _

/-- A packet moves at most the PSN of its own connection. -/
theorem spread_handled (spread : Spread cluster.hosts switchArrayLength
      system.switch.aggEpsn)
    (paced : Paced cluster.hosts switchArrayLength system.switch.aggEpsn
      rank) :
    Spread cluster.hosts switchArrayLength
      (packetHandler system.switch rank packet).1.aggEpsn := by
  have moved := Wired.aggEpsn_handled system rank packet
  by_cases stays : (packetHandler system.switch rank packet).1.aggEpsn rank =
      system.switch.aggEpsn rank
  · have same : (packetHandler system.switch rank packet).1.aggEpsn =
        system.switch.aggEpsn := by
      funext other
      rcases moved other with unchanged | ⟨rfl, -⟩
      · exact unchanged
      · exact stays
    rwa [same]
  · have grown : (packetHandler system.switch rank packet).1.aggEpsn =
        advance system.switch.aggEpsn rank := by
      funext other
      by_cases own : other = rank
      · subst own
        rw [advance_self]
        rcases moved other with unchanged | ⟨-, grown⟩
        · exact absurd unchanged stays
        · exact grown
      · rw [advance_of_ne own]
        exact (moved other).resolve_right fun ⟨same, _⟩ => own same
    rw [grown]
    exact spread.advance paced

theorem paced (wired : Wired cluster system) (bound : rank < cluster.hosts)
    (fits : (cluster.job rank).stream.length ≤ 2 ^ 24)
    (present : (system.up rank)[system.accepted rank]? =
      some (segment, packet))
    (within : system.WithinRing cluster (.handle rank)) :
    Paced cluster.hosts switchArrayLength system.switch.aggEpsn rank := by
  have streamed := wired.up_stream present
  rw [wired.accepted rank bound] at streamed
  have inStream := (List.getElem?_eq_some_iff.mp streamed).1
  exact within.resolve_left (Nat.not_le.mpr (inStream.trans_le fits))

theorem step {event : System.Event}
    (short : ∀ call ∈ cluster.program, call.len.toNat < 2 ^ 31)
    (reduces : cluster.ReducesTo root)
    (fits : ∀ rank < cluster.hosts,
      (cluster.job rank).stream.length ≤ 2 ^ 24)
    (reducing : Reducing cluster system)
    (within : system.WithinRing cluster event)
    (stepped : System.step cluster system event = some next) :
    Reducing cluster next := by
  have wired := reducing.ordinary.delivering.posted.wired
  have spread := reducing.spread
  have prepared := reducing.prepared_of_withinRing reduces fits
    (by rw [stepped]; nofun) within
  refine ⟨reducing.ordinary.step short ?_ prepared stepped, ?_⟩
  · rintro rank ⟨call, member, receives⟩
    rw [reduces call member] at receives
    exact reduces.oneWay (of_decide_eq_false receives)
  · cases System.moved_of_step stepped with
    | host => exact spread
    | transmit => exact spread
    | refused bound present =>
        exact spread_handled spread
          (paced wired bound (fits _ bound) present within)
    | handled bound present =>
        exact spread_handled spread
          (paced wired bound (fits _ bound) present within)
    | sendCompletes => exact spread
    | acknowledge bound origin opcode =>
        have same := (wired.acknowledge bound origin opcode).1.aggEpsn
        exact same ▸ spread
    | deliver bound present received =>
        obtain ⟨switch, -⟩ := received.apart
        exact switch ▸ spread

end Reducing

/-- Reduces to one root: as long as no rank gets a whole ring ahead of another,
every rank keeps to its buffers and a Reduce that has returned has left the sum
over all ranks on the root. -/
theorem reduces_sum (cluster : Cluster) (root : Nat) (ctx : SwitchContext)
    (fresh : cluster.Fresh ctx) (reduces : cluster.ReducesTo root)
    (room : cluster.MessagesFit)
    (short : ∀ call ∈ cluster.program, call.len.toNat < 2 ^ 31)
    (fits : ∀ rank < cluster.hosts,
      (cluster.job rank).stream.length ≤ 2 ^ 24)
    (events : List System.Event) (system : System)
    (taken : run (System.step cluster) (.init ctx) events = some system)
    (within : Meets (System.step cluster)
      (fun state event => state.WithinRing cluster event) (.init ctx) events) :
    system.Confined cluster ∧
      ∀ number call, (system.hosts root).stages = none →
        (system.hosts root).calls = number + 1 →
        cluster.program[number]? = some call → ∀ index < call.len.toNat,
          (system.hosts root).dstData index =
            ∑ rank ∈ Finset.range cluster.hosts,
              cluster.srcData rank number index := by
  have reducing : Reducing cluster system :=
    run_invariant (Reducing cluster)
      (fun _ _ _ before within stepped =>
        before.step short reduces fits within stepped)
      (.init fresh) within taken
  refine ⟨System.confined_of_reachable room ⟨events, taken⟩, ?_⟩
  intro number call idle calls current index inside
  have collective := reduces call (List.mem_of_getElem? current)
  have bound : root < cluster.hosts := by
    have valid := Cluster.valid_of_call current
    rwa [collective] at valid
  have receives : call.collective.receives root = true := by
    rw [collective]
    exact decide_eq_true rfl
  have sum := (reducing.ordinary.delivering.answering root bound).returned
    number call idle calls current receives index inside
  rwa [collective, Collective.senders_of_aggregates rfl] at sum

/-- Two Reduces of one word to rank 1. -/
def twoReduces : Cluster :=
  .pair [⟨.reduce 1, 1⟩, ⟨.reduce 1, 1⟩] (by decide)

theorem reduces_sum_twoReduces :
    ∃ system, run (System.step twoReduces) (.init twoHosts.context)
        (reduceRun ++ reduceRun) = some system ∧
      system.Confined twoReduces ∧ (system.hosts 1).dstData 0 = 14 := by
  have shape : (run (System.step twoReduces) (.init twoHosts.context)
      (reduceRun ++ reduceRun)).map (fun system =>
        ((system.hosts 1).stages.isNone, (system.hosts 1).calls)) =
      some (true, 2) := by decide +kernel
  obtain ⟨system, taken, fields⟩ := Option.map_eq_some_iff.mp shape
  obtain ⟨idle, calls⟩ := Prod.mk.inj fields
  obtain ⟨confined, sums⟩ := reduces_sum twoReduces 1 twoHosts.context
    Cluster.pair_fresh (by unfold Cluster.ReducesTo; decide) (by decide)
    (by decide) (by decide +kernel) (reduceRun ++ reduceRun) system taken
    (by decide +kernel)
  exact ⟨system, taken, confined, sums 1 ⟨.reduce 1, 1⟩
    (Option.isNone_iff_eq_none.mp idle) calls rfl 0 (by decide)⟩

end IncEmulation
