import IncEmulation.Receiver

/-!
# Streams longer than the PSN space

A PSN on the wire has 24 bits, `agg_epsn` keeps counting.  The two agree as long
as the stream has at most `2 ^ 24` packets; packet number `2 ^ 24` carries PSN 0
again and is taken for an old duplicate.
-/

namespace IncEmulation

open Gather Machine

/-- The number of PSNs on the wire. -/
def psnSpace : Nat := 2 ^ 24

/-- The packet is accepted, aggregated and counted. -/
def Accepted (ctx : SwitchContext) (conn : Nat) (packet : Packet) : Prop :=
  TakesEffect ctx conn packet ∧
    (packetHandler ctx conn packet).1.aggEpsn = advance ctx.aggEpsn conn

/-- The stream under study arrives in order. -/
def ownNumbers (arrivals : List StreamArrival) : List Nat :=
  arrivals.filterMap fun
    | .own k => some k
    | .foreign _ _ => none

/-- The handler treats the stream as a receiver with unbounded sequence numbers
does, and packets less than a ring apart use different slots. -/
def HandlesUnbounded (conn : Nat) (stream : Nat → Packet) (length : Nat)
    (ctx : SwitchContext) (arrivals : List StreamArrival) : Prop :=
  Admits (handleArrival conn stream) (OnOwn conn stream Accepted) ctx
      arrivals ∧
    ∀ first second, first < second → second < length →
      second < first + switchArrayLength →
        idx (stream first).psn ≠ idx (stream second).psn

section InOrder

variable {conn length : Nat} {stream : Nat → Packet} {ctx : SwitchContext}

/-- The next packet is accepted exactly before the wrap-around. -/
theorem accepted_iff {k : Nat} {packet : Packet}
    (psn : packet.psn = k % psnSpace) (plain : packet.Plain)
    (matched : packet.Matched ctx conn) (next : ctx.aggEpsn conn = k) :
    Accepted ctx conn packet ↔ k < psnSpace := by
  have positive : 0 < psnSpace := by decide
  constructor
  · rintro ⟨-, moved⟩
    by_contra wrapped
    have outOfTurn : packet.psn ≠ ctx.aggEpsn conn := by
      rw [psn, next]
      have small := Nat.mod_lt k positive
      omega
    have handled := packetHandler_matched_outOfTurn matched plain.isSend
      plain.not_control outOfTurn
    have same := congrFun moved conn
    rw [handled, storeMetadata_aggEpsn, advance_self] at same
    omega
  · intro small
    apply takesEffect_of_matched matched plain.isSend
    rw [psn, next, Nat.mod_eq_of_lt small]

/-- A run that starts with packet number `start` accepts everything exactly
when it ends before the wrap-around. -/
theorem admits_accepted_iff (psn : ∀ k < length, (stream k).psn = k % psnSpace)
    (plain : ∀ k < length, (stream k).Plain)
    {start count : Nat} {arrivals : List StreamArrival}
    (next : ctx.aggEpsn conn = start) (unwrapped : start ≤ psnSpace)
    (inOrder : ownNumbers arrivals = List.range' start count)
    (arrive : Admits (handleArrival conn stream) (Arrives conn stream length)
      ctx arrivals) :
    Admits (handleArrival conn stream) (OnOwn conn stream Accepted) ctx
        arrivals ↔
      start + count ≤ psnSpace := by
  induction arrivals generalizing ctx start count with
  | nil =>
      have empty : count = 0 := by
        cases count with
        | zero => rfl
        | succ count => simp [ownNumbers, List.range'_succ] at inOrder
      simpa [empty] using unwrapped
  | cons arrival arrivals induction =>
      obtain ⟨arrives, later⟩ := arrive
      cases arrival with
      | foreign other packet =>
          have sameNext : (handleArrival conn stream ctx
              (.foreign other packet)).1.aggEpsn conn = start := by
            rw [handleArrival, packetHandler_aggEpsn_of_ne packet
              (Ne.symm arrives), next]
          rw [admits_cons, induction sameNext unwrapped inOrder later]
          exact and_iff_right trivial
      | own k =>
          obtain ⟨inStream, matched⟩ := arrives
          cases count with
          | zero => simp [ownNumbers] at inOrder
          | succ count =>
              have split : k = start ∧
                  ownNumbers arrivals = List.range' (start + 1) count := by
                simpa [ownNumbers, List.range'_succ] using inOrder
              obtain ⟨rfl, rest⟩ := split
              have here := accepted_iff (psn k inStream) (plain k inStream)
                matched next
              rw [admits_cons]
              by_cases small : k < psnSpace
              · have accepted := here.mpr small
                have moved :
                    (handleArrival conn stream ctx (.own k)).1.aggEpsn conn =
                      k + 1 := by
                  simp only [handleArrival, accepted.2, advance_self, next]
                rw [induction moved small rest later]
                simp only [OnOwn, accepted, true_and]
                omega
              · have refused : ¬Accepted ctx conn (stream k) :=
                  fun accepted => small (here.mp accepted)
                simp only [OnOwn, refused, false_and, false_iff]
                omega

theorem idx_ne_of_near (psn : ∀ k < length, (stream k).psn = k % psnSpace)
    (fits : length ≤ psnSpace) {first second : Nat} (less : first < second)
    (bound : second < length) (near : second < first + switchArrayLength) :
    idx (stream first).psn ≠ idx (stream second).psn := by
  rw [psn first (by omega), psn second bound,
    Nat.mod_eq_of_lt (by omega : first < psnSpace),
    Nat.mod_eq_of_lt (by omega : second < psnSpace)]
  intro same
  have divides : switchArrayLength ∣ second - first :=
    (Nat.modEq_iff_dvd' less.le).mp same
  have small := Nat.le_of_dvd (by omega) divides
  omega

end InOrder

/-- For every in-order stream, whatever happens on other connections, the
handler simulates unbounded sequence numbers exactly when the stream fits into
the PSN space. -/
theorem handlesUnbounded_iff {conn length : Nat} {stream : Nat → Packet}
    {ctx : SwitchContext} {arrivals : List StreamArrival}
    (psn : ∀ k < length, (stream k).psn = k % psnSpace)
    (plain : ∀ k < length, (stream k).Plain)
    (fresh : ctx.aggEpsn conn = 0)
    (inOrder : ownNumbers arrivals = List.range length)
    (arrive : Admits (handleArrival conn stream) (Arrives conn stream length)
      ctx arrivals) :
    HandlesUnbounded conn stream length ctx arrivals ↔ length ≤ psnSpace := by
  rw [List.range_eq_range'] at inOrder
  have accepts := admits_accepted_iff psn plain fresh (Nat.zero_le _) inOrder
    arrive
  rw [Nat.zero_add] at accepts
  constructor
  · rintro ⟨accepted, -⟩
    exact accepts.mp accepted
  · intro fits
    exact ⟨accepts.mpr fits, fun first second less bound near =>
      idx_ne_of_near psn fits less bound near⟩

/-- Rank 0 of two hosts sends data packets of one word without end. -/
def endlessStream (k : Nat) : Packet :=
  twoHosts.addressing.dataPacket 0 k rdmaOpcodeSendOnly [htonl 1]

theorem endlessStream_plain (k : Nat) : (endlessStream k).Plain := ⟨rfl, rfl⟩

theorem endlessStream_psn (k : Nat) :
    (endlessStream k).psn = k % psnSpace := Addressing.dataPacket_psn

theorem endlessStream_arrives {length : Nat} {ctx : SwitchContext}
    (numbers : List Nat) (inStream : ∀ k ∈ numbers, k < length)
    (deployed : Deployed twoHosts.addressing 2 ctx)
    (inForce : ctx.InForce .allreduce) :
    Admits (handleArrival 0 endlessStream) (Arrives 0 endlessStream length)
      ctx (numbers.map .own) := by
  induction numbers generalizing ctx with
  | nil => trivial
  | cons k numbers induction =>
      have matched := (endlessStream_plain k).matched deployed
        (show 0 < 2 by decide) ⟨rfl, rfl⟩ inForce trivial
      refine ⟨⟨inStream k (by simp), matched⟩, ?_⟩
      exact induction (fun later member => inStream later (by simp [member]))
        (deployed.congr (packetHandler_configuration 0 (endlessStream k)))
        (packetHandler_inForce 0 (endlessStream_plain k).hasImmData inForce)

theorem ownNumbers_map_own (numbers : List Nat) :
    ownNumbers (numbers.map .own) = numbers := by
  simp [ownNumbers, List.filterMap_map]

theorem handlesUnbounded_iff_endlessStream :
    HandlesUnbounded 0 endlessStream 3 twoHosts.context
        ((List.range 3).map .own) ↔
      3 ≤ psnSpace :=
  handlesUnbounded_iff (fun k _ => endlessStream_psn k)
    (fun k _ => endlessStream_plain k) rfl (ownNumbers_map_own _)
    (endlessStream_arrives _ (fun _ member => List.mem_range.mp member)
      (twoHosts.context_configured.deployed (by decide)) rfl)

theorem endlessStream_wraps {length : Nat} (long : psnSpace < length) :
    Admits (handleArrival 0 endlessStream) (Arrives 0 endlessStream length)
        twoHosts.context ((List.range length).map .own) ∧
      ¬HandlesUnbounded 0 endlessStream length twoHosts.context
        ((List.range length).map .own) := by
  have arrive := endlessStream_arrives (List.range length)
    (fun _ member => List.mem_range.mp member)
    (twoHosts.context_configured.deployed (by decide)) rfl
  refine ⟨arrive, ?_⟩
  rintro ⟨accepted, -⟩
  have fits := (admits_accepted_iff (fun k _ => endlessStream_psn k)
    (fun k _ => endlessStream_plain k) rfl (Nat.zero_le _)
    ((ownNumbers_map_own _).trans List.range_eq_range') arrive).mp accepted
  omega

/-- One packet more than there are PSNs.  The list is far too long to be
unfolded. -/
@[irreducible]
def wrappingArrivals : List StreamArrival :=
  (List.range (psnSpace + 1)).map .own

theorem not_handlesUnbounded_wrappingArrivals :
    Admits (handleArrival 0 endlessStream)
        (Arrives 0 endlessStream (psnSpace + 1)) twoHosts.context
        wrappingArrivals ∧
      ¬HandlesUnbounded 0 endlessStream (psnSpace + 1) twoHosts.context
        wrappingArrivals := by
  unfold wrappingArrivals
  exact endlessStream_wraps (Nat.lt_succ_self psnSpace)

end IncEmulation
