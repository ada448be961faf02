import IncEmulation.Switch.Origins
import IncEmulation.Switch.Streams

/-!
# The sums in the aggregation slots

A slot in use belongs to one PSN and holds the sum of what has arrived under
it.  `aggregate` never looks at the PSN that a slot stores; the arrival flags
and the order of every child keep two PSNs apart.
-/

namespace IncEmulation.Switch

open Gather
open scoped UInt32.CommRing

/-- The number of packets that were taken of a connection. -/
def count (streams : Nat → List Packet) (conn : Nat) : Nat :=
  (streams conn).length

/-- The PSN in a slot of the ring, when it is in use. -/
def Globals.holds (globals : Globals) (cell : Nat) : Option Nat :=
  if cell < N.toNat ∧ (globals.aggBuffer cell).state = true then
    some (globals.aggBuffer cell).psn.toNat
  else
    none

/-- The slot of the PSN holds the sum of what has arrived under it. -/
structure Collected (globals : Globals) (streams : Nat → List Packet)
    (psn : Nat) : Prop where
  stored : (globals.aggBuffer (idx psn)).psn = psn
  degree : globals.aggDegree (idx psn) =
    (contributors fanIn (count streams) psn).card
  arrival : ∀ i < fanIn,
    globals.arrivalState i (idx psn) = true ↔ psn < count streams i
  words : ∀ i, 2 ≤ i ∨ 0 < psn →
    (globals.aggBuffer (idx psn)).buffer i =
      ∑ conn ∈ contributors fanIn (count streams) psn,
        contribution streams psn i conn
  shape : ∃ conn < fanIn, ∃ packet, (streams conn)[psn]? = some packet ∧
    (globals.aggBuffer (idx psn)).len = packet.dataLen ∧
      (globals.aggBuffer (idx psn)).packetType = packet.opcode
  metadata : psn = 0 → ∃ conn < fanIn, ∃ packet,
    (streams conn)[0]? = some packet ∧
      ∀ i < 2, (globals.aggBuffer (idx psn)).buffer i = packet.data i

/-- Every slot of the ring is empty or holds the sum of its PSN. -/
structure Collecting (globals : Globals) (streams : Nat → List Packet) :
    Prop where
  expected : ∀ i < fanIn, globals.aggEpsn i = count streams i
  occupied : Occupied fanIn N.toNat (count streams) globals.holds
  held : ∀ {cell psn}, globals.holds cell = some psn →
    Collected globals streams psn
  empty : ∀ cell < N.toNat, globals.holds cell = none →
    globals.aggBuffer cell = .zero ∧ globals.aggDegree cell = 0 ∧
      ∀ i < fanIn, globals.arrivalState i cell = false

section Cells

variable {globals next : Globals} {psn cell : Nat}

theorem idx_natCast (psn : Nat) : idx psn = (psn % N.toNat : Nat) := by
  rw [idx_eq_emod (Int.natCast_nonneg psn)]
  rfl

theorem holds_congr (buffer : next.aggBuffer cell = globals.aggBuffer cell) :
    next.holds cell = globals.holds cell := by
  unfold Globals.holds
  rw [buffer]

theorem holds_of_zero (zero : globals.aggBuffer cell = .zero) :
    globals.holds cell = none := by
  unfold Globals.holds
  rw [zero]
  exact if_neg fun both => Bool.noConfusion both.2

theorem holds_idx (state : (globals.aggBuffer (idx psn)).state = true)
    (stored : (globals.aggBuffer (idx psn)).psn = psn) :
    globals.holds (psn % N.toNat) = some psn := by
  rw [idx_natCast] at state stored
  unfold Globals.holds
  rw [if_pos ⟨Nat.mod_lt _ (by decide), state⟩, stored]
  rfl

end Cells

section Contribution

variable {streams : Nat → List Packet} {conn other psn i : Nat}
  {packet : Packet}

/-- The child has sent one more packet. -/
def extend (streams : Nat → List Packet) (conn : Nat) (packet : Packet) :
    Nat → List Packet :=
  Function.update streams conn (streams conn ++ [packet])

theorem count_extend :
    count (extend streams conn packet) = advance (count streams) conn := by
  funext other
  by_cases same : other = conn
  · rw [same]
    simp [count, extend]
  · simp [count, extend, same, advance_of_ne same]

theorem getElem?_extend_of_some (found : (streams other)[psn]? = some packet)
    (last : Packet) :
    (extend streams conn last other)[psn]? = some packet := by
  by_cases same : other = conn
  · subst same
    rw [extend, Function.update_self,
      List.getElem?_append_left (List.getElem?_eq_some_iff.mp found).1, found]
  · rw [extend, Function.update_of_ne same, found]

theorem getElem?_extend_self :
    (extend streams conn packet conn)[count streams conn]? = some packet := by
  simp [extend, count]

theorem contribution_extend_self :
    contribution (extend streams conn packet) (count streams conn) i conn =
      packet.wordAt i := by
  rw [contribution, getElem?_extend_self]

theorem contribution_extend_of_passed (passed : psn < count streams other) :
    contribution (extend streams conn packet) psn i other =
      contribution streams psn i other := by
  have found := List.getElem?_eq_getElem passed
  rw [contribution, getElem?_extend_of_some found, contribution, found]

theorem sum_extend_self (bound : conn < fanIn) :
    ∑ each ∈ contributors fanIn (count (extend streams conn packet))
        (count streams conn),
          contribution (extend streams conn packet) (count streams conn) i
            each =
      ∑ each ∈ contributors fanIn (count streams) (count streams conn),
        contribution streams (count streams conn) i each +
          packet.wordAt i := by
  rw [count_extend, sum_contributors_advance bound, contribution_extend_self]
  congr 1
  exact Finset.sum_congr rfl fun each member =>
    contribution_extend_of_passed (mem_contributors.mp member).2

theorem sum_extend_of_ne (different : psn ≠ count streams conn) :
    ∑ each ∈ contributors fanIn (count (extend streams conn packet)) psn,
        contribution (extend streams conn packet) psn i each =
      ∑ each ∈ contributors fanIn (count streams) psn,
        contribution streams psn i each := by
  rw [count_extend, contributors_advance_of_ne different]
  exact Finset.sum_congr rfl fun each member =>
    contribution_extend_of_passed (mem_contributors.mp member).2

end Contribution

/-! ## A packet arrives -/

section Arrival

variable {config : Config} {globals next : Globals}
  {streams : Nat → List Packet} {conn psn i : Nat} {packet : Packet}

theorem buffer_gather {input : Contribution}
    (counts : 2 ≤ i ∨ input.psn ≠ 0) :
    ((gather globals input).aggBuffer (idx input.psn)).buffer i =
      if globals.aggDegree (idx input.psn) = 0 then
        if i < input.len then input.data i
        else (globals.aggBuffer (idx input.psn)).buffer i
      else
        (globals.aggBuffer (idx input.psn)).buffer i +
          if i < input.len then input.data i else 0 := by
  simp only [gather, Function.update_self]
  by_cases first : globals.aggDegree (idx input.psn) = 0
  · rw [if_pos first, if_pos first]
    by_cases isZero : input.psn = 0
    · have late : ¬i < 2 := by omega
      rw [if_pos isZero]
      simp only [late, false_or]
    · rw [if_neg isZero]
  · rw [if_neg first, if_neg first]
    have added : (if input.psn = 0 then 2 else 0) ≤ i := by
      split
      · omega
      · omega
    simp only [addPayload, added, true_and]
    split
    · rfl
    · rw [add_zero]

theorem metadata_gather {input : Contribution} (isZero : input.psn = 0)
    (inFront : i < 2) :
    ((gather globals input).aggBuffer (idx input.psn)).buffer i =
      if globals.aggDegree (idx input.psn) = 0 then input.data i
      else (globals.aggBuffer (idx input.psn)).buffer i := by
  simp only [gather, Function.update_self]
  by_cases first : globals.aggDegree (idx input.psn) = 0
  · rw [if_pos first, if_pos first, if_pos isZero]
    exact if_pos (Or.inl inFront)
  · rw [if_neg first, if_neg first, if_pos isZero]
    exact if_neg fun both => absurd inFront (not_lt.mpr both.1)

theorem buffer_gathered (counts : 2 ≤ i ∨ 0 < packet.psn) :
    ((gathered config globals conn packet).aggBuffer (idx packet.psn)).buffer
        i =
      if globals.aggDegree (idx packet.psn) = 0 then
        if i < packet.dataLen then packet.data i
        else (globals.aggBuffer (idx packet.psn)).buffer i
      else
        (globals.aggBuffer (idx packet.psn)).buffer i + packet.wordAt i := by
  have counts' : 2 ≤ i ∨ (packet.psn : Int) ≠ 0 := by omega
  exact @buffer_gather (accept globals conn packet) i
    (contributionOf config globals packet) counts'

theorem metadata_gathered (isZero : packet.psn = 0) (inFront : i < 2) :
    ((gathered config globals conn packet).aggBuffer (idx packet.psn)).buffer
        i =
      if globals.aggDegree (idx packet.psn) = 0 then packet.data i
      else (globals.aggBuffer (idx packet.psn)).buffer i := by
  have isZero' : (packet.psn : Int) = 0 := by omega
  exact @metadata_gather (accept globals conn packet) i
    (contributionOf config globals packet) isZero' inFront

theorem shape_gathered :
    let slot := (gathered config globals conn packet).aggBuffer
      (idx packet.psn)
    slot.state = true ∧ slot.psn = packet.psn ∧ slot.len = packet.dataLen ∧
      slot.packetType = packet.opcode := by
  simp [gathered, gather, contributionOf]

/-- What a slot holds when the next packet of a child is added. -/
structure Before (globals : Globals) (streams : Nat → List Packet)
    (conn : Nat) : Prop where
  degree : globals.aggDegree (idx (count streams conn)) =
    (contributors fanIn (count streams) (count streams conn)).card
  arrival : ∀ i < fanIn,
    globals.arrivalState i (idx (count streams conn)) = true ↔
      count streams conn < count streams i
  words : ∀ i, 2 ≤ i ∨ 0 < count streams conn →
    (globals.aggBuffer (idx (count streams conn))).buffer i =
      ∑ each ∈ contributors fanIn (count streams) (count streams conn),
        contribution streams (count streams conn) i each
  metadata : globals.aggDegree (idx (count streams conn)) ≠ 0 →
    count streams conn = 0 → ∃ each < fanIn, ∃ packet,
      (streams each)[0]? = some packet ∧ ∀ i < 2,
        (globals.aggBuffer (idx (count streams conn))).buffer i =
          packet.data i

theorem Collecting.admitted (collecting : Collecting globals streams)
    (isChild : conn < fanIn)
    (first : globals.arrivalState conn (idx (count streams conn)) = false)
    (held : globals.holds (count streams conn % N.toNat) = some psn) :
    count streams conn ≤ psn := by
  by_contra before
  have collected := collecting.held held
  have sameCell : idx psn = idx (count streams conn) := by
    rw [idx_natCast, idx_natCast, collecting.occupied.place held]
  have arrived := (collected.arrival conn isChild).mpr (not_le.mp before)
  rw [sameCell, first] at arrived
  cases arrived

theorem Collecting.before (collecting : Collecting globals streams)
    (isChild : conn < fanIn)
    (first : globals.arrivalState conn (idx (count streams conn)) = false) :
    Before globals streams conn := by
  have bound : count streams conn % N.toNat < N.toNat :=
    Nat.mod_lt _ (by decide)
  cases held : globals.holds (count streams conn % N.toNat) with
  | none =>
      obtain ⟨zero, degree, unmarked⟩ := collecting.empty _ bound held
      rw [← idx_natCast] at zero degree
      have nobody := collecting.occupied.contributors_eq_empty isChild held
      refine ⟨?_, ?_, ?_, fun used => absurd degree used⟩
      · rw [degree, nobody, Finset.card_empty]
      · intro i bound
        have absent : i ∉ contributors fanIn (count streams)
            (count streams conn) := by
          rw [nobody]
          exact Finset.notMem_empty i
        rw [mem_contributors] at absent
        rw [idx_natCast, unmarked i bound]
        exact iff_of_false Bool.false_ne_true fun passed =>
          absent ⟨bound, passed⟩
      · intro i _
        rw [zero, nobody, Finset.sum_empty]
        rfl
  | some psn =>
      have same : psn = count streams conn :=
        collecting.occupied.eq_of_admitted isChild held
          (collecting.admitted isChild first held)
      subst same
      have collected := collecting.held held
      exact ⟨collected.degree, collected.arrival, collected.words,
        fun _ isZero => collected.metadata isZero⟩

/-- The sum of the PSN has the packet in it. -/
theorem Before.collected (before : Before globals streams conn)
    (isChild : conn < fanIn) (isNext : packet.psn = count streams conn)
    (zero : globals.aggDegree (idx packet.psn) = 0 →
      globals.aggBuffer (idx packet.psn) = .zero) :
    Collected (gathered config globals conn packet)
      (extend streams conn packet) packet.psn := by
  obtain ⟨state, stored, len, packetType⟩ :=
    @shape_gathered config globals conn packet
  obtain ⟨degree, arrival, words, metadata⟩ := before
  rw [← isNext] at degree arrival words metadata
  have own : (extend streams conn packet conn)[packet.psn]? = some packet := by
    rw [isNext]
    exact getElem?_extend_self
  refine ⟨stored, ?_, ?_, ?_, ⟨conn, isChild, packet, own, len, packetType⟩,
    ?_⟩
  · rw [aggDegree_gathered, Function.update_self, degree, count_extend, isNext,
      contributors_advance_self _ isChild,
      Finset.card_insert_of_notMem notMem_contributors_self]
  · intro i bound
    have flag := congrFun (@arrivalState_gathered config globals conn packet
      (idx packet.psn)) i
    rw [if_pos rfl] at flag
    rw [flag, count_extend]
    by_cases same : i = conn
    · rw [same, Function.update_self, advance_self]
      exact iff_of_true rfl (by omega)
    · rw [Function.update_of_ne same, advance_of_ne same]
      exact arrival i bound
  · intro i counts
    have sum := @sum_extend_self streams conn i packet isChild
    rw [← isNext] at sum
    rw [sum, ← words i counts, buffer_gathered counts]
    split
    · rename_i first
      rw [zero first]
      simp only [Packet.wordAt, AggBuffer.zero, zero_add]
    · rfl
  · intro isZero
    by_cases first : globals.aggDegree (idx packet.psn) = 0
    · rw [isZero] at own
      refine ⟨conn, isChild, packet, own, fun i inFront => ?_⟩
      rw [metadata_gathered isZero inFront, if_pos first]
    · obtain ⟨each, bound, head, found, same⟩ := metadata first isZero
      refine ⟨each, bound, head, getElem?_extend_of_some found packet, ?_⟩
      intro i inFront
      rw [metadata_gathered isZero inFront, if_neg first]
      exact same i inFront

theorem idx_ne_of_ne (apart : psn % N.toNat ≠ packet.psn % N.toNat) :
    idx (psn : Int) ≠ idx packet.psn := by
  rw [idx_natCast, idx_natCast]
  exact fun same => apart (Int.ofNat_inj.mp same)

theorem Collected.keep (collected : Collected globals streams psn)
    (isNext : packet.psn = count streams conn)
    (apart : psn % N.toNat ≠ packet.psn % N.toNat) :
    Collected (gathered config globals conn packet)
      (extend streams conn packet) psn := by
  have apart' := idx_ne_of_ne apart
  have different : psn ≠ count streams conn := by
    rintro rfl
    exact apart (by rw [isNext])
  obtain ⟨buffer, degree⟩ :=
    @aggBuffer_gathered_of_ne config globals conn packet (idx psn) apart'
  refine ⟨?_, ?_, ?_, ?_, ?_, ?_⟩
  · rw [buffer]
    exact collected.stored
  · rw [degree, count_extend, contributors_advance_of_ne different]
    exact collected.degree
  · intro i bound
    have flag := congrFun (@arrivalState_gathered config globals conn packet
      (idx psn)) i
    rw [if_neg apart'] at flag
    rw [flag, count_extend, lt_advance_iff different]
    exact collected.arrival i bound
  · intro i counts
    rw [buffer, sum_extend_of_ne different]
    exact collected.words i counts
  · obtain ⟨each, bound, head, found, same⟩ := collected.shape
    rw [buffer]
    exact ⟨each, bound, head, getElem?_extend_of_some found packet, same⟩
  · intro isZero
    obtain ⟨each, bound, head, found, same⟩ := collected.metadata isZero
    rw [buffer]
    exact ⟨each, bound, head, getElem?_extend_of_some found packet, same⟩

theorem Fresh.psn_eq (fresh : Fresh globals conn packet)
    (collecting : Collecting globals streams) :
    packet.psn = count streams conn := by
  have expected := collecting.expected conn fresh.isChild
  rw [fresh.next] at expected
  exact Int.ofNat_inj.mp expected

theorem Collecting.contribute (collecting : Collecting globals streams)
    (fresh : Fresh globals conn packet) :
    Collecting (gathered config globals conn packet)
      (extend streams conn packet) := by
  have isNext := fresh.psn_eq collecting
  have first := fresh.first
  rw [isNext] at first
  obtain ⟨state, stored, -⟩ := @shape_gathered config globals conn packet
  have own := holds_idx state stored
  have apart : ∀ cell, cell ≠ packet.psn % N.toNat →
      (cell : Int) ≠ idx packet.psn := by
    intro cell different same
    rw [idx_natCast] at same
    exact different (Int.ofNat_inj.mp same)
  have others : ∀ cell, cell ≠ packet.psn % N.toNat →
      (gathered config globals conn packet).holds cell =
        globals.holds cell := fun cell different =>
    holds_congr (aggBuffer_gathered_of_ne (apart cell different)).1
  have occupied : Occupied fanIn N.toNat (advance (count streams) conn)
      (gathered config globals conn packet).holds := by
    refine collecting.occupied.advance fresh.isChild
      (fun psn held => collecting.admitted fresh.isChild first held) ?_ ?_
    · rw [← isNext]
      exact own
    · rw [← isNext]
      exact others
  refine ⟨?_, count_extend ▸ occupied, ?_, ?_⟩
  · intro i bound
    rw [count_extend]
    by_cases same : i = conn
    · subst same
      have expected := collecting.expected i bound
      simp only [gathered, gather, accept, Function.update_self, advance_self]
      rw [expected]
      push_cast
      rfl
    · simp only [gathered, gather, accept, Function.update_of_ne same,
        advance_of_ne same]
      exact collecting.expected i bound
  · intro cell psn held
    by_cases isOwn : cell = packet.psn % N.toNat
    · rw [isOwn, own] at held
      obtain rfl := Option.some.inj held
      refine (collecting.before fresh.isChild first).collected fresh.isChild
        isNext fun degree => ?_
      -- A slot in use has somebody's packet in it.
      have bound : packet.psn % N.toNat < N.toNat :=
        Nat.mod_lt _ (by decide)
      rw [idx_natCast] at degree ⊢
      cases held : globals.holds (packet.psn % N.toNat) with
      | none => exact (collecting.empty _ bound held).1
      | some psn =>
          have collected := collecting.held held
          obtain ⟨other, otherBound, passed⟩ :=
            collecting.occupied.started held
          have sameCell := collecting.occupied.place held
          have used := collected.degree
          rw [idx_natCast, sameCell, degree] at used
          have nobody := Finset.card_eq_zero.mp used.symm
          exact absurd (mem_contributors.mpr ⟨otherBound, passed⟩)
            (nobody ▸ Finset.notMem_empty other)
    · rw [others cell isOwn] at held
      refine (collecting.held held).keep isNext ?_
      rw [collecting.occupied.place held]
      exact isOwn
  · intro cell bound free
    by_cases isOwn : cell = packet.psn % N.toNat
    · rw [isOwn, own] at free
      cases free
    · rw [others cell isOwn] at free
      obtain ⟨zero, degree, unmarked⟩ := collecting.empty cell bound free
      obtain ⟨buffer, degree'⟩ := @aggBuffer_gathered_of_ne config globals
        conn packet cell (apart cell isOwn)
      refine ⟨buffer.trans zero, degree'.trans degree, fun i isChild => ?_⟩
      have flag := congrFun (@arrivalState_gathered config globals conn
        packet cell) i
      rw [if_neg (apart cell isOwn)] at flag
      exact flag.trans (unmarked i isChild)

theorem Collecting.full_iff (collecting : Collecting globals streams)
    (fresh : Fresh globals conn packet) :
    (gathered config globals conn packet).aggDegree (idx packet.psn) = fanIn ↔
      ∀ other < fanIn, other ≠ conn →
        count streams conn < count streams other := by
  have isNext := fresh.psn_eq collecting
  have first := fresh.first
  rw [isNext] at first
  rw [aggDegree_gathered, Function.update_self, isNext,
    (collecting.before fresh.isChild first).degree,
    card_contributors_succ_eq_iff fresh.isChild]

end Arrival

/-! ## Slots are cleared -/

section Clearing

variable {config : Config} {memory globals next : Globals}
  {streams : Nat → List Packet} {psn : Nat} {high : Int}

theorem Collected.congr (collected : Collected globals streams psn)
    (buffer : next.aggBuffer (idx psn) = globals.aggBuffer (idx psn))
    (degree : next.aggDegree (idx psn) = globals.aggDegree (idx psn))
    (arrival : ∀ i, next.arrivalState i (idx psn) =
      globals.arrivalState i (idx psn)) : Collected next streams psn := by
  refine ⟨?_, degree.trans collected.degree, ?_, ?_, ?_, ?_⟩
  · rw [buffer]
    exact collected.stored
  · intro i bound
    rw [arrival]
    exact collected.arrival i bound
  · rw [buffer]
    exact collected.words
  · rw [buffer]
    exact collected.shape
  · rw [buffer]
    exact collected.metadata

theorem Collecting.clear (collecting : Collecting globals streams)
    (change : ClearChange globals high next)
    (passed : ∀ i < fanIn, high < count streams i) :
    Collecting next streams := by
  have aggEpsn : next.aggEpsn = globals.aggEpsn := by rw [change.frame]
  have kept : ∀ {cell psn}, next.holds cell = some psn →
      globals.holds cell = some psn ∧ Collected next streams psn := by
    intro cell psn held
    rcases change.slots cell with ⟨buffer, degree, arrival⟩ | ⟨zero, -⟩
    · rw [holds_congr buffer] at held
      have place := collecting.occupied.place held
      have sameCell : idx (psn : Int) = cell := by rw [idx_natCast, place]
      refine ⟨held, (collecting.held held).congr ?_ ?_ ?_⟩
      · rw [sameCell]
        exact buffer
      · rw [sameCell]
        exact degree
      · rw [sameCell]
        exact arrival
    · rw [holds_of_zero zero] at held
      cases held
  refine ⟨?_, ?_, fun held => (kept held).2, ?_⟩
  · rw [aggEpsn]
    exact collecting.expected
  · refine collecting.occupied.clear fun cell => ?_
    rcases change.slots cell with ⟨buffer, -⟩ | ⟨zero, -, -, below⟩
    · exact Or.inl (holds_congr buffer)
    · refine Or.inr ⟨holds_of_zero zero, fun psn held other bound => ?_⟩
      have stored := (collecting.held held).stored
      rw [idx_natCast, collecting.occupied.place held] at stored
      have := passed other bound
      omega
  · intro cell bound free
    rcases change.slots cell with ⟨buffer, degree, arrival⟩ |
      ⟨zero, degree, unmarked, -⟩
    · rw [holds_congr buffer] at free
      obtain ⟨zero, noDegree, unmarked⟩ := collecting.empty cell bound free
      exact ⟨buffer.trans zero, degree.trans noDegree,
        fun i isChild => (arrival i).trans (unmarked i isChild)⟩
    · exact ⟨zero, degree, unmarked⟩

theorem Collecting.congr (collecting : Collecting globals streams)
    (aggBuffer : next.aggBuffer = globals.aggBuffer)
    (aggDegree : next.aggDegree = globals.aggDegree)
    (arrivalState : next.arrivalState = globals.arrivalState)
    (aggEpsn : next.aggEpsn = globals.aggEpsn) : Collecting next streams := by
  have holds : next.holds = globals.holds := by
    funext cell
    exact holds_congr (congrFun aggBuffer cell)
  refine ⟨?_, ?_, ?_, ?_⟩
  · rw [aggEpsn]
    exact collecting.expected
  · rw [holds]
    exact collecting.occupied
  · intro cell psn held
    rw [holds] at held
    exact (collecting.held held).congr (congrFun aggBuffer _)
      (congrFun aggDegree _) fun i => congrFun (congrFun arrivalState i) _
  · intro cell bound free
    rw [holds] at free
    rw [aggBuffer, aggDegree, arrivalState]
    exact collecting.empty cell bound free

theorem collecting_initAll (nothing : ∀ i < fanIn, streams i = []) :
    Collecting (initAll config memory) streams := by
  have none : ∀ i < fanIn, count streams i = 0 := by
    intro i bound
    rw [count, nothing i bound]
    rfl
  have inside : ∀ cell < N.toNat, InRing (cell : Int) := by
    intro cell bound
    exact ⟨Int.natCast_nonneg cell, Int.ofNat_lt.mpr bound⟩
  have zero : ∀ cell < N.toNat,
      (initAll config memory).aggBuffer cell = .zero := by
    intro cell bound
    simp only [initAll, inside cell bound, if_true]
  have free : (initAll config memory).holds = fun _ => Option.none := by
    funext cell
    by_cases bound : cell < N.toNat
    · exact holds_of_zero (zero cell bound)
    · unfold Globals.holds
      exact if_neg fun both => bound both.1
  refine ⟨?_, ?_, ?_, ?_⟩
  · intro i bound
    rw [none i bound]
    rfl
  · rw [free]
    exact Occupied.empty _ none
  · intro cell psn held
    rw [free] at held
    cases held
  · intro cell bound _
    refine ⟨zero cell bound, ?_, fun i _ => ?_⟩
    · simp only [initAll, inside cell bound, if_true]
    · simp only [initAll, inside cell bound, if_true]

end Clearing

end IncEmulation.Switch
