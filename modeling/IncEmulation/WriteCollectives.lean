import IncEmulation.Host
import IncEmulation.Lib.Scatter

/-!
# The collectives over RDMA WRITE (`api.c`)

Each function cuts the source array into messages, and the other side unpacks
the messages in the order in which their completions are polled.  What arrives
is what some message covers.
-/

namespace IncEmulation

open Scatter

/-- `message_num` of both functions. -/
def writeMessageNum (len : Word) : Nat := len.toNat / payloadCount

section Allreduce

/-- Message `idx` as `post_send` packs it. -/
def postSend (srcData : Int → Word) (idx : Nat) : List Word :=
  (List.range payloadCount).map fun i =>
    htonl (srcData (idx * payloadCount + i : Nat))

def unpackAllreduce (idx : Nat) (pack : List Word) (dstData : Int → Word) :
    Int → Word :=
  (List.range payloadCount).foldl
    (fun dstData j =>
      Function.update dstData (idx * payloadCount + j : Nat)
        (ntohl (pack.getD j 0)))
    dstData

/-- The destination once the messages have completed in `order`. -/
def incclAllreduceWrite (order : List Nat) (srcData dstData : Int → Word) :
    Int → Word :=
  order.foldl
    (fun dstData idx => unpackAllreduce idx (postSend srcData idx) dstData)
    dstData

end Allreduce

section Reduce

/-- `src_idx` of the packing loop and `dst_idx` of the unpacking loop. -/
def reduceIndex (i j : Nat) : Word :=
  if i = 0 then BitVec.ofNat 32 (j - 2)
  else BitVec.ofNat 32 (payloadCount - 2 + (i - 1) * payloadCount + j)

/-- The words of message `i` that hold data: the first message begins with two
words of metadata. -/
def reduceWords (i : Nat) : List Nat :=
  if i = 0 then List.range' 2 (payloadCount - 2) else List.range payloadCount

def reduceWord (srcData : Int → Word) (len : Word) (i j : Nat) : Word :=
  if reduceIndex i j < len then htonl (srcData (reduceIndex i j).toInt) else 0

def packReduce (srcData : Int → Word) (len rootRank : Word) (i : Nat) :
    List Word :=
  if i = 0 then
    htonl 1 :: htonl rootRank :: (reduceWords i).map (reduceWord srcData len i)
  else (reduceWords i).map (reduceWord srcData len i)

def unpackReduce (len : Word) (idx : Nat) (pack : List Word)
    (dstData : Int → Word) : Int → Word :=
  (reduceWords idx).foldl
    (fun dstData j =>
      if reduceIndex idx j < len then
        Function.update dstData (reduceIndex idx j).toInt
          (ntohl (pack.getD j 0))
      else dstData)
    dstData

/-- The destination of the root once the messages have completed in `order`.
Nothing is sent if `len` is no multiple of `PAYLOAD_COUNT`. -/
def incclReduceWrite (len rootRank : Word) (order : List Nat)
    (srcData dstData : Int → Word) : Int → Word :=
  if len.toNat % payloadCount = 0 then
    order.foldl
      (fun dstData idx =>
        unpackReduce len idx (packReduce srcData len rootRank idx) dstData)
      dstData
  else dstData

end Reduce

/-- Every element of the source arrives at its place. -/
def Carries (len : Word)
    (transfer : (Int → Word) → (Int → Word) → Int → Word) : Prop :=
  ∀ srcData dstData, ∀ index < len.toNat,
    transfer srcData dstData index = srcData index

/-- A transfer that copies words carries the elements that some step covers. -/
theorem carries_iff_covered {Step : Type} {len : Word}
    {transfer : (Int → Word) → (Int → Word) → Int → Word} {keep : Step → Prop}
    [DecidablePred keep] {position : Step → Int}
    {value : (Int → Word) → Step → Word} {steps : List Step}
    (scattered : ∀ srcData dstData, transfer srcData dstData =
      scatter keep position (value srcData) steps dstData)
    (copies : ∀ srcData, ∀ step ∈ steps, keep step →
      value srcData step = srcData (position step)) :
    Carries len transfer ↔
      ∀ index < len.toNat,
        ∃ step ∈ steps, keep step ∧ position step = index := by
  constructor
  · intro carries index inside
    by_contra uncovered
    have arrived := carries (fun _ => 0) (fun _ => 1) index inside
    rw [scattered, scatter_of_absent] at arrived
    · exact absurd arrived (by decide)
    · intro step member kept writes
      exact uncovered ⟨step, member, kept, writes⟩
  · intro covered srcData dstData index inside
    rw [scattered]
    exact scatter_source (copies srcData) (covered index inside)

section Coverage

variable {len rootRank : Word} {order : List Nat}

theorem mem_words {words : Nat → List Nat}
    (posted : order.Perm (List.range (writeMessageNum len))) {i j : Nat} :
    (i, j) ∈ order.flatMap (fun idx => (words idx).map (Prod.mk idx)) ↔
      i < writeMessageNum len ∧ j ∈ words i := by
  simp only [List.mem_flatMap, List.mem_map, Prod.mk.injEq, posted.mem_iff,
    List.mem_range]
  constructor
  · rintro ⟨idx, message, word, member, rfl, rfl⟩
    exact ⟨message, member⟩
  · rintro ⟨message, member⟩
    exact ⟨i, message, j, member, rfl, rfl⟩

theorem getD_postSend (srcData : Int → Word) (idx : Nat) {j : Nat}
    (word : j < payloadCount) :
    (postSend srcData idx).getD j 0 =
      htonl (srcData (idx * payloadCount + j : Nat)) := by
  simp [postSend, word]

/-- AllReduce drops what is left over after the last whole message. -/
theorem carries_incclAllreduceWrite
    (posted : order.Perm (List.range (writeMessageNum len))) :
    Carries len (incclAllreduceWrite order) ↔
      len.toNat % payloadCount = 0 := by
  have scattered (srcData dstData : Int → Word) :
      incclAllreduceWrite order srcData dstData = _ :=
    foldl_scatter (fun _ _ => True)
      (fun idx j => ((idx * payloadCount + j : Nat) : Int))
      (fun idx j => ntohl ((postSend srcData idx).getD j 0))
      (fun _ => List.range payloadCount) order dstData
  rw [carries_iff_covered scattered]
  · constructor
    · intro covered
      by_contra leftOver
      have positive : 0 < len.toNat := Nat.pos_of_ne_zero fun zero =>
        leftOver (by rw [zero, Nat.zero_mod])
      obtain ⟨⟨i, j⟩, member, -, writes⟩ :=
        covered _ (Nat.sub_one_lt_of_lt positive)
      obtain ⟨message, inside⟩ := (mem_words posted).mp member
      have word := List.mem_range.mp inside
      simp only [writeMessageNum, payloadCount] at message word writes leftOver
      omega
    · intro whole index inside
      refine ⟨(index / payloadCount, index % payloadCount),
        (mem_words posted).mpr ⟨?_, ?_⟩, trivial, ?_⟩
      · simp only [writeMessageNum, payloadCount] at whole ⊢
        omega
      · exact List.mem_range.mpr (Nat.mod_lt _ (by decide))
      · rw [Nat.div_add_mod']
  · rintro srcData ⟨i, j⟩ member -
    have word := List.mem_range.mp ((mem_words posted).mp member).2
    rw [getD_postSend srcData i word, ntohl_htonl]

theorem getD_packReduce (srcData : Int → Word) (idx : Nat) {j : Nat}
    (word : j ∈ reduceWords idx) :
    (packReduce srcData len rootRank idx).getD j 0 =
      reduceWord srcData len idx j := by
  unfold packReduce
  by_cases first : idx = 0
  · subst first
    obtain ⟨from2, inside⟩ := List.mem_range'_1.mp word
    obtain ⟨offset, rfl⟩ := Nat.exists_eq_add_of_le' from2
    have small : offset < payloadCount - 2 := by
      omega
    simp [reduceWords, small, Nat.add_comm]
  · rw [reduceWords, if_neg first, List.mem_range] at word
    simp [reduceWords, first, word]

/-- The metadata moves every element two words on. -/
theorem toNat_reduceIndex {i j : Nat} (message : i < writeMessageNum len)
    (word : j ∈ reduceWords i) :
    (reduceIndex i j).toNat + 2 = i * payloadCount + j ∧ j < payloadCount := by
  have bound := len.isLt
  unfold reduceIndex reduceWords at *
  by_cases first : i = 0
  · rw [if_pos first, List.mem_range'_1] at word
    rw [if_pos first, BitVec.toNat_ofNat]
    rw [payloadCount] at word ⊢
    omega
  · rw [if_neg first, List.mem_range] at word
    rw [if_neg first, BitVec.toNat_ofNat]
    simp only [writeMessageNum, payloadCount] at message word ⊢
    omega

/-- Reduce loses the two elements that the metadata takes the place of. -/
theorem carries_incclReduceWrite
    (accepted : len.toNat % payloadCount = 0)
    (posted : order.Perm (List.range (writeMessageNum len))) :
    Carries len (incclReduceWrite len rootRank order) ↔ len = 0 := by
  have scattered (srcData dstData : Int → Word) :
      incclReduceWrite len rootRank order srcData dstData = _ :=
    (if_pos accepted).trans
      (foldl_scatter (fun idx j => reduceIndex idx j < len)
        (fun idx j => (reduceIndex idx j).toInt)
        (fun idx j => ntohl ((packReduce srcData len rootRank idx).getD j 0))
        reduceWords order dstData)
  rw [carries_iff_covered scattered]
  · constructor
    · intro covered
      by_contra nonempty
      have positive : 0 < len.toNat := Nat.pos_of_ne_zero fun zero =>
        nonempty (BitVec.eq_of_toNat_eq zero)
      obtain ⟨⟨i, j⟩, member, -, writes⟩ :=
        covered _ (Nat.sub_one_lt_of_lt positive)
      obtain ⟨message, inside⟩ := (mem_words posted).mp member
      obtain ⟨place, word⟩ := toNat_reduceIndex message inside
      have before : (reduceIndex i j).toNat + 2 < len.toNat := by
        simp only [writeMessageNum, payloadCount] at message place word
        omega
      have last : (reduceIndex i j).toInt = (len.toNat - 1 : Nat) := writes
      have bound := len.isLt
      rw [BitVec.toInt_eq_toNat_cond] at last
      split_ifs at last
      · omega
      · omega
    · rintro rfl index inside
      exact absurd inside (Nat.not_lt_zero _)
  · rintro srcData ⟨i, j⟩ member kept
    have word := ((mem_words posted).mp member).2
    rw [getD_packReduce srcData i word, reduceWord, if_pos kept, ntohl_htonl]

/-- When the collectives carry every element, in whatever order the messages
complete. -/
theorem writes_carry_iff (rootRank : Word)
    (posted : order.Perm (List.range (writeMessageNum len))) :
    (Carries len (incclAllreduceWrite order) ↔
        len.toNat % payloadCount = 0) ∧
      (len.toNat % payloadCount = 0 →
        (Carries len (incclReduceWrite len rootRank order) ↔ len = 0)) :=
  ⟨carries_incclAllreduceWrite posted,
    fun accepted => carries_incclReduceWrite accepted posted⟩

theorem writes_carry_iff_oneMessage :
    Carries 1024 (incclAllreduceWrite [0]) ∧
      ¬Carries 1024 (incclReduceWrite 1024 0 [0]) := by
  have carry := writes_carry_iff 0
    (show [0].Perm (List.range (writeMessageNum 1024)) from .refl _)
  exact ⟨carry.1.mpr rfl, fun carries =>
    absurd ((carry.2 rfl).mp carries) (by decide)⟩

end Coverage

/-- AllReduce of one element sends no message, and Reduce of 1024 elements
loses the last two of them. -/
theorem not_writes_carry :
    (¬∀ (len : Word) (order : List Nat),
        order.Perm (List.range (writeMessageNum len)) →
          Carries len (incclAllreduceWrite order)) ∧
      ¬∀ (len rootRank : Word) (order : List Nat),
        len.toNat % payloadCount = 0 →
          order.Perm (List.range (writeMessageNum len)) →
            Carries len (incclReduceWrite len rootRank order) := by
  constructor
  · intro carry
    have arrived :=
      carry 1 [] (.refl _) (fun _ => 1) (fun _ => 0) 0 (by decide)
    exact absurd arrived (by decide)
  · intro carry
    have posted : [0].Perm (List.range (writeMessageNum 1024)) := .refl _
    have carries := carry 1024 0 [0] rfl posted
    rw [carries_incclReduceWrite rfl posted] at carries
    exact absurd carries (by decide)

end IncEmulation
