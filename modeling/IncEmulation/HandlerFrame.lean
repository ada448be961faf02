import IncEmulation.HandlerSpec
import IncEmulation.Lib.Gather

/-!
# What the packet handler leaves alone

Whatever packet arrives, on a deployed switch or not, the handler stores the
metadata it brings, moves at most the receive PSN of its connection and keeps the
configuration.
-/

namespace IncEmulation

open Gather

/-- The receive PSNs, the metadata and the configuration stay. -/
structure SwitchContext.Undisturbed (before after : SwitchContext) : Prop where
  configuration : before.SameConfiguration after
  aggEpsn : after.aggEpsn = before.aggEpsn
  operationType : after.operationType = before.operationType
  rootRank : after.rootRank = before.rootRank

variable {ctx : SwitchContext}

theorem SwitchContext.SameConfiguration.trans {first second third :
    SwitchContext} (left : first.SameConfiguration second)
    (right : second.SameConfiguration third) :
    first.SameConfiguration third :=
  ⟨right.isRoot.trans left.isRoot, right.fanIn.trans left.fanIn,
    right.routingTable.trans left.routingTable,
    right.rankToConn.trans left.rankToConn⟩

theorem SwitchContext.Undisturbed.refl (ctx : SwitchContext) :
    ctx.Undisturbed ctx := ⟨.refl ctx, rfl, rfl, rfl⟩

theorem SwitchContext.Undisturbed.trans {first second third : SwitchContext}
    (left : first.Undisturbed second) (right : second.Undisturbed third) :
    first.Undisturbed third :=
  ⟨left.configuration.trans right.configuration,
    right.aggEpsn.trans left.aggEpsn,
    right.operationType.trans left.operationType,
    right.rootRank.trans left.rootRank⟩

theorem setPsnState_undisturbed (index : Nat) (state : PsnState) :
    ctx.Undisturbed (ctx.setPsnState index state) :=
  ⟨⟨rfl, rfl, rfl, rfl⟩, rfl, rfl, rfl⟩

theorem sendToEach_undisturbed (data : Nat → Word) (len : Int)
    (opcode : Opcode) (conns : List Nat) :
    ctx.Undisturbed (sendToEach ctx data len opcode conns).1 := by
  induction conns generalizing ctx with
  | nil => exact .refl ctx
  | cons conn conns induction =>
      rw [sendToEach]
      split_ifs
      · have bumped : ctx.Undisturbed (ctx.bumpSendPsn conn) :=
          ⟨⟨rfl, rfl, rfl, rfl⟩, rfl, rfl, rfl⟩
        exact bumped.trans induction
      · exact induction

theorem cacheAndBroadcast_undisturbed (rule : Rule) (psn : Nat)
    (data : Nat → Word) (len : Int) (opcode : Opcode) :
    ctx.Undisturbed (cacheAndBroadcast ctx rule psn data len opcode).1 := by
  have cached : ctx.Undisturbed (ctx.cacheDownstream psn data len opcode) :=
    ⟨⟨rfl, rfl, rfl, rfl⟩, rfl, rfl, rfl⟩
  exact cached.trans (sendToEach_undisturbed _ _ _ _)

theorem sendToRoot_undisturbed (rootRank : Int) (data : Nat → Word) (len : Int)
    (opcode : Opcode) :
    ctx.Undisturbed (sendToRoot ctx rootRank data len opcode).1 := by
  rw [sendToRoot]
  split_ifs <;> exact ⟨⟨rfl, rfl, rfl, rfl⟩, rfl, rfl, rfl⟩

theorem completeAggregation_undisturbed (rule : Rule) (opType : PrimitiveType)
    (rootRank : Int) (psn : Nat) (data : Nat → Word) (len : Int)
    (opcode : Opcode) :
    ctx.Undisturbed (completeAggregation ctx rule opType rootRank psn data len
      opcode).1 := by
  unfold completeAggregation
  split_ifs
  · cases opType with
    | allreduce =>
        exact (cacheAndBroadcast_undisturbed rule psn data len opcode).trans
          (setPsnState_undisturbed _ _)
    | reduce =>
        exact (sendToRoot_undisturbed rootRank data len opcode).trans
          (setPsnState_undisturbed _ _)
    | null => exact .refl ctx
    | broadcast => exact .refl ctx
    | other value => exact .refl ctx
  · exact .refl ctx

theorem aggregate_undisturbed (rule : Rule) (conn psn : Nat)
    (data : Nat → Word) (len : Int) (opcode : Opcode) :
    ctx.Undisturbed (aggregate ctx rule conn psn data len opcode).1 := by
  unfold aggregate
  dsimp only
  split_ifs
  · exact sendToEach_undisturbed data len _ _
  · exact (setPsnState_undisturbed _ _).trans
      (completeAggregation_undisturbed _ _ _ _ _ _ _)
  · exact setPsnState_undisturbed _ _

theorem releaseSlots_undisturbed (ctx : SwitchContext) (psns : List Nat) :
    ctx.Undisturbed (psns.foldl releaseSlot ctx) := by
  induction psns generalizing ctx with
  | nil => exact .refl ctx
  | cons psn psns induction =>
      have released : ctx.Undisturbed (releaseSlot ctx psn) := by
        rw [releaseSlot]
        split_ifs
        · exact setPsnState_undisturbed _ _
        · exact .refl ctx
      exact released.trans (induction _)

theorem handleDownstreamAck_undisturbed (psn : Nat) (isNak : Bool) :
    ctx.Undisturbed (handleDownstreamAck ctx psn isNak) := by
  unfold handleDownstreamAck
  split_ifs
  · exact .refl ctx
  · have released := releaseSlots_undisturbed ctx
      (List.range' (ctx.downAck + 1) (psn - ctx.downAck))
    exact released.trans ⟨⟨rfl, rfl, rfl, rfl⟩, rfl, rfl, rfl⟩
  · exact .refl ctx

theorem handleUpstreamAck_undisturbed (conn psn : Nat) (isNak : Bool) :
    ctx.Undisturbed (handleUpstreamAck ctx conn psn isNak) := by
  unfold handleUpstreamAck
  split_ifs
  · exact .refl ctx
  · exact ⟨⟨rfl, rfl, rfl, rfl⟩, rfl, rfl, rfl⟩
  · exact .refl ctx

theorem storeMetadata_configuration (ctx : SwitchContext)
    (packet : Packet) :
    ctx.SameConfiguration (ctx.storeMetadata packet) := by
  rw [SwitchContext.storeMetadata]
  split_ifs <;> exact ⟨rfl, rfl, rfl, rfl⟩

theorem storeMetadata_aggEpsn (ctx : SwitchContext) (packet : Packet) :
    (ctx.storeMetadata packet).aggEpsn = ctx.aggEpsn := by
  rw [SwitchContext.storeMetadata]
  split_ifs <;> rfl

/-- Behind the PSN check only the connection's own receive PSN can move. -/
theorem handleByRule_undisturbed (rule : Rule) (conn : Nat)
    (packet : Packet) :
    ctx.Undisturbed (handleByRule ctx rule conn packet).1 ∨
      (ctx.bumpAggEpsn conn).Undisturbed
        (handleByRule ctx rule conn packet).1 := by
  unfold handleByRule
  split_ifs
  · left
    unfold handleDownstreamData
    split_ifs
    · exact .refl ctx
    · exact .refl ctx
    · exact cacheAndBroadcast_undisturbed _ _ _ _ _
  · unfold handleUpstreamData
    split_ifs
    · exact Or.inl (.refl ctx)
    · exact Or.inl (.refl ctx)
    · exact Or.inr (aggregate_undisturbed _ _ _ _ _ _)
  · exact Or.inl (handleDownstreamAck_undisturbed _ _)
  · exact Or.inl (handleUpstreamAck_undisturbed _ _ _)
  · exact Or.inl (.refl ctx)

/-- Whatever arrives, the handler stores the metadata it brings, moves at most
the receive PSN of its connection, and keeps the configuration. -/
theorem packetHandler_undisturbed (conn : Nat) (packet : Packet) :
    (ctx.storeMetadata packet).Undisturbed
        (packetHandler ctx conn packet).1 ∨
      ((ctx.storeMetadata packet).bumpAggEpsn conn).Undisturbed
        (packetHandler ctx conn packet).1 := by
  unfold packetHandler
  dsimp only
  split
  · exact Or.inl (.refl _)
  · split_ifs
    · exact Or.inr (.refl _)
    · exact handleByRule_undisturbed _ conn packet

theorem packetHandler_configuration (conn : Nat) (packet : Packet) :
    ctx.SameConfiguration (packetHandler ctx conn packet).1 := by
  have stored := storeMetadata_configuration ctx packet
  rcases packetHandler_undisturbed conn packet with same | moved
  · exact stored.trans same.configuration
  · have bumped : ctx.SameConfiguration
        ((ctx.storeMetadata packet).bumpAggEpsn conn) :=
      stored.trans ⟨rfl, rfl, rfl, rfl⟩
    exact bumped.trans moved.configuration

theorem packetHandler_inForce {operation : Collective} (conn : Nat)
    {packet : Packet} (noImmediate : packet.hasImmData = false)
    (inForce : ctx.InForce operation) :
    (packetHandler ctx conn packet).1.InForce operation := by
  have stored : ctx.storeMetadata packet = ctx := by
    simp [SwitchContext.storeMetadata, noImmediate]
  have key : (ctx.operationType, ctx.rootRank) = operation.metadata := inForce
  rw [SwitchContext.InForce, ← key]
  rcases packetHandler_undisturbed conn packet with same | moved
  · rw [stored] at same
    exact Prod.ext same.operationType same.rootRank
  · rw [stored] at moved
    exact Prod.ext moved.operationType moved.rootRank

theorem packetHandler_aggEpsn_of_ne {conn other : Nat} (packet : Packet)
    (different : other ≠ conn) :
    (packetHandler ctx conn packet).1.aggEpsn other = ctx.aggEpsn other := by
  rcases packetHandler_undisturbed conn packet with same | moved
  · rw [same.aggEpsn, storeMetadata_aggEpsn]
  · rw [moved.aggEpsn, ← storeMetadata_aggEpsn ctx packet]
    exact advance_of_ne different

end IncEmulation
