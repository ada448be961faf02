import IncEmulation.Completion
import IncEmulation.Exchange
import IncEmulation.Schedule
import IncEmulation.Wiring

/-!
# What a NIC takes

The data frames of a link are numbered, and a NIC that always finds a receive
posted takes each of them in turn; every fourth one completes a receive.
-/

namespace IncEmulation

open Machine

section Frames

variable {frames : List Frame} {frame : Frame} {count : Nat}

theorem dataFrames_append (first second : List Frame) :
    dataFrames (first ++ second) = dataFrames first ++ dataFrames second :=
  List.filter_append ..

theorem dataFrames_take_succ (present : frames[count]? = some frame) :
    dataFrames (frames.take (count + 1)) =
      dataFrames (frames.take count) ++ dataFrames [frame] := by
  rw [List.take_add_one, present, dataFrames_append]
  rfl

theorem dataFrames_singleton (data : frame.type = .data) :
    dataFrames [frame] = [frame] := by
  simp [dataFrames, data]

theorem dataFrames_of_ne_data (type : frame.type ≠ .data) :
    dataFrames [frame] = [] := by
  simp [dataFrames, type]

theorem getElem?_dataFrames (present : frames[count]? = some frame)
    (data : frame.type = .data) :
    (dataFrames frames)[(dataFrames (frames.take count)).length]? =
      some frame := by
  have taken := dataFrames_take_succ present
  rw [dataFrames_singleton data] at taken
  have whole := dataFrames_append (frames.take (count + 1))
    (frames.drop (count + 1))
  rw [List.take_append_drop, taken, List.append_assoc] at whole
  rw [whole, List.getElem?_append_right le_rfl, Nat.sub_self]
  rfl

end Frames

namespace Host

variable {host next : Host} {job : Job}

theorem round_receivePayload (host : Host) (job : Job) (call : Call)
    (stage : Stage) (rest : List Stage) :
    (host.round job call stage rest).receivePayload = host.receivePayload := by
  cases stage with
  | postControl operation => rfl
  | awaitControl =>
      rw [Host.round, Host.awaitRound]
      split <;> rfl
  | postReceives =>
      rw [Host.round]
      split_ifs <;> rfl
  | prepare =>
      rw [Host.round]
      split_ifs <;> rfl
  | window =>
      rw [Host.round]
      split_ifs <;> rfl
  | poll loop =>
      rw [Host.round, Host.pollRound]
      split
      · unfold Host.handleWc Host.refill Host.count
        split_ifs <;> (try split) <;> rfl
      · split_ifs
        · split <;> rfl
        · rfl

theorem Invariant.step_receives (invariant : host.Invariant job)
    (stepped : host.step job = some next) :
    next.receivePayload = host.receivePayload ∧
      next.qp.receivesDone = host.qp.receivesDone ∧
      (next.calls = host.calls ∨
        next.stages = none ∧ next.calls = host.calls + 1) := by
  cases invariant.moved_of_step stepped with
  | enter => exact ⟨rfl, rfl, .inl rfl⟩
  | leave => exact ⟨rfl, rfl, .inr ⟨rfl, rfl⟩⟩
  | @round call stage rest running _ inside =>
      exact ⟨round_receivePayload host job call stage rest,
        (round_keeps host job call stage rest).receivesDone,
        .inl (inside.round running).calls⟩

/-- What a rank is like after its NIC has stored a frame. -/
structure Stored (host next : Host) (address : Nat) (words : List Word) :
    Prop where
  calls : next.calls = host.calls
  stages : next.stages = host.stages
  locals : next.locals = host.locals
  sendPayload : next.sendPayload = host.sendPayload
  dstData : next.dstData = host.dstData
  receivePayload : next.receivePayload =
    (host.store address words).receivePayload

/-- What a frame that arrives leaves as it was. -/
structure SameRequests (host next : Host) : Prop where
  calls : next.calls = host.calls
  stages : next.stages = host.stages
  locals : next.locals = host.locals
  sends : next.qp.sends = host.qp.sends
  sendsDone : next.qp.sendsDone = host.qp.sendsDone

/-- A frame only adds to what a call has received. -/
theorem Stored.contents {host next start : Host} {job : Job} {call : Call}
    {address : Nat} {words : List Word} {value : Nat → Word}
    (stored : host.Stored next address words)
    (contents : host.Contents job call start value)
    (received : ∀ position,
      start.qp.receivesDone + position / payloadCount <
          next.qp.receivesDone →
        next.receivePayload position = value position) :
    next.Contents job call start value where
  prepared := by
    rw [stored.locals, stored.sendPayload]
    exact contents.prepared
  received := received
  unpacked := by
    rw [stored.locals, stored.dstData]
    exact contents.unpacked

end Host

namespace System

section Accept

variable (system : System) (rank : Nat) (frame : Frame) (host : Host)

theorem accept_self : (system.accept rank frame host).hosts rank = host :=
  Function.update_self ..

theorem accept_received :
    (system.accept rank frame host).received rank =
      system.received rank + 1 :=
  Function.update_self ..

variable {system rank frame}

/-- The NIC writes the next frame behind this one, or begins with a message. -/
theorem accept_cursor
    (cursor : system.cursor rank = system.received rank % 4 * mtuWords)
    (length : frame.data.length = mtuWords)
    (ends : frame.endsMessage = true ↔ system.received rank % 4 = 3) :
    (system.accept rank frame host).cursor rank =
      (system.received rank + 1) % 4 * mtuWords := by
  have moved : (system.accept rank frame host).cursor rank =
      if frame.endsMessage then 0
      else system.cursor rank + frame.data.length :=
    Function.update_self ..
  rw [moved, cursor, length, mtuWords]
  split_ifs with last
  · have final := ends.mp last
    omega
  · have more : system.received rank % 4 ≠ 3 :=
      fun final => last (ends.mpr final)
    omega

end Accept

theorem dataFrames_feedSwitch (system : System) (rank : Nat) (packet : Packet)
    (other : Nat) :
    dataFrames ((system.feedSwitch rank packet).down other) =
      dataFrames (system.down other) ++
        (dataFrames (packetHandler system.switch rank packet).2).filter
          fun frame => frame.conn = other := by
  have down : (system.feedSwitch rank packet).down other =
      system.down other ++
        (packetHandler system.switch rank packet).2.filter
          fun frame => frame.conn = other := rfl
  rw [down, dataFrames_append]
  congr 1
  exact List.filter_comm ..

variable {cluster : Cluster} {system next : System} {rank : Nat}
  {frame : Frame}

theorem Received.eq_of_ne_data (type : frame.type ≠ .data)
    (received : Received cluster system rank frame next) : next = system := by
  cases received with
  | dropped => rfl
  | stored posted data => exact absurd data type
  | completed posted data => exact absurd data type

theorem Received.apart (received : Received cluster system rank frame next) :
    next.switch = system.switch ∧ next.up = system.up ∧
      next.down = system.down ∧ ∀ other, other ≠ rank →
        next.hosts other = system.hosts other ∧
        next.received other = system.received other ∧
        next.cursor other = system.cursor other := by
  cases received with
  | dropped => exact ⟨rfl, rfl, rfl, fun _ _ => ⟨rfl, rfl, rfl⟩⟩
  | stored =>
      exact ⟨rfl, rfl, rfl, fun _ different =>
        ⟨Function.update_of_ne different .., Function.update_of_ne different ..,
          Function.update_of_ne different ..⟩⟩
  | completed =>
      exact ⟨rfl, rfl, rfl, fun _ different =>
        ⟨Function.update_of_ne different .., Function.update_of_ne different ..,
          Function.update_of_ne different ..⟩⟩

/-- A frame that arrives leaves the program of a rank and its requests to send
alone. -/
theorem Received.requests (received : Received cluster system rank frame next)
    (other : Nat) :
    (system.hosts other).SameRequests (next.hosts other) ∧
      next.accepted other = system.accepted other := by
  cases received with
  | dropped => exact ⟨⟨rfl, rfl, rfl, rfl, rfl⟩, rfl⟩
  | stored =>
      refine ⟨?_, rfl⟩
      simp only [accept, setHost_hosts, Function.update_apply]
      split_ifs with own
      · subst own
        exact ⟨rfl, rfl, rfl, rfl, rfl⟩
      · exact ⟨rfl, rfl, rfl, rfl, rfl⟩
  | completed posted data expected last acted =>
      obtain ⟨qp, completes, rfl⟩ := Option.map_eq_some_iff.mp acted
      obtain ⟨wr, -, rfl⟩ := Option.map_eq_some_iff.mp completes
      refine ⟨?_, rfl⟩
      simp only [accept, setHost_hosts, Function.update_apply]
      split_ifs with own
      · subst own
        exact ⟨rfl, rfl, rfl, rfl, rfl⟩
      · exact ⟨rfl, rfl, rfl, rfl, rfl⟩

/-- The next data frame is taken when its receive is posted. -/
theorem Received.taken {wr : RecvWr}
    (received : Received cluster system rank frame next)
    (posted : (system.hosts rank).qp.receives[
      (system.hosts rank).qp.receivesDone]? = some wr)
    (data : frame.type = .data) (psn : frame.psn = system.received rank) :
    ∃ host, next = system.accept rank frame host ∧
      (system.hosts rank).Stored host (wr.address + system.cursor rank)
        frame.data ∧
      host.qp.receivesDone = (system.hosts rank).qp.receivesDone +
        if frame.endsMessage then 1 else 0 := by
  cases received with
  | dropped unfit =>
      have outstanding := (List.getElem?_eq_some_iff.mp posted).1
      rcases unfit with type | stray | full
      · exact absurd data type
      · rw [psn] at stray
        exact absurd rfl stray
      · omega
  | stored found _ expected more =>
      obtain rfl := Option.some.inj (posted.symm.trans found)
      refine ⟨_, rfl, ⟨rfl, rfl, rfl, rfl, rfl, rfl⟩, ?_⟩
      rw [more]
      rfl
  | completed found _ expected last acted =>
      obtain rfl := Option.some.inj (posted.symm.trans found)
      obtain ⟨qp, completes, rfl⟩ := Option.map_eq_some_iff.mp acted
      obtain ⟨wr, -, rfl⟩ := Option.map_eq_some_iff.mp completes
      refine ⟨_, rfl, ⟨rfl, rfl, rfl, rfl, rfl, rfl⟩, ?_⟩
      rw [last]
      rfl

/-- How many of the data frames the NIC of a rank has taken: all that have
arrived. -/
structure Taking (system : System) (rank : Nat) : Prop where
  delivered_le : system.delivered rank ≤ (system.down rank).length
  received : system.received rank =
    (dataFrames ((system.down rank).take (system.delivered rank))).length
  receivesDone : (system.hosts rank).qp.receivesDone = system.received rank / 4

theorem Taking.congr (taking : system.Taking rank)
    (receivesDone : (next.hosts rank).qp.receivesDone =
      (system.hosts rank).qp.receivesDone)
    (down : system.down rank <+: next.down rank)
    (delivered : next.delivered rank = system.delivered rank)
    (received : next.received rank = system.received rank) :
    next.Taking rank where
  delivered_le := by
    rw [delivered]
    exact taking.delivered_le.trans down.length_le
  received := by
    obtain ⟨rest, whole⟩ := down
    rw [received, delivered, taking.received, ← whole,
      List.take_append_of_le_length taking.delivered_le]
  receivesDone := by
    rw [receivesDone, received]
    exact taking.receivesDone

theorem Taking.received_le (taking : system.Taking rank) :
    system.received rank ≤ (dataFrames (system.down rank)).length := by
  rw [taking.received]
  exact ((List.take_sublist _ _).filter _).length_le

theorem Taking.inTurn (taking : system.Taking rank)
    (present : (system.down rank)[system.delivered rank]? = some frame)
    (data : frame.type = .data) :
    (dataFrames (system.down rank))[system.received rank]? = some frame := by
  have next := getElem?_dataFrames present data
  rwa [← taking.received] at next

theorem Taking.pass (taking : system.Taking rank)
    (present : (system.down rank)[system.delivered rank]? = some frame)
    (type : frame.type ≠ .data) :
    Taking
      { system with
        delivered := Function.update system.delivered rank
          (system.delivered rank + 1) } rank where
  delivered_le := by
    dsimp only
    rw [Function.update_self]
    exact (List.getElem?_eq_some_iff.mp present).1
  received := by
    dsimp only
    rw [Function.update_self, dataFrames_take_succ present,
      dataFrames_of_ne_data type, List.append_nil]
    exact taking.received
  receivesDone := taking.receivesDone

theorem Taking.take {host : Host} (taking : system.Taking rank)
    (present : (system.down rank)[system.delivered rank]? = some frame)
    (data : frame.type = .data)
    (done : host.qp.receivesDone = (system.received rank + 1) / 4) :
    Taking
      { system.accept rank frame host with
        delivered := Function.update system.delivered rank
          (system.delivered rank + 1) } rank where
  delivered_le := by
    dsimp only
    rw [Function.update_self]
    exact (List.getElem?_eq_some_iff.mp present).1
  received := by
    have down : (system.accept rank frame host).down = system.down := rfl
    dsimp only
    rw [accept_received, Function.update_self, down,
      dataFrames_take_succ present, dataFrames_singleton data,
      List.length_append, taking.received]
    rfl
  receivesDone := by
    dsimp only
    rw [accept_received, accept_self, done]

/-- Every fourth frame that is taken completes a receive. -/
theorem Taking.counted {done : Nat} (taking : system.Taking rank)
    (ends : frame.endsMessage = true ↔ system.received rank % 4 = 3)
    (counted : done = (system.hosts rank).qp.receivesDone +
      if frame.endsMessage then 1 else 0) :
    done = (system.received rank + 1) / 4 := by
  rw [counted, taking.receivesDone]
  split_ifs with last
  · have final := ends.mp last
    omega
  · have more : system.received rank % 4 ≠ 3 :=
      fun final => last (ends.mpr final)
    omega

end System

/-! ## The buffers of the ranks -/

section Buffers

variable {cluster : Cluster} {ctx : SwitchContext} {system : System}

/-- The messages of all calls fit the buffers of the communicator. -/
def Cluster.MessagesFit (cluster : Cluster) : Prop :=
  ∀ call ∈ cluster.program, ∀ rank < cluster.hosts,
    call.FitsIn rank cluster.payloadBufSize

instance : DecidablePred Cluster.MessagesFit :=
  fun cluster => inferInstanceAs (Decidable (∀ call ∈ cluster.program, _))

/-- Every rank has kept to its buffers. -/
def System.Confined (cluster : Cluster) (system : System) : Prop :=
  ∀ rank < cluster.hosts,
    (system.hosts rank).Confined .init cluster.payloadBufSize

theorem System.reachable_host
    (reachable : Reachable (System.step cluster) (.init ctx) system)
    (rank : Nat) :
    Reachable (Host.act (cluster.job rank)) .init (system.hosts rank) :=
  reachable.invariant
    (fun state => Reachable (Host.act (cluster.job rank)) .init
      (state.hosts rank))
    (fun _ _ _ before stepped => (moved_of_step stepped).keeps
      (fun _ _ action ran acted => ran.tail action acted) before)
    (.refl _)

theorem System.confined_of_reachable (room : cluster.MessagesFit)
    (reachable : Reachable (System.step cluster) (.init ctx) system) :
    system.Confined cluster :=
  fun rank bound => Host.confined_of_reachable
    (fun call member => room call member rank bound)
    (System.reachable_host reachable rank)

end Buffers

end IncEmulation
