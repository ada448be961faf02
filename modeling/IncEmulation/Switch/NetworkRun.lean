import IncEmulation.Switch.Network

/-!
# Runs of a tree of switches

Every switch of the tree keeps its own invariant, because what its neighbours
send it is what they have taken and summed up themselves.
-/

namespace IncEmulation.Switch

open Gather Hierarchy

/-! ## One switch -/

section Local

variable {config : Config} {fuel : Nat} {world next : World} {event : Event}
  {conn psn : Nat} {packet : Packet} {frame : Frame} {frames : List Frame}
  {log rest : List Entry} {rootRank : UInt32} {path : Path}

theorem log_prefix (taken : step config fuel world event = some next) :
    world.log <+: next.log := by
  rcases step_cases taken with
    ⟨conn, packet, frames, rule, -, -, -, log⟩ |
    ⟨id, queue, -, -, rfl⟩ |
    ⟨index, job, -, -, ⟨-, rfl⟩ | ⟨-, rfl⟩⟩
  · rw [log]
    exact List.prefix_append _ _
  · exact List.prefix_refl _
  · exact List.prefix_append _ _
  · exact List.prefix_refl _

theorem getElem?_of_prefix {Item : Type} {short long : List Item} {item : Item}
    (grows : short <+: long) (found : short[psn]? = some item) :
    long[psn]? = some item := by
  obtain ⟨more, rfl⟩ := grows
  rw [List.getElem?_append_left (List.getElem?_eq_some_iff.mp found).1, found]

theorem taken_isPrefixOf (grows : log <+: rest) :
    taken log conn <+: taken rest conn := by
  obtain ⟨more, rfl⟩ := grows
  induction more using List.reverseRecOn with
  | nil => rw [List.append_nil]
  | append_singleton more entry induction =>
      rw [← List.append_assoc]
      refine induction.trans ?_
      have last : taken (log ++ more ++ [entry]) conn =
          take conn (taken (log ++ more) conn) entry := by
        simp only [taken, List.foldl_append, List.foldl_cons, List.foldl_nil]
      rw [last]
      exact prefix_take _ entry

theorem sentData_isPrefixOf (grows : log <+: rest) :
    sentData log conn <+: sentData rest conn := by
  obtain ⟨more, rfl⟩ := grows
  rw [sentData, sentData, List.filterMap_append, dataTo_append]
  exact List.prefix_append _ _

/-- A packet that is taken in a step is the packet of the step. -/
theorem taken_step (stepped : step config fuel world event = some next)
    (found : (taken next.log conn)[psn]? = some packet) :
    (taken world.log conn)[psn]? = some packet ∨
      (event = .packet conn packet ∧ packet.opcode ∈ sendOpcodes ∧
        packet.psn = psn) := by
  rcases step_cases stepped with
    ⟨other, received, frames, rule, rfl, -, -, log⟩ |
    ⟨id, queue, -, -, rfl⟩ |
    ⟨index, job, -, -, ⟨-, rfl⟩ | ⟨-, rfl⟩⟩
  · obtain ⟨isPsn, send⟩ := psn_of_taken found
    rw [log, taken_handled] at found
    simp only [take] at found
    split at found
    · rename_i isNext
      rw [List.getElem?_append] at found
      split at found
      · exact Or.inl found
      · rw [List.getElem?_singleton] at found
        split at found
        · obtain rfl := Option.some.inj found
          exact Or.inr ⟨by rw [isNext.1], send, isPsn⟩
        · cases found
    · exact Or.inl found
  · exact Or.inl found
  · rw [taken_append_sent] at found
    exact Or.inl found
  · exact Or.inl found

theorem ExactSums.lt (sums : ExactSums log conn)
    (found : (sentData log conn)[psn]? = some frame) : psn < 2 ^ 24 := by
  have passed := (List.getElem?_eq_some_iff.mp found).1.trans_le
    (sums.frontier.le 0 (by decide))
  have isTaken := List.getElem?_eq_getElem passed
  have own : children log 0 = taken log 0 := if_pos (by decide)
  simp only [own] at isTaken
  have same := (psn_of_taken isTaken).1
  rw [← same]
  exact Packet.psn_lt _

theorem Delivering.sentData_parent
    (delivering : Delivering config config.operationTypeAllreduce rootRank
      world) : sentData world.log fanIn = [] :=
  delivering.delivered.nothing fanIn
    fun receives => lt_irrefl fanIn receives.isChild

theorem Serving.numbered (serving : Serving config rootRank path world)
    (bound : conn ≤ fanIn)
    (found : (sentData world.log conn)[psn]? = some frame) :
    frame.psn = psn ∧ psn < 2 ^ 24 := by
  have ofSums : ExactSums world.log conn → frame.psn = psn ∧ psn < 2 ^ 24 :=
    fun sums => ⟨(sums.sums psn frame found).1, sums.lt found⟩
  by_cases isRoot : path = []
  · have delivering := serving.root isRoot
    by_cases isParent : conn = fanIn
    · rw [isParent, delivering.sentData_parent] at found
      cases found
    · have isChild : conn < fanIn := by omega
      exact ofSums
        (delivering.delivered.sums conn ⟨isChild, Or.inl rfl⟩)
  · have relaying := serving.inner isRoot
    by_cases isParent : conn = fanIn
    · exact ofSums (isParent ▸ relaying.relayed.sums)
    · have isChild : conn < fanIn := by omega
      rw [relaying.relayed.packets conn isChild, List.getElem?_map] at found
      obtain ⟨packet, isTaken, rfl⟩ := Option.map_eq_some_iff.mp found
      have same := (psn_of_taken isTaken).1
      exact ⟨congrArg Nat.cast same, same ▸ packet.psn_lt⟩

theorem Serving.captured (serving : Serving config rootRank path world)
    (bound : conn ≤ fanIn) (member : frame ∈ sentData world.log conn)
    (captures : Captures frame packet) :
    (sentData world.log conn)[packet.psn]? = some frame := by
  obtain ⟨psn, found⟩ := List.mem_iff_getElem?.mp member
  obtain ⟨isPsn, small⟩ := serving.numbered bound found
  have same := captures.psn
  rw [isPsn, Int.emod_eq_of_lt (Int.natCast_nonneg psn) (by omega)] at same
  rw [Int.ofNat_inj.mp same]
  exact found

theorem awaits_eq
    (root : path = [] → Delivering (config.place path)
      config.operationTypeAllreduce rootRank world)
    (inner : path ≠ [] → Relaying world) (bound : conn ≤ fanIn)
    (hasRule : path = [] → conn ≠ fanIn) :
    world.globals.awaits conn = (taken world.log conn).length := by
  have ofChild : Collecting world.globals (children world.log) →
      conn < fanIn →
        world.globals.awaits conn = (taken world.log conn).length := by
    intro collecting isChild
    have expected := collecting.expected conn isChild
    rw [count, children, if_pos isChild] at expected
    rw [Globals.awaits, if_neg isChild.ne, expected]
  by_cases isRoot : path = []
  · have different := hasRule isRoot
    exact ofChild (root isRoot).collecting (by omega)
  · by_cases isParent : conn = fanIn
    · rw [Globals.awaits, if_pos isParent, isParent]
      exact (inner isRoot).cursor
    · exact ofChild (inner isRoot).collecting (by omega)

theorem length_taken_le (log : List Entry) (conn : Nat) :
    (taken log conn).length ≤ 2 ^ 24 := by
  by_contra more
  obtain ⟨packet, found⟩ : ∃ packet, (taken log conn)[2 ^ 24]? = some packet :=
    ⟨_, List.getElem?_eq_getElem (not_le.mp more)⟩
  have below := packet.psn_lt
  rw [(psn_of_taken found).1] at below
  exact lt_irrefl _ below

theorem Serving.captures (serving : Serving config rootRank path world)
    (member : frame ∈ world.log.filterMap Entry.outgoing)
    (first : frame.type ≠ .dataSingle) {bytes : Nat → Memory.Byte}
    {addresses : Addresses} (reads : Reads packet (frame.bytes bytes addresses)) :
    Captures frame packet := by
  have sound := (serving.sound frame member).resolve_left first
  refine captures_of_reads sound (fun ack => ?_) reads
  obtain ⟨nonneg, below⟩ := serving.replies frame member (Or.inl ack)
  have few := length_taken_le world.log frame.conn
  have isAck : frame.acknowledges = frame.psn :=
    if_neg (by rw [ack]; exact fun same => by cases same)
  exact ⟨nonneg, by omega⟩

theorem Serving.captures_data (serving : Serving config rootRank path world)
    (member : frame ∈ sentData world.log conn) {bytes : Nat → Memory.Byte}
    {addresses : Addresses} (reads : Reads packet (frame.bytes bytes addresses)) :
    Captures frame packet := by
  obtain ⟨outgoing, isData⟩ := List.mem_filter.mp member
  have type := (of_decide_eq_true isData).2
  exact serving.captures outgoing (by rw [type]; exact fun same => by cases same)
    reads

/-- On the wire the PSN of a reply can only get smaller. -/
theorem Captures.acknowledges_le (captures : Captures frame packet)
    (reply : packet.opcode = 0x11) (nonneg : 0 ≤ frame.psn) :
    packet.acknowledges ≤ frame.acknowledges := by
  have isPsn := captures.psn
  have below : (packet.psn : Int) ≤ frame.psn := by omega
  by_cases isNak : frame.type = .nak
  · have negative : ¬isAck packet.synMsn = true :=
      fun positive => (captures.syndrome reply).mp positive isNak
    rw [Packet.acknowledges, if_neg negative, Frame.acknowledges,
      if_pos isNak]
    omega
  · rw [Packet.acknowledges, if_pos ((captures.syndrome reply).mpr isNak),
      Frame.acknowledges, if_neg isNak]
    exact below

theorem outgoing_handled :
    (log ++ .received conn packet :: frames.map Entry.sent).filterMap
      Entry.outgoing = log.filterMap Entry.outgoing ++ frames := by
  rw [List.filterMap_append, List.filterMap_cons_none rfl, List.filterMap_map]
  congr 1
  exact List.filterMap_some

/-- A step sends sound frames and retransmissions. -/
theorem outgoing_sound
    (stepped : Switch.step config fuel world event = some next)
    (sound : ∀ frame ∈ world.log.filterMap Entry.outgoing,
      frame.type = .dataSingle ∨ frame.Sound) :
    ∀ frame ∈ next.log.filterMap Entry.outgoing,
      frame.type = .dataSingle ∨ frame.Sound := by
  intro frame member
  cases event with
  | packet conn packet =>
      obtain ⟨⟨globals, frames⟩, handled, rest⟩ :=
        Option.bind_eq_some_iff.mp stepped
      cases rest
      rw [outgoing_handled] at member
      rcases List.mem_append.mp member with old | new
      · exact sound frame old
      · exact packetHandler_sound handled new
  | start =>
      rcases step_cases stepped with ⟨_, _, _, _, isPacket, -⟩ |
        ⟨id, queue, -, -, rfl⟩ | ⟨_, _, isRound, -⟩
      · cases isPacket
      · exact sound frame member
      · cases isRound
  | round index =>
      rcases step_cases stepped with ⟨_, _, _, _, isPacket, -⟩ |
        ⟨_, _, isStart, -⟩ | ⟨index, job, -, -, ⟨-, rfl⟩ | ⟨-, rfl⟩⟩
      · cases isPacket
      · cases isStart
      · rw [List.filterMap_append] at member
        rcases List.mem_append.mp member with old | new
        · exact sound frame old
        · rw [retransmit_eq] at new
          rw [List.mem_singleton.mp new]
          exact Or.inl rfl
      · exact sound frame member

theorem RepliesTaken.mono (replies : RepliesTaken log) (grows : log <+: rest)
    (member : frame ∈ log.filterMap Entry.outgoing) (reply : frame.Reply) :
    0 ≤ frame.psn ∧
      frame.acknowledges < (taken rest frame.conn).length := by
  obtain ⟨nonneg, below⟩ := replies frame member reply
  have longer := (@taken_isPrefixOf frame.conn log rest grows).length_le
  exact ⟨nonneg, by omega⟩

/-- The replies to a packet acknowledge what has been taken. -/
theorem RepliesTaken.step (replies : RepliesTaken world.log)
    (stepped : Switch.step config fuel world event = some next)
    (awaits : ∀ conn packet, event = .packet conn packet →
      config.lookupRule conn ≠ none →
        world.globals.awaits conn = (taken world.log conn).length ∧
          next.globals.awaits conn = (taken next.log conn).length) :
    RepliesTaken next.log := by
  have grows := log_prefix stepped
  cases event with
  | packet conn packet =>
      obtain ⟨⟨globals, frames⟩, handled, rest⟩ :=
        Option.bind_eq_some_iff.mp stepped
      cases rest
      obtain ⟨rule, found, -⟩ := packetHandler_cases handled
      obtain ⟨before, after⟩ := awaits conn packet rfl (by rw [found]; simp)
      intro frame member reply
      rw [outgoing_handled] at member
      rcases List.mem_append.mp member with old | new
      · exact replies.mono grows old reply
      · obtain ⟨rfl, nonneg, below⟩ :=
          packetHandler_replies (by rw [before]; omega) handled new reply
        exact ⟨nonneg, after ▸ below⟩
  | start =>
      rcases step_cases stepped with ⟨_, _, _, _, isPacket, -⟩ |
        ⟨id, queue, -, -, rfl⟩ | ⟨_, _, isRound, -⟩
      · cases isPacket
      · exact replies
      · cases isRound
  | round index =>
      rcases step_cases stepped with ⟨_, _, _, _, isPacket, -⟩ |
        ⟨_, _, isStart, -⟩ | ⟨index, job, -, -, ⟨-, rfl⟩ | ⟨-, rfl⟩⟩
      · cases isPacket
      · cases isStart
      · intro frame member reply
        rw [List.filterMap_append] at member
        rcases List.mem_append.mp member with old | new
        · exact replies.mono grows old reply
        · rw [retransmit_eq] at new
          have isFrame := List.mem_singleton.mp new
          rw [isFrame] at reply
          rcases reply with ack | nak
          · cases ack
          · cases nak
      · exact replies

end Local

/-! ## A step of the tree -/

section Steps

variable {config : Config} {fuel : Nat} {rootRank : UInt32} {tree : Layout}
  {hosts : Path → List (List UInt32)} {network next : Network} {path : Path}
  {event : Event} {conn : Nat} {packet : Packet} {child : Nat → Layout}
  {world : World} {cabling : Cabling}

theorem networkStep_cases
    (stepped : networkStep config tree fuel network (path, event) =
      some next) :
    ∃ child world, tree.subtree fanIn path = some (.node child) ∧
      step (config.place path) fuel (network path) event = some world ∧
      next = Function.update network path world := by
  unfold networkStep at stepped
  simp only at stepped
  split at stepped
  · rename_i child isNode
    obtain ⟨world, local', rfl⟩ := Option.map_eq_some_iff.mp stepped
    exact ⟨child, world, isNode, local', rfl⟩
  · cases stepped

/-- The hosts announce the operation to every switch. -/
theorem Working.announces
    (working : Working config rootRank tree hosts network)
    (reduces : AllReduces config rootRank hosts)
    (isNode : tree.subtree fanIn path = some (.node child))
    (arrives : Arrives cabling tree hosts network (path, event)) :
    Announces config.operationTypeAllreduce rootRank event := by
  cases event with
  | packet conn packet =>
      intro isChild send first
      have sent' := arrives.1 isChild send
      have below := subtree_child isNode isChild
      have announced : packet.payload[0]? =
          some config.operationTypeAllreduce ∧
            packet.payload[1]? = some rootRank := by
        cases isBelow : child conn with
        | leaf =>
            rw [below, isBelow] at sent'
            have isFirst : (hosts (conn :: path))[packet.psn]? =
              some packet.payload := sent'
            rw [first] at isFirst
            exact reduces.announced isFirst
        | node more =>
            rw [below, isBelow] at sent'
            obtain ⟨frame, member, reads⟩ := sent'
            rw [isBelow] at below
            have captures := (working.serving below).captures_data member reads
            have found := (working.serving below).captured (le_refl fanIn)
              member captures
            rw [first] at found
            rw [captures.payload send]
            exact (working.sums reduces below 0 frame.data
              ⟨frame, found, rfl⟩).metadata rfl
      obtain ⟨-, isOperation⟩ := lt_of_getElem?_payload announced.1
      obtain ⟨long, isRank⟩ := lt_of_getElem?_payload announced.2
      exact ⟨long, isOperation.symm, isRank.symm⟩
  | start => trivial
  | round index => trivial

/-- The switch above acknowledges what it was sent. -/
theorem Working.acksSums
    (working : Working config rootRank tree hosts network)
    (isNode : tree.subtree fanIn path = some (.node child))
    (arrives : Arrives cabling tree hosts network (path, event))
    (inner : path ≠ []) : AcksSums (network path) event := by
  cases event with
  | packet conn packet =>
      intro isParent opcode
      obtain ⟨position, above, rfl⟩ := List.exists_cons_of_ne_nil inner
      obtain ⟨frame, member, rfl, reply, reads⟩ :=
        (arrives.2 isParent).2 opcode
      obtain ⟨bound, siblings, isParent', -⟩ := subtree_cons_eq_some.mp isNode
      have first : frame.type ≠ .dataSingle := by
        rcases reply with type | type <;> rw [type] <;>
          exact fun same => by cases same
      have captures := (working.serving isParent').captures member first reads
      obtain ⟨nonneg, below⟩ :=
        (working.serving isParent').replies frame member reply
      have sent : (taken (network above).log frame.conn).length ≤
          (sentData (network (frame.conn :: above)).log fanIn).length := by
        by_contra fewer
        obtain ⟨last, isLast⟩ : ∃ last, (taken (network above).log
            frame.conn)[(sentData (network (frame.conn :: above)).log
              fanIn).length]? = some last :=
          ⟨_, List.getElem?_eq_getElem (not_le.mp fewer)⟩
        obtain ⟨original, found, -⟩ :=
          (working.coupled isParent').child bound isNode isLast
        exact lt_irrefl _ (List.getElem?_eq_some_iff.mp found).1
      have covered := captures.acknowledges_le opcode nonneg
      omega
  | start => trivial
  | round index => trivial

theorem root_place_iff : (config.place path).root = true ↔ path = [] :=
  decide_eq_true_iff

/-- The switch of the step keeps its invariant. -/
theorem Working.serves
    (working : Working config rootRank tree hosts network)
    (reduces : AllReduces config rootRank hosts)
    (isNode : tree.subtree fanIn path = some (.node child))
    (arrives : Arrives cabling tree hosts network (path, event))
    (stepped : step (config.place path) fuel (network path) event =
      some world) : Serving config rootRank path world := by
  have serving := working.serving isNode
  have root : path = [] → Delivering (config.place path)
      config.operationTypeAllreduce rootRank world := by
    intro isRoot
    refine (serving.root isRoot).step (root_place_iff.mpr isRoot) ?_ stepped
    subst isRoot
    exact working.announces reduces isNode arrives
  have inner : path ≠ [] → Relaying world := by
    intro notRoot
    refine (serving.inner notRoot).step ?_
      (working.acksSums isNode arrives notRoot) stepped
    rw [← Bool.not_eq_true, root_place_iff]
    exact notRoot
  refine ⟨root, inner, serving.replies.step stepped ?_,
    outgoing_sound stepped serving.sound⟩
  intro conn packet _ found
  obtain ⟨rule, found⟩ := Option.ne_none_iff_exists'.mp found
  obtain ⟨bound, notParent, -⟩ := lookupRule_eq_some found
  have hasRule : path = [] → conn ≠ fanIn := fun isRoot isParent =>
    notParent ⟨root_place_iff.mpr isRoot, isParent⟩
  exact ⟨awaits_eq serving.root serving.inner bound hasRule,
    awaits_eq root inner bound hasRule⟩

/-- What a switch takes in a step has been sent to it. -/
theorem Working.couples
    (working : Working config rootRank tree hosts network)
    (isNode : tree.subtree fanIn path = some (.node child))
    (arrives : Arrives cabling tree hosts network (path, event))
    (stepped : step (config.place path) fuel (network path) event =
      some world)
    (grows : ∀ name, (network name).log <+: (next name).log)
    (own : next path = world) : Coupled tree hosts next path := by
  have coupled := working.coupled isNode
  refine ⟨?_, ?_, ?_⟩
  · intro conn psn packet bound below found
    rw [own] at found
    rcases taken_step stepped found with old | ⟨rfl, send, isPsn⟩
    · exact coupled.host bound below old
    · have sent' := arrives.1 bound send
      rw [below] at sent'
      have isPacket : (hosts (conn :: path))[packet.psn]? =
        some packet.payload := sent'
      rwa [isPsn] at isPacket
  · intro conn psn packet more bound below found
    rw [own] at found
    rcases taken_step stepped found with old | ⟨rfl, send, isPsn⟩
    · obtain ⟨frame, sent, captures⟩ := coupled.child bound below old
      exact ⟨frame, getElem?_of_prefix (sentData_isPrefixOf (grows _)) sent,
        captures⟩
    · have sent' := arrives.1 bound send
      rw [below] at sent'
      obtain ⟨frame, member, reads⟩ := sent'
      have captures := (working.serving below).captures_data member reads
      have sent := (working.serving below).captured (le_refl fanIn) member
        captures
      rw [isPsn] at sent
      exact ⟨frame, getElem?_of_prefix (sentData_isPrefixOf (grows _)) sent,
        captures⟩
  · rintro position psn above packet rfl found
    rw [own] at found
    rcases taken_step stepped found with old | ⟨rfl, send, isPsn⟩
    · obtain ⟨frame, sent, captures⟩ := coupled.parent rfl old
      exact ⟨frame, getElem?_of_prefix (sentData_isPrefixOf (grows _)) sent,
        captures⟩
    · obtain ⟨frame, member, reads⟩ := (arrives.2 rfl).1 send
      obtain ⟨bound, siblings, isParent, -⟩ := subtree_cons_eq_some.mp isNode
      have captures := (working.serving isParent).captures_data member reads
      have sent := (working.serving isParent).captured bound.le member captures
      rw [isPsn] at sent
      exact ⟨frame, getElem?_of_prefix (sentData_isPrefixOf (grows _)) sent,
        captures⟩

theorem Coupled.mono (coupled : Coupled tree hosts network path)
    (grows : ∀ name, (network name).log <+: (next name).log)
    (same : next path = network path) : Coupled tree hosts next path := by
  refine ⟨?_, ?_, ?_⟩
  · rw [same]
    exact coupled.host
  · rw [same]
    intro conn psn packet more bound below found
    obtain ⟨frame, sent, captures⟩ := coupled.child bound below found
    exact ⟨frame, getElem?_of_prefix (sentData_isPrefixOf (grows _)) sent,
      captures⟩
  · rw [same]
    intro position psn above packet isPath found
    obtain ⟨frame, sent, captures⟩ := coupled.parent isPath found
    exact ⟨frame, getElem?_of_prefix (sentData_isPrefixOf (grows _)) sent,
      captures⟩

theorem Working.step (working : Working config rootRank tree hosts network)
    (reduces : AllReduces config rootRank hosts)
    {action : Path × Event} (arrives : Arrives cabling tree hosts network action)
    (stepped : networkStep config tree fuel network action = some next) :
    Working config rootRank tree hosts next := by
  obtain ⟨path, event⟩ := action
  obtain ⟨child, world, isNode, local', rfl⟩ := networkStep_cases stepped
  have grows : ∀ name, (network name).log <+:
      (Function.update network path world name).log := by
    intro name
    by_cases same : name = path
    · rw [same, Function.update_self]
      exact log_prefix local'
    · rw [Function.update_of_ne same]
  refine ⟨?_, ?_⟩
  · intro name below isSwitch
    by_cases same : name = path
    · subst same
      rw [Function.update_self]
      exact working.serves reduces isNode arrives local'
    · rw [Function.update_of_ne same]
      exact working.serving isSwitch
  · intro name below isSwitch
    by_cases same : name = path
    · subst same
      exact working.couples isNode arrives local' grows
        (Function.update_self ..)
    · exact (working.coupled isSwitch).mono grows
        (Function.update_of_ne same ..)

theorem working_initial {memory : Path → Globals} :
    Working config rootRank tree hosts (.initial config memory) := by
  refine ⟨fun _ => ⟨fun _ => delivering_initial, fun _ => relaying_initial,
    ?_, ?_⟩, fun _ => ⟨?_, ?_, ?_⟩⟩
  · intro frame member
    exact absurd member List.not_mem_nil
  · intro frame member
    exact absurd member List.not_mem_nil
  · intro conn psn packet _ _ found
    cases found
  · intro conn psn packet more _ _ found
    cases found
  · intro position psn above packet _ found
    cases found

end Steps

/-- Along every run in which what arrives was sent, every host gets the sum of
the packets of all hosts: for each PSN once and in turn. -/
theorem hosts_receive_sums (config : Config) (rootRank : UInt32)
    (cabling : Cabling) (tree : Layout) (hosts : Path → List (List UInt32))
    (memory : Path → Globals) (fuel : Nat)
    (actions : List (Path × Event)) (network : Network)
    (reduces : AllReduces config rootRank hosts)
    (taken : Machine.run (networkStep config tree fuel)
      (.initial config memory) actions = some network)
    (arrives : Machine.Meets (networkStep config tree fuel)
      (Arrives cabling tree hosts) (.initial config memory) actions)
    (conn : Nat) (path : Path)
    (isHost : tree.subtree fanIn (conn :: path) = some .leaf) :
    ∀ (psn : Nat) (frame : Frame),
      (sentData (network path).log conn)[psn]? = some frame →
        frame.psn = psn ∧ HostSum config rootRank hosts
          (tree.leaves fanIn []) psn frame.data := by
  have working : Working config rootRank tree hosts network :=
    Machine.run_invariant (Working config rootRank tree hosts)
      (fun _ _ _ working arrives taken => working.step reduces arrives taken)
      working_initial arrives taken
  obtain ⟨bound, child, isNode, -⟩ := subtree_cons_eq_some.mp isHost
  exact working.broadcasts reduces isNode conn bound

/-- A switch with two hosts and one host are the children of the root. -/
def smallTree : Layout :=
  .node fun i => if i = 0 then .node fun _ => .leaf else .leaf

def smallHosts (path : Path) : List (List UInt32) :=
  [[1, 0], [UInt32.ofNat path.length]]

def smallCabling : Cabling where
  addresses _ _ := Connection.zero.addresses
  dstPacket _ := 0

/-- What a switch reads of the first acknowledgement of another one. -/
def smallAck : Packet := { Packet.ack 0 with synMsn := 0x1F000001 }

/-- The packets of both PSNs on their way up, and the sums on their way down. -/
def smallActions : List (Path × Event) :=
  [([0], .packet 0 (.announcement 1 0)), ([0], .packet 0 (.word 1 2)),
    ([], .packet 1 (.announcement 1 0)), ([0], .packet 1 (.announcement 1 0)),
    ([], .packet 0 (.announcement 1 0)), ([0], .packet 2 smallAck),
    ([0], .packet 2 (.announcement 1 0)), ([], .packet 1 (.word 1 1)),
    ([0], .packet 1 (.word 1 2)), ([], .packet 0 (.word 1 4)),
    ([0], .packet 2 (.word 1 5))]

def smallNetwork : Network :=
  (Machine.run (networkStep rootConfig smallTree 4)
    (.initial rootConfig fun _ => zeroMemory) smallActions).get
      (by decide +kernel)

theorem smallHosts_reduce : AllReduces rootConfig 0 smallHosts where
  alike := by
    intro host other psn payload payload' found found'
    match psn with
    | 0 => cases found; cases found'; rfl
    | 1 => cases found; cases found'; rfl
    | psn + 2 => cases found
  announced := by
    intro host payload found
    cases found
    exact ⟨rfl, rfl⟩

theorem hosts_receive_sums_small :
    HostSum rootConfig 0 smallHosts [[0, 0], [1, 0], [1]] 1 [5] :=
  (hosts_receive_sums rootConfig 0 smallCabling smallTree smallHosts
    (fun _ => zeroMemory) 4 smallActions smallNetwork smallHosts_reduce (Option.some_get _).symm
    (by decide +kernel) 0 [0] rfl 1 ⟨0, .data, 1, 0x04, [5]⟩
    (by decide +kernel)).2

end IncEmulation.Switch
