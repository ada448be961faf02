import Mathlib.Data.List.TakeWhile
import IncEmulation.Lib.Bytes
import IncEmulation.Lib.Segments
import IncEmulation.Wire

/-!
# How a configuration document travels to the switch

The senders of `controller.cpp`, `controller.h` and `test_controller.c` write a
document to a socket and `receive_yaml_config` (`controller_comm.cpp`) reads it.
A sender is told how many bytes each call of `send` accepts, and the stream
reaches `recv` in segments of any size; the list ends where the connection is
closed.  `malloc` is taken to succeed.
-/

namespace IncEmulation

open Memory Segments

/-- What has been written to the socket and whether the sender goes on. -/
structure Sending where
  written : List Byte
  success : Bool
  deriving DecidableEq

def Sending.andThen (first second : Sending) : Sending :=
  if first.success then ⟨first.written ++ second.written, second.success⟩
  else first

/-- `send(fd, …, size, 0) != size` of the command and of the length. -/
def sendOnce (accepted : Nat) (bytes : List Byte) : Sending where
  written := bytes.take accepted
  success := decide (bytes.length ≤ accepted)

/-- The loop over the content. -/
def sendContent : List Nat → List Byte → Sending
  | _, [] => ⟨[], true⟩
  | [], _ :: _ => ⟨[], false⟩
  | 0 :: _, _ :: _ => ⟨[], false⟩
  | (sent + 1) :: accepts, byte :: content =>
      let rest := sendContent accepts (content.drop sent)
      ⟨byte :: content.take sent ++ rest.written, rest.success⟩

/-- What the calls of `send` for one document accept. -/
structure SendCalls where
  command : Nat
  size : Nat
  content : List Nat

def sizeBytes (content : List Byte) : List Byte :=
  bytesOfWord (htonl (BitVec.ofNat 32 content.length))

/-- `send_yaml_to_switch` of `controller.cpp`. -/
def sendYamlToSwitch (calls : SendCalls) (content : List Byte) : Sending :=
  (sendOnce calls.size (sizeBytes content)).andThen
    (sendContent calls.content content)

def cmdSetConnections : Byte := 4

/-- `send_yaml_config` of `test_controller.c`. -/
def sendYamlConfig (calls : SendCalls) (content : List Byte) : Sending :=
  (sendOnce calls.command [cmdSetConnections]).andThen
    (sendYamlToSwitch calls content)

/-- `controller_communicator::send_yaml_to_switch` of `controller.h`. -/
def communicatorSendYamlToSwitch (calls : SendCalls) (content : List Byte) :
    Sending :=
  if content = [] then ⟨[], false⟩ else sendYamlConfig calls content

inductive YamlSender where
  | controller
  | communicator
  | testController
  deriving DecidableEq

def YamlSender.send : YamlSender → SendCalls → List Byte → Sending
  | controller => sendYamlToSwitch
  | communicator => communicatorSendYamlToSwitch
  | testController => sendYamlConfig

/-- One call of `receive_yaml_config`: the string handed to
`parse_yaml_config`, the sizes of the buffer and of what is written to it, and
what is left of the stream. -/
structure Reception where
  text : Option (List Byte)
  allocated : Nat
  written : Nat
  rest : List (List Byte)

/-- `stale` is what the stack holds where `yaml_size` lies. -/
def receiveYamlConfig (stale : List Byte) (segments : List (List Byte)) :
    Reception :=
  let header := collect 4 segments
  if header.1 = [] then ⟨none, 0, 0, header.2⟩
  else
    let yamlSize := ntohl (wordAt (header.1 ++ stale) 0)
    let content := collect yamlSize.toNat header.2
    let complete := content.1.length = yamlSize.toNat
    { text :=
        if complete then some (content.1.takeWhile fun byte => byte ≠ 0)
        else none
      allocated := (yamlSize + 1).toNat
      written :=
        if complete then yamlSize.toNat + 1 else content.1.length
      rest := content.2 }

/-- A document and how it was sent. -/
abbrev Dispatch := SendCalls × List Byte

/-- The bytes of some documents on the wire. -/
def YamlSender.stream (sender : YamlSender) (dispatches : List Dispatch) :
    List Byte :=
  dispatches.flatMap fun dispatch => (sender.send dispatch.1 dispatch.2).written

/-- Repeated calls return the documents, stay within their buffers and leave
the stream where the next frame starts. -/
def YamlSender.Decodes (sender : YamlSender) (stale : List Byte) :
    List Dispatch → List (List Byte) → Prop
  | [], segments => segments.flatten = []
  | dispatch :: dispatches, segments =>
      let reception := receiveYamlConfig stale segments
      reception.text = some dispatch.2 ∧
        reception.written ≤ reception.allocated ∧
          reception.rest.flatten = sender.stream dispatches ∧
            sender.Decodes stale dispatches reception.rest

/-- The sender reports success, and the document is a C string. -/
structure YamlSender.Sends (sender : YamlSender) (dispatch : Dispatch) :
    Prop where
  success : (sender.send dispatch.1 dispatch.2).success = true
  isText : (0 : Byte) ∉ dispatch.2

section Senders

variable {calls : SendCalls} {content : List Byte} {first second : Sending}

theorem Sending.andThen_success :
    (first.andThen second).success = true ↔
      first.success = true ∧ second.success = true := by
  unfold Sending.andThen
  split_ifs with going
  · simp [going]
  · simp [going]

theorem Sending.andThen_written (going : first.success = true) :
    (first.andThen second).written = first.written ++ second.written := by
  rw [Sending.andThen, if_pos going]

theorem written_sendOnce {accepted : Nat} {bytes : List Byte}
    (success : (sendOnce accepted bytes).success = true) :
    (sendOnce accepted bytes).written = bytes :=
  List.take_of_length_le (of_decide_eq_true success)

/-- However the content is cut, all of it is written. -/
theorem written_sendContent {accepted : List Nat}
    (success : (sendContent accepted content).success = true) :
    (sendContent accepted content).written = content := by
  induction accepted generalizing content with
  | nil =>
      cases content with
      | nil => rfl
      | cons byte content => cases success
  | cons sent accepted induction =>
      cases content with
      | nil => rfl
      | cons byte content =>
          cases sent with
          | zero => cases success
          | succ sent =>
              have rest := induction success
              simp only [sendContent, rest, List.cons_append,
                List.take_append_drop]

theorem written_sendYamlToSwitch
    (success : (sendYamlToSwitch calls content).success = true) :
    (sendYamlToSwitch calls content).written =
      sizeBytes content ++ content := by
  obtain ⟨sized, sent⟩ := Sending.andThen_success.mp success
  rw [sendYamlToSwitch, Sending.andThen_written sized, written_sendOnce sized,
    written_sendContent sent]

theorem written_sendYamlConfig
    (success : (sendYamlConfig calls content).success = true) :
    (sendYamlConfig calls content).written =
      cmdSetConnections :: (sizeBytes content ++ content) := by
  obtain ⟨commanded, sent⟩ := Sending.andThen_success.mp success
  rw [sendYamlConfig, Sending.andThen_written commanded,
    written_sendOnce commanded, written_sendYamlToSwitch sent]
  rfl

end Senders

section Receiver

variable {stale header body : List Byte} {segments : List (List Byte)}

/-- The length a header announces. -/
def headerSize (header : List Byte) : Nat := (ntohl (wordAt header 0)).toNat

theorem headerSize_lt (header : List Byte) : headerSize header < 2 ^ 32 :=
  (ntohl (wordAt header 0)).isLt

theorem headerSize_sizeBytes (content : List Byte) :
    headerSize (sizeBytes content) = content.length % 2 ^ 32 := by
  have same : wordAt (sizeBytes content) 0 =
      htonl (BitVec.ofNat 32 content.length) := word_of_bytes _
  rw [headerSize, same, ntohl_htonl, BitVec.toNat_ofNat]

/-- What a call does with a stream that has a header. -/
structure Reception.Reads (reception : Reception) (size : Nat)
    (body : List Byte) : Prop where
  text : reception.text =
    if size ≤ body.length then
      some ((body.take size).takeWhile fun byte => byte ≠ 0)
    else none
  allocated : reception.allocated = (size + 1) % 2 ^ 32
  written : reception.written =
    if size ≤ body.length then size + 1 else body.length
  rest : reception.rest.flatten = body.drop size

theorem wordAt_append (four : header.length = 4) :
    wordAt (header ++ stale) 0 = wordAt header 0 := by
  match header, four with
  | [_, _, _, _], _ => rfl

theorem receiveYamlConfig_reads (stale : List Byte) (four : header.length = 4)
    (stream : segments.flatten = header ++ body) :
    (receiveYamlConfig stale segments).Reads (headerSize header) body := by
  have first : (collect 4 segments).1 = header := by
    rw [collect_fst, stream, List.take_left' four]
  have behind : (collect 4 segments).2.flatten = body := by
    rw [flatten_collect_snd, stream, List.drop_left' four]
  have nonempty : ¬header = [] := by
    rintro rfl
    cases four
  have taken : (body.take (headerSize header)).length = headerSize header ↔
      headerSize header ≤ body.length := by
    rw [List.length_take]
    omega
  have received : receiveYamlConfig stale segments =
      { text :=
          if (body.take (headerSize header)).length = headerSize header then
            some ((body.take (headerSize header)).takeWhile fun byte => byte ≠ 0)
          else none
        allocated := (ntohl (wordAt header 0) + 1).toNat
        written :=
          if (body.take (headerSize header)).length = headerSize header then
            headerSize header + 1
          else (body.take (headerSize header)).length
        rest := (collect (headerSize header) (collect 4 segments).2).2 } := by
    simp only [receiveYamlConfig, first, if_neg nonempty, wordAt_append four,
      collect_fst, behind, headerSize]
    rfl
  rw [received]
  refine ⟨by simp only [taken], ?_, ?_, ?_⟩
  · simp only [BitVec.toNat_add, headerSize]
    rfl
  · simp only [taken]
    split_ifs with complete
    · rfl
    · rw [List.length_take, Nat.min_eq_right (by omega)]
  · simp only [flatten_collect_snd, behind]

end Receiver

namespace YamlSender

variable {sender : YamlSender} {stale : List Byte} {segments : List (List Byte)}
  {dispatch : Dispatch} {dispatches : List Dispatch}

theorem stream_cons :
    sender.stream (dispatch :: dispatches) =
      (sender.send dispatch.1 dispatch.2).written ++
        sender.stream dispatches := List.flatMap_cons

theorem takeWhile_text {text : List Byte} (isText : (0 : Byte) ∉ text) :
    (text.takeWhile fun byte => byte ≠ 0) = text := by
  refine List.takeWhile_eq_self_iff.mpr fun byte inside => ?_
  exact decide_eq_true fun zero => isText (zero ▸ inside)

theorem decodes_controller
    (sends : ∀ dispatch ∈ dispatches, controller.Sends dispatch)
    (short : ∀ dispatch ∈ dispatches, dispatch.2.length + 1 < 2 ^ 32)
    (stream : segments.flatten = controller.stream dispatches) :
    controller.Decodes stale dispatches segments := by
  induction dispatches generalizing segments with
  | nil => exact stream
  | cons dispatch dispatches induction =>
      have own := sends dispatch List.mem_cons_self
      have fits := short dispatch List.mem_cons_self
      have frame : segments.flatten = sizeBytes dispatch.2 ++
          (dispatch.2 ++ controller.stream dispatches) := by
        rw [stream, stream_cons, ← List.append_assoc]
        exact congrArg (· ++ _) (written_sendYamlToSwitch own.success)
      have reads := receiveYamlConfig_reads stale
        (show (sizeBytes dispatch.2).length = 4 from rfl) frame
      rw [headerSize_sizeBytes, Nat.mod_eq_of_lt (by omega)] at reads
      have complete : dispatch.2.length ≤
          (dispatch.2 ++ controller.stream dispatches).length := by
        rw [List.length_append]
        omega
      have rest := reads.rest
      rw [List.drop_left] at rest
      refine ⟨?_, ?_, rest, ?_⟩
      · rw [reads.text, if_pos complete, List.take_left,
          takeWhile_text own.isText]
      · rw [reads.written, if_pos complete, reads.allocated,
          Nat.mod_eq_of_lt fits]
      · exact induction
          (fun other inside => sends other (List.mem_cons_of_mem _ inside))
          (fun other inside => short other (List.mem_cons_of_mem _ inside)) rest

theorem size_eq_of_rest {size : Nat} {body rest : List Byte}
    {reception : Reception} (reads : reception.Reads size body)
    {text : List Byte} (isText : reception.text = some text)
    (left : reception.rest.flatten = rest) :
    size + rest.length = body.length ∧
      (body.take size).takeWhile (fun byte => byte ≠ 0) = text := by
  have complete : size ≤ body.length := by
    by_contra short
    rw [reads.text, if_neg short] at isText
    cases isText
  rw [reads.text, if_pos complete, Option.some.injEq] at isText
  rw [← left, reads.rest, List.length_drop]
  exact ⟨by omega, isText⟩

/-- Longer documents do not fit the length field, or the buffer. -/
theorem short_of_decodes
    (sends : ∀ dispatch ∈ dispatches, controller.Sends dispatch)
    (stream : segments.flatten = controller.stream dispatches)
    (decodes : controller.Decodes stale dispatches segments) :
    ∀ dispatch ∈ dispatches, dispatch.2.length + 1 < 2 ^ 32 := by
  induction dispatches generalizing segments with
  | nil => exact nofun
  | cons dispatch dispatches induction =>
      obtain ⟨text, fits, rest, later⟩ := decodes
      have own := sends dispatch List.mem_cons_self
      have frame : segments.flatten = sizeBytes dispatch.2 ++
          (dispatch.2 ++ controller.stream dispatches) := by
        rw [stream, stream_cons, ← List.append_assoc]
        exact congrArg (· ++ _) (written_sendYamlToSwitch own.success)
      have reads := receiveYamlConfig_reads stale
        (show (sizeBytes dispatch.2).length = 4 from rfl) frame
      obtain ⟨size, -⟩ := size_eq_of_rest reads text rest
      rw [List.length_append] at size
      have same : headerSize (sizeBytes dispatch.2) = dispatch.2.length := by
        omega
      have bound := headerSize_lt (sizeBytes dispatch.2)
      rw [reads.written, reads.allocated, same, List.length_append,
        if_pos (Nat.le_add_right _ _)] at fits
      intro other inside
      rcases List.mem_cons.mp inside with rfl | isLater
      · omega
      · exact induction
          (fun third isThird => sends third (List.mem_cons_of_mem _ isThird))
          rest later other isLater

/-- The command byte shifts the header, and the length read is another one. -/
theorem not_decodes_command
    (withCommand : (sender.send dispatch.1 dispatch.2).written =
      cmdSetConnections :: (sizeBytes dispatch.2 ++ dispatch.2))
    (isText : (0 : Byte) ∉ dispatch.2)
    (stream : segments.flatten = sender.stream (dispatch :: dispatches)) :
    ¬sender.Decodes stale (dispatch :: dispatches) segments := by
  rintro ⟨text, -, rest, -⟩
  obtain ⟨high, second, third, low, bytes⟩ : ∃ high second third low,
      sizeBytes dispatch.2 = [high, second, third, low] := ⟨_, _, _, _, rfl⟩
  have frame : segments.flatten = [cmdSetConnections, high, second, third] ++
      (low :: dispatch.2 ++ sender.stream dispatches) := by
    rw [stream, stream_cons, withCommand, bytes]
    rfl
  have reads := receiveYamlConfig_reads stale
    (show [cmdSetConnections, high, second, third].length = 4 from rfl) frame
  obtain ⟨size, read⟩ := size_eq_of_rest reads text rest
  rw [List.length_append, List.length_cons] at size
  have one : headerSize [cmdSetConnections, high, second, third] =
      (low :: dispatch.2).length := by
    rw [List.length_cons]
    omega
  rw [one, List.take_left, List.takeWhile_cons] at read
  split_ifs at read with lowZero
  · rw [takeWhile_text isText] at read
    exact absurd (congrArg List.length read) (by simp)
  · rw [← read] at one bytes
    have zeros : sizeBytes [] = [0, 0, 0, 0] := by
      decide
    obtain ⟨rfl, rfl, rfl, -⟩ : high = 0 ∧ second = 0 ∧ third = 0 ∧ low = 0 := by
      simpa using bytes.symm.trans zeros
    have shifted : headerSize [cmdSetConnections, 0, 0, 0] = 1 := one
    exact absurd shifted (by decide)

/-- The stream of documents that have been sent is read back exactly when there
are none or they were sent by `controller.cpp` and are short enough. -/
theorem decodes_iff
    (sends : ∀ dispatch ∈ dispatches, sender.Sends dispatch)
    (stream : segments.flatten = sender.stream dispatches) :
    sender.Decodes stale dispatches segments ↔
      dispatches = [] ∨ (sender = .controller ∧
        ∀ dispatch ∈ dispatches, dispatch.2.length + 1 < 2 ^ 32) := by
  cases dispatches with
  | nil => exact ⟨fun _ => Or.inl rfl, fun _ => stream⟩
  | cons dispatch dispatches =>
      have own := sends dispatch List.mem_cons_self
      cases sender with
      | controller =>
          constructor
          · intro decodes
            exact Or.inr ⟨rfl, short_of_decodes sends stream decodes⟩
          · rintro (none | ⟨-, short⟩)
            · cases none
            · exact decodes_controller sends short stream
      | communicator =>
          have success := own.success
          have nonempty : ¬dispatch.2 = [] := by
            intro empty
            rw [send, communicatorSendYamlToSwitch, if_pos empty] at success
            cases success
          have written : (communicator.send dispatch.1 dispatch.2).written =
              cmdSetConnections :: (sizeBytes dispatch.2 ++ dispatch.2) := by
            rw [send, communicatorSendYamlToSwitch, if_neg nonempty] at success ⊢
            exact written_sendYamlConfig success
          refine iff_of_false
            (not_decodes_command written own.isText stream) ?_
          rintro (none | ⟨other, -⟩)
          · cases none
          · cases other
      | testController =>
          refine iff_of_false (not_decodes_command
            (written_sendYamlConfig own.success) own.isText stream) ?_
          rintro (none | ⟨other, -⟩)
          · cases none
          · cases other

end YamlSender

/-- The buffer holds what is written to it unless the length wraps around. -/
theorem written_le_allocated_iff {stale header body : List Byte}
    {segments : List (List Byte)} (four : header.length = 4)
    (stream : segments.flatten = header ++ body) :
    (receiveYamlConfig stale segments).written ≤
        (receiveYamlConfig stale segments).allocated ↔
      headerSize header ≠ 2 ^ 32 - 1 ∨ body = [] := by
  have reads := receiveYamlConfig_reads stale four stream
  have bound := headerSize_lt header
  rw [reads.written, reads.allocated]
  by_cases largest : headerSize header = 2 ^ 32 - 1
  · have wrapped : (headerSize header + 1) % 2 ^ 32 = 0 := by
      rw [largest]
      norm_num
    rw [wrapped, ← List.length_eq_zero_iff]
    split_ifs with complete <;> omega
  · rw [Nat.mod_eq_of_lt (by omega)]
    split_ifs with complete <;> omega

/-- The framing: which senders' documents are read back, and for which lengths
the receiver stays within its buffer. -/
theorem framing (stale : List Byte) :
    (∀ (sender : YamlSender) (dispatches : List Dispatch)
        (segments : List (List Byte)),
      (∀ dispatch ∈ dispatches, sender.Sends dispatch) →
      segments.flatten = sender.stream dispatches →
        (sender.Decodes stale dispatches segments ↔
          dispatches = [] ∨ (sender = .controller ∧
            ∀ dispatch ∈ dispatches, dispatch.2.length + 1 < 2 ^ 32))) ∧
      ∀ (header body : List Byte) (segments : List (List Byte)),
        header.length = 4 → segments.flatten = header ++ body →
          ((receiveYamlConfig stale segments).written ≤
              (receiveYamlConfig stale segments).allocated ↔
            headerSize header ≠ 2 ^ 32 - 1 ∨ body = []) :=
  ⟨fun _ _ _ sends stream => YamlSender.decodes_iff sends stream,
    fun _ _ _ four stream => written_le_allocated_iff four stream⟩

/-- Two documents, the first in two pieces, that arrive cut elsewhere. -/
theorem framing_twoDocuments :
    YamlSender.controller.Decodes []
      [(⟨0, 4, [1, 1]⟩, [97, 98]), (⟨0, 9, [5]⟩, [99])]
      [[0, 0], [0, 2, 97], [98, 0, 0, 0, 1, 99]] := by
  refine ((framing []).1 .controller _ _ ?_ (by decide)).mpr
    (Or.inr ⟨rfl, by decide⟩)
  intro dispatch inside
  simp only [List.mem_cons, List.not_mem_nil, or_false] at inside
  rcases inside with rfl | rfl
  · exact ⟨by decide, by decide⟩
  · exact ⟨by decide, by decide⟩

/-- What `controller.h` sends is not what the switch expects. -/
theorem not_decodes_communicator :
    ¬∀ (sender : YamlSender) (stale : List Byte) (dispatches : List Dispatch)
        (segments : List (List Byte)),
      (∀ dispatch ∈ dispatches, sender.Sends dispatch) →
      segments.flatten = sender.stream dispatches →
        sender.Decodes stale dispatches segments := by
  intro always
  have decodes := always .communicator []
    [(⟨1, 4, [1]⟩, [97])] [[4, 0, 0, 0, 1, 97]]
    (fun dispatch inside => by
      obtain rfl := List.mem_singleton.mp inside
      exact ⟨by decide, by decide⟩)
    (by decide)
  exact YamlSender.not_decodes_command (by decide) (by decide) (by decide)
    decodes

end IncEmulation
