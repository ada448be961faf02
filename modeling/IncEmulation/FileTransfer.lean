import IncEmulation.Framing

/-!
# File transfers (`send_file_with_length` and `receive_file` of `util.c`)

`controller.cpp` has a sender of its own with the same text.  A schedule says
what each call of `send` or `recv` returns, 0 standing for any failure; `recv`
returns less where the stream has less.  Files open, and reads and writes of
them succeed.
-/

namespace IncEmulation

open Memory

/-- What call `call` returns when it is asked for `requested` bytes. -/
abbrev SocketSchedule := Nat → Nat → Nat

/-- Every call transfers something and no more than asked for. -/
def SocketSchedule.Partial (schedule : SocketSchedule) : Prop :=
  ∀ call requested, 0 < requested →
    0 < schedule call requested ∧ schedule call requested ≤ requested

/-- What the calls have put on the stream, how many there were, and whether the
function goes on. -/
structure Sent where
  written : List Byte
  calls : Nat
  success : Bool
  deriving DecidableEq

section Sender

variable (schedule : SocketSchedule)

/-- `while (sent < size)`, for the size and for a block of the file. -/
def sendBlock (buffer : List Byte) (call sent : Nat) : Sent :=
  if sent < buffer.length then
    let ret := schedule call (buffer.length - sent)
    if ret = 0 then ⟨[], call + 1, false⟩
    else
      let rest := sendBlock buffer (call + 1) (sent + ret)
      ⟨(buffer.drop sent).take ret ++ rest.written, rest.calls, rest.success⟩
  else ⟨[], call, true⟩
termination_by buffer.length - sent

def bufferSize : Nat := 4096

/-- `while (total_sent < file_size)`; a block that has been sent counts with the
bytes read. -/
def sendBlocks (file : List Byte) (call totalSent : Nat) : Sent :=
  if totalSent < file.length then
    let toRead := min bufferSize (file.length - totalSent)
    let block :=
      sendBlock schedule ((file.drop totalSent).take toRead) call 0
    if block.success then
      let rest := sendBlocks file block.calls (totalSent + toRead)
      ⟨block.written ++ rest.written, rest.calls, rest.success⟩
    else block
  else ⟨[], call, true⟩
termination_by file.length - totalSent
decreasing_by
  simp only [bufferSize]
  omega

def sendFileWithLength (file : List Byte) : Sent :=
  let size := sendBlock schedule (sizeBytes file) 0 0
  if size.success then
    let content := sendBlocks schedule file size.calls 0
    ⟨size.written ++ content.written, content.calls, content.success⟩
  else size

/-- The bytes that a call of `recv` takes off the stream. -/
def recv (stream : List Byte) (call requested : Nat) : List Byte :=
  stream.take (schedule call requested)

/-- `while (received < sizeof(net_file_size))`: the bytes of the size unless a
call fails, the number of calls, and the rest of the stream. -/
def receiveSize (stream : List Byte) (call : Nat) (received : List Byte) :
    Option (List Byte) × Nat × List Byte :=
  if received.length < 4 then
    let bytes := recv schedule stream call (4 - received.length)
    if bytes = [] then (none, call + 1, stream)
    else
      receiveSize (stream.drop bytes.length) (call + 1) (received ++ bytes)
  else (some received, call, stream)
termination_by 4 - received.length
decreasing_by
  rename_i nonempty
  have positive :
      0 < (recv schedule stream call (4 - received.length)).length :=
    List.length_pos_iff.mpr nonempty
  rw [List.length_append]
  omega

/-- `while (remaining > 0)`: what goes to the file, and the rest of the
stream. -/
def receiveContent (stream : List Byte) (call remaining : Nat) :
    List Byte × List Byte :=
  if 0 < remaining then
    let bytes := recv schedule stream call (min bufferSize remaining)
    if bytes = [] then ([], stream)
    else
      let rest := receiveContent (stream.drop bytes.length) (call + 1)
        (remaining - bytes.length)
      (bytes ++ rest.1, rest.2)
  else ([], stream)
termination_by remaining
decreasing_by
  rename_i nonempty
  have positive :
      0 < (recv schedule stream call (min bufferSize remaining)).length :=
    List.length_pos_iff.mpr nonempty
  omega

/-- The file, where it has been opened, and the rest of the stream. -/
def receiveFile (stream : List Byte) : Option (List Byte) × List Byte :=
  match receiveSize schedule stream 0 [] with
  | (none, _, rest) => (none, rest)
  | (some netFileSize, calls, rest) =>
      let content := receiveContent schedule rest calls (headerSize netFileSize)
      (some content.1, content.2)

end Sender

/-- A file and how it is sent and received. -/
structure Transfer where
  file : List Byte
  sends : SocketSchedule
  recvs : SocketSchedule

/-- The file has a size of 32 bits, and no call of either side fails. -/
structure Transfer.Runs (transfer : Transfer) : Prop where
  size : transfer.file.length < 2 ^ 32
  sends : transfer.sends.Partial
  recvs : transfer.recvs.Partial

def Transfer.sent (transfer : Transfer) : Sent :=
  sendFileWithLength transfer.sends transfer.file

/-- One call of `receive_file` after the other. -/
def receiveFiles : List SocketSchedule → List Byte →
    List (Option (List Byte)) × List Byte
  | [], stream => ([], stream)
  | schedule :: schedules, stream =>
      let file := receiveFile schedule stream
      let rest := receiveFiles schedules file.2
      (file.1 :: rest.1, rest.2)

/-- The senders send four bytes more than the files have, and the receivers
store the files and take no byte that follows. -/
structure InStep (transfers : List Transfer) (further : List Byte) : Prop where
  sent : ∀ transfer ∈ transfers, transfer.sent.success = true ∧
    transfer.sent.written.length = 4 + transfer.file.length
  received :
    receiveFiles (transfers.map Transfer.recvs)
        (transfers.flatMap (fun transfer => transfer.sent.written) ++
          further) =
      (transfers.map fun transfer => some transfer.file, further)

section Loops

variable {schedule : SocketSchedule}

theorem sendBlock_eq (partials : schedule.Partial) (buffer : List Byte)
    (call sent : Nat) :
    ∃ calls, sendBlock schedule buffer call sent =
      ⟨buffer.drop sent, calls, true⟩ := by
  fun_induction sendBlock schedule buffer call sent with
  | case1 call sent more ret failed =>
      have some := (partials call (buffer.length - sent) (by omega)).1
      exact absurd failed (by omega)
  | case2 call sent more ret going rest induction =>
      obtain ⟨calls, same⟩ := induction
      refine ⟨calls, ?_⟩
      simp only [rest, same]
      rw [← List.drop_drop, List.take_append_drop]
  | case3 call sent done =>
      refine ⟨call, ?_⟩
      rw [List.drop_of_length_le (Nat.not_lt.mp done)]

/-- The loop puts what is left of the file on the stream. -/
theorem sendBlocks_eq (partials : schedule.Partial) (file : List Byte)
    (call totalSent : Nat) :
    ∃ calls, sendBlocks schedule file call totalSent =
      ⟨file.drop totalSent, calls, true⟩ := by
  fun_induction sendBlocks schedule file call totalSent with
  | case1 call totalSent more toRead block success rest induction =>
      obtain ⟨calls, same⟩ := induction
      obtain ⟨blockCalls, sent⟩ := sendBlock_eq partials
        ((file.drop totalSent).take toRead) call 0
      refine ⟨calls, ?_⟩
      have written : block.written = (file.drop totalSent).take toRead :=
        congrArg Sent.written sent
      simp only [rest, same, written]
      rw [← List.drop_drop, List.take_append_drop]
  | case2 call totalSent more toRead block failed =>
      obtain ⟨blockCalls, sent⟩ := sendBlock_eq partials
        ((file.drop totalSent).take toRead) call 0
      exact absurd (congrArg Sent.success sent) failed
  | case3 call totalSent done =>
      refine ⟨call, ?_⟩
      rw [List.drop_of_length_le (Nat.not_lt.mp done)]

theorem sendFileWithLength_eq (partials : schedule.Partial)
    (file : List Byte) :
    ∃ calls, sendFileWithLength schedule file =
      ⟨sizeBytes file ++ file, calls, true⟩ := by
  obtain ⟨sizeCalls, size⟩ := sendBlock_eq partials (sizeBytes file) 0 0
  obtain ⟨calls, content⟩ := sendBlocks_eq partials file sizeCalls 0
  refine ⟨calls, ?_⟩
  simp only [sendFileWithLength, size, content, List.drop_zero]
  rfl

theorem recv_ne_nil (partials : schedule.Partial) {stream : List Byte}
    (nonempty : stream ≠ []) {requested : Nat} (asked : 0 < requested)
    (call : Nat) : recv schedule stream call requested ≠ [] := by
  have positive := (partials call requested asked).1
  rw [recv, Ne, List.take_eq_nil_iff]
  rintro (zero | empty)
  · omega
  · exact nonempty empty

theorem take_length_recv {stream : List Byte} {call requested : Nat} :
    stream.take (recv schedule stream call requested).length =
      recv schedule stream call requested :=
  List.prefix_iff_eq_take.mp (List.take_prefix ..) |>.symm

theorem length_recv_le (partials : schedule.Partial) {stream : List Byte}
    {call requested : Nat} (asked : 0 < requested) :
    (recv schedule stream call requested).length ≤ requested ∧
      (recv schedule stream call requested).length ≤ stream.length := by
  have most := (partials call requested asked).2
  rw [recv, List.length_take]
  omega

/-- The loop gathers four bytes. -/
theorem receiveSize_eq (partials : schedule.Partial) (stream : List Byte)
    (call : Nat) (received : List Byte)
    (enough : 4 ≤ received.length + stream.length)
    (few : received.length ≤ 4) :
    ∃ calls, receiveSize schedule stream call received =
      (some (received ++ stream.take (4 - received.length)), calls,
        stream.drop (4 - received.length)) := by
  fun_induction receiveSize schedule stream call received with
  | case1 stream call received more bytes failed =>
      have nonempty : stream ≠ [] := by
        rintro rfl
        rw [List.length_nil] at enough
        omega
      exact absurd failed
        (recv_ne_nil partials nonempty (by omega) call)
  | case2 stream call received more bytes going induction =>
      obtain ⟨most, inStream⟩ : bytes.length ≤ 4 - received.length ∧
          bytes.length ≤ stream.length := length_recv_le partials (by omega)
      have front : stream.take bytes.length = bytes := take_length_recv
      obtain ⟨calls, same⟩ := induction
        (by rw [List.length_append, List.length_drop]; omega)
        (by rw [List.length_append]; omega)
      refine ⟨calls, ?_⟩
      rw [same, List.length_append, List.drop_drop]
      have total : 4 - received.length =
          bytes.length + (4 - (received.length + bytes.length)) := by omega
      rw [total, List.take_add, front, List.append_assoc]
  | case3 stream call received done =>
      have none : 4 - received.length = 0 := by omega
      exact ⟨call, by rw [none, List.take_zero, List.append_nil,
        List.drop_zero]⟩

/-- The loop gathers the bytes that remain. -/
theorem receiveContent_eq (partials : schedule.Partial) (stream : List Byte)
    (call remaining : Nat) (enough : remaining ≤ stream.length) :
    receiveContent schedule stream call remaining =
      (stream.take remaining, stream.drop remaining) := by
  fun_induction receiveContent schedule stream call remaining with
  | case1 stream call remaining more bytes failed =>
      have nonempty : stream ≠ [] := by
        rintro rfl
        rw [List.length_nil] at enough
        omega
      exact absurd failed
        (recv_ne_nil partials nonempty (by simp only [bufferSize]; omega) call)
  | case2 stream call remaining more bytes going rest induction =>
      obtain ⟨most, inStream⟩ : bytes.length ≤ min bufferSize remaining ∧
          bytes.length ≤ stream.length :=
        length_recv_le partials (by simp only [bufferSize]; omega)
      have front : stream.take bytes.length = bytes := take_length_recv
      have same := induction (by rw [List.length_drop]; omega)
      simp only [rest, same, List.drop_drop]
      have total : remaining = bytes.length + (remaining - bytes.length) := by
        omega
      rw [← total]
      conv_rhs => rw [total, List.take_add, front, ← total]
  | case3 stream call remaining done =>
      obtain rfl : remaining = 0 := by omega
      rfl

theorem receiveFile_eq (partials : schedule.Partial) {file : List Byte}
    (size : file.length < 2 ^ 32) (further : List Byte) :
    receiveFile schedule (sizeBytes file ++ file ++ further) =
      (some file, further) := by
  have four : (sizeBytes file).length = 4 := rfl
  obtain ⟨calls, header⟩ := receiveSize_eq partials
    (sizeBytes file ++ file ++ further) 0 []
    (by simp only [List.length_append]; omega) (Nat.zero_le 4)
  rw [List.length_nil, Nat.sub_zero, List.append_assoc, List.nil_append,
    List.take_left' four, List.drop_left' four] at header
  have content := receiveContent_eq partials (file ++ further) calls file.length
    (by rw [List.length_append]; omega)
  rw [List.take_left, List.drop_left] at content
  rw [receiveFile, List.append_assoc, header]
  simp only [headerSize_sizeBytes, Nat.mod_eq_of_lt size, content]

end Loops

/-- Transfers stay in step on every schedule. -/
theorem sendFileWithLength_inStep {transfers : List Transfer}
    (runs : ∀ transfer ∈ transfers, transfer.Runs) (further : List Byte) :
    InStep transfers further := by
  refine ⟨?_, ?_⟩
  · intro transfer member
    obtain ⟨calls, sent⟩ :=
      sendFileWithLength_eq (runs transfer member).sends transfer.file
    rw [Transfer.sent, sent]
    refine ⟨rfl, ?_⟩
    rw [List.length_append]
    rfl
  · induction transfers with
    | nil => rfl
    | cons transfer transfers induction =>
        have own := runs transfer List.mem_cons_self
        have rest := induction fun other member =>
          runs other (List.mem_cons_of_mem _ member)
        obtain ⟨calls, sent⟩ := sendFileWithLength_eq own.sends transfer.file
        have first := receiveFile_eq own.recvs own.size
          (transfers.flatMap (fun transfer => transfer.sent.written) ++ further)
        rw [List.flatMap_cons, List.append_assoc, Transfer.sent, sent]
        simp only [List.map_cons, receiveFiles, first, rest]

/-- Calls that transfer one byte each, and calls that transfer everything. -/
def transferSlowly : Transfer where
  file := [1, 2, 3]
  sends := fun _ requested => min 1 requested
  recvs := fun _ requested => requested

theorem sendFileWithLength_inStep_slowly :
    InStep [transferSlowly, transferSlowly] [9] := by
  refine sendFileWithLength_inStep ?_ [9]
  have runs : transferSlowly.Runs := by
    refine ⟨by decide, ?_, ?_⟩
    · intro call requested asked
      simp only [transferSlowly]
      omega
    · exact fun call requested asked => ⟨asked, Nat.le_refl requested⟩
  simp [runs]

end IncEmulation
