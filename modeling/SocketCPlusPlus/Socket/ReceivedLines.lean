import SocketCPlusPlus.Socket.SessionActors

/-! What a client makes of the stream of the server: it cuts it at the newlines, however the bytes
arrive, and prints the lines that are not empty. -/
namespace SocketCPlusPlus.Socket
open Foundation Packets

/-- The line of a message, if it prints one. -/
def Message.received? {Endpoint : Type} : Message Endpoint → Option (List UInt8)
  | .received line => some line
  | _ => none

namespace ClientSession
variable {Endpoint : Type}

/-- The bytes that an event brings. -/
def Event.bytes : Event → List UInt8
  | .arrive bytes => bytes
  | _ => []

/-- The stream so far. -/
def arrived (taken : List (Taken (ClientSession Endpoint) Event)) : List UInt8 :=
  taken.flatMap (·.event.bytes)

/-- A read of a line that ends while the client runs. -/
def readsLine (t : Taken (ClientSession Endpoint) Event) : Bool :=
  match t.event with
  | .readDone false => !t.before.stopped
  | _ => false

def linesRead (taken : List (Taken (ClientSession Endpoint) Event)) : Nat :=
  taken.countP readsLine

/-- The lines printed so far. -/
def received (s : ClientSession Endpoint) : List (List UInt8) :=
  s.console.filterMap Message.received?

/-- The stream so far is the lines read, each with its newline, and what the buffer holds. -/
structure Cut (stream : List UInt8) (lines : List (List UInt8)) (s : ClientSession Endpoint) :
    Prop where
  whole : ∀ line ∈ lines, newline ∉ line
  stream : stream = Lines.ended newline lines ++ s.inputBuffer
  received : s.received = lines.filter (· ≠ [])

namespace Cut
variable {s s' : ClientSession Endpoint} {stream : List UInt8} {lines : List (List UInt8)}

theorem received_append (s : ClientSession Endpoint) (messages : List (Message Endpoint)) :
    (s.console ++ messages).filterMap Message.received? =
      s.received ++ messages.filterMap Message.received? :=
  List.filterMap_append ..

theorem of_same (h : Cut stream lines s) (hbuffer : s'.inputBuffer = s.inputBuffer)
    (hreceived : s'.received = s.received) : Cut stream lines s' := by
  refine ⟨h.whole, ?_, ?_⟩
  · rw [hbuffer]
    exact h.stream
  · rw [hreceived]
    exact h.received

theorem line (h : Cut stream lines s) (hrunning : s.stopped = false)
    (hline : newline ∈ s.inputBuffer) :
    ∃ line, Cut stream (lines ++ [line])
      (s.handleRead false (Lines.firstLength newline s.inputBuffer)) := by
  have hsplit := Lines.firstLength_split hline
  have hnot := Lines.not_mem_first newline s.inputBuffer
  rw [handleRead_line hrunning]
  generalize Lines.firstLength newline s.inputBuffer = n at hsplit hnot ⊢
  refine ⟨s.inputBuffer.take (n - 1), ?_, ?_, ?_⟩
  · exact List.forall_mem_append.mpr ⟨h.whole, List.forall_mem_singleton.mpr hnot⟩
  · rw [Lines.ended_snoc, List.append_assoc, List.append_assoc, List.singleton_append]
    dsimp only
    rw [← hsplit]
    exact h.stream
  · rw [List.filter_append, ← h.received]
    refine (received_append s _).trans (congrArg (s.received ++ ·) ?_)
    by_cases hempty : s.inputBuffer.take (n - 1) = []
    · rw [hempty]
      rfl
    · rw [if_pos hempty, List.filter_cons_of_pos (by simpa using hempty)]
      rfl

theorem startConnect (h : Cut stream lines s) (endpointIter : List Endpoint) (opened : Bool) :
    Cut stream lines (s.startConnect endpointIter opened) := by
  cases endpointIter with
  | nil =>
    apply h.of_same
    · rfl
    · rfl
  | cons endpoint rest =>
    apply h.of_same
    · rfl
    · exact (received_append s [.trying endpoint]).trans (List.append_nil _)

theorem connectDone (h : Cut stream lines s) (ec : Bool) (endpointIter : Endpoint × List Endpoint)
    (opened : Bool) (uninitialised : Memory) :
    Cut stream lines (s.handleConnect ec endpointIter opened uninitialised) := by
  cases hstopped : s.stopped with
  | true =>
    rw [handleConnect, if_pos hstopped]
    exact h
  | false =>
    by_cases hnext : s.isOpen = false ∨ ec = true
    · obtain ⟨message, hmessage, hconnect⟩ :=
        handleConnect_next hstopped hnext endpointIter opened uninitialised
      rw [hconnect]
      refine Cut.startConnect ?_ endpointIter.2 opened
      apply h.of_same
      · rfl
      · refine (received_append s [message]).trans ?_
        rcases hmessage with rfl | rfl
        · exact List.append_nil _
        · exact List.append_nil _
    · rw [not_or, Bool.not_eq_false, Bool.not_eq_true] at hnext
      obtain ⟨hopen, rfl⟩ := hnext
      rw [handleConnect_connected hstopped hopen]
      apply h.of_same
      · rfl
      · exact (received_append s [.connectedTo endpointIter.1]).trans (List.append_nil _)

theorem written (h : Cut stream lines s) (ec : Bool) : Cut stream lines (s.handleWrite ec) := by
  cases hstopped : s.stopped with
  | true =>
    rw [handleWrite, if_pos hstopped]
    exact h
  | false =>
    cases ec with
    | true =>
      rw [handleWrite_failed hstopped]
      apply h.of_same
      · rfl
      · refine (congrArg (List.filterMap Message.received?) (List.append_assoc ..)).trans ?_
        exact (received_append s _).trans (List.append_nil _)
    | false =>
      rw [handleWrite_written hstopped]
      apply h.of_same
      · rfl
      · exact (received_append s [.finishedWriting]).trans (List.append_nil _)

theorem readFailed (h : Cut stream lines s) : Cut stream lines (s.handleRead true 0) := by
  cases hstopped : s.stopped with
  | true =>
    rw [handleRead, if_pos hstopped]
    exact h
  | false =>
    rw [handleRead_failed hstopped]
    apply h.of_same
    · rfl
    · exact (received_append s [.errorOnReceive]).trans (List.append_nil _)

theorem deadline (h : Cut stream lines s) : Cut stream lines s.checkDeadline := by
  cases hstopped : s.stopped with
  | true =>
    rw [checkDeadline, if_pos hstopped]
    exact h
  | false =>
    rcases checkDeadline_cases hstopped with ⟨-, hclosed⟩ | ⟨-, hkept⟩
    · rw [hclosed]
      exact h.of_same rfl rfl
    · rw [hkept]
      exact h.of_same rfl rfl

theorem step (h : Cut stream lines s) {event : Event} (hs : Step s event s') :
    ∃ more, more.length = [⟨s, event, s'⟩].countP readsLine ∧
      Cut (stream ++ event.bytes) (lines ++ more) s' := by
  -- every event but the arrival of bytes leaves the stream, and all but one read no line
  have hquiet : ∀ {event : Event}, event.bytes = [] → readsLine ⟨s, event, s'⟩ = false →
      Cut stream lines s' → ∃ more, more.length = [⟨s, event, s'⟩].countP readsLine ∧
        Cut (stream ++ event.bytes) (lines ++ more) s' := by
    intro event hbytes hnone hcut
    refine ⟨[], (List.countP_eq_zero.mpr ?_).symm, ?_⟩
    · exact List.forall_mem_singleton.mpr (Bool.eq_false_iff.mp hnone)
    · rw [hbytes, List.append_nil, List.append_nil]
      exact hcut
  cases hs with
  | write packet => exact hquiet rfl rfl (h.of_same rfl rfl)
  | stop => exact hquiet rfl rfl (h.of_same rfl rfl)
  | tick seconds => exact hquiet rfl rfl (h.of_same rfl rfl)
  | connectDone ec opened uninitialised before after endpointIter hconnects =>
    refine hquiet rfl rfl (Cut.connectDone ?_ ec endpointIter opened uninitialised)
    exact h.of_same rfl rfl
  | arrive bytes hopen hreads =>
    refine ⟨[], rfl, ?_, ?_, ?_⟩
    · rw [List.append_nil]
      exact h.whole
    · change stream ++ bytes = _ ++ (s.inputBuffer ++ bytes)
      rw [List.append_nil, h.stream, List.append_assoc]
    · rw [List.append_nil]
      exact h.received
  | line reads hreads hline =>
    cases hstopped : s.stopped with
    | true =>
      refine hquiet rfl ?_ ?_
      · rw [readsLine, hstopped]
        rfl
      · rw [handleRead, if_pos hstopped]
        exact h.of_same rfl rfl
    | false =>
      have hcut : Cut stream lines { s with reads := reads } := h.of_same rfl rfl
      obtain ⟨line, hnext⟩ := hcut.line hstopped hline
      refine ⟨[line], ?_, ?_⟩
      · rw [List.countP_singleton, readsLine, hstopped]
        rfl
      · rw [show (Event.readDone false).bytes = [] from rfl, List.append_nil]
        exact hnext
  | readFailed reads hreads =>
    refine hquiet rfl rfl (Cut.readFailed ?_)
    exact h.of_same rfl rfl
  | written ec writes hwrites =>
    refine hquiet rfl rfl (Cut.written ?_ ec)
    exact h.of_same rfl rfl
  | heartbeat uninitialised waits hwaits => exact hquiet rfl rfl (h.of_same rfl rfl)
  | deadline checks hchecks =>
    refine hquiet rfl rfl (Cut.deadline ?_)
    exact h.of_same rfl rfl

/-- Every run has cut its stream at as many lines as it read. -/
theorem of_run {factory : PacketMethodFactory Packet PacketClass UInt16} {now : Nat}
    {endpoints : List Endpoint} {opened : Bool} {s : ClientSession Endpoint}
    {taken : List (Taken (ClientSession Endpoint) Event)}
    (h : History ClientSession.Step ((new factory now).start endpoints opened) taken s) :
    ∃ lines, lines.length = linesRead taken ∧ Cut (arrived taken) lines s := by
  induction h with
  | start =>
    have hnew : Cut [] [] { (new factory now : ClientSession Endpoint) with
        endpoints := endpoints } :=
      ⟨fun _ hmem => absurd hmem List.not_mem_nil, rfl, rfl⟩
    exact ⟨[], rfl, (hnew.startConnect endpoints opened).of_same rfl rfl⟩
  | step _ hs ih =>
    obtain ⟨lines, hlength, hcut⟩ := ih
    obtain ⟨more, hmore, hnext⟩ := hcut.step hs
    refine ⟨lines ++ more, ?_, ?_⟩
    · rw [List.length_append, hlength, hmore]
      exact (List.countP_append ..).symm
    · rw [arrived, List.flatMap_append, List.flatMap_singleton]
      exact hnext

end Cut

/-- However the stream of the server arrives, the lines that a client prints are its first lines
without the empty ones, one for each read that ended while the client ran, and the rest of the stream
is in the buffer. -/
theorem received_lines {factory : PacketMethodFactory Packet PacketClass UInt16} {now : Nat}
    {endpoints : List Endpoint} {opened : Bool} {s : ClientSession Endpoint}
    {taken : List (Taken (ClientSession Endpoint) Event)}
    (h : History Step ((new factory now).start endpoints opened) taken s) :
    s.received = (((arrived taken).splitOn newline).take (linesRead taken)).filter (· ≠ []) ∧
      s.inputBuffer.splitOn newline = ((arrived taken).splitOn newline).drop (linesRead taken) := by
  obtain ⟨lines, hlength, hcut⟩ := Cut.of_run h
  rw [hcut.stream, Lines.splitOn_ended hcut.whole, ← hlength, List.take_left, List.drop_left]
  exact ⟨hcut.received, rfl⟩

/-- A line arrives in two pieces, with a heartbeat of the server in front and the start of another
line behind it. -/
theorem sample_received_lines :
    let s := (new sampleSender 0 : ClientSession Nat).start [1] true
    let s₁ := { s with connects := [] }.handleConnect false (1, []) true fun _ => 0
    let s₂ := { s₁ with inputBuffer := s₁.inputBuffer ++ [10, 104] }
    let s₃ := { s₂ with inputBuffer := s₂.inputBuffer ++ [105, 10, 33] }
    let s₄ := { s₃ with reads := 0 }.handleRead false (Lines.firstLength newline s₃.inputBuffer)
    let s₅ := { s₄ with reads := 0 }.handleRead false (Lines.firstLength newline s₄.inputBuffer)
    let taken := [⟨s, .connectDone false true fun _ => 0, s₁⟩, ⟨s₁, .arrive [10, 104], s₂⟩,
      ⟨s₂, .arrive [105, 10, 33], s₃⟩, ⟨s₃, .readDone false, s₄⟩, ⟨s₄, .readDone false, s₅⟩]
    s₅.received = (((arrived taken).splitOn newline).take (linesRead taken)).filter (· ≠ []) ∧
      s₅.inputBuffer.splitOn newline =
        ((arrived taken).splitOn newline).drop (linesRead taken) := by
  intro s s₁ s₂ s₃ s₄ s₅ taken
  refine received_lines (.step (.step (.step (.step (.step .start ?_) ?_) ?_) ?_) ?_)
  · exact .connectDone s false true (fun _ => 0) [] [] (1, []) rfl
  · exact .arrive s₁ [10, 104] rfl Nat.one_pos
  · exact .arrive s₂ [105, 10, 33] rfl Nat.one_pos
  · exact .line s₃ 0 rfl (by decide)
  · exact .line s₄ 0 rfl (by decide)

end ClientSession
end SocketCPlusPlus.Socket
