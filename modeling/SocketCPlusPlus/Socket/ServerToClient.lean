import SocketCPlusPlus.Socket.ReceivedLines

/-! What a server sends, and what becomes of it: the server sends frames and the client waits for
lines. -/
namespace SocketCPlusPlus.Socket
open Foundation Packets IPacketSerializable

namespace TCPConnection

/-- Bytes in the buffer of a message. -/
def messageLength : Nat := 120

section SendMessage
variable {Obj Class Raw : Type} [FactoryBoilerplate Class] [IPacketSerializable Obj Class Raw]

/-- The buffer of a message, as the stack left it, with the packet written to its start. -/
def message (f : PacketMethodFactory Obj Class Raw) (bp : Ref) (uninitialised : Memory) : Buffer :=
  ((SizePacket.serializeOut ⟨some bp⟩ f).exec ⟨uninitialised, 0⟩).2

/-- The range given to `async_write`. The packet stays the caller's. -/
def sendMessage (f : PacketMethodFactory Obj Class Raw) (bp : Ref) (uninitialised : Memory) :
    List UInt8 :=
  (message f bp uninitialised).data.load 0 (message f bp uninitialised).bufferOffset

end SendMessage

theorem message_eq (f : PacketMethodFactory Packet PacketClass UInt16) (bp : Ref)
    (uninitialised : Memory) :
    message f bp uninitialised = (⟨uninitialised, 0⟩ : Buffer).append (SizePacket.frame (f.heap bp)) :=
  congrArg Prod.snd (SizePacket.exec_serializeOut f bp ⟨uninitialised, 0⟩)

theorem sendMessage_eq (f : PacketMethodFactory Packet PacketClass UInt16) (bp : Ref)
    (uninitialised : Memory) :
    sendMessage f bp uninitialised = SizePacket.frame (f.heap bp) := by
  rw [sendMessage, message_eq, Buffer.append_offset, Nat.zero_add, Buffer.append_load]

theorem message_fits (f : PacketMethodFactory Packet PacketClass UInt16) (bp : Ref)
    (uninitialised : Memory) {i : Nat} (h : messageLength ≤ i) :
    (message f bp uninitialised).data i = uninitialised i := by
  have hframe : (SizePacket.frame (f.heap bp)).length ≤ messageLength := by
    rw [SizePacket.frame_length]
    generalize (f.heap bp).classOf = c
    cases c <;> decide
  rw [message_eq]
  change Store.store uninitialised 0 (SizePacket.frame (f.heap bp)) i = uninitialised i
  apply Store.store_after
  rw [Nat.zero_add]
  exact hframe.trans h

end TCPConnection

/-- A call of `SendMessage` with what it finds. -/
structure SendCall where
  factory : PacketMethodFactory Packet PacketClass UInt16
  packet : Ref
  uninitialised : Memory

namespace SendCall

def bytes (call : SendCall) : List UInt8 :=
  TCPConnection.sendMessage call.factory call.packet call.uninitialised

def content (call : SendCall) : Packet := call.factory.heap call.packet

theorem flatMap_bytes (calls : List SendCall) :
    calls.flatMap bytes = wire (calls.map content) := by
  rw [wire, List.flatMap_map]
  apply List.flatMap_congr
  intro call _
  exact TCPConnection.sendMessage_eq ..

end SendCall

namespace ClientSession
variable {Endpoint : Type}

/-- When a step started to read a line: the connect for the first one, and each line read for the
next. -/
def readStarted (t : Taken (ClientSession Endpoint) Event) : Option Nat :=
  match t.event with
  | .connectDone .. =>
    if t.after.isConnected && !t.before.isConnected then some t.before.now else none
  | .readDone false => if t.before.stopped then none else some t.before.now
  | _ => none

def readsStarted (taken : List (Taken (ClientSession Endpoint) Event)) : List Nat :=
  taken.filterMap readStarted

/-- Where reads were started at these times and so many lines read, a client that is not connected
has started none; a connected one gives the last one half a minute, and closes the socket then. -/
structure Timed (starts : List Nat) (lines : Nat) (s : ClientSession Endpoint) : Prop where
  idle : s.stopped = false → s.isConnected = false → starts = [] ∧ lines = 0
  timed : s.stopped = false → s.isConnected = true → starts.length = lines + 1 ∧
    ∃ since ∈ starts.getLast?, s.expiry = some (since + 30) ∨ s.expiry = none ∧ s.isOpen = false

namespace Timed
variable {s s' : ClientSession Endpoint} {starts : List Nat} {lines : Nat}

theorem of_stopped (h : s.stopped = true) : s.Timed starts lines where
  idle hrunning := absurd (hrunning.symm.trans h) Bool.false_ne_true
  timed hrunning := absurd (hrunning.symm.trans h) Bool.false_ne_true

theorem of_same (h : s.Timed starts lines) (hstopped : s'.stopped = s.stopped)
    (hconnected : s'.isConnected = s.isConnected) (hexpiry : s'.expiry = s.expiry)
    (hopen : s'.isOpen = s.isOpen) : s'.Timed starts lines where
  idle := by
    rw [hstopped, hconnected]
    exact h.idle
  timed := by
    rw [hstopped, hconnected, hexpiry, hopen]
    exact h.timed

theorem startConnect (hstarts : starts = []) (hlines : lines = 0) (hoff : s.isConnected = false)
    (endpointIter : List Endpoint) (opened : Bool) :
    (s.startConnect endpointIter opened).Timed starts lines ∧
      (s.startConnect endpointIter opened).isConnected = false := by
  cases endpointIter with
  | nil => exact ⟨of_stopped rfl, rfl⟩
  | cons endpoint rest =>
    exact ⟨⟨fun _ _ => ⟨hstarts, hlines⟩,
      fun _ hon => absurd (hoff.symm.trans hon) Bool.false_ne_true⟩, hoff⟩

theorem written (h : s.Timed starts lines) (ec : Bool) : (s.handleWrite ec).Timed starts lines := by
  cases hstopped : s.stopped with
  | true =>
    rw [handleWrite, if_pos hstopped]
    exact h
  | false =>
    cases ec with
    | true =>
      rw [handleWrite_failed hstopped]
      exact of_stopped rfl
    | false =>
      rw [handleWrite_written hstopped]
      apply h.of_same <;> rfl

theorem deadline (h : s.Timed starts lines) : s.checkDeadline.Timed starts lines := by
  cases hstopped : s.stopped with
  | true =>
    rw [checkDeadline, if_pos hstopped]
    exact h
  | false =>
    rcases checkDeadline_cases hstopped with ⟨-, hclosed⟩ | ⟨-, hkept⟩
    · rw [hclosed]
      refine ⟨h.idle, fun hrunning hon => ?_⟩
      obtain ⟨hcount, since, hsince, -⟩ := h.timed hrunning hon
      exact ⟨hcount, since, hsince, Or.inr ⟨rfl, rfl⟩⟩
    · rw [hkept]
      apply h.of_same <;> rfl

theorem startWrite (h : s.Timed starts lines) (uninitialised : Memory) :
    (s.startWrite uninitialised).Timed starts lines := by
  cases hstopped : s.stopped with
  | true =>
    rw [startWrite_stopped hstopped]
    exact h
  | false =>
    rw [ClientSession.startWrite, ClientActors.startWrite_running uninitialised hstopped]
    apply h.of_same <;> rfl

theorem connectDone (h : s.Timed starts lines) (hoff : s.stopped = false → s.isConnected = false)
    (ec : Bool) (endpointIter : Endpoint × List Endpoint) (opened : Bool) (uninitialised : Memory) :
    let s' := s.handleConnect ec endpointIter opened uninitialised
    s'.isConnected = s.isConnected ∧ s'.Timed starts lines ∨
      s.isConnected = false ∧ s'.isConnected = true ∧ s'.Timed (starts ++ [s.now]) lines := by
  intro s'
  cases hstopped : s.stopped with
  | true =>
    have hsame : s' = s := if_pos hstopped
    rw [hsame]
    exact Or.inl ⟨rfl, h⟩
  | false =>
    obtain ⟨hstarts, hlines⟩ := h.idle hstopped (hoff hstopped)
    by_cases hfailed : s.isOpen = false ∨ ec = true
    · obtain ⟨message, -, hnext⟩ :=
        handleConnect_next hstopped hfailed endpointIter opened uninitialised
      obtain ⟨htimed, hoff'⟩ := startConnect (s := { s.print message with isOpen := false })
        hstarts hlines (hoff hstopped) endpointIter.2 opened
      rw [← hnext] at htimed hoff'
      exact Or.inl ⟨hoff'.trans (hoff hstopped).symm, htimed⟩
    · rw [not_or, Bool.not_eq_false, Bool.not_eq_true] at hfailed
      obtain ⟨hopen, rfl⟩ := hfailed
      obtain ⟨hrunning, hon⟩ := connected_actors
        (a := { s.actors with connecting := false }) uninitialised hstopped
      have hconnected : s' = _ :=
        handleConnect_connected hstopped hopen endpointIter opened uninitialised
      rw [hconnected, hstarts, hlines]
      refine Or.inr ⟨hoff hstopped, hon, fun _ hoff' => ?_, fun _ _ => ?_⟩
      · exact absurd (hoff'.symm.trans hon) Bool.false_ne_true
      · exact ⟨rfl, s.now, rfl, Or.inl rfl⟩

theorem line (h : s.Timed starts lines) (hrunning : s.stopped = false) (hon : s.isConnected = true)
    (n : Nat) : Timed (starts ++ [s.now]) (lines + 1) (s.handleRead false n) := by
  obtain ⟨hcount, -⟩ := h.timed hrunning hon
  rw [handleRead_line hrunning]
  refine ⟨fun _ hoff => absurd (hoff.symm.trans hon) Bool.false_ne_true, fun _ _ => ⟨?_, ?_⟩⟩
  · rw [List.length_append, hcount]
    rfl
  · rw [List.getLast?_concat]
    exact ⟨s.now, rfl, Or.inl rfl⟩

theorem readFailed (h : s.Timed starts lines) : (s.handleRead true 0).Timed starts lines := by
  cases hstopped : s.stopped with
  | true =>
    rw [handleRead, if_pos hstopped]
    exact h
  | false =>
    rw [handleRead_failed hstopped]
    exact of_stopped rfl

/-- Only a connect that succeeds and a line that is read start a read. -/
theorem step (h : s.Timed starts lines) (hsound : s.Sound) {event : Event}
    (hs : Step s event s') :
    s'.Timed (starts ++ readsStarted [⟨s, event, s'⟩])
      (lines + linesRead [⟨s, event, s'⟩]) := by
  -- most events start no read and end none
  have hquiet : readStarted ⟨s, event, s'⟩ = none → readsLine ⟨s, event, s'⟩ = false →
      s'.Timed starts lines → s'.Timed (starts ++ readsStarted [⟨s, event, s'⟩])
        (lines + linesRead [⟨s, event, s'⟩]) := by
    intro hstarted hline htimed
    rw [readsStarted, linesRead, List.countP_singleton, hline, List.filterMap_cons_none hstarted]
    simpa using htimed
  cases hs with
  | write packet => exact hquiet rfl rfl (h.of_same rfl rfl rfl rfl)
  | stop => exact hquiet rfl rfl (of_stopped rfl)
  | tick seconds => exact hquiet rfl rfl (h.of_same rfl rfl rfl rfl)
  | connectDone ec opened uninitialised before after endpointIter hconnects =>
    have hcases := Timed.connectDone (s := { s with connects := before ++ after })
      (h.of_same rfl rfl rfl rfl) (fun hrunning => (hsound.connect hrunning hconnects).2.2.1)
      ec endpointIter opened uninitialised
    rcases hcases with ⟨hsame, htimed⟩ | ⟨hoff, hon, htimed⟩
    · refine hquiet (if_neg ?_) rfl htimed
      have hsame' : _ = s.isConnected := hsame
      rw [hsame', Bool.and_not_self]
      exact Bool.false_ne_true
    · have hstarted : readStarted ⟨s, .connectDone ec opened uninitialised,
          handleConnect { s with connects := before ++ after } ec endpointIter opened
            uninitialised⟩ = some s.now :=
        if_pos (Bool.and_eq_true_iff.mpr ⟨hon, congrArg not hoff⟩)
      rw [readsStarted, List.filterMap_cons_some hstarted]
      exact htimed
  | arrive bytes hopen hreads => exact hquiet rfl rfl (h.of_same rfl rfl rfl rfl)
  | line reads hreads hline =>
    cases hstopped : s.stopped with
    | true =>
      refine hquiet ?_ ?_ ?_
      · exact if_pos hstopped
      · rw [readsLine, hstopped]
        rfl
      · rw [handleRead, if_pos hstopped]
        exact of_stopped hstopped
    | false =>
      have hon : s.isConnected = true := by
        apply Bool.eq_true_of_not_eq_false
        intro hoff
        have hnone := (hsound.connecting hstopped hoff).2.1
        omega
      have hstarted : readStarted ⟨s, .readDone false, { s with reads := reads }.handleRead false
          (Lines.firstLength newline s.inputBuffer)⟩ = some s.now :=
        if_neg (Bool.eq_false_iff.mp hstopped)
      rw [readsStarted, List.filterMap_cons_some hstarted, linesRead, List.countP_singleton,
        readsLine, hstopped]
      have hread : Timed starts lines { s with reads := reads } := h.of_same rfl rfl rfl rfl
      exact hread.line hstopped hon _
  | readFailed reads hreads =>
    refine hquiet rfl rfl (Timed.readFailed ?_)
    exact h.of_same rfl rfl rfl rfl
  | written ec writes hwrites =>
    refine hquiet rfl rfl (Timed.written ?_ ec)
    exact h.of_same rfl rfl rfl rfl
  | heartbeat uninitialised waits hwaits =>
    refine hquiet rfl rfl (Timed.startWrite ?_ uninitialised)
    exact h.of_same rfl rfl rfl rfl
  | deadline checks hchecks =>
    refine hquiet rfl rfl (Timed.deadline ?_)
    exact h.of_same rfl rfl rfl rfl

theorem of_run {factory : PacketMethodFactory Packet PacketClass UInt16} {now : Nat}
    {endpoints : List Endpoint} {opened : Bool}
    {taken : List (Taken (ClientSession Endpoint) Event)}
    (h : History ClientSession.Step ((new factory now).start endpoints opened) taken s) :
    s.Timed (readsStarted taken) (linesRead taken) := by
  induction h with
  | start =>
    obtain ⟨htimed, -⟩ := startConnect
      (s := { (new factory now : ClientSession Endpoint) with endpoints := endpoints })
      (rfl : ([] : List Nat) = []) (rfl : 0 = 0) rfl endpoints opened
    exact htimed.of_same rfl rfl rfl rfl
  | step hrun hs ih =>
    rw [readsStarted, linesRead, List.filterMap_append, List.countP_append]
    exact ih.step (Sound.of_run hrun) hs

end Timed

theorem Cut.unread {s : ClientSession Endpoint} {stream : List UInt8} {lines : List (List UInt8)}
    (h : Cut stream lines s) (hnone : newline ∉ stream) :
    lines = [] ∧ s.received = [] ∧ s.inputBuffer = stream := by
  cases lines with
  | nil => exact ⟨rfl, h.received, h.stream.symm⟩
  | cons line lines =>
    refine absurd ?_ hnone
    rw [h.stream, Lines.ended, List.flatMap_cons]
    simp

/-- Frames without a newline byte are no lines for the client: it keeps all of them in its buffer,
prints none, and half a minute after its connect, however much has arrived until then, the check of
its deadline finds the socket closed or closes it. -/
theorem server_frames_unread {factory : PacketMethodFactory Packet PacketClass UInt16} {now : Nat}
    {endpoints : List Endpoint} {opened : Bool} {s : ClientSession Endpoint}
    {taken : List (Taken (ClientSession Endpoint) Event)} {calls : List SendCall}
    (h : History Step ((new factory now).start endpoints opened) taken s)
    (hstream : arrived taken <+: calls.flatMap SendCall.bytes)
    (hframes : ∀ call ∈ calls, newline ∉ SizePacket.frame call.content) :
    s.received = [] ∧ s.inputBuffer = arrived taken ∧
      (s.stopped = false → s.isConnected = true → ∃ since, readsStarted taken = [since] ∧
        (s.isOpen = true → s.expiry = some (since + 30)) ∧
        (since + 30 ≤ s.now → s.checkDeadline.isOpen = false)) := by
  have hnone : newline ∉ arrived taken := by
    intro hin
    have hwire := hstream.subset hin
    rw [SendCall.flatMap_bytes, wire, List.flatMap_map, List.mem_flatMap] at hwire
    obtain ⟨call, hcall, hnewline⟩ := hwire
    exact hframes call hcall hnewline
  obtain ⟨lines, hlength, hcut⟩ := Cut.of_run h
  obtain ⟨rfl, hreceived, hbuffer⟩ := hcut.unread hnone
  refine ⟨hreceived, hbuffer, fun hrunning hon => ?_⟩
  obtain ⟨hcount, since, hlast, hexpiry⟩ := (Timed.of_run h).timed hrunning hon
  rw [← hlength] at hcount
  obtain ⟨start, hstart⟩ := List.length_eq_one_iff.mp hcount
  rw [hstart] at hlast
  obtain rfl : start = since := Option.some.inj hlast
  refine ⟨start, hstart, fun hopen => ?_, fun hpast => ?_⟩
  · rcases hexpiry with hset | ⟨-, hclosed⟩
    · exact hset
    · exact absurd (hclosed.symm.trans hopen) Bool.false_ne_true
  · rcases checkDeadline_cases hrunning with ⟨-, hcheck⟩ | ⟨hexpired, hcheck⟩
    · rw [hcheck]
    · rw [hcheck]
      rcases hexpiry with hset | ⟨-, hclosed⟩
      · exact absurd ⟨start + 30, hset, hpast⟩ hexpired
      · exact hclosed

/-- A client is connected and sent a packet. -/
theorem sample_frames_unread :
    let bytes := SizePacket.frame (sampleSender.heap 0)
    let s := (new sampleSender 0 : ClientSession Nat).start [1] true
    let s₁ := { s with connects := [] }.handleConnect false (1, []) true fun _ => 0
    let s₂ := { s₁ with inputBuffer := s₁.inputBuffer ++ bytes }
    let taken := [⟨s, .connectDone false true fun _ => 0, s₁⟩, ⟨s₁, .arrive bytes, s₂⟩]
    s₂.received = [] ∧ s₂.inputBuffer = arrived taken ∧
      (s₂.stopped = false → s₂.isConnected = true → ∃ since, readsStarted taken = [since] ∧
        (s₂.isOpen = true → s₂.expiry = some (since + 30)) ∧
        (since + 30 ≤ s₂.now → s₂.checkDeadline.isOpen = false)) := by
  intro bytes s s₁ s₂ taken
  have hrun : History Step s taken s₂ := by
    refine .step (.step .start ?_) ?_
    · exact .connectDone s false true (fun _ => 0) [] [] (1, []) rfl
    · exact .arrive s₁ bytes rfl Nat.one_pos
  have hsent : arrived taken <+: [⟨sampleSender, 0, fun _ => 0⟩].flatMap SendCall.bytes := by
    rw [SendCall.flatMap_bytes]
    exact List.prefix_rfl
  exact server_frames_unread hrun hsent (List.forall_mem_singleton.mpr (by decide))

end ClientSession
end SocketCPlusPlus.Socket
