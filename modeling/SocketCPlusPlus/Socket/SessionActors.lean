import SocketCPlusPlus.Socket.ClientSession

/-! The actors of a client in every reachable state, and its life as a run of the sending one. -/
namespace SocketCPlusPlus.Socket
open Foundation Packets

namespace ClientSession
variable {Endpoint : Type}

/-- A client that has been stopped. -/
structure Down (s : ClientSession Endpoint) : Prop where
  stopped : s.stopped = true
  closed : s.isOpen = false
  disconnected : s.isConnected = false

/-- A client that runs has one connect or one read under way, and one wait on the deadline. While
its socket is open a deadline is set, a minute ahead at most, and half a minute when it reads. -/
structure Sound (s : ClientSession Endpoint) : Prop where
  down : s.stopped = true → s.Down
  connecting : s.stopped = false → s.isConnected = false →
    s.connects.length = 1 ∧ s.reads = 0 ∧ s.actors.connecting = true
  reading : s.stopped = false → s.isConnected = true → s.connects = [] ∧ s.reads = 1
  checked : s.stopped = false → s.checks = 1
  deadline : s.stopped = false → s.isOpen = true →
    ∃ d ∈ s.expiry, d ≤ s.now + if s.isConnected then 30 else 60

theorem stop_down (s : ClientSession Endpoint) : s.stop.Down := ⟨rfl, rfl, rfl⟩

theorem Down.sound {s : ClientSession Endpoint} (h : s.Down) : s.Sound where
  down _ := h
  connecting hrunning := absurd (hrunning.symm.trans h.stopped) Bool.false_ne_true
  reading hrunning := absurd (hrunning.symm.trans h.stopped) Bool.false_ne_true
  checked hrunning := absurd (hrunning.symm.trans h.stopped) Bool.false_ne_true
  deadline hrunning := absurd (hrunning.symm.trans h.stopped) Bool.false_ne_true

section Actors
variable {s : ClientSession Endpoint}

theorem Down.of_same (h : s.Down) {s' : ClientSession Endpoint} (hstopped : s'.stopped = s.stopped)
    (hopen : s'.isOpen = s.isOpen) (hconnected : s'.isConnected = s.isConnected) : s'.Down :=
  ⟨hstopped.trans h.stopped, hopen.trans h.closed, hconnected.trans h.disconnected⟩

theorem Sound.of_stopped (h : s.Sound) (hdown : s.stopped = true) {s' : ClientSession Endpoint}
    (hstopped : s'.stopped = s.stopped) (hopen : s'.isOpen = s.isOpen)
    (hconnected : s'.isConnected = s.isConnected) : s'.Sound :=
  ((h.down hdown).of_same hstopped hopen hconnected).sound

theorem connected_actors {a : ClientActors} (uninitialised : Memory)
    (hrunning : a.client.stopped = false) :
    (a.handleConnect uninitialised).client.stopped = false ∧
      (a.handleConnect uninitialised).client.isConnected = true := by
  have hflush := ClientActors.startWrite_running
    (a := { a with client := { a.client with isConnected := true } }) uninitialised hrunning
  have hconnect : a.handleConnect uninitialised = _ :=
    (if_neg (Bool.eq_false_iff.mp hrunning)).trans hflush
  rw [hconnect]
  exact ⟨hrunning, rfl⟩

/-- Where nothing but the wait on the deadline is under way, the next endpoint is tried, or there is
none and the client is stopped. -/
theorem startConnect_sound (hrunning : s.stopped = false) (hconnects : s.connects = [])
    (hreads : s.reads = 0) (hconnected : s.isConnected = false)
    (hconnecting : s.actors.connecting = true) (hchecks : s.checks = 1)
    (endpointIter : List Endpoint) (opened : Bool) :
    (s.startConnect endpointIter opened).Sound := by
  cases endpointIter with
  | nil => exact s.stop_down.sound
  | cons endpoint rest =>
    refine ⟨fun h => absurd (hrunning.symm.trans h) Bool.false_ne_true, fun _ _ => ?_,
      fun _ h => absurd (hconnected.symm.trans h) Bool.false_ne_true, fun _ => hchecks,
      fun _ _ => ⟨s.now + 60, rfl, ?_⟩⟩
    · refine ⟨?_, hreads, hconnecting⟩
      change (s.connects ++ [(endpoint, rest)]).length = 1
      rw [hconnects]
      rfl
    · change s.now + 60 ≤ s.now + if s.isConnected then 30 else 60
      rw [hconnected]
      exact Nat.le_refl _

theorem Sound.of_sending (h : s.Sound) {actors : ClientActors}
    (hstopped : actors.client.stopped = s.stopped)
    (hconnected : actors.client.isConnected = s.isConnected)
    (hconnecting : actors.connecting = s.actors.connecting) {console : List (Message Endpoint)} :
    Sound { s with actors := actors, console := console } := by
  refine ⟨?_, ?_, ?_, ?_, ?_⟩
  · intro hdown
    exact (h.down (hstopped.symm.trans hdown)).of_same hstopped rfl hconnected
  · intro hrunning hoff
    have hs := h.connecting (hstopped.symm.trans hrunning) (hconnected.symm.trans hoff)
    exact ⟨hs.1, hs.2.1, hconnecting.trans hs.2.2⟩
  · intro hrunning hon
    exact h.reading (hstopped.symm.trans hrunning) (hconnected.symm.trans hon)
  · intro hrunning
    exact h.checked (hstopped.symm.trans hrunning)
  · intro hrunning hopen
    obtain ⟨d, hd, hle⟩ := h.deadline (hstopped.symm.trans hrunning) hopen
    refine ⟨d, hd, ?_⟩
    change d ≤ s.now + if actors.client.isConnected then 30 else 60
    rwa [hconnected]

theorem Sound.startWrite (h : s.Sound) (uninitialised : Memory) :
    (s.startWrite uninitialised).Sound := by
  cases hstopped : s.stopped with
  | true =>
    rw [startWrite_stopped hstopped]
    exact h
  | false =>
    rw [ClientSession.startWrite, ClientActors.startWrite_running uninitialised hstopped]
    apply h.of_sending <;> rfl

theorem Sound.connect (h : s.Sound) (hrunning : s.stopped = false)
    {before after : List (Endpoint × List Endpoint)} {endpointIter : Endpoint × List Endpoint}
    (hconnects : s.connects = before ++ endpointIter :: after) :
    before = [] ∧ after = [] ∧ s.isConnected = false ∧ s.reads = 0 ∧
      s.actors.connecting = true := by
  have hoff : s.isConnected = false := by
    apply Bool.eq_false_of_not_eq_true
    intro hon
    have hnone := (h.reading hrunning hon).1
    rw [hconnects] at hnone
    exact absurd hnone (by simp)
  obtain ⟨hone, hreads, hconnecting⟩ := h.connecting hrunning hoff
  rw [hconnects, List.length_append, List.length_cons] at hone
  refine ⟨List.length_eq_zero_iff.mp ?_, List.length_eq_zero_iff.mp ?_, hoff, hreads, hconnecting⟩
  · omega
  · omega

theorem Sound.connectDone (h : s.Sound) (ec opened : Bool) (uninitialised : Memory)
    {before after : List (Endpoint × List Endpoint)} {endpointIter : Endpoint × List Endpoint}
    (hconnects : s.connects = before ++ endpointIter :: after) :
    ({ s with connects := before ++ after }.handleConnect ec endpointIter opened
      uninitialised).Sound := by
  cases hstopped : s.stopped with
  | true =>
    rw [handleConnect, if_pos hstopped]
    exact h.of_stopped hstopped rfl rfl rfl
  | false =>
    obtain ⟨rfl, rfl, hoff, hreads, hconnecting⟩ := h.connect hstopped hconnects
    by_cases hfailed : s.isOpen = false ∨ ec = true
    · obtain ⟨message, -, hnext⟩ := handleConnect_next (s := { s with connects := [] ++ [] })
        hstopped hfailed endpointIter opened uninitialised
      rw [hnext]
      apply startConnect_sound
      · exact hstopped
      · rfl
      · exact hreads
      · exact hoff
      · exact hconnecting
      · exact h.checked hstopped
    · rw [not_or, Bool.not_eq_false, Bool.not_eq_true] at hfailed
      obtain ⟨hopen, rfl⟩ := hfailed
      have hconnected := handleConnect_connected (s := { s with connects := [] ++ [] }) hstopped
        hopen endpointIter opened uninitialised
      obtain ⟨hrunning, hon⟩ := connected_actors
        (a := { s.actors with connecting := false }) uninitialised hstopped
      rw [hconnected]
      refine ⟨fun hdown => absurd (hrunning.symm.trans hdown) Bool.false_ne_true,
        fun _ hoff' => absurd (hoff'.symm.trans hon) Bool.false_ne_true, fun _ _ => ⟨rfl, ?_⟩,
        fun _ => h.checked hstopped, fun _ _ => ⟨s.now + 30, rfl, ?_⟩⟩
      · exact congrArg (· + 1) hreads
      · refine Nat.le_of_eq ?_
        change s.now + 30 = s.now + if _ then 30 else 60
        rw [if_pos hon]

theorem Sound.readDone (h : s.Sound) {reads : Nat} (hreads : s.reads = reads + 1) (ec : Bool)
    (n : Nat) : ({ s with reads := reads }.handleRead ec n).Sound := by
  cases hstopped : s.stopped with
  | true =>
    rw [handleRead, if_pos hstopped]
    exact h.of_stopped hstopped rfl rfl rfl
  | false =>
    cases ec with
    | true =>
      rw [handleRead_failed (s := { s with reads := reads }) hstopped]
      exact (stop_down _).sound
    | false =>
      have hon : s.isConnected = true := by
        apply Bool.eq_true_of_not_eq_false
        intro hoff
        have hnone := (h.connecting hstopped hoff).2.1
        omega
      obtain ⟨hconnects, hone⟩ := h.reading hstopped hon
      rw [handleRead_line (s := { s with reads := reads }) hstopped]
      refine ⟨fun hdown => absurd (hstopped.symm.trans hdown) Bool.false_ne_true,
        fun _ hoff => absurd (hoff.symm.trans hon) Bool.false_ne_true,
        fun _ _ => ⟨hconnects, hreads.symm.trans hone⟩, fun _ => h.checked hstopped,
        fun _ _ => ⟨s.now + 30, rfl, ?_⟩⟩
      refine Nat.le_of_eq ?_
      change s.now + 30 = s.now + if s.isConnected then 30 else 60
      rw [if_pos hon]

theorem Sound.written (h : s.Sound) (ec : Bool) {writes : Nat} :
    ({ s with actors := { s.actors with writes := writes } }.handleWrite ec).Sound := by
  cases hstopped : s.stopped with
  | true =>
    rw [handleWrite, if_pos hstopped]
    exact h.of_stopped hstopped rfl rfl rfl
  | false =>
    cases ec with
    | true =>
      rw [handleWrite_failed
        (s := { s with actors := { s.actors with writes := writes } }) hstopped]
      exact (stop_down _).sound
    | false =>
      rw [handleWrite_written
        (s := { s with actors := { s.actors with writes := writes } }) hstopped]
      apply h.of_sending <;> rfl

theorem Sound.deadlineCheck (h : s.Sound) {checks : Nat} (hchecks : s.checks = checks + 1) :
    ({ s with checks := checks }.checkDeadline).Sound := by
  cases hstopped : s.stopped with
  | true =>
    rw [checkDeadline, if_pos hstopped]
    exact h.of_stopped hstopped rfl rfl rfl
  | false =>
    have hone := h.checked hstopped
    rcases checkDeadline_cases (s := { s with checks := checks }) hstopped with
      ⟨-, hclosed⟩ | ⟨-, hkept⟩
    · rw [hclosed]
      exact ⟨fun hdown => absurd (hstopped.symm.trans hdown) Bool.false_ne_true, h.connecting,
        h.reading, fun _ => hchecks.symm.trans hone,
        fun _ hopen => absurd hopen Bool.false_ne_true⟩
    · rw [hkept]
      exact ⟨fun hdown => absurd (hstopped.symm.trans hdown) Bool.false_ne_true, h.connecting,
        h.reading, fun _ => hchecks.symm.trans hone, h.deadline⟩

theorem Sound.step (h : s.Sound) {event : Event} {s' : ClientSession Endpoint}
    (hs : Step s event s') : s'.Sound := by
  cases hs with
  | write packet => apply h.of_sending <;> rfl
  | stop => exact s.stop_down.sound
  | tick seconds =>
    refine ⟨fun hdown => (h.down hdown).of_same rfl rfl rfl, h.connecting, h.reading, h.checked,
      fun hrunning hopen => ?_⟩
    obtain ⟨d, hd, hle⟩ := h.deadline hrunning hopen
    exact ⟨d, hd, Nat.le_trans hle (Nat.add_le_add_right (Nat.le_add_right ..) _)⟩
  | connectDone ec opened uninitialised before after endpointIter hconnects =>
    exact h.connectDone ec opened uninitialised hconnects
  | arrive bytes hopen hreads =>
    exact ⟨fun hdown => (h.down hdown).of_same rfl rfl rfl, h.connecting, h.reading, h.checked,
      h.deadline⟩
  | line reads hreads hline => exact h.readDone hreads false _
  | readFailed reads hreads => exact h.readDone hreads true 0
  | written ec writes hwrites => exact h.written ec
  | heartbeat uninitialised waits hwaits =>
    have hended : Sound { s with actors := { s.actors with waits := waits } } := by
      apply h.of_sending <;> rfl
    exact hended.startWrite uninitialised
  | deadline checks hchecks => exact h.deadlineCheck hchecks

end Actors

theorem start_sound (factory : PacketMethodFactory Packet PacketClass UInt16) (now : Nat)
    (endpoints : List Endpoint) (opened : Bool) :
    ((new factory now).start endpoints opened).Sound := by
  have hbegin : (new factory now).start endpoints opened =
      { (new factory now : ClientSession Endpoint) with
        endpoints := endpoints, checks := 1 }.startConnect endpoints opened := by
    cases endpoints <;> rfl
  rw [hbegin]
  apply startConnect_sound <;> rfl

theorem Sound.of_run {factory : PacketMethodFactory Packet PacketClass UInt16} {now : Nat}
    {endpoints : List Endpoint} {opened : Bool} {s : ClientSession Endpoint}
    {taken : List (Taken (ClientSession Endpoint) Event)}
    (h : History Step ((new factory now).start endpoints opened) taken s) : s.Sound :=
  h.invariant Sound (start_sound factory now endpoints opened) fun _ _ _ hsound hs => hsound.step hs

/-- A client's actors in every reachable state: none lost, none doubled, and no operation of one
that runs is left without a deadline. -/
theorem session_actors {factory : PacketMethodFactory Packet PacketClass UInt16} {now : Nat}
    {endpoints : List Endpoint} {opened : Bool} {s : ClientSession Endpoint}
    {taken : List (Taken (ClientSession Endpoint) Event)}
    (h : History Step ((new factory now).start endpoints opened) taken s) :
    (s.stopped = true → s.isOpen = false ∧ s.isConnected = false) ∧
      (s.stopped = false →
        s.connects.length + s.reads = 1 ∧ s.checks = 1 ∧ (s.isConnected = true ↔ s.reads = 1) ∧
          (s.isOpen = true → ∃ d ∈ s.expiry, d ≤ s.now + if s.isConnected then 30 else 60)) := by
  have hsound := Sound.of_run h
  refine ⟨fun hstopped => ?_, fun hrunning => ?_⟩
  · have hdown := hsound.down hstopped
    exact ⟨hdown.closed, hdown.disconnected⟩
  · refine ⟨?_, hsound.checked hrunning, ?_, hsound.deadline hrunning⟩
    · cases hon : s.isConnected with
      | true =>
        obtain ⟨hconnects, hreads⟩ := hsound.reading hrunning hon
        rw [hconnects, hreads]
        rfl
      | false =>
        obtain ⟨hconnects, hreads, -⟩ := hsound.connecting hrunning hon
        rw [hconnects, hreads]
    · constructor
      · exact fun hon => (hsound.reading hrunning hon).2
      · intro hreads
        apply Bool.eq_true_of_not_eq_false
        intro hoff
        have hnone := (hsound.connecting hrunning hoff).2.1
        omega

/-- Two endpoints, the second of which answers. -/
theorem sample_session_actors :
    let s := (new sampleSender 0 : ClientSession Nat).start [1, 2] true
    let s' := { s with connects := [] }.handleConnect true (1, [2]) true fun _ => 0
    let s'' := { s' with connects := [] }.handleConnect false (2, []) true fun _ => 0
    (s''.stopped = true → s''.isOpen = false ∧ s''.isConnected = false) ∧
      (s''.stopped = false →
        s''.connects.length + s''.reads = 1 ∧ s''.checks = 1 ∧
          (s''.isConnected = true ↔ s''.reads = 1) ∧
          (s''.isOpen = true →
            ∃ d ∈ s''.expiry, d ≤ s''.now + if s''.isConnected then 30 else 60)) :=
  session_actors (.step (.step .start (.connectDone _ true true _ [] [] (1, [2]) rfl))
    (.connectDone _ false true _ [] [] (2, []) rfl))

/-- The part that the sending actor has in an event. A connect that fails concerns it only when it
was to the last endpoint. -/
def sending (t : Taken (ClientSession Endpoint) Event) : Option ClientActors.Event :=
  match t.event with
  | .write packet => some (.write packet)
  | .stop => some .stop
  | .connectDone ec _ uninitialised =>
    if t.before.stopped then none
    else if t.before.isOpen && !ec then some (.connected uninitialised)
    else if t.before.connects.all (·.2.isEmpty) then some .stop
    else none
  | .readDone ec => if !t.before.stopped && ec then some .stop else none
  | .written ec => some (.written ec)
  | .heartbeat uninitialised => some (.timer uninitialised)
  | .tick _ | .arrive _ | .deadline => none

/-- What an event does to the sending actor. -/
def Sends (t : Taken (ClientSession Endpoint) Event) : Prop :=
  sending t = none ∧ t.after.actors = t.before.actors ∨
    ∃ event, sending t = some event ∧ ClientActors.Step t.before.actors event t.after.actors

section Sending
variable {s s' : ClientSession Endpoint}

theorem sending_connectDone (hrunning : s.stopped = false) (ec opened : Bool)
    (uninitialised : Memory) : sending ⟨s, .connectDone ec opened uninitialised, s'⟩ =
      if s.isOpen && !ec then some (.connected uninitialised)
      else if s.connects.all (·.2.isEmpty) then some .stop else none :=
  if_neg (Bool.eq_false_iff.mp hrunning)

theorem sending_readDone (ec : Bool) :
    sending ⟨s, .readDone ec, s'⟩ = if !s.stopped && ec then some .stop else none :=
  rfl

theorem Sound.connectDone_sends (h : s.Sound) (ec opened : Bool) (uninitialised : Memory)
    {before after : List (Endpoint × List Endpoint)} {endpointIter : Endpoint × List Endpoint}
    (hconnects : s.connects = before ++ endpointIter :: after) :
    Sends ⟨s, .connectDone ec opened uninitialised,
      { s with connects := before ++ after }.handleConnect ec endpointIter opened
        uninitialised⟩ := by
  cases hstopped : s.stopped with
  | true =>
    refine Or.inl ⟨if_pos hstopped, ?_⟩
    rw [handleConnect, if_pos hstopped]
  | false =>
    obtain ⟨rfl, rfl, -, -, hconnecting⟩ := h.connect hstopped hconnects
    rw [Sends, sending_connectDone hstopped]
    by_cases hfailed : s.isOpen = false ∨ ec = true
    · have hclosed : ¬ (s.isOpen && !ec) = true := by
        rcases hfailed with hfailed | hfailed <;> simp [hfailed]
      obtain ⟨message, -, hnext⟩ := handleConnect_next (s := { s with connects := [] ++ [] })
        hstopped hfailed endpointIter opened uninitialised
      rw [if_neg hclosed, hconnects, hnext]
      obtain ⟨endpoint, rest⟩ := endpointIter
      cases rest with
      | nil => exact Or.inr ⟨_, rfl, .stop _⟩
      | cons next rest => exact Or.inl ⟨rfl, rfl⟩
    · rw [not_or, Bool.not_eq_false, Bool.not_eq_true] at hfailed
      obtain ⟨hopen, rfl⟩ := hfailed
      rw [handleConnect_connected (s := { s with connects := [] ++ [] }) hstopped hopen]
      refine Or.inr ⟨.connected uninitialised, ?_, .connected _ uninitialised hconnecting⟩
      rw [hopen]
      rfl

/-- A line concerns the reading actor alone; a read that fails stops both. -/
theorem readDone_sends (reads : Nat) (ec : Bool) (n : Nat) :
    Sends ⟨s, .readDone ec, { s with reads := reads }.handleRead ec n⟩ := by
  cases hstopped : s.stopped with
  | true =>
    rw [Sends, sending_readDone, hstopped, handleRead, if_pos hstopped]
    exact Or.inl ⟨rfl, rfl⟩
  | false =>
    rw [Sends, sending_readDone, hstopped]
    cases ec with
    | false =>
      rw [handleRead_line (s := { s with reads := reads }) hstopped]
      exact Or.inl ⟨rfl, rfl⟩
    | true =>
      rw [handleRead_failed (s := { s with reads := reads }) hstopped]
      exact Or.inr ⟨_, rfl, .stop _⟩

theorem Step.sends {event : Event} (h : s.Sound) (hs : Step s event s') :
    Sends ⟨s, event, s'⟩ := by
  cases hs with
  | write packet => exact Or.inr ⟨_, rfl, .write _ packet⟩
  | stop => exact Or.inr ⟨_, rfl, .stop _⟩
  | tick seconds => exact Or.inl ⟨rfl, rfl⟩
  | connectDone ec opened uninitialised before after endpointIter hconnects =>
    exact h.connectDone_sends ec opened uninitialised hconnects
  | arrive bytes hopen hreads => exact Or.inl ⟨rfl, rfl⟩
  | line reads hreads hline => exact readDone_sends reads false _
  | readFailed reads hreads => exact readDone_sends reads true 0
  | written ec writes hwrites =>
    rw [Sends, handleWrite_actors]
    exact Or.inr ⟨_, rfl, .written _ ec writes hwrites⟩
  | heartbeat uninitialised waits hwaits =>
    exact Or.inr ⟨_, rfl, .timer _ uninitialised waits hwaits⟩
  | deadline checks hchecks => exact Or.inl ⟨rfl, checkDeadline_actors _⟩

end Sending

/-- The sending actor of a client that has no endpoint to try is stopped at once. -/
def startSteps (factory : PacketMethodFactory Packet PacketClass UInt16)
    (endpoints : List Endpoint) : List (Taken ClientActors ClientActors.Event) :=
  if endpoints.isEmpty then
    [⟨ClientActors.start factory, .stop, (ClientActors.start factory).stop⟩]
  else []

theorem start_sends (factory : PacketMethodFactory Packet PacketClass UInt16) (now : Nat)
    (endpoints : List Endpoint) (opened : Bool) :
    History ClientActors.Step (ClientActors.start factory) (startSteps factory endpoints)
      ((new factory now).start endpoints opened).actors := by
  cases endpoints with
  | nil => exact .step .start (.stop _)
  | cons endpoint rest => exact .start

/-- Seen from its sending actor, a client's life is a run of that actor, event by event: every write,
every write and wait that ends, the connect that succeeds, and whatever stops the client are its
steps, and nothing else is. -/
theorem sending_run {factory : PacketMethodFactory Packet PacketClass UInt16} {now : Nat}
    {endpoints : List Endpoint} {opened : Bool} {s : ClientSession Endpoint}
    {taken : List (Taken (ClientSession Endpoint) Event)}
    (h : History Step ((new factory now).start endpoints opened) taken s) :
    History ClientActors.Step (ClientActors.start factory)
      (startSteps factory endpoints ++
        taken.filterMap (History.showStep ClientSession.actors sending)) s.actors :=
  h.viewed Sound ClientSession.actors sending (start_sound factory now endpoints opened)
    (fun _ _ _ hsound hs => ⟨hsound.step hs, hs.sends hsound⟩)
    (start_sends factory now endpoints opened)

/-- A client that connects, is asked to send, and whose first write ends. -/
theorem sample_sending_run :
    let s := (new sampleSender 0 : ClientSession Nat).start [1] true
    let queued := { s with actors := s.actors.write 0 }
    let connected := { queued with connects := [] }.handleConnect false (1, []) true fun _ => 0
    let written := { connected with
      actors := { connected.actors with writes := 0 } }.handleWrite false
    let taken : List (Taken (ClientSession Nat) Event) := [⟨s, .write 0, queued⟩,
      ⟨queued, .connectDone false true fun _ => 0, connected⟩,
      ⟨connected, .written false, written⟩]
    History ClientActors.Step (ClientActors.start sampleSender)
      (startSteps sampleSender [1] ++
        taken.filterMap (History.showStep ClientSession.actors sending)) written.actors :=
  sending_run (.step (.step (.step .start (.write _ 0))
    (.connectDone _ false true _ [] [] (1, []) rfl)) (.written _ false 0 rfl))

end ClientSession
end SocketCPlusPlus.Socket
