import SocketCPlusPlus.Socket.SessionShutdown

/-! Which endpoints a client tries, and to which it connects, as its console tells. -/
namespace SocketCPlusPlus.Socket
open Foundation Packets

namespace Message
variable {Endpoint : Type}

def tried? : Message Endpoint → Option Endpoint
  | .trying endpoint => some endpoint
  | _ => none

def connected? : Message Endpoint → Option Endpoint
  | .connectedTo endpoint => some endpoint
  | _ => none

end Message

namespace ClientSession
variable {Endpoint : Type}

def tried (s : ClientSession Endpoint) : List Endpoint := s.console.filterMap Message.tried?

def connectedTo (s : ClientSession Endpoint) : List Endpoint :=
  s.console.filterMap Message.connected?

/-- The endpoints tried so far come first in the list, and the one under way last among them. Nothing
is read or sent before a connection, which there is at most one of, to the last endpoint tried. -/
structure Trail (s : ClientSession Endpoint) : Prop where
  ordered : s.tried <+: s.endpoints
  pending : s.stopped = false → s.isConnected = false → s.connectedTo = [] ∧
    ∃ endpoint rest, s.connects = [(endpoint, rest)] ∧ s.tried ++ rest = s.endpoints ∧
      s.tried.getLast? = some endpoint
  connected : s.connectedTo = [] ∨
    ∃ endpoint, s.connectedTo = [endpoint] ∧ s.tried.getLast? = some endpoint
  idle : s.connectedTo = [] → s.reads = 0 ∧ s.actors.writes = 0 ∧ s.actors.waits = 0

/-- A client that stopped by itself before it was connected has tried everything. -/
def Exhausted (s : ClientSession Endpoint) : Prop :=
  s.stopped = true → s.connectedTo = [] → s.tried = s.endpoints

section Prints
variable {s : ClientSession Endpoint}

theorem tried_append (s : ClientSession Endpoint) (messages : List (Message Endpoint)) :
    (s.console ++ messages).filterMap Message.tried? =
      s.tried ++ messages.filterMap Message.tried? :=
  List.filterMap_append ..

theorem connectedTo_append (s : ClientSession Endpoint) (messages : List (Message Endpoint)) :
    (s.console ++ messages).filterMap Message.connected? =
      s.connectedTo ++ messages.filterMap Message.connected? :=
  List.filterMap_append ..

theorem startConnect_trail (endpointIter : List Endpoint) (hrunning : s.stopped = false)
    (hconnects : s.connects = []) (hnone : s.connectedTo = [])
    (hahead : s.tried ++ endpointIter = s.endpoints)
    (hidle : s.reads = 0 ∧ s.actors.writes = 0 ∧ s.actors.waits = 0) (opened : Bool) :
    (s.startConnect endpointIter opened).Trail ∧
      (s.startConnect endpointIter opened).Exhausted := by
  cases endpointIter with
  | nil =>
    rw [List.append_nil] at hahead
    refine ⟨⟨⟨[], ?_⟩, fun h => absurd h.symm Bool.false_ne_true, Or.inl hnone, fun _ => hidle⟩,
      fun _ _ => hahead⟩
    rw [List.append_nil]
    exact hahead
  | cons endpoint rest =>
    have htried : (s.startConnect (endpoint :: rest) opened).tried = s.tried ++ [endpoint] :=
      tried_append s [.trying endpoint]
    have hconnected : (s.startConnect (endpoint :: rest) opened).connectedTo = [] := by
      have happend := connectedTo_append s [.trying endpoint]
      rw [hnone] at happend
      exact happend
    have hall : (s.startConnect (endpoint :: rest) opened).tried ++ rest = s.endpoints := by
      rw [htried, ← hahead, List.append_assoc]
      rfl
    refine ⟨⟨⟨rest, hall⟩, fun _ _ => ⟨hconnected, endpoint, rest, ?_, hall, ?_⟩,
      Or.inl hconnected, fun _ => hidle⟩, fun h => absurd (hrunning.symm.trans h) Bool.false_ne_true⟩
    · change s.connects ++ [(endpoint, rest)] = [(endpoint, rest)]
      rw [hconnects, List.nil_append]
    · rw [htried, List.getLast?_concat]

namespace Trail
variable {s' : ClientSession Endpoint}

theorem of_same (h : s.Trail) (htried : s'.tried = s.tried)
    (hconnected : s'.connectedTo = s.connectedTo) (hendpoints : s'.endpoints = s.endpoints)
    (hpending : s'.stopped = false → s'.isConnected = false →
      s.stopped = false ∧ s.isConnected = false ∧ s'.connects = s.connects)
    (hidle : s.connectedTo = [] → s'.reads = 0 ∧ s'.actors.writes = 0 ∧ s'.actors.waits = 0) :
    s'.Trail := by
  refine ⟨?_, ?_, ?_, ?_⟩
  · rw [htried, hendpoints]
    exact h.ordered
  · intro hrunning hoff
    obtain ⟨hrunning, hoff, hconnects⟩ := hpending hrunning hoff
    rw [htried, hconnected, hendpoints, hconnects]
    exact h.pending hrunning hoff
  · rw [htried, hconnected]
    exact h.connected
  · rw [hconnected]
    exact hidle

/-- A read, a write or a wait of the heartbeat is under way only when there has been a connection,
and then every step of the client that prints about no endpoint keeps the trail. -/
theorem of_busy (h : s.Trail) (hrunning : s.stopped = false)
    (hbusy : 0 < s.reads + s.actors.writes + s.actors.waits) (htried : s'.tried = s.tried)
    (hconnected : s'.connectedTo = s.connectedTo) (hendpoints : s'.endpoints = s.endpoints)
    (hon : s'.stopped = false → s'.isConnected = s.isConnected) : s'.Trail ∧ s'.Exhausted := by
  have hsome : s.connectedTo ≠ [] := by
    intro hnone
    have hidle := h.idle hnone
    omega
  refine ⟨?_, fun _ hnone => absurd (hconnected.symm.trans hnone) hsome⟩
  apply h.of_same htried hconnected hendpoints
  · intro hrunning' hoff
    rw [hon hrunning'] at hoff
    exact absurd (h.pending hrunning hoff).1 hsome
  · exact fun hnone => absurd hnone hsome

theorem halted (h : s.Trail) {event : Event} (hs : Halted s event s') : s'.Trail := by
  have htried : s'.tried = s.tried := congrArg (List.filterMap Message.tried?) hs.console
  have hconnected : s'.connectedTo = s.connectedTo :=
    congrArg (List.filterMap Message.connected?) hs.console
  apply h.of_same htried hconnected hs.endpoints
  · intro hrunning
    exact absurd (hrunning.symm.trans hs.down.stopped) Bool.false_ne_true
  · intro hnone
    have hidle := h.idle hnone
    have hreads := hs.reads
    have hwrites := hs.writes
    have hwaits := hs.waits
    omega

theorem connectDone (h : s.Trail) (hsound : s.Sound) (hrunning : s.stopped = false)
    (ec opened : Bool) (uninitialised : Memory) {before after : List (Endpoint × List Endpoint)}
    {endpointIter : Endpoint × List Endpoint}
    (hconnects : s.connects = before ++ endpointIter :: after) :
    let s' := { s with connects := before ++ after }.handleConnect ec endpointIter opened
      uninitialised
    s'.Trail ∧ s'.Exhausted := by
  obtain ⟨rfl, rfl, hoff, hreads, -⟩ := hsound.connect hrunning hconnects
  obtain ⟨hnone, endpoint, rest, hone, hahead, hlast⟩ := h.pending hrunning hoff
  rw [hone, List.nil_append, List.singleton_inj] at hconnects
  subst hconnects
  by_cases hfailed : s.isOpen = false ∨ ec = true
  · obtain ⟨message, hmessage, hnext⟩ := handleConnect_next
      (s := { s with connects := [] ++ [] }) hrunning hfailed (endpoint, rest) opened uninitialised
    have htried := tried_append s [message]
    have hconnected := connectedTo_append s [message]
    have hquiet : [message].filterMap Message.tried? = [] ∧
        [message].filterMap Message.connected? = [] := by
      rcases hmessage with rfl | rfl <;> exact ⟨rfl, rfl⟩
    rw [hquiet.1, List.append_nil] at htried
    rw [hquiet.2, List.append_nil, hnone] at hconnected
    intro s'
    have hs' : s' = _ := hnext
    rw [hs']
    apply startConnect_trail
    · exact hrunning
    · rfl
    · exact hconnected
    · exact (congrArg (· ++ rest) htried).trans hahead
    · exact h.idle hnone
  · rw [not_or, Bool.not_eq_false, Bool.not_eq_true] at hfailed
    obtain ⟨hopen, rfl⟩ := hfailed
    obtain ⟨hrunning', hon⟩ := connected_actors
      (a := { s.actors with connecting := false }) uninitialised hrunning
    have htried := tried_append s [.connectedTo endpoint]
    have hconnected := connectedTo_append s [.connectedTo endpoint]
    rw [List.filterMap_cons_none rfl, List.filterMap_nil, List.append_nil] at htried
    rw [hnone, List.nil_append] at hconnected
    intro s'
    have hs' : s' = _ := handleConnect_connected (s := { s with connects := [] ++ [] }) hrunning
      hopen (endpoint, rest) opened uninitialised
    rw [hs']
    refine ⟨⟨?_, fun _ hoff' => absurd (hoff'.symm.trans hon) Bool.false_ne_true,
      Or.inr ⟨endpoint, hconnected, ?_⟩, fun hnone' => ?_⟩,
      fun hstopped => absurd (hrunning'.symm.trans hstopped) Bool.false_ne_true⟩
    · exact (congrArg (· <+: s.endpoints) htried).mpr h.ordered
    · exact (congrArg List.getLast? htried).trans hlast
    · exact absurd (hconnected.symm.trans hnone') (List.cons_ne_nil _ _)

theorem readDone (h : s.Trail) (hrunning : s.stopped = false) {reads : Nat}
    (hreads : s.reads = reads + 1) (ec : Bool) (n : Nat) :
    ({ s with reads := reads }.handleRead ec n).Trail ∧
      ({ s with reads := reads }.handleRead ec n).Exhausted := by
  have hbusy : 0 < s.reads + s.actors.writes + s.actors.waits := by omega
  cases ec with
  | true =>
    rw [handleRead_failed (s := { s with reads := reads }) hrunning]
    apply h.of_busy hrunning hbusy
    · exact (tried_append s _).trans (List.append_nil _)
    · exact (connectedTo_append s _).trans (List.append_nil _)
    · rfl
    · exact fun hoff => absurd hoff.symm Bool.false_ne_true
  | false =>
    rw [handleRead_line (s := { s with reads := reads }) hrunning]
    apply h.of_busy hrunning hbusy
    · refine (tried_append s _).trans ?_
      split <;> exact List.append_nil _
    · refine (connectedTo_append s _).trans ?_
      split <;> exact List.append_nil _
    · rfl
    · exact fun _ => rfl

theorem written (h : s.Trail) (hrunning : s.stopped = false) {writes : Nat}
    (hwrites : s.actors.writes = writes + 1) (ec : Bool) :
    let s' := { s with actors := { s.actors with writes := writes } }.handleWrite ec
    s'.Trail ∧ s'.Exhausted := by
  have hbusy : 0 < s.reads + s.actors.writes + s.actors.waits := by omega
  cases ec with
  | true =>
    rw [handleWrite_failed
      (s := { s with actors := { s.actors with writes := writes } }) hrunning]
    apply h.of_busy hrunning hbusy
    · refine (congrArg (List.filterMap Message.tried?) (List.append_assoc ..)).trans ?_
      exact (tried_append s _).trans (List.append_nil _)
    · refine (congrArg (List.filterMap Message.connected?) (List.append_assoc ..)).trans ?_
      exact (connectedTo_append s _).trans (List.append_nil _)
    · rfl
    · exact fun hoff => absurd hoff.symm Bool.false_ne_true
  | false =>
    rw [handleWrite_written
      (s := { s with actors := { s.actors with writes := writes } }) hrunning]
    apply h.of_busy hrunning hbusy
    · exact (tried_append s _).trans (List.append_nil _)
    · exact (connectedTo_append s _).trans (List.append_nil _)
    · rfl
    · exact fun _ => rfl

theorem heartbeat (h : s.Trail) (hrunning : s.stopped = false) {waits : Nat}
    (hwaits : s.actors.waits = waits + 1) (uninitialised : Memory) :
    let s' := { s with actors := { s.actors with waits := waits } }.startWrite uninitialised
    s'.Trail ∧ s'.Exhausted := by
  have hbusy : 0 < s.reads + s.actors.writes + s.actors.waits := by omega
  apply h.of_busy hrunning hbusy
  · rfl
  · rfl
  · rfl
  · exact fun _ => startWrite_isConnected _ uninitialised

theorem deadline (h : s.Trail) (hrunning : s.stopped = false) (checks : Nat) :
    { s with checks := checks }.checkDeadline.Trail := by
  rcases checkDeadline_cases (s := { s with checks := checks }) hrunning with
    ⟨-, hclosed⟩ | ⟨-, hopen⟩
  · rw [hclosed]
    exact h.of_same rfl rfl rfl (fun _ hoff => ⟨hrunning, hoff, rfl⟩) h.idle
  · rw [hopen]
    exact h.of_same rfl rfl rfl (fun _ hoff => ⟨hrunning, hoff, rfl⟩) h.idle

/-- Every step keeps the trail, and every step but its user's stop leaves a client that gave up with
nothing untried. -/
theorem step (h : s.Trail) (hsound : s.Sound) {event : Event} (hs : Step s event s') :
    s'.Trail ∧ (s.Exhausted → event ≠ .stop → s'.Exhausted) := by
  cases hstopped : s.stopped with
  | true =>
    have hhalted := (hsound.down hstopped).halted hs
    refine ⟨h.halted hhalted, fun hall _ _ hnone => ?_⟩
    have htried : s'.tried = s.tried := congrArg (List.filterMap Message.tried?) hhalted.console
    have hconnected : s'.connectedTo = s.connectedTo :=
      congrArg (List.filterMap Message.connected?) hhalted.console
    rw [htried, hhalted.endpoints]
    exact hall hstopped (hconnected.symm.trans hnone)
  | false =>
    have hrunning := hstopped
    -- a step after which the client still runs says nothing about giving up
    have hkept : s'.stopped = false → s'.Trail →
        s'.Trail ∧ (s.Exhausted → event ≠ .stop → s'.Exhausted) :=
      fun hrunning' htrail => ⟨htrail, fun _ _ hstopped' =>
        absurd (hrunning'.symm.trans hstopped') Bool.false_ne_true⟩
    cases hs with
    | write packet =>
      refine hkept hrunning (h.of_same rfl rfl rfl (fun _ hoff => ⟨hrunning, hoff, rfl⟩) h.idle)
    | stop =>
      refine ⟨?_, fun _ hne => absurd rfl hne⟩
      apply h.of_same
      · rfl
      · rfl
      · rfl
      · exact fun hoff => absurd hoff.symm Bool.false_ne_true
      · exact h.idle
    | tick seconds =>
      exact hkept hrunning (h.of_same rfl rfl rfl (fun _ hoff => ⟨hrunning, hoff, rfl⟩) h.idle)
    | connectDone ec opened uninitialised before after endpointIter hconnects =>
      obtain ⟨htrail, hexhausted⟩ :=
        h.connectDone hsound hrunning ec opened uninitialised hconnects
      exact ⟨htrail, fun _ _ => hexhausted⟩
    | arrive bytes hopen hreads =>
      exact hkept hrunning (h.of_same rfl rfl rfl (fun _ hoff => ⟨hrunning, hoff, rfl⟩) h.idle)
    | line reads hreads hline =>
      obtain ⟨htrail, hexhausted⟩ := h.readDone hrunning hreads false _
      exact ⟨htrail, fun _ _ => hexhausted⟩
    | readFailed reads hreads =>
      obtain ⟨htrail, hexhausted⟩ := h.readDone hrunning hreads true 0
      exact ⟨htrail, fun _ _ => hexhausted⟩
    | written ec writes hwrites =>
      obtain ⟨htrail, hexhausted⟩ := h.written hrunning hwrites ec
      exact ⟨htrail, fun _ _ => hexhausted⟩
    | heartbeat uninitialised waits hwaits =>
      obtain ⟨htrail, hexhausted⟩ := h.heartbeat hrunning hwaits uninitialised
      exact ⟨htrail, fun _ _ => hexhausted⟩
    | deadline checks hchecks =>
      refine hkept ?_ (h.deadline hrunning checks)
      exact (congrArg (fun actors => actors.client.stopped)
        (checkDeadline_actors { s with checks := checks })).trans hrunning

end Trail
end Prints

/-- A client tries its endpoints in the order of the list, each at most once and one at a time. It
connects at most once, to the endpoint it tried last, and gives up by itself only when it has tried
all of them. -/
theorem endpoints_in_order {factory : PacketMethodFactory Packet PacketClass UInt16} {now : Nat}
    {endpoints : List Endpoint} {opened : Bool} {s : ClientSession Endpoint}
    {taken : List (Taken (ClientSession Endpoint) Event)}
    (h : History Step ((new factory now).start endpoints opened) taken s) :
    s.tried <+: endpoints ∧ s.connectedTo.length ≤ 1 ∧
      (∀ endpoint ∈ s.connectedTo, s.tried.getLast? = some endpoint) ∧
      ((∀ t ∈ taken, t.event ≠ .stop) → s.stopped = true → s.connectedTo = [] →
        s.tried = endpoints) := by
  have hboth : (s.Sound ∧ s.Trail ∧ s.endpoints = endpoints) ∧
      ((∀ t ∈ taken, t.event ≠ .stop) → s.Exhausted) := by
    induction h with
    | start =>
      have hend : ((new factory now).start endpoints opened).endpoints = endpoints :=
        startConnect_endpoints _ endpoints opened
      obtain ⟨htrail, hexhausted⟩ := startConnect_trail endpoints
        (s := { (new factory now : ClientSession Endpoint) with endpoints := endpoints })
        rfl rfl rfl rfl ⟨rfl, rfl, rfl⟩ opened
      refine ⟨⟨start_sound factory now endpoints opened, ?_, hend⟩, fun _ => hexhausted⟩
      exact ⟨htrail.ordered, htrail.pending, htrail.connected, htrail.idle⟩
    | step _ hs ih =>
      obtain ⟨⟨hsound, htrail, hend⟩, hexhausted⟩ := ih
      obtain ⟨htrail', hexhausted'⟩ := htrail.step hsound hs
      refine ⟨⟨hsound.step hs, htrail', hs.endpoints_eq.trans hend⟩, fun hnostop => ?_⟩
      obtain ⟨hbefore, hlast⟩ := List.forall_mem_append.mp hnostop
      exact hexhausted' (hexhausted hbefore) (hlast _ (List.mem_singleton_self _))
  obtain ⟨⟨-, htrail, hend⟩, hexhausted⟩ := hboth
  refine ⟨hend ▸ htrail.ordered, ?_, ?_, fun hnostop hstopped hnone => ?_⟩
  · rcases htrail.connected with hnone | ⟨endpoint, hone, -⟩
    · rw [hnone]
      exact Nat.zero_le 1
    · rw [hone]
      exact Nat.le_refl 1
  · rcases htrail.connected with hnone | ⟨endpoint, hone, hlast⟩
    · rw [hnone]
      exact fun _ hmem => absurd hmem List.not_mem_nil
    · rw [hone, List.forall_mem_singleton]
      exact hlast
  · exact (hexhausted hnostop hstopped hnone).trans hend

/-- The first of two endpoints does not answer, and no socket can be opened for the second. -/
theorem sample_endpoints_in_order :
    let s := (new sampleSender 0 : ClientSession Nat).start [1, 2] true
    let s' := { s with connects := [] }.handleConnect true (1, [2]) false fun _ => 0
    let s'' := { s' with connects := [] }.handleConnect true (2, []) false fun _ => 0
    s''.tried <+: [1, 2] ∧ s''.connectedTo.length ≤ 1 ∧
      (∀ endpoint ∈ s''.connectedTo, s''.tried.getLast? = some endpoint) ∧
      ((∀ t ∈ ([⟨s, .connectDone true false fun _ => 0, s'⟩,
          ⟨s', .connectDone true false fun _ => 0, s''⟩] : List (Taken (ClientSession Nat) Event)),
        t.event ≠ .stop) → s''.stopped = true → s''.connectedTo = [] → s''.tried = [1, 2]) :=
  endpoints_in_order (.step (.step .start (.connectDone _ true false _ [] [] (1, [2]) rfl))
    (.connectDone _ true false _ [] [] (2, []) rfl))

end ClientSession
end SocketCPlusPlus.Socket
