import SocketCPlusPlus.Socket.SessionActors

/-! A stopped client. Its handlers return at once, so that the operations under way run out, and
what is queued from then on stays. -/
namespace SocketCPlusPlus.Socket
open Foundation Packets

namespace ClientSession
variable {Endpoint : Type}

/-- Operations under way. -/
def underWay (s : ClientSession Endpoint) : Nat :=
  s.connects.length + s.reads + s.checks + s.actors.writes + s.actors.waits

/-- Operations that an event ends. -/
def Event.ends : Event → Nat
  | .connectDone _ _ _ | .readDone _ | .written _ | .heartbeat _ | .deadline => 1
  | .write _ | .stop | .tick _ | .arrive _ => 0

/-- Packets that an event queues. -/
def Event.queues : Event → List Ref
  | .write packet => [packet]
  | _ => []

/-- What a step does to a client that is down. -/
structure Halted (s : ClientSession Endpoint) (event : Event) (s' : ClientSession Endpoint) :
    Prop where
  down : s'.Down
  endpoints : s'.endpoints = s.endpoints
  inputBuffer : s'.inputBuffer = s.inputBuffer
  console : s'.console = s.console
  factory : s'.actors.factory = s.actors.factory
  queue : s'.actors.client.packetOutDeque = s.actors.client.packetOutDeque ++ event.queues
  reads : s'.reads ≤ s.reads
  writes : s'.actors.writes ≤ s.actors.writes
  waits : s'.actors.waits ≤ s.actors.waits
  underWay : s'.underWay + event.ends = s.underWay

/-- The handler of an operation that ends finds the client stopped, and leaves it but for the counts
of what is under way. -/
theorem Down.ended {s : ClientSession Endpoint} (h : s.Down) {event : Event}
    (hqueues : event.queues = []) {connects : List (Endpoint × List Endpoint)}
    {reads checks writes waits : Nat} (hreads : reads ≤ s.reads) (hwrites : writes ≤ s.actors.writes)
    (hwaits : waits ≤ s.actors.waits)
    (hends : connects.length + reads + checks + writes + waits + event.ends = s.underWay) :
    Halted s event { s with
      connects := connects, reads := reads, checks := checks
      actors := { s.actors with writes := writes, waits := waits } } where
  down := ⟨h.stopped, h.closed, h.disconnected⟩
  endpoints := rfl
  inputBuffer := rfl
  console := rfl
  factory := rfl
  queue := by rw [hqueues, List.append_nil]
  reads := hreads
  writes := hwrites
  waits := hwaits
  underWay := hends

theorem Down.halted {s s' : ClientSession Endpoint} (h : s.Down) {event : Event}
    (hs : Step s event s') : Halted s event s' := by
  have hqueue := (List.append_nil s.actors.client.packetOutDeque).symm
  cases hs with
  | write packet =>
    exact ⟨⟨h.stopped, h.closed, h.disconnected⟩, rfl, rfl, rfl, rfl, rfl, Nat.le_refl _,
      Nat.le_refl _, Nat.le_refl _, rfl⟩
  | stop =>
    exact ⟨s.stop_down, rfl, rfl, rfl, rfl, hqueue, Nat.le_refl _, Nat.le_refl _, Nat.le_refl _,
      rfl⟩
  | tick seconds =>
    exact ⟨⟨h.stopped, h.closed, h.disconnected⟩, rfl, rfl, rfl, rfl, hqueue, Nat.le_refl _,
      Nat.le_refl _, Nat.le_refl _, rfl⟩
  | connectDone ec opened uninitialised before after endpointIter hconnects =>
    rw [handleConnect, if_pos h.stopped]
    apply h.ended rfl (Nat.le_refl _) (Nat.le_refl _) (Nat.le_refl _)
    simp only [underWay, Event.ends, hconnects, List.length_append, List.length_cons]
    omega
  | arrive bytes hopen => exact absurd (h.closed.symm.trans hopen) Bool.false_ne_true
  | line reads hreads hline =>
    rw [handleRead, if_pos h.stopped]
    apply h.ended rfl (hreads ▸ Nat.le_succ reads) (Nat.le_refl _) (Nat.le_refl _)
    simp only [underWay, Event.ends, hreads]
    omega
  | readFailed reads hreads =>
    rw [handleRead, if_pos h.stopped]
    apply h.ended rfl (hreads ▸ Nat.le_succ reads) (Nat.le_refl _) (Nat.le_refl _)
    simp only [underWay, Event.ends, hreads]
    omega
  | written ec writes hwrites =>
    rw [handleWrite, if_pos h.stopped]
    apply h.ended rfl (Nat.le_refl _) (hwrites ▸ Nat.le_succ writes) (Nat.le_refl _)
    simp only [underWay, Event.ends, hwrites]
    omega
  | heartbeat uninitialised waits hwaits =>
    have hidle := startWrite_stopped
      (s := { s with actors := { s.actors with waits := waits } }) h.stopped uninitialised
    rw [hidle]
    apply h.ended rfl (Nat.le_refl _) (Nat.le_refl _) (hwaits ▸ Nat.le_succ waits)
    simp only [underWay, Event.ends, hwaits]
    omega
  | deadline checks hchecks =>
    rw [checkDeadline, if_pos h.stopped]
    apply h.ended rfl (Nat.le_refl _) (Nat.le_refl _) (Nat.le_refl _)
    simp only [underWay, Event.ends, hchecks]
    omega

/-- What a run makes of a client that is down. -/
structure Drained (s : ClientSession Endpoint) (taken : List (Taken (ClientSession Endpoint) Event))
    (s' : ClientSession Endpoint) : Prop where
  down : s'.Down
  console : s'.console = s.console
  factory : s'.actors.factory = s.actors.factory
  queue : s'.actors.client.packetOutDeque =
    s.actors.client.packetOutDeque ++ taken.flatMap (·.event.queues)
  underWay : s'.underWay + (taken.map (·.event.ends)).sum = s.underWay

theorem Down.drained {s s' : ClientSession Endpoint} (h : s.Down)
    {taken : List (Taken (ClientSession Endpoint) Event)} (hrun : History Step s taken s') :
    Drained s taken s' := by
  induction hrun with
  | start => exact ⟨h, rfl, rfl, (List.append_nil _).symm, rfl⟩
  | step _ hs ih =>
    have hnext := ih.down.halted hs
    refine ⟨hnext.down, hnext.console.trans ih.console, hnext.factory.trans ih.factory, ?_, ?_⟩
    · rw [hnext.queue, ih.queue, List.flatMap_append, List.flatMap_singleton, List.append_assoc]
    · have hends := hnext.underWay
      have hsum := ih.underWay
      simp only [List.map_append, List.map_cons, List.map_nil, List.sum_append, List.sum_cons,
        List.sum_nil]
      omega

/-- Once a client has been stopped, by its user or by itself, it stays so: nothing is printed,
started, flushed or given back, the operations then under way are all that can still end, and each
ends once. -/
theorem stopped_client_drains {factory : PacketMethodFactory Packet PacketClass UInt16} {now : Nat}
    {endpoints : List Endpoint} {opened : Bool} {s s' : ClientSession Endpoint}
    {before after : List (Taken (ClientSession Endpoint) Event)}
    (h : History Step ((new factory now).start endpoints opened) before s)
    (hstopped : s.stopped = true) (hrun : History Step s after s') : Drained s after s' :=
  ((Sound.of_run h).down hstopped).drained hrun

/-- A client is stopped with a packet queued and a write, a read and a wait on the deadline under way,
and these end. -/
theorem sample_stopped_drains :
    let s := (new sampleSender 0 : ClientSession Nat).start [1] true
    let queued := { s with actors := s.actors.write 0 }
    let connected := { queued with connects := [] }.handleConnect false (1, []) true fun _ => 0
    let busy := { connected with actors := connected.actors.write 1 }
    let written := { busy.stop with
      actors := { busy.stop.actors with writes := 0 } }.handleWrite true
    let read := { written with reads := 0 }.handleRead true 0
    let checked := { read with checks := 0 }.checkDeadline
    Drained busy.stop [⟨busy.stop, .written true, written⟩, ⟨written, .readDone true, read⟩,
      ⟨read, .deadline, checked⟩] checked := by
  intro s queued connected busy written read checked
  have hconnect : History Step s _ connected :=
    .step (.step .start (.write _ 0)) (.connectDone _ false true _ [] [] (1, []) rfl)
  have hstop : History Step s _ busy.stop := .step (.step hconnect (.write _ 1)) (.stop _)
  have hends : History Step busy.stop _ checked :=
    .step (.step (.step .start (.written _ true 0 rfl)) (.readFailed _ 0 rfl)) (.deadline _ 0 rfl)
  exact stopped_client_drains hstop rfl hends

end ClientSession
end SocketCPlusPlus.Socket
