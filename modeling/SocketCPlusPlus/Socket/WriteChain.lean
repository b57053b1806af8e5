import SocketCPlusPlus.Foundation.History
import SocketCPlusPlus.Socket.TCPClient

/-! The client's sending actor. A flush starts one `async_write` for each queued packet, a
finished write starts the heartbeat timer, and the timer flushes again. A flush with nothing
queued starts nothing, and without anything else under way the actor is gone. -/
namespace SocketCPlusPlus.Socket
open Foundation Packets

/-- The client with its operations under way: the first connect, the writes, and the waits on
the heartbeat timer. A wait ends once, by expiry or because a later wait cancels it, and its
handler looks at neither. -/
structure ClientActors where
  client : TCPClient
  factory : PacketMethodFactory Packet PacketClass UInt16
  connecting : Bool
  writes : Nat
  waits : Nat

namespace ClientActors

/-- A client whose connect is under way. -/
def start (factory : PacketMethodFactory Packet PacketClass UInt16) : ClientActors where
  client := .new
  factory := factory
  connecting := true
  writes := 0
  waits := 0

def write (a : ClientActors) (packet : Ref) : ClientActors :=
  { a with client := a.client.write packet }

def stop (a : ClientActors) : ClientActors :=
  { a with client := a.client.stop }

def startWrite (a : ClientActors) (uninitialised : Memory) : ClientActors :=
  let (writes, client, factory) := a.client.startWrite a.factory uninitialised
  { a with client := client, factory := factory, writes := a.writes + writes.length }

/-- The handler of a connect that succeeded. -/
def handleConnect (a : ClientActors) (uninitialised : Memory) : ClientActors :=
  if a.client.stopped then a
  else
    let a := { a with client := { a.client with isConnected := true } }
    a.startWrite uninitialised

def handleWrite (a : ClientActors) (ec : Bool) : ClientActors :=
  if a.client.stopped then a
  else if !ec then { a with waits := a.waits + 1 }
  else a.stop

inductive Event where
  | write (packet : Ref)
  | stop
  | connected (uninitialised : Memory)
  | written (ec : Bool)
  | timer (uninitialised : Memory)

inductive Step : ClientActors → Event → ClientActors → Prop
  | write (a : ClientActors) (packet : Ref) : Step a (.write packet) (a.write packet)
  | stop (a : ClientActors) : Step a .stop a.stop
  | connected (a : ClientActors) (uninitialised : Memory) : a.connecting = true →
      Step a (.connected uninitialised)
        ({ a with connecting := false }.handleConnect uninitialised)
  | written (a : ClientActors) (ec : Bool) (writes : Nat) : a.writes = writes + 1 →
      Step a (.written ec) ({ a with writes := writes }.handleWrite ec)
  | timer (a : ClientActors) (uninitialised : Memory) (waits : Nat) : a.waits = waits + 1 →
      Step a (.timer uninitialised) ({ a with waits := waits }.startWrite uninitialised)

/-- A connected client that runs has something under way that will flush its queue. -/
def Alive (a : ClientActors) : Prop :=
  a.client.isConnected = true → a.client.stopped = false → 0 < a.writes ∨ 0 < a.waits

/-- A flush finds a packet to send, or some other write or wait is under way. -/
def Rearms (a : ClientActors) : Event → Prop
  | .connected _ => a.client.stopped = true ∨ a.client.packetOutDeque ≠ [] ∨ 0 < a.writes ∨
      0 < a.waits
  | .timer _ => a.client.stopped = true ∨ a.client.packetOutDeque ≠ [] ∨ 0 < a.writes ∨
      1 < a.waits
  | _ => True

/-- What holds as long as the actor lives: nothing is under way before the connect, and the
client is connected from then until it is stopped. -/
structure Sound (a : ClientActors) : Prop where
  idle : a.connecting = true → a.client.isConnected = false ∧ a.writes = 0 ∧ a.waits = 0
  connected : a.connecting = false → a.client.stopped = false → a.client.isConnected = true
  stopped : a.client.stopped = true → a.client.isConnected = false
  alive : a.Alive

theorem startWrite_running {a : ClientActors} (uninitialised : Memory)
    (h : a.client.stopped = false) :
    a.startWrite uninitialised = { a with
      client := { a.client with packetOutDeque := [] }
      factory := a.client.packetOutDeque.foldl (fun f bp => (f.release bp).2) a.factory
      writes := a.writes + a.client.packetOutDeque.length } := by
  have hlength : ∀ (staged : List UInt8) (packets : List Packet),
      (TCPClient.prefixes staged packets).length = packets.length := by
    intro staged packets
    induction packets generalizing staged with
    | nil => rfl
    | cons p packets ih => rw [TCPClient.prefixes, List.length_cons, ih, List.length_cons]
  rw [startWrite, TCPClient.startWrite_eq _ _ _ h]
  simp only [hlength, List.length_map]

theorem startWrite_stopped {a : ClientActors} (uninitialised : Memory)
    (h : a.client.stopped = true) : a.startWrite uninitialised = a := by
  rw [startWrite, TCPClient.startWrite, h]
  rfl

/-- A flush leaves the client alive exactly if it had something to send or something else is
under way. -/
theorem startWrite_alive_iff {a : ClientActors} (uninitialised : Memory)
    (hconnected : a.client.stopped = false → a.client.isConnected = true) :
    (a.startWrite uninitialised).Alive ↔
      a.client.stopped = true ∨ a.client.packetOutDeque ≠ [] ∨ 0 < a.writes ∨ 0 < a.waits := by
  cases h : a.client.stopped with
  | true =>
    rw [startWrite_stopped uninitialised h]
    exact iff_of_true (fun _ hrunning => absurd (h.symm.trans hrunning) Bool.true_eq_false.mp)
      (Or.inl rfl)
  | false =>
    have hqueue : a.client.packetOutDeque ≠ [] ↔ 0 < a.client.packetOutDeque.length :=
      List.length_pos_iff.symm
    rw [startWrite_running uninitialised h, Alive, hqueue]
    simp only [h, hconnected h, true_implies, reduceCtorEq, false_or]
    omega

theorem stopped_alive {a : ClientActors} (h : a.client.isConnected = false) : a.Alive :=
  fun hconnected => absurd (h.symm.trans hconnected) Bool.false_ne_true

theorem start_sound (factory : PacketMethodFactory Packet PacketClass UInt16) :
    (start factory).Sound where
  idle _ := ⟨rfl, rfl, rfl⟩
  connected h := absurd h.symm Bool.false_ne_true
  stopped h := absurd h Bool.false_ne_true
  alive := stopped_alive rfl

namespace Sound
variable {a : ClientActors}

theorem write (h : a.Sound) (packet : Ref) : (a.write packet).Sound :=
  ⟨h.idle, h.connected, h.stopped, h.alive⟩

theorem stop (h : a.Sound) : a.stop.Sound where
  idle hconnecting := ⟨rfl, (h.idle hconnecting).2⟩
  connected _ hrunning := absurd hrunning.symm Bool.false_ne_true
  stopped _ := rfl
  alive := stopped_alive rfl

theorem startWrite (uninitialised : Memory) (hconnecting : a.connecting = false)
    (hconnected : a.client.stopped = false → a.client.isConnected = true)
    (hstopped : a.client.stopped = true → a.client.isConnected = false)
    (halive : (a.startWrite uninitialised).Alive) : (a.startWrite uninitialised).Sound := by
  cases h : a.client.stopped with
  | true =>
    rw [startWrite_stopped uninitialised h] at halive ⊢
    exact ⟨fun hc => absurd (hconnecting.symm.trans hc) Bool.false_ne_true,
      fun _ => hconnected, hstopped, halive⟩
  | false =>
    rw [startWrite_running uninitialised h] at halive ⊢
    exact ⟨fun hc => absurd (hconnecting.symm.trans hc) Bool.false_ne_true,
      fun _ => hconnected, hstopped, halive⟩

theorem handleConnect (h : a.Sound) (uninitialised : Memory) :
    let a' := { a with connecting := false }.handleConnect uninitialised
    (a'.Alive ↔ a.Rearms (.connected uninitialised)) ∧ (a'.Alive → a'.Sound) := by
  rw [ClientActors.handleConnect]
  cases hs : a.client.stopped with
  | true =>
    have hoff := h.stopped hs
    have halive : ClientActors.Alive { a with connecting := false } := stopped_alive hoff
    refine ⟨iff_of_true halive (Or.inl hs), fun _ => ?_⟩
    exact ⟨fun hc => absurd hc Bool.false_ne_true,
      fun _ hrunning => absurd (hs.symm.trans hrunning) Bool.true_eq_false.mp,
      fun _ => hoff, halive⟩
  | false =>
    refine ⟨startWrite_alive_iff uninitialised fun _ => rfl, fun halive => ?_⟩
    exact startWrite uninitialised rfl (fun _ => rfl)
      (fun hstopped => absurd (hs.symm.trans hstopped) Bool.false_ne_true) halive

theorem handleWrite (h : a.Sound) (ec : Bool) {writes : Nat} (hwrites : a.writes = writes + 1) :
    ({ a with writes := writes }.handleWrite ec).Sound := by
  have hconnecting : a.connecting ≠ true := by
    intro hc
    have hnone := (h.idle hc).2.1
    omega
  rw [ClientActors.handleWrite]
  cases hs : a.client.stopped with
  | true =>
    exact ⟨fun hc => absurd hc hconnecting, h.connected, h.stopped, stopped_alive (h.stopped hs)⟩
  | false =>
    cases ec with
    | false =>
      exact ⟨fun hc => absurd hc hconnecting, h.connected, h.stopped,
        fun _ _ => Or.inr (Nat.succ_pos _)⟩
    | true =>
      exact ⟨fun hc => absurd hc hconnecting,
        fun _ hrunning => absurd hrunning.symm Bool.false_ne_true, fun _ => rfl,
        stopped_alive rfl⟩

theorem timer (h : a.Sound) (uninitialised : Memory) {waits : Nat}
    (hwaits : a.waits = waits + 1) :
    let a' := { a with waits := waits }.startWrite uninitialised
    (a'.Alive ↔ a.Rearms (.timer uninitialised)) ∧ (a'.Alive → a'.Sound) := by
  have hconnecting : a.connecting = false := by
    apply Bool.eq_false_of_not_eq_true
    intro hc
    have hnone := (h.idle hc).2.2
    omega
  have hflush := startWrite_alive_iff (a := { a with waits := waits }) uninitialised
    (h.connected hconnecting)
  refine ⟨hflush.trans ?_, fun halive => ?_⟩
  · simp only [Rearms, hwaits, Nat.lt_add_left_iff_pos]
  · exact startWrite uninitialised hconnecting (h.connected hconnecting) h.stopped halive

end Sound

/-- In a run every state has something under way to flush the queue exactly if every flush, after
the connect or by the timer, found a packet or left some other operation under way. -/
theorem alive_iff {factory : PacketMethodFactory Packet PacketClass UInt16} {a : ClientActors}
    {taken : List (Taken ClientActors Event)} (h : History Step (start factory) taken a) :
    (∀ t ∈ taken, t.after.Alive) ↔ ∀ t ∈ taken, t.before.Rearms t.event := by
  apply History.always_iff Sound (fun _ _ a' => a'.Alive) Rearms (start_sound factory) _ h
  intro a event a' hsound hstep
  cases hstep with
  | write packet =>
    have hnext := hsound.write packet
    exact ⟨iff_of_true hnext.alive trivial, fun _ => hnext⟩
  | stop => exact ⟨iff_of_true hsound.stop.alive trivial, fun _ => hsound.stop⟩
  | connected uninitialised hconnecting => exact hsound.handleConnect uninitialised
  | written ec writes hwrites =>
    have hnext := hsound.handleWrite ec hwrites
    exact ⟨iff_of_true hnext.alive trivial, fun _ => hnext⟩
  | timer uninitialised waits hwaits => exact hsound.timer uninitialised hwaits

/-- A packet queued before the connect is flushed by it. -/
theorem sample_alive :
    let a := start sampleSender
    let a' := a.write 0
    let a'' := { a' with connecting := false }.handleConnect fun _ => 0
    let taken : List (Taken ClientActors Event) :=
      [⟨a, .write 0, a'⟩, ⟨a', .connected fun _ => 0, a''⟩]
    (∀ t ∈ taken, t.after.Alive) ↔ ∀ t ∈ taken, t.before.Rearms t.event :=
  alive_iff (.step (.step .start (.write _ 0)) (.connected _ _ rfl))

/-- A connect that finds nothing queued ends the actor: a packet written afterwards stays. -/
theorem late_packet_stranded :
    let a := start sampleSender
    let a' := { a with connecting := false }.handleConnect fun _ => 0
    let a'' := a'.write 0
    History Step a [⟨a, .connected fun _ => 0, a'⟩, ⟨a', .write 0, a''⟩] a'' ∧
      a''.client.isConnected = true ∧ a''.client.stopped = false ∧
      a''.client.packetOutDeque = [0] ∧ a''.writes = 0 ∧ a''.waits = 0 :=
  ⟨.step (.step .start (.connected _ _ rfl)) (.write _ 0), rfl, rfl, rfl, rfl, rfl⟩

end ClientActors
end SocketCPlusPlus.Socket
