import SocketCPlusPlus.ThreadedServer.ServiceLoop

/-! The datagram server and its clients. Datagrams are lost, duplicated and reordered, and other hosts
send whatever they like, though not under a client's address. -/
namespace SocketCPlusPlus.ThreadedServer
open Foundation Packets Common

/-- Where a client's main loop is: asleep until it may send, in `recvfrom`, or out. -/
inductive Phase where
  | sleeping | receiving | exited
  deriving DecidableEq, Repr

structure UDPClient where
  stateMachine : CommsStateMachine
  buffer : Memory
  siOther : SockAddrIn
  phase : Phase

structure Datagram where
  source : SockAddrIn
  dest : SockAddrIn
  bytes : List UInt8
  deriving DecidableEq, Repr

namespace UDPClient

def bufferSize : Nat := 1024

/-- The size of a socket address, not that of what was received. -/
def slen : Int := 16

def new (siOther : SockAddrIn) (buffer : Memory) : UDPClient where
  stateMachine := .new false
  buffer := buffer
  siOther := siOther
  phase := .sleeping

/-- The upper half of the loop, once the machine is ready to send. -/
def send (client : UDPClient) : Sent × UDPClient :=
  let (_, bytesUsed, buffer, sm) := client.stateMachine.dataSend client.buffer bufferSize
  (⟨client.siOther, buffer.load 0 bytesUsed⟩, { client with
    stateMachine := sm
    buffer := buffer
    phase := if sm.isExpectingReceive then .receiving else .sleeping })

/-- The lower half, with what `recvfrom` returns. -/
def receive (client : UDPClient) (d : Datagram) : UDPClient :=
  let buffer := client.buffer.store 0 d.bytes
  { stateMachine := (client.stateMachine.dataReceive buffer slen).2
    buffer := buffer
    siOther := d.source
    phase := .sleeping }

def exit (client : UDPClient) : UDPClient := { client with phase := .exited }

end UDPClient

structure Network where
  server : MappedServer
  clients : SockAddrIn → UDPClient
  inFlight : List Datagram

namespace Network

/-- A datagram longer than the buffer is an error. -/
def recvfrom (d : Datagram) : Received :=
  if UDPServer.bufLength < d.bytes.length then .socketError else .bytes d.source d.bytes

/-- What the server receives in a turn, if anything. -/
def timing (receiveBuf : Memory) : Option Datagram → SelectTiming
  | none => .timedOut
  | some d => .ready receiveBuf [recvfrom d]

def setClient (net : Network) (a : SockAddrIn) (client : UDPClient) : Network :=
  { net with clients := Function.update net.clients a client }

/-- A turn of the server's loop, with what it received taken out of flight. -/
def serve (net : Network) (serverAddr : SockAddrIn) (received : Option Datagram)
    (receiveBuf : Memory) (stack : SocketPair → Memory) (rest : List Datagram) : Network :=
  let (sent, server) := net.server.round ⟨timing receiveBuf received, stack⟩
  { net with
    server := server
    inFlight := rest ++ sent.map fun message => ⟨serverAddr, message.address, message.bytes⟩ }

def start (serverAddr : SockAddrIn) (buffers : SockAddrIn → Memory) : Network where
  server := .new
  clients a := .new serverAddr (buffers a)
  inFlight := []

inductive Event where
  | clientSends (a : SockAddrIn)
  | clientReceives (a : SockAddrIn) (d : Datagram)
  | clientExits (a : SockAddrIn)
  | serve (received : Option Datagram) (receiveBuf : Memory) (stack : SocketPair → Memory)
  | inject (d : Datagram)
  | lose (d : Datagram)
  | duplicate (d : Datagram)

section System
variable (genuine : SockAddrIn → Prop) (serverAddr : SockAddrIn)

/-- The clients are at the genuine addresses. -/
inductive Step : Network → Event → Network → Prop
  | clientSends (net : Network) (a : SockAddrIn) : genuine a → (net.clients a).phase = .sleeping →
      (net.clients a).stateMachine.readyToSend = true →
      Step net (.clientSends a)
        { net.setClient a (net.clients a).send.2 with
          inFlight := net.inFlight ++
            [⟨a, (net.clients a).send.1.address, (net.clients a).send.1.bytes⟩] }
  | clientReceives (net : Network) (a : SockAddrIn) (d : Datagram) (before after : List Datagram) :
      genuine a → (net.clients a).phase = .receiving → net.inFlight = before ++ d :: after →
      d.dest = a → d.bytes.length ≤ UDPClient.bufferSize →
      Step net (.clientReceives a d)
        { net.setClient a ((net.clients a).receive d) with inFlight := before ++ after }
  | clientExits (net : Network) (a : SockAddrIn) : genuine a →
      Step net (.clientExits a) (net.setClient a (net.clients a).exit)
  | serveReceived (net : Network) (d : Datagram) (receiveBuf : Memory)
      (stack : SocketPair → Memory) (before after : List Datagram) :
      net.inFlight = before ++ d :: after → d.dest = serverAddr →
      Step net (.serve (some d) receiveBuf stack)
        (net.serve serverAddr (some d) receiveBuf stack (before ++ after))
  | serveIdle (net : Network) (receiveBuf : Memory) (stack : SocketPair → Memory) :
      Step net (.serve none receiveBuf stack)
        (net.serve serverAddr none receiveBuf stack net.inFlight)
  | inject (net : Network) (d : Datagram) : ¬ genuine d.source →
      Step net (.inject d) { net with inFlight := net.inFlight ++ [d] }
  | lose (net : Network) (d : Datagram) (before after : List Datagram) :
      net.inFlight = before ++ d :: after →
      Step net (.lose d) { net with inFlight := before ++ after }
  | duplicate (net : Network) (d : Datagram) : d ∈ net.inFlight →
      Step net (.duplicate d) { net with inFlight := net.inFlight ++ [d] }

end System

/-- What a client's step puts in flight. -/
def sentBy (a : SockAddrIn) (t : Taken Network Event) : List Datagram :=
  match t.event with
  | .clientSends a' =>
    if a' = a then
      [⟨a, (t.before.clients a).send.1.address, (t.before.clients a).send.1.bytes⟩]
    else []
  | _ => []

/-- The handshake of a client. -/
def greeting (serverAddr a : SockAddrIn) : Datagram :=
  ⟨a, serverAddr, CommsStateMachine.handshake true⟩

/-- The machine that the server has for a client whose handshake it received. -/
def accepted : CommsStateMachine := { CommsStateMachine.new true with currentState := .sendConnectionId }

/-- What a waiting client reads of a datagram: where it is short, the client's own handshake shows
behind it. -/
def overlaid (bytes : List UInt8) : List UInt8 :=
  (bytes ++ (CommsStateMachine.handshake true).drop bytes.length).take 6

/-- How far a client has come. -/
inductive Course (serverAddr : SockAddrIn) (client : UDPClient) : Prop
  | unsent : client.stateMachine = .new false → client.siOther = serverAddr →
      client.phase ≠ .receiving → Course serverAddr client
  | waiting : client.stateMachine = { CommsStateMachine.new false with hasSentState := true } →
      client.buffer.load 0 6 = CommsStateMachine.handshake true → client.phase ≠ .sleeping →
      Course serverAddr client
  | decided : client.stateMachine.hasSentState = true →
      client.stateMachine.currentState ≠ .sendHandshake → client.phase ≠ .receiving →
      Course serverAddr client

namespace Course
variable {serverAddr : SockAddrIn} {client : UDPClient}

theorem exit (h : Course serverAddr client) : Course serverAddr client.exit := by
  cases h with
  | unsent hmachine hother hphase => exact .unsent hmachine hother Phase.noConfusion
  | waiting hmachine hbuffer hphase => exact .waiting hmachine hbuffer Phase.noConfusion
  | decided hsent hstate hphase => exact .decided hsent hstate Phase.noConfusion

theorem send (h : Course serverAddr client) (hready : client.stateMachine.readyToSend = true) :
    client.stateMachine.hasSentState = false ∧
      client.send.1 = ⟨serverAddr, CommsStateMachine.handshake true⟩ ∧
      client.send.2.stateMachine.hasSentState = true ∧
      client.send.2.stateMachine.currentState = .sendHandshake ∧
      Course serverAddr client.send.2 := by
  have hunsent : client.stateMachine.hasSentState = false := by
    rw [CommsStateMachine.readyToSend, Bool.not_eq_true'] at hready
    exact hready
  cases h with
  | unsent hmachine hother hphase =>
    have hdata := CommsStateMachine.dataSend_handshake (m := .new false) client.buffer
      rfl (show (6 : Int) < UDPClient.bufferSize by decide)
    have hload := Store.load_store_prefix client.buffer 0 (CommsStateMachine.handshake true) [0]
    refine ⟨hunsent, ?_, ?_, ?_, .waiting ?_ ?_ ?_⟩ <;>
      rw [UDPClient.send, hmachine, hdata]
    · exact congrArg₂ Sent.mk hother hload
    · rfl
    · exact hload
    · exact Phase.noConfusion
  | waiting hmachine hbuffer hphase =>
    rw [hmachine] at hunsent
    exact absurd hunsent.symm Bool.false_ne_true
  | decided hsent hstate hphase => exact absurd (hunsent.symm.trans hsent) Bool.false_ne_true

/-- The datagram that a client waits for decides, and it accepts only what looks like a server's
handshake. -/
theorem receive (h : Course serverAddr client) (hphase : client.phase = .receiving)
    (d : Datagram) :
    client.stateMachine.hasSentState = true ∧
      (client.receive d).stateMachine.hasSentState = true ∧ Course serverAddr (client.receive d) ∧
      ((client.receive d).stateMachine.currentState = .sendConnectionId →
        overlaid d.bytes = CommsStateMachine.handshake false) := by
  cases h with
  | unsent hmachine hother hnot => exact absurd hphase hnot
  | waiting hmachine hbuffer hnot =>
    have hstate : client.stateMachine.currentState = .sendHandshake := by rw [hmachine]; rfl
    have hread : (client.buffer.store 0 d.bytes).load 0 6 = overlaid d.bytes := by
      rw [Store.load_store_front, hbuffer, overlaid]
    have hverdict : (client.receive d).stateMachine =
        client.stateMachine.verdict (client.buffer.store 0 d.bytes) UDPClient.slen :=
      CommsStateMachine.dataReceive_verdict _ _ hstate
    have hsent : (client.receive d).stateMachine.hasSentState = true := by
      rw [hverdict, CommsStateMachine.verdict, hmachine]
      split <;> rfl
    refine ⟨by rw [hmachine], hsent, .decided hsent ?_ Phase.noConfusion, fun haccepted => ?_⟩
    · rw [hverdict]
      exact CommsStateMachine.verdict_ne_sendHandshake _ _ _
    · rw [hverdict, CommsStateMachine.verdict_currentState, hmachine] at haccepted
      split at haccepted
      · next haccepts => exact hread.symm.trans haccepts.2
      · cases haccepted
  | decided hsent hstate hnot => exact absurd hphase hnot

end Course

/-- What holds of the network in every run. -/
structure Sound (genuine : SockAddrIn → Prop) (serverAddr : SockAddrIn) (net : Network) : Prop where
  server : net.server.Sound
  course : ∀ a, genuine a → Course serverAddr (net.clients a)
  flight : ∀ d ∈ net.inFlight, genuine d.source →
    d = greeting serverAddr d.source ∧ (net.clients d.source).stateMachine.hasSentState = true
  known : ∀ a m, genuine a → net.server.table.machine (a.sinAddr, a.sinPort) = some m →
    m = accepted ∧ (net.clients a).stateMachine.hasSentState = true

/-- The datagrams that a client has sent. -/
def sentSoFar (serverAddr : SockAddrIn) (net : Network) (a : SockAddrIn) : List Datagram :=
  if (net.clients a).stateMachine.hasSentState then [greeting serverAddr a] else []

theorem setClient_self (net : Network) (a : SockAddrIn) (client : UDPClient) :
    (net.setClient a client).clients a = client :=
  Function.update_self ..

theorem setClient_other (net : Network) {a b : SockAddrIn} (client : UDPClient) (h : b ≠ a) :
    (net.setClient a client).clients b = net.clients b :=
  Function.update_of_ne h ..

theorem setClient_flag {net : Network} {a : SockAddrIn} {client : UDPClient}
    (h : client.stateMachine.hasSentState = (net.clients a).stateMachine.hasSentState)
    (b : SockAddrIn) : ((net.setClient a client).clients b).stateMachine.hasSentState =
      (net.clients b).stateMachine.hasSentState := by
  by_cases hab : b = a
  · rw [hab, setClient_self, h]
  · rw [setClient_other _ _ hab]

theorem setClient_hasSent {net : Network} {a : SockAddrIn} {client : UDPClient}
    (h : (net.clients a).stateMachine.hasSentState = true →
      client.stateMachine.hasSentState = true) {b : SockAddrIn}
    (hb : (net.clients b).stateMachine.hasSentState = true) :
    ((net.setClient a client).clients b).stateMachine.hasSentState = true := by
  by_cases hab : b = a
  · rw [hab] at hb ⊢
    rw [setClient_self]
    exact h hb
  · rwa [setClient_other _ _ hab]

theorem mem_of_taken {net : Network} {d : Datagram} {before after : List Datagram}
    (h : net.inFlight = before ++ d :: after) : ∀ d' ∈ before ++ after, d' ∈ net.inFlight := by
  intro d' hd'
  rw [h]
  exact ((List.Sublist.refl before).append (List.sublist_cons_self d after)).subset hd'

section Sent
variable {serverAddr : SockAddrIn} {net net' : Network} {a b : SockAddrIn}

theorem sentBy_self : sentBy a ⟨net, .clientSends a, net'⟩ =
    [⟨a, (net.clients a).send.1.address, (net.clients a).send.1.bytes⟩] :=
  if_pos rfl

theorem sentBy_other (h : a ≠ b) : sentBy b ⟨net, .clientSends a, net'⟩ = [] :=
  if_neg h

theorem sentSoFar_same (h : (net'.clients a).stateMachine.hasSentState =
    (net.clients a).stateMachine.hasSentState) :
    sentSoFar serverAddr net a ++ [] = sentSoFar serverAddr net' a := by
  rw [sentSoFar, sentSoFar, h, List.append_nil]

end Sent

theorem key_injective {a b : SockAddrIn} (h : (a.sinAddr, a.sinPort) = (b.sinAddr, b.sinPort)) :
    a = b := by
  cases a
  cases b
  exact congrArg (fun key : SocketPair => SockAddrIn.mk key.1 key.2) h

/-- A datagram concerns the machine of its sender only. -/
theorem receive_machine_other (server : MappedServer) (receiveBuf : Memory) {d : Datagram}
    {key : SocketPair} (h : key ≠ (d.source.sinAddr, d.source.sinPort)) :
    (server.receive (timing receiveBuf (some d))).table.machine key = server.table.machine key := by
  rw [timing, recvfrom]
  split
  · rfl
  · rw [MappedServer.receive, MappedServer.table_receiveAll, UDPServer.receiveAllDataFromEndpoint]
    split
    · rfl
    · exact congrArg (Option.map _) (Function.update_of_ne h _ server.table.connections)

/-- A client's handshake gets the machine of its sender past the handshake. -/
theorem receive_machine_greeting (server : MappedServer) (receiveBuf : Memory)
    (serverAddr a : SockAddrIn) (hknown : ∀ m,
      server.table.machine (a.sinAddr, a.sinPort) = some m → m = accepted) :
    (server.receive (timing receiveBuf (some (greeting serverAddr a)))).table.machine
      (a.sinAddr, a.sinPort) = some accepted := by
  let arrival : Arrival :=
    ⟨a, CommsStateMachine.handshake true, receiveBuf, by decide, by decide⟩
  have harrive : (server.receive (timing receiveBuf (some (greeting serverAddr a)))).table =
      server.table.arrive arrival :=
    server.table_receiveAll receiveBuf _
  rw [harrive]
  refine (server.table.arrive_machine_self arrival).trans (congrArg some ?_)
  have hload : (receiveBuf.store 0 (CommsStateMachine.handshake true)).load 0 6 =
      CommsStateMachine.handshake true :=
    Store.load_store_same ..
  have hlen : (6 : Int) ≤ UDPServer.bufLength := by decide
  change (((server.table.machine (a.sinAddr, a.sinPort)).getD (.new true)).dataReceive _ _).2 = _
  cases hfound : server.table.machine (a.sinAddr, a.sinPort) with
  | none =>
    rw [Option.getD_none, CommsStateMachine.dataReceive_handshake rfl hlen hload]
    rfl
  | some m =>
    rw [Option.getD_some, hknown m hfound,
      CommsStateMachine.dataReceive_idle _ _ CommsState.noConfusion]

namespace Sound
variable {genuine : SockAddrIn → Prop} {serverAddr : SockAddrIn} {net net' : Network}

theorem start (buffers : SockAddrIn → Memory) : (start serverAddr buffers).Sound genuine serverAddr where
  server := MappedServer.Sound.new
  course a _ := .unsent rfl rfl Phase.noConfusion
  flight d hd := absurd hd List.not_mem_nil
  known a m _ hm := by
    have hnone : (MappedServer.new).connections[(a.sinAddr, a.sinPort)]? = none :=
      Std.TreeMap.getElem?_emptyc
    change ((MappedServer.new).connections[(a.sinAddr, a.sinPort)]?).map _ = some m at hm
    rw [hnone] at hm
    cases hm

theorem setClient (h : net.Sound genuine serverAddr) {a : SockAddrIn} {client : UDPClient}
    {inFlight : List Datagram} (hcourse : Course serverAddr client)
    (hsent : (net.clients a).stateMachine.hasSentState = true →
      client.stateMachine.hasSentState = true)
    (hflight : ∀ d ∈ inFlight, d ∈ net.inFlight ∨
      d = greeting serverAddr a ∧ client.stateMachine.hasSentState = true) :
    Sound genuine serverAddr { net.setClient a client with inFlight := inFlight } where
  server := h.server
  course b hb := by
    by_cases hab : b = a
    · rw [hab]
      exact (net.setClient_self a client).symm ▸ hcourse
    · exact (net.setClient_other client hab).symm ▸ h.course b hb
  flight d hd hsource := by
    rcases hflight d hd with hold | ⟨rfl, hnew⟩
    · obtain ⟨hgreeting, hold⟩ := h.flight d hold hsource
      exact ⟨hgreeting, setClient_hasSent hsent hold⟩
    · refine ⟨rfl, ?_⟩
      exact (congrArg (fun c : UDPClient => c.stateMachine.hasSentState)
        (net.setClient_self a client)).trans hnew
  known b m hb hm := by
    obtain ⟨haccepted, hold⟩ := h.known b m hb hm
    exact ⟨haccepted, setClient_hasSent hsent hold⟩

theorem of_inFlight (h : net.Sound genuine serverAddr) {inFlight : List Datagram}
    (hflight : ∀ d ∈ inFlight, d ∈ net.inFlight ∨ ¬ genuine d.source) :
    Sound genuine serverAddr { net with inFlight := inFlight } where
  server := h.server
  course := h.course
  flight d hd hsource := h.flight d ((hflight d hd).resolve_right fun hnot => hnot hsource) hsource
  known := h.known

theorem serve (h : net.Sound genuine serverAddr) (hserver : ¬ genuine serverAddr)
    (received : Option Datagram) (receiveBuf : Memory) (stack : SocketPair → Memory)
    {rest : List Datagram} (hrest : ∀ d ∈ rest, d ∈ net.inFlight)
    (hreceived : ∀ d ∈ received, d ∈ net.inFlight) :
    (net.serve serverAddr received receiveBuf stack rest).Sound genuine serverAddr where
  server := (h.server.round _).1
  course := h.course
  flight d hd hsource := by
    rcases List.mem_append.mp hd with hd | hd
    · exact h.flight d (hrest d hd) hsource
    · obtain ⟨message, -, rfl⟩ := List.mem_map.mp hd
      exact absurd hsource hserver
  known a m ha hm := by
    have htable := h.server.round_table ⟨timing receiveBuf received, stack⟩
    change (net.server.round ⟨timing receiveBuf received, stack⟩).2.table.machine _ = some m at hm
    rw [htable] at hm
    cases received with
    | none => exact h.known a m ha hm
    | some d =>
      by_cases hd : a = d.source
      · subst hd
        obtain ⟨hgreeting, hsent⟩ := h.flight d (hreceived d rfl) ha
        have hnow := receive_machine_greeting net.server receiveBuf serverAddr d.source
          fun m hm => (h.known d.source m ha hm).1
        rw [← hgreeting] at hnow
        exact ⟨(Option.some.inj (hnow.symm.trans hm)).symm, hsent⟩
      · have hkey : (a.sinAddr, a.sinPort) ≠ (d.source.sinAddr, d.source.sinPort) := by
          intro he
          exact hd (key_injective he)
        rw [receive_machine_other _ _ hkey] at hm
        exact h.known a m ha hm

/-- Every step keeps all this, and a client sends its handshake when it has not sent before. -/
theorem step (h : net.Sound genuine serverAddr) (hserver : ¬ genuine serverAddr) {event : Event}
    (hs : Step genuine serverAddr net event net') :
    net'.Sound genuine serverAddr ∧
      ∀ a, sentSoFar serverAddr net a ++ sentBy a ⟨net, event, net'⟩ = sentSoFar serverAddr net' a := by
  cases hs with
  | clientSends a ha hphase hready =>
    obtain ⟨hunsent, hgreeting, hsent, -, hcourse⟩ := (h.course a ha).send hready
    have hd : (⟨a, (net.clients a).send.1.address, (net.clients a).send.1.bytes⟩ : Datagram) =
        greeting serverAddr a := by
      rw [hgreeting]
      rfl
    refine ⟨?_, fun b => ?_⟩
    · refine h.setClient hcourse (fun _ => hsent) fun d hmem => ?_
      rw [hd, List.mem_append, List.mem_singleton] at hmem
      exact hmem.imp_right fun he => ⟨he, hsent⟩
    · by_cases hab : b = a
      · subst hab
        have hself := congrArg (fun c : UDPClient => c.stateMachine.hasSentState)
          (net.setClient_self b (net.clients b).send.2)
        rw [sentBy_self, hd, sentSoFar, hunsent, if_neg Bool.false_ne_true]
        exact (if_pos (hself.trans hsent)).symm
      · rw [sentBy_other (Ne.symm hab)]
        exact sentSoFar_same (congrArg (fun c : UDPClient => c.stateMachine.hasSentState)
          (net.setClient_other _ hab))
  | clientReceives a d before after ha hphase hflight hdest hfits =>
    obtain ⟨hbefore, hafter, hcourse, -⟩ := (h.course a ha).receive hphase d
    refine ⟨h.setClient hcourse (fun _ => hafter) fun d' hd' => Or.inl ?_, fun b => ?_⟩
    · exact mem_of_taken hflight d' hd'
    · apply sentSoFar_same
      exact setClient_flag (hafter.trans hbefore.symm) b
  | clientExits a ha =>
    refine ⟨h.setClient (h.course a ha).exit id fun d hd => Or.inl hd, fun b => ?_⟩
    apply sentSoFar_same
    refine setClient_flag ?_ b
    rfl
  | serveReceived d receiveBuf stack before after hflight hdest =>
    refine ⟨h.serve hserver _ receiveBuf stack (mem_of_taken hflight) ?_,
      fun _ => sentSoFar_same rfl⟩
    intro d' hd'
    rw [hflight, ← Option.mem_some_iff.mp hd']
    exact List.mem_append_right _ List.mem_cons_self
  | serveIdle receiveBuf stack =>
    refine ⟨h.serve hserver _ receiveBuf stack (fun _ hd => hd) ?_, fun _ => sentSoFar_same rfl⟩
    exact fun d hd => absurd hd (Option.not_mem_none d)
  | inject d hsource =>
    refine ⟨h.of_inFlight fun d' hd' => ?_, fun _ => sentSoFar_same rfl⟩
    rcases List.mem_append.mp hd' with hd' | hd'
    · exact Or.inl hd'
    · rw [List.mem_singleton.mp hd']
      exact Or.inr hsource
  | lose d before after hflight =>
    exact ⟨h.of_inFlight fun d' hd' => Or.inl (mem_of_taken hflight d' hd'),
      fun _ => sentSoFar_same rfl⟩
  | duplicate d hd =>
    refine ⟨h.of_inFlight fun d' hd' => Or.inl ?_, fun _ => sentSoFar_same rfl⟩
    rcases List.mem_append.mp hd' with hd' | hd'
    · exact hd'
    · rw [List.mem_singleton.mp hd']
      exact hd

end Sound

/-- A step that puts in flight what a waiting client takes for a server's handshake. -/
def Event.Mimics : Event → Prop
  | .serve _ _ stack => ∃ key, (stack key).load 0 6 = CommsStateMachine.handshake false
  | .inject d => overlaid d.bytes = CommsStateMachine.handshake false
  | _ => False

/-- Nothing in flight passes for the server's handshake, and no client has accepted one. -/
structure Unanswered (genuine : SockAddrIn → Prop) (net : Network) : Prop where
  flight : ∀ d ∈ net.inFlight, overlaid d.bytes ≠ CommsStateMachine.handshake false
  clients : ∀ a, genuine a → (net.clients a).stateMachine.currentState ≠ .sendConnectionId

theorem overlaid_stack (stack : Memory) :
    overlaid (stack.load 0 Connection.bufferSize) = stack.load 0 6 := by
  rw [overlaid, show Connection.bufferSize = 6 + 1018 from rfl, Store.load_add]
  exact List.take_left' (Store.load_length ..)

namespace Unanswered
variable {genuine : SockAddrIn → Prop} {serverAddr : SockAddrIn} {net net' : Network}

theorem setClient (h : net.Unanswered genuine) {a : SockAddrIn} {client : UDPClient}
    {inFlight : List Datagram} (hstate : client.stateMachine.currentState ≠ .sendConnectionId)
    (hflight : ∀ d ∈ inFlight, overlaid d.bytes ≠ CommsStateMachine.handshake false) :
    Unanswered genuine { net.setClient a client with inFlight := inFlight } where
  flight := hflight
  clients b hb := by
    by_cases hab : b = a
    · rw [hab]
      exact (net.setClient_self a client).symm ▸ hstate
    · exact (net.setClient_other client hab).symm ▸ h.clients b hb

/-- The server sends what its stack holds. -/
theorem serve (h : net.Unanswered genuine) (hsound : net.server.Sound) (serverAddr : SockAddrIn)
    (received : Option Datagram) (receiveBuf : Memory) {stack : SocketPair → Memory}
    (hstack : ∀ key, (stack key).load 0 6 ≠ CommsStateMachine.handshake false)
    {rest : List Datagram} (hrest : ∀ d ∈ rest, d ∈ net.inFlight) :
    (net.serve serverAddr received receiveBuf stack rest).Unanswered genuine where
  flight d hd := by
    rcases List.mem_append.mp hd with hd | hd
    · exact h.flight d (hrest d hd)
    · obtain ⟨message, hmessage, rfl⟩ := List.mem_map.mp hd
      have hsent := ((hsound.receive (timing receiveBuf received)).serviceOutgoing stack).1
      change message ∈ (MappedServer.serviceOutgoingConnections _ stack).1 at hmessage
      rw [hsent] at hmessage
      obtain ⟨key, -, rfl⟩ := List.mem_map.mp hmessage
      rw [overlaid_stack]
      exact hstack key
  clients := h.clients

theorem step (h : net.Unanswered genuine) (hsound : net.Sound genuine serverAddr) {event : Event}
    (hs : Step genuine serverAddr net event net') (hmimic : ¬ event.Mimics) :
    net'.Unanswered genuine := by
  have hsnoc : ∀ {d : Datagram}, overlaid d.bytes ≠ CommsStateMachine.handshake false →
      ∀ d' ∈ net.inFlight ++ [d], overlaid d'.bytes ≠ CommsStateMachine.handshake false := by
    intro d hd
    rw [List.forall_mem_append, List.forall_mem_singleton]
    exact ⟨h.flight, hd⟩
  cases hs with
  | clientSends a ha hphase hready =>
    obtain ⟨-, hgreeting, -, hstate, -⟩ := (hsound.course a ha).send hready
    apply h.setClient
    · rw [hstate]
      exact CommsState.noConfusion
    · have hdiffer : overlaid (CommsStateMachine.handshake true) ≠
          CommsStateMachine.handshake false := by decide
      apply hsnoc
      rw [hgreeting]
      exact hdiffer
  | clientReceives a d before after ha hphase hflight hdest hfits =>
    obtain ⟨-, -, -, haccepts⟩ := (hsound.course a ha).receive hphase d
    apply h.setClient
    · exact fun haccepted => h.flight d
        (hflight ▸ List.mem_append_right _ List.mem_cons_self) (haccepts haccepted)
    · exact fun d' hd' => h.flight d' (mem_of_taken hflight d' hd')
  | clientExits a ha => exact h.setClient (h.clients a ha) h.flight
  | serveReceived d receiveBuf stack before after hflight hdest =>
    exact h.serve hsound.server serverAddr _ receiveBuf (not_exists.mp hmimic) (mem_of_taken hflight)
  | serveIdle receiveBuf stack =>
    exact h.serve hsound.server serverAddr _ receiveBuf (not_exists.mp hmimic) fun _ hd => hd
  | inject d hsource => exact ⟨hsnoc hmimic, h.clients⟩
  | lose d before after hflight =>
    exact ⟨fun d' hd' => h.flight d' (mem_of_taken hflight d' hd'), h.clients⟩
  | duplicate d hd => exact ⟨hsnoc (h.flight d hd), h.clients⟩

end Unanswered

/-- However datagrams are lost, doubled, reordered and forged under other addresses, each client sends
at most once, its handshake, and the server never has anything for it but a machine that accepted
that handshake. Nothing tells the client so: unless the bytes of the server's stack or of another host
happen to look like the server's handshake, no client ever gets past its own. -/
theorem handshakes_unanswered {genuine : SockAddrIn → Prop} {serverAddr : SockAddrIn}
    {buffers : SockAddrIn → Memory} {net : Network} {taken : List (Taken Network Event)}
    (h : History (Step genuine serverAddr) (start serverAddr buffers) taken net)
    (hserver : ¬ genuine serverAddr) {a : SockAddrIn} (ha : genuine a) :
    (taken.flatMap (sentBy a) = [] ∨ taken.flatMap (sentBy a) = [greeting serverAddr a]) ∧
      (∀ m, net.server.table.machine (a.sinAddr, a.sinPort) = some m →
        m = accepted ∧ taken.flatMap (sentBy a) ≠ []) ∧
      ((∀ t ∈ taken, ¬ t.event.Mimics) →
        (net.clients a).stateMachine.currentState ≠ .sendConnectionId) := by
  have hrun : (net.Sound genuine serverAddr ∧
      taken.flatMap (sentBy a) = sentSoFar serverAddr net a) ∧
      ((∀ t ∈ taken, ¬ t.event.Mimics) → net.Unanswered genuine) := by
    induction h with
    | start =>
      refine ⟨⟨Sound.start buffers, rfl⟩, fun _ => ⟨fun _ hd => absurd hd List.not_mem_nil, ?_⟩⟩
      exact fun _ _ => CommsState.noConfusion
    | step _ hs ih =>
      obtain ⟨⟨hsound, hsent⟩, hunanswered⟩ := ih
      obtain ⟨hsound', hsends⟩ := hsound.step hserver hs
      refine ⟨⟨hsound', ?_⟩, fun hmimics => ?_⟩
      · rw [List.flatMap_append, List.flatMap_singleton, hsent, hsends a]
      · obtain ⟨hbefore, hlast⟩ := List.forall_mem_append.mp hmimics
        exact (hunanswered hbefore).step hsound hs (hlast _ (List.mem_singleton_self _))
  obtain ⟨⟨hsound, hsent⟩, hunanswered⟩ := hrun
  rw [hsent, sentSoFar]
  refine ⟨?_, fun m hm => ?_, fun hmimics => (hunanswered hmimics).clients a ha⟩
  · split
    · exact Or.inr rfl
    · exact Or.inl rfl
  · obtain ⟨haccepted, hflag⟩ := hsound.known a m ha hm
    rw [if_pos hflag]
    exact ⟨haccepted, List.cons_ne_nil _ _⟩

/-- A client sends its handshake, another host something else, and the server takes the handshake. -/
theorem sample_unanswered :
    let a : SockAddrIn := ⟨1, 9⟩
    let d := greeting ⟨1, 5150⟩ a
    let other : Datagram := ⟨⟨2, 7⟩, ⟨1, 5150⟩, [1, 2]⟩
    let net := start ⟨1, 5150⟩ fun _ _ => 0
    let sent := { net.setClient a (net.clients a).send.2 with inFlight := [d] }
    let crowded := { sent with inFlight := [d, other] }
    let served := crowded.serve ⟨1, 5150⟩ (some d) (fun _ => 0) (fun _ _ => 0) [other]
    let taken : List (Taken Network Event) := [⟨net, .clientSends a, sent⟩,
      ⟨sent, .inject other, crowded⟩, ⟨crowded, .serve (some d) (fun _ => 0) fun _ _ => 0, served⟩]
    (taken.flatMap (sentBy a) = [] ∨ taken.flatMap (sentBy a) = [greeting ⟨1, 5150⟩ a]) ∧
      (∀ m, served.server.table.machine (a.sinAddr, a.sinPort) = some m →
        m = accepted ∧ taken.flatMap (sentBy a) ≠ []) ∧
      ((∀ t ∈ taken, ¬ t.event.Mimics) →
        (served.clients a).stateMachine.currentState ≠ .sendConnectionId) := by
  intro a d other net sent crowded served taken
  let genuine : SockAddrIn → Prop := (· = a)
  have hclient : Course ⟨1, 5150⟩ (net.clients a) := .unsent rfl rfl Phase.noConfusion
  have hsends : Step genuine ⟨1, 5150⟩ net (.clientSends a) sent := by
    have hstep : Step genuine ⟨1, 5150⟩ net _ _ := .clientSends net a rfl rfl rfl
    rwa [(hclient.send rfl).2.1] at hstep
  have hforeign : ¬ genuine other.source := by decide
  have hserve : Step genuine ⟨1, 5150⟩ crowded _ served :=
    .serveReceived crowded d (fun _ => 0) (fun _ _ => 0) [] [other] rfl rfl
  have hrun : History (Step genuine ⟨1, 5150⟩) net taken served :=
    .step (.step (.step .start hsends) (.inject sent other hforeign)) hserve
  have hserver : ¬ genuine ⟨1, 5150⟩ := by decide
  exact handshakes_unanswered hrun hserver rfl

end Network
end SocketCPlusPlus.ThreadedServer
