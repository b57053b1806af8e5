import SocketCPlusPlus.Common.Connection

/-! The datagram server: one machine for each sender. A datagram is handed on with the size of
the whole receive buffer, so its sender's machine also reads what the buffer held before. -/
namespace SocketCPlusPlus.ThreadedServer
open Foundation Packets Common

abbrev SocketPair := UInt32 × UInt16

structure UDPServer where
  connections : SocketPair → Option Connection

/-- A result of `recvfrom`. -/
inductive Received where
  | socketError
  | bytes (senderAddr : SockAddrIn) (datagram : List UInt8)

namespace UDPServer

def bufLength : Nat := 1024

def new : UDPServer where
  connections _ := none

/-- `getpeername` does not change the address, as the socket is not connected. -/
def passBufferToConnection (server : UDPServer) (senderAddr : SockAddrIn) (buffer : Memory)
    (bufferLen : Int) : UDPServer :=
  let deets : SocketPair := (senderAddr.sinAddr, senderAddr.sinPort)
  let conn := (server.connections deets).getD (.new senderAddr senderAddr.sinPort)
  { connections :=
      Function.update server.connections deets (some (conn.handleDataIn buffer bufferLen)) }

/-- The loop receives into one buffer; without a further result it blocks. -/
def receiveAllDataFromEndpoint (server : UDPServer) (receiveBuf : Memory) :
    List Received → UDPServer
  | [] => server
  | .socketError :: _ => server
  | .bytes senderAddr datagram :: rest =>
    if datagram.length = 0 then server
    else
      let receiveBuf := receiveBuf.store 0 datagram
      let server := server.passBufferToConnection senderAddr receiveBuf bufLength
      if bufLength < datagram.length then server.receiveAllDataFromEndpoint receiveBuf rest
      else server

end UDPServer

/-- A datagram that `recvfrom` returns, and what the receive buffer holds before it does. -/
structure Arrival where
  senderAddr : SockAddrIn
  datagram : List UInt8
  uninitialised : Memory
  pos : 0 < datagram.length
  fits : datagram.length ≤ UDPServer.bufLength

namespace Arrival

def sender (a : Arrival) : SocketPair := (a.senderAddr.sinAddr, a.senderAddr.sinPort)

/-- The receive buffer with the datagram in it. -/
def received (a : Arrival) : Memory := a.uninitialised.store 0 a.datagram

end Arrival

namespace UDPServer

def arrive (server : UDPServer) (a : Arrival) : UDPServer :=
  server.receiveAllDataFromEndpoint a.uninitialised [.bytes a.senderAddr a.datagram]

/-- The machine kept for a sender. -/
def machine (server : UDPServer) (sender : SocketPair) : Option CommsStateMachine :=
  (server.connections sender).map (·.stateMachine)

end UDPServer

/-- The arrivals from one sender. -/
def ownArrivals (arrivals : List Arrival) (sender : SocketPair) : List Arrival :=
  arrivals.filter (·.sender = sender)

theorem ownArrivals_cons_self (a : Arrival) (arrivals : List Arrival) :
    ownArrivals (a :: arrivals) a.sender = a :: ownArrivals arrivals a.sender :=
  List.filter_cons_of_pos (decide_eq_true rfl)

theorem ownArrivals_cons_other {a : Arrival} (arrivals : List Arrival) {sender : SocketPair}
    (h : a.sender ≠ sender) : ownArrivals (a :: arrivals) sender = ownArrivals arrivals sender :=
  List.filter_cons_of_neg fun hd => h (of_decide_eq_true hd)

/-- A machine of its own for one sender, fed each datagram with its length. -/
def isolated (own : List Arrival) : Option CommsStateMachine :=
  if own = [] then none
  else some (own.foldl (fun m a =>
    (m.dataReceive (Store.store (fun _ => 0) 0 a.datagram) a.datagram.length).2) (.new true))

/-- A datagram of a handshake's length, or one that leftover bytes do not complete to it. -/
def Arrival.Unmixed (a : Arrival) : Prop :=
  6 ≤ a.datagram.length ∨ a.received.load 0 6 ≠ CommsStateMachine.handshake true

namespace UDPServer

theorem arrive_connections (server : UDPServer) (a : Arrival) :
    (server.arrive a).connections =
      Function.update server.connections a.sender
        (some (((server.connections a.sender).getD
          (.new a.senderAddr a.senderAddr.sinPort)).handleDataIn a.received bufLength)) := by
  rw [arrive, receiveAllDataFromEndpoint, if_neg (Nat.ne_of_gt a.pos)]
  simp only [receiveAllDataFromEndpoint, if_neg (Nat.not_lt.mpr a.fits)]
  rfl

theorem arrive_machine_self (server : UDPServer) (a : Arrival) :
    (server.arrive a).machine a.sender =
      some (((server.machine a.sender).getD (.new true)).dataReceive a.received bufLength).2 := by
  rw [machine, machine, arrive_connections, Function.update_self, Option.map_some]
  cases server.connections a.sender <;> rfl

theorem arrive_machine_other (server : UDPServer) {a : Arrival} {sender : SocketPair}
    (h : a.sender ≠ sender) : (server.arrive a).machine sender = server.machine sender := by
  rw [machine, machine, arrive_connections, Function.update_of_ne h.symm]

/-- A sender's machine depends on its own arrivals only, each with its buffer. -/
theorem arrivals_machine (arrivals : List Arrival) (server : UDPServer) (sender : SocketPair) :
    (arrivals.foldl arrive server).machine sender =
      (ownArrivals arrivals sender).foldl
        (fun m a => some ((m.getD (.new true)).dataReceive a.received bufLength).2)
        (server.machine sender) := by
  induction arrivals generalizing server with
  | nil => rfl
  | cons a arrivals ih =>
    rw [List.foldl_cons, ih]
    by_cases h : a.sender = sender
    · subst h
      rw [ownArrivals_cons_self, List.foldl_cons, arrive_machine_self]
    · rw [ownArrivals_cons_other _ h, arrive_machine_other server h]

end UDPServer

private theorem foldl_receive_verdict {α : Type} (data : α → Memory) (numBytes : α → Int)
    (first : α) (rest : List α) :
    (first :: rest).foldl (fun m a => (m.dataReceive (data a) (numBytes a)).2)
      (CommsStateMachine.new true) =
        (CommsStateMachine.new true).verdict (data first) (numBytes first) := by
  have hidle := CommsStateMachine.calls_idle
    (rest.map fun a => .dataReceive (data a) (numBytes a))
    (CommsStateMachine.verdict_ne_sendHandshake (.new true) (data first) (numBytes first))
  rw [List.foldl_map] at hidle
  rw [List.foldl_cons, CommsStateMachine.dataReceive_verdict _ _ rfl]
  exact hidle

private theorem foldl_some {α β : Type} (f : β → α → β) (d : β) (first : α) (rest : List α) :
    (first :: rest).foldl (fun o a => some (f (o.getD d) a)) none =
      some ((first :: rest).foldl f d) := by
  have hsome : ∀ b, rest.foldl (fun o a => some (f (o.getD d) a)) (some b) =
      some (rest.foldl f b) := by
    induction rest with
    | nil => exact fun b => rfl
    | cons a rest ih => exact fun b => ih (f b a)
  exact hsome (f d first)

private theorem verdict_eq_iff (buffer buffer' : Memory) (numBytes numBytes' : Int) :
    (CommsStateMachine.new true).verdict buffer numBytes =
        (CommsStateMachine.new true).verdict buffer' numBytes' ↔
      (CommsStateMachine.Accepts false buffer numBytes ↔
        CommsStateMachine.Accepts false buffer' numBytes') := by
  have hrole : (CommsStateMachine.new true).iniates = false := rfl
  constructor
  · intro heq
    have hstate := congrArg CommsStateMachine.currentState heq
    rw [CommsStateMachine.verdict_currentState, CommsStateMachine.verdict_currentState,
      hrole] at hstate
    split at hstate <;> split at hstate <;> simp_all
  · intro hiff
    rw [CommsStateMachine.verdict, CommsStateMachine.verdict, hrole]
    exact if_congr hiff rfl rfl

/-- The buffer and the datagram alone give a first verdict that agrees unless leftover bytes
complete a short datagram. -/
private theorem verdict_unmixed_iff (a : Arrival) :
    (CommsStateMachine.new true).verdict a.received UDPServer.bufLength =
        (CommsStateMachine.new true).verdict (Store.store (fun _ => 0) 0 a.datagram)
          a.datagram.length ↔ a.Unmixed := by
  rw [verdict_eq_iff, CommsStateMachine.Accepts, CommsStateMachine.Accepts, Arrival.Unmixed]
  have hlen : (6 : Int) ≤ UDPServer.bufLength := by decide
  by_cases hlong : 6 ≤ a.datagram.length
  · have hprefix : ∀ m : Memory, (m.store 0 a.datagram).load 0 6 = a.datagram.take 6 := by
      intro m
      have hload := Store.load_store_prefix m 0 (a.datagram.take 6) (a.datagram.drop 6)
      rwa [List.take_append_drop, List.length_take, Nat.min_eq_left hlong] at hload
    refine iff_of_true ?_ (Or.inl hlong)
    rw [Arrival.received, hprefix, hprefix]
    exact and_congr_left' (iff_of_true hlen (by omega))
  · have hshort : ¬ (6 : Int) ≤ a.datagram.length := by omega
    simp only [hlen, hlong, hshort, true_and, false_and, iff_false, false_or]
    rfl

/-- The senders' machines are isolated exactly if no sender's first datagram is a short one
that the bytes left in the receive buffer complete to the client's handshake. -/
theorem senders_isolated_iff (arrivals : List Arrival) :
    (∀ sender, (arrivals.foldl UDPServer.arrive .new).machine sender =
        isolated (ownArrivals arrivals sender)) ↔
      ∀ sender first, (ownArrivals arrivals sender).head? = some first → first.Unmixed := by
  apply forall_congr'
  intro sender
  rw [UDPServer.arrivals_machine]
  rcases ownArrivals arrivals sender with _ | ⟨first, rest⟩
  · exact iff_of_true rfl (by simp)
  · have hkept := foldl_some
      (fun (m : CommsStateMachine) (a : Arrival) =>
        (m.dataReceive a.received UDPServer.bufLength).2) (.new true) first rest
    have hshared := foldl_receive_verdict Arrival.received (fun _ => (UDPServer.bufLength : Int))
      first rest
    have hown := foldl_receive_verdict (fun a : Arrival => Store.store (fun _ => 0) 0 a.datagram)
      (fun a => (a.datagram.length : Int)) first rest
    have hnone : UDPServer.machine .new sender = none := rfl
    rw [hnone, hkept, isolated, if_neg (List.cons_ne_nil _ _), hshared, hown,
      Option.some.injEq, verdict_unmixed_iff]
    simp

abbrev sampleAddr : SockAddrIn := ⟨0x0100007F, 5150⟩

/-- One byte of a handshake, with the rest of an earlier one still in the buffer. -/
abbrev shortArrival : Arrival where
  senderAddr := sampleAddr
  datagram := [0xAA]
  uninitialised := Store.store (fun _ => 0) 0 (CommsStateMachine.handshake true)
  pos := Nat.zero_lt_one
  fits := by decide

/-- The sender of that byte is taken for a client that has shaken hands. -/
theorem short_datagram_accepted :
    (UDPServer.new.arrive shortArrival).machine shortArrival.sender =
        some { CommsStateMachine.new true with currentState := .sendConnectionId } ∧
      isolated (ownArrivals [shortArrival] shortArrival.sender) =
        some { CommsStateMachine.new true with currentState := .connectionFailed } := by
  constructor
  · rw [UDPServer.arrive_machine_self]
    rfl
  · rw [ownArrivals_cons_self]
    rfl

end SocketCPlusPlus.ThreadedServer
