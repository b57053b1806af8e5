import SocketCPlusPlus.Common.HandshakeVerdict
import SocketCPlusPlus.Foundation.History

/-! A server's connection to one datagram peer, and what it sends. Every service of a machine
that is ready sends the whole stack buffer, whatever the machine put there. -/
namespace SocketCPlusPlus.Common
open Foundation Packets

structure SockAddrIn where
  sinAddr : UInt32
  sinPort : UInt16
  deriving DecidableEq, Repr

/-- What `sendto` is given. -/
structure Sent where
  address : SockAddrIn
  bytes : List UInt8
  deriving DecidableEq, Repr

structure Connection where
  senderAddr : SockAddrIn
  port : UInt16
  stateMachine : CommsStateMachine
  deriving DecidableEq, Repr

namespace Connection

def new (senderAddr : SockAddrIn) (port : UInt16) : Connection where
  senderAddr := senderAddr
  port := port
  stateMachine := .new true

def handleDataIn (c : Connection) (dataIn : Memory) (bufferLen : Int) : Connection :=
  { c with stateMachine := (c.stateMachine.dataReceive dataIn bufferLen).2 }

def bufferSize : Nat := 1024

/-- The buffer starts as the stack left it. -/
def runService (c : Connection) (uninitialised : Memory) : List Sent × Connection :=
  if c.stateMachine.readyToSend then
    let (_, _, buffer, m) := c.stateMachine.dataSend uninitialised bufferSize
    ([⟨c.senderAddr, buffer.load 0 bufferSize⟩], { c with stateMachine := m })
  else ([], c)

def needsService (c : Connection) : Bool :=
  c.stateMachine.readyToSend || c.stateMachine.isExpectingReceive

def hasExpired (_ : Connection) : Bool := false

inductive Event where
  | handleDataIn (dataIn : Memory) (bufferLen : Int)
  | runService (uninitialised : Memory)

def Event.IsRunService : Event → Prop
  | handleDataIn _ _ => False
  | runService _ => True

inductive Step : Connection → Event → Connection → Prop
  | handleDataIn (c : Connection) (dataIn : Memory) (bufferLen : Int) :
      Step c (.handleDataIn dataIn bufferLen) (c.handleDataIn dataIn bufferLen)
  | runService (c : Connection) (uninitialised : Memory) :
      Step c (.runService uninitialised) (c.runService uninitialised).2

def sent (c : Connection) : Event → List Sent
  | .handleDataIn _ _ => []
  | .runService uninitialised => (c.runService uninitialised).1

/-- What a service has to send: the bytes that `DataSend` says it used, if it succeeds. -/
def produced (c : Connection) : Event → List Sent
  | .handleDataIn _ _ => []
  | .runService uninitialised =>
    if c.stateMachine.readyToSend then
      let (succeeded, bytesUsed, buffer, _) := c.stateMachine.dataSend uninitialised bufferSize
      if succeeded ∧ 0 < bytesUsed then [⟨c.senderAddr, buffer.load 0 bytesUsed⟩] else []
    else []

/-- A run sends what the machine produced, nothing twice without a change in between, and
nothing once the machine has failed. -/
structure SendsProduced (taken : List (Taken Connection Event)) : Prop where
  exact : ∀ t ∈ taken, t.before.sent t.event = t.before.produced t.event
  once : ∀ before t between t' after, taken = before ++ t :: between ++ t' :: after →
    t.before.sent t.event ≠ [] → t'.before.sent t'.event ≠ [] →
    ∃ r ∈ between, ¬ r.event.IsRunService ∧
      r.before.stateMachine.currentState ≠ r.after.stateMachine.currentState
  failed : ∀ t ∈ taken, t.before.stateMachine.currentState = .connectionFailed →
    t.before.sent t.event = []

theorem sent_length {c : Connection} (uninitialised : Memory)
    (hready : c.stateMachine.readyToSend) :
    (c.sent (.runService uninitialised)).map (·.bytes.length) = [1024] := by
  rw [sent, runService, if_pos hready]
  simp [bufferSize]

theorem produced_length (c : Connection) (uninitialised : Memory) :
    (c.produced (.runService uninitialised)).map (·.bytes.length) ≠ [1024] := by
  rw [produced]
  split
  · by_cases hstate : c.stateMachine.currentState = .sendHandshake
    · rw [CommsStateMachine.dataSend_handshake _ hstate (by decide)]
      simp
    · rw [CommsStateMachine.dataSend_idle _ _ hstate]
      simp
  · simp

theorem handleDataIn_ready {c : Connection} (dataIn : Memory) (bufferLen : Int)
    (hready : c.stateMachine.readyToSend) :
    (c.handleDataIn dataIn bufferLen).stateMachine.readyToSend := by
  by_cases hstate : c.stateMachine.currentState = .sendHandshake
  · rw [handleDataIn, CommsStateMachine.dataReceive_verdict _ _ hstate,
      CommsStateMachine.verdict]
    split
    · rw [CommsStateMachine.readyToSend, Bool.not_eq_true'] at hready ⊢
      rw [hready, Bool.and_false]
    · exact hready
  · rw [handleDataIn, CommsStateMachine.dataReceive_idle _ _ hstate]
    exact hready

/-- A ready machine past the handshake is serviced without end: each time the stack's bytes go
out, and nothing changes. -/
theorem runService_floods {c : Connection} (uninitialised : Memory)
    (hready : c.stateMachine.readyToSend) (hstate : c.stateMachine.currentState ≠ .sendHandshake) :
    c.runService uninitialised =
      ([⟨c.senderAddr, uninitialised.load 0 bufferSize⟩], c) := by
  rw [runService, if_pos hready, CommsStateMachine.dataSend_idle _ _ hstate]

/-- Until the first service a run sends exactly what was produced, namely nothing; the first
service breaks with it. -/
theorem sends_produced_iff {senderAddr : SockAddrIn} {port : UInt16} {c : Connection}
    {taken : List (Taken Connection Event)} (h : History Step (new senderAddr port) taken c) :
    SendsProduced taken ↔ ∀ t ∈ taken, ¬ t.event.IsRunService := by
  have hexact : (∀ t ∈ taken, t.before.sent t.event = t.before.produced t.event) ↔
      ∀ t ∈ taken, ¬ t.event.IsRunService := by
    apply History.always_iff (fun c => c.stateMachine.readyToSend)
      (fun c event _ => c.sent event = c.produced event)
      (fun _ event => ¬ event.IsRunService) rfl _ h
    intro c event c' hready hstep
    cases hstep with
    | handleDataIn dataIn bufferLen =>
      exact ⟨iff_of_true rfl id, fun _ => handleDataIn_ready dataIn bufferLen hready⟩
    | runService uninitialised =>
      have hbad : c.sent (.runService uninitialised) ≠ c.produced (.runService uninitialised) := by
        intro heq
        apply produced_length c uninitialised
        rw [← heq, sent_length uninitialised hready]
      exact ⟨iff_of_false hbad fun hno => hno trivial, fun heq => absurd heq hbad⟩
  constructor
  · exact fun hsends => hexact.mp hsends.exact
  · intro hidle
    have hsent : ∀ t ∈ taken, t.before.sent t.event = [] := by
      intro t ht
      have hevent := hidle t ht
      cases he : t.event with
      | handleDataIn dataIn bufferLen => rfl
      | runService uninitialised => rw [he] at hevent; exact absurd trivial hevent
    refine ⟨hexact.mpr hidle, ?_, fun t ht _ => hsent t ht⟩
    rintro before t between t' after rfl hfirst _
    exact absurd (hsent t (by simp)) hfirst

abbrev sampleConnection : Connection := new ⟨0x0100007F, 5150⟩ 5150

/-- After the client's handshake. -/
abbrev sampleAccepted : Connection :=
  sampleConnection.handleDataIn (Store.store (fun _ => 0) 0 (CommsStateMachine.handshake true)) 6

abbrev sampleReceipt : Taken Connection Event where
  before := sampleConnection
  event := .handleDataIn (Store.store (fun _ => 0) 0 (CommsStateMachine.handshake true)) 6
  after := sampleAccepted

theorem sample_receipt_run : History Step sampleConnection [sampleReceipt] sampleAccepted :=
  .step .start (.handleDataIn ..)

theorem sample_sends_produced :
    SendsProduced [sampleReceipt] ↔ ∀ t ∈ [sampleReceipt], ¬ t.event.IsRunService :=
  sends_produced_iff sample_receipt_run

abbrev sampleService : Taken Connection Event where
  before := sampleAccepted
  event := .runService fun _ => 0
  after := sampleAccepted

/-- Two services after an accepted handshake send a thousand bytes of the stack each, though
nothing was received in between. -/
theorem accepted_connection_floods :
    History Step sampleConnection [sampleReceipt, sampleService, sampleService] sampleAccepted ∧
      sampleAccepted.sent sampleService.event =
        [⟨sampleConnection.senderAddr, Store.load (fun _ => 0) 0 bufferSize⟩] ∧
      ¬ SendsProduced [sampleReceipt, sampleService, sampleService] := by
  have hflood := runService_floods (c := sampleAccepted) (fun _ => 0) rfl CommsState.noConfusion
  have hservice : Step sampleAccepted sampleService.event sampleAccepted := by
    have hstep := Step.runService sampleAccepted fun _ => 0
    rwa [hflood] at hstep
  have hsent : sampleAccepted.sent sampleService.event =
      [⟨sampleConnection.senderAddr, Store.load (fun _ => 0) 0 bufferSize⟩] :=
    congrArg Prod.fst hflood
  have hsends : sampleAccepted.sent sampleService.event ≠ [] := by
    rw [hsent]
    exact List.cons_ne_nil _ _
  refine ⟨.step (.step sample_receipt_run hservice) hservice, hsent, ?_⟩
  intro h
  obtain ⟨r, hr, -⟩ := h.once [sampleReceipt] sampleService [] sampleService [] rfl hsends hsends
  cases hr

end Connection
end SocketCPlusPlus.Common
