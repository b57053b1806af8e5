import SocketCPlusPlus.Foundation.Lines
import SocketCPlusPlus.Socket.WriteChain

/-! The life of a client. One actor goes through the endpoints until a connect succeeds and then
reads lines; a deadline that each of its operations renews closes the socket under it; the
sending actor starts with the connection. -/
namespace SocketCPlusPlus.Socket
open Foundation Packets

/-- A line of the client's console, without the texts of the error codes. -/
inductive Message (Endpoint : Type) where
  | trying (endpoint : Endpoint)
  | connectTimedOut
  | connectError
  | connectedTo (endpoint : Endpoint)
  | received (line : List UInt8)
  | errorOnReceive
  | finishedWriting
  | errorOnHeartbeat
  deriving DecidableEq, Repr

/-- The client with all its operations under way: next to those of the sending actor the connects,
each with its endpoint and the endpoints behind it, the reads, and the waits on the deadline.
Times are seconds, and the expiry at the end of time is `none`. -/
structure ClientSession (Endpoint : Type) where
  actors : ClientActors
  endpoints : List Endpoint
  isOpen : Bool
  inputBuffer : List UInt8
  expiry : Option Nat
  now : Nat
  connects : List (Endpoint × List Endpoint)
  reads : Nat
  checks : Nat
  console : List (Message Endpoint)

namespace ClientSession
variable {Endpoint : Type}

abbrev stopped (s : ClientSession Endpoint) : Bool := s.actors.client.stopped

abbrev isConnected (s : ClientSession Endpoint) : Bool := s.actors.client.isConnected

def newline : UInt8 := 10

def print (s : ClientSession Endpoint) (message : Message Endpoint) : ClientSession Endpoint :=
  { s with console := s.console ++ [message] }

def expiresAfter (s : ClientSession Endpoint) (seconds : Nat) : ClientSession Endpoint :=
  { s with expiry := some (s.now + seconds) }

/-- The waits that a cancel ends are over when their handlers run. -/
def stop (s : ClientSession Endpoint) : ClientSession Endpoint :=
  { s with actors := s.actors.stop, isOpen := false }

/-- A connect opens a closed socket if the system lets it. -/
def startConnect (s : ClientSession Endpoint) (endpointIter : List Endpoint) (opened : Bool) :
    ClientSession Endpoint :=
  match endpointIter with
  | endpoint :: rest =>
    let s := (s.print (.trying endpoint)).expiresAfter 60
    { s with isOpen := s.isOpen || opened, connects := s.connects ++ [(endpoint, rest)] }
  | [] => s.stop

def startRead (s : ClientSession Endpoint) : ClientSession Endpoint :=
  { s.expiresAfter 30 with reads := s.reads + 1 }

def startWrite (s : ClientSession Endpoint) (uninitialised : Memory) : ClientSession Endpoint :=
  { s with actors := s.actors.startWrite uninitialised }

def handleConnect (s : ClientSession Endpoint) (ec : Bool) (endpointIter : Endpoint × List Endpoint)
    (opened : Bool) (uninitialised : Memory) : ClientSession Endpoint :=
  if s.stopped then s
  else if !s.isOpen then (s.print .connectTimedOut).startConnect endpointIter.2 opened
  else if ec then
    let s := s.print .connectError
    { s with isOpen := false }.startConnect endpointIter.2 opened
  else
    let s := s.print (.connectedTo endpointIter.1)
    let client := { s.actors.client with isConnected := true }
    let s := { s with actors := { s.actors with connecting := false, client := client } }
    s.startRead.startWrite uninitialised

def handleRead (s : ClientSession Endpoint) (ec : Bool) (n : Nat) : ClientSession Endpoint :=
  if s.stopped then s
  else if !ec then
    let line := s.inputBuffer.take (n - 1)
    let s := { s with inputBuffer := s.inputBuffer.drop n }
    let s := if line ≠ [] then s.print (.received line) else s
    s.startRead
  else (s.print .errorOnReceive).stop

def handleWrite (s : ClientSession Endpoint) (ec : Bool) : ClientSession Endpoint :=
  if s.stopped then s
  else
    let s := s.print .finishedWriting
    if !ec then { s with actors := s.actors.handleWrite ec }
    else (s.print .errorOnHeartbeat).stop

/-- The deadline has passed. -/
def Expired (s : ClientSession Endpoint) : Prop := ∃ d ∈ s.expiry, d ≤ s.now

instance instDecidableExpired (s : ClientSession Endpoint) : Decidable s.Expired :=
  inferInstanceAs (Decidable (∃ d ∈ s.expiry, d ≤ s.now))

def checkDeadline (s : ClientSession Endpoint) : ClientSession Endpoint :=
  if s.stopped then s
  else
    let s := if s.Expired then { s with isOpen := false, expiry := none } else s
    { s with checks := s.checks + 1 }

/-- A client before `start`; its timer has expired at time zero. -/
def new (factory : PacketMethodFactory Packet PacketClass UInt16) (now : Nat) :
    ClientSession Endpoint where
  actors := .start factory
  endpoints := []
  isOpen := false
  inputBuffer := []
  expiry := some 0
  now := now
  connects := []
  reads := 0
  checks := 0
  console := []

def start (s : ClientSession Endpoint) (endpoints : List Endpoint) (opened : Bool) :
    ClientSession Endpoint :=
  let s := { s with endpoints := endpoints }.startConnect endpoints opened
  { s with checks := s.checks + 1 }

inductive Event where
  | write (packet : Ref)
  | stop
  | tick (seconds : Nat)
  | connectDone (ec opened : Bool) (uninitialised : Memory)
  | arrive (bytes : List UInt8)
  | readDone (ec : Bool)
  | written (ec : Bool)
  | heartbeat (uninitialised : Memory)
  | deadline

inductive Step : ClientSession Endpoint → Event → ClientSession Endpoint → Prop
  | write (s : ClientSession Endpoint) (packet : Ref) :
      Step s (.write packet) { s with actors := s.actors.write packet }
  | stop (s : ClientSession Endpoint) : Step s .stop s.stop
  | tick (s : ClientSession Endpoint) (seconds : Nat) :
      Step s (.tick seconds) { s with now := s.now + seconds }
  | connectDone (s : ClientSession Endpoint) (ec opened : Bool) (uninitialised : Memory)
      (before after : List (Endpoint × List Endpoint)) (endpointIter : Endpoint × List Endpoint) :
      s.connects = before ++ endpointIter :: after →
      Step s (.connectDone ec opened uninitialised)
        ({ s with connects := before ++ after }.handleConnect ec endpointIter opened uninitialised)
  | arrive (s : ClientSession Endpoint) (bytes : List UInt8) : s.isOpen = true → 0 < s.reads →
      Step s (.arrive bytes) { s with inputBuffer := s.inputBuffer ++ bytes }
  | line (s : ClientSession Endpoint) (reads : Nat) : s.reads = reads + 1 →
      newline ∈ s.inputBuffer →
      Step s (.readDone false) ({ s with reads := reads }.handleRead false
        (Lines.firstLength newline s.inputBuffer))
  | readFailed (s : ClientSession Endpoint) (reads : Nat) : s.reads = reads + 1 →
      Step s (.readDone true) ({ s with reads := reads }.handleRead true 0)
  | written (s : ClientSession Endpoint) (ec : Bool) (writes : Nat) :
      s.actors.writes = writes + 1 →
      Step s (.written ec) ({ s with actors := { s.actors with writes := writes } }.handleWrite ec)
  | heartbeat (s : ClientSession Endpoint) (uninitialised : Memory) (waits : Nat) :
      s.actors.waits = waits + 1 →
      Step s (.heartbeat uninitialised)
        ({ s with actors := { s.actors with waits := waits } }.startWrite uninitialised)
  | deadline (s : ClientSession Endpoint) (checks : Nat) : s.checks = checks + 1 →
      Step s .deadline { s with checks := checks }.checkDeadline

/-! What the handlers do to a client that runs. -/

section Handlers
variable {s : ClientSession Endpoint}

/-- A connect that fails, in time or not, leaves a closed socket and goes on to the next
endpoint. -/
theorem handleConnect_next (hrunning : s.stopped = false) {ec : Bool}
    (h : s.isOpen = false ∨ ec = true) (endpointIter : Endpoint × List Endpoint) (opened : Bool)
    (uninitialised : Memory) :
    ∃ message, (message = .connectTimedOut ∨ message = .connectError) ∧
      s.handleConnect ec endpointIter opened uninitialised =
        { s.print message with isOpen := false }.startConnect endpointIter.2 opened := by
  rw [handleConnect, if_neg (Bool.eq_false_iff.mp hrunning)]
  cases hopen : s.isOpen with
  | false =>
    refine ⟨.connectTimedOut, Or.inl rfl, ?_⟩
    rw [Bool.not_false, if_pos rfl, print, ← hopen]
  | true =>
    have hec : ec = true :=
      h.resolve_left fun hclosed => absurd (hclosed.symm.trans hopen) Bool.false_ne_true
    refine ⟨.connectError, Or.inr rfl, ?_⟩
    rw [Bool.not_true, if_neg Bool.false_ne_true, if_pos hec]

/-- A connect that succeeds starts the reading actor and the sending one. -/
theorem handleConnect_connected (hrunning : s.stopped = false) (hopen : s.isOpen = true)
    (endpointIter : Endpoint × List Endpoint) (opened : Bool) (uninitialised : Memory) :
    s.handleConnect false endpointIter opened uninitialised =
      { s.print (.connectedTo endpointIter.1) with
        actors := ({ s.actors with connecting := false }).handleConnect uninitialised
        expiry := some (s.now + 30)
        reads := s.reads + 1 } := by
  have hactors : ({ s.actors with connecting := false }).client.stopped ≠ true :=
    Bool.eq_false_iff.mp hrunning
  rw [handleConnect, ClientActors.handleConnect, if_neg hactors,
    if_neg (Bool.eq_false_iff.mp hrunning), hopen]
  rfl

theorem handleRead_line (hrunning : s.stopped = false) (n : Nat) :
    s.handleRead false n =
      { s with
        inputBuffer := s.inputBuffer.drop n
        console := s.console ++
          if s.inputBuffer.take (n - 1) ≠ [] then [.received (s.inputBuffer.take (n - 1))] else []
        expiry := some (s.now + 30)
        reads := s.reads + 1 } := by
  rw [handleRead, if_neg (Bool.eq_false_iff.mp hrunning), Bool.not_false, if_pos rfl]
  by_cases hline : s.inputBuffer.take (n - 1) = []
  · simp [hline, startRead, expiresAfter]
  · simp [hline, startRead, expiresAfter, print]

theorem handleRead_failed (hrunning : s.stopped = false) (n : Nat) :
    s.handleRead true n = (s.print .errorOnReceive).stop := by
  rw [handleRead, if_neg (Bool.eq_false_iff.mp hrunning)]
  rfl

theorem handleWrite_written (hrunning : s.stopped = false) :
    s.handleWrite false =
      { s with
        console := s.console ++ [.finishedWriting]
        actors := { s.actors with waits := s.actors.waits + 1 } } := by
  have hactors : s.actors.handleWrite false = { s.actors with waits := s.actors.waits + 1 } :=
    if_neg (Bool.eq_false_iff.mp hrunning)
  rw [handleWrite, if_neg (Bool.eq_false_iff.mp hrunning), Bool.not_false, if_pos rfl, print,
    hactors]

theorem handleWrite_failed (hrunning : s.stopped = false) :
    s.handleWrite true = ((s.print .finishedWriting).print .errorOnHeartbeat).stop := by
  rw [handleWrite, if_neg (Bool.eq_false_iff.mp hrunning)]
  rfl

/-- A check closes the socket or changes nothing. -/
theorem checkDeadline_cases (hrunning : s.stopped = false) :
    s.Expired ∧ s.checkDeadline =
        { s with isOpen := false, expiry := none, checks := s.checks + 1 } ∨
      ¬ s.Expired ∧ s.checkDeadline = { s with checks := s.checks + 1 } := by
  rw [checkDeadline, if_neg (Bool.eq_false_iff.mp hrunning)]
  by_cases hexpired : s.Expired
  · exact Or.inl ⟨hexpired, by rw [if_pos hexpired]⟩
  · exact Or.inr ⟨hexpired, by rw [if_neg hexpired]⟩

end Handlers

theorem startWrite_stopped {s : ClientSession Endpoint} (h : s.stopped = true)
    (uninitialised : Memory) : s.startWrite uninitialised = s := by
  rw [startWrite, ClientActors.startWrite_stopped uninitialised h]

theorem startWrite_isConnected (s : ClientSession Endpoint) (uninitialised : Memory) :
    (s.startWrite uninitialised).isConnected = s.isConnected := by
  cases hstopped : s.stopped with
  | true => rw [startWrite_stopped hstopped]
  | false => rw [startWrite, ClientActors.startWrite_running uninitialised hstopped]

theorem handleWrite_actors (s : ClientSession Endpoint) (ec : Bool) :
    (s.handleWrite ec).actors = s.actors.handleWrite ec := by
  cases hstopped : s.stopped with
  | true => rw [handleWrite, ClientActors.handleWrite, if_pos hstopped, if_pos hstopped]
  | false =>
    cases ec with
    | true =>
      rw [handleWrite_failed hstopped]
      exact (if_neg (Bool.eq_false_iff.mp hstopped)).symm
    | false =>
      rw [handleWrite_written hstopped]
      exact (if_neg (Bool.eq_false_iff.mp hstopped)).symm

theorem checkDeadline_actors (s : ClientSession Endpoint) : s.checkDeadline.actors = s.actors := by
  cases hstopped : s.stopped with
  | true => rw [checkDeadline, if_pos hstopped]
  | false =>
    rcases checkDeadline_cases hstopped with ⟨-, hclosed⟩ | ⟨-, hkept⟩
    · rw [hclosed]
    · rw [hkept]

theorem startConnect_endpoints (s : ClientSession Endpoint) (endpointIter : List Endpoint)
    (opened : Bool) : (s.startConnect endpointIter opened).endpoints = s.endpoints := by
  cases endpointIter <;> rfl

theorem Step.endpoints_eq {s s' : ClientSession Endpoint} {event : Event} (hs : Step s event s') :
    s'.endpoints = s.endpoints := by
  cases hs with
  | write packet => rfl
  | stop => rfl
  | tick seconds => rfl
  | connectDone ec opened uninitialised before after endpointIter hconnects =>
    rw [handleConnect]
    split
    · rfl
    · split
      · exact startConnect_endpoints ..
      · split
        · exact startConnect_endpoints ..
        · rfl
  | arrive bytes hopen hreads => rfl
  | line reads hreads hline =>
    cases hstopped : s.stopped with
    | true => rw [handleRead, if_pos hstopped]
    | false => rw [handleRead_line (s := { s with reads := reads }) hstopped]
  | readFailed reads hreads =>
    rw [handleRead]
    split <;> rfl
  | written ec writes hwrites =>
    rw [handleWrite]
    split
    · rfl
    · dsimp only
      split <;> rfl
  | heartbeat uninitialised waits hwaits => rfl
  | deadline checks hchecks =>
    rw [checkDeadline]
    split
    · rfl
    · dsimp only
      split <;> rfl

end ClientSession
end SocketCPlusPlus.Socket
