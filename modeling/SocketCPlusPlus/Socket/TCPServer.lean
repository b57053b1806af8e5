import SocketCPlusPlus.Foundation.History
import SocketCPlusPlus.Socket.Segmentation

/-! The stream server as the system its handlers and its service loop make: accepts, reads,
errors, the three stages of a reschedule, cleanup and dequeued messages, in any order. -/
namespace SocketCPlusPlus.Socket
open Foundation Packets IPacketSerializable

/-- A connection object with the members that the server looks at. -/
structure ServerConnection extends TCPConnection where
  hasClosed : Bool
  connectionId : UInt16

namespace ServerConnection

/-- The constructor leaves the buffer and the id as the memory held them. -/
def create (raw : ServerConnection) : ServerConnection :=
  { raw with inwardPackets := [], hasClosed := false }

def setConnectionId (c : ServerConnection) (connId : UInt16) : ServerConnection :=
  { c with connectionId := connId }

def close (c : ServerConnection) : ServerConnection := { c with hasClosed := true }

/-- An empty queue has no front. -/
def dequeMessage (c : ServerConnection) (f : PacketMethodFactory Packet PacketClass UInt16) :
    Option (ServerConnection × PacketMethodFactory Packet PacketClass UInt16) :=
  match c.inwardPackets with
  | [] => none
  | i :: rest => some ({ c with inwardPackets := rest }, (f.release i).2)

end ServerConnection

theorem ServerConnection.dequeMessage_some {c c' : ServerConnection}
    {f f' : PacketMethodFactory Packet PacketClass UInt16}
    (h : c.dequeMessage f = some (c', f')) :
    ∃ i rest, c.inwardPackets = i :: rest ∧ c' = { c with inwardPackets := rest } ∧
      f' = (f.release i).2 := by
  unfold dequeMessage at h
  split at h
  · cases h
  · next i rest hqueue =>
    cases h
    exact ⟨i, rest, hqueue, rfl, rfl⟩

/-- Connections are known by the order in which they were created. -/
structure TCPServer where
  connectionIdTracking : Int32
  connectionsMade : List Nat
  connectionsAwaitingSchedule : List Nat

namespace TCPServer

def connectionIdStart : Int32 := 1024

def rescheduleMe (server : TCPServer) (conn : Nat) : TCPServer :=
  { server with connectionsAwaitingSchedule := server.connectionsAwaitingSchedule ++ [conn] }

end TCPServer

/-- The server, the connection objects, the operations under way and how far the loop of
`HandleReschedule` has come: the elements it has started, and whether it has exited. -/
structure Service where
  server : TCPServer
  connections : Nat → ServerConnection
  created : Nat
  accepting : Nat
  reads : Nat → Nat
  started : Nat
  exited : Bool
  factory : PacketMethodFactory Packet PacketClass UInt16

namespace Service

def connectionsMade (s : Service) : List Nat := s.server.connectionsMade

/-- What the loop of `HandleReschedule` has still to start. -/
def unstarted (s : Service) : List Nat := s.server.connectionsAwaitingSchedule.drop s.started

def setConnection (s : Service) (conn : Nat) (c : ServerConnection) : Service :=
  { s with connections := Function.update s.connections conn c }

def rescheduleMe (s : Service) (conn : Nat) : Service :=
  { s with server := s.server.rescheduleMe conn }

/-- The id is the low half of the counter. -/
def beginAcceptingNewConnections (s : Service) (raw : ServerConnection) : Service :=
  let newConnection :=
    (ServerConnection.create raw).setConnectionId s.server.connectionIdTracking.toUInt32.toUInt16
  { s.setConnection s.created newConnection with
    server := { s.server with connectionIdTracking := s.server.connectionIdTracking + 1 }
    created := s.created + 1
    accepting := s.created }

/-- The accepted connection is scheduled and listed. -/
def enlist (s : Service) : Service :=
  let s := s.rescheduleMe s.accepting
  { s with server :=
      { s.server with connectionsMade := s.server.connectionsMade ++ [s.accepting] } }

def newConnectionAcceptedHandler (s : Service) (error : Bool) (raw : ServerConnection) : Service :=
  let s := if error then s else s.enlist
  s.beginAcceptingNewConnections raw

/-- A connection starts a read. -/
def startConnection (s : Service) (conn : Nat) : Service :=
  { s with reads := Function.update s.reads conn (s.reads conn + 1) }

/-- A read of a connection ends. -/
def endRead (s : Service) (conn : Nat) : Service :=
  { s with reads := Function.update s.reads conn (s.reads conn - 1) }

/-- The loop starts the next connection. -/
def startNext (s : Service) (conn : Nat) : Service :=
  { s.startConnection conn with started := s.started + 1 }

/-- A read ended with its packets queued, and the connection is scheduled again. -/
def readCompleted (s : Service) (conn : Nat) (c : TCPConnection)
    (factory : PacketMethodFactory Packet PacketClass UInt16) : Service :=
  let s' := (s.endRead conn).setConnection conn { s.connections conn with toTCPConnection := c }
  { s' with factory := factory }.rescheduleMe conn

/-- `RemoveConnection` finds the connection and leaves it. -/
def readFailed (s : Service) (conn : Nat) : Service :=
  (s.endRead conn).setConnection conn (s.connections conn).close

def cleanupClosedConnections (s : Service) : Service :=
  { s with server := { s.server with connectionsMade :=
      s.server.connectionsMade.filter fun conn => !(s.connections conn).hasClosed } }

def clear (s : Service) : Service :=
  { s with
    server := { s.server with connectionsAwaitingSchedule := [] }
    started := 0
    exited := false }

def new (factory : PacketMethodFactory Packet PacketClass UInt16)
    (memory : Nat → ServerConnection) : Service where
  server := ⟨TCPServer.connectionIdStart, [], []⟩
  connections := memory
  created := 0
  accepting := 0
  reads _ := 0
  started := 0
  exited := false
  factory := factory

/-- The server after `Start`, its first accept under way. -/
def start (factory : PacketMethodFactory Packet PacketClass UInt16)
    (memory : Nat → ServerConnection) : Service :=
  (new factory memory).beginAcceptingNewConnections (memory 0)

inductive Event where
  | accepted (error : Bool) (raw : ServerConnection)
  | readCompleted (conn : Nat) (bytes : Read)
  | readFailed (conn : Nat)
  | startNext
  | exitLoop
  | clear
  | cleanup
  | dequeMessage (conn : Nat)

/-- A read completes only if its loop ends; otherwise the process has crashed. -/
inductive Step : Service → Event → Service → Prop
  | accepted (s : Service) (error : Bool) (raw : ServerConnection) :
      Step s (.accepted error raw) (s.newConnectionAcceptedHandler error raw)
  | readCompleted (s : Service) (conn : Nat) (bytes : Read)
      (f : PacketMethodFactory Packet PacketClass UInt16) (c : TCPConnection) :
      0 < s.reads conn →
      (s.connections conn).toTCPConnection.readSome s.factory bytes.1 = (.finished, f, c) →
      Step s (.readCompleted conn bytes) (s.readCompleted conn c f)
  | readFailed (s : Service) (conn : Nat) : 0 < s.reads conn →
      Step s (.readFailed conn) (s.readFailed conn)
  | startNext (s : Service) (conn : Nat) (rest : List Nat) : s.exited = false →
      s.unstarted = conn :: rest →
      Step s .startNext (s.startNext conn)
  | exitLoop (s : Service) : s.exited = false → s.unstarted = [] →
      Step s .exitLoop { s with exited := true }
  | clear (s : Service) : s.exited = true → Step s .clear s.clear
  | cleanup (s : Service) : Step s .cleanup s.cleanupClosedConnections
  | dequeMessage (s : Service) (conn : Nat) (c : ServerConnection)
      (f : PacketMethodFactory Packet PacketClass UInt16) : conn ∈ s.connectionsMade →
      (s.connections conn).dequeMessage s.factory = some (c, f) →
      Step s (.dequeMessage conn) { s.setConnection conn c with factory := f }

theorem setConnection_self (s : Service) (conn : Nat) (c : ServerConnection) :
    (s.setConnection conn c).connections conn = c :=
  Function.update_self ..

theorem setConnection_other (s : Service) {conn p : Nat} (c : ServerConnection) (h : p ≠ conn) :
    (s.setConnection conn c).connections p = s.connections p :=
  Function.update_of_ne h ..

theorem startNext_self (s : Service) (conn : Nat) :
    (s.startNext conn).reads conn = s.reads conn + 1 :=
  Function.update_self ..

theorem startNext_other (s : Service) {conn p : Nat} (h : p ≠ conn) :
    (s.startNext conn).reads p = s.reads p :=
  Function.update_of_ne h ..

theorem endRead_self (s : Service) (conn : Nat) :
    (s.endRead conn).reads conn = s.reads conn - 1 :=
  Function.update_self ..

theorem endRead_other (s : Service) {conn p : Nat} (h : p ≠ conn) :
    (s.endRead conn).reads p = s.reads p :=
  Function.update_of_ne h ..

theorem accepted_other {s : Service} {p : Nat} (h : p < s.created) (error : Bool)
    (raw : ServerConnection) :
    (s.newConnectionAcceptedHandler error raw).connections p = s.connections p := by
  cases error <;> exact s.setConnection_other _ (Nat.ne_of_lt h)

theorem readCompleted_self (s : Service) (conn : Nat) (c : TCPConnection)
    (f : PacketMethodFactory Packet PacketClass UInt16) :
    (s.readCompleted conn c f).connections conn =
      { s.connections conn with toTCPConnection := c } :=
  Function.update_self ..

theorem readCompleted_other (s : Service) {conn p : Nat} (c : TCPConnection)
    (f : PacketMethodFactory Packet PacketClass UInt16) (h : p ≠ conn) :
    (s.readCompleted conn c f).connections p = s.connections p :=
  Function.update_of_ne h ..

theorem readCompleted_hasClosed (s : Service) (conn : Nat) (c : TCPConnection)
    (f : PacketMethodFactory Packet PacketClass UInt16) (p : Nat) :
    ((s.readCompleted conn c f).connections p).hasClosed = (s.connections p).hasClosed := by
  by_cases he : p = conn
  · rw [he, readCompleted_self]
  · rw [readCompleted_other _ _ _ he]

theorem readCompleted_reads (s : Service) (conn : Nat) (c : TCPConnection)
    (f : PacketMethodFactory Packet PacketClass UInt16) :
    (s.readCompleted conn c f).reads = (s.endRead conn).reads := rfl

/-- A rescheduled connection is behind those the loop has still to start. -/
theorem rescheduleMe_unstarted {s : Service} (conn : Nat)
    (h : s.started ≤ s.server.connectionsAwaitingSchedule.length) :
    (s.rescheduleMe conn).unstarted = s.unstarted ++ [conn] :=
  List.drop_append_of_le_length h

/-- Connections are numbered in order of creation, and so are their ids. -/
structure Counted (s : Service) : Prop where
  made : ∀ p ∈ s.connectionsMade, p < s.created
  nodup : s.connectionsMade.Nodup
  tracking : s.server.connectionIdTracking = Int32.ofNat (1024 + s.created)
  ids : ∀ p < s.created, (s.connections p).connectionId = UInt16.ofNat (1024 + p)

/-- The last connection created is the one that waits for an accept. -/
structure Numbered (s : Service) : Prop extends Counted s where
  last : s.created = s.accepting + 1
  pending : s.accepting ∉ s.connectionsMade
  opened : (s.connections s.accepting).hasClosed = false

theorem Counted.beginAccepting {s : Service} (h : s.Counted) (raw : ServerConnection) :
    (s.beginAcceptingNewConnections raw).Numbered where
  made p hp := Nat.lt_succ_of_lt (h.made p hp)
  nodup := h.nodup
  tracking := by
    change s.server.connectionIdTracking + 1 = _
    rw [h.tracking]
    exact (Int32.ofNat_add (1024 + s.created) 1).symm
  ids p hp := by
    rcases Nat.lt_succ_iff_lt_or_eq.mp hp with hlt | rfl
    · exact (congrArg _ (s.setConnection_other _ (Nat.ne_of_lt hlt))).trans (h.ids p hlt)
    · refine (congrArg _ (s.setConnection_self _ _)).trans ?_
      change s.server.connectionIdTracking.toUInt32.toUInt16 = _
      rw [h.tracking, Int32.toUInt32_ofNat', UInt32.toUInt16_ofNat']
  last := rfl
  pending hp := absurd (h.made _ hp) (Nat.lt_irrefl _)
  opened := congrArg ServerConnection.hasClosed (s.setConnection_self _ _)

theorem new_counted (factory : PacketMethodFactory Packet PacketClass UInt16)
    (memory : Nat → ServerConnection) : (new factory memory).Counted where
  made _ hp := absurd hp List.not_mem_nil
  nodup := List.nodup_nil
  tracking := rfl
  ids p hp := absurd hp (Nat.not_lt_zero p)

namespace Numbered
variable {s s' : Service}

theorem accepting_lt (h : s.Numbered) : s.accepting < s.created :=
  Nat.lt_of_lt_of_eq (Nat.lt_succ_self _) h.last.symm

theorem made_lt_accepting (h : s.Numbered) {q : Nat} (hq : q ∈ s.connectionsMade) :
    q < s.accepting := by
  have hcreated := h.made q hq
  have hne : q ≠ s.accepting := fun he => h.pending (he ▸ hq)
  have hlast := h.last
  omega

theorem enlist (h : s.Numbered) : s.enlist.Counted where
  made q hq := by
    rcases List.mem_append.mp hq with hq | hq
    · exact h.made q hq
    · rw [List.mem_singleton.mp hq]
      exact h.accepting_lt
  nodup := by
    apply List.nodup_append.mpr
    refine ⟨h.nodup, List.nodup_singleton _, ?_⟩
    rintro p hp q hq rfl
    rw [List.mem_singleton.mp hq] at hp
    exact h.pending hp
  tracking := h.tracking
  ids := h.ids

theorem accepted (h : s.Numbered) (error : Bool) (raw : ServerConnection) :
    (s.newConnectionAcceptedHandler error raw).Numbered := by
  cases error with
  | true => exact h.toCounted.beginAccepting raw
  | false => exact h.enlist.beginAccepting raw

theorem of_same (h : s.Numbered) (hcreated : s'.created = s.created)
    (haccepting : s'.accepting = s.accepting)
    (htracking : s'.server.connectionIdTracking = s.server.connectionIdTracking)
    (hmade : s'.connectionsMade.Sublist s.connectionsMade)
    (hids : ∀ p, (s'.connections p).connectionId = (s.connections p).connectionId)
    (hopened : s'.connections s.accepting = s.connections s.accepting) : s'.Numbered where
  made p hp := by rw [hcreated]; exact h.made p (hmade.subset hp)
  nodup := h.nodup.sublist hmade
  tracking := by rw [htracking, hcreated, h.tracking]
  ids p hp := by rw [hids]; exact h.ids p (hcreated ▸ hp)
  last := by rw [hcreated, haccepting, h.last]
  pending hp := h.pending (haccepting ▸ hmade.subset hp)
  opened := by rw [haccepting, hopened, h.opened]

theorem of_setConnection (h : s.Numbered) {conn : Nat} (hconn : conn ∈ s.connectionsMade)
    {c : ServerConnection} (hid : c.connectionId = (s.connections conn).connectionId)
    (hcreated : s'.created = s.created) (haccepting : s'.accepting = s.accepting)
    (htracking : s'.server.connectionIdTracking = s.server.connectionIdTracking)
    (hmade : s'.connectionsMade = s.connectionsMade)
    (hset : s'.connections = (s.setConnection conn c).connections) : s'.Numbered := by
  apply h.of_same hcreated haccepting htracking (hmade ▸ List.Sublist.refl _)
  · intro p
    rw [hset]
    by_cases hp : p = conn
    · rw [hp, setConnection_self, hid]
    · rw [s.setConnection_other c hp]
  · have hne : s.accepting ≠ conn := fun he => h.pending (he ▸ hconn)
    rw [hset, s.setConnection_other c hne]

end Numbered

/-- A connection waits to be started or has a read, at most once in all, and only while it is
open and listed. -/
structure Scheduled (s : Service) : Prop where
  once : ∀ p, s.unstarted.count p + s.reads p ≤ 1
  owned : ∀ p, p ∈ s.unstarted ∨ 0 < s.reads p →
    p ∈ s.connectionsMade ∧ (s.connections p).hasClosed = false
  passed : s.started ≤ s.server.connectionsAwaitingSchedule.length

namespace Scheduled
variable {s : Service}

theorem new (factory : PacketMethodFactory Packet PacketClass UInt16)
    (memory : Nat → ServerConnection) : (new factory memory).Scheduled where
  once p := Nat.zero_le 1
  owned p hp := absurd hp (by simp [unstarted, Service.new])
  passed := Nat.le_refl 0

theorem reading (h : s.Scheduled) {p : Nat} (hp : 0 < s.reads p) :
    s.reads p = 1 ∧ p ∉ s.unstarted := by
  have honce := h.once p
  refine ⟨by omega, fun hmem => ?_⟩
  have hcount := List.count_pos_iff.mpr hmem
  omega

theorem waiting (h : s.Scheduled) {p : Nat} (hp : p ∈ s.unstarted) : s.reads p = 0 := by
  have honce := h.once p
  have hcount := List.count_pos_iff.mpr hp
  omega

theorem beginAccepting (h : s.Scheduled) (hcounted : s.Counted) (raw : ServerConnection) :
    (s.beginAcceptingNewConnections raw).Scheduled where
  once := h.once
  owned p hp := by
    obtain ⟨hmade, hopen⟩ := h.owned p hp
    have hne := Nat.ne_of_lt (hcounted.made p hmade)
    exact ⟨hmade, (congrArg _ (s.setConnection_other _ hne)).trans hopen⟩
  passed := h.passed

theorem unlisted (h : s.Scheduled) {p : Nat} (hp : p ∉ s.connectionsMade) :
    p ∉ s.unstarted ∧ s.reads p = 0 := by
  constructor
  · exact fun hmem => hp (h.owned p (Or.inl hmem)).1
  · by_contra hreads
    exact hp (h.owned p (Or.inr (Nat.pos_of_ne_zero hreads))).1

private theorem count_snoc_self (xs : List Nat) (p : Nat) (h : p ∉ xs) :
    (xs ++ [p]).count p = 1 := by
  rw [List.count_append, List.count_eq_zero_of_not_mem h, List.count_singleton_self]

private theorem count_snoc_other (xs : List Nat) {p q : Nat} (h : q ≠ p) :
    (xs ++ [p]).count q = xs.count q := by
  have hnone : [p].count q = 0 := List.count_eq_zero_of_not_mem (by simpa using h)
  rw [List.count_append, hnone, Nat.add_zero]

theorem enlist_unstarted (h : s.Scheduled) : s.enlist.unstarted = s.unstarted ++ [s.accepting] :=
  rescheduleMe_unstarted s.accepting h.passed

theorem enlist (h : s.Scheduled) (hn : s.Numbered) : s.enlist.Scheduled where
  once p := by
    obtain ⟨hwait, hreads⟩ := h.unlisted hn.pending
    rw [h.enlist_unstarted]
    by_cases hp : p = s.accepting
    · rw [hp, count_snoc_self _ _ hwait]
      exact Nat.le_of_eq (congrArg (1 + ·) hreads)
    · rw [count_snoc_other _ hp]
      exact h.once p
  owned p hp := by
    rw [h.enlist_unstarted, List.mem_append, List.mem_singleton, or_right_comm] at hp
    rcases hp with hp | rfl
    · exact ⟨List.mem_append_left _ (h.owned p hp).1, (h.owned p hp).2⟩
    · exact ⟨List.mem_append_right _ (List.mem_singleton_self _), hn.opened⟩
  passed := by
    change _ ≤ (s.server.connectionsAwaitingSchedule ++ [s.accepting]).length
    rw [List.length_append]
    exact Nat.le_add_right_of_le h.passed

theorem completed_unstarted (h : s.Scheduled) (conn : Nat) (c : TCPConnection)
    (f : PacketMethodFactory Packet PacketClass UInt16) :
    (s.readCompleted conn c f).unstarted = s.unstarted ++ [conn] :=
  List.drop_append_of_le_length h.passed

theorem completed (h : s.Scheduled) {conn : Nat} (hreads : 0 < s.reads conn) (c : TCPConnection)
    (f : PacketMethodFactory Packet PacketClass UInt16) : (s.readCompleted conn c f).Scheduled where
  once p := by
    rw [h.completed_unstarted, readCompleted_reads]
    by_cases hp : p = conn
    · obtain ⟨hone, hwait⟩ := h.reading hreads
      rw [hp, count_snoc_self _ _ hwait, endRead_self, hone]
    · rw [count_snoc_other _ hp, s.endRead_other hp]
      exact h.once p
  owned p hp := by
    rw [h.completed_unstarted, readCompleted_reads, List.mem_append, List.mem_singleton] at hp
    rw [readCompleted_hasClosed]
    by_cases he : p = conn
    · rw [he]
      exact h.owned conn (Or.inr hreads)
    · rw [or_iff_left he, s.endRead_other he] at hp
      exact h.owned p hp
  passed := by
    change _ ≤ (s.server.connectionsAwaitingSchedule ++ [conn]).length
    rw [List.length_append]
    exact Nat.le_add_right_of_le h.passed

theorem failed (h : s.Scheduled) {conn : Nat} (hreads : 0 < s.reads conn) :
    (s.readFailed conn).Scheduled where
  once p := by
    by_cases hp : p = conn
    · obtain ⟨hone, hwait⟩ := h.reading hreads
      have hzero : (s.endRead conn).reads conn = 0 := by rw [endRead_self, hone]
      rw [hp]
      change s.unstarted.count conn + (s.endRead conn).reads conn ≤ 1
      rw [hzero, List.count_eq_zero_of_not_mem hwait]
      exact Nat.zero_le 1
    · exact Nat.le_trans (Nat.le_of_eq (congrArg (_ + ·) (s.endRead_other hp))) (h.once p)
  owned p hp := by
    change p ∈ s.unstarted ∨ 0 < (s.endRead conn).reads p at hp
    by_cases he : p = conn
    · obtain ⟨hone, hwait⟩ := h.reading hreads
      rw [he, endRead_self, hone, Nat.sub_self] at hp
      exact absurd hp (not_or.mpr ⟨hwait, Nat.lt_irrefl 0⟩)
    · rw [s.endRead_other he] at hp
      refine ⟨(h.owned p hp).1, ?_⟩
      exact (congrArg _ ((s.endRead conn).setConnection_other _ he)).trans (h.owned p hp).2
  passed := h.passed

theorem startNext_unstarted {conn : Nat} {rest : List Nat}
    (hunstarted : s.unstarted = conn :: rest) : (s.startNext conn).unstarted = rest := by
  change s.server.connectionsAwaitingSchedule.drop (s.started + 1) = rest
  rw [← List.drop_drop (i := 1), show s.server.connectionsAwaitingSchedule.drop s.started =
    conn :: rest from hunstarted]
  rfl

theorem startNext (h : s.Scheduled) {conn : Nat} {rest : List Nat}
    (hunstarted : s.unstarted = conn :: rest) : (s.startNext conn).Scheduled := by
  have hwait : conn ∈ s.unstarted := by
    rw [hunstarted]
    exact List.mem_cons_self
  have honce := h.once conn
  rw [hunstarted, List.count_cons_self, h.waiting hwait] at honce
  refine ⟨?_, ?_, ?_⟩
  · intro p
    rw [startNext_unstarted hunstarted]
    by_cases hp : p = conn
    · rw [hp, startNext_self, h.waiting hwait]
      omega
    · have hle := h.once p
      rw [hunstarted, List.count_cons_of_ne (Ne.symm hp)] at hle
      rwa [startNext_other _ hp]
  · intro p hp
    rw [startNext_unstarted hunstarted] at hp
    by_cases he : p = conn
    · rw [he]
      exact h.owned conn (Or.inl hwait)
    · rw [startNext_other _ he] at hp
      apply h.owned p
      rw [hunstarted]
      exact hp.imp_left (List.mem_cons_of_mem _)
  · have hlen := congrArg List.length hunstarted
    rw [unstarted, List.length_drop, List.length_cons] at hlen
    change s.started + 1 ≤ s.server.connectionsAwaitingSchedule.length
    omega

theorem exitLoop (h : s.Scheduled) : Service.Scheduled { s with exited := true } :=
  ⟨h.once, h.owned, h.passed⟩

theorem clear (h : s.Scheduled) : s.clear.Scheduled where
  once p := Nat.le_trans (Nat.le_of_eq (Nat.zero_add _))
    (Nat.le_trans (Nat.le_add_left _ _) (h.once p))
  owned p hp := h.owned p (Or.inr (hp.resolve_left List.not_mem_nil))
  passed := Nat.le_refl 0

theorem cleanup (h : s.Scheduled) : s.cleanupClosedConnections.Scheduled where
  once := h.once
  owned p hp := by
    obtain ⟨hmade, hopen⟩ := h.owned p hp
    exact ⟨List.mem_filter.mpr ⟨hmade, by rw [hopen]; rfl⟩, hopen⟩
  passed := h.passed

theorem setConnection (h : s.Scheduled) {conn : Nat} {c : ServerConnection}
    (hopen : c.hasClosed = (s.connections conn).hasClosed)
    (f : PacketMethodFactory Packet PacketClass UInt16) :
    Service.Scheduled { s.setConnection conn c with factory := f } where
  once := h.once
  owned p hp := by
    obtain ⟨hmade, hstill⟩ := h.owned p hp
    refine ⟨hmade, ?_⟩
    by_cases he : p = conn
    · rw [he] at hstill ⊢
      exact (congrArg _ (s.setConnection_self conn c)).trans (hopen.trans hstill)
    · exact (congrArg _ (s.setConnection_other c he)).trans hstill
  passed := h.passed

end Scheduled

/-- What holds in every state of every run. -/
structure Sound (s : Service) : Prop where
  numbered : s.Numbered
  scheduled : s.Scheduled

namespace Sound
variable {s s' : Service}

theorem start (factory : PacketMethodFactory Packet PacketClass UInt16)
    (memory : Nat → ServerConnection) : (start factory memory).Sound :=
  ⟨(new_counted factory memory).beginAccepting _,
    (Scheduled.new factory memory).beginAccepting (new_counted factory memory) _⟩

theorem accepted (h : s.Sound) (error : Bool) (raw : ServerConnection) :
    (s.newConnectionAcceptedHandler error raw).Sound := by
  refine ⟨h.numbered.accepted error raw, ?_⟩
  cases error with
  | true => exact h.scheduled.beginAccepting h.numbered.toCounted raw
  | false => exact (h.scheduled.enlist h.numbered).beginAccepting h.numbered.enlist raw

theorem step {event : Event} (h : s.Sound) (hs : Step s event s') : s'.Sound := by
  cases hs with
  | accepted error raw => exact h.accepted error raw
  | readCompleted conn bytes f c hreads hread =>
    have hmade := (h.scheduled.owned conn (Or.inr hreads)).1
    refine ⟨?_, h.scheduled.completed hreads c f⟩
    exact h.numbered.of_setConnection
      (c := { s.connections conn with toTCPConnection := c }) hmade rfl rfl rfl rfl rfl rfl
  | readFailed conn hreads =>
    have hmade := (h.scheduled.owned conn (Or.inr hreads)).1
    refine ⟨?_, h.scheduled.failed hreads⟩
    exact h.numbered.of_setConnection (c := (s.connections conn).close) hmade rfl rfl rfl rfl rfl
      rfl
  | startNext conn rest hexited hunstarted =>
    refine ⟨?_, h.scheduled.startNext hunstarted⟩
    exact h.numbered.of_same rfl rfl rfl (List.Sublist.refl _) (fun _ => rfl) rfl
  | exitLoop hexited hunstarted =>
    refine ⟨?_, h.scheduled.exitLoop⟩
    exact h.numbered.of_same rfl rfl rfl (List.Sublist.refl _) (fun _ => rfl) rfl
  | clear hexited =>
    refine ⟨?_, h.scheduled.clear⟩
    exact h.numbered.of_same rfl rfl rfl (List.Sublist.refl _) (fun _ => rfl) rfl
  | cleanup =>
    refine ⟨?_, h.scheduled.cleanup⟩
    exact h.numbered.of_same rfl rfl rfl List.filter_sublist (fun _ => rfl) rfl
  | dequeMessage conn c f hmade hdeque =>
    obtain ⟨i, rest, -, rfl, -⟩ := ServerConnection.dequeMessage_some hdeque
    refine ⟨?_, h.scheduled.setConnection
      (c := { s.connections conn with inwardPackets := rest }) rfl f⟩
    exact h.numbered.of_setConnection
      (c := { s.connections conn with inwardPackets := rest }) hmade rfl rfl rfl rfl rfl rfl

/-- The invariant holds at the end of every run. -/
theorem of_run {factory : PacketMethodFactory Packet PacketClass UInt16}
    {memory : Nat → ServerConnection} {taken : List (Taken Service Event)}
    (h : History Step (Service.start factory memory) taken s) : s.Sound := by
  induction h with
  | start => exact Sound.start factory memory
  | step _ hs ih => exact ih.step hs

end Sound

abbrev sampleMemory : ServerConnection := ⟨⟨fun _ => 0, []⟩, false, 0⟩

/-- The step of an accept that succeeds. -/
abbrev accept (s : Service) : Taken Service Event :=
  ⟨s, .accepted false sampleMemory, s.newConnectionAcceptedHandler false sampleMemory⟩

section Sample
variable (factory : PacketMethodFactory Packet PacketClass UInt16)

abbrev sampleService : Service := start factory fun _ => sampleMemory

theorem sample_accept_run :
    History Step (sampleService factory) [accept (sampleService factory)]
      (accept (sampleService factory)).after :=
  .step .start (.accepted ..)

/-- The first connection accepted is started. -/
abbrev firstStarted : Service := (accept (sampleService factory)).after.startNext 0

theorem firstStarted_run :
    History Step (sampleService factory) [accept (sampleService factory),
      ⟨(accept (sampleService factory)).after, .startNext, firstStarted factory⟩]
      (firstStarted factory) := by
  have hwait : (accept (sampleService factory)).after.unstarted = [0] := rfl
  exact .step (sample_accept_run factory) (.startNext _ 0 [] rfl hwait)

/-- Both of two clients have a read. -/
abbrev bothStarted : Service := (accept (firstStarted factory)).after.startNext 1

/-- The first one's fails. -/
abbrev firstFailed : Service := (bothStarted factory).readFailed 0

/-- The pass over the waiting connections ends. -/
abbrev passEnded : Service := { firstFailed factory with exited := true }

abbrev passSteps : List (Taken Service Event) :=
  [accept (sampleService factory),
    ⟨(accept (sampleService factory)).after, .startNext, firstStarted factory⟩,
    accept (firstStarted factory),
    ⟨(accept (firstStarted factory)).after, .startNext, bothStarted factory⟩,
    ⟨bothStarted factory, .readFailed 0, firstFailed factory⟩,
    ⟨firstFailed factory, .exitLoop, passEnded factory⟩,
    ⟨passEnded factory, .clear, (passEnded factory).clear⟩]

theorem pass_run :
    History Step (sampleService factory) (passSteps factory) (passEnded factory).clear := by
  have haccept : History Step (sampleService factory) _ (accept (firstStarted factory)).after :=
    .step (firstStarted_run factory) (.accepted ..)
  have hwait : (accept (firstStarted factory)).after.unstarted = [1] := rfl
  have hstart : History Step (sampleService factory) _ (bothStarted factory) :=
    .step haccept (.startNext _ 1 [] rfl hwait)
  have hfail : History Step (sampleService factory) _ (firstFailed factory) :=
    .step hstart (.readFailed _ 0 Nat.one_pos)
  have hnone : (firstFailed factory).unstarted = [] := rfl
  exact .step (.step hfail (.exitLoop _ rfl hnone)) (.clear _ rfl)

end Sample

/-- The server over the four registered classes. -/
abbrev initialService : Service := sampleService initialWorld.factory

end Service
end SocketCPlusPlus.Socket
