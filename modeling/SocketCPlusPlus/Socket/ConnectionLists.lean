import SocketCPlusPlus.Socket.TCPServer

/-! Which connections the server lists, and that none it lets go of is still in use: a read knows its
connection by address only, and the list is what keeps the connection. -/
namespace SocketCPlusPlus.Socket
open Foundation Packets

namespace Service

def isOpen (s : Service) (conn : Nat) : Bool := !(s.connections conn).hasClosed

def numConnectedClients (s : Service) : Nat := s.connectionsMade.length

/-- The connection that an event accepts. -/
def accepts? (t : Taken Service Event) : Option Nat :=
  match t.event with
  | .accepted false _ => some t.before.accepting
  | _ => none

/-- The connections accepted in a run, in their order. -/
def acceptedIn (taken : List (Taken Service Event)) : List Nat := taken.filterMap accepts?

/-- The list has lost closed connections only. -/
structure Listed (accepted : List Nat) (s : Service) : Prop where
  sublist : s.connectionsMade.Sublist accepted
  opened : accepted.filter s.isOpen = s.connectionsMade.filter s.isOpen
  older : ∀ p ∈ accepted, p < s.accepting

namespace Listed
variable {s s' : Service} {accepted : List Nat}

theorem of_same (h : s.Listed accepted) (hmade : s'.connectionsMade = s.connectionsMade)
    (hclosed : ∀ p, (s'.connections p).hasClosed = (s.connections p).hasClosed)
    (haccepting : s'.accepting = s.accepting) : s'.Listed accepted := by
  have hopen : s'.isOpen = s.isOpen := by
    funext p
    rw [isOpen, hclosed, isOpen]
  refine ⟨?_, ?_, ?_⟩
  · rw [hmade]
    exact h.sublist
  · rw [hopen, hmade]
    exact h.opened
  · rw [haccepting]
    exact h.older

theorem accept (h : s.Listed accepted) (hsound : s.Sound) (error : Bool) (raw : ServerConnection) :
    (s.newConnectionAcceptedHandler error raw).Listed
      (accepted ++ if error then [] else [s.accepting]) := by
  have hlast : s.accepting < s.created := hsound.numbered.accepting_lt
  have hnext : (s.newConnectionAcceptedHandler error raw).accepting = s.created := by
    cases error <;> rfl
  have hsame : ∀ p < s.created,
      (s.newConnectionAcceptedHandler error raw).isOpen p = s.isOpen p := by
    intro p hp
    rw [isOpen, accepted_other hp, isOpen]
  have hold : ∀ p ∈ accepted,
      (s.newConnectionAcceptedHandler error raw).isOpen p = s.isOpen p :=
    fun p hp => hsame p ((h.older p hp).trans hlast)
  have hfilter : accepted.filter (s.newConnectionAcceptedHandler error raw).isOpen =
      s.connectionsMade.filter (s.newConnectionAcceptedHandler error raw).isOpen := by
    rw [List.filter_congr hold, h.opened]
    refine List.filter_congr fun p hp => ?_
    exact (hold p (h.sublist.subset hp)).symm
  refine ⟨?_, ?_, ?_⟩
  · cases error with
    | true => exact h.sublist.trans (List.sublist_append_left ..)
    | false => exact h.sublist.append (List.Sublist.refl _)
  · rw [List.filter_append, hfilter]
    cases error with
    | true => exact List.append_nil _
    | false => exact (List.filter_append ..).symm
  · rw [hnext, List.forall_mem_append]
    refine ⟨fun p hp => (h.older p hp).trans hlast, ?_⟩
    cases error with
    | true => exact List.forall_mem_nil _
    | false => exact List.forall_mem_singleton.mpr hlast

theorem failed (h : s.Listed accepted) (conn : Nat) : (s.readFailed conn).Listed accepted := by
  have hopen : (s.readFailed conn).isOpen = fun p => decide (p ≠ conn) && s.isOpen p := by
    funext p
    by_cases he : p = conn
    · rw [he, isOpen, readFailed, setConnection_self]
      simp [ServerConnection.close]
    · rw [isOpen, readFailed, setConnection_other _ _ he, decide_eq_true he, Bool.true_and]
      rfl
  refine ⟨h.sublist, ?_, h.older⟩
  rw [hopen, ← List.filter_filter, h.opened, List.filter_filter]
  rfl

theorem cleanup (h : s.Listed accepted) : s.cleanupClosedConnections.Listed accepted where
  sublist := List.filter_sublist.trans h.sublist
  opened := by
    refine h.opened.trans ?_
    change _ = (s.connectionsMade.filter s.isOpen).filter s.isOpen
    rw [List.filter_filter]
    simp only [Bool.and_self]
  older := h.older

theorem step (h : s.Listed accepted) (hsound : s.Sound) {event : Event} (hs : Step s event s') :
    s'.Listed (accepted ++ acceptedIn [⟨s, event, s'⟩]) := by
  have hquiet : accepts? ⟨s, event, s'⟩ = none → s'.Listed accepted →
      s'.Listed (accepted ++ acceptedIn [⟨s, event, s'⟩]) := by
    intro hnone hlisted
    rw [acceptedIn, List.filterMap_cons_none hnone, List.filterMap_nil, List.append_nil]
    exact hlisted
  cases hs with
  | accepted error raw =>
    have haccept := h.accept hsound error raw
    cases error with
    | true => exact haccept
    | false => exact haccept
  | readCompleted conn bytes f c hreads hread =>
    exact hquiet rfl (h.of_same rfl (s.readCompleted_hasClosed conn c f) rfl)
  | readFailed conn hreads => exact hquiet rfl (h.failed conn)
  | startNext conn rest hexited hunstarted => exact hquiet rfl (h.of_same rfl (fun _ => rfl) rfl)
  | exitLoop hexited hunstarted => exact hquiet rfl (h.of_same rfl (fun _ => rfl) rfl)
  | clear hexited => exact hquiet rfl (h.of_same rfl (fun _ => rfl) rfl)
  | cleanup => exact hquiet rfl h.cleanup
  | dequeMessage conn c f hmade hdeque =>
    obtain ⟨i, rest, -, rfl, -⟩ := ServerConnection.dequeMessage_some hdeque
    refine hquiet rfl (h.of_same rfl (fun p => ?_) rfl)
    by_cases he : p = conn
    · rw [he]
      exact (congrArg ServerConnection.hasClosed
        (s.setConnection_self conn { s.connections conn with inwardPackets := rest })).trans rfl
    · exact congrArg ServerConnection.hasClosed
        (s.setConnection_other { s.connections conn with inwardPackets := rest } he)

theorem of_run {factory : PacketMethodFactory Packet PacketClass UInt16}
    {memory : Nat → ServerConnection} {taken : List (Taken Service Event)}
    (h : History Service.Step (Service.start factory memory) taken s) :
    s.Listed (acceptedIn taken) := by
  induction h with
  | start => exact ⟨List.Sublist.refl _, rfl, List.forall_mem_nil _⟩
  | step hrun hs ih =>
    rw [acceptedIn, List.filterMap_append]
    exact ih.step (Sound.of_run hrun) hs

end Listed

/-- In every reachable state the open connections listed are the accepted ones that have not closed,
in the order of their accepts, and a cleanup leaves just these; and a connection with a read under
way has that one read, does not wait for another, and is still there after a cleanup. -/
theorem open_connections_listed {factory : PacketMethodFactory Packet PacketClass UInt16}
    {memory : Nat → ServerConnection} {s : Service} {taken : List (Taken Service Event)}
    (h : History Step (start factory memory) taken s) :
    s.connectionsMade.Sublist (acceptedIn taken) ∧
      s.connectionsMade.filter s.isOpen = (acceptedIn taken).filter s.isOpen ∧
      s.cleanupClosedConnections.connectionsMade = (acceptedIn taken).filter s.isOpen ∧
      s.cleanupClosedConnections.numConnectedClients = (acceptedIn taken).countP s.isOpen ∧
      ∀ p, 0 < s.reads p → s.reads p = 1 ∧ p ∉ s.unstarted ∧
        p ∈ s.cleanupClosedConnections.connectionsMade := by
  have hlisted := Listed.of_run h
  have hscheduled := (Sound.of_run h).scheduled
  have hcleanup : s.cleanupClosedConnections.connectionsMade = (acceptedIn taken).filter s.isOpen :=
    hlisted.opened.symm
  refine ⟨hlisted.sublist, hlisted.opened.symm, hcleanup, ?_, fun p hp => ?_⟩
  · rw [numConnectedClients, hcleanup, List.countP_eq_length_filter]
  · obtain ⟨hone, hwait⟩ := hscheduled.reading hp
    obtain ⟨hmade, hopen⟩ := hscheduled.owned p (Or.inr hp)
    refine ⟨hone, hwait, List.mem_filter.mpr ⟨hmade, ?_⟩⟩
    rw [hopen]
    rfl

/-- Of two connections the first has closed and the second has a read. -/
theorem sample_listed :
    let s := (passEnded initialWorld.factory).clear
    let taken := passSteps initialWorld.factory
    s.connectionsMade.Sublist (acceptedIn taken) ∧
      s.connectionsMade.filter s.isOpen = (acceptedIn taken).filter s.isOpen ∧
      s.cleanupClosedConnections.connectionsMade = (acceptedIn taken).filter s.isOpen ∧
      s.cleanupClosedConnections.numConnectedClients = (acceptedIn taken).countP s.isOpen ∧
      ∀ p, 0 < s.reads p → s.reads p = 1 ∧ p ∉ s.unstarted ∧
        p ∈ s.cleanupClosedConnections.connectionsMade :=
  open_connections_listed (pass_run _)

end Service
end SocketCPlusPlus.Socket
