import SocketCPlusPlus.Socket.TCPServer

/-! What becomes of the connections between two passes of the service loop. The list is cleared
after the loop has exited, and with it whatever was appended in between. -/
namespace SocketCPlusPlus.Socket
open Foundation Packets

namespace Service

/-- Every open connection waits to be started or has exactly one read. -/
def Served (s : Service) : Prop :=
  ∀ p ∈ s.connectionsMade, (s.connections p).hasClosed = false →
    p ∈ s.unstarted ∨ s.reads p = 1

/-- The list that is cleared holds nothing but what the loop has started. -/
def ClearsStarted (s : Service) : Event → Prop
  | .clear => s.server.connectionsAwaitingSchedule.length = s.started
  | _ => True

namespace Served
variable {s : Service}

theorem accepted (h : s.Served) (hsound : s.Sound) (error : Bool) (raw : ServerConnection) :
    (s.newConnectionAcceptedHandler error raw).Served := by
  have hold : ∀ p ∈ s.connectionsMade,
      (s.newConnectionAcceptedHandler error raw).connections p = s.connections p :=
    fun p hp => accepted_other (hsound.numbered.made p hp) error raw
  intro p hp hopen
  cases error with
  | true =>
    rw [hold p hp] at hopen
    exact h p hp hopen
  | false =>
    change p ∈ s.enlist.unstarted ∨ s.reads p = 1
    rw [hsound.scheduled.enlist_unstarted, List.mem_append]
    rcases List.mem_append.mp hp with hp | hp
    · rw [hold p hp] at hopen
      exact (h p hp hopen).imp_left Or.inl
    · exact Or.inl (Or.inr hp)

theorem completed (h : s.Served) (hsound : s.Sound) (conn : Nat) (c : TCPConnection)
    (f : PacketMethodFactory Packet PacketClass UInt16) : (s.readCompleted conn c f).Served := by
  intro p hp hopen
  rw [hsound.scheduled.completed_unstarted, List.mem_append, List.mem_singleton]
  by_cases he : p = conn
  · exact Or.inl (Or.inr he)
  · rw [readCompleted_hasClosed] at hopen
    rw [readCompleted_reads, s.endRead_other he]
    exact (h p hp hopen).imp_left Or.inl

theorem failed (h : s.Served) (conn : Nat) : (s.readFailed conn).Served := by
  intro p hp hopen
  by_cases he : p = conn
  · rw [he, readFailed, setConnection_self] at hopen
    exact absurd hopen.symm Bool.false_ne_true
  · rw [readFailed, setConnection_other _ _ he] at hopen
    change p ∈ s.unstarted ∨ (s.endRead conn).reads p = 1
    rw [s.endRead_other he]
    exact h p hp hopen

theorem startNext (h : s.Served) (hsound : s.Sound) {conn : Nat} {rest : List Nat}
    (hunstarted : s.unstarted = conn :: rest) : (s.startNext conn).Served := by
  have hwait : conn ∈ s.unstarted := by
    rw [hunstarted]
    exact List.mem_cons_self
  intro p hp hopen
  rw [Scheduled.startNext_unstarted hunstarted]
  by_cases he : p = conn
  · rw [he, startNext_self, hsound.scheduled.waiting hwait]
    exact Or.inr rfl
  · rw [startNext_other _ he]
    have hp' := h p hp hopen
    rwa [hunstarted, List.mem_cons, or_iff_right he] at hp'

/-- Clearing loses every connection that the loop has not started. -/
theorem clear_iff (h : s.Served) (hsound : s.Sound) :
    s.clear.Served ↔ s.server.connectionsAwaitingSchedule.length = s.started := by
  have hpassed := hsound.scheduled.passed
  have hempty : s.unstarted = [] ↔ s.server.connectionsAwaitingSchedule.length = s.started := by
    rw [unstarted, List.drop_eq_nil_iff]
    omega
  rw [← hempty]
  constructor
  · intro hserved
    apply List.eq_nil_iff_forall_not_mem.mpr
    intro p hp
    obtain ⟨hmade, hopen⟩ := hsound.scheduled.owned p (Or.inl hp)
    rcases hserved p hmade hopen with hmem | hreads
    · exact absurd hmem List.not_mem_nil
    · have hzero := hsound.scheduled.waiting hp
      exact absurd (hreads.symm.trans hzero) Nat.one_ne_zero
  · intro hnone p hp hopen
    have hp' := h p hp hopen
    rw [hnone] at hp'
    exact Or.inr (hp'.resolve_left List.not_mem_nil)

end Served

/-- In a run every open connection is served in every state exactly if no pass clears a list to
which something was appended after its loop had exited. -/
theorem served_iff {factory : PacketMethodFactory Packet PacketClass UInt16}
    {memory : Nat → ServerConnection} {s : Service} {taken : List (Taken Service Event)}
    (h : History Step (start factory memory) taken s) :
    (∀ t ∈ taken, t.after.Served) ↔ ∀ t ∈ taken, t.before.ClearsStarted t.event := by
  apply History.always_iff (fun s => s.Sound ∧ s.Served) (fun _ _ s' => s'.Served) ClearsStarted
    ⟨Sound.start factory memory, fun p hp => absurd hp List.not_mem_nil⟩ _ h
  rintro s event s' ⟨hsound, hserved⟩ hstep
  have hsound' := hsound.step hstep
  suffices hiff : s'.Served ↔ s.ClearsStarted event from
    ⟨hiff, fun hserved' => ⟨hsound', hserved'⟩⟩
  cases hstep with
  | accepted error raw => exact iff_of_true (hserved.accepted hsound error raw) trivial
  | readCompleted conn bytes f c hreads hread =>
    exact iff_of_true (hserved.completed hsound conn c f) trivial
  | readFailed conn hreads => exact iff_of_true (hserved.failed conn) trivial
  | startNext conn rest hexited hunstarted =>
    exact iff_of_true (hserved.startNext hsound hunstarted) trivial
  | exitLoop hexited hunstarted => exact iff_of_true hserved trivial
  | clear hexited => exact hserved.clear_iff hsound
  | cleanup =>
    exact iff_of_true (fun p hp hopen => hserved p (List.mem_filter.mp hp).1 hopen) trivial
  | dequeMessage conn c f hmade hdeque =>
    obtain ⟨i, rest, -, rfl, -⟩ := ServerConnection.dequeMessage_some hdeque
    refine iff_of_true ?_ trivial
    intro p hp hopen
    apply hserved p hp
    by_cases he : p = conn
    · rw [he] at hopen ⊢
      exact (congrArg _ (s.setConnection_self conn
        { s.connections conn with inwardPackets := rest })).symm.trans hopen
    · exact (congrArg _ (s.setConnection_other
        { s.connections conn with inwardPackets := rest } he)).symm.trans hopen

theorem sample_served :
    (∀ t ∈ passSteps initialWorld.factory, t.after.Served) ↔
      ∀ t ∈ passSteps initialWorld.factory, t.before.ClearsStarted t.event :=
  served_iff (pass_run _)

/-- The loop has exited. -/
abbrev passDone : Service := { firstStarted initialWorld.factory with exited := true }

/-- A connection that is accepted between the exit of the loop and the clear is open, waits
nowhere and has no read. -/
theorem late_accept_lost :
    (∃ taken, History Step initialService taken (accept passDone).after.clear) ∧
      1 ∈ (accept passDone).after.clear.connectionsMade ∧
      ((accept passDone).after.clear.connections 1).hasClosed = false ∧
      (accept passDone).after.clear.server.connectionsAwaitingSchedule = [] ∧
      (accept passDone).after.clear.reads 1 = 0 ∧
      ¬ (accept passDone).after.clear.Served := by
  have hnone : (firstStarted initialWorld.factory).unstarted = [] := rfl
  have hdone : History Step initialService _ passDone :=
    .step (firstStarted_run _) (.exitLoop _ rfl hnone)
  have hrun : History Step initialService _ (accept passDone).after := .step hdone (.accepted ..)
  have hmade : (accept passDone).after.clear.connectionsMade = [0, 1] := rfl
  have hmem : 1 ∈ (accept passDone).after.clear.connectionsMade := by
    rw [hmade]
    exact List.mem_cons_of_mem _ List.mem_cons_self
  refine ⟨⟨_, .step hrun (.clear _ rfl)⟩, hmem, rfl, rfl, rfl, ?_⟩
  intro h
  rcases h 1 hmem rfl with hwait | hreads
  · exact absurd hwait List.not_mem_nil
  · exact absurd hreads Nat.zero_ne_one

end Service
end SocketCPlusPlus.Socket
