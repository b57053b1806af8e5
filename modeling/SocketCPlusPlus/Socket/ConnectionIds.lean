import SocketCPlusPlus.Socket.TCPServer

/-! Whether ids tell connections apart. An id is the low half of a counter of the accepts begun,
failed ones included, so it comes back after 65536 of them. -/
namespace SocketCPlusPlus.Socket
open Foundation Packets

namespace Service

def Open (s : Service) (p : Nat) : Prop :=
  p ∈ s.connectionsMade ∧ (s.connections p).hasClosed = false

/-- Open connections have different ids. -/
def IdsUnique (s : Service) : Prop :=
  ∀ p q, p ≠ q → s.Open p → s.Open q →
    (s.connections p).connectionId ≠ (s.connections q).connectionId

/-- An accept succeeds only while no connection is open that was begun a multiple of 65536
accepts before it. -/
def AcceptsInTurn (s : Service) : Event → Prop
  | .accepted false _ => ∀ q, s.Open q → (s.accepting - q) % 65536 ≠ 0
  | _ => True

theorem Counted.ids_eq_iff {s : Service} (h : s.Counted) {p q : Nat} (hqp : q ≤ p)
    (hp : p < s.created) :
    (s.connections q).connectionId = (s.connections p).connectionId ↔ (p - q) % 65536 = 0 := by
  rw [h.ids p hp, h.ids q (Nat.lt_of_le_of_lt hqp hp), ← UInt16.toNat_inj, UInt16.toNat_ofNat',
    UInt16.toNat_ofNat']
  omega

namespace IdsUnique
variable {s s' : Service}

theorem of_open (h : s.IdsUnique) (hopen : ∀ p, s'.Open p → s.Open p)
    (hids : ∀ p, s.Open p → (s'.connections p).connectionId = (s.connections p).connectionId) :
    s'.IdsUnique := by
  intro p q hne hp hq
  rw [hids p (hopen p hp), hids q (hopen q hq)]
  exact h p q hne (hopen p hp) (hopen q hq)

/-- A step that changes one connection, but neither reopens it nor changes its id. -/
theorem of_setConnection (h : s.IdsUnique) {conn : Nat} {c : ServerConnection}
    (hopen : c.hasClosed = false → (s.connections conn).hasClosed = false)
    (hid : c.connectionId = (s.connections conn).connectionId)
    (hmade : s'.connectionsMade = s.connectionsMade)
    (hset : s'.connections = (s.setConnection conn c).connections) : s'.IdsUnique := by
  apply h.of_open
  · rintro p ⟨hp, hstill⟩
    refine ⟨hmade ▸ hp, ?_⟩
    rw [hset] at hstill
    by_cases he : p = conn
    · rw [he, setConnection_self] at hstill
      rw [he]
      exact hopen hstill
    · rwa [setConnection_other _ _ he] at hstill
  · intro p _
    rw [hset]
    by_cases he : p = conn
    · rw [he, setConnection_self, hid]
    · rw [setConnection_other _ _ he]

theorem accept_failed (h : s.IdsUnique) (hsound : s.Sound) (raw : ServerConnection) :
    (s.newConnectionAcceptedHandler true raw).IdsUnique := by
  have hold : ∀ p ∈ s.connectionsMade,
      (s.newConnectionAcceptedHandler true raw).connections p = s.connections p :=
    fun p hp => accepted_other (hsound.numbered.made p hp) true raw
  apply h.of_open
  · exact fun p hp => ⟨hp.1, (congrArg _ (hold p hp.1)).symm.trans hp.2⟩
  · exact fun p hp => congrArg _ (hold p hp.1)

theorem accepted_open (hsound : s.Sound) (raw : ServerConnection) (p : Nat) :
    (s.newConnectionAcceptedHandler false raw).Open p ↔ s.Open p ∨ p = s.accepting := by
  have hnumbered := hsound.numbered
  have hold : ∀ p < s.created,
      (s.newConnectionAcceptedHandler false raw).connections p = s.connections p :=
    fun p hp => accepted_other hp false raw
  change p ∈ s.connectionsMade ++ [s.accepting] ∧ _ ↔ _
  rw [List.mem_append, List.mem_singleton]
  constructor
  · rintro ⟨hp | hp, hopen⟩
    · rw [hold p (hnumbered.made p hp)] at hopen
      exact Or.inl ⟨hp, hopen⟩
    · exact Or.inr hp
  · rintro (hp | rfl)
    · exact ⟨Or.inl hp.1, (congrArg _ (hold p (hnumbered.made p hp.1))).trans hp.2⟩
    · exact ⟨Or.inr rfl, (congrArg _ (hold _ hnumbered.accepting_lt)).trans hnumbered.opened⟩

/-- A connection that is accepted keeps the ids apart exactly if it comes in its turn. -/
theorem accept_iff (h : s.IdsUnique) (hsound : s.Sound) (raw : ServerConnection) :
    (s.newConnectionAcceptedHandler false raw).IdsUnique ↔
      ∀ q, s.Open q → (s.accepting - q) % 65536 ≠ 0 := by
  have hnumbered := hsound.numbered
  have hlast := hnumbered.accepting_lt
  have hbefore : ∀ q, s.Open q → q < s.accepting := fun q hq => hnumbered.made_lt_accepting hq.1
  have hold : ∀ p < s.created,
      (s.newConnectionAcceptedHandler false raw).connections p = s.connections p :=
    fun p hp => accepted_other hp false raw
  have hids : ∀ q, s.Open q →
      ((s.connections q).connectionId ≠ (s.connections s.accepting).connectionId ↔
        (s.accepting - q) % 65536 ≠ 0) := fun q hq =>
    not_congr (hnumbered.toCounted.ids_eq_iff (Nat.le_of_lt (hbefore q hq)) hlast)
  have hopens := accepted_open hsound raw
  constructor
  · intro hunique q hq
    have hne := hunique q s.accepting (Nat.ne_of_lt (hbefore q hq)) ((hopens q).mpr (Or.inl hq))
      ((hopens _).mpr (Or.inr rfl))
    rw [hold q (Nat.lt_trans (hbefore q hq) hlast), hold _ hlast] at hne
    exact (hids q hq).mp hne
  · intro hturn p q hne hp hq
    rcases (hopens p).mp hp with hp | rfl <;> rcases (hopens q).mp hq with hq | rfl
    · rw [hold p (hnumbered.made p hp.1), hold q (hnumbered.made q hq.1)]
      exact h p q hne hp hq
    · rw [hold p (hnumbered.made p hp.1), hold _ hlast]
      exact (hids p hp).mpr (hturn p hp)
    · rw [hold q (hnumbered.made q hq.1), hold _ hlast]
      exact Ne.symm ((hids q hq).mpr (hturn q hq))
    · exact absurd rfl hne

end IdsUnique

/-- In a run the ids of open connections are different in every state exactly if every connection
is accepted in its turn. -/
theorem ids_unique_iff {factory : PacketMethodFactory Packet PacketClass UInt16}
    {memory : Nat → ServerConnection} {s : Service} {taken : List (Taken Service Event)}
    (h : History Step (start factory memory) taken s) :
    (∀ t ∈ taken, t.after.IdsUnique) ↔ ∀ t ∈ taken, t.before.AcceptsInTurn t.event := by
  apply History.always_iff (fun s => s.Sound ∧ s.IdsUnique) (fun _ _ s' => s'.IdsUnique)
    AcceptsInTurn ⟨Sound.start factory memory, fun p q _ hp => absurd hp.1 List.not_mem_nil⟩ _ h
  rintro s event s' ⟨hsound, hunique⟩ hstep
  have hsound' := hsound.step hstep
  suffices hiff : s'.IdsUnique ↔ s.AcceptsInTurn event from
    ⟨hiff, fun hunique' => ⟨hsound', hunique'⟩⟩
  cases hstep with
  | accepted error raw =>
    cases error with
    | true => exact iff_of_true (hunique.accept_failed hsound raw) trivial
    | false => exact hunique.accept_iff hsound raw
  | readCompleted conn bytes f c hreads hread =>
    exact iff_of_true (hunique.of_setConnection
      (c := { s.connections conn with toTCPConnection := c }) id rfl rfl rfl) trivial
  | readFailed conn hreads =>
    exact iff_of_true (hunique.of_setConnection (c := (s.connections conn).close)
      (fun hopen => absurd hopen.symm Bool.false_ne_true) rfl rfl rfl) trivial
  | startNext conn rest hexited hunstarted => exact iff_of_true hunique trivial
  | exitLoop hexited hunstarted => exact iff_of_true hunique trivial
  | clear hexited => exact iff_of_true hunique trivial
  | cleanup =>
    refine iff_of_true (hunique.of_open ?_ fun _ _ => rfl) trivial
    exact fun p hp => ⟨(List.mem_filter.mp hp.1).1, hp.2⟩
  | dequeMessage conn c f hmade hdeque =>
    obtain ⟨i, rest, -, rfl, -⟩ := ServerConnection.dequeMessage_some hdeque
    exact iff_of_true (hunique.of_setConnection
      (c := { s.connections conn with inwardPackets := rest }) id rfl rfl rfl) trivial

theorem sample_ids_unique :
    (∀ t ∈ passSteps initialWorld.factory, t.after.IdsUnique) ↔
      ∀ t ∈ passSteps initialWorld.factory, t.before.AcceptsInTurn t.event :=
  ids_unique_iff (pass_run _)

/-- The server after some accepts, none of which failed. -/
def accepts : Nat → Service
  | 0 => initialService
  | n + 1 => (accept (accepts n)).after

theorem accepts_run (n : Nat) : ∃ taken, History Step initialService taken (accepts n) := by
  induction n with
  | zero => exact ⟨[], .start⟩
  | succ n ih =>
    obtain ⟨taken, hrun⟩ := ih
    exact ⟨_, hrun.step (.accepted ..)⟩

theorem accepts_open (n : Nat) : (accepts n).accepting = n ∧ ∀ p < n, (accepts n).Open p := by
  induction n with
  | zero => exact ⟨rfl, fun p hp => absurd hp (Nat.not_lt_zero p)⟩
  | succ n ih =>
    obtain ⟨haccepting, hopen⟩ := ih
    obtain ⟨taken, hrun⟩ := accepts_run n
    have hnumbered := (Sound.of_run hrun).numbered
    have hcreated : (accepts n).created = n + 1 := by rw [hnumbered.last, haccepting]
    refine ⟨hcreated, fun p hp => ?_⟩
    have hold : (accepts (n + 1)).connections p = (accepts n).connections p :=
      accepted_other (hcreated ▸ hp) false sampleMemory
    rcases Nat.lt_succ_iff_lt_or_eq.mp hp with hlt | rfl
    · exact ⟨List.mem_append_left _ (hopen p hlt).1, (congrArg _ hold).trans (hopen p hlt).2⟩
    · have hopened := hnumbered.opened
      rw [haccepting] at hopened
      refine ⟨List.mem_append_right _ (List.mem_singleton.mpr haccepting.symm), ?_⟩
      exact (congrArg _ hold).trans hopened

/-- After 65537 accepts the first and the last connection are open and have the same id. -/
theorem first_id_returns :
    (∃ taken, History Step initialService taken (accepts 65537)) ∧
      (accepts 65537).Open 0 ∧ (accepts 65537).Open 65536 ∧
      ((accepts 65537).connections 0).connectionId =
        ((accepts 65537).connections 65536).connectionId ∧
      ¬ (accepts 65537).IdsUnique := by
  obtain ⟨taken, hrun⟩ := accepts_run 65537
  obtain ⟨haccepting, hopen⟩ := accepts_open 65537
  have hnumbered := (Sound.of_run hrun).numbered
  have hcreated : 65536 < (accepts 65537).created := by
    rw [hnumbered.last, haccepting]
    omega
  have hid := (hnumbered.toCounted.ids_eq_iff (Nat.zero_le 65536) hcreated).mpr rfl
  refine ⟨⟨taken, hrun⟩, hopen 0 (by omega), hopen 65536 (by omega), hid, ?_⟩
  exact fun h => h 0 65536 (by omega) (hopen 0 (by omega)) (hopen 65536 (by omega)) hid

end Service
end SocketCPlusPlus.Socket
