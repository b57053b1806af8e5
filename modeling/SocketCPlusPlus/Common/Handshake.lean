import SocketCPlusPlus.Common.CommsStateMachine

/-! A client and a server machine joined by datagrams in flight, in any order of sends and
deliveries. Neither ever fails, but a machine that receives before it has sent never sends:
the two end in agreement exactly if nothing was delivered that early. -/
namespace SocketCPlusPlus.Common
open Foundation Packets CommsStateMachine

/-- Indexed by `isServer`; a datagram in flight is filed under the side it goes to. -/
structure Link where
  machine : Bool → CommsStateMachine
  inFlight : Bool → List (List UInt8)

namespace Link

def start : Link where
  machine := .new
  inFlight _ := []

/-- A side calls `DataSend` on its buffer; the bytes used go to the other side. -/
def send (l : Link) (side : Bool) (buffer : Memory) : Link :=
  let (_, bytesUsed, buffer, m) := (l.machine side).dataSend buffer 1024
  { machine := Function.update l.machine side m
    inFlight :=
      if 0 < bytesUsed then
        Function.update l.inFlight (!side) (l.inFlight (!side) ++ [buffer.load 0 bytesUsed])
      else l.inFlight }

/-- A side receives a datagram with its own length; the rest stays in flight. -/
def deliver (l : Link) (side : Bool) (buffer : Memory) (length : Nat)
    (rest : List (List UInt8)) : Link where
  machine := Function.update l.machine side ((l.machine side).dataReceive buffer length).2
  inFlight := Function.update l.inFlight side rest

/-- Nothing is in flight, and no machine ready to send would produce bytes. -/
def Quiescent (l : Link) : Prop :=
  ∀ side, l.inFlight side = [] ∧ ((l.machine side).readyToSend → ∀ buffer,
    ((l.machine side).dataSend buffer 1024).2.1 = 0)

end Link

/-- The runs from the start. The flag tells whether every delivery so far was to a machine
that had sent its own handshake. -/
inductive Run : Bool → Link → Prop
  | start : Run true .start
  | send {answered : Bool} {l : Link} (side : Bool) (buffer : Memory) :
      (l.machine side).readyToSend → Run answered l → Run answered (l.send side buffer)
  | deliver {answered : Bool} {l : Link} (side : Bool) (buffer : Memory)
      (datagram : List UInt8) (before after : List (List UInt8)) :
      l.inFlight side = before ++ datagram :: after →
      buffer.load 0 datagram.length = datagram → Run answered l →
      Run (answered && (l.machine side).hasSentState)
        (l.deliver side buffer datagram.length (before ++ after))

/-- How far a side's handshake has come. -/
inductive Progress where
  | unsent | inFlight | received
  deriving DecidableEq, Repr

/-- What the link's state is, given how far each side's handshake has come. -/
structure Tracks (l : Link) (answered : Bool) (progress : Bool → Progress) : Prop where
  role : ∀ side, (l.machine side).iniates = !side
  flight : ∀ side, l.inFlight side = if progress (!side) = .inFlight then [handshake side] else []
  state : ∀ side, (l.machine side).currentState =
    if progress (!side) = .received then .sendConnectionId else .sendHandshake
  sent : ∀ side, progress (!side) ≠ .received →
    ((l.machine side).hasSentState = true ↔ progress side ≠ .unsent)
  answered : answered = true ↔ ∀ side, progress (!side) = .received → progress side ≠ .unsent

theorem Link.send_handshake {l : Link} {side : Bool} (buffer : Memory)
    (h : (l.machine side).currentState = .sendHandshake) :
    l.send side buffer =
      { machine := Function.update l.machine side { l.machine side with hasSentState := true }
        inFlight := Function.update l.inFlight (!side)
          (l.inFlight (!side) ++ [handshake (l.machine side).iniates]) } := by
  have hload : (buffer.store 0 (handshake (l.machine side).iniates ++ [0])).load 0 6 =
      handshake (l.machine side).iniates := Store.load_store_prefix ..
  rw [send, dataSend_handshake buffer h (by omega)]
  simp only [Nat.zero_lt_succ, if_true, hload]

theorem Link.send_idle {l : Link} {side : Bool} (buffer : Memory)
    (h : (l.machine side).currentState ≠ .sendHandshake) : l.send side buffer = l := by
  rw [send, dataSend_idle buffer 1024 h]
  simp only [Nat.lt_irrefl, if_false, Function.update_eq_self]

theorem Link.deliver_handshake {l : Link} {side : Bool} {buffer : Memory}
    {rest : List (List UInt8)} (h : (l.machine side).currentState = .sendHandshake)
    (hload : buffer.load 0 6 = handshake (!(l.machine side).iniates)) :
    l.deliver side buffer 6 rest =
      { machine := Function.update l.machine side { l.machine side with
          currentState := .sendConnectionId
          hasSentState := (l.machine side).iniates && (l.machine side).hasSentState }
        inFlight := Function.update l.inFlight side rest } := by
  rw [deliver, dataReceive_handshake h (by omega) hload]

namespace Tracks
variable {l : Link} {answered : Bool} {progress : Bool → Progress}

theorem of_start : Tracks .start true fun _ => .unsent where
  role _ := rfl
  flight _ := rfl
  state _ := rfl
  sent _ _ := iff_of_false Bool.false_ne_true (fun h => h rfl)
  answered := by decide

theorem role_update (h : Tracks l answered progress) {side : Bool} {machine : CommsStateMachine}
    (hmachine : machine.iniates = (l.machine side).iniates) (side' : Bool) :
    (Function.update l.machine side machine side').iniates = !side' := by
  by_cases hside : side' = side
  · rw [hside, Function.update_self, hmachine, h.role]
  · rw [Function.update_of_ne hside, h.role]

theorem send (h : Tracks l answered progress) {side : Bool} (buffer : Memory)
    (hready : (l.machine side).readyToSend) (hopen : progress (!side) ≠ .received) :
    Tracks (l.send side buffer) answered (Function.update progress side .inFlight) := by
  have hunsent : progress side = .unsent := by
    by_contra hsent
    have hflag := (h.sent side hopen).mpr hsent
    rw [readyToSend, hflag] at hready
    cases hready
  have hempty : l.inFlight (!side) = [] := by
    rw [h.flight, Bool.not_not, hunsent]
    rfl
  rw [Link.send_handshake buffer ((h.state side).trans (if_neg hopen)), hempty, h.role]
  have hne := Bool.not_ne_self side
  constructor
  · exact h.role_update rfl
  · refine (Bool.forall_bool' side).mpr ⟨?_, ?_⟩
    · simp only [Function.update_of_ne hne, Function.update_of_ne hne.symm, h.flight]
    · simp only [Function.update_self, Bool.not_not, List.nil_append, if_true]
  · refine (Bool.forall_bool' side).mpr ⟨?_, ?_⟩
    · simp only [Function.update_self, Function.update_of_ne hne, h.state]
    · simp only [Function.update_of_ne hne, Bool.not_not, Function.update_self, h.state, hunsent,
        reduceCtorEq, if_false]
  · refine (Bool.forall_bool' side).mpr ⟨?_, ?_⟩
    · simp [Function.update_self]
    · simp only [Function.update_of_ne hne, Bool.not_not]
      exact fun _ => h.sent (!side) (by rw [Bool.not_not, hunsent]; exact Progress.noConfusion)
  · apply h.answered.trans
    rw [Bool.forall_bool' side, Bool.forall_bool' side]
    simp [hopen, hunsent]

theorem deliver (h : Tracks l answered progress) {side : Bool} {buffer : Memory}
    {datagram : List UInt8} {before after : List (List UInt8)}
    (hflight : l.inFlight side = before ++ datagram :: after)
    (hload : buffer.load 0 datagram.length = datagram) :
    Tracks (l.deliver side buffer datagram.length (before ++ after))
      (answered && (l.machine side).hasSentState)
      (Function.update progress (!side) .received) := by
  have hpeer : progress (!side) = .inFlight := by
    by_contra hno
    rw [h.flight, if_neg hno] at hflight
    exact List.append_ne_nil_of_right_ne_nil before (List.cons_ne_nil _ _) hflight.symm
  have hopen : progress (!side) ≠ .received := by rw [hpeer]; exact Progress.noConfusion
  rw [h.flight, if_pos hpeer] at hflight
  obtain ⟨rfl, rfl, rfl⟩ : before = [] ∧ datagram = handshake side ∧ after = [] := by
    rcases before with _ | ⟨first, before⟩
    · cases hflight
      exact ⟨rfl, rfl, rfl⟩
    · cases before <;> cases hflight
  have hrole : handshake (!(l.machine side).iniates) = handshake side := by
    rw [h.role, Bool.not_not]
  rw [handshake_length] at hload ⊢
  rw [Link.deliver_handshake ((h.state side).trans (if_neg hopen)) (hload.trans hrole.symm)]
  have hne := Bool.not_ne_self side
  have hsent := h.sent side hopen
  constructor
  · exact h.role_update rfl
  · refine (Bool.forall_bool' side).mpr ⟨?_, ?_⟩
    · simp [Function.update_self]
    · simp only [Function.update_of_ne hne, Bool.not_not, Function.update_of_ne hne.symm, h.flight]
  · refine (Bool.forall_bool' side).mpr ⟨?_, ?_⟩
    · simp only [Function.update_self, if_true]
    · simp only [Function.update_of_ne hne, Bool.not_not, Function.update_of_ne hne.symm, h.state]
  · refine (Bool.forall_bool' side).mpr ⟨?_, ?_⟩
    · simp [Function.update_self]
    · simp only [Function.update_of_ne hne, Function.update_of_ne hne.symm, Bool.not_not,
        Function.update_self]
      intro hside
      have hpeerSent := h.sent (!side) (by rwa [Bool.not_not])
      simp [hpeerSent, hpeer]
  · have hall : answered = true := by
      rw [h.answered, Bool.forall_bool' side]
      simp [hpeer]
    rw [hall, Bool.true_and, hsent, Bool.forall_bool' side]
    simp

end Tracks

theorem tracks_of_run {answered : Bool} {l : Link} (h : Run answered l) :
    ∃ progress, Tracks l answered progress := by
  induction h with
  | start => exact ⟨_, Tracks.of_start⟩
  | @send answered l side buffer hready hrun ih =>
    obtain ⟨progress, ht⟩ := ih
    by_cases hopen : progress (!side) = .received
    · rw [Link.send_idle buffer (by rw [ht.state, if_pos hopen]; exact CommsState.noConfusion)]
      exact ⟨progress, ht⟩
    · exact ⟨_, ht.send buffer hready hopen⟩
  | deliver side buffer datagram before after hflight hload hrun ih =>
    obtain ⟨progress, ht⟩ := ih
    exact ⟨_, ht.deliver hflight hload⟩

private theorem quiet_sides {l : Link} {answered : Bool} {progress : Bool → Progress}
    (h : Tracks l answered progress) (hquiet : l.Quiescent) (side : Bool) :
    progress side ≠ .inFlight ∧ (progress (!side) ≠ .received → progress side ≠ .unsent) := by
  constructor
  · intro hflight
    have hnone := (hquiet (!side)).1
    rw [h.flight, Bool.not_not, if_pos hflight] at hnone
    exact List.cons_ne_nil _ _ hnone
  · intro hopen hunsent
    have hready : (l.machine side).readyToSend := by
      have hflag := mt (h.sent side hopen).mp (fun hne => hne hunsent)
      rw [readyToSend, Bool.eq_false_of_not_eq_true hflag]
      rfl
    have hbytes := (hquiet side).2 hready fun _ => 0
    rw [dataSend_handshake _ ((h.state side).trans (if_neg hopen)) (by omega)] at hbytes
    cases hbytes

/-- No run makes a machine fail, and a run that ends in quiet has brought both machines past
the handshake exactly if every delivery was to a machine that had sent its own. -/
theorem handshake_agreement {answered : Bool} {l : Link} (h : Run answered l) :
    (∀ side, (l.machine side).currentState ≠ .connectionFailed) ∧
      (l.Quiescent →
        ((∀ side, (l.machine side).currentState ≠ .sendHandshake) ↔ answered = true)) := by
  obtain ⟨progress, ht⟩ := tracks_of_run h
  constructor
  · intro side
    rw [ht.state]
    split <;> exact CommsState.noConfusion
  · intro hquiet
    have hleft : ∀ side, (l.machine side).currentState ≠ .sendHandshake ↔
        progress (!side) = .received := by
      intro side
      rw [ht.state]
      split
      · next hr => exact iff_of_true CommsState.noConfusion hr
      · next hr => exact iff_of_false (fun hne => hne rfl) hr
    simp only [hleft]
    rw [ht.answered]
    constructor
    · intro hall side _
      have hside := hall (!side)
      rw [Bool.not_not] at hside
      rw [hside]
      exact Progress.noConfusion
    · intro hanswered side
      have harrived : ∀ sender, progress sender = .received := by
        intro sender
        obtain ⟨hflight, hopen⟩ := quiet_sides ht hquiet sender
        have hsent : progress sender ≠ .unsent := by
          by_cases hreceived : progress (!sender) = .received
          · exact hanswered sender hreceived
          · exact hopen hreceived
        cases hp : progress sender with
        | unsent => exact absurd hp hsent
        | inFlight => exact absurd hp hflight
        | received => rfl
      exact harrived (!side)

abbrev sampleBuffer : Memory := fun _ => 0
abbrev sampleReceived (side : Bool) : Memory := Store.store sampleBuffer 0 (handshake side)

/-- Both sides send before either receives. -/
abbrev agreedLink : Link :=
  (((Link.start.send false sampleBuffer).send true sampleBuffer).deliver true
    (sampleReceived true) 6 []).deliver false (sampleReceived false) 6 []

theorem agreed_run : Run true agreedLink :=
  .deliver false (sampleReceived false) (handshake false) [] [] rfl rfl <|
    .deliver true (sampleReceived true) (handshake true) [] [] rfl rfl <|
      .send true sampleBuffer rfl <| .send false sampleBuffer rfl .start

theorem sample_agreement :
    (∀ side, (agreedLink.machine side).currentState ≠ .connectionFailed) ∧
      (agreedLink.Quiescent →
        ((∀ side, (agreedLink.machine side).currentState ≠ .sendHandshake) ↔ true = true)) :=
  handshake_agreement agreed_run

/-- The server receives the client's handshake before it has sent its own. -/
abbrev earlyLink : Link :=
  (Link.start.send false sampleBuffer).deliver true (sampleReceived true) 6 []

/-- It never answers, and the client waits for ever. -/
theorem early_receipt_no_agreement :
    Run false earlyLink ∧ earlyLink.Quiescent ∧
      (earlyLink.machine false).currentState = .sendHandshake := by
  refine ⟨.deliver true (sampleReceived true) (handshake true) [] [] rfl rfl
    (.send false sampleBuffer rfl .start), ?_, rfl⟩
  intro side
  cases side with
  | false => exact ⟨rfl, fun hready => absurd hready Bool.false_ne_true⟩
  | true => exact ⟨rfl, fun _ _ => rfl⟩

end SocketCPlusPlus.Common
