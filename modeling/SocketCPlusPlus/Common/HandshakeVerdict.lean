import SocketCPlusPlus.Common.CommsStateMachine

/-! What a machine makes of the messages it is given: the first one decides, and nothing
changes the verdict afterwards. What the other role has written is accepted, unless its buffer
had no room for the terminator. -/
namespace SocketCPlusPlus.Common
open Foundation Packets

/-- A call on the machine, with the buffer it is given. -/
inductive Call where
  | dataSend (buffer : Memory) (numBytes : Int)
  | dataReceive (buffer : Memory) (numBytes : Int)

namespace Call

def IsReceive : Call → Prop
  | dataSend _ _ => False
  | dataReceive _ _ => True

/-- A buffer handed to `DataSend` has room for the handshake and its terminator. -/
def Roomy : Call → Prop
  | dataSend _ numBytes => 7 ≤ numBytes
  | dataReceive _ _ => True

end Call

namespace CommsStateMachine

def call (m : CommsStateMachine) : Call → CommsStateMachine
  | .dataSend buffer numBytes => (m.dataSend buffer numBytes).2.2.2
  | .dataReceive buffer numBytes => (m.dataReceive buffer numBytes).2

/-- Whether a first message is the other role's handshake. -/
def Accepts (iniates : Bool) (buffer : Memory) (numBytes : Int) : Prop :=
  6 ≤ numBytes ∧ buffer.load 0 6 = handshake (!iniates)

instance (iniates : Bool) (buffer : Memory) (numBytes : Int) :
    Decidable (Accepts iniates buffer numBytes) :=
  inferInstanceAs (Decidable (_ ∧ _))

/-- What a machine that waits for the handshake becomes with its first message. -/
def verdict (m : CommsStateMachine) (buffer : Memory) (numBytes : Int) : CommsStateMachine :=
  if Accepts m.iniates buffer numBytes then
    { m with currentState := .sendConnectionId, hasSentState := m.iniates && m.hasSentState }
  else m.fail

theorem dataReceive_verdict {m : CommsStateMachine} (buffer : Memory) (numBytes : Int)
    (h : m.currentState = .sendHandshake) :
    (m.dataReceive buffer numBytes).2 = m.verdict buffer numBytes := by
  by_cases haccepts : Accepts m.iniates buffer numBytes
  · rw [verdict, if_pos haccepts, dataReceive_handshake h haccepts.1 haccepts.2]
  · rw [verdict, if_neg haccepts]
    have hrefused := (Decidable.not_and_iff_not_or_not.mp haccepts).imp_left Int.not_le.mp
    rw [dataReceive_refused h hrefused]

theorem verdict_currentState (m : CommsStateMachine) (buffer : Memory) (numBytes : Int) :
    (m.verdict buffer numBytes).currentState =
      if Accepts m.iniates buffer numBytes then .sendConnectionId else .connectionFailed := by
  unfold verdict
  split <;> rfl

theorem verdict_ne_sendHandshake (m : CommsStateMachine) (buffer : Memory) (numBytes : Int) :
    (m.verdict buffer numBytes).currentState ≠ .sendHandshake := by
  rw [verdict_currentState]
  split <;> exact CommsState.noConfusion

theorem call_dataSend {m : CommsStateMachine} (buffer : Memory) {numBytes : Int}
    (hn : 7 ≤ numBytes) :
    (m.call (.dataSend buffer numBytes)).currentState = m.currentState ∧
      (m.call (.dataSend buffer numBytes)).iniates = m.iniates := by
  by_cases h : m.currentState = .sendHandshake
  · rw [call, dataSend_handshake buffer h (by omega)]
    exact ⟨rfl, rfl⟩
  · rw [call, dataSend_idle buffer numBytes h]
    exact ⟨rfl, rfl⟩

theorem calls_idle {m : CommsStateMachine} (calls : List Call)
    (h : m.currentState ≠ .sendHandshake) : calls.foldl call m = m := by
  induction calls with
  | nil => rfl
  | cons c calls ih =>
    have hkept : m.call c = m := by
      cases c with
      | dataSend buffer numBytes => rw [call, dataSend_idle buffer numBytes h]
      | dataReceive buffer numBytes => rw [call, dataReceive_idle buffer numBytes h]
    rw [List.foldl_cons, hkept, ih]

theorem calls_waiting {m : CommsStateMachine} (calls : List Call)
    (hroomy : ∀ c ∈ calls, c.Roomy) (hsends : ∀ c ∈ calls, ¬ c.IsReceive) :
    (calls.foldl call m).currentState = m.currentState ∧
      (calls.foldl call m).iniates = m.iniates := by
  induction calls generalizing m with
  | nil => exact ⟨rfl, rfl⟩
  | cons c calls ih =>
    rw [List.forall_mem_cons] at hroomy hsends
    obtain ⟨hstate, hrole⟩ := ih (m := m.call c) hroomy.2 hsends.2
    cases c with
    | dataSend buffer numBytes =>
      obtain ⟨hstate', hrole'⟩ := call_dataSend (m := m) buffer hroomy.1
      exact ⟨hstate.trans hstate', hrole.trans hrole'⟩
    | dataReceive buffer numBytes => exact absurd trivial hsends.1

/-- A machine waits for its first message and then accepts it or fails, for good: it accepts
exactly the sentinel, the other role's id and the library's text. -/
theorem handshake_decided_once (isServer : Bool) (before : List Call)
    (hroomy : ∀ c ∈ before, c.Roomy) (hsends : ∀ c ∈ before, ¬ c.IsReceive) :
    (before.foldl call (new isServer)).currentState = .sendHandshake ∧
      ∀ (buffer : Memory) (numBytes : Int) (after : List Call),
        ((before ++ .dataReceive buffer numBytes :: after).foldl call (new isServer)).currentState =
          if 6 ≤ numBytes ∧
              buffer.load 0 6 = [0xAA, if isServer then 0x04 else 0x08] ++ uniqueLibraryId
          then .sendConnectionId else .connectionFailed := by
  obtain ⟨hstate, hrole⟩ := calls_waiting (m := new isServer) before hroomy hsends
  refine ⟨hstate, ?_⟩
  intro buffer numBytes after
  have hfirst := dataReceive_verdict buffer numBytes hstate
  have hother : handshake (!(new isServer).iniates) =
      [0xAA, if isServer then 0x04 else 0x08] ++ uniqueLibraryId := by
    cases isServer <;> rfl
  rw [List.foldl_append, List.foldl_cons, call, hfirst,
    calls_idle after (verdict_ne_sendHandshake _ _ _), verdict_currentState, hrole]
  exact if_congr (by rw [Accepts, hother]) rfl rfl

theorem sample_decided :
    let before : List Call := [.dataSend (fun _ => 0) 7]
    (before.foldl call (new true)).currentState = .sendHandshake ∧
      ∀ (buffer : Memory) (numBytes : Int) (after : List Call),
        ((before ++ .dataReceive buffer numBytes :: after).foldl call (new true)).currentState =
          if 6 ≤ numBytes ∧
              buffer.load 0 6 = [0xAA, if true then 0x04 else 0x08] ++ uniqueLibraryId
          then .sendConnectionId else .connectionFailed :=
  handshake_decided_once true [.dataSend (fun _ => 0) 7]
    (List.forall_mem_singleton.mpr (Int.le_refl 7)) (List.forall_mem_singleton.mpr id)

/-! Buffers of any size. -/

theorem dataSend_short {m : CommsStateMachine} (data : Memory) {numBytes : Int}
    (h : m.currentState = .sendHandshake) (hn : numBytes < 6) :
    m.dataSend data numBytes = (false, 0, data, m.fail) := by
  rw [dataSend, if_pos h, if_pos hn]

/-- The guard lets a buffer of six bytes pass, which the text and its terminator do not fit. -/
theorem dataSend_tight {m : CommsStateMachine} (data : Memory)
    (h : m.currentState = .sendHandshake) : m.dataSend data 6 =
      (true, 6, data.store 0 [sentinel, if m.iniates then clientId else serverId, 0],
        { m with hasSentState := true }) := by
  have hsplit : [sentinel, if m.iniates then clientId else serverId, 0] =
      ([sentinel] ++ [if m.iniates then clientId else serverId]) ++ [0] := rfl
  rw [hsplit, Store.store_append data 0 (_ ++ _), Store.store_append data 0 [sentinel], dataSend,
    if_pos h]
  rfl

/-- What a send reports fits its buffer, nothing behind the buffer is written, and the other role
accepts the bytes used. A send that fails leaves the buffer alone. -/
def WritesAccepted (m : CommsStateMachine) (data : Memory) (numBytes : Int) : Prop :=
  match m.dataSend data numBytes with
  | (true, bytesUsed, buffer, _) =>
    (bytesUsed : Int) ≤ numBytes ∧ (∀ i : Nat, numBytes ≤ i → buffer i = data i) ∧
      ∀ (peer : CommsStateMachine) (received : Memory), peer.currentState = .sendHandshake →
        peer.iniates = !m.iniates → received.load 0 bytesUsed = buffer.load 0 bytesUsed →
        (peer.dataReceive received bytesUsed).2.currentState = .sendConnectionId
  | (false, _, buffer, _) => buffer = data

theorem writesAccepted_roomy {m : CommsStateMachine} (data : Memory) {numBytes : Int}
    (h : m.currentState = .sendHandshake) (hn : 6 < numBytes) :
    m.WritesAccepted data numBytes := by
  rw [WritesAccepted, dataSend_handshake data h hn]
  refine ⟨by omega, ?_, ?_⟩
  · intro i hi
    apply Store.store_after
    rw [List.length_append, handshake_length, List.length_singleton]
    omega
  · intro peer received hpeer hrole hreceived
    have hload : received.load 0 6 = handshake (!peer.iniates) := by
      rw [hreceived, hrole, Bool.not_not]
      exact Store.load_store_prefix ..
    rw [dataReceive_handshake hpeer (by omega) hload]

theorem not_writesAccepted_tight {m : CommsStateMachine} (data : Memory)
    (h : m.currentState = .sendHandshake) : ¬ m.WritesAccepted data 6 := by
  rw [WritesAccepted, dataSend_tight data h]
  rintro ⟨-, -, haccepted⟩
  have hstate := haccepted (new m.iniates) _ rfl rfl rfl
  -- the third byte is the empty string's terminator, not the text's first letter
  rw [dataReceive_refused rfl (Or.inr ?_)] at hstate
  · cases hstate
  · intro hload
    have hthird := congrArg (fun bytes : List UInt8 => bytes[2]?) hload
    rw [Store.load_get _ _ _ _ (by decide), Store.store_get _ _ _ (Nat.lt_succ_self 2)] at hthird
    cases hthird

/-- Writer and reader agree for every buffer but one of exactly six bytes. -/
theorem writes_accepted_iff {m : CommsStateMachine} (h : m.currentState = .sendHandshake)
    (data : Memory) (numBytes : Int) : m.WritesAccepted data numBytes ↔ numBytes ≠ 6 := by
  constructor
  · rintro haccepted rfl
    exact not_writesAccepted_tight data h haccepted
  · intro hne
    rcases Int.lt_or_lt_of_ne hne with hshort | hroomy
    · rw [WritesAccepted, dataSend_short data h hshort]
    · exact writesAccepted_roomy data h hroomy

theorem sample_writes_accepted :
    (new false).WritesAccepted (fun _ => 7) 7 ↔ (7 : Int) ≠ 6 :=
  writes_accepted_iff rfl (fun _ => 7) 7

/-- In six bytes a client writes a message that a server refuses. -/
theorem tight_handshake_refused :
    ((new false).dataSend (fun _ => 7) 6).1 = true ∧
      (((new true).dataReceive ((new false).dataSend (fun _ => 7) 6).2.2.1 6).2.currentState =
        .connectionFailed) ∧
      ¬ (new false).WritesAccepted (fun _ => 7) 6 := by
  refine ⟨rfl, ?_, not_writesAccepted_tight _ rfl⟩
  decide

end CommsStateMachine
end SocketCPlusPlus.Common
