import SocketCPlusPlus.Packets.Serialize

/-! The state machine that opens a connection. Its two roles exchange one handshake: a
sentinel, the role's id and the library's id. -/
namespace SocketCPlusPlus.Common
open Foundation Packets

/-- What `strcpy_s` leaves behind once its parameter check has returned: a string that does
not fit becomes the empty one. -/
def strcpyS (data : Memory) (dest : Nat) (destSize : Int) (src : List UInt8) : Memory :=
  if src.length < destSize then data.store dest (src ++ [0])
  else if 0 < destSize then data.store dest [0]
  else data

/-- The first difference of a string and the bytes at an address. -/
def strncmp : List UInt8 → Memory → Nat → Nat → Int
  | _, _, _, 0 => 0
  | [], data, ptr, _+1 => -(data ptr).toNat
  | c :: src, data, ptr, n+1 =>
    if c = data ptr then strncmp src data (ptr + 1) n else c.toNat - (data ptr).toNat

theorem strncmp_eq_zero_iff (src : List UInt8) (data : Memory) (ptr : Nat) :
    strncmp src data ptr src.length = 0 ↔ data.load ptr src.length = src := by
  induction src generalizing ptr with
  | nil => exact iff_of_true rfl rfl
  | cons c src ih =>
    rw [List.length_cons, strncmp, Store.load, List.cons.injEq]
    split
    · next h => rw [ih, h, eq_self, true_and]
    · next h =>
      have hne : c.toNat ≠ (data ptr).toNat := fun he => h (UInt8.toNat_inj.mp he)
      exact iff_of_false (by omega) fun he => h he.1.symm

inductive CommsState where
  | sendHandshake | sendConnectionId | sendConnectionPolicies | sendChannels | sendTopology
  | normalSend | connectionFailed
  deriving DecidableEq, Repr

structure CommsStateMachine where
  currentState : CommsState
  iniates : Bool
  hasSentState : Bool
  deriving DecidableEq, Repr

namespace CommsStateMachine

def serverId : UInt8 := 0x08
def clientId : UInt8 := 0x04
def sentinel : UInt8 := 0xAA

/-- The text IOIC. -/
def uniqueLibraryId : List UInt8 := [73, 79, 73, 67]

def new (isServer : Bool) : CommsStateMachine where
  currentState := .sendHandshake
  iniates := !isServer
  hasSentState := false

def fail (m : CommsStateMachine) : CommsStateMachine :=
  { m with currentState := .connectionFailed }

def writeProtocolSentinel (m : CommsStateMachine) (data : Memory) (buffer : Nat) : Memory × Nat :=
  let data := data.store buffer [sentinel]
  let data := data.store (buffer + 1) [if m.iniates then clientId else serverId]
  (data, buffer + 2)

def readProtocolSentinel (m : CommsStateMachine) (data : Memory) (buffer : Nat) :
    Bool × Nat × CommsStateMachine :=
  let val1 := data buffer
  let val2 := data (buffer + 1)
  if val1 ≠ sentinel then (false, buffer + 2, m.fail)
  else if m.iniates then
    if val2 ≠ serverId then (false, buffer + 2, m.fail) else (true, buffer + 2, m)
  else if val2 ≠ clientId then (false, buffer + 2, m.fail)
  else (true, buffer + 2, m)

/-- The results are the returned flag, `bytesUsed`, the buffer and the machine. -/
def dataSend (m : CommsStateMachine) (data : Memory) (numBytes : Int) :
    Bool × Nat × Memory × CommsStateMachine :=
  if m.currentState = .sendHandshake then
    if numBytes < 6 then (false, 0, data, m.fail)
    else
      let (data, buffer) := m.writeProtocolSentinel data 0
      let data := strcpyS data buffer (numBytes - 2) uniqueLibraryId
      (true, 6, data, { m with hasSentState := true })
  else (true, 0, data, m)

def dataReceive (m : CommsStateMachine) (data : Memory) (numBytes : Int) :
    Bool × CommsStateMachine :=
  if m.currentState = .sendHandshake then
    if numBytes < 6 then (false, m.fail)
    else
      match m.readProtocolSentinel data 0 with
      | (false, _, m) => (false, m)
      | (true, buffer, m) =>
        if strncmp uniqueLibraryId data buffer uniqueLibraryId.length ≠ 0 then (false, m.fail)
        else if m.iniates then (true, { m with currentState := .sendConnectionId })
        else (true, { m with currentState := .sendConnectionId, hasSentState := false })
  else (true, m)

def readyToSend (m : CommsStateMachine) : Bool := !m.hasSentState

def isExpectingReceive (_ : CommsStateMachine) : Bool := true

def handshake (iniates : Bool) : List UInt8 :=
  [sentinel, if iniates then clientId else serverId] ++ uniqueLibraryId

@[simp] theorem handshake_length (iniates : Bool) : (handshake iniates).length = 6 := rfl

theorem dataSend_handshake {m : CommsStateMachine} (data : Memory) {numBytes : Int}
    (h : m.currentState = .sendHandshake) (hn : 6 < numBytes) :
    m.dataSend data numBytes = (true, 6, data.store 0 (handshake m.iniates ++ [0]),
      { m with hasSentState := true }) := by
  have hfits : (uniqueLibraryId.length : Int) < numBytes - 2 := by
    simp only [uniqueLibraryId, List.length_cons, List.length_nil]
    omega
  have hsplit : handshake m.iniates ++ [0] =
      ([sentinel] ++ [if m.iniates then clientId else serverId]) ++ (uniqueLibraryId ++ [0]) := rfl
  rw [dataSend, if_pos h, if_neg (by omega)]
  simp only [writeProtocolSentinel, strcpyS, if_pos hfits]
  rw [hsplit, Store.store_append data 0 (_ ++ _), Store.store_append data 0 [sentinel]]
  rfl

theorem dataSend_idle {m : CommsStateMachine} (data : Memory) (numBytes : Int)
    (h : m.currentState ≠ .sendHandshake) : m.dataSend data numBytes = (true, 0, data, m) := by
  rw [dataSend, if_neg h]

theorem load_handshake_iff (data : Memory) (iniates : Bool) :
    data.load 0 6 = handshake iniates ↔
      data 0 = sentinel ∧ data 1 = (if iniates then clientId else serverId) ∧
        strncmp uniqueLibraryId data 2 uniqueLibraryId.length = 0 := by
  rw [strncmp_eq_zero_iff, Store.load_add data 0 2 4, handshake]
  constructor
  · intro hload
    obtain ⟨hhead, htext⟩ := List.append_inj hload rfl
    exact ⟨(List.cons.inj hhead).1, (List.cons.inj (List.cons.inj hhead).2).1, htext⟩
  · rintro ⟨hval1, hval2, htext⟩
    rw [← hval1, ← hval2, ← htext]
    rfl

/-- The other role's handshake is accepted; the server gets ready to send again. -/
theorem dataReceive_handshake {m : CommsStateMachine} {data : Memory} {numBytes : Int}
    (h : m.currentState = .sendHandshake) (hn : 6 ≤ numBytes)
    (hdata : data.load 0 6 = handshake (!m.iniates)) :
    m.dataReceive data numBytes = (true, { m with
      currentState := .sendConnectionId
      hasSentState := m.iniates && m.hasSentState }) := by
  obtain ⟨hval1, hval2, htext⟩ := (load_handshake_iff _ _).mp hdata
  rw [dataReceive, if_pos h, if_neg (by omega)]
  cases hrole : m.iniates <;>
    simp [readProtocolSentinel, hval1, hval2, hrole, htext]

/-- Every other first message makes the machine fail. -/
theorem dataReceive_refused {m : CommsStateMachine} {data : Memory} {numBytes : Int}
    (h : m.currentState = .sendHandshake)
    (hdata : numBytes < 6 ∨ data.load 0 6 ≠ handshake (!m.iniates)) :
    m.dataReceive data numBytes = (false, m.fail) := by
  rw [dataReceive, if_pos h]
  by_cases hn : numBytes < 6
  · rw [if_pos hn]
  · have hload := mt (load_handshake_iff data (!m.iniates)).mpr (hdata.resolve_left hn)
    rw [if_neg hn]
    by_cases hval1 : data 0 = sentinel
    · by_cases hval2 : data 1 = if !m.iniates then clientId else serverId
      · have htext : strncmp uniqueLibraryId data 2 uniqueLibraryId.length ≠ 0 :=
          fun hzero => hload ⟨hval1, hval2, hzero⟩
        cases hrole : m.iniates <;>
          simp [readProtocolSentinel, hval1, hval2, hrole, htext]
      · cases hrole : m.iniates <;> rw [hrole] at hval2 <;>
          simp [readProtocolSentinel, hval1, hrole] at hval2 ⊢ <;> simp [hval2]
    · simp [readProtocolSentinel, hval1]

theorem dataReceive_idle {m : CommsStateMachine} (data : Memory) (numBytes : Int)
    (h : m.currentState ≠ .sendHandshake) : m.dataReceive data numBytes = (true, m) := by
  rw [dataReceive, if_neg h]

end CommsStateMachine
end SocketCPlusPlus.Common
