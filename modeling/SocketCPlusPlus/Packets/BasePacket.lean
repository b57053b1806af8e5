import SocketCPlusPlus.Packets.Serialize

/-! The packet base class and the connection packet, member by member in wire order.
The one padding byte is not serialised and is left out. -/
namespace SocketCPlusPlus.Packets
open Foundation SelfSerializable

inductive PacketType where
  | base | login | serverTick | networkProtocol | chat | userInfo | contact | asset
  | userStateChange | dbQuery | gameplay | gatewayWrapper | serverToServerWrapper
  | serverJobWrapper | serverInformation | gatewayInformation | errorReport | cheat | purchase
  | tournament | analytics | notification | invitation | userStats | num
  deriving DecidableEq, Repr

/-- An enumerator converts to its position. -/
def PacketType.toU8 (t : PacketType) : UInt8 := .ofNat t.ctorIdx

def networkVersionMajor : UInt8 := 51
def networkVersionMinor : UInt8 := 0

structure BasePacket where
  packetType : UInt8
  packetSubType : UInt8
  gameProductId : UInt8
  versionNumberMajor : UInt8
  versionNumberMinor : UInt8
  gameInstanceId : UInt16
  deriving DecidableEq, Repr

namespace BasePacket

inductive SubType where
  | type | hello | commsHandshake | rerouteRequest | rerouteRequestResponse | qos | testOnly
  | sizeWrapper
  deriving DecidableEq, Repr

def SubType.toU8 (t : SubType) : UInt8 := .ofNat t.ctorIdx

def new (packetType packetSubType : UInt8) : BasePacket where
  packetType := packetType
  packetSubType := packetSubType
  gameProductId := 0
  versionNumberMajor := networkVersionMajor
  versionNumberMinor := networkVersionMinor
  gameInstanceId := 0

protected def serializeIn (p : BasePacket) : Input (Bool × BasePacket) := do
  let packetType ← Serialize.In p.packetType
  let packetSubType ← Serialize.In p.packetSubType
  let versionNumberMajor ← Serialize.In p.versionNumberMajor
  let versionNumberMinor ← Serialize.In p.versionNumberMinor
  let gameProductId ← Serialize.In p.gameProductId
  let gameInstanceId ← Serialize.In p.gameInstanceId
  pure (true, { packetType, packetSubType, gameProductId, versionNumberMajor,
                versionNumberMinor, gameInstanceId })

protected def serializeOut (p : BasePacket) : Output Bool := do
  Serialize.Out p.packetType
  Serialize.Out p.packetSubType
  Serialize.Out p.versionNumberMajor
  Serialize.Out p.versionNumberMinor
  Serialize.Out p.gameProductId
  Serialize.Out p.gameInstanceId
  pure true

instance : SelfSerializable BasePacket where
  serializeIn := BasePacket.serializeIn
  serializeOut := BasePacket.serializeOut

end BasePacket

structure ConnectionCommsPacket extends BasePacket where
  connectionId : UInt16
  deriving DecidableEq, Repr

namespace ConnectionCommsPacket

/-- The constructor leaves the connection id as the memory held it. -/
def new (packetSubType : UInt8) (uninitialised : UInt16) : ConnectionCommsPacket where
  toBasePacket := .new PacketType.base.toU8 packetSubType
  connectionId := uninitialised

protected def serializeIn (p : ConnectionCommsPacket) : Input (Bool × ConnectionCommsPacket) := do
  let (_, base) ← serializeIn p.toBasePacket
  let connectionId ← Serialize.In p.connectionId
  pure (true, { toBasePacket := base, connectionId })

protected def serializeOut (p : ConnectionCommsPacket) : Output Bool := do
  let _ ← serializeOut p.toBasePacket
  Serialize.Out p.connectionId
  pure true

instance : SelfSerializable ConnectionCommsPacket where
  serializeIn := ConnectionCommsPacket.serializeIn
  serializeOut := ConnectionCommsPacket.serializeOut

end ConnectionCommsPacket

/-! Every packet class lays its members out in a body of fixed size. -/

/-- A class whose writer appends a body of fixed size and whose reader replaces every
member by what such a body says, whatever the members were. -/
class FixedLayout (T : Type) [SelfSerializable T] where
  size : Nat
  body : T → List UInt8
  parsed : Memory → Nat → T
  exec_out : ∀ p b, (serializeOut p).exec b = (true, b.append (body p))
  eval_in : ∀ p data offset,
    (serializeIn p).eval data offset = ((true, parsed data offset), offset + size)
  body_length : ∀ p, (body p).length = size
  body_parsed : ∀ data offset, body (parsed data offset) = data.load offset size
  body_inj : ∀ p q, body p = body q → p = q

attribute [simp] FixedLayout.exec_out FixedLayout.eval_in FixedLayout.body_length

namespace FixedLayout
variable {T : Type} [SelfSerializable T] [FixedLayout T]

@[simp] theorem exec_out_field (p : T) (b : Buffer) :
    (Serialize.Out p).exec b = ((), b.append (body p)) := by
  simp [Serialize.exec_out_self]

@[simp] theorem eval_in_field (p : T) (data : Memory) (offset : Nat) :
    (Serialize.In p).eval data offset = (parsed data offset, offset + size T) := by
  simp [Serialize.eval_in_self]

theorem parsed_of_load {p : T} {data : Memory} {offset : Nat}
    (h : data.load offset (size T) = body p) : parsed data offset = p := by
  apply body_inj
  rw [body_parsed, h]

/-- Reading what was just written yields the object written, whatever is read into. -/
theorem eval_in_exec_out (p q : T) (b : Buffer) :
    (serializeIn q).eval ((serializeOut p).exec b).2.data b.bufferOffset =
      ((true, p), b.bufferOffset + size T) := by
  have hload : ((serializeOut p).exec b).2.data.load b.bufferOffset (size T) = body p := by
    rw [exec_out, ← body_length p]
    exact b.append_load (body p)
  rw [eval_in, parsed_of_load hload]

theorem exec_out_inj {p q : T} (h : ∀ b, (serializeOut p).exec b = (serializeOut q).exec b) :
    p = q := by
  have hp := eval_in_exec_out p p ⟨fun _ => 0, 0⟩
  rw [h, eval_in_exec_out q p] at hp
  cases hp
  rfl

theorem parsed_congr {data data' : Memory} {offset : Nat}
    (h : ∀ i, offset ≤ i → i < offset + size T → data i = data' i) :
    (parsed data offset : T) = parsed data' offset := by
  apply parsed_of_load
  rw [body_parsed]
  exact Store.load_congr h

end FixedLayout

theorem u16_msbFirst_inj {v w : UInt16} (h : msbFirst 2 v.toNat = msbFirst 2 w.toNat) : v = w :=
  UInt16.toNat_inj.mp (msbFirst_inj v.toNat_lt w.toNat_lt h)

theorem u64_msbFirst_inj {v w : UInt64} (h : msbFirst 8 v.toNat = msbFirst 8 w.toNat) : v = w :=
  UInt64.toNat_inj.mp (msbFirst_inj v.toNat_lt w.toNat_lt h)

theorem int_msbFirst_inj {v w : Int32}
    (h : msbFirst 4 v.toUInt32.toNat = msbFirst 4 w.toUInt32.toNat) : v = w := by
  have hn := msbFirst_inj v.toUInt32.toNat_lt w.toUInt32.toNat_lt h
  have hu := congrArg UInt32.toInt32 (UInt32.toNat_inj.mp hn)
  simpa using hu

instance : FixedLayout BasePacket where
  size := 7
  body p := [p.packetType, p.packetSubType, p.versionNumberMajor, p.versionNumberMinor,
    p.gameProductId] ++ msbFirst 2 p.gameInstanceId.toNat
  parsed data offset :=
    { packetType := data offset
      packetSubType := data (offset + 1)
      versionNumberMajor := data (offset + 2)
      versionNumberMinor := data (offset + 3)
      gameProductId := data (offset + 4)
      gameInstanceId := .ofNat (Serialize.wordAt data (offset + 5) 2) }
  exec_out p b := by
    change p.serializeOut.exec b = _
    simp [BasePacket.serializeOut]
  eval_in p data offset := by
    change p.serializeIn.eval data offset = _
    simp [BasePacket.serializeIn]
  body_length p := by simp
  body_parsed data offset := by
    rw [Serialize.msbFirst_u16, Store.load_add data offset 5 2]
    rfl
  body_inj p q h := by
    obtain ⟨hbytes, hid⟩ := List.append_inj h rfl
    have hid := u16_msbFirst_inj hid
    cases p
    cases q
    simp_all

instance : FixedLayout ConnectionCommsPacket where
  size := 9
  body p := FixedLayout.body p.toBasePacket ++ msbFirst 2 p.connectionId.toNat
  parsed data offset :=
    { toBasePacket := FixedLayout.parsed data offset
      connectionId := .ofNat (Serialize.wordAt data (offset + 7) 2) }
  exec_out p b := by
    change p.serializeOut.exec b = _
    simp [ConnectionCommsPacket.serializeOut]
  eval_in p data offset := by
    change p.serializeIn.eval data offset = _
    simp [ConnectionCommsPacket.serializeIn, FixedLayout.size]
  body_length p := by simp [FixedLayout.size]
  body_parsed data offset := by
    rw [Serialize.msbFirst_u16, FixedLayout.body_parsed, Store.load_add data offset 7 2]
    rfl
  body_inj p q h := by
    obtain ⟨hbase, hid⟩ := List.append_inj h (by simp)
    have hbase := FixedLayout.body_inj _ _ hbase
    have hid := u16_msbFirst_inj hid
    cases p
    cases q
    simp_all

end SocketCPlusPlus.Packets
