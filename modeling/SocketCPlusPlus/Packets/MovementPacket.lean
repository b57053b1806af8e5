import SocketCPlusPlus.Packets.BasePacket

/-! The server-tick packets, each appending its own members to its base class. -/
namespace SocketCPlusPlus.Packets
open Foundation SelfSerializable

structure RotationCompressed where
  rotation : Int32
  deriving DecidableEq, Repr

structure PositionCompressed where
  position : UInt64
  deriving DecidableEq, Repr

namespace RotationCompressed

def new : RotationCompressed := ⟨0⟩

protected def serializeIn (r : RotationCompressed) : Input (Bool × RotationCompressed) := do
  let rotation ← Serialize.In r.rotation
  pure (true, { rotation })

protected def serializeOut (r : RotationCompressed) : Output Bool := do
  Serialize.Out r.rotation
  pure true

instance : SelfSerializable RotationCompressed where
  serializeIn := RotationCompressed.serializeIn
  serializeOut := RotationCompressed.serializeOut

end RotationCompressed

namespace PositionCompressed

def new : PositionCompressed := ⟨0⟩

protected def serializeIn (p : PositionCompressed) : Input (Bool × PositionCompressed) := do
  let position ← Serialize.In p.position
  pure (true, { position })

protected def serializeOut (p : PositionCompressed) : Output Bool := do
  Serialize.Out p.position
  pure true

instance : SelfSerializable PositionCompressed where
  serializeIn := PositionCompressed.serializeIn
  serializeOut := PositionCompressed.serializeOut

end PositionCompressed

structure ServerTickPacket extends BasePacket where
  serverTick : UInt16
  deriving DecidableEq, Repr

namespace ServerTickPacket

inductive SubType where
  | base | position | movement
  deriving DecidableEq, Repr

def SubType.toU8 (t : SubType) : UInt8 := .ofNat t.ctorIdx

def new (packetSubType : UInt8) : ServerTickPacket where
  toBasePacket := .new PacketType.serverTick.toU8 packetSubType
  serverTick := 0

protected def serializeIn (p : ServerTickPacket) : Input (Bool × ServerTickPacket) := do
  let (_, base) ← serializeIn p.toBasePacket
  let serverTick ← Serialize.In p.serverTick
  pure (true, { toBasePacket := base, serverTick })

protected def serializeOut (p : ServerTickPacket) : Output Bool := do
  let _ ← serializeOut p.toBasePacket
  Serialize.Out p.serverTick
  pure true

instance : SelfSerializable ServerTickPacket where
  serializeIn := ServerTickPacket.serializeIn
  serializeOut := ServerTickPacket.serializeOut

end ServerTickPacket

structure PositionPacket extends ServerTickPacket where
  positionCompressed : PositionCompressed
  rotationCompressed : RotationCompressed
  deriving DecidableEq, Repr

namespace PositionPacket

def new (packetSubType : UInt8) : PositionPacket where
  toServerTickPacket := .new packetSubType
  positionCompressed := .new
  rotationCompressed := .new

protected def serializeIn (p : PositionPacket) : Input (Bool × PositionPacket) := do
  let (_, base) ← serializeIn p.toServerTickPacket
  let positionCompressed ← Serialize.In p.positionCompressed
  let rotationCompressed ← Serialize.In p.rotationCompressed
  pure (true, { toServerTickPacket := base, positionCompressed, rotationCompressed })

protected def serializeOut (p : PositionPacket) : Output Bool := do
  let _ ← serializeOut p.toServerTickPacket
  Serialize.Out p.positionCompressed
  Serialize.Out p.rotationCompressed
  pure true

instance : SelfSerializable PositionPacket where
  serializeIn := PositionPacket.serializeIn
  serializeOut := PositionPacket.serializeOut

end PositionPacket

structure MovementPacket extends PositionPacket where
  movementDirCompressed : PositionCompressed
  deriving DecidableEq, Repr

namespace MovementPacket

def new : MovementPacket where
  toPositionPacket := .new ServerTickPacket.SubType.movement.toU8
  movementDirCompressed := .new

protected def serializeIn (p : MovementPacket) : Input (Bool × MovementPacket) := do
  let (_, base) ← serializeIn p.toPositionPacket
  let movementDirCompressed ← Serialize.In p.movementDirCompressed
  pure (true, { toPositionPacket := base, movementDirCompressed })

protected def serializeOut (p : MovementPacket) : Output Bool := do
  let _ ← serializeOut p.toPositionPacket
  Serialize.Out p.movementDirCompressed
  pure true

instance : SelfSerializable MovementPacket where
  serializeIn := MovementPacket.serializeIn
  serializeOut := MovementPacket.serializeOut

end MovementPacket

/-! The layouts, base class first. -/

instance : FixedLayout RotationCompressed where
  size := 4
  body r := msbFirst 4 r.rotation.toUInt32.toNat
  parsed data offset := ⟨(UInt32.ofNat (Serialize.wordAt data offset 4)).toInt32⟩
  exec_out r b := by
    change r.serializeOut.exec b = _
    simp [RotationCompressed.serializeOut]
  eval_in r data offset := by
    change r.serializeIn.eval data offset = _
    simp [RotationCompressed.serializeIn]
  body_length r := msbFirst_length ..
  body_parsed data offset := Serialize.msbFirst_u32 ..
  body_inj r s h := by
    cases r
    cases s
    exact congrArg RotationCompressed.mk (int_msbFirst_inj h)

instance : FixedLayout PositionCompressed where
  size := 8
  body p := msbFirst 8 p.position.toNat
  parsed data offset := ⟨.ofNat (Serialize.wordAt data offset 8)⟩
  exec_out p b := by
    change p.serializeOut.exec b = _
    simp [PositionCompressed.serializeOut]
  eval_in p data offset := by
    change p.serializeIn.eval data offset = _
    simp [PositionCompressed.serializeIn]
  body_length p := msbFirst_length ..
  body_parsed data offset := Serialize.msbFirst_u64 ..
  body_inj p q h := by
    cases p
    cases q
    exact congrArg PositionCompressed.mk (u64_msbFirst_inj h)

instance : FixedLayout ServerTickPacket where
  size := 9
  body p := FixedLayout.body p.toBasePacket ++ msbFirst 2 p.serverTick.toNat
  parsed data offset :=
    { toBasePacket := FixedLayout.parsed data offset
      serverTick := .ofNat (Serialize.wordAt data (offset + 7) 2) }
  exec_out p b := by
    change p.serializeOut.exec b = _
    simp [ServerTickPacket.serializeOut]
  eval_in p data offset := by
    change p.serializeIn.eval data offset = _
    simp [ServerTickPacket.serializeIn, FixedLayout.size]
  body_length p := by simp [FixedLayout.size]
  body_parsed data offset := by
    rw [Serialize.msbFirst_u16, FixedLayout.body_parsed, Store.load_add data offset 7 2]
    rfl
  body_inj p q h := by
    obtain ⟨hbase, htick⟩ := List.append_inj h (by simp)
    have hbase := FixedLayout.body_inj _ _ hbase
    have htick := u16_msbFirst_inj htick
    cases p
    cases q
    simp_all

instance : FixedLayout PositionPacket where
  size := 21
  body p := FixedLayout.body p.toServerTickPacket ++ FixedLayout.body p.positionCompressed ++
    FixedLayout.body p.rotationCompressed
  parsed data offset :=
    { toServerTickPacket := FixedLayout.parsed data offset
      positionCompressed := FixedLayout.parsed data (offset + 9)
      rotationCompressed := FixedLayout.parsed data (offset + 17) }
  exec_out p b := by
    change p.serializeOut.exec b = _
    simp [PositionPacket.serializeOut]
  eval_in p data offset := by
    change p.serializeIn.eval data offset = _
    simp [PositionPacket.serializeIn, FixedLayout.size]
  body_length p := by simp [FixedLayout.size]
  body_parsed data offset := by
    simp only [FixedLayout.body_parsed]
    rw [Store.load_add data offset 17 4, Store.load_add data offset 9 8]
    rfl
  body_inj p q h := by
    obtain ⟨h, hrot⟩ := List.append_inj h (by simp)
    obtain ⟨htick, hpos⟩ := List.append_inj h (by simp)
    have htick := FixedLayout.body_inj _ _ htick
    have hpos := FixedLayout.body_inj _ _ hpos
    have hrot := FixedLayout.body_inj _ _ hrot
    cases p
    cases q
    simp_all

instance : FixedLayout MovementPacket where
  size := 29
  body p := FixedLayout.body p.toPositionPacket ++ FixedLayout.body p.movementDirCompressed
  parsed data offset :=
    { toPositionPacket := FixedLayout.parsed data offset
      movementDirCompressed := FixedLayout.parsed data (offset + 21) }
  exec_out p b := by
    change p.serializeOut.exec b = _
    simp [MovementPacket.serializeOut]
  eval_in p data offset := by
    change p.serializeIn.eval data offset = _
    simp [MovementPacket.serializeIn, FixedLayout.size]
  body_length p := by simp [FixedLayout.size]
  body_parsed data offset := by
    simp only [FixedLayout.body_parsed]
    rw [Store.load_add data offset 21 8]
    rfl
  body_inj p q h := by
    obtain ⟨hbase, hdir⟩ := List.append_inj h (by simp)
    have hbase := FixedLayout.body_inj _ _ hbase
    have hdir := FixedLayout.body_inj _ _ hdir
    cases p
    cases q
    simp_all

end SocketCPlusPlus.Packets
