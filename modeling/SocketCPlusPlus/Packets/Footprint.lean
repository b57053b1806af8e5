import SocketCPlusPlus.Packets.SizePacket

/-! The cells a reader touches. A body is touched from its first byte to its last, so the
class decides how far a frame is read, not the size in its header. -/
namespace SocketCPlusPlus.Packets
open Foundation IPacketSerializable

/-- The addresses a reader reads, in order. -/
def Input.touched {α : Type} (data : Memory) (offset : Nat) (p : Input α) : List Nat :=
  (p.run offset).touched data

namespace Input
variable {α γ : Type} (data : Memory) (offset : Nat)

@[simp] theorem touched_pure (a : α) : touched data offset (pure a) = [] := rfl

@[simp] theorem touched_bind (p : Input α) (f : α → Input γ) :
    touched data offset (p >>= f) = touched data offset p ++
      touched data (eval data offset p).2 (f (eval data offset p).1) := by
  simp [touched, eval]

@[simp] theorem touched_map (p : Input α) (f : α → γ) :
    touched data offset (f <$> p) = touched data offset p := by
  simp [touched]

@[simp] theorem touched_ite (c : Prop) [Decidable c] (p q : Input α) :
    touched data offset (if c then p else q) =
      if c then touched data offset p else touched data offset q := apply_ite ..

@[simp] theorem touched_get : touched data offset get = [] := rfl

@[simp] theorem touched_set (n : Nat) : touched data offset (set n) = [] := rfl

@[simp] theorem touched_lift (p : Reading UInt8 α) :
    touched data offset (liftM p : Input α) = p.touched data := by
  simp [touched, liftM, monadLift, MonadLift.monadLift, StateT.lift, StateT.run]

end Input

namespace Serialize
variable (data : Memory) (offset : Nat)

theorem touched_inWord {T : Type} (size : Nat) (convert : Nat → T) :
    (inWord size convert).touched data offset = List.range' offset size := by
  simp [inWord]

@[simp] theorem touched_in_u8 (value : UInt8) :
    (In value).touched data offset = [offset] := by
  simp [In, Serializer.In]

@[simp] theorem touched_in_u16 (value : UInt16) :
    (In value).touched data offset = List.range' offset 2 := by
  simp only [In, Serializer.In, touched_inWord]

@[simp] theorem touched_in_int (value : Int32) :
    (In value).touched data offset = List.range' offset 4 := by
  simp only [In, Serializer.In, touched_inWord]

@[simp] theorem touched_in_u64 (value : UInt64) :
    (In value).touched data offset = List.range' offset 8 := by
  simp only [In, Serializer.In, touched_inWord]

end Serialize

/-- The reader of a class touches its body's bytes and no other. -/
class ReadsBody (T : Type) [SelfSerializable T] [FixedLayout T] : Prop where
  touched_in : ∀ (p : T) data offset, (SelfSerializable.serializeIn p).touched data offset =
    List.range' offset (FixedLayout.size T)

attribute [simp] ReadsBody.touched_in

@[simp] theorem ReadsBody.touched_in_field {T : Type} [SelfSerializable T] [FixedLayout T]
    [ReadsBody T] (p : T) (data : Memory) (offset : Nat) :
    (Serialize.In p).touched data offset = List.range' offset (FixedLayout.size T) := by
  simp [Serialize.In, Serializer.In]

instance : ReadsBody BasePacket where
  touched_in p data offset := by
    change p.serializeIn.touched data offset = _
    simp [BasePacket.serializeIn, FixedLayout.size, List.range'_succ]

instance : ReadsBody ConnectionCommsPacket where
  touched_in p data offset := by
    change p.serializeIn.touched data offset = _
    simp [ConnectionCommsPacket.serializeIn, FixedLayout.size, List.range'_append_1]

instance : ReadsBody RotationCompressed where
  touched_in r data offset := by
    change r.serializeIn.touched data offset = _
    simp [RotationCompressed.serializeIn, FixedLayout.size]

instance : ReadsBody PositionCompressed where
  touched_in p data offset := by
    change p.serializeIn.touched data offset = _
    simp [PositionCompressed.serializeIn, FixedLayout.size]

instance : ReadsBody ServerTickPacket where
  touched_in p data offset := by
    change p.serializeIn.touched data offset = _
    simp [ServerTickPacket.serializeIn, FixedLayout.size, List.range'_append_1]

instance : ReadsBody PositionPacket where
  touched_in p data offset := by
    change p.serializeIn.touched data offset = _
    simp [PositionPacket.serializeIn, FixedLayout.size, List.range'_append_1]

instance : ReadsBody MovementPacket where
  touched_in p data offset := by
    change p.serializeIn.touched data offset = _
    simp [MovementPacket.serializeIn, FixedLayout.size, List.range'_append_1]

theorem Packet.touched_serializeIn (p : Packet) (data : Memory) (offset : Nat) :
    (SelfSerializable.serializeIn p).touched data offset =
      List.range' offset p.classOf.size := by
  change p.serializeIn.touched data offset = _
  cases p <;> simp [Packet.serializeIn, Packet.classOf, PacketClass.size]

namespace SizePacket

theorem touched_isRemaining (data : Memory) (offset : Nat) (total : Int) :
    (isRemainingBufferBigenough total).touched data offset = [offset + 1, offset + 2] := by
  simp only [isRemainingBufferBigenough, Input.touched_bind, Input.touched_ite,
    Input.touched_pure, ite_self]
  simp only [Input.touched_get, Input.touched_set, Serialize.touched_in_u16, Input.eval_get]
  rfl

section Members
variable {Obj Class Raw : Type} [IPacketSerializable Obj Class Raw]
  {f : PacketMethodFactory Obj Class Raw} {data : Memory} {offset : Nat}

/-- The header and the base-class probe, whatever the tags select. -/
def headTouched (offset : Nat) : List Nat := List.range' offset (headerSize + 7)

theorem touched_serializeIn_null
    (h : (f.create (data (offset + 3)) (data (offset + 4))).1 = none) :
    (serializeIn f).touched data offset = headTouched offset := by
  simp only [serializeIn, Input.touched_bind, Serialize.touched_in_u8, Serialize.touched_in_u16,
    Serialize.eval_in_u8, Serialize.eval_in_u16, Input.touched_get, Input.eval_get,
    ReadsBody.touched_in, FixedLayout.eval_in, Input.touched_set, Input.eval_set, create_parsed, h,
    Input.touched_pure]
  rfl

/-- With one, the packet's own reader follows. -/
theorem touched_serializeIn_some {r : Ref}
    (h : (f.create (data (offset + 3)) (data (offset + 4))).1 = some r) :
    (serializeIn f).touched data offset = headTouched offset ++
      (SelfSerializable.serializeIn ((f.create (data (offset + 3)) (data (offset + 4))).2.heap
        r)).touched data (offset + 3) := by
  simp only [serializeIn, Input.touched_bind, Serialize.touched_in_u8, Serialize.touched_in_u16,
    Serialize.eval_in_u8, Serialize.eval_in_u16, Input.touched_get, Input.eval_get,
    ReadsBody.touched_in, FixedLayout.eval_in, Input.touched_set, Input.eval_set, create_parsed, h,
    Input.touched_pure]
  rw [List.append_nil]
  rfl

end Members

theorem touched_serializeIn_packet {f : PacketMethodFactory Packet PacketClass UInt16}
    {data : Memory} {offset : Nat} {c : PacketClass} {r : Ref}
    (ht : tags c = (data (offset + 3), data (offset + 4)))
    (hcreate : (f.create (type c) (subType c)).1 = some r)
    (hclass : ((f.create (type c) (subType c)).2.heap r).classOf = c) :
    (serializeIn f).touched data offset =
      headTouched offset ++ List.range' (offset + 3) c.size := by
  obtain ⟨htype, hsub⟩ := Prod.mk.inj ht
  rw [htype, hsub] at hcreate hclass
  rw [touched_serializeIn_some hcreate, Packet.touched_serializeIn, hclass]

end SizePacket
end SocketCPlusPlus.Packets
