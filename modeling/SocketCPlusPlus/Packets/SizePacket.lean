import SocketCPlusPlus.Packets.PoolOwnership

/-! The framing layer: a protocol byte, the body's size, the body. The reader learns the
class from the body's first bytes and takes the packet from the factory. -/
namespace SocketCPlusPlus.Packets
open Foundation General IPacketSerializable

structure SizePacket where
  packet : Option Ref

namespace SizePacket

/-- Bytes of a frame before its body. -/
def headerSize : Nat := 3

/-- The probe works on a copy of the offset. -/
def isRemainingBufferBigenough (totalBytesInBuffer : Int) : Input Bool := do
  let bufferOffset ← get
  set (bufferOffset + 1)
  let size ← Serialize.In (0 : UInt16)
  let probeOffset ← get
  set bufferOffset
  if (size.toNat + probeOffset : Int) > totalBytesInBuffer then pure false
  else pure true

section Members
variable {Obj Class Raw : Type} [IPacketSerializable Obj Class Raw]

/-- `none` stands for a member called through a null packet. -/
def serializeIn (f : PacketMethodFactory Obj Class Raw) :
    Input (Option (Bool × SizePacket × PacketMethodFactory Obj Class Raw)) := do
  let _type ← Serialize.In (0 : UInt8)
  let _size ← Serialize.In (0 : UInt16)
  let bufferOffset ← get
  let (_, probe) ← SelfSerializable.serializeIn
    (BasePacket.new PacketType.base.toU8 BasePacket.SubType.type.toU8)
  set bufferOffset
  let (packet, f) := f.create probe.packetType probe.packetSubType
  match packet with
  | none => pure none
  | some r => do
      let (_, p) ← SelfSerializable.serializeIn (f.heap r)
      pure (some (true, ⟨packet⟩, f.assign r p))

/-- The size is patched in at `pos` once the body is written. -/
def serializeOut (sp : SizePacket) (f : PacketMethodFactory Obj Class Raw) :
    Output (Option Bool) := do
  Serialize.Out PacketType.networkProtocol.toU8
  let pos := (← get).bufferOffset
  let placeholderSize := 2
  modify (fun b => { b with bufferOffset := b.bufferOffset + placeholderSize })
  match sp.packet with
  | none => pure none
  | some r => do
      let _ ← SelfSerializable.serializeOut (f.heap r)
      let bufferOffset := (← get).bufferOffset
      let size : UInt16 := .ofNat (bufferOffset - pos - placeholderSize)
      modify (fun b => { b with bufferOffset := pos })
      Serialize.Out size
      modify (fun b => { b with bufferOffset := bufferOffset })
      pure (some true)

theorem eval_isRemaining (data : Memory) (offset : Nat) (total : Int) :
    (isRemainingBufferBigenough total).eval data offset =
      (decide ((offset + headerSize + Serialize.wordAt data (offset + 1) 2 : Nat) ≤ total),
        offset) := by
  simp only [isRemainingBufferBigenough, Input.eval_bind, Input.eval_get, Input.eval_set,
    Serialize.eval_in_u16, Serialize.u16_wordAt_toNat]
  have hheader : headerSize = 3 := rfl
  change Input.eval data offset (if (Serialize.wordAt data (offset + 1) 2 +
    (offset + 1 + 2 : Nat) : Int) > total then pure false else pure true) = _
  by_cases h : (Serialize.wordAt data (offset + 1) 2 + (offset + 1 + 2 : Nat) : Int) > total
  · rw [if_pos h, Input.eval_pure, decide_eq_false (by omega)]
  · rw [if_neg h, Input.eval_pure, decide_eq_true (by omega)]

omit [IPacketSerializable Obj Class Raw] in
theorem create_parsed (f : PacketMethodFactory Obj Class Raw) (data : Memory) (offset : Nat) :
    f.create (FixedLayout.parsed data (offset + 3) : BasePacket).packetType
      (FixedLayout.parsed data (offset + 3) : BasePacket).packetSubType =
      f.create (data (offset + 3)) (data (offset + 4)) := rfl

/-- The factory has no packet for the tags in the frame. -/
theorem eval_serializeIn_null {f : PacketMethodFactory Obj Class Raw} {data : Memory}
    {offset : Nat} (h : (f.create (data (offset + 3)) (data (offset + 4))).1 = none) :
    (serializeIn f).eval data offset = (none, offset + headerSize) := by
  simp only [serializeIn, Input.eval_bind, Serialize.eval_in_u8, Serialize.eval_in_u16,
    Input.eval_get, FixedLayout.eval_in, Input.eval_set, create_parsed, h, Input.eval_pure]
  rfl

theorem eval_serializeIn_some {f : PacketMethodFactory Obj Class Raw} {data : Memory}
    {offset : Nat} {r : Ref} (h : (f.create (data (offset + 3)) (data (offset + 4))).1 = some r) :
    let g := (f.create (data (offset + 3)) (data (offset + 4))).2
    let body := (SelfSerializable.serializeIn (g.heap r)).eval data (offset + 3)
    (serializeIn f).eval data offset = (some (true, ⟨some r⟩, g.assign r body.1.2), body.2) := by
  simp only [serializeIn, Input.eval_bind, Serialize.eval_in_u8, Serialize.eval_in_u16,
    Input.eval_get, FixedLayout.eval_in, Input.eval_set, create_parsed, h, Input.eval_pure]

/-- No member is called through a null packet, and a frame the factory has no packet for is
refused with the offset and the factory as they were. -/
def FailsCleanly (f : PacketMethodFactory Obj Class Raw) (data : Memory) (offset : Nat) : Prop :=
  ((serializeIn f).eval data offset).1 ≠ none ∧
    ((f.create (data (offset + 3)) (data (offset + 4))).1 = none →
      ∃ sp, (serializeIn f).eval data offset = (some (false, sp, f), offset))

theorem failsCleanly_iff_created (f : PacketMethodFactory Obj Class Raw) (data : Memory)
    (offset : Nat) : FailsCleanly f data offset ↔
      (f.create (data (offset + 3)) (data (offset + 4))).1 ≠ none := by
  constructor
  · intro h hnone
    exact h.1 (congrArg Prod.fst (eval_serializeIn_null hnone))
  · intro h
    refine ⟨?_, fun hnone => absurd hnone h⟩
    obtain ⟨r, hr⟩ := Option.ne_none_iff_exists'.mp h
    rw [eval_serializeIn_some hr]
    exact Option.some_ne_none _

/-- In every reachable state a frame fails cleanly exactly if it cannot fail: its pair is
registered and fewer than a hundred of its packets are out. -/
theorem fails_cleanly_iff [FactoryBoilerplate Class] (classes : List Class) (w : World Obj Class Raw)
    (hname : (classes.map getFactoryName).Nodup) (hpair : (classes.map tags).Nodup)
    (hw : w.Reachable classes) (data : Memory) (offset : Nat) :
    FailsCleanly w.factory data offset ↔
      ∃ c ∈ classes, tags c = (data (offset + 3), data (offset + 4)) ∧
        (w.outstanding (tags c)).length < 100 := by
  obtain ⟨stock, l, hk, hheld⟩ := World.kept_of_reachable hname hpair hw
  rw [failsCleanly_iff_created]
  have hfree : ∀ c ∈ classes, l.free (tags c) = [] ↔ ¬ (w.outstanding (tags c)).length < 100 := by
    intro c hc
    have hsum := World.free_add_outstanding hk hheld hc
    rw [← List.length_eq_zero_iff]
    omega
  constructor
  · intro h
    by_contra hno
    refine h (congrArg Prod.fst (hk.create_none ?_))
    intro c hc ht
    rw [hfree c hc]
    exact fun hlt => hno ⟨c, hc, ht, hlt⟩
  · rintro ⟨c, hc, ht, hlt⟩
    obtain ⟨r, rest, hrest⟩ := List.exists_cons_of_ne_nil (fun h => (hfree c hc).mp h hlt)
    have hcreate := (hk.create_free hc hrest).1
    obtain ⟨ht, hs⟩ := Prod.mk.inj ht
    rw [← ht, ← hs, hcreate]
    exact Option.some_ne_none r

end Members

/-- A base-class frame. -/
abbrev sampleFrame : Memory := Store.store (fun _ => 0) 0 [3, 0, 7, 0, 0, 51, 0, 0, 0, 0]

private theorem sample_outstanding (pair : TypePair) :
    (sampleWorld.outstanding pair).length < 100 := by
  have hfilter : (sampleWorld.outstanding pair).length ≤ sampleWorld.held.length :=
    List.length_filter_le ..
  have hheld : sampleWorld.held.length ≤ initialWorld.held.length + 1 :=
    initialWorld.take_held_length_le _
  have hnone : initialWorld.held.length = 0 := rfl
  omega

theorem sample_fails_cleanly : FailsCleanly sampleWorld.factory sampleFrame 0 :=
  (fails_cleanly_iff PacketClass.all sampleWorld PacketClass.names_nodup PacketClass.tags_nodup
    sampleWorld_reachable sampleFrame 0).mpr
    ⟨.basePacket, PacketClass.mem_all _, by decide, sample_outstanding _⟩

/-- A frame with tags nobody registered makes the reader call through a null packet. -/
theorem unregistered_not_clean :
    ¬ FailsCleanly sampleWorld.factory (Store.store (fun _ => 0) 0 [3, 0, 7, 1, 0]) 0 := by
  obtain ⟨stock, l, hk, -⟩ := kept_of_all sampleWorld_reachable
  have hno : ∀ c ∈ PacketClass.all, tags c ≠ (1, 0) := by decide
  rw [failsCleanly_iff_created]
  intro h
  refine h (congrArg Prod.fst (hk.create_none ?_))
  intro c hc ht
  exact absurd ht (hno c hc)

/-! Frames of the four classes. -/

/-- The bytes of a packet on the stream. -/
def frame (p : Packet) : List UInt8 :=
  PacketType.networkProtocol.toU8 :: (msbFirst 2 p.classOf.size ++ p.body)

@[simp] theorem frame_length (p : Packet) : (frame p).length = headerSize + p.classOf.size := by
  simp only [frame, headerSize, List.length_cons, List.length_append, msbFirst_length,
    Packet.body_length]
  omega

/-- Patching the size in after the body lays the frame out in order. -/
private theorem patch_size (m : Memory) (a : Nat) (t : UInt8) (size body : List UInt8)
    (h : size.length = 2) :
    ((m.store a [t]).store (a + 1 + 2) body).store (a + 1) size =
      m.store a (t :: (size ++ body)) := by
  have hsplit : t :: (size ++ body) = [t] ++ (size ++ body) := rfl
  rw [Store.store_comm _ _ _ (by rw [h]), hsplit, Store.store_append m a [t],
    Store.store_append _ _ size body, h]
  rfl

/-- The writer appends exactly the frame of the packet. -/
theorem exec_serializeOut (f : PacketMethodFactory Packet PacketClass UInt16) (r : Ref)
    (b : Buffer) : (serializeOut ⟨some r⟩ f).exec b = (some true, b.append (frame (f.heap r))) := by
  have hout : ∀ (p : Packet) (b : Buffer),
      (SelfSerializable.serializeOut p).exec b = (true, b.append p.body) :=
    Packet.exec_serializeOut
  have hsize : (UInt16.ofNat (b.bufferOffset + 1 + 2 + (f.heap r).body.length -
      (b.bufferOffset + 1) - 2)).toNat = (f.heap r).classOf.size := by
    rw [UInt16.toNat_ofNat', Packet.body_length, show b.bufferOffset + 1 + 2 +
      (f.heap r).classOf.size - (b.bufferOffset + 1) - 2 = (f.heap r).classOf.size by omega]
    exact Nat.mod_eq_of_lt (f.heap r).classOf.size_lt
  simp only [serializeOut, Output.exec_bind, Serialize.exec_out_u8, Output.exec_get,
    Output.exec_modify, hout, Serialize.exec_out_u16, Output.exec_pure, Buffer.append,
    List.length_singleton, hsize]
  rw [patch_size _ _ _ _ _ (msbFirst_length 2 _)]
  simp only [frame, List.length_cons, List.length_append, msbFirst_length]
  congr 2
  omega

/-- What is read as a class from the pool: the object the body says, past its size. -/
theorem eval_serializeIn_packet {f : PacketMethodFactory Packet PacketClass UInt16}
    {data : Memory} {offset : Nat} {c : PacketClass} {r : Ref}
    (ht : tags c = (data (offset + 3), data (offset + 4)))
    (hcreate : (f.create (type c) (subType c)).1 = some r)
    (hclass : ((f.create (type c) (subType c)).2.heap r).classOf = c) :
    (serializeIn f).eval data offset =
      (some (true, ⟨some r⟩, (f.create (type c) (subType c)).2.assign r
        (Packet.parsed c data (offset + 3))), offset + (headerSize + c.size)) := by
  obtain ⟨htype, hsub⟩ := Prod.mk.inj ht
  rw [htype, hsub] at hcreate hclass ⊢
  have hin : ∀ (p : Packet), (SelfSerializable.serializeIn p).eval data (offset + 3) =
      ((true, Packet.parsed p.classOf data (offset + 3)), offset + 3 + p.classOf.size) :=
    fun p => p.eval_serializeIn data (offset + 3)
  rw [eval_serializeIn_some hcreate]
  simp only [hin, hclass, headerSize, Nat.add_assoc]

/-- An accepted frame has the size its header declares and is what the writer would write. -/
def StrictAt (f : PacketMethodFactory Packet PacketClass UInt16) (data : Memory) (offset : Nat) :
    Prop :=
  ∃ ok sp f' last, (serializeIn f).eval data offset = (some (ok, sp, f'), last) ∧
    (ok = true → last = offset + (headerSize + Serialize.wordAt data (offset + 1) 2) ∧
      ∀ b : Buffer, ((serializeOut sp f').exec b).2 =
        b.append (data.load offset (last - offset)))

private theorem append_inj {b : Buffer} {xs ys : List UInt8} (h : b.append xs = b.append ys) :
    xs = ys := by
  have hlen := congrArg Buffer.bufferOffset h
  have hdata := congrArg (fun c => Store.load c.data b.bufferOffset xs.length) h
  rw [Buffer.append_offset, Buffer.append_offset, Nat.add_left_cancel_iff] at hlen
  have hx := b.append_load xs
  have hy := b.append_load ys
  rw [← hlen] at hy
  exact hx.symm.trans (hdata.trans hy)

theorem load_frame (data : Memory) (offset n : Nat) : data.load offset (headerSize + n) =
    data offset :: (data.load (offset + 1) 2 ++ data.load (offset + 3) n) := by
  rw [show headerSize + n = 1 + (2 + n) by simp only [headerSize]; omega, Store.load_add,
    Store.load_add]
  rfl

/-- In a reachable state a frame of a registered class with a free packet is read into that
packet, whatever the header says. -/
theorem eval_serializeIn_reachable {classes : List PacketClass}
    {w : World Packet PacketClass UInt16} (hname : (classes.map getFactoryName).Nodup)
    (hpair : (classes.map tags).Nodup) (hw : w.Reachable classes) {data : Memory} {offset : Nat}
    {c : PacketClass} (hc : c ∈ classes) (ht : tags c = (data (offset + 3), data (offset + 4)))
    (hfree : (w.outstanding (tags c)).length < 100) :
    ∃ r g, (serializeIn w.factory).eval data offset =
      (some (true, ⟨some r⟩, PacketMethodFactory.assign g r (Packet.parsed c data (offset + 3))),
        offset + (headerSize + c.size)) := by
  obtain ⟨stock, l, hk, hheld⟩ := World.kept_of_reachable hname hpair hw
  obtain ⟨r, rest, hrest⟩ : ∃ r rest, l.free (tags c) = r :: rest := by
    have hsum := World.free_add_outstanding hk hheld hc
    exact List.exists_cons_of_length_pos (by omega)
  obtain ⟨hcreate, hheap, -⟩ := hk.create_free hc hrest
  have hitem : r ∈ stock.items (tags c) := l.free_mem (by rw [hrest]; exact List.mem_cons_self)
  have hclass : ((w.factory.create (type c) (subType c)).2.heap r).classOf = c := by
    rw [hheap]
    exact (hk.made c hc r hitem).1
  exact ⟨r, _, eval_serializeIn_packet ht hcreate hclass⟩

theorem strictAt_iff_of_parsed {f g : PacketMethodFactory Packet PacketClass UInt16}
    {data : Memory} {offset : Nat} {c : PacketClass} {r : Ref}
    (hin : (serializeIn f).eval data offset =
      (some (true, ⟨some r⟩, g.assign r (Packet.parsed c data (offset + 3))),
        offset + (headerSize + c.size))) :
    StrictAt f data offset ↔ data offset = PacketType.networkProtocol.toU8 ∧
      Serialize.wordAt data (offset + 1) 2 = c.size := by
  have hframe : frame (Packet.parsed c data (offset + 3)) =
      PacketType.networkProtocol.toU8 :: (msbFirst 2 c.size ++ data.load (offset + 3) c.size) := by
    rw [frame, Packet.classOf_parsed, Packet.body_parsed]
  constructor
  · rintro ⟨ok, sp, f', last, heval, hstrict⟩
    rw [hin] at heval
    cases heval
    obtain ⟨hlast, hout⟩ := hstrict rfl
    have hout := hout ⟨fun _ => 0, 0⟩
    rw [exec_serializeOut, PacketMethodFactory.assign_self, hframe,
      Nat.add_sub_cancel_left, load_frame] at hout
    obtain ⟨hhead, -⟩ := List.cons.inj (append_inj hout)
    exact ⟨hhead.symm, by omega⟩
  · rintro ⟨hhead, hsize⟩
    refine ⟨true, _, _, _, hin, fun _ => ⟨by rw [hsize], fun b => ?_⟩⟩
    rw [exec_serializeOut, PacketMethodFactory.assign_self, hframe, Nat.add_sub_cancel_left,
      load_frame, hhead, ← hsize, Serialize.msbFirst_wordAt]

/-- A frame whose tags are registered and whose class has a free packet is treated strictly
exactly if it begins with the protocol byte and declares its class's size. -/
theorem frame_strict_iff (classes : List PacketClass) (w : World Packet PacketClass UInt16)
    (hname : (classes.map getFactoryName).Nodup) (hpair : (classes.map tags).Nodup)
    (hw : w.Reachable classes) (data : Memory) (offset : Nat) (c : PacketClass)
    (hc : c ∈ classes) (ht : tags c = (data (offset + 3), data (offset + 4)))
    (hfree : (w.outstanding (tags c)).length < 100) :
    StrictAt w.factory data offset ↔
      data offset = PacketType.networkProtocol.toU8 ∧
        Serialize.wordAt data (offset + 1) 2 = c.size := by
  obtain ⟨r, g, hin⟩ := eval_serializeIn_reachable hname hpair hw hc ht hfree
  exact strictAt_iff_of_parsed hin

theorem sample_frame_strict : StrictAt sampleWorld.factory sampleFrame 0 :=
  (frame_strict_iff PacketClass.all sampleWorld PacketClass.names_nodup PacketClass.tags_nodup
    sampleWorld_reachable sampleFrame 0 .basePacket (PacketClass.mem_all _) (by decide)
    (sample_outstanding _)).mpr ⟨by decide, by decide⟩

/-- A base-class frame declaring an empty body passes the length check and is not strict. -/
theorem short_frame_not_strict :
    ((isRemainingBufferBigenough 3).eval (Store.store (fun _ => 0) 0 [3]) 0).1 = true ∧
      ¬ StrictAt sampleWorld.factory (Store.store (fun _ => 0) 0 [3]) 0 := by
  obtain ⟨r, g, hin⟩ := eval_serializeIn_reachable PacketClass.names_nodup
    PacketClass.tags_nodup sampleWorld_reachable (PacketClass.mem_all .basePacket)
    (show tags PacketClass.basePacket = (Store.store (fun _ => 0) 0 [3] (0 + 3),
      Store.store (fun _ => 0) 0 [3] (0 + 4)) by decide) (sample_outstanding _)
  rw [eval_isRemaining, strictAt_iff_of_parsed hin]
  decide

end SizePacket
end SocketCPlusPlus.Packets
