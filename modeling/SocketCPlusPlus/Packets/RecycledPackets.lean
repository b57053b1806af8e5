import SocketCPlusPlus.Packets.PoolOwnership

/-! What a packet from a pool carries over from its previous owner. Releasing and creating leave
the object as it is, so every member that its next owner does not assign goes out as it was. -/
namespace SocketCPlusPlus.Packets
open Foundation IPacketSerializable

/-- The value last assigned to each member, if any. A class takes those of its own members. -/
structure Assignments where
  packetType : Option UInt8 := none
  packetSubType : Option UInt8 := none
  gameProductId : Option UInt8 := none
  versionNumberMajor : Option UInt8 := none
  versionNumberMinor : Option UInt8 := none
  gameInstanceId : Option UInt16 := none
  connectionId : Option UInt16 := none
  serverTick : Option UInt16 := none
  positionCompressed : Option PositionCompressed := none
  rotationCompressed : Option RotationCompressed := none
  movementDirCompressed : Option PositionCompressed := none

private theorem getD_eq_getD_iff {α : Type} (o : Option α) (x y : α) :
    o.getD x = o.getD y ↔ (o = none → x = y) := by
  cases o <;> simp

namespace BasePacket

def assign (a : Assignments) (p : BasePacket) : BasePacket where
  packetType := a.packetType.getD p.packetType
  packetSubType := a.packetSubType.getD p.packetSubType
  gameProductId := a.gameProductId.getD p.gameProductId
  versionNumberMajor := a.versionNumberMajor.getD p.versionNumberMajor
  versionNumberMinor := a.versionNumberMinor.getD p.versionNumberMinor
  gameInstanceId := a.gameInstanceId.getD p.gameInstanceId

/-- Two packets with the same members but for the assigned ones. -/
structure AgreeUnassigned (a : Assignments) (p q : BasePacket) : Prop where
  packetType : a.packetType = none → p.packetType = q.packetType
  packetSubType : a.packetSubType = none → p.packetSubType = q.packetSubType
  gameProductId : a.gameProductId = none → p.gameProductId = q.gameProductId
  versionNumberMajor : a.versionNumberMajor = none → p.versionNumberMajor = q.versionNumberMajor
  versionNumberMinor : a.versionNumberMinor = none → p.versionNumberMinor = q.versionNumberMinor
  gameInstanceId : a.gameInstanceId = none → p.gameInstanceId = q.gameInstanceId

theorem assign_eq_iff (a : Assignments) (p q : BasePacket) :
    p.assign a = q.assign a ↔ p.AgreeUnassigned a q := by
  simp only [assign, BasePacket.mk.injEq, getD_eq_getD_iff]
  constructor
  · rintro ⟨htype, hsubType, hproduct, hmajor, hminor, hinstance⟩
    exact ⟨htype, hsubType, hproduct, hmajor, hminor, hinstance⟩
  · rintro ⟨htype, hsubType, hproduct, hmajor, hminor, hinstance⟩
    exact ⟨htype, hsubType, hproduct, hmajor, hminor, hinstance⟩

end BasePacket

namespace ServerTickPacket

def assign (a : Assignments) (p : ServerTickPacket) : ServerTickPacket where
  toBasePacket := p.toBasePacket.assign a
  serverTick := a.serverTick.getD p.serverTick

structure AgreeUnassigned (a : Assignments) (p q : ServerTickPacket) : Prop where
  base : p.toBasePacket.AgreeUnassigned a q.toBasePacket
  serverTick : a.serverTick = none → p.serverTick = q.serverTick

theorem assign_eq_iff (a : Assignments) (p q : ServerTickPacket) :
    p.assign a = q.assign a ↔ p.AgreeUnassigned a q := by
  simp only [assign, ServerTickPacket.mk.injEq, BasePacket.assign_eq_iff, getD_eq_getD_iff]
  exact ⟨fun ⟨hbase, htick⟩ => ⟨hbase, htick⟩, fun ⟨hbase, htick⟩ => ⟨hbase, htick⟩⟩

end ServerTickPacket

namespace PositionPacket

def assign (a : Assignments) (p : PositionPacket) : PositionPacket where
  toServerTickPacket := p.toServerTickPacket.assign a
  positionCompressed := a.positionCompressed.getD p.positionCompressed
  rotationCompressed := a.rotationCompressed.getD p.rotationCompressed

structure AgreeUnassigned (a : Assignments) (p q : PositionPacket) : Prop where
  base : p.toServerTickPacket.AgreeUnassigned a q.toServerTickPacket
  positionCompressed : a.positionCompressed = none → p.positionCompressed = q.positionCompressed
  rotationCompressed : a.rotationCompressed = none → p.rotationCompressed = q.rotationCompressed

theorem assign_eq_iff (a : Assignments) (p q : PositionPacket) :
    p.assign a = q.assign a ↔ p.AgreeUnassigned a q := by
  simp only [assign, PositionPacket.mk.injEq, ServerTickPacket.assign_eq_iff, getD_eq_getD_iff]
  exact ⟨fun ⟨hbase, hpos, hrot⟩ => ⟨hbase, hpos, hrot⟩,
    fun ⟨hbase, hpos, hrot⟩ => ⟨hbase, hpos, hrot⟩⟩

end PositionPacket

namespace Packet

def assign (a : Assignments) : Packet → Packet
  | .base p => .base (p.assign a)
  | .connectionComms p => .connectionComms
      { toBasePacket := p.toBasePacket.assign a
        connectionId := a.connectionId.getD p.connectionId }
  | .position p => .position (p.assign a)
  | .movement p => .movement
      { toPositionPacket := p.toPositionPacket.assign a
        movementDirCompressed := a.movementDirCompressed.getD p.movementDirCompressed }

/-- Two packets of a class with the same members but for the assigned ones. -/
def AgreeUnassigned (a : Assignments) : Packet → Packet → Prop
  | .base p, .base q => p.AgreeUnassigned a q
  | .connectionComms p, .connectionComms q =>
      p.toBasePacket.AgreeUnassigned a q.toBasePacket ∧
        (a.connectionId = none → p.connectionId = q.connectionId)
  | .position p, .position q => p.AgreeUnassigned a q
  | .movement p, .movement q =>
      p.toPositionPacket.AgreeUnassigned a q.toPositionPacket ∧
        (a.movementDirCompressed = none → p.movementDirCompressed = q.movementDirCompressed)
  | _, _ => False

theorem classOf_assign (a : Assignments) (p : Packet) : (p.assign a).classOf = p.classOf := by
  cases p <;> rfl

/-- After the same assignments two packets of a class go out as the same bytes exactly if they
agreed on the members not assigned. -/
theorem body_assign_eq_iff (a : Assignments) {p q : Packet} (hclass : p.classOf = q.classOf) :
    (p.assign a).body = (q.assign a).body ↔ p.AgreeUnassigned a q := by
  have hbytes : (p.assign a).body = (q.assign a).body ↔ p.assign a = q.assign a :=
    ⟨body_inj (by rw [classOf_assign, classOf_assign, hclass]), congrArg body⟩
  rw [hbytes]
  cases p <;> cases q <;> cases hclass <;>
    simp only [assign, AgreeUnassigned, Packet.base.injEq, Packet.connectionComms.injEq,
      Packet.position.injEq, Packet.movement.injEq, ConnectionCommsPacket.mk.injEq,
      MovementPacket.mk.injEq, BasePacket.assign_eq_iff, PositionPacket.assign_eq_iff,
      getD_eq_getD_iff]

/-- The member that no constructor initialises. -/
def uninitialised : Packet → UInt16
  | .connectionComms p => p.connectionId
  | _ => 0

/-- Every member its constructor initialises is assigned or has the constructor's value. -/
def AsNew (a : Assignments) (p : Packet) : Prop :=
  p.AgreeUnassigned a (p.classOf.createMethod p.uninitialised)

/-- A packet goes out like a new one, over some uninitialised memory, exactly if each member
that is not assigned has the constructor's value. -/
theorem like_new_iff (a : Assignments) (p : Packet) :
    (∃ raw, (p.assign a).body = ((p.classOf.createMethod raw).assign a).body) ↔ p.AsNew a := by
  have hclass : ∀ raw, p.classOf = (p.classOf.createMethod raw).classOf := by
    intro raw
    cases p <;> rfl
  constructor
  · rintro ⟨raw, hbytes⟩
    rw [body_assign_eq_iff a (hclass raw)] at hbytes
    cases p with
    | connectionComms p => exact ⟨hbytes.1, fun _ => rfl⟩
    | base p => exact hbytes
    | position p => exact hbytes
    | movement p => exact hbytes
  · intro hnew
    exact ⟨p.uninitialised, (body_assign_eq_iff a (hclass _)).mpr hnew⟩

end Packet

/-- The packet a creation by tags hands out in a reachable state is a free one of the class, and
creating it changes no object. -/
theorem created_packet {w : World Packet PacketClass UInt16} (hw : w.Reachable PacketClass.all)
    {c : PacketClass} {r : Ref} (hr : (w.factory.create (type c) (subType c)).1 = some r) :
    (w.factory.create (type c) (subType c)).2.heap = w.factory.heap ∧
      (w.factory.heap r).classOf = c := by
  obtain ⟨stock, l, hkeeps, -⟩ := kept_of_all hw
  have hc := c.mem_all
  cases hfree : l.free (tags c) with
  | nil =>
    have hnone := hkeeps.create_none (t := type c) (s := subType c)
      fun d _ hd => (congrArg l.free hd).trans hfree
    rw [hnone] at hr
    cases hr
  | cons r' rest =>
    obtain ⟨hfirst, hheap, -⟩ := hkeeps.create_free hc hfree
    rw [hfirst] at hr
    cases hr
    have hmem : r ∈ l.free (tags c) := by
      rw [hfree]
      exact List.mem_cons_self
    exact ⟨hheap, (hkeeps.made c hc r (l.free_mem hmem)).1⟩

/-- What a recycled packet sends after some assignments. In two histories it is the same bytes
exactly if the two objects handed out agree on the members not assigned, and in one it is what a
new packet sends exactly if those members still have the constructor's values. -/
theorem recycled_packet_bytes {w w' : World Packet PacketClass UInt16}
    (hw : w.Reachable PacketClass.all) (hw' : w'.Reachable PacketClass.all) (c : PacketClass)
    {r r' : Ref} (hr : (w.factory.create (type c) (subType c)).1 = some r)
    (hr' : (w'.factory.create (type c) (subType c)).1 = some r') (a : Assignments) :
    let p := (w.factory.create (type c) (subType c)).2.heap r
    let p' := (w'.factory.create (type c) (subType c)).2.heap r'
    ((p.assign a).body = (p'.assign a).body ↔
        (w.factory.heap r).AgreeUnassigned a (w'.factory.heap r')) ∧
      ((∃ raw, (p.assign a).body = ((c.createMethod raw).assign a).body) ↔
        (w.factory.heap r).AsNew a) := by
  obtain ⟨hheap, hclass⟩ := created_packet hw hr
  obtain ⟨hheap', hclass'⟩ := created_packet hw' hr'
  intro p p'
  have hp : p = w.factory.heap r := congrFun hheap r
  have hp' : p' = w'.factory.heap r' := congrFun hheap' r'
  rw [hp, hp']
  refine ⟨Packet.body_assign_eq_iff a (hclass.trans hclass'.symm), ?_⟩
  have hnew := Packet.like_new_iff a (w.factory.heap r)
  rwa [hclass] at hnew

theorem initialWorld_reachable : initialWorld.Reachable PacketClass.all :=
  ⟨fun _ => PacketClass.basePacket.createMethod 0, 0, fun _ => 0, .refl⟩

/-- A base packet with the version of another peer. -/
abbrev foreignPacket : Packet :=
  .base { BasePacket.new 0 0 with versionNumberMajor := 7, gameProductId := 9 }

/-- A packet created, overwritten and released, and the packets in front of it created. -/
abbrev recycledWorld : World Packet PacketClass UInt16 :=
  let created := initialWorld.take (initialWorld.factory.create 0 0)
  let written : World Packet PacketClass UInt16 :=
    ⟨created.factory.assign 300 foreignPacket, created.held⟩
  let released : World Packet PacketClass UInt16 :=
    ⟨(written.factory.release 300).2, written.held.erase 300⟩
  (fun w => w.take (w.factory.create 0 0))^[99] released

theorem recycledWorld_reachable : recycledWorld.Reachable PacketClass.all := by
  have hcreates : ∀ (n : Nat) (w : World Packet PacketClass UInt16),
      Relation.ReflTransGen World.Step w ((fun w => w.take (w.factory.create 0 0))^[n] w) := by
    intro n
    induction n with
    | zero => exact fun w => .refl
    | succ n ih => exact fun w => .head (World.Step.create w 0 0) (ih _)
  refine ⟨fun _ => PacketClass.basePacket.createMethod 0, 0, fun _ => 0, ?_⟩
  apply Relation.ReflTransGen.head (World.Step.create _ 0 0)
  apply Relation.ReflTransGen.head
    (World.Step.write _ 300 foreignPacket (by decide +kernel) (by decide +kernel))
  apply Relation.ReflTransGen.head (World.Step.release _ 300 (by decide +kernel))
  exact hcreates 99 _

theorem recycled_created : (recycledWorld.factory.create 0 0).1 = some 300 := by
  decide +kernel

theorem initial_created : (initialWorld.factory.create 0 0).1 = some 300 := by
  decide +kernel

theorem sample_recycled_packet_bytes :
    let c := PacketClass.basePacket
    let a : Assignments := { gameInstanceId := some 13 }
    let p := (recycledWorld.factory.create (type c) (subType c)).2.heap (300 : Ref)
    let p' := (initialWorld.factory.create (type c) (subType c)).2.heap (300 : Ref)
    ((p.assign a).body = (p'.assign a).body ↔
        (recycledWorld.factory.heap (300 : Ref)).AgreeUnassigned a
          (initialWorld.factory.heap (300 : Ref))) ∧
      ((∃ raw, (p.assign a).body = ((c.createMethod raw).assign a).body) ↔
        (recycledWorld.factory.heap (300 : Ref)).AsNew a) :=
  recycled_packet_bytes recycledWorld_reachable initialWorld_reachable .basePacket
    recycled_created initial_created { gameInstanceId := some 13 }

/-- The next owner sets the instance id, as the sample clients do, and sends the rest of the
previous owner's members. -/
theorem recycled_packet_leaks :
    recycledWorld.Reachable PacketClass.all ∧
      (recycledWorld.factory.create 0 0).1 = some 300 ∧
      ∀ raw, (((recycledWorld.factory.create 0 0).2.heap 300).assign
          { gameInstanceId := some 13 }).body ≠
        ((PacketClass.basePacket.createMethod raw).assign { gameInstanceId := some 13 }).body := by
  refine ⟨recycledWorld_reachable, recycled_created, ?_⟩
  intro raw
  change _ ≠ ((PacketClass.basePacket.createMethod 0).assign { gameInstanceId := some 13 }).body
  decide +kernel

end SocketCPlusPlus.Packets
