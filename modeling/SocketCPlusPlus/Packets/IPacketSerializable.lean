import SocketCPlusPlus.Packets.MovementPacket

/-! The interface behind every packet pointer, and the four registered classes as its
implementation. Virtual members dispatch on the class an object was constructed with. -/
namespace SocketCPlusPlus.Packets
open Foundation SelfSerializable

/-- The static members every registered class defines. -/
class FactoryBoilerplate (Class : Type) where
  getFactoryName : Class → String
  type : Class → UInt8
  subType : Class → UInt8

export FactoryBoilerplate (getFactoryName type subType)

/-- The pair a class's packets are filed under. -/
def tags {Class : Type} [FactoryBoilerplate Class] (c : Class) : UInt8 × UInt8 :=
  (type c, subType c)

/-- A family of packet classes. `createMethod` constructs an object over what the memory
held; no member function changes an object's class. -/
class IPacketSerializable (Obj : Type) (Class Raw : outParam Type)
    extends SelfSerializable Obj where
  classOf : Obj → Class
  createMethod : Class → Raw → Obj
  classOf_createMethod : ∀ c raw, classOf (createMethod c raw) = c
  classOf_serializeIn : ∀ p data offset,
    classOf ((serializeIn p).eval data offset).1.2 = classOf p

namespace IPacketSerializable
variable {Obj Class Raw : Type} [FactoryBoilerplate Class] [IPacketSerializable Obj Class Raw]

attribute [simp] classOf_createMethod classOf_serializeIn

def getName (p : Obj) : String := getFactoryName (classOf p)
def getType (p : Obj) : UInt8 := type (classOf p)
def getSubType (p : Obj) : UInt8 := subType (classOf p)

theorem tags_classOf (p : Obj) : (getType p, getSubType p) = tags (classOf p) := rfl

end IPacketSerializable

/-- The classes the factory registers. -/
inductive PacketClass where
  | basePacket | connectionCommsPacket | positionPacket | movementPacket
  deriving DecidableEq, Repr

inductive Packet where
  | base (p : BasePacket)
  | connectionComms (p : ConnectionCommsPacket)
  | position (p : PositionPacket)
  | movement (p : MovementPacket)
  deriving DecidableEq, Repr

namespace PacketClass

protected def getFactoryName : PacketClass → String
  | .basePacket => "BasePacket"
  | .connectionCommsPacket => "ConnectionCommsPacket"
  | .positionPacket => "PositionPacket"
  | .movementPacket => "MovementPacket"

protected def type : PacketClass → UInt8
  | .basePacket => PacketType.base.toU8
  | .connectionCommsPacket => PacketType.base.toU8
  | .positionPacket => PacketType.serverTick.toU8
  | .movementPacket => PacketType.serverTick.toU8

protected def subType : PacketClass → UInt8
  | .basePacket => BasePacket.SubType.type.toU8
  | .connectionCommsPacket => BasePacket.SubType.commsHandshake.toU8
  | .positionPacket => ServerTickPacket.SubType.position.toU8
  | .movementPacket => ServerTickPacket.SubType.movement.toU8

instance : FactoryBoilerplate PacketClass where
  getFactoryName := PacketClass.getFactoryName
  type := PacketClass.type
  subType := PacketClass.subType

/-- Each class's default constructor; only the connection id stays uninitialised. -/
def createMethod (c : PacketClass) (raw : UInt16) : Packet :=
  match c with
  | .basePacket => .base (.new PacketType.base.toU8 BasePacket.SubType.type.toU8)
  | .connectionCommsPacket => .connectionComms (.new BasePacket.SubType.commsHandshake.toU8 raw)
  | .positionPacket => .position (.new ServerTickPacket.SubType.position.toU8)
  | .movementPacket => .movement .new

/-- Bytes a body of the class occupies. -/
def size : PacketClass → Nat
  | .basePacket => FixedLayout.size BasePacket
  | .connectionCommsPacket => FixedLayout.size ConnectionCommsPacket
  | .positionPacket => FixedLayout.size PositionPacket
  | .movementPacket => FixedLayout.size MovementPacket

def ofTags : UInt8 × UInt8 → Option PacketClass
  | (0, 0) => some .basePacket
  | (0, 2) => some .connectionCommsPacket
  | (2, 1) => some .positionPacket
  | (2, 2) => some .movementPacket
  | _ => none

def all : List PacketClass :=
  [.basePacket, .connectionCommsPacket, .positionPacket, .movementPacket]

theorem mem_all (c : PacketClass) : c ∈ all := by
  cases c <;> decide

theorem ofTags_iff (pair : UInt8 × UInt8) (c : PacketClass) :
    ofTags pair = some c ↔ tags c = pair := by
  constructor
  · intro h
    unfold ofTags at h
    split at h <;> cases h <;> rfl
  · rintro rfl
    cases c <;> rfl

theorem tags_inj {c d : PacketClass} (h : tags c = tags d) : c = d := by
  have hc := (ofTags_iff _ c).mpr rfl
  rw [h, (ofTags_iff _ d).mpr rfl] at hc
  exact (Option.some.inj hc).symm

theorem names_nodup : (all.map getFactoryName).Nodup := by decide

theorem tags_nodup : (all.map tags).Nodup := by decide

theorem base_le_size (c : PacketClass) : FixedLayout.size BasePacket ≤ c.size := by
  cases c <;> decide

theorem size_lt (c : PacketClass) : c.size < 2 ^ 16 := by
  cases c <;> decide

end PacketClass

namespace Packet

def classOf : Packet → PacketClass
  | .base _ => .basePacket
  | .connectionComms _ => .connectionCommsPacket
  | .position _ => .positionPacket
  | .movement _ => .movementPacket

def toBasePacket : Packet → BasePacket
  | .base p => p
  | .connectionComms p => p.toBasePacket
  | .position p => p.toBasePacket
  | .movement p => p.toBasePacket

protected def serializeIn : Packet → Input (Bool × Packet)
  | .base p => do
      let (ok, p) ← SelfSerializable.serializeIn p
      pure (ok, .base p)
  | .connectionComms p => do
      let (ok, p) ← SelfSerializable.serializeIn p
      pure (ok, .connectionComms p)
  | .position p => do
      let (ok, p) ← SelfSerializable.serializeIn p
      pure (ok, .position p)
  | .movement p => do
      let (ok, p) ← SelfSerializable.serializeIn p
      pure (ok, .movement p)

protected def serializeOut : Packet → Output Bool
  | .base p => SelfSerializable.serializeOut p
  | .connectionComms p => SelfSerializable.serializeOut p
  | .position p => SelfSerializable.serializeOut p
  | .movement p => SelfSerializable.serializeOut p

def body : Packet → List UInt8
  | .base p => FixedLayout.body p
  | .connectionComms p => FixedLayout.body p
  | .position p => FixedLayout.body p
  | .movement p => FixedLayout.body p

def parsed (c : PacketClass) (data : Memory) (offset : Nat) : Packet :=
  match c with
  | .basePacket => .base (FixedLayout.parsed data offset)
  | .connectionCommsPacket => .connectionComms (FixedLayout.parsed data offset)
  | .positionPacket => .position (FixedLayout.parsed data offset)
  | .movementPacket => .movement (FixedLayout.parsed data offset)

theorem eval_serializeIn (p : Packet) (data : Memory) (offset : Nat) :
    p.serializeIn.eval data offset =
      ((true, parsed p.classOf data offset), offset + p.classOf.size) := by
  cases p <;> simp [Packet.serializeIn, parsed, classOf, PacketClass.size]

theorem exec_serializeOut (p : Packet) (b : Buffer) :
    p.serializeOut.exec b = (true, b.append p.body) := by
  cases p <;> simp [Packet.serializeOut, body]

@[simp] theorem classOf_parsed (c : PacketClass) (data : Memory) (offset : Nat) :
    (parsed c data offset).classOf = c := by
  cases c <;> rfl

instance : IPacketSerializable Packet PacketClass UInt16 where
  serializeIn := Packet.serializeIn
  serializeOut := Packet.serializeOut
  classOf := classOf
  createMethod := PacketClass.createMethod
  classOf_createMethod c raw := by cases c <;> rfl
  classOf_serializeIn p data offset := by
    rw [eval_serializeIn]
    exact classOf_parsed ..

@[simp] theorem body_length (p : Packet) : p.body.length = p.classOf.size := by
  cases p <;> simp [body, classOf, PacketClass.size]

@[simp] theorem body_parsed (c : PacketClass) (data : Memory) (offset : Nat) :
    (parsed c data offset).body = data.load offset c.size := by
  cases c <;> exact FixedLayout.body_parsed ..

theorem body_inj {p q : Packet} (hc : p.classOf = q.classOf) (h : p.body = q.body) : p = q := by
  cases p <;> cases q <;> cases hc <;> exact congrArg _ (FixedLayout.body_inj _ _ h)

theorem parsed_of_load {p : Packet} {data : Memory} {offset : Nat}
    (h : data.load offset p.classOf.size = p.body) : parsed p.classOf data offset = p := by
  apply body_inj (classOf_parsed ..)
  rw [body_parsed, h]

theorem parsed_congr {c : PacketClass} {data data' : Memory} {offset : Nat}
    (h : ∀ i, offset ≤ i → i < offset + c.size → data i = data' i) :
    parsed c data offset = parsed c data' offset := by
  apply body_inj (by simp)
  simp only [body_parsed]
  exact Store.load_congr h

/-- Every body begins with the base class's members, the tags first. -/
theorem body_base (p : Packet) : ∃ rest, p.body = FixedLayout.body p.toBasePacket ++ rest := by
  cases p with
  | base p => exact ⟨[], (List.append_nil _).symm⟩
  | connectionComms p => exact ⟨_, rfl⟩
  | position p => exact ⟨_, by simp only [body, FixedLayout.body, List.append_assoc]; rfl⟩
  | movement p => exact ⟨_, by simp only [body, FixedLayout.body, List.append_assoc]; rfl⟩

theorem tags_of_load {p : Packet} {data : Memory} {offset : Nat}
    (h : data.load offset p.classOf.size = p.body) :
    data offset = p.toBasePacket.packetType ∧ data (offset + 1) = p.toBasePacket.packetSubType := by
  obtain ⟨rest, hb⟩ := p.body_base
  obtain ⟨n, hn⟩ := Nat.exists_eq_add_of_le p.classOf.base_le_size
  rw [hb, hn, Store.load_add] at h
  have hload := (List.append_inj h (by simp)).1
  have hp := FixedLayout.parsed_of_load hload
  rw [← hp]
  exact ⟨rfl, rfl⟩

end Packet
end SocketCPlusPlus.Packets
