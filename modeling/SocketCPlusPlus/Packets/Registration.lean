import SocketCPlusPlus.Foundation.FirstEntry
import SocketCPlusPlus.Packets.PoolOwnership

/-! Registration in two tables. A call fills each table on its own and reports both with one
flag, so a class that shares only its name or only its pair is half registered. -/
namespace SocketCPlusPlus.Packets
open Foundation General IPacketSerializable

section Runs
variable {Obj Class Raw : Type} [FactoryBoilerplate Class]

namespace PacketMethodFactory
variable {f : PacketMethodFactory Obj Class Raw} {classes : List Class} {c : Class}

/-- What the call that registers a class under its own name and tags returns. -/
def typeRegistered (f : PacketMethodFactory Obj Class Raw) (c : Class) : Bool :=
  (f.register (getFactoryName c) (type c) (subType c) c).1

/-- A call that returns true has filed the class under both keys, one that returns false has
changed neither table. -/
def AllOrNothing (f : PacketMethodFactory Obj Class Raw) (c : Class) : Prop :=
  (f.typeRegistered c = true → (f.selfRegistery c).methods (getFactoryName c) = some c ∧
    (f.selfRegistery c).allocationMethods.lookup (tags c) = some c) ∧
  (f.typeRegistered c = false → (f.selfRegistery c).methods = f.methods ∧
    (f.selfRegistery c).allocationMethods = f.allocationMethods)

/-- The table of pairs as its lookup function. -/
def allocationMethod (f : PacketMethodFactory Obj Class Raw) (pair : TypePair) : Option Class :=
  f.allocationMethods.lookup pair

theorem typeRegistered_iff (f : PacketMethodFactory Obj Class Raw) (c : Class) :
    f.typeRegistered c = true ↔ ¬ (f.methods (getFactoryName c)).isSome ∨
      ¬ (f.allocationMethod (tags c)).isSome := by
  rw [allocationMethod, tags]
  cases hn : f.methods (getFactoryName c) <;>
    cases hp : f.allocationMethods.lookup (type c, subType c) <;>
    simp [typeRegistered, register, hn, hp]

theorem selfRegistery_methods (f : PacketMethodFactory Obj Class Raw) (c : Class) :
    (f.selfRegistery c).methods = offer getFactoryName f.methods c := by
  cases hn : f.methods (getFactoryName c) <;>
    cases hp : f.allocationMethods.lookup (type c, subType c) <;>
    simp only [selfRegistery, register, offer, hn, hp] <;> rfl

theorem selfRegistery_allocationMethods (f : PacketMethodFactory Obj Class Raw) (c : Class) :
    (f.selfRegistery c).allocationMethods =
      if (f.allocationMethod (tags c)).isSome then f.allocationMethods
      else f.allocationMethods.insert (tags c) c := by
  rw [allocationMethod, tags]
  cases hn : f.methods (getFactoryName c) <;>
    cases hp : f.allocationMethods.lookup (type c, subType c) <;>
    simp only [selfRegistery, register, hn, hp] <;> rfl

theorem selfRegistery_allocationMethod (f : PacketMethodFactory Obj Class Raw) (c : Class) :
    (f.selfRegistery c).allocationMethod = offer tags f.allocationMethod c := by
  funext pair
  rw [allocationMethod, selfRegistery_allocationMethods]
  by_cases htaken : (f.allocationMethod (tags c)).isSome
  · rw [if_pos htaken, offer_taken htaken]
    rfl
  · rw [if_neg htaken]
    by_cases hpair : pair = tags c
    · rw [hpair, AList.lookup_insert, offer_free htaken]
    · rw [AList.lookup_insert_ne hpair, offer_ne hpair]
      rfl

theorem selfRegistery_refused (hn : (f.methods (getFactoryName c)).isSome)
    (hp : (f.allocationMethod (tags c)).isSome) : f.selfRegistery c = f := by
  obtain ⟨d, hd⟩ := Option.isSome_iff_exists.mp hn
  obtain ⟨e, he⟩ := Option.isSome_iff_exists.mp hp
  rw [allocationMethod, tags] at he
  simp only [selfRegistery, register, hd, he]

/-- Both tables hold classes registered and miss none of their keys. -/
def Filed (classes : List Class) (f : PacketMethodFactory Obj Class Raw) : Prop :=
  Indexes getFactoryName classes f.methods ∧ Indexes tags classes f.allocationMethod

theorem filed_foldl (classes : List Class) (heap : Store Obj) (next : Nat) (raw : Nat → Raw) :
    Filed classes (classes.foldl selfRegistery (.start heap next raw)) := by
  induction classes using List.reverseRecOn with
  | nil => exact ⟨.empty fun _ => rfl, .empty fun _ => AList.lookup_empty _⟩
  | append_singleton classes c ih =>
    rw [List.foldl_append, List.foldl_cons, List.foldl_nil, Filed, selfRegistery_methods,
      selfRegistery_allocationMethod]
    exact ⟨ih.1.offer c, ih.2.offer c⟩

/-- A call is all or nothing exactly if both keys of its class are new or neither is. -/
theorem allOrNothing_iff (h : Filed classes f) (c : Class) : f.AllOrNothing c ↔
    (getFactoryName c ∈ classes.map getFactoryName ↔ tags c ∈ classes.map tags) := by
  have hrefused : f.typeRegistered c = false → (f.selfRegistery c).methods = f.methods ∧
      (f.selfRegistery c).allocationMethods = f.allocationMethods := by
    intro hfalse
    have hboth := mt (typeRegistered_iff f c).mpr (by rw [hfalse]; exact Bool.false_ne_true)
    rw [not_or, not_not, not_not] at hboth
    rw [selfRegistery_refused hboth.1 hboth.2]
    exact ⟨rfl, rfl⟩
  rw [AllOrNothing, and_iff_left hrefused, typeRegistered_iff, ← offer_both_iff h.1 h.2 c,
    ← selfRegistery_methods, ← selfRegistery_allocationMethod]
  rfl

theorem foldl_firsts (h : KeysAgree getFactoryName tags classes) (heap : Store Obj) (next : Nat)
    (raw : Nat → Raw) : classes.foldl selfRegistery (.start heap next raw) =
      (firsts getFactoryName classes).foldl selfRegistery
        (.start heap next raw : PacketMethodFactory Obj Class Raw) := by
  induction classes using List.reverseRecOn with
  | nil => rfl
  | append_singleton classes c ih =>
    obtain ⟨hbefore, hc⟩ := h.of_snoc
    have hfiled := filed_foldl (firsts getFactoryName classes) heap next raw
    have hkept := keptOnce_firsts hbefore
    rw [List.foldl_append, ih hbefore, firsts_snoc]
    by_cases hmem : getFactoryName c ∈ (firsts getFactoryName classes).map getFactoryName
    · have hpair := (hkept.2.mem _).mp (hc.mp ((hkept.1.mem _).mpr hmem))
      rw [if_pos hmem]
      exact selfRegistery_refused ((hfiled.1.isSome_iff _).mpr hmem)
        ((hfiled.2.isSome_iff _).mpr hpair)
    · rw [if_neg hmem, List.foldl_append]

theorem Keeps.createByName_some [IPacketSerializable Obj Class Raw] {stock : Stock TypePair Ref}
    {l : Ledger stock} (h : f.Keeps classes l) {name : String} (hm : f.methods name = some c)
    (hpool : ¬ f.Pooled (tags c) []) : ∃ r, (f.createByName name).1 = some r ∧
      getName ((f.createByName name).2.heap r) = name := by
  obtain ⟨hc, rfl⟩ := h.registered.known name c hm
  have hfree : l.free (tags c) ≠ [] := fun hnil => hpool (hnil ▸ h.pooled c hc)
  obtain ⟨r, rest, hrest⟩ := List.exists_cons_of_ne_nil hfree
  obtain ⟨hcreate, hheap, -⟩ := (h.makeShared c).create_free hc hrest
  have hitem : r ∈ stock.items (tags c) := l.free_mem (by rw [hrest]; exact List.mem_cons_self)
  have hmade := ((h.makeShared c).made c hc r hitem).1
  rw [h.createByName_eq hc]
  refine ⟨r, hcreate, ?_⟩
  rw [hheap, getName, hmade]

end PacketMethodFactory

namespace World
variable [IPacketSerializable Obj Class Raw]

/-- Every registered name whose pool is not empty yields a packet of that name. -/
def CreatesNamed (w : World Obj Class Raw) : Prop :=
  ∀ name c, w.factory.methods name = some c → ¬ w.factory.Pooled (tags c) [] →
    ∃ r, (w.factory.createByName name).1 = some r ∧
      getName ((w.factory.createByName name).2.heap r) = name

/-- Registered in this order, every call is all or nothing, and in every state from the first
`InitFactory` on names yield packets of their own. -/
def RegistersWell (classes : List Class) (heap : Store Obj) (next : Nat) (raw : Nat → Raw) : Prop :=
  (∀ before c after, classes = before ++ c :: after →
    (before.foldl PacketMethodFactory.selfRegistery
      (.start heap next raw : PacketMethodFactory Obj Class Raw)).AllOrNothing c) ∧
  ∀ w : World Obj Class Raw, Relation.ReflTransGen Step (start classes heap next raw) w →
    w.CreatesNamed

theorem createsNamed_of_agree {classes : List Class} (h : KeysAgree getFactoryName tags classes)
    (heap : Store Obj) (next : Nat) (raw : Nat → Raw) {w : World Obj Class Raw}
    (hw : Relation.ReflTransGen Step (start classes heap next raw) w) : w.CreatesNamed := by
  obtain ⟨hname, hpair⟩ := keptOnce_firsts h
  rw [start, PacketMethodFactory.foldl_firsts h] at hw
  obtain ⟨stock, l, hk, -⟩ := kept_of_reachable hname.nodup hpair.nodup ⟨heap, next, raw, hw⟩
  exact fun name c hm hpool => hk.createByName_some hm hpool

/-- Registration goes well exactly if every name registered again comes with a pair registered
before, and every pair with a name. -/
theorem registers_well_iff (classes : List Class) (heap : Store Obj) (next : Nat)
    (raw : Nat → Raw) :
    RegistersWell classes heap next raw ↔ KeysAgree getFactoryName tags classes := by
  have hcall := fun (before : List Class) (c : Class) => PacketMethodFactory.allOrNothing_iff
    (PacketMethodFactory.filed_foldl before heap next raw) c
  constructor
  · intro h before c after he
    exact (hcall before c).mp (h.1 before c after he)
  · intro h
    exact ⟨fun before c after he => (hcall before c).mpr (h before c after he),
      fun w hw => createsNamed_of_agree h heap next raw hw⟩

end World
end Runs

/-- A class of its own name over one of the four, with the tags it inherits. -/
structure DerivedClass where
  name : String
  base : PacketClass
  deriving DecidableEq

structure DerivedPacket where
  name : String
  base : Packet

instance : FactoryBoilerplate DerivedClass where
  getFactoryName := DerivedClass.name
  type c := type c.base
  subType c := subType c.base

instance : IPacketSerializable DerivedPacket DerivedClass UInt16 where
  serializeIn p := do
    let (ok, base) ← SelfSerializable.serializeIn p.base
    pure (ok, { p with base })
  serializeOut p := SelfSerializable.serializeOut p.base
  classOf p := ⟨p.name, classOf p.base⟩
  createMethod c raw := ⟨c.name, createMethod c.base raw⟩
  classOf_createMethod c raw := by simp
  classOf_serializeIn p data offset := by simp

abbrev movementClass : DerivedClass := ⟨"MovementPacket", .movementPacket⟩
abbrev dashClass : DerivedClass := ⟨"DashPacket", .movementPacket⟩

/-- The movement class registered, then one derived from it. -/
abbrev derivedWorld : World DerivedPacket DerivedClass UInt16 :=
  .start [movementClass, dashClass] (fun _ => createMethod movementClass 0) 0 (fun _ => 0)

/-- The second call succeeds, and the derived class's name yields a packet of the first. -/
theorem derived_class_half_registered :
    (PacketMethodFactory.selfRegistery (.start (fun _ => createMethod movementClass 0) 0
      (fun _ => 0) : PacketMethodFactory DerivedPacket DerivedClass UInt16)
      movementClass).typeRegistered dashClass = true ∧
    (derivedWorld.factory.createByName "DashPacket").1 = some 0 ∧
    getName ((derivedWorld.factory.createByName "DashPacket").2.heap 0) = "MovementPacket" ∧
    ¬ World.RegistersWell [movementClass, dashClass]
      (fun _ => (createMethod movementClass 0 : DerivedPacket)) 0 (fun _ => 0) := by
  refine ⟨rfl, by decide +kernel, by decide +kernel, ?_⟩
  intro h
  have hagree := (PacketMethodFactory.allOrNothing_iff
    (PacketMethodFactory.filed_foldl [movementClass] _ 0 _) dashClass).mp
      (h.1 [movementClass] dashClass [] rfl)
  exact absurd (hagree.mpr (by decide)) (by decide)

end SocketCPlusPlus.Packets
