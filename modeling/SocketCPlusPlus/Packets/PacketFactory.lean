import Mathlib.Data.List.AList
import SocketCPlusPlus.General.CircularBuffer
import SocketCPlusPlus.Packets.IPacketSerializable

/-! The packet factory: its registration tables, one pool for each tag pair, and the objects
its pointers lead to. A table is its lookup function; the table `InitFactory` iterates over
also lists its keys. Addresses are never reused. -/
namespace SocketCPlusPlus.Packets
open Foundation General IPacketSerializable

abbrev TypePair := UInt8 × UInt8

/-- The target of a shared pointer; a null pointer is `none`. -/
abbrev Ref := Nat

/-- Packets made for each registered pair. -/
def numToCreate : Nat := 100

abbrev Pool := CircularBuffer (Option Ref) numToCreate

/-- `raw` is what memory holds where no object has been constructed yet. -/
structure PacketMethodFactory (Obj Class Raw : Type) where
  methods : String → Option Class
  allocationMethods : AList (fun _ : TypePair => Class)
  creationPool : TypePair → Option Pool
  heap : Store Obj
  next : Nat
  raw : Nat → Raw

namespace PacketMethodFactory

section Operations
variable {Obj Class Raw : Type} [FactoryBoilerplate Class] [IPacketSerializable Obj Class Raw]

/-- The static tables before anything is registered. -/
def start (heap : Store Obj) (next : Nat) (raw : Nat → Raw) : PacketMethodFactory Obj Class Raw where
  methods _ := none
  allocationMethods := ∅
  creationPool _ := none
  heap := heap
  next := next
  raw := raw

def assign (f : PacketMethodFactory Obj Class Raw) (r : Ref) (p : Obj) :
    PacketMethodFactory Obj Class Raw :=
  { f with heap := Function.update f.heap r p }

def setPool (f : PacketMethodFactory Obj Class Raw) (pair : TypePair) (buff : Pool) :
    PacketMethodFactory Obj Class Raw :=
  { f with creationPool := Function.update f.creationPool pair (some buff) }

/-- A class's `CreateMethod`: construct an object at a fresh address. -/
def makeShared (f : PacketMethodFactory Obj Class Raw) (c : Class) :
    Ref × PacketMethodFactory Obj Class Raw :=
  (f.next, { f.assign f.next (createMethod c (f.raw f.next)) with next := f.next + 1 })

def register (f : PacketMethodFactory Obj Class Raw) (name : String) (type subType : UInt8)
    (funcCreate : Class) : Bool × PacketMethodFactory Obj Class Raw :=
  let matchPair := (type, subType)
  let (success, f) := match f.allocationMethods.lookup matchPair with
    | none => (true, { f with allocationMethods := f.allocationMethods.insert matchPair funcCreate })
    | some _ => (false, f)
  match f.methods name with
  | none => (true, { f with methods := Function.update f.methods name (some funcCreate) })
  | some _ => (success, f)

/-- A class registers itself under its own name and tags. -/
def selfRegistery (f : PacketMethodFactory Obj Class Raw) (c : Class) :
    PacketMethodFactory Obj Class Raw :=
  (f.register (getFactoryName c) (type c) (subType c) c).2

def allocate (f : PacketMethodFactory Obj Class Raw) (type subType : UInt8) :
    Option Ref × PacketMethodFactory Obj Class Raw :=
  match f.allocationMethods.lookup (type, subType) with
  | some c =>
    let (alloc, f) := f.makeShared c
    (some alloc, f)
  | none => (none, f)

def isPoolAlreadyAllocated (f : PacketMethodFactory Obj Class Raw) (typePair : TypePair) : Bool :=
  (f.creationPool typePair).isSome

/-- The loop that fills a new pool. -/
def fillPool (typePair : TypePair) : Nat → PacketMethodFactory Obj Class Raw → Pool →
    Pool × PacketMethodFactory Obj Class Raw
  | 0, f, buff => (buff, f)
  | n+1, f, buff =>
    let (pointer, f) := f.allocate typePair.1 typePair.2
    fillPool typePair n f (buff.put pointer)

/-- One round of `InitFactory`. -/
def initPool (f : PacketMethodFactory Obj Class Raw) (typePair : TypePair) :
    PacketMethodFactory Obj Class Raw :=
  if f.isPoolAlreadyAllocated typePair then f
  else
    let (buff, f) := fillPool typePair numToCreate f (.new (by decide))
    f.setPool typePair buff

def initFactory (f : PacketMethodFactory Obj Class Raw) : PacketMethodFactory Obj Class Raw :=
  f.allocationMethods.keys.foldl initPool f

/-- `_ASSERT` is a no-op, as in a release build. -/
def create (f : PacketMethodFactory Obj Class Raw) (type subType : UInt8) :
    Option Ref × PacketMethodFactory Obj Class Raw :=
  match f.creationPool (type, subType) with
  | some buff =>
    let (p, buff) := buff.get
    (p, f.setPool (type, subType) buff)
  | none => (none, f)

/-- Makes a temporary packet to learn its tags, then draws from the pool. -/
def createByName (f : PacketMethodFactory Obj Class Raw) (name : String) :
    Option Ref × PacketMethodFactory Obj Class Raw :=
  match f.methods name with
  | some c =>
    let (temp, f) := f.makeShared c
    f.create (getType (f.heap temp)) (getSubType (f.heap temp))
  | none => (none, f)

/-- The packet is filed by its class's static tags. -/
def release (f : PacketMethodFactory Obj Class Raw) (data : Ref) :
    Bool × PacketMethodFactory Obj Class Raw :=
  let type := getType (f.heap data)
  let subType := getSubType (f.heap data)
  match f.creationPool (type, subType) with
  | some buff =>
    (true, f.setPool (type, subType) (buff.put (some data)))
  | none => (false, f)

end Operations

/-! What the operations do to a pool seen as a queue of packets. -/

section Pools
variable {Obj Class Raw : Type}

/-- The pool of a pair exists and holds these packets, the next one to hand out first. -/
def Pooled (f : PacketMethodFactory Obj Class Raw) (pair : TypePair) (refs : List Ref) : Prop :=
  ∃ buff, f.creationPool pair = some buff ∧ buff.contents = refs.map some

theorem pooled_unique {f : PacketMethodFactory Obj Class Raw} {pair : TypePair}
    {refs refs' : List Ref} (h : f.Pooled pair refs) (h' : f.Pooled pair refs') : refs = refs' := by
  obtain ⟨buff, hb, hc⟩ := h
  obtain ⟨buff', hb', hc'⟩ := h'
  cases hb.symm.trans hb'
  exact List.map_injective_iff.mpr (Option.some_injective Ref) (hc.symm.trans hc')

def pooledRefs (f : PacketMethodFactory Obj Class Raw) (pair : TypePair) : List Ref :=
  match f.creationPool pair with
  | some buff => buff.contents.filterMap id
  | none => []

theorem pooledRefs_of_pooled {f : PacketMethodFactory Obj Class Raw} {pair : TypePair}
    {refs : List Ref} (h : f.Pooled pair refs) : f.pooledRefs pair = refs := by
  obtain ⟨buff, hb, hc⟩ := h
  simp [pooledRefs, hb, hc]

theorem setPool_self (f : PacketMethodFactory Obj Class Raw) (pair : TypePair) (buff : Pool) :
    (f.setPool pair buff).creationPool pair = some buff := by
  simp only [setPool, Function.update_self]

theorem setPool_ne (f : PacketMethodFactory Obj Class Raw) {pair other : TypePair} (buff : Pool)
    (h : other ≠ pair) : (f.setPool pair buff).creationPool other = f.creationPool other := by
  simp only [setPool, Function.update_of_ne h]

theorem assign_self (f : PacketMethodFactory Obj Class Raw) (r : Ref) (p : Obj) :
    (f.assign r p).heap r = p := by
  simp only [assign, Function.update_self]

theorem assign_ne (f : PacketMethodFactory Obj Class Raw) {r s : Ref} (p : Obj) (h : s ≠ r) :
    (f.assign r p).heap s = f.heap s := by
  simp only [assign, Function.update_of_ne h]

/-- Creation takes the first packet of the pair's pool and touches nothing else. -/
theorem create_cons [FactoryBoilerplate Class] {f : PacketMethodFactory Obj Class Raw} {c : Class}
    {r : Ref} {rest : List Ref} (h : f.Pooled (tags c) (r :: rest)) :
    ∃ buff : Pool, buff.contents = rest.map some ∧
      f.create (type c) (subType c) = (some r, f.setPool (tags c) buff) := by
  obtain ⟨buff, hb, hc⟩ := h
  obtain ⟨hr, hrest⟩ := buff.get_of_cons hc
  refine ⟨buff.get.2, hrest, ?_⟩
  change f.creationPool (type c, subType c) = some buff at hb
  simp only [create, hb, hr]
  rfl

theorem create_nil {f : PacketMethodFactory Obj Class Raw} {t s : UInt8}
    (h : f.Pooled (t, s) []) : f.create t s = (none, f) := by
  obtain ⟨buff, hb, hc⟩ := h
  have hsame : Function.update f.creationPool (t, s) (some buff) = f.creationPool :=
    Function.update_eq_self_iff.mpr hb.symm
  simp only [create, hb, buff.get_of_empty hc, setPool, hsame]
  rfl

theorem release_heap [FactoryBoilerplate Class] [IPacketSerializable Obj Class Raw]
    (f : PacketMethodFactory Obj Class Raw) (r : Ref) : (f.release r).2.heap = f.heap := by
  unfold release
  dsimp only
  split <;> rfl

theorem create_congr {f g : PacketMethodFactory Obj Class Raw} (t s : UInt8)
    (h : g.creationPool = f.creationPool) : (g.create t s).1 = (f.create t s).1 ∧
      (g.create t s).2.creationPool = (f.create t s).2.creationPool := by
  cases hp : f.creationPool (t, s) with
  | none => simp only [create, h, hp, and_self]
  | some buff => simp only [create, setPool, h, hp, and_self]

theorem create_unregistered {f : PacketMethodFactory Obj Class Raw} {t s : UInt8}
    (h : f.creationPool (t, s) = none) : f.create t s = (none, f) := by
  simp only [create, h]

theorem makeShared_new [IPacketSerializable Obj Class Raw]
    (f : PacketMethodFactory Obj Class Raw) (c : Class) :
    classOf ((f.makeShared c).2.heap f.next) = c := by
  change classOf ((f.assign f.next (createMethod c (f.raw f.next))).heap f.next) = c
  rw [assign_self, classOf_createMethod]

theorem makeShared_old [IPacketSerializable Obj Class Raw]
    (f : PacketMethodFactory Obj Class Raw) (c : Class) {r : Ref} (h : r ≠ f.next) :
    (f.makeShared c).2.heap r = f.heap r :=
  f.assign_ne _ h

theorem allocate_registered [IPacketSerializable Obj Class Raw]
    {f : PacketMethodFactory Obj Class Raw} {pair : TypePair} {c : Class}
    (h : f.allocationMethods.lookup pair = some c) :
    f.allocate pair.1 pair.2 = (some f.next, (f.makeShared c).2) := by
  simp only [allocate, h]
  rfl

end Pools

section Members
variable {Obj Class Raw : Type} [IPacketSerializable Obj Class Raw]

theorem release_pooled [FactoryBoilerplate Class] {f : PacketMethodFactory Obj Class Raw}
    {data : Ref} {refs : List Ref} (h : f.Pooled (tags (classOf (f.heap data))) refs)
    (hfree : refs.length < numToCreate) :
    ∃ buff : Pool, buff.contents = (refs ++ [data]).map some ∧
      f.release data = (true, f.setPool (tags (classOf (f.heap data))) buff) := by
  obtain ⟨buff, hb, hc⟩ := h
  refine ⟨buff.put (some data), ?_, ?_⟩
  · have hlen : buff.size = refs.length := by
      rw [← CircularBuffer.contents_length, hc, List.length_map]
    have hfull := CircularBuffer.not_full_of_size_lt (hlen ▸ hfree)
    rw [buff.put_contents, hfull, hc]
    simp
  · rw [← tags_classOf] at hb ⊢
    simp only [release, hb]

/-- The loop puts consecutive fresh objects of the registered class behind what is there. -/
theorem fillPool_spec {pair : TypePair} {c : Class} (n : Nat)
    (f : PacketMethodFactory Obj Class Raw) (buff : Pool)
    (h : f.allocationMethods.lookup pair = some c) (hfree : buff.size + n ≤ numToCreate) :
    ∃ (heap : Store Obj) (buff' : Pool),
      fillPool pair n f buff = (buff', { f with heap := heap, next := f.next + n }) ∧
      buff'.contents = buff.contents ++ (List.range' f.next n).map some ∧
      (∀ r < f.next, heap r = f.heap r) ∧
      ∀ r, f.next ≤ r → r < f.next + n → classOf (heap r) = c := by
  induction n generalizing f buff with
  | zero => exact ⟨f.heap, buff, rfl, by simp, fun _ _ => rfl, fun r h₁ h₂ => by omega⟩
  | succ n ih =>
    let g := (f.makeShared c).2
    have hfull : buff.full = false := CircularBuffer.not_full_of_size_lt (by omega)
    have hsize : (buff.put (some f.next)).size = buff.size + 1 := by
      rw [buff.put_size, hfull]
      rfl
    obtain ⟨heap, buff', hfill, hcont, hold, hnew⟩ :=
      ih g (buff.put (some f.next)) h (by rw [hsize]; omega)
    have hnext : g.next = f.next + 1 := rfl
    refine ⟨heap, buff', ?_, ?_, ?_, ?_⟩
    · rw [fillPool, allocate_registered h]
      apply hfill.trans
      rw [hnext, Nat.add_assoc, Nat.add_comm 1 n]
      rfl
    · rw [hcont, buff.put_contents, hfull, hnext, List.range'_succ]
      simp
    · intro r hr
      rw [hold r (by rw [hnext]; omega)]
      exact f.makeShared_old c (Nat.ne_of_lt hr)
    · intro r h₁ h₂
      by_cases hr : r = f.next
      · rw [hold r (by rw [hnext]; omega), hr]
        exact f.makeShared_new c
      · exact hnew r (by rw [hnext]; omega) (by rw [hnext]; omega)

theorem initPool_new {f : PacketMethodFactory Obj Class Raw} {pair : TypePair} {c : Class}
    (h : f.allocationMethods.lookup pair = some c) (hnone : f.creationPool pair = none) :
    ∃ (heap : Store Obj) (buff : Pool), f.initPool pair =
        setPool { f with heap := heap, next := f.next + numToCreate } pair buff ∧
      buff.contents = (List.range' f.next numToCreate).map some ∧
      (∀ r < f.next, heap r = f.heap r) ∧
      ∀ r, f.next ≤ r → r < f.next + numToCreate → classOf (heap r) = c := by
  have hnew : (CircularBuffer.new (by decide) : Pool).contents = [] :=
    CircularBuffer.new_contents _
  have hsize : (CircularBuffer.new (by decide) : Pool).size = 0 := by
    rw [← CircularBuffer.contents_length, hnew]
    rfl
  obtain ⟨heap, buff, hfill, hcont, hold, hcls⟩ :=
    fillPool_spec numToCreate f (.new (by decide)) h (by omega)
  refine ⟨heap, buff, ?_, ?_, hold, hcls⟩
  · simp only [initPool, isPoolAlreadyAllocated, hnone, Option.isSome_none, Bool.false_eq_true,
      if_false, hfill]
  · rw [hcont, hnew, List.nil_append]

theorem initPool_of_pool {f : PacketMethodFactory Obj Class Raw} {pair : TypePair}
    (h : (f.creationPool pair).isSome) : f.initPool pair = f := by
  simp only [initPool, isPoolAlreadyAllocated, h, if_true]

/-- `InitFactory` changes nothing once every pair has its pool. -/
theorem initFactory_of_pools {f : PacketMethodFactory Obj Class Raw}
    (h : ∀ pair ∈ f.allocationMethods.keys, (f.creationPool pair).isSome) :
    f.initFactory = f := by
  unfold initFactory
  generalize f.allocationMethods.keys = todo at h
  induction todo with
  | nil => rfl
  | cons pair todo ih =>
    rw [List.foldl_cons, initPool_of_pool (h pair List.mem_cons_self)]
    exact ih (fun p hp => h p (List.mem_cons_of_mem _ hp))

end Members
end PacketMethodFactory
end SocketCPlusPlus.Packets
