import SocketCPlusPlus.Foundation.Holdings
import SocketCPlusPlus.Packets.PoolOwnership

/-! The factory over the life of a process: registrations, initialisations and shutdowns, in any
order and more than once, while callers hold packets. -/
namespace SocketCPlusPlus.Packets
open Foundation General IPacketSerializable

section Lifetimes
variable {Obj Class Raw : Type}

namespace PacketMethodFactory
variable {f : PacketMethodFactory Obj Class Raw}

theorem setPool_pooledRefs (f : PacketMethodFactory Obj Class Raw) (pair : TypePair)
    (buff : Pool) : (f.setPool pair buff).pooledRefs =
      Function.update f.pooledRefs pair (buff.contents.filterMap id) := by
  funext other
  by_cases hpair : other = pair
  · rw [hpair, Function.update_self, pooledRefs, setPool_self]
  · rw [Function.update_of_ne hpair, pooledRefs, setPool_ne _ _ hpair, pooledRefs]

theorem pooledRefs_some {pair : TypePair} {buff : Pool} (h : f.creationPool pair = some buff) :
    f.pooledRefs pair = buff.contents.filterMap id := by
  rw [pooledRefs, h]

theorem pooledRefs_none {pair : TypePair} (h : f.creationPool pair = none) :
    f.pooledRefs pair = [] := by
  rw [pooledRefs, h]

/-- A creation takes what it hands out from the front of one pool. -/
theorem create_pooledRefs (f : PacketMethodFactory Obj Class Raw) (type subType : UInt8) :
    ∃ rest, (f.create type subType).2.pooledRefs =
        Function.update f.pooledRefs (type, subType) rest ∧
      (f.create type subType).1.toList ++ rest = f.pooledRefs (type, subType) ∧
      (f.create type subType).2.next = f.next := by
  cases hpool : f.creationPool (type, subType) with
  | none =>
    rw [create_unregistered hpool]
    exact ⟨_, (Function.update_eq_self _ _).symm, rfl, rfl⟩
  | some buff =>
    have hcreate : f.create type subType = (buff.get.1, f.setPool (type, subType) buff.get.2) := by
      rw [create, hpool]
    rw [hcreate, setPool_pooledRefs, pooledRefs_some hpool]
    refine ⟨_, rfl, ?_, rfl⟩
    cases hcontents : buff.contents with
    | nil => rw [buff.get_of_empty hcontents, hcontents]; rfl
    | cons first rest =>
      obtain ⟨hfirst, hrest⟩ := buff.get_of_cons hcontents
      rw [hfirst, hrest]
      cases first <;> rfl

end PacketMethodFactory

namespace World
variable {w w' : World Obj Class Raw}

/-- No packet has two owners, and none is to be made again. -/
structure Owned (w : World Obj Class Raw) : Prop where
  exclusive : Exclusive w.factory.pooledRefs w.held
  pooled : ∀ pair, ∀ r ∈ w.factory.pooledRefs pair, r < w.factory.next
  held : ∀ r ∈ w.held, r < w.factory.next

namespace Owned

theorem of_same (h : w.Owned) (hpools : w'.factory.pooledRefs = w.factory.pooledRefs)
    (hheld : w'.held = w.held) (hnext : w.factory.next ≤ w'.factory.next) : w'.Owned := by
  refine ⟨?_, fun pair r hr => ?_, fun r hr => ?_⟩
  · rw [hpools, hheld]
    exact h.exclusive
  · rw [hpools] at hr
    exact Nat.lt_of_lt_of_le (h.pooled pair r hr) hnext
  · rw [hheld] at hr
    exact Nat.lt_of_lt_of_le (h.held r hr) hnext

theorem of_move (h : w.Owned) {pair : TypePair} {refs : List Ref}
    (hpools : w'.factory.pooledRefs = Function.update w.factory.pooledRefs pair refs)
    (hmove : (refs ++ w'.held).Subperm (w.factory.pooledRefs pair ++ w.held))
    (hnext : w'.factory.next = w.factory.next) : w'.Owned := by
  have hmade : ∀ r ∈ refs ++ w'.held, r < w.factory.next := by
    intro r hr
    rcases List.mem_append.mp (hmove.subset hr) with hold | hold
    · exact h.pooled pair r hold
    · exact h.held r hold
  rw [List.forall_mem_append] at hmade
  refine ⟨?_, fun other r hr => ?_, hnext ▸ hmade.2⟩
  · rw [hpools]
    exact h.exclusive.move pair hmove
  · rw [hnext]
    rw [hpools] at hr
    by_cases hother : other = pair
    · rw [hother, Function.update_self] at hr
      exact hmade.1 r hr
    · rw [Function.update_of_ne hother] at hr
      exact h.pooled other r hr

theorem create (h : w.Owned) (type subType : UInt8) :
    (w.take (w.factory.create type subType)).Owned := by
  obtain ⟨rest, hpools, hrest, hnext⟩ := w.factory.create_pooledRefs type subType
  refine h.of_move hpools ?_ hnext
  rw [← hrest]
  refine List.Perm.subperm ((List.perm_append_comm.append_left rest).trans ?_)
  rw [← List.append_assoc]
  exact List.perm_append_comm.append_right w.held

section Make
variable [IPacketSerializable Obj Class Raw]

theorem makeShared (h : w.Owned) (c : Class) :
    Owned ⟨(w.factory.makeShared c).2, w.held⟩ :=
  h.of_same rfl rfl (Nat.le_succ _)

theorem initPool (h : w.Owned) {pair : TypePair}
    (hpair : (w.factory.allocationMethods.lookup pair).isSome) :
    Owned ⟨w.factory.initPool pair, w.held⟩ ∧
      (w.factory.initPool pair).allocationMethods = w.factory.allocationMethods := by
  obtain ⟨c, hc⟩ := Option.isSome_iff_exists.mp hpair
  cases hpool : w.factory.creationPool pair with
  | some buff =>
    rw [PacketMethodFactory.initPool_of_pool (Option.isSome_of_eq_some hpool)]
    exact ⟨h, rfl⟩
  | none =>
    obtain ⟨heap, buff, hinit, hcontents, -, -⟩ := PacketMethodFactory.initPool_new hc hpool
    have hpools : (w.factory.initPool pair).pooledRefs = Function.update w.factory.pooledRefs pair
        (List.range' w.factory.next numToCreate) := by
      rw [hinit, PacketMethodFactory.setPool_pooledRefs, hcontents, List.filterMap_map]
      exact congrArg _ (List.filterMap_some ..)
    have hnext : (w.factory.initPool pair).next = w.factory.next + numToCreate := by
      rw [hinit]
      rfl
    refine ⟨⟨?_, fun other r hr => ?_, fun r hr => ?_⟩, by rw [hinit]; rfl⟩
    · rw [hpools]
      apply h.exclusive.stock (PacketMethodFactory.pooledRefs_none hpool) List.nodup_range'
      intro r hr
      have hnew := (List.mem_range'_1.mp hr).1
      exact ⟨fun hheld => absurd (h.held r hheld) (Nat.not_lt.mpr hnew),
        fun j hj => absurd (h.pooled j r hj) (Nat.not_lt.mpr hnew)⟩
    · rw [hnext]
      rw [hpools] at hr
      by_cases hother : other = pair
      · rw [hother, Function.update_self] at hr
        exact (List.mem_range'_1.mp hr).2
      · rw [Function.update_of_ne hother] at hr
        exact Nat.lt_add_right _ (h.pooled other r hr)
    · rw [hnext]
      exact Nat.lt_add_right _ (h.held r hr)

theorem initFactory (h : w.Owned) : Owned ⟨w.factory.initFactory, w.held⟩ := by
  have hrounds : ∀ (todo : List TypePair) (f : PacketMethodFactory Obj Class Raw),
      Owned ⟨f, w.held⟩ → (∀ pair ∈ todo, (f.allocationMethods.lookup pair).isSome) →
        Owned ⟨todo.foldl PacketMethodFactory.initPool f, w.held⟩ := by
    intro todo
    induction todo with
    | nil => exact fun f hf _ => hf
    | cons pair todo ih =>
      intro f hf hlookup
      rw [List.forall_mem_cons] at hlookup
      obtain ⟨hround, htable⟩ := hf.initPool hlookup.1
      apply ih _ hround
      rw [htable]
      exact hlookup.2
  apply hrounds _ _ h
  exact fun pair hpair => AList.lookup_isSome.mpr (AList.mem_keys.mpr hpair)

end Make
end Owned
end World

variable [FactoryBoilerplate Class] [IPacketSerializable Obj Class Raw]

/-- A release puts the packet behind one pool, or nowhere; a full pool loses its first packet. -/
theorem PacketMethodFactory.release_pooledRefs (f : PacketMethodFactory Obj Class Raw)
    (data : Ref) :
    ∃ pair refs, (f.release data).2.pooledRefs = Function.update f.pooledRefs pair refs ∧
      (refs.Sublist (f.pooledRefs pair ++ [data])) ∧ (f.release data).2.next = f.next := by
  let pair : TypePair := (getType (f.heap data), getSubType (f.heap data))
  cases hpool : f.creationPool pair with
  | none =>
    have hsame : f.release data = (false, f) := by rw [release, hpool]
    rw [hsame]
    exact ⟨pair, _, (Function.update_eq_self _ _).symm, List.sublist_append_left _ _, rfl⟩
  | some buff =>
    have hput : f.release data = (true, f.setPool pair (buff.put (some data))) := by
      rw [release, hpool]
    rw [hput, setPool_pooledRefs]
    refine ⟨pair, _, rfl, ?_, rfl⟩
    rw [pooledRefs_some hpool, buff.put_contents, List.filterMap_append]
    refine List.Sublist.append (List.Sublist.filterMap id ?_) (List.Sublist.refl _)
    split
    · exact List.tail_sublist _
    · exact List.Sublist.refl _

namespace World
variable {w w' : World Obj Class Raw}

namespace Owned

theorem release (h : w.Owned) {r : Ref} (hr : r ∈ w.held) :
    Owned ⟨(w.factory.release r).2, w.held.erase r⟩ := by
  obtain ⟨pair, refs, hpools, hrefs, hnext⟩ := w.factory.release_pooledRefs r
  refine h.of_move hpools ?_ hnext
  refine (hrefs.append_right _).subperm.trans (List.Perm.subperm ?_)
  rw [List.append_assoc]
  exact (List.perm_cons_erase hr).symm.append_left _

theorem step (h : w.Owned) (hs : Step w w') : w'.Owned := by
  cases hs with
  | initFactory => exact h.initFactory
  | createByName name =>
    rw [PacketMethodFactory.createByName]
    split
    · next c hc =>
      exact (h.makeShared c).create _ _
    · exact h.of_same rfl (List.append_nil _) (Nat.le_refl _)
  | create type subType => exact h.create type subType
  | write r p hr hp => exact h.of_same rfl rfl (Nat.le_refl _)
  | serializeIn r data offset hr => exact h.of_same rfl rfl (Nat.le_refl _)
  | release r hr => exact h.release hr

end Owned

end World
end Lifetimes

end SocketCPlusPlus.Packets
