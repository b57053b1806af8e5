import Mathlib.Logic.Relation
import SocketCPlusPlus.Foundation.Ledger
import SocketCPlusPlus.Packets.PacketFactory

/-! Who owns the packets of a factory over a whole run. The pools and the handles outside
refine a ledger whose stock is fixed by the first `InitFactory`. -/
namespace SocketCPlusPlus.Packets
open Foundation General IPacketSerializable

/-- A factory and the handles its callers have not released yet. -/
structure World (Obj Class Raw : Type) where
  factory : PacketMethodFactory Obj Class Raw
  held : List Ref

namespace World
variable {Obj Class Raw : Type}

def take (w : World Obj Class Raw) (created : Option Ref × PacketMethodFactory Obj Class Raw) :
    World Obj Class Raw :=
  ⟨created.2, w.held ++ created.1.toList⟩

theorem take_held_length_le (w : World Obj Class Raw)
    (created : Option Ref × PacketMethodFactory Obj Class Raw) :
    (w.take created).held.length ≤ w.held.length + 1 := by
  have ho : created.1.toList.length ≤ 1 := Option.length_toList_le
  rw [take, List.length_append]
  omega

end World

section Runs
variable {Obj Class Raw : Type} [FactoryBoilerplate Class]

namespace World
variable [IPacketSerializable Obj Class Raw]

/-- The outstanding handles of a pair. -/
def outstanding (w : World Obj Class Raw) (pair : TypePair) : List Ref :=
  w.held.filter (fun r => (getType (w.factory.heap r), getSubType (w.factory.heap r)) = pair)

/-- What callers may do: a released handle is no longer theirs, and writing the fields of a
packet leaves its class. -/
inductive Step : World Obj Class Raw → World Obj Class Raw → Prop where
  | initFactory (w) : Step w ⟨w.factory.initFactory, w.held⟩
  | createByName (w) (name : String) : Step w (w.take (w.factory.createByName name))
  | create (w) (type subType : UInt8) : Step w (w.take (w.factory.create type subType))
  | write (w) (r : Ref) (p : Obj) (hr : r ∈ w.held)
      (hp : classOf p = classOf (w.factory.heap r)) : Step w ⟨w.factory.assign r p, w.held⟩
  | serializeIn (w) (r : Ref) (data : Memory) (offset : Nat) (hr : r ∈ w.held) :
      Step w ⟨w.factory.assign r
        ((SelfSerializable.serializeIn (w.factory.heap r)).eval data offset).1.2, w.held⟩
  | release (w) (r : Ref) (hr : r ∈ w.held) : Step w ⟨(w.factory.release r).2, w.held.erase r⟩

/-- The classes registered one after another, then the first `InitFactory`. -/
def start (classes : List Class) (heap : Store Obj) (next : Nat) (raw : Nat → Raw) :
    World Obj Class Raw :=
  ⟨(classes.foldl PacketMethodFactory.selfRegistery (.start heap next raw)).initFactory, []⟩

/-- Some run from some initial memory leads here. -/
def Reachable (classes : List Class) (w : World Obj Class Raw) : Prop :=
  ∃ heap next raw, Relation.ReflTransGen Step (start classes heap next raw) w

end World

/-! Registration. -/

namespace PacketMethodFactory

/-- The tables hold exactly these classes under their own names and tags. -/
structure Registered (classes : List Class) (f : PacketMethodFactory Obj Class Raw) : Prop where
  method : ∀ c ∈ classes, f.methods (getFactoryName c) = some c
  known : ∀ name c, f.methods name = some c → c ∈ classes ∧ getFactoryName c = name
  lookup : ∀ c ∈ classes, f.allocationMethods.lookup (tags c) = some c
  key : ∀ pair ∈ f.allocationMethods.keys, ∃ c ∈ classes, tags c = pair

namespace Registered
variable {classes : List Class} {f f' : PacketMethodFactory Obj Class Raw}

theorem of_tables (h : Registered classes f) (hmethods : f'.methods = f.methods)
    (hallocation : f'.allocationMethods = f.allocationMethods) : Registered classes f' where
  method c hc := by rw [hmethods, h.method c hc]
  known name c hc := h.known name c (by rw [← hmethods, hc])
  lookup c hc := by rw [hallocation, h.lookup c hc]
  key pair hp := h.key pair (by rwa [hallocation] at hp)

theorem tags_inj (h : Registered classes f) {c d : Class} (hc : c ∈ classes) (hd : d ∈ classes)
    (ht : tags d = tags c) : d = c := by
  have hlookup := h.lookup d hd
  rw [ht, h.lookup c hc] at hlookup
  exact (Option.some.inj hlookup).symm

theorem lookup_new (h : Registered classes f) {c : Class} (hpair : tags c ∉ classes.map tags) :
    f.allocationMethods.lookup (tags c) = none := by
  rw [AList.lookup_eq_none]
  intro hmem
  obtain ⟨d, hd, ht⟩ := h.key _ hmem
  exact hpair (ht ▸ List.mem_map_of_mem hd)

theorem methods_new (h : Registered classes f) {c : Class}
    (hname : getFactoryName c ∉ classes.map getFactoryName) :
    f.methods (getFactoryName c) = none := by
  cases hm : f.methods (getFactoryName c) with
  | none => rfl
  | some d =>
    obtain ⟨hd, he⟩ := h.known _ _ hm
    exact absurd (he ▸ List.mem_map_of_mem hd) hname

end Registered

private theorem selfRegistery_new {f : PacketMethodFactory Obj Class Raw} {c : Class}
    (hpair : f.allocationMethods.lookup (tags c) = none)
    (hname : f.methods (getFactoryName c) = none) : f.selfRegistery c =
      { f with allocationMethods := f.allocationMethods.insert (tags c) c,
               methods := Function.update f.methods (getFactoryName c) (some c) } := by
  change f.allocationMethods.lookup (type c, subType c) = none at hpair
  simp only [selfRegistery, register, hpair, hname]
  rfl

private theorem registered_snoc {f : PacketMethodFactory Obj Class Raw} {classes : List Class}
    {c : Class} (h : Registered classes f) (hname : getFactoryName c ∉ classes.map getFactoryName)
    (hpair : tags c ∉ classes.map tags) :
    Registered (classes ++ [c]) (f.selfRegistery c) ∧
      (f.selfRegistery c).creationPool = f.creationPool := by
  rw [selfRegistery_new (h.lookup_new hpair) (h.methods_new hname)]
  refine ⟨⟨?_, ?_, ?_, ?_⟩, rfl⟩
  · intro d hd
    rcases List.mem_append.mp hd with hd | hd
    · have hne : getFactoryName d ≠ getFactoryName c :=
        fun he => hname (he ▸ List.mem_map_of_mem hd)
      exact (Function.update_of_ne hne _ _).trans (h.method d hd)
    · cases List.mem_singleton.mp hd
      exact Function.update_self ..
  · intro name d hd
    change Function.update f.methods (getFactoryName c) (some c) name = some d at hd
    by_cases hn : name = getFactoryName c
    · cases hn
      rw [Function.update_self] at hd
      cases hd
      exact ⟨by simp, rfl⟩
    · rw [Function.update_of_ne hn] at hd
      obtain ⟨hmem, he⟩ := h.known name d hd
      exact ⟨List.mem_append_left _ hmem, he⟩
  · intro d hd
    rcases List.mem_append.mp hd with hd | hd
    · have hne : tags d ≠ tags c := fun he => hpair (he ▸ List.mem_map_of_mem hd)
      exact (AList.lookup_insert_ne hne).trans (h.lookup d hd)
    · cases List.mem_singleton.mp hd
      exact AList.lookup_insert _
  · intro pair hp
    rcases (AList.mem_insert _).mp (AList.mem_keys.mpr hp) with rfl | hp
    · exact ⟨c, by simp, rfl⟩
    · obtain ⟨d, hd, he⟩ := h.key pair (AList.mem_keys.mp hp)
      exact ⟨d, List.mem_append_left _ hd, he⟩

/-- Classes of distinct names and tags register side by side, and no pool changes. -/
private theorem registered_foldl {f : PacketMethodFactory Obj Class Raw}
    (done todo : List Class) (h : Registered done f)
    (hname : ((done ++ todo).map getFactoryName).Nodup) (hpair : ((done ++ todo).map tags).Nodup) :
    Registered (done ++ todo) (todo.foldl selfRegistery f) ∧
      (todo.foldl selfRegistery f).creationPool = f.creationPool := by
  induction todo generalizing f done with
  | nil => exact ⟨by simpa using h, rfl⟩
  | cons c todo ih =>
    have hsplit : done ++ c :: todo = done ++ [c] ++ todo := by simp
    have hn : getFactoryName c ∉ done.map getFactoryName := by
      rw [List.map_append, List.nodup_append] at hname
      intro hm
      exact hname.2.2 _ hm _ (by simp) rfl
    have hp : tags c ∉ done.map tags := by
      rw [List.map_append, List.nodup_append] at hpair
      intro hm
      exact hpair.2.2 _ hm _ (by simp) rfl
    obtain ⟨hreg, hpool⟩ := registered_snoc h hn hp
    rw [hsplit] at hname hpair ⊢
    obtain ⟨hfold, hpools⟩ := ih (done ++ [c]) hreg hname hpair
    exact ⟨hfold, hpools.trans hpool⟩

/-! The first `InitFactory`. -/

section Initialise
variable [IPacketSerializable Obj Class Raw]

/-- The pool of a class holds its hundred packets. -/
def Stocked (f : PacketMethodFactory Obj Class Raw) (c : Class) : Prop :=
  ∃ refs, f.Pooled (tags c) refs ∧ refs.length = numToCreate ∧ refs.Nodup ∧
    ∀ r ∈ refs, classOf (f.heap r) = c ∧ r < f.next

/-- Between two rounds of `InitFactory`: every pool there is stocked. -/
structure Initialising (classes : List Class) (f : PacketMethodFactory Obj Class Raw) : Prop where
  registered : Registered classes f
  stocked : ∀ c ∈ classes, (f.creationPool (tags c)).isSome → f.Stocked c
  unregistered : ∀ pair ∉ classes.map tags, f.creationPool pair = none

private theorem initPool_initialising {f : PacketMethodFactory Obj Class Raw}
    {classes : List Class} (h : Initialising classes f) {c : Class} (hc : c ∈ classes) :
    Initialising classes (f.initPool (tags c)) ∧
      (f.initPool (tags c)).allocationMethods = f.allocationMethods ∧
      ((f.initPool (tags c)).creationPool (tags c)).isSome ∧
      ∀ pair, (f.creationPool pair).isSome →
        ((f.initPool (tags c)).creationPool pair).isSome := by
  cases hp : f.creationPool (tags c) with
  | some buff =>
    have hs : (f.creationPool (tags c)).isSome := by rw [hp]; rfl
    rw [initPool_of_pool hs]
    exact ⟨h, rfl, hs, fun _ hpair => hpair⟩
  | none =>
    obtain ⟨heap, buff, hinit, hcont, hold, hnew⟩ :=
      initPool_new (h.registered.lookup c hc) hp
    rw [hinit]
    refine ⟨⟨h.registered.of_tables rfl rfl, ?_, ?_⟩, rfl, ?_, ?_⟩
    · intro d hd hsome
      by_cases ht : tags d = tags c
      · obtain rfl := h.registered.tags_inj hc hd ht
        refine ⟨List.range' f.next numToCreate, ⟨buff, setPool_self .., hcont⟩,
          List.length_range', List.nodup_range', ?_⟩
        intro r hr
        obtain ⟨h₁, h₂⟩ := List.mem_range'_1.mp hr
        exact ⟨hnew r h₁ h₂, h₂⟩
      · rw [setPool_ne _ buff ht] at hsome
        obtain ⟨refs, ⟨buff', hb, hcont'⟩, hlen, hnodup, hcls⟩ := h.stocked d hd hsome
        refine ⟨refs, ⟨buff', (setPool_ne _ buff ht).trans hb, hcont'⟩, hlen, hnodup, ?_⟩
        intro r hr
        obtain ⟨h₁, h₂⟩ := hcls r hr
        exact ⟨by rw [← h₁]; exact congrArg classOf (hold r h₂), Nat.lt_add_right _ h₂⟩
    · intro pair hpair
      have hne : pair ≠ tags c := fun he => hpair (he ▸ List.mem_map_of_mem hc)
      exact (setPool_ne _ buff hne).trans (h.unregistered pair hpair)
    · exact Option.isSome_of_eq_some (setPool_self ..)
    · intro pair hsome
      by_cases he : pair = tags c
      · cases he
        exact Option.isSome_of_eq_some (setPool_self ..)
      · rwa [setPool_ne _ buff he]

private theorem initPool_foldl {f : PacketMethodFactory Obj Class Raw} {classes : List Class}
    (todo : List TypePair) (h : Initialising classes f)
    (hreg : ∀ pair ∈ todo, ∃ c ∈ classes, tags c = pair) :
    Initialising classes (todo.foldl initPool f) ∧
      (todo.foldl initPool f).allocationMethods = f.allocationMethods ∧
      ∀ pair, pair ∈ todo ∨ (f.creationPool pair).isSome →
        ((todo.foldl initPool f).creationPool pair).isSome := by
  induction todo generalizing f with
  | nil => exact ⟨h, rfl, fun pair hp => hp.resolve_left (List.not_mem_nil)⟩
  | cons first todo ih =>
    obtain ⟨c, hc, rfl⟩ := hreg first List.mem_cons_self
    obtain ⟨hinit, halloc, hfirst, hkeep⟩ := initPool_initialising h hc
    obtain ⟨hfold, hallocs, hall⟩ :=
      ih hinit (fun pair hp => hreg pair (List.mem_cons_of_mem _ hp))
    refine ⟨hfold, hallocs.trans halloc, ?_⟩
    intro pair hp
    rcases hp with hp | hp
    · rcases List.mem_cons.mp hp with rfl | hp
      · exact hall _ (Or.inr hfirst)
      · exact hall pair (Or.inl hp)
    · exact hall pair (Or.inr (hkeep pair hp))

private theorem initFactory_initialised {f : PacketMethodFactory Obj Class Raw}
    {classes : List Class} (h : Initialising classes f) :
    Initialising classes f.initFactory ∧
      ∀ c ∈ classes, (f.initFactory.creationPool (tags c)).isSome := by
  obtain ⟨hinit, -, hall⟩ := initPool_foldl f.allocationMethods.keys h h.registered.key
  refine ⟨hinit, fun c hc => hall _ (Or.inl ?_)⟩
  rw [← AList.mem_keys, ← AList.lookup_isSome, h.registered.lookup c hc]
  rfl

/-! The ledger a factory keeps. -/

/-- The factory's pools are the free side of the ledger, and every item of a class's stock is
an object of that class. -/
structure Keeps (classes : List Class) {stock : Stock TypePair Ref} (l : Ledger stock)
    (f : PacketMethodFactory Obj Class Raw) : Prop where
  registered : Registered classes f
  pooled : ∀ c ∈ classes, f.Pooled (tags c) (l.free (tags c))
  unregistered : ∀ pair ∉ classes.map tags, f.creationPool pair = none
  stocked : ∀ c ∈ classes, (stock.items (tags c)).length = numToCreate
  filed : ∀ pair, ∀ r ∈ stock.items pair, ∃ c ∈ classes, tags c = pair
  made : ∀ c ∈ classes, ∀ r ∈ stock.items (tags c), classOf (f.heap r) = c ∧ r < f.next

/-- After the first `InitFactory` the whole stock is in the pools. -/
private theorem keeps_full {f : PacketMethodFactory Obj Class Raw} {classes : List Class}
    (h : Initialising classes f) (hall : ∀ c ∈ classes, (f.creationPool (tags c)).isSome) :
    ∃ stock : Stock TypePair Ref, f.Keeps classes (Ledger.full stock) := by
  have hstocked := fun c hc => h.stocked c hc (hall c hc)
  have hfiled : ∀ pair, ∀ r ∈ f.pooledRefs pair, ∃ c ∈ classes, tags c = pair := by
    intro pair r hr
    by_cases hp : pair ∈ classes.map tags
    · exact List.mem_map.mp hp
    · simp [pooledRefs, h.unregistered pair hp] at hr
  have hmade : ∀ c ∈ classes, ∀ r ∈ f.pooledRefs (tags c), classOf (f.heap r) = c ∧ r < f.next := by
    intro c hc r hr
    obtain ⟨refs, hp, -, -, hcls⟩ := hstocked c hc
    rw [pooledRefs_of_pooled hp] at hr
    exact hcls r hr
  have hnodup : ∀ pair, (f.pooledRefs pair).Nodup := by
    intro pair
    by_cases hp : pair ∈ classes.map tags
    · obtain ⟨c, hc, rfl⟩ := List.mem_map.mp hp
      obtain ⟨refs, hp, -, hn, -⟩ := hstocked c hc
      rwa [pooledRefs_of_pooled hp]
    · simp [pooledRefs, h.unregistered pair hp]
  have hdisjoint : ∀ j k r, r ∈ f.pooledRefs j → r ∈ f.pooledRefs k → j = k := by
    intro j k r hj hk
    obtain ⟨c, hc, rfl⟩ := hfiled j r hj
    obtain ⟨d, hd, rfl⟩ := hfiled k r hk
    rw [← (hmade c hc r hj).1, (hmade d hd r hk).1]
  refine ⟨⟨f.pooledRefs, hnodup, hdisjoint⟩, h.registered, ?_, h.unregistered, ?_, hfiled, hmade⟩
  · intro c hc
    obtain ⟨refs, hp, -, -, -⟩ := hstocked c hc
    change f.Pooled (tags c) (f.pooledRefs (tags c))
    rwa [pooledRefs_of_pooled hp]
  · intro c hc
    obtain ⟨refs, hp, hlen, -, -⟩ := hstocked c hc
    change (f.pooledRefs (tags c)).length = _
    rw [pooledRefs_of_pooled hp, hlen]

namespace Keeps
variable {classes : List Class} {stock : Stock TypePair Ref} {l : Ledger stock}
  {f : PacketMethodFactory Obj Class Raw}

/-- Every held packet is of a registered class and in that class's stock. -/
theorem held_class (h : f.Keeps classes l) {r : Ref} (hr : r ∈ l.held) :
    classOf (f.heap r) ∈ classes ∧ r ∈ stock.items (tags (classOf (f.heap r))) ∧ r < f.next := by
  obtain ⟨pair, hp⟩ := l.accounted r hr
  obtain ⟨c, hc, rfl⟩ := h.filed pair r hp
  obtain ⟨hcls, hlt⟩ := h.made c hc r hp
  rw [hcls]
  exact ⟨hc, hp, hlt⟩

theorem initFactory_eq (h : f.Keeps classes l) : f.initFactory = f := by
  apply initFactory_of_pools
  intro pair hp
  obtain ⟨c, hc, rfl⟩ := h.registered.key pair hp
  obtain ⟨buff, hb, -⟩ := h.pooled c hc
  exact Option.isSome_of_eq_some hb

theorem assign (h : f.Keeps classes l) {r : Ref} {p : Obj} (hp : classOf p = classOf (f.heap r)) :
    (f.assign r p).Keeps classes l := by
  refine ⟨h.registered.of_tables rfl rfl, h.pooled, h.unregistered, h.stocked, h.filed, ?_⟩
  intro c hc s hs
  obtain ⟨hcls, hlt⟩ := h.made c hc s hs
  refine ⟨?_, hlt⟩
  by_cases he : s = r
  · cases he
    rw [assign_self, hp, hcls]
  · rw [assign_ne _ _ he, hcls]

theorem makeShared (h : f.Keeps classes l) (c : Class) : (f.makeShared c).2.Keeps classes l := by
  refine ⟨h.registered.of_tables rfl rfl, h.pooled, h.unregistered, h.stocked, h.filed, ?_⟩
  intro d hd r hr
  obtain ⟨hcls, hlt⟩ := h.made d hd r hr
  refine ⟨?_, Nat.lt_succ_of_lt hlt⟩
  rw [makeShared_old _ _ (Nat.ne_of_lt hlt), hcls]

theorem setPool (h : f.Keeps classes l) {c : Class} (hc : c ∈ classes) {buff : Pool}
    {l' : Ledger stock} (hself : buff.contents = (l'.free (tags c)).map some)
    (hother : ∀ pair ≠ tags c, l'.free pair = l.free pair) :
    (f.setPool (tags c) buff).Keeps classes l' := by
  refine ⟨h.registered.of_tables rfl rfl, ?_, ?_, h.stocked, h.filed, h.made⟩
  · intro d hd
    by_cases ht : tags d = tags c
    · rw [ht]
      exact ⟨buff, setPool_self .., hself⟩
    · obtain ⟨buff', hb, hcont⟩ := h.pooled d hd
      exact ⟨buff', (setPool_ne f buff ht).trans hb, by rw [hcont, hother _ ht]⟩
  · intro pair hp
    have hne : pair ≠ tags c := fun he => hp (he ▸ List.mem_map_of_mem hc)
    exact (setPool_ne f buff hne).trans (h.unregistered pair hp)

theorem create_free (h : f.Keeps classes l) {c : Class} (hc : c ∈ classes) {r : Ref}
    {rest : List Ref} (hfree : l.free (tags c) = r :: rest) :
    (f.create (type c) (subType c)).1 = some r ∧
      (f.create (type c) (subType c)).2.heap = f.heap ∧
      (f.create (type c) (subType c)).2.Keeps classes (l.take hfree) := by
  obtain ⟨buff, hcont, hcreate⟩ := create_cons (hfree ▸ h.pooled c hc)
  rw [hcreate]
  refine ⟨rfl, rfl, h.setPool hc ?_ fun pair hne => l.take_free_ne hfree hne⟩
  rw [hcont, l.take_free_self]

/-- Creation fails exactly for an unregistered pair or one whose packets are all out, and
then changes nothing. -/
theorem create_none (h : f.Keeps classes l) {t s : UInt8}
    (hnone : ∀ c ∈ classes, tags c = (t, s) → l.free (tags c) = []) :
    f.create t s = (none, f) := by
  by_cases hp : (t, s) ∈ classes.map tags
  · obtain ⟨c, hc, ht⟩ := List.mem_map.mp hp
    have hpool := h.pooled c hc
    rw [hnone c hc ht, ht] at hpool
    exact create_nil hpool
  · exact create_unregistered (h.unregistered _ hp)

theorem create (h : f.Keeps classes l) (t s : UInt8) :
    ∃ l' : Ledger stock, (f.create t s).2.Keeps classes l' ∧
      l'.held = l.held ++ (f.create t s).1.toList := by
  by_cases hfree : ∃ c ∈ classes, tags c = (t, s) ∧ l.free (tags c) ≠ []
  · obtain ⟨c, hc, ht, hne⟩ := hfree
    obtain ⟨r, rest, hrest⟩ := List.exists_cons_of_ne_nil hne
    cases ht
    obtain ⟨hr, -, hkeep⟩ := h.create_free hc hrest
    exact ⟨l.take hrest, hkeep, by rw [hr]; rfl⟩
  · have hnone : ∀ c ∈ classes, tags c = (t, s) → l.free (tags c) = [] := by
      intro c hc ht
      by_contra hne
      exact hfree ⟨c, hc, ht, hne⟩
    rw [h.create_none hnone]
    exact ⟨l, h, (List.append_nil _).symm⟩

/-- Creation by name is creation by the tags of the class the name is registered for. -/
theorem createByName_eq (h : f.Keeps classes l) {c : Class} (hc : c ∈ classes) :
    f.createByName (getFactoryName c) =
      (f.makeShared c).2.create (type c) (subType c) := by
  have htemp : classOf ((f.makeShared c).2.heap (f.makeShared c).1) = c := f.makeShared_new c
  simp only [PacketMethodFactory.createByName, h.registered.method c hc, getType, getSubType, htemp]

theorem createByName (h : f.Keeps classes l) (name : String) :
    ∃ l' : Ledger stock, (f.createByName name).2.Keeps classes l' ∧
      l'.held = l.held ++ (f.createByName name).1.toList := by
  cases hm : f.methods name with
  | none =>
    simp only [PacketMethodFactory.createByName, hm]
    exact ⟨l, h, (List.append_nil _).symm⟩
  | some c =>
    obtain ⟨hc, rfl⟩ := h.registered.known name c hm
    rw [h.createByName_eq hc]
    exact (h.makeShared c).create (type c) (subType c)

/-- Release files a held packet behind the free ones of its class. -/
theorem release (h : f.Keeps classes l) {r : Ref} (hr : r ∈ l.held)
    (hitem : r ∈ stock.items (tags (classOf (f.heap r)))) :
    (f.release r).1 = true ∧ (f.release r).2.Keeps classes (l.give hr hitem) := by
  have hc := (h.held_class hr).1
  have hroom := l.room hr hitem
  rw [h.stocked _ hc] at hroom
  obtain ⟨buff, hcont, hrelease⟩ := release_pooled (h.pooled _ hc) hroom
  rw [hrelease]
  refine ⟨rfl, h.setPool hc ?_ fun pair hne => l.give_free_ne hr hitem hne⟩
  rw [hcont, l.give_free_self]

theorem pooledRefs_eq (h : f.Keeps classes l) {c : Class} (hc : c ∈ classes) :
    f.pooledRefs (tags c) = l.free (tags c) :=
  pooledRefs_of_pooled (h.pooled c hc)

theorem pooledRefs_nodup (h : f.Keeps classes l) (pair : TypePair) : (f.pooledRefs pair).Nodup := by
  by_cases hp : pair ∈ classes.map tags
  · obtain ⟨c, hc, rfl⟩ := List.mem_map.mp hp
    rw [h.pooledRefs_eq hc]
    exact (l.nodup (tags c)).of_append_left
  · simp [pooledRefs, h.unregistered pair hp]

theorem held_of_not_pooled (h : f.Keeps classes l) {pair : TypePair} {r : Ref}
    (hitem : r ∈ stock.items pair) (hfree : ∀ pair, r ∉ f.pooledRefs pair) : r ∈ l.held := by
  obtain ⟨c, hc, rfl⟩ := h.filed pair r hitem
  have hfree := hfree (tags c)
  rw [h.pooledRefs_eq hc] at hfree
  rcases List.mem_append.mp ((l.balanced (tags c)).mem_iff.mpr hitem) with hr | hr
  · exact absurd hr hfree
  · exact (l.mem_outstanding.mp hr).1

theorem held_not_pooled (h : f.Keeps classes l) {r : Ref} (hr : r ∈ l.held) (pair : TypePair) :
    r ∉ f.pooledRefs pair := by
  by_cases hp : pair ∈ classes.map tags
  · obtain ⟨c, hc, rfl⟩ := List.mem_map.mp hp
    rw [h.pooledRefs_eq hc]
    exact fun hfree => l.free_not_held hfree hr
  · simp [pooledRefs, h.unregistered pair hp]

theorem pooled_add_held [DecidableEq Class] (h : f.Keeps classes l) {c : Class} (hc : c ∈ classes) :
    (f.pooledRefs (tags c)).length + l.held.countP (fun r => classOf (f.heap r) = c) = 100 := by
  have hout : l.held.countP (fun r => classOf (f.heap r) = c) =
      (l.outstanding (tags c)).length := by
    rw [Ledger.outstanding, ← List.countP_eq_length_filter]
    apply List.countP_congr
    intro r hr
    rw [decide_eq_true_iff, decide_eq_true_iff]
    constructor
    · intro hclass
      have hitem := (h.held_class hr).2.1
      rwa [hclass] at hitem
    · exact fun hitem => (h.made c hc r hitem).1
  rw [h.pooledRefs_eq hc, hout, l.length_eq, h.stocked c hc]
  rfl

theorem release_all (h : f.Keeps classes l) (queue : List Ref) (hnodup : queue.Nodup)
    (hheld : ∀ r ∈ queue, r ∈ l.held) :
    ∃ l' : Ledger stock, (queue.foldl (fun f r => (f.release r).2) f).Keeps classes l' ∧
      ∀ r ∈ l.held, r ∉ queue → r ∈ l'.held := by
  induction queue generalizing f l with
  | nil => exact ⟨l, h, fun r hr _ => hr⟩
  | cons first queue ih =>
    rw [List.nodup_cons] at hnodup
    rw [List.forall_mem_cons] at hheld
    have hitem := (h.held_class hheld.1).2.1
    have hrest : ∀ r ∈ queue, r ∈ (l.give hheld.1 hitem).held := by
      intro r hr
      have hne : r ≠ first := fun he => hnodup.1 (he ▸ hr)
      exact (List.mem_erase_of_ne hne).mpr (hheld.2 r hr)
    obtain ⟨l', hkeeps, hothers⟩ := ih (h.release hheld.1 hitem).2 hnodup.2 hrest
    refine ⟨l', hkeeps, ?_⟩
    intro r hr hnot
    rw [List.mem_cons, not_or] at hnot
    exact hothers r ((List.mem_erase_of_ne hnot.1).mpr hr) hnot.2

end Keeps
end Initialise
end PacketMethodFactory

/-! Every reachable state keeps a ledger. -/

namespace World
variable [IPacketSerializable Obj Class Raw] {classes : List Class} {w : World Obj Class Raw}

/-- The factory keeps a ledger whose held side is what the callers hold. -/
def Kept (classes : List Class) (w : World Obj Class Raw) : Prop :=
  ∃ (stock : Stock TypePair Ref) (l : Ledger stock), w.factory.Keeps classes l ∧ l.held = w.held

private theorem kept_start (hname : (classes.map getFactoryName).Nodup)
    (hpair : (classes.map tags).Nodup) (heap : Store Obj) (next : Nat) (raw : Nat → Raw) :
    (start classes heap next raw).Kept classes := by
  have hnone : PacketMethodFactory.Registered ([] : List Class) (.start heap next raw) :=
    ⟨by simp, fun _ _ hm => (Option.some_ne_none _ hm.symm).elim, by simp, by
      intro pair hp
      exact absurd (AList.mem_keys.mpr hp) (AList.notMem_empty pair)⟩
  obtain ⟨hreg, hpools⟩ := PacketMethodFactory.registered_foldl [] classes hnone hname hpair
  have hempty : ∀ pair, (classes.foldl PacketMethodFactory.selfRegistery
      (.start heap next raw)).creationPool pair = none := fun pair => congrFun hpools pair
  have hinit : PacketMethodFactory.Initialising classes
      (classes.foldl PacketMethodFactory.selfRegistery (.start heap next raw)) := by
    refine ⟨hreg, fun c _ hsome => ?_, fun pair _ => hempty pair⟩
    rw [hempty] at hsome
    cases hsome
  obtain ⟨hdone, hall⟩ := PacketMethodFactory.initFactory_initialised hinit
  obtain ⟨stock, hkeeps⟩ := PacketMethodFactory.keeps_full hdone hall
  exact ⟨stock, Ledger.full stock, hkeeps, rfl⟩

private theorem kept_step {w' : World Obj Class Raw} (h : w.Kept classes) (hs : Step w w') :
    w'.Kept classes := by
  obtain ⟨stock, l, hk, hheld⟩ := h
  cases hs with
  | initFactory => exact ⟨stock, l, by rwa [hk.initFactory_eq], hheld⟩
  | createByName name =>
    obtain ⟨l', hk', hheld'⟩ := hk.createByName name
    exact ⟨stock, l', hk', by rw [hheld', hheld]; rfl⟩
  | create t s =>
    obtain ⟨l', hk', hheld'⟩ := hk.create t s
    exact ⟨stock, l', hk', by rw [hheld', hheld]; rfl⟩
  | write r p hr hp => exact ⟨stock, l, hk.assign hp, hheld⟩
  | serializeIn r data offset hr => exact ⟨stock, l, hk.assign (by simp), hheld⟩
  | release r hr =>
    have hl : r ∈ l.held := hheld ▸ hr
    have hitem := (hk.held_class hl).2.1
    exact ⟨stock, l.give hl hitem, (hk.release hl hitem).2, by rw [l.give_held, hheld]⟩

theorem kept_of_reachable (hname : (classes.map getFactoryName).Nodup)
    (hpair : (classes.map tags).Nodup) (hw : w.Reachable classes) : w.Kept classes := by
  obtain ⟨heap, next, raw, hsteps⟩ := hw
  induction hsteps with
  | refl => exact kept_start hname hpair heap next raw
  | tail _ hs ih => exact kept_step ih hs

theorem outstanding_eq {stock : Stock TypePair Ref} {l : Ledger stock}
    (hk : w.factory.Keeps classes l) (hheld : l.held = w.held) {c : Class} (hc : c ∈ classes) :
    w.outstanding (tags c) = l.outstanding (tags c) := by
  rw [outstanding, Ledger.outstanding, hheld]
  apply List.filter_congr
  intro r hr
  obtain ⟨-, hitem, -⟩ := hk.held_class (hheld ▸ hr)
  rw [decide_eq_decide, tags_classOf]
  constructor
  · intro ht
    rwa [ht] at hitem
  · intro hm
    rw [(hk.made c hc r hm).1]

theorem free_add_outstanding {stock : Stock TypePair Ref} {l : Ledger stock}
    (hk : w.factory.Keeps classes l) (hheld : l.held = w.held) {c : Class} (hc : c ∈ classes) :
    (l.free (tags c)).length + (w.outstanding (tags c)).length = 100 := by
  rw [outstanding_eq hk hheld hc, l.length_eq, hk.stocked c hc]
  rfl

/-- Who owns the packets in one state: for every registered pair its pool and its outstanding
handles, what a release and a creation do, and that both ways to create share the pool. -/
structure PoolsOwned (classes : List Class) (w : World Obj Class Raw) : Prop where
  hundred : ∀ c ∈ classes, ∃ pooled, w.factory.Pooled (tags c) pooled ∧
    (pooled ++ w.outstanding (tags c)).length = 100 ∧
    (pooled ++ w.outstanding (tags c)).Nodup ∧
    ∀ r ∈ pooled ++ w.outstanding (tags c), classOf (w.factory.heap r) = c
  no_alias : w.held.Nodup
  registered : ∀ r ∈ w.held, classOf (w.factory.heap r) ∈ classes
  release_files : ∀ r ∈ w.held, ∀ pooled,
    w.factory.Pooled (tags (classOf (w.factory.heap r))) pooled →
    (w.factory.release r).1 = true ∧
    (w.factory.release r).2.Pooled (tags (classOf (w.factory.heap r))) (pooled ++ [r]) ∧
    ∀ pair ≠ tags (classOf (w.factory.heap r)),
      (w.factory.release r).2.creationPool pair = w.factory.creationPool pair
  create_null : ∀ c ∈ classes, (w.factory.create (type c) (subType c)).1 = none ↔
    (w.outstanding (tags c)).length = 100
  one_pool : ∀ c ∈ classes, (w.factory.createByName (getFactoryName c)).1 =
      (w.factory.create (type c) (subType c)).1 ∧
    (w.factory.createByName (getFactoryName c)).2.creationPool =
      (w.factory.create (type c) (subType c)).2.creationPool

private theorem owned_hundred {stock : Stock TypePair Ref} {l : Ledger stock}
    (hk : w.factory.Keeps classes l) (hheld : l.held = w.held) {c : Class} (hc : c ∈ classes) :
    ∃ pooled, w.factory.Pooled (tags c) pooled ∧
      (pooled ++ w.outstanding (tags c)).length = 100 ∧
      (pooled ++ w.outstanding (tags c)).Nodup ∧
      ∀ r ∈ pooled ++ w.outstanding (tags c), classOf (w.factory.heap r) = c := by
  rw [outstanding_eq hk hheld hc]
  refine ⟨l.free (tags c), hk.pooled c hc, ?_, l.nodup _, ?_⟩
  · rw [List.length_append, l.length_eq, hk.stocked c hc]
    rfl
  · intro r hr
    exact (hk.made c hc r (l.mem_items hr)).1

private theorem owned_release {stock : Stock TypePair Ref} {l : Ledger stock}
    (hk : w.factory.Keeps classes l) {r : Ref} (hr : r ∈ l.held) {pooled : List Ref}
    (hp : w.factory.Pooled (tags (classOf (w.factory.heap r))) pooled) :
    (w.factory.release r).1 = true ∧
      (w.factory.release r).2.Pooled (tags (classOf (w.factory.heap r))) (pooled ++ [r]) ∧
      ∀ pair ≠ tags (classOf (w.factory.heap r)),
        (w.factory.release r).2.creationPool pair = w.factory.creationPool pair := by
  obtain ⟨hc, hitem, -⟩ := hk.held_class hr
  have hroom := l.room hr hitem
  rw [hk.stocked _ hc, ← PacketMethodFactory.pooled_unique hp (hk.pooled _ hc)] at hroom
  obtain ⟨buff, hcont, hrelease⟩ := PacketMethodFactory.release_pooled hp hroom
  rw [hrelease]
  exact ⟨rfl, ⟨buff, PacketMethodFactory.setPool_self .., hcont⟩,
    fun pair hne => PacketMethodFactory.setPool_ne _ buff hne⟩

private theorem owned_create {stock : Stock TypePair Ref} {l : Ledger stock}
    (hk : w.factory.Keeps classes l) (hheld : l.held = w.held) {c : Class} (hc : c ∈ classes) :
    (w.factory.create (type c) (subType c)).1 = none ↔ (w.outstanding (tags c)).length = 100 := by
  have hsum := free_add_outstanding hk hheld hc
  cases hfree : l.free (tags c) with
  | nil =>
    rw [PacketMethodFactory.create_nil (hfree ▸ hk.pooled c hc)]
    rw [hfree, List.length_nil] at hsum
    exact iff_of_true rfl (by omega)
  | cons r rest =>
    rw [(hk.create_free hc hfree).1]
    rw [hfree, List.length_cons] at hsum
    exact iff_of_false (Option.some_ne_none r) (by omega)

/-- After registrations under distinct names and pairs and a first `InitFactory`, whatever the
callers do, every state owns its pools. -/
theorem pool_ownership (classes : List Class) (w : World Obj Class Raw)
    (hname : (classes.map getFactoryName).Nodup) (hpair : (classes.map tags).Nodup)
    (hw : w.Reachable classes) : w.PoolsOwned classes := by
  obtain ⟨stock, l, hk, hheld⟩ := kept_of_reachable hname hpair hw
  refine ⟨fun c hc => owned_hundred hk hheld hc, hheld ▸ l.held_nodup, ?_, ?_,
    fun c hc => owned_create hk hheld hc, ?_⟩
  · intro r hr
    exact (hk.held_class (hheld ▸ hr)).1
  · intro r hr pooled hp
    exact owned_release hk (hheld ▸ hr) hp
  · intro c hc
    rw [hk.createByName_eq hc]
    exact PacketMethodFactory.create_congr (type c) (subType c) rfl

end World
end Runs

/-- The four classes registered and their pools filled. -/
abbrev initialWorld : World Packet PacketClass UInt16 :=
  .start PacketClass.all (fun _ => PacketClass.basePacket.createMethod 0) 0 (fun _ => 0)

theorem initial_outstanding (pair : TypePair) : initialWorld.outstanding pair = [] := rfl

theorem kept_of_all {w : World Packet PacketClass UInt16} (hw : w.Reachable PacketClass.all) :
    ∃ (stock : Stock TypePair Ref) (l : Ledger stock),
      w.factory.Keeps PacketClass.all l ∧ l.held = w.held :=
  World.kept_of_reachable PacketClass.names_nodup PacketClass.tags_nodup hw

/-- One packet of the comms class taken by its tags. -/
abbrev sampleWorld : World Packet PacketClass UInt16 :=
  initialWorld.take (initialWorld.factory.create 0 2)

theorem sampleWorld_reachable : sampleWorld.Reachable PacketClass.all :=
  ⟨_, _, _, Relation.ReflTransGen.single (World.Step.create _ 0 2)⟩

theorem sample_pool_ownership : sampleWorld.PoolsOwned PacketClass.all :=
  World.pool_ownership PacketClass.all sampleWorld PacketClass.names_nodup
    PacketClass.tags_nodup sampleWorld_reachable
end SocketCPlusPlus.Packets
