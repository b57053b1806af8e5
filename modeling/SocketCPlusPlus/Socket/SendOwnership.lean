import SocketCPlusPlus.Foundation.History
import SocketCPlusPlus.Socket.TCPClient

/-! Who owns the packets that several clients send. A flush releases its own copy of every
queued handle, so a packet must be queued once, and by its owner, for the pools to stay sound. -/
namespace SocketCPlusPlus.Socket
open Foundation Packets IPacketSerializable

/-- The factory, the clients, and the handles the application has been given. -/
structure Senders where
  factory : PacketMethodFactory Packet PacketClass UInt16
  clients : Nat → TCPClient
  application : List Ref

namespace Senders

/-- The four classes registered and their pools filled, over any memory. -/
def start (heap : Store Packet) (next : Nat) (raw : Nat → UInt16) : Senders where
  factory := (World.start PacketClass.all heap next raw).factory
  clients _ := .new
  application := []

inductive Event where
  | create (type subType : UInt8)
  | createByName (name : String)
  | write (client : Nat) (packet : Ref)
  | startWrite (client : Nat) (uninitialised : Memory)
  | stop (client : Nat)

/-- The application keeps the handle a creation returns, if any. -/
def take (s : Senders)
    (created : Option Ref × PacketMethodFactory Packet PacketClass UInt16) : Senders :=
  { s with factory := created.2, application := s.application ++ created.1.toList }

def setClient (s : Senders) (i : Nat) (client : TCPClient) : Senders :=
  { s with clients := Function.update s.clients i client }

def startWrite (s : Senders) (i : Nat) (uninitialised : Memory) : Senders :=
  let (_, client, factory) := (s.clients i).startWrite s.factory uninitialised
  { s.setClient i client with factory := factory }

inductive Step : Senders → Event → Senders → Prop
  | create (s : Senders) (type subType : UInt8) :
      Step s (.create type subType) (s.take (s.factory.create type subType))
  | createByName (s : Senders) (name : String) :
      Step s (.createByName name) (s.take (s.factory.createByName name))
  | write (s : Senders) (i : Nat) (packet : Ref) : packet ∈ s.application →
      Step s (.write i packet) (s.setClient i ((s.clients i).write packet))
  | startWrite (s : Senders) (i : Nat) (uninitialised : Memory) :
      Step s (.startWrite i uninitialised) (s.startWrite i uninitialised)
  | stop (s : Senders) (i : Nat) : Step s (.stop i) (s.setClient i (s.clients i).stop)

/-- What a creation hands out. -/
def handedOut (s : Senders) : Event → Option Ref
  | .create type subType => (s.factory.create type subType).1
  | .createByName name => (s.factory.createByName name).1
  | _ => none

def Queued (s : Senders) (r : Ref) : Prop := ∃ i, r ∈ (s.clients i).packetOutDeque

/-- No pool has a packet twice, and no creation handed out a queued one. -/
structure Uncorrupted (s : Senders) (event : Event) (s' : Senders) : Prop where
  pools : ∀ pair, (s'.factory.pooledRefs pair).Nodup
  creation : ∀ r, s.handedOut event = some r → ¬ s.Queued r

/-- The packet given to `Write` is in no pool and in no queue. -/
def OwnWrite (s : Senders) : Event → Prop
  | .write _ packet => (∀ pair, packet ∉ s.factory.pooledRefs pair) ∧ ¬ s.Queued packet
  | _ => True

/-- The pools keep a ledger; every queued packet is out, in one queue, once. -/
structure Sound (s : Senders) {stock : Stock TypePair Ref} (l : Ledger stock) : Prop where
  keeps : s.factory.Keeps PacketClass.all l
  held : ∀ r, s.Queued r → r ∈ l.held
  once : ∀ i, (s.clients i).packetOutDeque.Nodup
  apart : ∀ i j r, r ∈ (s.clients i).packetOutDeque → r ∈ (s.clients j).packetOutDeque → i = j
  application : ∀ r ∈ s.application, ∃ pair, r ∈ stock.items pair

theorem setClient_self (s : Senders) (i : Nat) (client : TCPClient) :
    (s.setClient i client).clients i = client :=
  Function.update_self ..

theorem setClient_other (s : Senders) {i j : Nat} (client : TCPClient) (h : j ≠ i) :
    (s.setClient i client).clients j = s.clients j :=
  Function.update_of_ne h ..

theorem startWrite_running {s : Senders} {i : Nat} (uninitialised : Memory)
    (h : (s.clients i).stopped = false) : s.startWrite i uninitialised =
      { s.setClient i { s.clients i with packetOutDeque := [] } with
        factory := (s.clients i).packetOutDeque.foldl (fun f bp => (f.release bp).2) s.factory } := by
  rw [startWrite, TCPClient.startWrite_eq _ _ _ h]

theorem startWrite_stopped {s : Senders} {i : Nat} (uninitialised : Memory)
    (h : (s.clients i).stopped = true) : s.startWrite i uninitialised = s := by
  rw [startWrite, TCPClient.startWrite, h]
  simp only [if_true, setClient, Function.update_eq_self]

namespace Sound
variable {s : Senders} {stock : Stock TypePair Ref} {l : Ledger stock}

theorem take (h : s.Sound l)
    {created : Option Ref × PacketMethodFactory Packet PacketClass UInt16} {l' : Ledger stock}
    (hkeeps : created.2.Keeps PacketClass.all l')
    (hheld : l'.held = l.held ++ created.1.toList) :
    (∀ r, created.1 = some r → ¬ s.Queued r) ∧ (s.take created).Sound l' := by
  constructor
  · intro r hr hqueued
    have hnodup := l'.held_nodup
    rw [hheld, hr, Option.toList_some] at hnodup
    exact List.disjoint_of_nodup_append hnodup (h.held r hqueued) (List.mem_singleton_self r)
  · refine ⟨hkeeps, ?_, h.once, h.apart, ?_⟩
    · intro r hr
      rw [hheld]
      exact List.mem_append_left _ (h.held r hr)
    · intro r hr
      rcases List.mem_append.mp hr with hr | hr
      · exact h.application r hr
      · exact l'.accounted r (by rw [hheld]; exact List.mem_append_right _ hr)

theorem setClient (h : s.Sound l) (i : Nat) (client : TCPClient)
    (hheld : ∀ r ∈ client.packetOutDeque, r ∈ l.held) (honce : client.packetOutDeque.Nodup)
    (hapart : ∀ j ≠ i, ∀ r ∈ client.packetOutDeque, r ∉ (s.clients j).packetOutDeque) :
    (s.setClient i client).Sound l := by
  refine ⟨h.keeps, ?_, ?_, ?_, h.application⟩
  · rintro r ⟨j, hr⟩
    by_cases hj : j = i
    · rw [hj, setClient_self] at hr
      exact hheld r hr
    · rw [s.setClient_other client hj] at hr
      exact h.held r ⟨j, hr⟩
  · intro j
    by_cases hj : j = i
    · rw [hj, setClient_self]
      exact honce
    · rw [s.setClient_other client hj]
      exact h.once j
  · intro j k r hr hr'
    by_cases hj : j = i <;> by_cases hk : k = i
    · exact hj.trans hk.symm
    · rw [hj, setClient_self] at hr
      rw [s.setClient_other client hk] at hr'
      exact absurd hr' (hapart k hk r hr)
    · rw [hk, setClient_self] at hr'
      rw [s.setClient_other client hj] at hr
      exact absurd hr (hapart j hj r hr')
    · rw [s.setClient_other client hj] at hr
      rw [s.setClient_other client hk] at hr'
      exact h.apart j k r hr hr'

/-- Queueing a packet of its owner's. -/
theorem write (h : s.Sound l) (i : Nat) {packet : Ref} (happlication : packet ∈ s.application)
    (hfree : ∀ pair, packet ∉ s.factory.pooledRefs pair) (hqueued : ¬ s.Queued packet) :
    (s.setClient i ((s.clients i).write packet)).Sound l := by
  obtain ⟨pair, hitem⟩ := h.application packet happlication
  have hout := h.keeps.held_of_not_pooled hitem hfree
  apply h.setClient
  · intro r hr
    rcases List.mem_append.mp hr with hr | hr
    · exact h.held r ⟨i, hr⟩
    · rwa [List.mem_singleton.mp hr]
  · apply List.nodup_append.mpr
    refine ⟨h.once i, List.nodup_singleton packet, ?_⟩
    rintro r hr packet' hpacket rfl
    cases List.mem_singleton.mp hpacket
    exact hqueued ⟨i, hr⟩
  · intro j hj r hr hother
    rcases List.mem_append.mp hr with hr | hr
    · exact hj (h.apart j i r hother hr)
    · rw [List.mem_singleton.mp hr] at hother
      exact hqueued ⟨j, hother⟩

theorem startWrite (h : s.Sound l) (i : Nat) (uninitialised : Memory) :
    ∃ l' : Ledger stock, (s.startWrite i uninitialised).Sound l' := by
  cases hs : (s.clients i).stopped with
  | true =>
    rw [startWrite_stopped uninitialised hs]
    exact ⟨l, h⟩
  | false =>
    obtain ⟨l', hkeeps, hothers⟩ := h.keeps.release_all (s.clients i).packetOutDeque (h.once i)
      fun r hr => h.held r ⟨i, hr⟩
    have hempty := h.setClient i { s.clients i with packetOutDeque := [] } (by simp)
      List.nodup_nil (by simp)
    rw [startWrite_running uninitialised hs]
    refine ⟨l', hkeeps, ?_, hempty.once, hempty.apart, h.application⟩
    rintro r ⟨j, hr⟩
    by_cases hj : j = i
    · subst hj
      change r ∈ ((s.setClient j _).clients j).packetOutDeque at hr
      rw [setClient_self] at hr
      exact absurd hr List.not_mem_nil
    · change r ∈ ((s.setClient i _).clients j).packetOutDeque at hr
      rw [s.setClient_other _ hj] at hr
      exact hothers r (h.held r ⟨j, hr⟩) fun hr' => hj (h.apart j i r hr hr')

theorem stop (h : s.Sound l) (i : Nat) : (s.setClient i (s.clients i).stop).Sound l :=
  h.setClient i _ (fun r hr => h.held r ⟨i, hr⟩) (h.once i)
    fun j hj r hr hother => hj (h.apart j i r hother hr)

end Sound

theorem start_sound (heap : Store Packet) (next : Nat) (raw : Nat → UInt16) :
    ∃ (stock : Stock TypePair Ref) (l : Ledger stock), (start heap next raw).Sound l := by
  obtain ⟨stock, l, hkeeps, -⟩ :=
    kept_of_all (w := .start PacketClass.all heap next raw) ⟨heap, next, raw, .refl⟩
  refine ⟨stock, l, by simpa only [start] using hkeeps, ?_, fun i => List.nodup_nil, ?_, ?_⟩
  · rintro r ⟨i, hr⟩
    exact absurd hr List.not_mem_nil
  · exact fun i j r hr => absurd hr List.not_mem_nil
  · exact fun r hr => absurd hr List.not_mem_nil

/-- As long as only packets in no pool and in no queue are written, no pool ever has a packet
twice and no creation hands out a queued one. -/
theorem uncorrupted_of_own_writes {heap : Store Packet} {next : Nat} {raw : Nat → UInt16}
    {s : Senders} {taken : List (Taken Senders Event)}
    (h : History Step (start heap next raw) taken s)
    (hown : ∀ t ∈ taken, t.before.OwnWrite t.event) :
    ∀ t ∈ taken, t.before.Uncorrupted t.event t.after := by
  apply History.always (fun s => ∃ (stock : Stock TypePair Ref) (l : Ledger stock), s.Sound l)
    Uncorrupted OwnWrite (start_sound heap next raw) _ h hown
  rintro s event s' ⟨stock, l, hsound⟩ hstep hcond
  have hnext : (∀ r, s.handedOut event = some r → ¬ s.Queued r) ∧
      ∃ l' : Ledger stock, s'.Sound l' := by
    cases hstep with
    | create type subType =>
      obtain ⟨l', hkeeps, hheld⟩ := hsound.keeps.create type subType
      obtain ⟨hfresh, hsound'⟩ := hsound.take hkeeps hheld
      exact ⟨hfresh, l', hsound'⟩
    | createByName name =>
      obtain ⟨l', hkeeps, hheld⟩ := hsound.keeps.createByName name
      obtain ⟨hfresh, hsound'⟩ := hsound.take hkeeps hheld
      exact ⟨hfresh, l', hsound'⟩
    | write i packet happlication =>
      exact ⟨fun r hr => absurd hr.symm (Option.some_ne_none r), l,
        hsound.write i happlication hcond.1 hcond.2⟩
    | startWrite i uninitialised =>
      exact ⟨fun r hr => absurd hr.symm (Option.some_ne_none r),
        hsound.startWrite i uninitialised⟩
    | stop i =>
      exact ⟨fun r hr => absurd hr.symm (Option.some_ne_none r), l, hsound.stop i⟩
  obtain ⟨hfresh, l', hsound'⟩ := hnext
  exact ⟨⟨hsound'.keeps.pooledRefs_nodup, hfresh⟩, stock, l', hsound'⟩

/-- A packet just handed out may be written. -/
theorem Sound.own_write_of_created {s : Senders} {stock : Stock TypePair Ref} {l : Ledger stock}
    (h : s.Sound l) (t u : UInt8) {r : Ref} (hr : (s.factory.create t u).1 = some r) (i : Nat) :
    (s.take (s.factory.create t u)).OwnWrite (.write i r) := by
  obtain ⟨l', hkeeps, hheld⟩ := h.keeps.create t u
  have hout : r ∈ l'.held := by
    rw [hheld, hr]
    exact List.mem_append_right _ (List.mem_singleton_self r)
  exact ⟨hkeeps.held_not_pooled hout, (h.take hkeeps hheld).1 r hr⟩

abbrev sampleSenders : Senders := start (fun _ => PacketClass.basePacket.createMethod 0) 0 fun _ => 0

abbrev sampleCreated : Senders := sampleSenders.take (sampleSenders.factory.create 0 2)

theorem sample_created : (sampleSenders.factory.create 0 2).1 = some 200 := by decide +kernel

/-- The application queues the packet it was given. -/
abbrev sampleQueued : Senders := sampleCreated.setClient 0 ((sampleCreated.clients 0).write 200)

theorem sample_application : 200 ∈ sampleCreated.application := by decide +kernel

/-- It is flushed. -/
abbrev sampleSent : Senders := sampleQueued.startWrite 0 fun _ => 0

abbrev sampleTaken : List (Taken Senders Event) :=
  [⟨sampleSenders, .create 0 2, sampleCreated⟩, ⟨sampleCreated, .write 0 200, sampleQueued⟩]

abbrev sampleFlush : Taken Senders Event := ⟨sampleQueued, .startWrite 0 fun _ => 0, sampleSent⟩

theorem sample_queued_run : History Step sampleSenders sampleTaken sampleQueued :=
  .step (.step .start (.create _ 0 2)) (.write _ 0 200 sample_application)

theorem sample_own_writes : ∀ t ∈ sampleTaken ++ [sampleFlush], t.before.OwnWrite t.event := by
  obtain ⟨stock, l, hsound⟩ :=
    start_sound (fun _ => PacketClass.basePacket.createMethod 0) 0 fun _ => 0
  rw [List.forall_mem_append, List.forall_mem_cons, List.forall_mem_singleton,
    List.forall_mem_singleton]
  exact ⟨⟨trivial, hsound.own_write_of_created 0 2 sample_created 0⟩, trivial⟩

theorem sample_uncorrupted :
    sampleFlush.before.Uncorrupted sampleFlush.event sampleFlush.after :=
  uncorrupted_of_own_writes (sample_queued_run.step (.startWrite _ 0 _)) sample_own_writes
    sampleFlush (List.mem_append_right _ List.mem_cons_self)

/-- The same packet queued again, and flushed. -/
abbrev sampleQueuedTwice : Senders := sampleQueued.setClient 0 ((sampleQueued.clients 0).write 200)

abbrev sampleFlushed : Senders := sampleQueuedTwice.startWrite 0 fun _ => 0

/-- The flush puts the packet into its pool twice. -/
theorem packet_written_twice_pooled_twice :
    History Step sampleSenders (sampleTaken ++ [⟨sampleQueued, .write 0 200, sampleQueuedTwice⟩] ++
        [⟨sampleQueuedTwice, .startWrite 0 fun _ => 0, sampleFlushed⟩]) sampleFlushed ∧
      ¬ (sampleFlushed.factory.pooledRefs (0, 2)).Nodup := by
  constructor
  · exact .step (.step sample_queued_run (.write _ 0 200 sample_application)) (.startWrite _ 0 _)
  · rw [sampleFlushed, startWrite_running (fun _ => 0) rfl]
    decide +kernel

end Senders
end SocketCPlusPlus.Socket
