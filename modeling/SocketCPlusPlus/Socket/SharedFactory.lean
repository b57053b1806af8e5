import Mathlib.Data.List.FinRange
import SocketCPlusPlus.Foundation.Holdings
import SocketCPlusPlus.Socket.PacketConservation
import SocketCPlusPlus.Socket.TCPClient

/-! The server, several clients and the application in one process. They share one factory, and a
packet goes from its pool through hands and queues and back. -/
namespace SocketCPlusPlus.Packets.PacketMethodFactory
open Foundation IPacketSerializable

section Classes
variable {Obj Class Raw : Type} [FactoryBoilerplate Class] [IPacketSerializable Obj Class Raw]
  {classes : List Class} {stock : Stock TypePair Ref} {l : Ledger stock}
  {f : PacketMethodFactory Obj Class Raw}

/-- The packets in the pools of some classes. -/
def pooledOf (f : PacketMethodFactory Obj Class Raw) (classes : List Class) : List Ref :=
  classes.flatMap fun c => f.pooledRefs (tags c)

theorem Keeps.whole (h : f.Keeps classes l) (hpair : (classes.map tags).Nodup) :
    (f.pooledOf classes ++ l.held).Perm ((classes.map tags).flatMap stock.items) := by
  have hfree : f.pooledOf classes = (classes.map tags).flatMap l.free := by
    rw [List.flatMap_map]
    exact List.flatMap_congr fun c hc => h.pooledRefs_eq hc
  rw [hfree]
  refine l.whole hpair fun pair r hr => ?_
  obtain ⟨c, hc, rfl⟩ := h.filed pair r hr
  exact List.mem_map_of_mem hc

theorem Keeps.release_queue (h : f.Keeps classes l) (queue : List Ref) {others : List Ref}
    (hheld : l.held.Perm (queue ++ others)) :
    ∃ l' : Ledger stock, (queue.foldl (fun f r => (f.release r).2) f).Keeps classes l' ∧
      l'.held.Perm others := by
  induction queue generalizing f l with
  | nil => exact ⟨l, h, hheld⟩
  | cons first queue ih =>
    have hfirst : first ∈ l.held := hheld.mem_iff.mpr List.mem_cons_self
    have hitem := (h.held_class hfirst).2.1
    apply ih (h.release hfirst hitem).2
    have herase := hheld.erase first
    rwa [List.cons_append, List.erase_cons_head] at herase

end Classes
end SocketCPlusPlus.Packets.PacketMethodFactory

namespace SocketCPlusPlus.Socket
open Foundation Packets IPacketSerializable

namespace Service
variable {s s' : Service} {stock : Stock TypePair Ref} {l : Ledger stock} {others : List Ref}

/-- What a cleanup loses: what the connections that it removes have queued. -/
def dropped (s : Service) : Event → List Ref
  | .cleanup => (s.connectionsMade.filter fun p => (s.connections p).hasClosed).flatMap
      fun p => (s.connections p).inwardPackets
  | _ => []

theorem accepted_queued (hsound : s.Sound)
    (hfresh : (s.connections s.accepting).inwardPackets = []) (error : Bool)
    (raw : ServerConnection) : (s.newConnectionAcceptedHandler error raw).queued = s.queued := by
  have hold : s.connectionsMade.flatMap
      (fun p => ((s.newConnectionAcceptedHandler error raw).connections p).inwardPackets) =
      s.queued :=
    List.flatMap_congr fun p hp => by rw [accepted_other (hsound.numbered.made p hp)]
  cases error with
  | true => exact hold
  | false =>
    change (s.connectionsMade ++ [s.accepting]).flatMap _ = _
    rw [List.flatMap_append, hold, List.flatMap_singleton,
      accepted_other hsound.numbered.accepting_lt, hfresh, List.append_nil]

/-- A step of the server moves packets between the pools and its queues, and a cleanup loses some;
whatever others hold stays with them. -/
theorem step_held (hsound : s.Sound) (hfresh : (s.connections s.accepting).inwardPackets = [])
    (hkeeps : s.factory.Keeps PacketClass.all l) (hheld : l.held.Perm (s.queued ++ others))
    {event : Event} (hs : Step s event s') :
    (s'.connections s'.accepting).inwardPackets = [] ∧
      ∃ l' : Ledger stock, s'.factory.Keeps PacketClass.all l' ∧
        l'.held.Perm (s'.queued ++ (s.dropped event ++ others)) := by
  -- a connection whose part of the queues changes is listed, so it is not the fresh one
  have hother : ∀ conn ∈ s.connectionsMade, ∀ c : ServerConnection,
      ((s.setConnection conn c).connections s.accepting).inwardPackets = [] := by
    intro conn hconn c
    have hne : s.accepting ≠ conn := fun he => hsound.numbered.pending (he ▸ hconn)
    rw [setConnection_other s c hne, hfresh]
  cases hs with
  | accepted error raw =>
    refine ⟨?_, l, ?_, ?_⟩
    · cases error <;> exact congrArg (·.inwardPackets) (s.setConnection_self _ _)
    · cases error <;> exact hkeeps
    · rw [accepted_queued hsound hfresh]
      exact hheld
  | readCompleted conn bytes f c hreads hread =>
    have hconn := (hsound.scheduled.owned conn (Or.inr hreads)).1
    obtain ⟨refs, l', rfl, hkeeps', hheld', -⟩ := readSome_finished hkeeps hread
    obtain ⟨rest, hbefore, hafter⟩ := queued_split hsound.numbered.nodup hconn
    refine ⟨hother conn hconn _, l', hkeeps', ?_⟩
    have hnow := hafter { s.connections conn with
      receiveBuffer := (s.connections conn).receiveBuffer.store 0 bytes.1
      inwardPackets := (s.connections conn).inwardPackets ++ refs }
    rw [List.perm_iff_count] at hheld hbefore hnow ⊢
    intro r
    have h₁ := hheld r
    have h₂ := hbefore r
    have h₃ := hnow r
    change _ = List.count r (Service.queued (s.setConnection conn _) ++ _)
    simp only [List.count_append, hheld', dropped, List.count_nil] at h₁ h₂ h₃ ⊢
    omega
  | readFailed conn hreads =>
    have hconn := (hsound.scheduled.owned conn (Or.inr hreads)).1
    obtain ⟨rest, hbefore, hafter⟩ := queued_split hsound.numbered.nodup hconn
    refine ⟨hother conn hconn _, l, hkeeps, ?_⟩
    exact hheld.trans ((hbefore.trans (hafter (s.connections conn).close).symm).append_right others)
  | startNext conn rest hexited hunstarted => exact ⟨hfresh, l, hkeeps, hheld⟩
  | exitLoop hexited hunstarted => exact ⟨hfresh, l, hkeeps, hheld⟩
  | clear hexited => exact ⟨hfresh, l, hkeeps, hheld⟩
  | cleanup =>
    refine ⟨hfresh, l, hkeeps, ?_⟩
    rw [← List.append_assoc]
    exact hheld.trans ((Accounted.queued_cleanup s).append_right others)
  | dequeMessage conn c f hconn hdeque =>
    obtain ⟨i, rest, hqueue, rfl, rfl⟩ := ServerConnection.dequeMessage_some hdeque
    obtain ⟨elsewhere, hbefore, hafter⟩ := queued_split hsound.numbered.nodup hconn
    refine ⟨hother conn hconn _, ?_⟩
    rw [hqueue] at hbefore
    apply hkeeps.release_queue [i]
    have hnow := hafter { s.connections conn with inwardPackets := rest }
    refine hheld.trans ((hbefore.append_right others).trans ?_)
    exact (hnow.symm.append_right others).cons i

end Service
/-- The server with the factory, the clients, and the packets the application has been given and has
not passed on. -/
structure Process (n : Nat) where
  service : Service
  clients : Fin n → TCPClient
  application : List Ref

namespace Process
variable {n : Nat}

def factory (p : Process n) : PacketMethodFactory Packet PacketClass UInt16 := p.service.factory

def setFactory (p : Process n) (f : PacketMethodFactory Packet PacketClass UInt16) : Process n :=
  { p with service := { p.service with factory := f } }

def setClient (p : Process n) (i : Fin n) (client : TCPClient) : Process n :=
  { p with clients := Function.update p.clients i client }

/-- The four classes registered and their pools filled, the server started. -/
def start (heap : Store Packet) (next : Nat) (raw : Nat → UInt16)
    (memory : Nat → ServerConnection) : Process n where
  service := Service.start (World.start PacketClass.all heap next raw).factory memory
  clients _ := .new
  application := []

inductive Event (n : Nat) where
  | server (event : Service.Event)
  | initFactory
  | create (type subType : UInt8)
  | createByName (name : String)
  | assign (r : Ref) (packet : Packet)
  | release (r : Ref)
  | write (client : Fin n) (packet : Ref)
  | startWrite (client : Fin n) (uninitialised : Memory)
  | stop (client : Fin n)

/-- The application keeps the handle a creation returns, if any. -/
def take (p : Process n)
    (created : Option Ref × PacketMethodFactory Packet PacketClass UInt16) : Process n :=
  { p.setFactory created.2 with application := p.application ++ created.1.toList }

def startWrite (p : Process n) (i : Fin n) (uninitialised : Memory) : Process n :=
  let (_, client, factory) := (p.clients i).startWrite p.factory uninitialised
  (p.setClient i client).setFactory factory

/-- The application fills in, writes or releases only what it was given, and what it writes or
releases is not its own any more. -/
inductive Step : Process n → Event n → Process n → Prop
  | server (p : Process n) (event : Service.Event) (s : Service) :
      Service.Step p.service event s → Step p (.server event) { p with service := s }
  | initFactory (p : Process n) : Step p .initFactory (p.setFactory p.factory.initFactory)
  | create (p : Process n) (type subType : UInt8) :
      Step p (.create type subType) (p.take (p.factory.create type subType))
  | createByName (p : Process n) (name : String) :
      Step p (.createByName name) (p.take (p.factory.createByName name))
  | assign (p : Process n) (r : Ref) (packet : Packet) : r ∈ p.application →
      packet.classOf = (p.factory.heap r).classOf →
      Step p (.assign r packet) (p.setFactory (p.factory.assign r packet))
  | release (p : Process n) (r : Ref) : r ∈ p.application →
      Step p (.release r)
        { p.setFactory (p.factory.release r).2 with application := p.application.erase r }
  | write (p : Process n) (i : Fin n) (packet : Ref) : packet ∈ p.application →
      Step p (.write i packet)
        { p.setClient i ((p.clients i).write packet) with
          application := p.application.erase packet }
  | startWrite (p : Process n) (i : Fin n) (uninitialised : Memory) :
      Step p (.startWrite i uninitialised) (p.startWrite i uninitialised)
  | stop (p : Process n) (i : Fin n) : Step p (.stop i) (p.setClient i (p.clients i).stop)

/-- The packets queued by clients. -/
def queued (p : Process n) : List Ref := (List.finRange n).flatMap fun i => (p.clients i).packetOutDeque

/-- The packets in hands and queues. -/
def out (p : Process n) : List Ref := p.application ++ (p.queued ++ p.service.queued)

def pooled (p : Process n) : List Ref := p.factory.pooledOf PacketClass.all

/-- What a step loses. -/
def lost (t : Taken (Process n) (Event n)) : List Ref :=
  match t.event with
  | .server event => t.before.service.dropped event
  | _ => []

/-- The pools keep a ledger of what is out and what was lost. -/
structure Accounted (p : Process n) (gone : List Ref) {stock : Stock TypePair Ref}
    (l : Ledger stock) : Prop where
  keeps : p.factory.Keeps PacketClass.all l
  held : l.held.Perm (p.out ++ gone)
  sound : p.service.Sound
  fresh : (p.service.connections p.service.accepting).inwardPackets = []

theorem setClient_queued (p : Process n) (i : Fin n) : ∃ others : List Ref,
    p.queued.Perm ((p.clients i).packetOutDeque ++ others) ∧
      ∀ client, (p.setClient i client).queued.Perm (client.packetOutDeque ++ others) := by
  obtain ⟨others, hbefore, hafter⟩ := flatMap_update (List.nodup_finRange n) (List.mem_finRange i)
    fun j => (p.clients j).packetOutDeque
  refine ⟨others, hbefore, fun client => ?_⟩
  have hclients : (fun j => ((p.setClient i client).clients j).packetOutDeque) =
      Function.update (fun j => (p.clients j).packetOutDeque) i client.packetOutDeque :=
    Function.comp_update TCPClient.packetOutDeque p.clients i client
  rw [queued, hclients]
  exact hafter _

namespace Accounted
variable {p : Process n} {gone : List Ref} {stock : Stock TypePair Ref} {l l' : Ledger stock}

theorem of_parts (h : p.Accounted gone l) {f : PacketMethodFactory Packet PacketClass UInt16}
    (clients : Fin n → TCPClient) (application : List Ref) (hkeeps : f.Keeps PacketClass.all l')
    (hheld : l'.held.Perm (Process.out ⟨p.service, clients, application⟩ ++ gone)) :
    (setFactory ⟨p.service, clients, application⟩ f).Accounted gone l' where
  keeps := hkeeps
  held := hheld
  sound := ⟨h.sound.numbered.of_same rfl rfl rfl (List.Sublist.refl _) (fun _ => rfl) rfl,
    h.sound.scheduled.once, h.sound.scheduled.owned, h.sound.scheduled.passed⟩
  fresh := h.fresh

theorem take (h : p.Accounted gone l)
    {created : Option Ref × PacketMethodFactory Packet PacketClass UInt16}
    (hkeeps : created.2.Keeps PacketClass.all l')
    (hheld : l'.held = l.held ++ created.1.toList) : (p.take created).Accounted gone l' := by
  refine h.of_parts p.clients (p.application ++ created.1.toList) hkeeps ?_
  have hbefore := h.held
  rw [List.perm_iff_count] at hbefore ⊢
  intro r
  have hr := hbefore r
  simp only [out, queued, hheld, List.count_append] at hr ⊢
  omega

theorem handed (h : p.Accounted gone l) {r : Ref} (hr : r ∈ p.application) :
    l.held.Perm (r :: (p.application.erase r ++ (p.queued ++ p.service.queued)) ++ gone) := by
  have hfirst := (List.perm_cons_erase hr).append_right (p.queued ++ p.service.queued)
  exact h.held.trans (hfirst.append_right gone)

theorem release (h : p.Accounted gone l) {r : Ref} (hr : r ∈ p.application) :
    ∃ l' : Ledger stock, Accounted
      { p.setFactory (p.factory.release r).2 with application := p.application.erase r } gone l' := by
  obtain ⟨l', hkeeps, hheld⟩ := h.keeps.release_queue [r] (h.handed hr)
  exact ⟨l', h.of_parts p.clients (p.application.erase r) hkeeps hheld⟩

theorem write (h : p.Accounted gone l) (i : Fin n) {packet : Ref} (hr : packet ∈ p.application) :
    Accounted { p.setClient i ((p.clients i).write packet) with
      application := p.application.erase packet } gone l := by
  refine h.of_parts (p.setClient i ((p.clients i).write packet)).clients
    (p.application.erase packet) h.keeps ?_
  obtain ⟨others, hbefore, hafter⟩ := p.setClient_queued i
  have hnow := hafter ((p.clients i).write packet)
  have hhanded := h.handed hr
  rw [List.perm_iff_count] at hbefore hnow hhanded ⊢
  intro r
  have h₁ := hbefore r
  have h₂ := hnow r
  have h₃ := hhanded r
  change _ = List.count r (p.application.erase packet ++
    ((p.setClient i ((p.clients i).write packet)).queued ++ p.service.queued) ++ gone)
  simp only [TCPClient.write, List.cons_append, List.count_cons, List.count_append,
    List.count_nil] at h₁ h₂ h₃ ⊢
  omega

theorem startWrite (h : p.Accounted gone l) (i : Fin n) (uninitialised : Memory) :
    ∃ l' : Ledger stock, (p.startWrite i uninitialised).Accounted gone l' := by
  cases hs : (p.clients i).stopped with
  | true =>
    have hsame : p.startWrite i uninitialised = p := by
      rw [Process.startWrite, TCPClient.startWrite, hs]
      simp only [if_true, setClient, Function.update_eq_self]
      rfl
    rw [hsame]
    exact ⟨l, h⟩
  | false =>
    rw [Process.startWrite, TCPClient.startWrite_eq _ _ _ hs]
    obtain ⟨others, hbefore, hafter⟩ := p.setClient_queued i
    have hnow := hafter { p.clients i with packetOutDeque := [] }
    have hheld : l.held.Perm ((p.clients i).packetOutDeque ++
        (p.application ++ (others ++ p.service.queued) ++ gone)) := by
      have hout := h.held
      rw [List.perm_iff_count] at hbefore hout ⊢
      intro r
      have h₁ := hbefore r
      have h₂ := hout r
      simp only [out, List.count_append] at h₁ h₂ ⊢
      omega
    obtain ⟨l', hkeeps, hrest⟩ := h.keeps.release_queue _ hheld
    refine ⟨l', h.of_parts (p.setClient i { p.clients i with packetOutDeque := [] }).clients
      p.application hkeeps (hrest.trans ?_)⟩
    exact ((hnow.symm.append_right p.service.queued).append_left p.application).append_right gone

theorem stop (h : p.Accounted gone l) (i : Fin n) :
    (p.setClient i (p.clients i).stop).Accounted gone l := by
  obtain ⟨others, hbefore, hafter⟩ := p.setClient_queued i
  refine h.of_parts (p.setClient i (p.clients i).stop).clients p.application h.keeps
    (h.held.trans ?_)
  have hsame := hbefore.trans (hafter (p.clients i).stop).symm
  exact ((hsame.append_right p.service.queued).append_left p.application).append_right gone

theorem server (h : p.Accounted gone l) {event : Service.Event} {s : Service}
    (hs : Service.Step p.service event s) :
    ∃ l' : Ledger stock, Accounted { p with service := s } (gone ++ p.service.dropped event) l' := by
  have hheld : l.held.Perm (p.service.queued ++ (p.application ++ p.queued ++ gone)) := by
    have hout := h.held
    rw [List.perm_iff_count] at hout ⊢
    intro r
    have hr := hout r
    simp only [out, List.count_append] at hr ⊢
    omega
  obtain ⟨hfresh, l', hkeeps, hnow⟩ := Service.step_held h.sound h.fresh h.keeps hheld hs
  refine ⟨l', hkeeps, hnow.trans ?_, h.sound.step hs, hfresh⟩
  rw [List.perm_iff_count]
  intro r
  simp only [out, queued, List.count_append]
  omega

theorem step (h : p.Accounted gone l) {p' : Process n} {event : Event n} (hs : Step p event p') :
    ∃ l' : Ledger stock, p'.Accounted (gone ++ lost ⟨p, event, p'⟩) l' := by
  cases hs with
  | server event s hs => exact h.server hs
  | initFactory =>
    rw [h.keeps.initFactory_eq, lost, List.append_nil]
    exact ⟨l, h⟩
  | create type subType =>
    obtain ⟨l', hkeeps, hheld⟩ := h.keeps.create type subType
    rw [lost, List.append_nil]
    exact ⟨l', h.take hkeeps hheld⟩
  | createByName name =>
    obtain ⟨l', hkeeps, hheld⟩ := h.keeps.createByName name
    rw [lost, List.append_nil]
    exact ⟨l', h.take hkeeps hheld⟩
  | assign r packet hr hclass =>
    rw [lost, List.append_nil]
    exact ⟨l, h.of_parts p.clients p.application (h.keeps.assign hclass) h.held⟩
  | release r hr =>
    rw [lost, List.append_nil]
    exact h.release hr
  | write i packet hr =>
    rw [lost, List.append_nil]
    exact ⟨l, h.write i hr⟩
  | startWrite i uninitialised =>
    rw [lost, List.append_nil]
    exact h.startWrite i uninitialised
  | stop i =>
    rw [lost, List.append_nil]
    exact ⟨l, h.stop i⟩

theorem start {factory : PacketMethodFactory Packet PacketClass UInt16}
    (hkeeps : factory.Keeps PacketClass.all l) (hnone : l.held = [])
    (memory : Nat → ServerConnection) :
    Accounted (n := n) ⟨Service.start factory memory, fun _ => .new, []⟩ [] l := by
  refine ⟨hkeeps, ?_, Service.Sound.start _ memory,
    (Service.Accounted.start hkeeps hnone memory).fresh⟩
  have hqueued : Process.queued (n := n) ⟨Service.start factory memory, fun _ => .new, []⟩ = [] :=
    List.flatMap_eq_nil_iff.mpr fun _ _ => rfl
  rw [hnone, out, hqueued]
  exact List.Perm.refl _

end Accounted

/-- In every run each packet made at the start is in exactly one place: in the pool of its class, in the
application's hands, in a client's queue, in the queue of a connection that the server lists, or
among those that cleanups have lost. -/
theorem packets_conserved {heap : Store Packet} {next : Nat} {raw : Nat → UInt16}
    {memory : Nat → ServerConnection} {p : Process n} {taken : List (Taken (Process n) (Event n))}
    (h : History Step (start heap next raw memory) taken p) :
    (p.pooled ++ (p.out ++ taken.flatMap lost)).Perm
        (start heap next raw memory : Process n).pooled ∧
      (start heap next raw memory : Process n).pooled.Nodup ∧
      ∀ c ∈ PacketClass.all, ∀ r ∈ p.factory.pooledRefs (tags c), (p.factory.heap r).classOf = c := by
  obtain ⟨stock, l₀, hkeeps, hnone⟩ :=
    kept_of_all (w := World.start PacketClass.all heap next raw) ⟨heap, next, raw, .refl⟩
  have hempty : l₀.held = [] := hnone
  have hstart : (start heap next raw memory : Process n).Accounted [] l₀ :=
    Accounted.start hkeeps hempty memory
  have hafter : ∃ l : Ledger stock, p.Accounted (taken.flatMap lost) l := by
    induction h with
    | start => exact ⟨l₀, hstart⟩
    | step _ hs ih =>
      obtain ⟨l, hl⟩ := ih
      rw [List.flatMap_append, List.flatMap_singleton]
      exact hl.step hs
  obtain ⟨l, hl⟩ := hafter
  have hbefore := hstart.keeps.whole PacketClass.tags_nodup
  rw [hempty, List.append_nil] at hbefore
  have hnow := (hl.held.symm.append_left p.pooled).trans (hl.keeps.whole PacketClass.tags_nodup)
  refine ⟨hnow.trans hbefore.symm, ?_, fun c hc r hr => ?_⟩
  · exact hbefore.nodup_iff.mpr (stock.flatMap_nodup PacketClass.tags_nodup)
  · rw [hl.keeps.pooledRefs_eq hc] at hr
    exact (hl.keeps.made c hc r (l.free_mem hr)).1

abbrev sampleProcess : Process 1 :=
  start (fun _ => PacketClass.basePacket.createMethod 0) 0 (fun _ => 0) fun _ => Service.sampleMemory

abbrev sampleGiven : Process 1 := sampleProcess.take (sampleProcess.factory.create 0 2)

abbrev sampleWritten : Process 1 :=
  { sampleGiven.setClient 0 ((sampleGiven.clients 0).write 200) with
    application := sampleGiven.application.erase 200 }

abbrev sampleFlushed : Process 1 := sampleWritten.startWrite 0 fun _ => 0

abbrev sampleTaken : List (Taken (Process 1) (Event 1)) :=
  [⟨sampleProcess, .create 0 2, sampleGiven⟩, ⟨sampleGiven, .write 0 200, sampleWritten⟩,
    ⟨sampleWritten, .startWrite 0 fun _ => 0, sampleFlushed⟩]

theorem sample_given : 200 ∈ sampleGiven.application := by decide +kernel

theorem sample_flushed_run : History Step sampleProcess sampleTaken sampleFlushed :=
  .step (.step (.step .start (.create _ 0 2)) (.write _ 0 200 sample_given)) (.startWrite _ 0 _)

/-- A packet is created, written and flushed by a client. -/
theorem sample_packets_conserved :
    (sampleFlushed.pooled ++ (sampleFlushed.out ++ sampleTaken.flatMap lost)).Perm
        sampleProcess.pooled ∧
      sampleProcess.pooled.Nodup ∧
      ∀ c ∈ PacketClass.all, ∀ r ∈ sampleFlushed.factory.pooledRefs (tags c),
        (sampleFlushed.factory.heap r).classOf = c :=
  packets_conserved sample_flushed_run

end Process
end SocketCPlusPlus.Socket
