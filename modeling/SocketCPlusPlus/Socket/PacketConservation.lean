import SocketCPlusPlus.Socket.TCPServer

/-! Where the packets of the server are. A read takes them from the pools into its connection's
queue and a dequeue returns them; what a closed connection still has queued is lost with it. -/
namespace SocketCPlusPlus.Socket
open Foundation Packets IPacketSerializable

namespace Service

def queued (s : Service) : List Ref :=
  s.connectionsMade.flatMap fun p => (s.connections p).inwardPackets

/-- Every class has its hundred packets in its pool and in the queues. -/
def Conserved (s : Service) : Prop :=
  ∀ c ∈ PacketClass.all, (s.factory.pooledRefs (tags c)).length +
    s.queued.countP (fun r => (s.factory.heap r).classOf = c) = 100

/-- A cleanup finds nothing queued by the connections it removes. -/
def CleansUpEmpty (s : Service) : Event → Prop
  | .cleanup => ∀ p ∈ s.connectionsMade, (s.connections p).hasClosed = true →
      (s.connections p).inwardPackets = []
  | _ => True

/-- The pools keep a ledger whose held packets are the queued ones, and the connection that waits
for an accept has none. -/
structure Accounted (s : Service) : Prop where
  kept : ∃ (stock : Stock TypePair Ref) (l : Ledger stock),
    s.factory.Keeps PacketClass.all l ∧ l.held.Perm s.queued
  fresh : (s.connections s.accepting).inwardPackets = []

theorem Accounted.conserved {s : Service} (h : s.Accounted) : s.Conserved := by
  obtain ⟨stock, l, hkeeps, hheld⟩ := h.kept
  intro c hc
  rw [← hheld.countP_eq]
  exact hkeeps.pooled_add_held hc

theorem readSome_frame (conn : TCPConnection) {stock : Stock TypePair Ref} {l : Ledger stock}
    {f : PacketMethodFactory Packet PacketClass UInt16} (hkeeps : f.Keeps PacketClass.all l)
    (hnone : l.held = []) {p : Packet} (hown : OwnTags p) :
    (conn.readSome f (wire [p])).1 = .finished ∧
      (conn.readSome f (wire [p])).2.2.inwardPackets ≠ [] := by
  have hgroup := decode_group conn.receiveBuffer [p] fun q hq => List.mem_singleton.mp hq ▸ hown
  have henough : ∀ c, [p].countP (·.classOf = c) ≤ (l.free (tags c)).length := by
    intro c
    have hsum := hkeeps.pooled_add_held (PacketClass.mem_all c)
    have hle := List.countP_le_length (p := fun q : Packet => decide (q.classOf = c)) (l := [p])
    rw [hnone, List.countP_nil, hkeeps.pooledRefs_eq (PacketClass.mem_all c)] at hsum
    rw [List.length_singleton] at hle
    omega
  obtain ⟨f', refs, l', hread, -, -, hmap, -⟩ := readSome_decode conn hkeeps (wire [p])
    fun c => by rw [hgroup]; exact henough c
  rw [hgroup] at hread hmap
  rw [hread]
  refine ⟨rfl, fun hempty => ?_⟩
  rw [(List.append_eq_nil_iff.mp hempty).2] at hmap
  cases hmap

theorem queued_split {s : Service} (hnodup : s.connectionsMade.Nodup) {conn : Nat}
    (hconn : conn ∈ s.connectionsMade) : ∃ others : List Ref,
    s.queued.Perm ((s.connections conn).inwardPackets ++ others) ∧
      ∀ c : ServerConnection, (s.setConnection conn c).queued.Perm (c.inwardPackets ++ others) := by
  have hfirst := List.perm_cons_erase hconn
  refine ⟨(s.connectionsMade.erase conn).flatMap fun p => (s.connections p).inwardPackets, ?_, ?_⟩
  · exact hfirst.flatMap_right _
  · intro c
    refine (hfirst.flatMap_right _).trans ?_
    have hrest : (s.connectionsMade.erase conn).flatMap
        (fun p => ((s.setConnection conn c).connections p).inwardPackets) =
        (s.connectionsMade.erase conn).flatMap fun p => (s.connections p).inwardPackets := by
      apply List.flatMap_congr
      intro p hp
      have hne : p ≠ conn := fun he => hnodup.not_mem_erase (he ▸ hp)
      rw [setConnection_other _ _ hne]
    rw [List.flatMap_cons, setConnection_self, hrest]

theorem start_queued (factory : PacketMethodFactory Packet PacketClass UInt16)
    (memory : Nat → ServerConnection) : (start factory memory).queued = [] := rfl

namespace Accounted
variable {s : Service}

theorem accepted (h : s.Accounted) (hsound : s.Sound) (error : Bool) (raw : ServerConnection) :
    (s.newConnectionAcceptedHandler error raw).Accounted := by
  obtain ⟨stock, l, hkeeps, hheld⟩ := h.kept
  have hold : s.connectionsMade.flatMap
      (fun p => ((s.newConnectionAcceptedHandler error raw).connections p).inwardPackets) =
      s.queued := by
    apply List.flatMap_congr
    intro p hp
    rw [accepted_other (hsound.numbered.made p hp)]
  have hfresh : ((s.setConnection s.created ((ServerConnection.create raw).setConnectionId
      s.server.connectionIdTracking.toUInt32.toUInt16)).connections s.created).inwardPackets = [] := by
    rw [setConnection_self]
    rfl
  cases error with
  | true =>
    refine ⟨⟨stock, l, hkeeps, ?_⟩, hfresh⟩
    exact hheld.trans (List.Perm.of_eq hold.symm)
  | false =>
    refine ⟨⟨stock, l, hkeeps, ?_⟩, hfresh⟩
    change l.held.Perm ((s.connectionsMade ++ [s.accepting]).flatMap _)
    rw [List.flatMap_append, hold, List.flatMap_singleton,
      accepted_other hsound.numbered.accepting_lt, h.fresh, List.append_nil]
    exact hheld

theorem completed (h : s.Accounted) (hsound : s.Sound) {conn : Nat}
    (hconn : conn ∈ s.connectionsMade) {bytes : List UInt8} {c : TCPConnection}
    {f : PacketMethodFactory Packet PacketClass UInt16}
    (hread : (s.connections conn).toTCPConnection.readSome s.factory bytes = (.finished, f, c)) :
    ∃ (stock : Stock TypePair Ref) (l : Ledger stock), f.Keeps PacketClass.all l ∧
      l.held.Perm (s.setConnection conn { s.connections conn with toTCPConnection := c }).queued := by
  obtain ⟨stock, l, hkeeps, hheld⟩ := h.kept
  obtain ⟨refs, l', rfl, hkeeps', hheld', -⟩ := readSome_finished hkeeps hread
  obtain ⟨others, hbefore, hsplit⟩ := queued_split hsound.numbered.nodup hconn
  refine ⟨stock, l', hkeeps', ?_⟩
  rw [hheld']
  refine ((hheld.trans hbefore).append_right refs).trans ?_
  refine List.Perm.trans ?_ (hsplit _).symm
  change ((s.connections conn).inwardPackets ++ others ++ refs).Perm
    ((s.connections conn).inwardPackets ++ refs ++ others)
  rw [List.append_assoc, List.append_assoc]
  exact List.perm_append_comm.append_left _

theorem dequeued (h : s.Accounted) (hsound : s.Sound) {conn : Nat}
    (hconn : conn ∈ s.connectionsMade) {i : Ref} {rest : List Ref}
    (hqueue : (s.connections conn).inwardPackets = i :: rest) :
    ∃ (stock : Stock TypePair Ref) (l : Ledger stock),
      (s.factory.release i).2.Keeps PacketClass.all l ∧
      l.held.Perm (s.setConnection conn { s.connections conn with inwardPackets := rest }).queued := by
  obtain ⟨stock, l, hkeeps, hheld⟩ := h.kept
  obtain ⟨others, hbefore, hsplit⟩ := queued_split hsound.numbered.nodup hconn
  rw [hqueue] at hbefore
  have hfront := hheld.trans hbefore
  have hi : i ∈ l.held := hfront.mem_iff.mpr List.mem_cons_self
  have hitem := (hkeeps.held_class hi).2.1
  refine ⟨stock, l.give hi hitem, (hkeeps.release hi hitem).2, ?_⟩
  refine List.Perm.trans ?_ (hsplit { s.connections conn with inwardPackets := rest }).symm
  have herase := hfront.erase i
  rwa [List.cons_append, List.erase_cons_head] at herase

/-- What a cleanup loses is what the removed connections have queued. -/
theorem queued_cleanup (s : Service) :
    s.queued.Perm (s.cleanupClosedConnections.queued ++
      (s.connectionsMade.filter fun p => (s.connections p).hasClosed).flatMap
        fun p => (s.connections p).inwardPackets) := by
  have hsplit := List.filter_append_perm (fun p => !(s.connections p).hasClosed) s.connectionsMade
  simp only [Bool.not_not] at hsplit
  have hqueues := hsplit.symm.flatMap_right fun p => (s.connections p).inwardPackets
  rwa [List.flatMap_append] at hqueues

/-- A cleanup keeps the count exactly if it finds nothing queued by the connections it removes. -/
theorem cleanup_iff (h : s.Accounted) :
    (s.cleanupClosedConnections.Conserved ↔ s.CleansUpEmpty .cleanup) ∧
      (s.CleansUpEmpty .cleanup → s.cleanupClosedConnections.Accounted) := by
  obtain ⟨stock, l, hkeeps, hheld⟩ := h.kept
  have hlost := queued_cleanup s
  have haccounted : s.CleansUpEmpty .cleanup → s.cleanupClosedConnections.Accounted := by
    intro hempty
    refine ⟨⟨stock, l, hkeeps, ?_⟩, h.fresh⟩
    rw [List.flatMap_eq_nil_iff.mpr, List.append_nil] at hlost
    · exact hheld.trans hlost
    · intro p hp
      obtain ⟨hmade, hclosed⟩ := List.mem_filter.mp hp
      exact hempty p hmade hclosed
  refine ⟨⟨?_, fun hempty => (haccounted hempty).conserved⟩, haccounted⟩
  intro hafter p hmade hclosed
  apply List.eq_nil_iff_forall_not_mem.mpr
  intro r hr
  -- a lost packet is missing from the count of its class
  have hmem : r ∈ (s.connectionsMade.filter fun p => (s.connections p).hasClosed).flatMap
      fun p => (s.connections p).inwardPackets :=
    List.mem_flatMap.mpr ⟨p, List.mem_filter.mpr ⟨hmade, hclosed⟩, hr⟩
  obtain ⟨c, hc⟩ : ∃ c, (s.factory.heap r).classOf = c := ⟨_, rfl⟩
  have hclass : c ∈ PacketClass.all := PacketClass.mem_all c
  have hsum := h.conserved c hclass
  have hsum' : (s.factory.pooledRefs (tags c)).length + s.cleanupClosedConnections.queued.countP
      (fun t => (s.factory.heap t).classOf = c) = 100 := hafter c hclass
  rw [hlost.countP_eq, List.countP_append, ← Nat.add_assoc, hsum', Nat.add_eq_left] at hsum
  exact List.countP_eq_zero.mp hsum r hmem (decide_eq_true hc)

theorem start {factory : PacketMethodFactory Packet PacketClass UInt16}
    {stock : Stock TypePair Ref} {l : Ledger stock} (hkeeps : factory.Keeps PacketClass.all l)
    (hnone : l.held = []) (memory : Nat → ServerConnection) :
    (start factory memory).Accounted := by
  refine ⟨⟨stock, l, hkeeps, ?_⟩, ?_⟩
  · rw [hnone, start_queued]
  · exact congrArg (fun c : ServerConnection => c.inwardPackets)
      ((Service.new factory memory).setConnection_self 0 _)

theorem fresh_other (h : s.Accounted) (hsound : s.Sound) {conn : Nat}
    (hconn : conn ∈ s.connectionsMade) (c : ServerConnection) :
    ((s.setConnection conn c).connections s.accepting).inwardPackets = [] := by
  have hne : s.accepting ≠ conn := fun he => hsound.numbered.pending (he ▸ hconn)
  rw [setConnection_other s c hne, h.fresh]

theorem startNext (h : s.Accounted) (conn : Nat) : (s.startNext conn).Accounted :=
  ⟨h.kept, h.fresh⟩

/-- Every step but a cleanup keeps account of all packets. -/
theorem step {s' : Service} {event : Event} (h : s.Accounted) (hsound : s.Sound)
    (hs : Step s event s') (hevent : event ≠ .cleanup) : s'.Accounted := by
  cases hs with
  | accepted error raw => exact h.accepted hsound error raw
  | readCompleted conn bytes f c hreads hread =>
    have hconn := (hsound.scheduled.owned conn (Or.inr hreads)).1
    exact ⟨h.completed hsound hconn hread, h.fresh_other hsound hconn _⟩
  | readFailed conn hreads =>
    have hconn := (hsound.scheduled.owned conn (Or.inr hreads)).1
    obtain ⟨stock, l, hkeeps, hheld⟩ := h.kept
    obtain ⟨others, hbefore, hsplit⟩ := queued_split hsound.numbered.nodup hconn
    have hafter := hsplit (s.connections conn).close
    have hqueued := hheld.trans (hbefore.trans hafter.symm)
    exact ⟨⟨stock, l, hkeeps, hqueued⟩, h.fresh_other hsound hconn _⟩
  | startNext conn rest hexited hunstarted => exact h.startNext conn
  | exitLoop hexited hunstarted => exact ⟨h.kept, h.fresh⟩
  | clear hexited => exact ⟨h.kept, h.fresh⟩
  | cleanup => exact absurd rfl hevent
  | dequeMessage conn c f hconn hdeque =>
    obtain ⟨i, rest, hqueue, rfl, rfl⟩ := ServerConnection.dequeMessage_some hdeque
    exact ⟨h.dequeued hsound hconn hqueue, h.fresh_other hsound hconn _⟩

/-- One step keeps the count exactly if it is not a cleanup that finds something queued. -/
theorem step_iff {s' : Service} {event : Event} (h : s.Accounted) (hsound : s.Sound)
    (hs : Step s event s') :
    (s'.Conserved ↔ s.CleansUpEmpty event) ∧ (s.CleansUpEmpty event → s'.Accounted) := by
  by_cases hevent : event = .cleanup
  · cases hevent
    cases hs
    exact h.cleanup_iff
  · have hempty : s.CleansUpEmpty event := by
      cases event <;> trivial
    have hkeep := h.step hsound hs hevent
    exact ⟨iff_of_true hkeep.conserved hempty, fun _ => hkeep⟩

/-- The packets that a failed connection has queued do not survive the next cleanup. -/
theorem disconnect_drains (h : s.Accounted) (hsound : s.Sound) {conn : Nat}
    (hreads : 0 < s.reads conn) (hqueue : (s.connections conn).inwardPackets ≠ []) :
    ¬ (s.readFailed conn).cleanupClosedConnections.Conserved := by
  have hstep : Step s (.readFailed conn) (s.readFailed conn) := .readFailed s conn hreads
  have hfailed := h.step hsound hstep Event.noConfusion
  rw [hfailed.cleanup_iff.1]
  intro hempty
  have hclosed := s.endRead conn |>.setConnection_self conn (s.connections conn).close
  have hlost := hempty conn (hsound.scheduled.owned conn (Or.inr hreads)).1
    (congrArg ServerConnection.hasClosed hclosed)
  exact hqueue ((congrArg (fun c : ServerConnection => c.inwardPackets) hclosed).symm.trans hlost)

end Accounted

/-- In a run every class has its hundred packets in its pool and in the queues of the listed
connections in every state exactly if every cleanup finds the queues of what it removes empty. -/
theorem conserved_iff {heap : Store Packet} {next : Nat} {raw : Nat → UInt16}
    {memory : Nat → ServerConnection} {s : Service} {taken : List (Taken Service Event)}
    (h : History Step (start (World.start PacketClass.all heap next raw).factory memory) taken s) :
    (∀ t ∈ taken, t.after.Conserved) ↔ ∀ t ∈ taken, t.before.CleansUpEmpty t.event := by
  obtain ⟨stock, l, hkeeps, hheld⟩ :=
    kept_of_all (w := World.start PacketClass.all heap next raw) ⟨heap, next, raw, .refl⟩
  apply History.always_iff (fun s => s.Sound ∧ s.Accounted) (fun _ _ s' => s'.Conserved)
    CleansUpEmpty ⟨Sound.start _ memory, Accounted.start hkeeps hheld memory⟩ _ h
  rintro s event s' ⟨hsound, haccounted⟩ hstep
  obtain ⟨hiff, hkeep⟩ := haccounted.step_iff hsound hstep
  exact ⟨hiff, fun hgood => ⟨hsound.step hstep, hkeep (hiff.mp hgood)⟩⟩

/-- The frame of one base packet. -/
abbrev sampleFrame : Read := ⟨wire [.base (.new 0 0)], by decide⟩

/-- The state after a read whose loop ends. -/
abbrev afterRead (s : Service) (conn : Nat) (bytes : Read) : Service :=
  let (_, f, c) := (s.connections conn).toTCPConnection.readSome s.factory bytes.1
  s.readCompleted conn c f

theorem afterRead_step {s : Service} {conn : Nat} (bytes : Read) (hreads : 0 < s.reads conn)
    (hfinished : ((s.connections conn).toTCPConnection.readSome s.factory bytes.1).1 = .finished) :
    Step s (.readCompleted conn bytes) (s.afterRead conn bytes) :=
  .readCompleted s conn bytes _ _ hreads (Prod.ext hfinished rfl)

/-- The state after a dequeue, if there is something to take. -/
abbrev afterDeque (s : Service) (conn : Nat) : Service :=
  let result := (s.connections conn).dequeMessage s.factory
  { s.setConnection conn (result.elim (s.connections conn) Prod.fst) with
    factory := result.elim s.factory Prod.snd }

theorem afterDeque_step {s : Service} {conn : Nat} (hmade : conn ∈ s.connectionsMade)
    (hqueue : (s.connections conn).inwardPackets ≠ []) :
    Step s (.dequeMessage conn) (s.afterDeque conn) := by
  obtain ⟨i, rest, hcons⟩ := List.exists_cons_of_ne_nil hqueue
  have hdeque : (s.connections conn).dequeMessage s.factory =
      some ({ s.connections conn with inwardPackets := rest }, (s.factory.release i).2) := by
    rw [ServerConnection.dequeMessage, hcons]
  have hafter : s.afterDeque conn =
      { s.setConnection conn { s.connections conn with inwardPackets := rest } with
        factory := (s.factory.release i).2 } := by
    simp only [afterDeque, hdeque, Option.elim_some]
  rw [hafter]
  exact .dequeMessage s conn _ _ hmade hdeque

section Sample
variable (factory : PacketMethodFactory Packet PacketClass UInt16)

/-- The first client sends a base packet. -/
abbrev frameRead : Service := (firstStarted factory).afterRead 0 sampleFrame

/-- The steps from the start to the first frame read. -/
abbrev frameReadSteps : List (Taken Service Event) :=
  [accept (sampleService factory),
    ⟨(accept (sampleService factory)).after, .startNext, firstStarted factory⟩,
    ⟨firstStarted factory, .readCompleted 0 sampleFrame, frameRead factory⟩]

/-- The packet is handed out. -/
abbrev frameTaken : Service := (frameRead factory).afterDeque 0

abbrev frameTakenSteps : List (Taken Service Event) :=
  frameReadSteps factory ++ [⟨frameRead factory, .dequeMessage 0, frameTaken factory⟩]

/-- The connection reads again, fails and is removed. -/
abbrev visitSteps : List (Taken Service Event) :=
  let reading := (frameTaken factory).startNext 0
  frameTakenSteps factory ++ [⟨frameTaken factory, .startNext, reading⟩,
    ⟨reading, .readFailed 0, reading.readFailed 0⟩,
    ⟨reading.readFailed 0, .cleanup, (reading.readFailed 0).cleanupClosedConnections⟩]

variable {factory} {stock : Stock TypePair Ref} {l : Ledger stock}

theorem frameRead_step (hkeeps : factory.Keeps PacketClass.all l) (hnone : l.held = []) :
    Step (firstStarted factory) (.readCompleted 0 sampleFrame) (frameRead factory) ∧
      ((frameRead factory).connections 0).inwardPackets ≠ [] := by
  obtain ⟨hfinished, hpushed⟩ := readSome_frame
    ((firstStarted factory).connections 0).toTCPConnection hkeeps hnone (p := .base (.new 0 0))
    (by decide)
  exact ⟨afterRead_step sampleFrame Nat.one_pos hfinished, hpushed⟩

theorem frameRead_run (hkeeps : factory.Keeps PacketClass.all l) (hnone : l.held = []) :
    History Step (sampleService factory) (frameReadSteps factory) (frameRead factory) :=
  .step (firstStarted_run factory) (frameRead_step hkeeps hnone).1

theorem frameTaken_run (hkeeps : factory.Keeps PacketClass.all l) (hnone : l.held = []) :
    History Step (sampleService factory) (frameTakenSteps factory) (frameTaken factory) := by
  have hmade : 0 ∈ (frameRead factory).connectionsMade := List.mem_cons_self
  exact .step (frameRead_run hkeeps hnone) (afterDeque_step hmade (frameRead_step hkeeps hnone).2)

theorem frameTaken_created : 0 < (frameTaken factory).created := Nat.two_pos

theorem visit_run (hkeeps : factory.Keeps PacketClass.all l) (hnone : l.held = []) :
    History Step (sampleService factory) (visitSteps factory)
      (((frameTaken factory).startNext 0).readFailed 0).cleanupClosedConnections := by
  have hwait : (frameTaken factory).unstarted = [0] := rfl
  have hreading : History Step (sampleService factory) _ ((frameTaken factory).startNext 0) :=
    .step (frameTaken_run hkeeps hnone) (.startNext _ 0 [] rfl hwait)
  exact .step (.step hreading (.readFailed _ 0 Nat.one_pos)) (.cleanup _)

end Sample

theorem sample_conserved :
    (∀ t ∈ visitSteps initialWorld.factory, t.after.Conserved) ↔
      ∀ t ∈ visitSteps initialWorld.factory, t.before.CleansUpEmpty t.event := by
  obtain ⟨stock, l, hkeeps, hheld⟩ := kept_of_all (w := initialWorld) ⟨_, _, _, .refl⟩
  have hrun := visit_run hkeeps hheld
  exact conserved_iff hrun

/-- Its connection fails before the packet is dequeued. -/
abbrev disconnected (factory : PacketMethodFactory Packet PacketClass UInt16) : Service :=
  ((frameRead factory).startNext 0).readFailed 0

theorem disconnected_drains {factory : PacketMethodFactory Packet PacketClass UInt16}
    {stock : Stock TypePair Ref} {l : Ledger stock} (hkeeps : factory.Keeps PacketClass.all l)
    (hnone : l.held = []) :
    (∃ taken, History Step (sampleService factory) taken (disconnected factory)) ∧
      ¬ (disconnected factory).cleanupClosedConnections.Conserved := by
  obtain ⟨hframe, hpushed⟩ := frameRead_step hkeeps hnone
  have hwait : (frameRead factory).unstarted = [0] := rfl
  have hrun : History Step (sampleService factory) _ ((frameRead factory).startNext 0) :=
    .step (frameRead_run hkeeps hnone) (.startNext _ 0 [] rfl hwait)
  have hreads : 0 < ((frameRead factory).startNext 0).reads 0 := Nat.one_pos
  refine ⟨⟨_, hrun.step (.readFailed _ 0 hreads)⟩, ?_⟩
  have hfrom := Accounted.start hkeeps hnone fun _ => sampleMemory
  have hfirst := hfrom.accepted (Sound.start factory fun _ => sampleMemory) false sampleMemory
  have haccount := (hfirst.startNext 0).step (Sound.of_run (firstStarted_run factory)) hframe
    Event.noConfusion
  exact (haccount.startNext 0).disconnect_drains (Sound.of_run hrun) hreads hpushed

/-- A client that disconnects before its packet is dequeued takes the packet along. -/
theorem disconnect_drains_pool :
    (∃ taken, History Step initialService taken
      (disconnected initialWorld.factory).cleanupClosedConnections) ∧
      ¬ (disconnected initialWorld.factory).cleanupClosedConnections.Conserved := by
  obtain ⟨stock, l, hkeeps, hheld⟩ := kept_of_all (w := initialWorld) ⟨_, _, _, .refl⟩
  obtain ⟨⟨taken, hrun⟩, hdrained⟩ := disconnected_drains hkeeps hheld
  exact ⟨⟨_, hrun.step (.cleanup _)⟩, hdrained⟩

end Service
end SocketCPlusPlus.Socket
