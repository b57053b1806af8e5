import SocketCPlusPlus.Socket.PacketConservation

/-! From the bytes that the reads of a connection bring to the packets that its user is handed. All
connections draw on the same pools, and their reads and dequeues come in any order. -/
namespace SocketCPlusPlus.Socket
open Foundation Packets IPacketSerializable

namespace Service

def getNumMessages (s : Service) (conn : Nat) : Nat := (s.connections conn).inwardPackets.length

/-- The front of the queue with what it says. -/
def peekMessage (s : Service) (conn : Nat) : Option Packet :=
  (s.connections conn).inwardPackets.head?.map s.factory.heap

/-- What the queued packets of a connection say; one that does not exist yet has none. -/
def messages (s : Service) (conn : Nat) : List Packet :=
  if conn < s.created then (s.connections conn).inwardPackets.map s.factory.heap else []

/-- The bytes of a connection's read, if the event is one that ends well. -/
def bytesRead (conn : Nat) (t : Taken Service Event) : List Read :=
  match t.event with
  | .readCompleted conn' bytes => if conn' = conn then [bytes] else []
  | _ => []

/-- The packets that such a read finds in the receive buffer. -/
def packetsRead (conn : Nat) (t : Taken Service Event) : List Packet :=
  (bytesRead conn t).flatMap fun bytes =>
    (decode ((t.before.connections conn).receiveBuffer.store 0 bytes.1) bytes.1.length
      (bytes.1.length + 1) 0).1

/-- The packet that a user peeks at and then dequeues. -/
def packetsHanded (conn : Nat) (t : Taken Service Event) : List Packet :=
  match t.event with
  | .dequeMessage conn' => if conn' = conn then (t.before.peekMessage conn).toList else []
  | _ => []

section Events
variable {s s' : Service} {conn p : Nat}

theorem bytesRead_self (bytes : Read) :
    bytesRead conn ⟨s, .readCompleted conn bytes, s'⟩ = [bytes] :=
  if_pos rfl

theorem bytesRead_other (h : conn ≠ p) (bytes : Read) :
    bytesRead p ⟨s, .readCompleted conn bytes, s'⟩ = [] :=
  if_neg h

theorem packetsRead_self (bytes : Read) :
    packetsRead conn ⟨s, .readCompleted conn bytes, s'⟩ =
      (decode ((s.connections conn).receiveBuffer.store 0 bytes.1) bytes.1.length
        (bytes.1.length + 1) 0).1 := by
  rw [packetsRead, bytesRead_self, List.flatMap_singleton]

theorem packetsRead_other (h : conn ≠ p) (bytes : Read) :
    packetsRead p ⟨s, .readCompleted conn bytes, s'⟩ = [] := by
  rw [packetsRead, bytesRead_other h, List.flatMap_nil]

theorem packetsHanded_self :
    packetsHanded conn ⟨s, .dequeMessage conn, s'⟩ = (s.peekMessage conn).toList :=
  if_pos rfl

theorem packetsHanded_other (h : conn ≠ p) : packetsHanded p ⟨s, .dequeMessage conn, s'⟩ = [] :=
  if_neg h

end Events

/-- The server as if it had never cleaned up: what a removed connection had queued is then still in
a queue. -/
def remembering (s : Service) : Service :=
  { s with server := { s.server with connectionsMade := List.range s.created } }

/-- No packet is in two places, counting the queues of removed connections too. -/
structure Apart (s : Service) : Prop where
  sound : s.Sound
  kept : ∃ (stock : Stock TypePair Ref) (l : Ledger stock),
    s.factory.Keeps PacketClass.all l ∧ l.held.Perm s.remembering.queued

theorem remembering_split (s : Service) {conn : Nat} (hconn : conn < s.created) :
    ∃ others : List Ref,
      s.remembering.queued.Perm ((s.connections conn).inwardPackets ++ others) ∧
        ∀ c : ServerConnection,
          (s.setConnection conn c).remembering.queued.Perm (c.inwardPackets ++ others) :=
  queued_split (s := s.remembering) List.nodup_range (List.mem_range.mpr hconn)

section Queues
variable {s s' : Service} {conn p : Nat}

theorem mem_remembering {r : Ref} (hp : p < s.created)
    (hr : r ∈ (s.connections p).inwardPackets) : r ∈ s.remembering.queued :=
  List.mem_flatMap.mpr ⟨p, List.mem_range.mpr hp, hr⟩

theorem messages_of_lt (hp : p < s.created) :
    s.messages p = (s.connections p).inwardPackets.map s.factory.heap :=
  if_pos hp

theorem messages_of_ge (hp : s.created ≤ p) : s.messages p = [] :=
  if_neg (Nat.not_lt.mpr hp)

theorem messages_same (hcreated : s'.created = s.created)
    (hqueue : (s'.connections p).inwardPackets = (s.connections p).inwardPackets)
    (hheap : ∀ r ∈ s.remembering.queued, s'.factory.heap r = s.factory.heap r) :
    s'.messages p = s.messages p := by
  rw [messages, messages, hcreated, hqueue]
  split
  · next hp => exact List.map_congr_left fun r hr => hheap r (mem_remembering hp hr)
  · rfl

end Queues

theorem start_inwardPackets (factory : PacketMethodFactory Packet PacketClass UInt16)
    (memory : Nat → ServerConnection) :
    ((start factory memory).connections 0).inwardPackets = [] :=
  congrArg (fun c : ServerConnection => c.inwardPackets)
    ((new factory memory).setConnection_self 0 ((ServerConnection.create (memory 0)).setConnectionId
      TCPServer.connectionIdStart.toUInt32.toUInt16))

namespace Apart
variable {s s' : Service} {conn : Nat}

theorem start {factory : PacketMethodFactory Packet PacketClass UInt16}
    {stock : Stock TypePair Ref} {l : Ledger stock} (hkeeps : factory.Keeps PacketClass.all l)
    (hnone : l.held = []) (memory : Nat → ServerConnection) : (start factory memory).Apart := by
  refine ⟨Sound.start factory memory, stock, l, hkeeps, ?_⟩
  change l.held.Perm ((List.range 1).flatMap fun p =>
    ((Service.start factory memory).connections p).inwardPackets)
  rw [hnone, List.range_one, List.flatMap_singleton, start_inwardPackets]

theorem of_same (h : s.Apart) (hsound : s'.Sound) (hfactory : s'.factory = s.factory)
    (hqueued : s'.remembering.queued = s.remembering.queued) : s'.Apart := by
  refine ⟨hsound, ?_⟩
  rw [hfactory, hqueued]
  exact h.kept

theorem accepted (h : s.Apart) (error : Bool) (raw : ServerConnection) :
    let s' := s.newConnectionAcceptedHandler error raw
    s'.Apart ∧ ∀ p, s'.messages p = s.messages p := by
  intro s'
  have hcreated : s'.created = s.created + 1 := by cases error <;> rfl
  have hfactory : s'.factory = s.factory := by cases error <;> rfl
  have hqueue : (s'.connections s.created).inwardPackets = [] := by
    cases error
    · exact congrArg (fun c : ServerConnection => c.inwardPackets) (s.enlist.setConnection_self _ _)
    · exact congrArg (fun c : ServerConnection => c.inwardPackets) (s.setConnection_self _ _)
  refine ⟨h.of_same (h.sound.accepted error raw) hfactory ?_, fun p => ?_⟩
  · change (List.range s'.created).flatMap _ = (List.range s.created).flatMap _
    rw [hcreated, List.range_succ, List.flatMap_append, List.flatMap_singleton]
    change _ ++ (s'.connections s.created).inwardPackets = _
    rw [hqueue, List.append_nil]
    refine List.flatMap_congr fun p hp => ?_
    exact congrArg (fun c : ServerConnection => c.inwardPackets)
      (accepted_other (List.mem_range.mp hp) error raw)
  · rcases Nat.lt_trichotomy p s.created with hp | rfl | hp
    · rw [messages_of_lt hp, messages_of_lt (Nat.lt_of_lt_of_eq (Nat.lt_succ_of_lt hp) hcreated.symm),
        hfactory, accepted_other hp]
    · rw [messages_of_ge (Nat.le_refl _),
        messages_of_lt (Nat.lt_of_lt_of_eq (Nat.lt_succ_self _) hcreated.symm), hqueue, List.map_nil]
    · rw [messages_of_ge (Nat.le_of_lt hp), messages_of_ge (hcreated.le.trans hp)]

theorem reading_lt (h : s.Apart) (hreads : 0 < s.reads conn) : conn < s.created :=
  h.sound.numbered.made conn (h.sound.scheduled.owned conn (Or.inr hreads)).1

/-- A read puts what it finds behind the queue of its connection; the packets it takes for that are
in no other queue. -/
theorem completed (h : s.Apart) (hconn : conn < s.created) {bytes : List UInt8} {c : TCPConnection}
    {f : PacketMethodFactory Packet PacketClass UInt16}
    (hread : (s.connections conn).toTCPConnection.readSome s.factory bytes = (.finished, f, c))
    (hsound : (s.readCompleted conn c f).Sound) :
    (s.readCompleted conn c f).Apart ∧
      (s.readCompleted conn c f).messages conn = s.messages conn ++
        (decode ((s.connections conn).receiveBuffer.store 0 bytes) bytes.length
          (bytes.length + 1) 0).1 ∧
      ∀ p ≠ conn, (s.readCompleted conn c f).messages p = s.messages p := by
  obtain ⟨stock, l, hkeeps, hheld⟩ := h.kept
  obtain ⟨refs, l', rfl, hkeeps', hheld', hpackets, hold⟩ := readSome_finished hkeeps hread
  obtain ⟨others, hbefore, hsplit⟩ := s.remembering_split hconn
  have hheap : ∀ r ∈ s.remembering.queued, f.heap r = s.factory.heap r :=
    fun r hr => hold r (hheld.mem_iff.mpr hr)
  refine ⟨⟨hsound, stock, l', hkeeps', ?_⟩, ?_, fun p hp => ?_⟩
  · rw [hheld']
    refine ((hheld.trans hbefore).append_right refs).trans (List.Perm.trans ?_ (hsplit _).symm)
    change ((s.connections conn).inwardPackets ++ others ++ refs).Perm
      ((s.connections conn).inwardPackets ++ refs ++ others)
    rw [List.append_assoc, List.append_assoc]
    exact List.perm_append_comm.append_left _
  · rw [messages_of_lt hconn, messages_of_lt (s := s.readCompleted conn _ f) hconn,
      readCompleted_self, ← hpackets]
    refine List.map_append.trans (congrArg (· ++ refs.map f.heap) ?_)
    exact List.map_congr_left fun r hr => hheap r (mem_remembering hconn hr)
  · apply messages_same
    · rfl
    · rw [readCompleted_other _ _ _ hp]
    · exact hheap

theorem dequeued (h : s.Apart) (hconn : conn < s.created) {i : Ref} {rest : List Ref}
    (hqueue : (s.connections conn).inwardPackets = i :: rest) :
    let c := { s.connections conn with inwardPackets := rest }
    let s' := { s.setConnection conn c with factory := (s.factory.release i).2 }
    s'.Sound → s'.Apart ∧
      s.messages conn = (s.peekMessage conn).toList ++ s'.messages conn ∧
      ∀ p ≠ conn, s'.messages p = s.messages p := by
  intro c s' hsound
  obtain ⟨stock, l, hkeeps, hheld⟩ := h.kept
  obtain ⟨others, hbefore, hsplit⟩ := s.remembering_split hconn
  rw [hqueue] at hbefore
  have hfront := hheld.trans hbefore
  have hi : i ∈ l.held := hfront.mem_iff.mpr List.mem_cons_self
  have hitem := (hkeeps.held_class hi).2.1
  have hheap : s'.factory.heap = s.factory.heap := PacketMethodFactory.release_heap s.factory i
  have hself : s'.connections conn = c := s.setConnection_self conn c
  refine ⟨⟨hsound, stock, l.give hi hitem, (hkeeps.release hi hitem).2, ?_⟩, ?_, fun p hp => ?_⟩
  · have herase := hfront.erase i
    rw [List.cons_append, List.erase_cons_head] at herase
    exact herase.trans (hsplit c).symm
  · rw [messages_of_lt hconn, messages_of_lt (s := s') hconn, hself, hheap, peekMessage, hqueue]
    rfl
  · apply messages_same
    · rfl
    · exact congrArg (fun c : ServerConnection => c.inwardPackets) (s.setConnection_other c hp)
    · exact fun r _ => congrFun hheap r

theorem readFailed_inwardPackets (s : Service) (conn p : Nat) :
    ((s.readFailed conn).connections p).inwardPackets = (s.connections p).inwardPackets := by
  by_cases hp : p = conn
  · rw [hp]
    exact (congrArg (fun c : ServerConnection => c.inwardPackets)
      ((s.endRead conn).setConnection_self conn (s.connections conn).close)).trans rfl
  · exact congrArg (fun c : ServerConnection => c.inwardPackets)
      ((s.endRead conn).setConnection_other _ hp)

/-- What a step reads for a connection enters its queue, and what it hands out leaves it. -/
theorem step (h : s.Apart) {event : Event} (hs : Step s event s') :
    s'.Apart ∧ ∀ p, s.messages p ++ packetsRead p ⟨s, event, s'⟩ =
      packetsHanded p ⟨s, event, s'⟩ ++ s'.messages p := by
  have hsound := h.sound.step hs
  -- only reads and dequeues move packets
  have hquiet : s'.Apart → (∀ p, s'.messages p = s.messages p) →
      s'.Apart ∧ ∀ p, s.messages p ++ [] = [] ++ s'.messages p := by
    refine fun hapart hsame => ⟨hapart, fun p => ?_⟩
    rw [List.append_nil, List.nil_append, hsame]
  cases hs with
  | accepted error raw =>
    obtain ⟨hapart, hsame⟩ := h.accepted error raw
    exact hquiet hapart hsame
  | readCompleted conn bytes f c hreads hread =>
    obtain ⟨hapart, hself, hother⟩ := h.completed (h.reading_lt hreads) hread hsound
    refine ⟨hapart, fun p => ?_⟩
    by_cases hp : conn = p
    · rw [← hp, hself, packetsRead_self]
      rfl
    · rw [hother p (Ne.symm hp), packetsRead_other hp]
      exact List.append_nil _
  | readFailed conn hreads =>
    refine hquiet ?_ fun p => ?_
    · apply h.of_same hsound
      · rfl
      · exact List.flatMap_congr fun p _ => readFailed_inwardPackets s conn p
    · exact messages_same rfl (readFailed_inwardPackets s conn p) fun _ _ => rfl
  | startNext conn rest hexited hunstarted =>
    exact hquiet (h.of_same hsound rfl rfl) fun _ => rfl
  | exitLoop hexited hunstarted => exact hquiet (h.of_same hsound rfl rfl) fun _ => rfl
  | clear hexited => exact hquiet (h.of_same hsound rfl rfl) fun _ => rfl
  | cleanup => exact hquiet (h.of_same hsound rfl rfl) fun _ => rfl
  | dequeMessage conn c f hmade hdeque =>
    obtain ⟨i, rest, hqueue, rfl, rfl⟩ := ServerConnection.dequeMessage_some hdeque
    obtain ⟨hapart, hself, hother⟩ := h.dequeued (h.sound.numbered.made conn hmade) hqueue hsound
    refine ⟨hapart, fun p => ?_⟩
    by_cases hp : conn = p
    · rw [← hp, hself, packetsHanded_self]
      exact List.append_nil _
    · rw [hother p (Ne.symm hp), packetsHanded_other hp]
      exact List.append_nil _

/-- A run hands out what it read, in order, up to what is still queued. -/
theorem of_run {heap : Store Packet} {next : Nat} {raw : Nat → UInt16}
    {memory : Nat → ServerConnection} {s : Service} {taken : List (Taken Service Event)}
    (h : History Step (Service.start (World.start PacketClass.all heap next raw).factory memory)
      taken s) (conn : Nat) :
    taken.flatMap (packetsRead conn) = taken.flatMap (packetsHanded conn) ++ s.messages conn := by
  obtain ⟨stock, l, hkeeps, hheld⟩ :=
    kept_of_all (w := World.start PacketClass.all heap next raw) ⟨heap, next, raw, .refl⟩
  have hstart := Apart.start hkeeps hheld memory
  have hnone : (Service.start (World.start PacketClass.all heap next raw).factory memory).messages
      conn = [] := by
    rw [messages]
    split
    · next hconn =>
      rw [Nat.lt_one_iff.mp hconn, start_inwardPackets, List.map_nil]
    · rfl
  have hqueued := h.queued Apart (messages · conn) (packetsRead conn) (packetsHanded conn) hstart
    fun s event s' hapart hs => ⟨(hapart.step hs).2 conn, (hapart.step hs).1⟩
  rwa [hnone, List.nil_append] at hqueued

end Apart

/-- On every connection, whatever the others do, the packets that its reads find come to its user in
the order of the stream and with the contents they were read with, each of them once: those handed
out so far are followed by those still in the queue. -/
theorem messages_in_order {heap : Store Packet} {next : Nat} {raw : Nat → UInt16}
    {memory : Nat → ServerConnection} {s : Service} {taken : List (Taken Service Event)}
    (h : History Step (start (World.start PacketClass.all heap next raw).factory memory) taken s)
    {conn : Nat} (hconn : conn < s.created) :
    taken.flatMap (packetsRead conn) = taken.flatMap (packetsHanded conn) ++
        (s.connections conn).inwardPackets.map s.factory.heap ∧
      s.getNumMessages conn + (taken.flatMap (packetsHanded conn)).length =
        (taken.flatMap (packetsRead conn)).length := by
  have hrun := Apart.of_run h conn
  rw [messages_of_lt hconn] at hrun
  refine ⟨hrun, ?_⟩
  rw [hrun, List.length_append, List.length_map, getNumMessages, Nat.add_comm]

/-- A packet is read and handed out. -/
theorem sample_messages_in_order :
    let s := frameTaken initialWorld.factory
    let taken := frameTakenSteps initialWorld.factory
    taken.flatMap (packetsRead 0) = taken.flatMap (packetsHanded 0) ++
        (s.connections 0).inwardPackets.map s.factory.heap ∧
      s.getNumMessages 0 + (taken.flatMap (packetsHanded 0)).length =
        (taken.flatMap (packetsRead 0)).length := by
  obtain ⟨stock, l, hkeeps, hheld⟩ := kept_of_all (w := initialWorld) ⟨_, _, _, .refl⟩
  have hrun := frameTaken_run hkeeps hheld
  exact messages_in_order hrun frameTaken_created

end Service
end SocketCPlusPlus.Socket
