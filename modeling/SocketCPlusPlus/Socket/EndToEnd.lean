import SocketCPlusPlus.Socket.Delivery
import SocketCPlusPlus.Socket.WriteChain

/-! A client that sends and the connection that serves it, joined by the stream between them. -/
namespace SocketCPlusPlus.Socket
open Foundation Packets IPacketSerializable

namespace ClientActors

def flushed (t : Taken ClientActors Event) : List Ref :=
  match t.event with
  | .connected _ | .timer _ => if t.before.client.stopped then [] else t.before.client.packetOutDeque
  | _ => []

def packetsFlushed (t : Taken ClientActors Event) : List Packet :=
  (flushed t).map t.before.factory.heap

def packetsQueued (t : Taken ClientActors Event) : List Packet :=
  match t.event with
  | .write packet => [t.before.factory.heap packet]
  | _ => []

def bytesSent (t : Taken ClientActors Event) : List UInt8 :=
  match t.event with
  | .connected uninitialised | .timer uninitialised =>
    (t.before.client.startWrite t.before.factory uninitialised).1.flatten
  | _ => []

private theorem flush_once {client : TCPClient} {f : PacketMethodFactory Packet PacketClass UInt16}
    (hshort : (if client.stopped then [] else client.packetOutDeque).length ≤ 1)
    (uninitialised : Memory) :
    (client.startWrite f uninitialised).1.flatten =
      wire ((if client.stopped then [] else client.packetOutDeque).map f.heap) := by
  cases hstopped : client.stopped with
  | true =>
    rw [TCPClient.startWrite, if_pos hstopped]
    rfl
  | false =>
    rw [hstopped, if_neg Bool.false_ne_true] at hshort
    rw [TCPClient.startWrite_eq _ _ _ hstopped, if_neg Bool.false_ne_true]
    exact (TCPClient.prefixes_once_iff _).mpr (by rwa [List.length_map])

theorem bytesSent_eq {taken : List (Taken ClientActors Event)}
    (hshort : ∀ t ∈ taken, (flushed t).length ≤ 1) :
    taken.flatMap bytesSent = wire (taken.flatMap packetsFlushed) := by
  induction taken with
  | nil => rfl
  | cons t taken ih =>
    rw [List.forall_mem_cons] at hshort
    rw [List.flatMap_cons, List.flatMap_cons, wire_append, ih hshort.2]
    refine congrArg (· ++ _) ?_
    have hone := hshort.1
    unfold flushed at hone
    unfold bytesSent packetsFlushed flushed
    split
    · next hevent =>
      rw [hevent] at hone
      exact flush_once hone _
    · next hevent =>
      rw [hevent] at hone
      exact flush_once hone _
    · rfl

private theorem flush_content (a : ClientActors) (uninitialised : Memory) :
    a.client.packetOutDeque.map a.factory.heap =
      (if a.client.stopped then [] else a.client.packetOutDeque).map a.factory.heap ++
        (a.startWrite uninitialised).client.packetOutDeque.map
          (a.startWrite uninitialised).factory.heap := by
  cases hstopped : a.client.stopped with
  | true =>
    rw [startWrite_stopped uninitialised hstopped]
    rfl
  | false =>
    rw [startWrite_running uninitialised hstopped]
    exact (List.append_nil _).symm

/-- What a client was given to send it flushed in that order, but for what is still queued. -/
theorem packetsQueued_eq {factory : PacketMethodFactory Packet PacketClass UInt16}
    {a : ClientActors} {taken : List (Taken ClientActors Event)}
    (h : History Step (start factory) taken a) :
    taken.flatMap packetsQueued =
      taken.flatMap packetsFlushed ++ a.client.packetOutDeque.map a.factory.heap := by
  refine h.queued (fun _ => True) (fun a => a.client.packetOutDeque.map a.factory.heap) _ _
    trivial fun a event a' _ hs => ⟨?_, trivial⟩
  cases hs with
  | write packet =>
    have hqueue : (a.client.packetOutDeque ++ [packet]).map a.factory.heap =
        a.client.packetOutDeque.map a.factory.heap ++ [packet].map a.factory.heap :=
      List.map_append
    exact hqueue.symm
  | stop => exact List.append_nil _
  | connected uninitialised _ =>
    refine (List.append_nil _).trans ?_
    have hflush := flush_content
      { a with connecting := false, client := { a.client with isConnected := true } } uninitialised
    unfold handleConnect
    split
    · next hstopped =>
      rw [packetsFlushed, flushed, if_pos hstopped]
      rfl
    · exact hflush
  | written ec writes _ =>
    refine (List.append_nil _).trans ?_
    unfold handleWrite
    split
    · rfl
    · cases ec <;> rfl
  | timer uninitialised waits _ =>
    exact (List.append_nil _).trans (flush_content { a with waits := waits } uninitialised)

end ClientActors

namespace Service

theorem packetsRead_groups {conn : Nat} {taken : List (Taken Service Event)}
    {groups : List (List Packet)}
    (hgroups : (taken.flatMap (bytesRead conn)).map Subtype.val = groups.map wire)
    (hown : ∀ p ∈ groups.flatten, OwnTags p) :
    taken.flatMap (packetsRead conn) = groups.flatten := by
  induction taken generalizing groups with
  | nil => rw [List.map_eq_nil_iff.mp hgroups.symm]; rfl
  | cons t taken ih =>
    rw [List.flatMap_cons, List.map_append] at hgroups
    rw [List.flatMap_cons, packetsRead]
    -- an event reads once for the connection or not at all
    have hreads : bytesRead conn t = [] ∨ ∃ bytes, bytesRead conn t = [bytes] := by
      unfold bytesRead
      split
      · split
        · exact Or.inr ⟨_, rfl⟩
        · exact Or.inl rfl
      · exact Or.inl rfl
    rcases hreads with hnone | ⟨bytes, hone⟩
    · rw [hnone] at hgroups ⊢
      exact ih hgroups hown
    · rw [hone] at hgroups ⊢
      cases groups with
      | nil => cases hgroups
      | cons group groups =>
        obtain ⟨hbytes, hrest⟩ := List.cons.inj hgroups
        rw [List.flatten_cons, List.forall_mem_append] at hown
        rw [ih hrest hown.2, List.flatMap_singleton, hbytes, decode_group _ group hown.1,
          List.flatten_cons]

end Service

theorem wire_take_mono (packets : List Packet) {m n : Nat} (h : m ≤ n) :
    (wire (packets.take m)).length ≤ (wire (packets.take n)).length := by
  obtain ⟨k, rfl⟩ := Nat.exists_eq_add_of_le h
  rw [List.take_add, wire_append, List.length_append]
  exact Nat.le_add_right _ _

theorem groups_of_prefix {packets : List Packet} {reads : List Read}
    (hstart : stream reads <+: wire packets)
    (hcut : ∀ k, ∃ n, (stream (reads.take k)).length = (wire (packets.take n)).length) :
    ∃ (groups : List (List Packet)) (n : Nat), reads.map Subtype.val = groups.map wire ∧
      groups.flatten = packets.take n ∧ stream reads = wire (packets.take n) := by
  obtain ⟨n, hlast⟩ := hcut reads.length
  rw [List.take_length] at hlast
  have hsplit : wire (packets.take n) <+: wire packets := by
    refine ⟨wire (packets.drop n), ?_⟩
    rw [← wire_append, List.take_append_drop]
  have hstream : stream reads = wire (packets.take n) :=
    (List.prefix_of_prefix_length_le hstart hsplit hlast.le).eq_of_length hlast
  obtain ⟨groups, hreads, hflat⟩ := groups_of_cuts (packets.take n) reads hstream (by
    intro k
    obtain ⟨m, hm⟩ := hcut k
    rcases Nat.le_total m n with hle | hge
    · refine ⟨m, ?_⟩
      rw [hm, List.take_take, Nat.min_eq_left hle]
    · -- behind the end of what was read there is nothing
      refine ⟨n, Nat.le_antisymm ?_ ?_⟩
      · rw [List.take_take, Nat.min_self, ← hstream]
        conv_rhs => rw [← List.take_append_drop k reads]
        rw [stream, stream, List.map_append, List.flatten_append, List.length_append]
        exact Nat.le_add_right _ _
      · rw [hm, List.take_take, Nat.min_self]
        exact wire_take_mono packets hge)
  exact ⟨groups, n, hreads, hflat, hstream⟩

/-- Where a client flushes at most one packet at a time, and the reads of its connection end between
frames, what the server's user is handed, and finds queued after that, are the first packets that
the client was given to send, with their contents and in their order, as many as the bytes read so
far make up. Neither the other clients nor the packets' way through the pools on both sides
matter. -/
theorem client_to_server {factory : PacketMethodFactory Packet PacketClass UInt16}
    {client : ClientActors} {sent : List (Taken ClientActors ClientActors.Event)}
    {heap : Store Packet} {next : Nat} {raw : Nat → UInt16} {memory : Nat → ServerConnection}
    {s : Service} {taken : List (Taken Service Service.Event)} {conn : Nat}
    (hclient : History ClientActors.Step (.start factory) sent client)
    (hserver : History Service.Step
      (.start (World.start PacketClass.all heap next raw).factory memory) taken s)
    (hconn : conn < s.created) (hshort : ∀ t ∈ sent, (ClientActors.flushed t).length ≤ 1)
    (hown : ∀ p ∈ sent.flatMap ClientActors.packetsFlushed, OwnTags p)
    (hstream : stream (taken.flatMap (Service.bytesRead conn)) <+:
      sent.flatMap ClientActors.bytesSent)
    (hcut : ∀ k, ∃ n, (stream ((taken.flatMap (Service.bytesRead conn)).take k)).length =
      (wire ((sent.flatMap ClientActors.packetsFlushed).take n)).length) :
    let received := taken.flatMap (Service.packetsHanded conn) ++
      (s.connections conn).inwardPackets.map s.factory.heap
    received <+: sent.flatMap ClientActors.packetsQueued ∧
      stream (taken.flatMap (Service.bytesRead conn)) = wire received := by
  intro received
  have hreceived : taken.flatMap (Service.packetsRead conn) = received := by
    rw [Service.Apart.of_run hserver conn, Service.messages_of_lt hconn]
  rw [ClientActors.bytesSent_eq hshort] at hstream
  obtain ⟨groups, n, hreads, hflat, hbytes⟩ := groups_of_prefix hstream hcut
  have hfirst : groups.flatten = received := by
    rw [← hreceived]
    refine (Service.packetsRead_groups hreads fun p hp => ?_).symm
    rw [hflat] at hp
    exact hown p (List.mem_of_mem_take hp)
  rw [← hfirst, hflat]
  refine ⟨(List.take_prefix n _).trans ?_, hbytes⟩
  rw [ClientActors.packetsQueued_eq hclient]
  exact List.prefix_append _ _

theorem frameRead_created (factory : PacketMethodFactory Packet PacketClass UInt16) :
    0 < (Service.frameRead factory).created := Nat.two_pos

/-- A client flushes one packet when it is connected, and the server reads its frame. -/
theorem sample_client_to_server :
    let a := ClientActors.start sampleSender
    let a' := a.write 0
    let a'' := { a' with connecting := false }.handleConnect fun _ => 0
    let sent : List (Taken ClientActors ClientActors.Event) :=
      [⟨a, .write 0, a'⟩, ⟨a', .connected fun _ => 0, a''⟩]
    let s := Service.frameRead initialWorld.factory
    let taken := Service.frameReadSteps initialWorld.factory
    let received := taken.flatMap (Service.packetsHanded 0) ++
      (s.connections 0).inwardPackets.map s.factory.heap
    received <+: sent.flatMap ClientActors.packetsQueued ∧
      stream (taken.flatMap (Service.bytesRead 0)) = wire received := by
  intro a a' a'' sent s taken
  have hclient : History ClientActors.Step a sent a'' :=
    .step (.step .start (.write _ 0)) (.connected _ _ rfl)
  obtain ⟨stock, l, hkeeps, hheld⟩ := kept_of_all (w := initialWorld) ⟨_, _, _, .refl⟩
  have hserver := Service.frameRead_run hkeeps hheld
  have hflushed : sent.flatMap ClientActors.packetsFlushed = [.base (.new 0 0)] := rfl
  have hread : taken.flatMap (Service.bytesRead 0) = [Service.sampleFrame] := rfl
  have hstream : stream [Service.sampleFrame] = wire [.base (.new 0 0)] := List.append_nil _
  have hshort : ∀ t ∈ sent, (ClientActors.flushed t).length ≤ 1 := by
    refine List.forall_mem_cons.mpr ⟨Nat.zero_le 1, List.forall_mem_singleton.mpr ?_⟩
    exact Nat.le_refl 1
  have hown : ∀ p ∈ sent.flatMap ClientActors.packetsFlushed, OwnTags p := by
    rw [hflushed]
    decide
  have hprefix : stream (taken.flatMap (Service.bytesRead 0)) <+:
      sent.flatMap ClientActors.bytesSent := by
    rw [ClientActors.bytesSent_eq hshort, hflushed, hread, hstream]
  have hcut : ∀ k, ∃ n, (stream ((taken.flatMap (Service.bytesRead 0)).take k)).length =
      (wire ((sent.flatMap ClientActors.packetsFlushed).take n)).length := by
    intro k
    rw [hflushed, hread]
    rcases k with _ | k
    · exact ⟨0, rfl⟩
    · refine ⟨1, ?_⟩
      rw [List.take_succ_cons, List.take_nil, hstream]
      rfl
  exact client_to_server hclient hserver (frameRead_created _) hshort hown hprefix hcut

end SocketCPlusPlus.Socket
