import SocketCPlusPlus.Socket.FramedStream

/-! The client's outgoing queue and the writes that flush it. All frames of a flush share one
staging buffer, and each write covers the buffer from its start. -/
namespace SocketCPlusPlus.Socket
open Foundation Packets IPacketSerializable

structure TCPClient where
  stopped : Bool
  isConnected : Bool
  packetOutDeque : List Ref

namespace TCPClient

/-- Bytes in the staging buffer of a flush. -/
def bufferSize : Nat := 120

def new : TCPClient where
  stopped := false
  isConnected := false
  packetOutDeque := []

def write (client : TCPClient) (packet : Ref) : TCPClient :=
  { client with packetOutDeque := client.packetOutDeque ++ [packet] }

def stop (client : TCPClient) : TCPClient :=
  { client with stopped := true, isConnected := false }

section Members
variable {Obj Class Raw : Type} [FactoryBoilerplate Class] [IPacketSerializable Obj Class Raw]

/-- The loop of a flush: the ranges given to `async_write`, as they are at each call. -/
def writeQueued : List Ref → PacketMethodFactory Obj Class Raw →
    Output (List (List UInt8) × PacketMethodFactory Obj Class Raw)
  | [], f => pure ([], f)
  | bp :: packets, f => do
      let _ ← SizePacket.serializeOut ⟨some bp⟩ f
      let buffer ← get
      let (_, f) := f.release bp
      let (writes, f) ← writeQueued packets f
      pure (buffer.data.load 0 buffer.bufferOffset :: writes, f)

/-- The staging buffer starts as the stack left it. -/
def startWrite (client : TCPClient) (f : PacketMethodFactory Obj Class Raw)
    (uninitialised : Memory) :
    List (List UInt8) × TCPClient × PacketMethodFactory Obj Class Raw :=
  if client.stopped then ([], client, f)
  else
    let ((writes, f), _) := (writeQueued client.packetOutDeque f).exec ⟨uninitialised, 0⟩
    (writes, { client with packetOutDeque := [] }, f)

/-- The memory from the staging buffer's first byte on, after a flush. -/
def staged (client : TCPClient) (f : PacketMethodFactory Obj Class Raw) (uninitialised : Memory) :
    Memory :=
  if client.stopped then uninitialised
  else ((writeQueued client.packetOutDeque f).exec ⟨uninitialised, 0⟩).2.data

end Members

/-- What the writes of a flush carry: each frame behind all frames before it. -/
def prefixes : List UInt8 → List Packet → List (List UInt8)
  | _, [] => []
  | staged, p :: packets =>
    (staged ++ SizePacket.frame p) :: prefixes (staged ++ SizePacket.frame p) packets

private theorem append_staged {b : Buffer} {staged : List UInt8} (bytes : List UInt8)
    (h : b.data.load 0 b.bufferOffset = staged) :
    (b.append bytes).data.load 0 (b.append bytes).bufferOffset = staged ++ bytes := by
  rw [Buffer.append_offset, Store.load_add, Nat.zero_add, b.append_load, ← h, Buffer.append,
    Store.load_store_disjoint]
  exact Or.inl (Nat.le_of_eq (Nat.zero_add _))

/-- A flush stages the frames of the queue in order and releases its packets. -/
theorem exec_writeQueued (queue : List Ref) (f : PacketMethodFactory Packet PacketClass UInt16)
    (b : Buffer) (staged : List UInt8) (h : b.data.load 0 b.bufferOffset = staged) :
    (writeQueued queue f).exec b =
      ((prefixes staged (queue.map f.heap), queue.foldl (fun f bp => (f.release bp).2) f),
        b.append (wire (queue.map f.heap))) := by
  induction queue generalizing f b staged with
  | nil => simp [writeQueued, prefixes, wire]
  | cons bp queue ih =>
    have hnext := append_staged (SizePacket.frame (f.heap bp)) h
    simp only [writeQueued, Output.exec_bind, SizePacket.exec_serializeOut, Output.exec_get,
      Output.exec_pure]
    rw [ih _ _ _ hnext, PacketMethodFactory.release_heap, hnext, Buffer.append_append]
    rfl

theorem startWrite_eq (client : TCPClient) (f : PacketMethodFactory Packet PacketClass UInt16)
    (uninitialised : Memory) (hstopped : client.stopped = false) :
    client.startWrite f uninitialised =
      (prefixes [] (client.packetOutDeque.map f.heap), { client with packetOutDeque := [] },
        client.packetOutDeque.foldl (fun f bp => (f.release bp).2) f) := by
  rw [startWrite, hstopped, exec_writeQueued _ _ _ [] rfl]
  rfl

theorem le_prefixes_length (staged : List UInt8) (packets : List Packet) :
    (wire packets).length + packets.length * staged.length ≤
      (prefixes staged packets).flatten.length := by
  induction packets generalizing staged with
  | nil => simp [wire, prefixes]
  | cons p packets ih =>
    have hrest := ih (staged ++ SizePacket.frame p)
    have hcons : wire (p :: packets) = SizePacket.frame p ++ wire packets := rfl
    have hmul : packets.length * (staged ++ SizePacket.frame p).length =
        packets.length * staged.length + packets.length * (SizePacket.frame p).length := by
      rw [List.length_append, Nat.mul_add]
    rw [prefixes, List.flatten_cons, hcons, List.length_append, List.length_append,
      List.length_append, List.length_cons, Nat.succ_mul]
    omega

/-- Two packets are enough for the first frame to be sent twice. -/
theorem prefixes_once_iff (packets : List Packet) :
    (prefixes [] packets).flatten = wire packets ↔ packets.length ≤ 1 := by
  rcases packets with _ | ⟨p, _ | ⟨q, packets⟩⟩
  · exact iff_of_true rfl (Nat.zero_le 1)
  · refine iff_of_true ?_ (Nat.le_refl 1)
    simp [prefixes, wire]
  · refine iff_of_false ?_ (by simp)
    intro heq
    have hcons : wire (p :: q :: packets) = SizePacket.frame p ++ wire (q :: packets) := rfl
    have hle := le_prefixes_length (SizePacket.frame p) (q :: packets)
    have hpos : 0 < (SizePacket.frame p).length := by simp [SizePacket.headerSize]
    rw [prefixes, List.nil_append, List.flatten_cons, hcons] at heq
    have hlen := congrArg List.length (List.append_cancel_left heq)
    rw [List.length_cons, Nat.succ_mul] at hle
    omega

/-- A flush whose frames fit the staging buffer sends each of them once exactly if at most
one packet is queued. -/
theorem start_write_once_iff (client : TCPClient)
    (f : PacketMethodFactory Packet PacketClass UInt16) (uninitialised : Memory)
    (hstopped : client.stopped = false)
    (_hfit : (wire (client.packetOutDeque.map f.heap)).length ≤ bufferSize) :
    (client.startWrite f uninitialised).1.flatten = wire (client.packetOutDeque.map f.heap) ↔
      client.packetOutDeque.length ≤ 1 := by
  rw [startWrite_eq client f uninitialised hstopped]
  exact (prefixes_once_iff _).trans (by rw [List.length_map])

theorem sample_start_write_once :
    let client := TCPClient.new.write 1
    (client.startWrite sampleSender fun _ => 0).1.flatten =
      wire (client.packetOutDeque.map sampleSender.heap) :=
  (start_write_once_iff (TCPClient.new.write 1) sampleSender (fun _ => 0) rfl (by decide)).mpr
    (by decide)

/-- With two packets queued the first one's frame is sent twice. -/
theorem two_queued_sent_twice :
    let client := (TCPClient.new.write 0).write 1
    (wire (client.packetOutDeque.map sampleSender.heap)).length ≤ bufferSize ∧
      (client.startWrite sampleSender fun _ => 0).1.flatten =
        SizePacket.frame (sampleSender.heap 0) ++
          wire (client.packetOutDeque.map sampleSender.heap) ∧
      (client.startWrite sampleSender fun _ => 0).1.flatten ≠
        wire (client.packetOutDeque.map sampleSender.heap) := by
  have hwrites := startWrite_eq ((TCPClient.new.write 0).write 1) sampleSender (fun _ => 0) rfl
  refine ⟨by decide, ?_, ?_⟩
  · rw [hwrites]
    rfl
  · rw [hwrites]
    decide

/-! What a flush writes behind its buffer. -/

theorem staged_eq {client : TCPClient} (f : PacketMethodFactory Packet PacketClass UInt16)
    (uninitialised : Memory) (hstopped : client.stopped = false) :
    client.staged f uninitialised =
      uninitialised.store 0 (wire (client.packetOutDeque.map f.heap)) := by
  rw [staged, hstopped, exec_writeQueued _ _ _ [] rfl]
  rfl

/-- A flush leaves the memory behind its staging buffer alone exactly if the client is stopped or
the frames of its queue fit the buffer together. -/
theorem staging_fits_iff (client : TCPClient) (f : PacketMethodFactory Packet PacketClass UInt16) :
    (∀ (memory : Memory) (i : Nat), bufferSize ≤ i → client.staged f memory i = memory i) ↔
      client.stopped = true ∨
        (client.packetOutDeque.map fun r => frameSize (f.heap r).classOf).sum ≤ bufferSize := by
  have hsum : (wire (client.packetOutDeque.map f.heap)).length =
      (client.packetOutDeque.map fun r => frameSize (f.heap r).classOf).sum := by
    rw [wire_length, List.map_map, List.map_map]
    rfl
  cases hstopped : client.stopped with
  | true =>
    refine iff_of_true ?_ (Or.inl rfl)
    intro memory i _
    rw [staged, if_pos hstopped]
  | false =>
    have hbytes : Nontrivial UInt8 := ⟨0, 1, by decide⟩
    have hwithin := Store.store_within_iff (wire (client.packetOutDeque.map f.heap))
      (Nat.zero_le bufferSize)
    rw [Nat.zero_add, hsum] at hwithin
    simp only [staged_eq f _ hstopped, hwithin, Bool.false_eq_true, false_or]

/-- Movement packets to send. -/
abbrev movementSender : PacketMethodFactory Packet PacketClass UInt16 :=
  .start (fun _ => PacketClass.movementPacket.createMethod 0) 4 (fun _ => 0)

/-- The fourth of four movement packets is written over the end of the buffer. -/
theorem four_movements_overflow :
    let client := (((TCPClient.new.write 0).write 1).write 2).write 3
    bufferSize ≤ 127 ∧ client.staged movementSender (fun _ => 255) 127 = 0 := by
  intro client
  refine ⟨by decide, ?_⟩
  rw [staged_eq movementSender _ rfl]
  decide

end TCPClient
end SocketCPlusPlus.Socket
