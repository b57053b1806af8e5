import SocketCPlusPlus.Socket.FramedStream

/-! A server-side connection and the completion of its reads. Every read starts at the
beginning of the same receive buffer; the loop sees whatever lies behind the new bytes. -/
namespace SocketCPlusPlus.Socket
open Foundation Packets IPacketSerializable

/-- Bytes in the receive buffer. -/
def maxLength : Nat := 512

structure TCPConnection where
  receiveBuffer : Memory
  inwardPackets : List Ref

section Reads
variable {Obj Class Raw : Type} [IPacketSerializable Obj Class Raw]

/-- The completion handler's loop over the first `length` bytes, from `inOffset` zero. -/
def receiveAll (f : PacketMethodFactory Obj Class Raw) (inwardPackets : List Ref) (length : Nat) :
    Input (Stop × PacketMethodFactory Obj Class Raw × List Ref) := do
  set 0
  receiveLoop length (length + 1) f inwardPackets

/-- A read that fills the front of the buffer, and its completion. -/
def TCPConnection.readSome (conn : TCPConnection) (f : PacketMethodFactory Obj Class Raw)
    (bytes : List UInt8) : Stop × PacketMethodFactory Obj Class Raw × TCPConnection :=
  let receiveBuffer := conn.receiveBuffer.store 0 bytes
  let ((stop, f, inwardPackets), _) :=
    (receiveAll f conn.inwardPackets bytes.length).eval receiveBuffer 0
  (stop, f, { receiveBuffer, inwardPackets })

end Reads

theorem TCPConnection.readSome_done (conn : TCPConnection)
    (f : PacketMethodFactory Packet PacketClass UInt16) (bytes : List UInt8)
    (h : ¬ Fits (conn.receiveBuffer.store 0 bytes) bytes.length 0) :
    conn.readSome f bytes =
      (.finished, f, ⟨conn.receiveBuffer.store 0 bytes, conn.inwardPackets⟩) := by
  simp only [readSome, receiveAll, Input.eval_bind, Input.eval_set]
  rw [receiveLoop_done h]

/-- The packets a read pushes, how its loop ends and the final `inOffset`. -/
def observe (f : PacketMethodFactory Packet PacketClass UInt16) (data : Memory) (length : Nat) :
    List Packet × Stop × Nat :=
  let ((stop, f, received), inOffset) := (receiveAll f [] length).eval data 0
  (received.map f.heap, stop, inOffset)

/-- Each class has a free packet for every frame a read can hold. -/
def FreeFor (w : World Packet PacketClass UInt16) (length : Nat) : Prop :=
  ∀ c : PacketClass, length / 10 + 1 + (w.outstanding (tags c)).length ≤ 100

theorem initial_freeFor {length : Nat} (h : length ≤ 512) : FreeFor initialWorld length := by
  intro c
  rw [initial_outstanding, List.length_nil]
  omega

/-- Each class has a free packet for every frame of it that the loop meets. -/
def FreeForFrames (w : World Packet PacketClass UInt16) (data : Memory) (length : Nat) : Prop :=
  ∀ c, (decode data length (length + 1) 0).1.countP (·.classOf = c) +
    (w.outstanding (tags c)).length ≤ 100

theorem FreeFor.forFrames {w : World Packet PacketClass UInt16} {length : Nat}
    (hfree : FreeFor w length) (data : Memory) : FreeForFrames w data length := by
  intro c
  have hc := hfree c
  have hle := List.countP_le_length (p := fun p : Packet => decide (p.classOf = c))
    (l := (decode data length (length + 1) 0).1)
  rcases decode_packets_le data length (length + 1) 0 with hnil | hbound
  · rw [hnil, List.countP_nil]
    omega
  · omega

theorem observe_eq_decode {w : World Packet PacketClass UInt16} (hw : w.Reachable PacketClass.all)
    (data : Memory) (length : Nat) (hfree : FreeFor w length) :
    observe w.factory data length = decode data length (length + 1) 0 := by
  obtain ⟨f, received, heval, hmap⟩ :=
    receiveLoop_reachable hw data length (length + 1) 0 (hfree.forFrames data)
  simp only [observe, receiveAll, Input.eval_bind, Input.eval_set, heval, hmap]

end SocketCPlusPlus.Socket
