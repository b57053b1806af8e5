import SocketCPlusPlus.Socket.ReceiveLoop

/-! What is written frame after frame is received packet after packet, cut off at any byte. -/
namespace SocketCPlusPlus.Socket
open Foundation Packets IPacketSerializable

/-- The packet's tag fields are its class's. -/
def OwnTags (p : Packet) : Prop :=
  (p.toBasePacket.packetType, p.toBasePacket.packetSubType) = tags p.classOf

instance (p : Packet) : Decidable (OwnTags p) := inferInstanceAs (Decidable (_ = _))

/-- The frames of a list of packets, one behind the other. -/
def wire (packets : List Packet) : List UInt8 := packets.flatMap SizePacket.frame

def frameSize (c : PacketClass) : Nat := SizePacket.headerSize + c.size

theorem wire_append (packets packets' : List Packet) :
    wire (packets ++ packets') = wire packets ++ wire packets' :=
  List.flatMap_append

theorem wire_length (packets : List Packet) :
    (wire packets).length = ((packets.map Packet.classOf).map frameSize).sum := by
  induction packets with
  | nil => rfl
  | cons p packets ih =>
    have hcons : wire (p :: packets) = SizePacket.frame p ++ wire packets := rfl
    rw [hcons, List.length_append, ih, SizePacket.frame_length, List.map_cons, List.map_cons,
      List.sum_cons]
    rfl

theorem length_le_wire (packets : List Packet) : packets.length ≤ (wire packets).length := by
  induction packets with
  | nil => exact Nat.le_refl _
  | cons p packets ih =>
    have hcons : wire (p :: packets) = SizePacket.frame p ++ wire packets := rfl
    rw [hcons, List.length_append, SizePacket.frame_length, List.length_cons]
    simp only [SizePacket.headerSize]
    omega

/-- Write the packets one after another. -/
def sendAll (g : PacketMethodFactory Packet PacketClass UInt16) (refs : List Ref) : Output Unit :=
  forM refs fun r => do
    let _ ← SizePacket.serializeOut ⟨some r⟩ g
    pure ()

theorem exec_sendAll (g : PacketMethodFactory Packet PacketClass UInt16) (refs : List Ref)
    (b : Buffer) : (sendAll g refs).exec b = ((), b.append (wire (refs.map g.heap))) := by
  induction refs generalizing b with
  | nil => simp [sendAll, wire]
  | cons r refs ih =>
    change (sendAll g refs).exec ((SizePacket.serializeOut ⟨some r⟩ g).exec b).2 = _
    rw [SizePacket.exec_serializeOut, ih, Buffer.append_append]
    rfl

/-- The packets whose whole frame ends at or before n, the first frame beginning at start. -/
def wholeFrames (n : Int) : Nat → List Packet → List Packet
  | _, [] => []
  | start, p :: packets =>
    let last := start + (SizePacket.frame p).length
    if last ≤ n then p :: wholeFrames n last packets else wholeFrames n last packets

/-- Once a frame does not fit, none behind it does. -/
theorem wholeFrames_nil {n : Int} {start : Nat} (packets : List Packet) (h : n < start) :
    wholeFrames n start packets = [] := by
  induction packets generalizing start with
  | nil => rfl
  | cons p packets ih =>
    rw [wholeFrames, if_neg (by omega)]
    exact ih (by omega)

theorem wholeFrames_all {n : Int} {start : Nat} (packets : List Packet)
    (h : (start + (wire packets).length : Nat) ≤ n) : wholeFrames n start packets = packets := by
  induction packets generalizing start with
  | nil => rfl
  | cons p packets ih =>
    simp only [wire, List.flatMap_cons, List.length_append] at h
    rw [wholeFrames, if_pos (by omega), ih]
    simp only [wire]
    omega

theorem wholeFrames_sublist (n : Int) (start : Nat) (packets : List Packet) :
    (wholeFrames n start packets).Sublist packets := by
  induction packets generalizing start with
  | nil => exact List.Sublist.refl _
  | cons p packets ih =>
    rw [wholeFrames]
    split
    · exact (ih _).cons_cons p
    · exact (ih _).cons p

section Decoder
variable {data : Memory} {offset : Nat}

theorem frame_at {p : Packet}
    (h : data.load offset (SizePacket.frame p).length = SizePacket.frame p) :
    Serialize.wordAt data (offset + 1) 2 = p.classOf.size ∧
      Packet.parsed p.classOf data (offset + 3) = p ∧
      (data (offset + 3), data (offset + 4)) =
        (p.toBasePacket.packetType, p.toBasePacket.packetSubType) := by
  rw [SizePacket.frame_length, SizePacket.load_frame, SizePacket.frame, List.cons.injEq] at h
  obtain ⟨hsize, hbody⟩ := List.append_inj h.2 (by simp)
  obtain ⟨htype, hsub⟩ := Packet.tags_of_load hbody
  refine ⟨?_, Packet.parsed_of_load hbody, Prod.ext htype hsub⟩
  rw [Serialize.wordAt, hsize, beValue_msbFirst]
  exact Nat.mod_eq_of_lt p.classOf.size_lt

/-- The decoder finds the whole frames and stops behind the last of them. -/
theorem decode_frames (data : Memory) (offset : Nat) (packets : List Packet) (n : Int)
    (fuel : Nat) (hown : ∀ p ∈ packets, OwnTags p) (hn : n ≤ (offset + (wire packets).length : Nat))
    (hfuel : packets.length < fuel)
    (hload : data.load offset (wire packets).length = wire packets) :
    decode data n fuel offset = (wholeFrames n offset packets, .finished,
      offset + (wire (wholeFrames n offset packets)).length) := by
  induction packets generalizing offset fuel with
  | nil =>
    obtain ⟨fuel, rfl⟩ := Nat.exists_eq_add_one_of_ne_zero (Nat.ne_of_gt hfuel)
    rw [decode_done]
    · rfl
    · simp only [wire, List.flatMap_nil, List.length_nil] at hn
      simp only [Fits, SizePacket.headerSize]
      omega
  | cons p packets ih =>
    obtain ⟨fuel, rfl⟩ := Nat.exists_eq_add_one_of_ne_zero (Nat.ne_of_gt (Nat.zero_lt_of_lt hfuel))
    have hcons : wire (p :: packets) = SizePacket.frame p ++ wire packets := rfl
    rw [hcons, List.length_append, Store.load_add] at hload
    rw [hcons, List.length_append] at hn
    obtain ⟨hframe, hrest⟩ := List.append_inj hload (by simp)
    obtain ⟨hsize, hparsed, htags⟩ := frame_at hframe
    by_cases hfit : (offset + (SizePacket.frame p).length : Nat) ≤ n
    · have hclass : classAt data offset = some p.classOf := by
        rw [classAt, PacketClass.ofTags_iff, htags]
        exact (hown p List.mem_cons_self).symm
      have hnext := ih (offset + (SizePacket.frame p).length) fuel
        (fun q hq => hown q (List.mem_cons_of_mem p hq)) (by omega) (by simpa using hfuel) hrest
      rw [SizePacket.frame_length] at hfit hnext
      rw [decode_frame (by rw [Fits, hsize]; omega) hclass, hparsed, hnext, wholeFrames, if_pos (by
        rw [SizePacket.frame_length]; exact hfit)]
      simp only [SizePacket.frame_length, wire, List.flatMap_cons, List.length_append]
      simp only [Nat.add_assoc]
    · rw [decode_done, wholeFrames, if_neg hfit, wholeFrames_nil packets (by omega)]
      · rfl
      · rw [SizePacket.frame_length] at hfit
        rw [Fits, hsize]
        omega

end Decoder

/-- Framed stream round trip: packets written from any offset and received up to any byte
come out of the loop whole and in order, each equal to the one written. -/
theorem framed_stream_round_trip (w : World Packet PacketClass UInt16)
    (hw : w.Reachable PacketClass.all) (g : PacketMethodFactory Packet PacketClass UInt16)
    (refs : List Ref) (hown : ∀ r ∈ refs, OwnTags (g.heap r))
    (hfree : ∀ c, (refs.map g.heap).countP (·.classOf = c) + (w.outstanding (tags c)).length ≤ 100)
    (b : Buffer) (n : Int) (fuel : Nat) (hfuel : refs.length < fuel)
    (hn : n ≤ ((sendAll g refs).exec b).2.bufferOffset) :
    let whole := wholeFrames n b.bufferOffset (refs.map g.heap)
    ∃ (f : PacketMethodFactory Packet PacketClass UInt16) (received : List Ref),
      (receiveLoop n fuel w.factory []).eval ((sendAll g refs).exec b).2.data b.bufferOffset =
        ((.finished, f, received), b.bufferOffset + (wire whole).length) ∧
      received.map f.heap = whole := by
  intro whole
  rw [exec_sendAll, Buffer.append_offset] at hn
  have hdecode := decode_frames _ b.bufferOffset (refs.map g.heap) n fuel
    (by simpa using hown) hn (by simpa using hfuel) (b.append_load (wire (refs.map g.heap)))
  have henough : ∀ c, (wholeFrames n b.bufferOffset (refs.map g.heap)).countP (·.classOf = c) +
      (w.outstanding (tags c)).length ≤ 100 := by
    intro c
    have hsub := (wholeFrames_sublist n b.bufferOffset (refs.map g.heap)).countP_le
      (p := (·.classOf = c))
    have hcount := hfree c
    omega
  obtain ⟨f, received, heval, hmap⟩ := receiveLoop_reachable hw
    (b.append (wire (refs.map g.heap))).data n fuel b.bufferOffset (by rw [hdecode]; exact henough)
  rw [hdecode] at heval hmap
  rw [exec_sendAll]
  exact ⟨f, received, heval, hmap⟩

/-- A base packet and a movement packet to send. -/
abbrev sampleSender : PacketMethodFactory Packet PacketClass UInt16 :=
  .start (fun r => if r = 0 then PacketClass.basePacket.createMethod 0
    else PacketClass.movementPacket.createMethod 0) 2 (fun _ => 0)

theorem sample_round_trip :
    let b : Buffer := ⟨fun _ => 255, 5⟩
    let whole := wholeFrames 40 5 [sampleSender.heap 0, sampleSender.heap 1]
    ∃ (f : PacketMethodFactory Packet PacketClass UInt16) (received : List Ref),
      (receiveLoop 40 3 initialWorld.factory []).eval ((sendAll sampleSender [0, 1]).exec b).2.data 5
        = ((.finished, f, received), 5 + (wire whole).length) ∧
      received.map f.heap = whole :=
  framed_stream_round_trip initialWorld ⟨_, _, _, .refl⟩ sampleSender [0, 1] (by decide)
    (fun c => by rw [initial_outstanding]; cases c <;> decide) ⟨fun _ => 255, 5⟩ 40 3 (by decide)
    (by rw [exec_sendAll]; decide)

end SocketCPlusPlus.Socket
