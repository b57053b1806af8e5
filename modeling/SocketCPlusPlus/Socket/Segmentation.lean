import SocketCPlusPlus.Socket.TCPConnection

/-! Successive reads of one stream. No parser state survives a read: streams cut between
frames arrive whole, and a frame cut by a read boundary is lost. -/
namespace SocketCPlusPlus.Socket
open Foundation Packets IPacketSerializable

/-- The bytes one read may deliver. -/
abbrev Read := {bytes : List UInt8 // bytes ≠ [] ∧ bytes.length ≤ maxLength}

/-- Reads completed one after another, up to the first one that does not finish. -/
def TCPConnection.readAll (conn : TCPConnection) (f : PacketMethodFactory Packet PacketClass UInt16) :
    List Read → Stop × PacketMethodFactory Packet PacketClass UInt16 × TCPConnection
  | [] => (.finished, f, conn)
  | bytes :: reads =>
    match conn.readSome f bytes.1 with
    | (.finished, f, conn) => conn.readAll f reads
    | stopped => stopped

theorem readAll_finished {conn conn' : TCPConnection}
    {f f' : PacketMethodFactory Packet PacketClass UInt16} {bytes : Read} (reads : List Read)
    (h : conn.readSome f bytes.1 = (.finished, f', conn')) :
    conn.readAll f (bytes :: reads) = conn'.readAll f' reads := by
  rw [TCPConnection.readAll, h]

theorem readAll_cons {conn conn' : TCPConnection}
    {f f' : PacketMethodFactory Packet PacketClass UInt16} {bytes : Read} {reads : List Read}
    (h : conn.readAll f (bytes :: reads) = (.finished, f', conn')) :
    ∃ f₁ conn₁, conn.readSome f bytes.1 = (.finished, f₁, conn₁) ∧
      conn₁.readAll f₁ reads = (.finished, f', conn') := by
  rcases hread : conn.readSome f bytes.1 with ⟨stop, f₁, conn₁⟩
  cases stop with
  | finished =>
    rw [readAll_finished reads hread] at h
    exact ⟨f₁, conn₁, rfl, h⟩
  | crashed =>
    rw [TCPConnection.readAll, hread] at h
    cases h
  | outOfFuel =>
    rw [TCPConnection.readAll, hread] at h
    cases h

def stream (reads : List Read) : List UInt8 := (reads.map Subtype.val).flatten

def readLengths (reads : List Read) : List Nat := reads.map (·.1.length)

/-- The reads push exactly these packets. -/
def Delivers (conn : TCPConnection) (f : PacketMethodFactory Packet PacketClass UInt16)
    (reads : List Read) (packets : List Packet) : Prop :=
  ∃ f' conn', conn.readAll f reads = (.finished, f', conn') ∧
    conn'.inwardPackets.map f'.heap = conn.inwardPackets.map f.heap ++ packets

/-- Reads of these lengths deliver packets of these classes, whatever the packets say and
whatever the receive buffer held before. -/
def AlwaysDelivers (f : PacketMethodFactory Packet PacketClass UInt16)
    (classes : List PacketClass) (lengths : List Nat) : Prop :=
  ∀ (packets : List Packet) (reads : List Read) (receiveBuffer : Memory),
    packets.map Packet.classOf = classes → (∀ p ∈ packets, OwnTags p) →
    readLengths reads = lengths → stream reads = wire packets →
    Delivers ⟨receiveBuffer, []⟩ f reads packets

/-- Every read ends where a frame ends. -/
def CutBetweenFrames (classes : List PacketClass) (lengths : List Nat) : Prop :=
  ∀ k, ∃ n, (lengths.take k).sum = ((classes.take n).map frameSize).sum

/-! Lengths and streams. -/

theorem stream_length (reads : List Read) : (stream reads).length = (readLengths reads).sum := by
  simp [stream, readLengths, List.length_flatten]

theorem exists_reads (lengths : List Nat) (bytes : List UInt8)
    (hlengths : ∀ n ∈ lengths, 0 < n ∧ n ≤ maxLength) (hsum : lengths.sum = bytes.length) :
    ∃ reads, readLengths reads = lengths ∧ stream reads = bytes := by
  induction lengths generalizing bytes with
  | nil => exact ⟨[], rfl, (List.length_eq_zero_iff.mp hsum.symm).symm⟩
  | cons n lengths ih =>
    rw [List.sum_cons] at hsum
    obtain ⟨hpos, hmax⟩ := hlengths n List.mem_cons_self
    have htake : (bytes.take n).length = n := by
      rw [List.length_take]
      omega
    obtain ⟨reads, hread, hstream⟩ := ih (bytes.drop n)
      (fun m hm => hlengths m (List.mem_cons_of_mem n hm)) (by rw [List.length_drop]; omega)
    have hne : bytes.take n ≠ [] := List.ne_nil_of_length_pos (by omega)
    refine ⟨⟨bytes.take n, hne, by omega⟩ :: reads, ?_, ?_⟩
    · change (bytes.take n).length :: readLengths reads = n :: lengths
      rw [htake, hread]
    · change bytes.take n ++ stream reads = bytes
      rw [hstream, List.take_append_drop]

/-! Reads of whole frames. -/

section Runs
variable {stock : Stock TypePair Ref} {f : PacketMethodFactory Packet PacketClass UInt16}
  {l : Ledger stock}

theorem readSome_decode (conn : TCPConnection) (hk : f.Keeps PacketClass.all l)
    (bytes : List UInt8) :
    let data := conn.receiveBuffer.store 0 bytes
    let decoded := decode data bytes.length (bytes.length + 1) 0
    (∀ c, decoded.1.countP (·.classOf = c) ≤ (l.free (tags c)).length) →
    ∃ (f' : PacketMethodFactory Packet PacketClass UInt16) (refs : List Ref) (l' : Ledger stock),
      conn.readSome f bytes = (decoded.2.1, f', ⟨data, conn.inwardPackets ++ refs⟩) ∧
      f'.Keeps PacketClass.all l' ∧ l'.held = l.held ++ refs ∧ refs.map f'.heap = decoded.1 ∧
      (∀ r ∈ l.held, f'.heap r = f.heap r) ∧
      ∀ c, (l'.free (tags c)).length + decoded.1.countP (·.classOf = c) =
        (l.free (tags c)).length := by
  intro data decoded hfree
  obtain ⟨f', refs, l', heval, hrest⟩ :=
    receiveLoop_decode data bytes.length (bytes.length + 1) 0 l hk conn.inwardPackets hfree
  refine ⟨f', refs, l', ?_, hrest⟩
  simp only [TCPConnection.readSome, receiveAll, Input.eval_bind, Input.eval_set]
  rw [heval]

theorem readSome_exhausted (conn : TCPConnection) (hk : f.Keeps PacketClass.all l)
    (bytes : List UInt8) {c : PacketClass} (hshort : (l.free (tags c)).length <
      (decode (conn.receiveBuffer.store 0 bytes) bytes.length (bytes.length + 1) 0).1.countP
        (·.classOf = c)) : (conn.readSome f bytes).1 = .crashed := by
  have hstop := receiveLoop_exhausted _ _ _ 0 l hk conn.inwardPackets hshort
  simp only [TCPConnection.readSome, receiveAll, Input.eval_bind, Input.eval_set]
  exact hstop

/-- A read that finishes found a free packet for every frame: it leaves its bytes in the buffer
and pushes what the decoder finds there. -/
theorem readSome_finished {conn conn' : TCPConnection}
    {f' : PacketMethodFactory Packet PacketClass UInt16} (hk : f.Keeps PacketClass.all l)
    {bytes : List UInt8} (h : conn.readSome f bytes = (.finished, f', conn')) :
    ∃ (refs : List Ref) (l' : Ledger stock),
      conn' = ⟨conn.receiveBuffer.store 0 bytes, conn.inwardPackets ++ refs⟩ ∧
      f'.Keeps PacketClass.all l' ∧ l'.held = l.held ++ refs ∧
      refs.map f'.heap = (decode (conn.receiveBuffer.store 0 bytes) bytes.length
        (bytes.length + 1) 0).1 ∧
      ∀ r ∈ l.held, f'.heap r = f.heap r := by
  have henough : ∀ c, (decode (conn.receiveBuffer.store 0 bytes) bytes.length (bytes.length + 1)
      0).1.countP (·.classOf = c) ≤ (l.free (tags c)).length := by
    intro c
    by_contra hshort
    have hcrash := readSome_exhausted conn hk bytes (Nat.lt_of_not_le hshort)
    rw [h] at hcrash
    cases hcrash
  obtain ⟨f₁, refs, l', hread, hk', hheld, hmap, hold, -⟩ :=
    readSome_decode conn hk bytes henough
  rw [h, Prod.mk.injEq, Prod.mk.injEq] at hread
  obtain ⟨-, rfl, rfl⟩ := hread
  exact ⟨refs, l', rfl, hk', hheld, hmap, hold⟩

theorem decode_group (data : Memory) (group : List Packet) (hown : ∀ p ∈ group, OwnTags p) :
    decode (data.store 0 (wire group)) (wire group).length ((wire group).length + 1) 0 =
      (group, .finished, (wire group).length) := by
  rw [decode_frames _ 0 group (wire group).length ((wire group).length + 1) hown (by omega)
    (Nat.lt_succ_of_le (length_le_wire group)) (Store.load_store_same ..),
    wholeFrames_all group (by omega), Nat.zero_add]

theorem readAll_groups (conn : TCPConnection) (hk : f.Keeps PacketClass.all l)
    (hheld : ∀ r ∈ conn.inwardPackets, r ∈ l.held) (groups : List (List Packet))
    (reads : List Read) (hreads : reads.map Subtype.val = groups.map wire)
    (hown : ∀ p ∈ groups.flatten, OwnTags p)
    (hfree : ∀ c, groups.flatten.countP (·.classOf = c) ≤ (l.free (tags c)).length) :
    Delivers conn f reads groups.flatten := by
  induction groups generalizing f l conn reads with
  | nil =>
    rw [List.map_eq_nil_iff.mp hreads]
    exact ⟨f, conn, rfl, by simp⟩
  | cons group groups ih =>
    rcases reads with _ | ⟨bytes, reads⟩
    · exact absurd hreads.symm (List.cons_ne_nil _ _)
    rw [List.map_cons, List.map_cons, List.cons.injEq] at hreads
    obtain ⟨hbytes, hrest⟩ := hreads
    simp only [List.flatten_cons, List.countP_append] at hown hfree ⊢
    have hdecode := decode_group conn.receiveBuffer group
      fun p hp => hown p (List.mem_append_left _ hp)
    obtain ⟨f₁, refs, l₁, hread, hk₁, hheld₁, hmap, hold, hsum⟩ :=
      readSome_decode conn hk (wire group) (by
        intro c
        rw [hdecode]
        exact Nat.le_of_add_right_le (hfree c))
    simp only [hdecode] at hread hmap hsum
    obtain ⟨f', conn', hall, hinward⟩ := ih
      ⟨conn.receiveBuffer.store 0 (wire group), conn.inwardPackets ++ refs⟩ hk₁ (by
        intro r hr
        rw [hheld₁]
        rcases List.mem_append.mp hr with hr | hr
        · exact List.mem_append_left _ (hheld r hr)
        · exact List.mem_append_right _ hr) reads hrest
      (fun p hp => hown p (List.mem_append_right _ hp)) (by
        intro c
        have hc := hfree c
        have hs := hsum c
        omega)
    refine ⟨f', conn', ?_, ?_⟩
    · rw [← hall]
      exact readAll_finished reads (by rw [hbytes, hread])
    · have hsame : conn.inwardPackets.map f₁.heap = conn.inwardPackets.map f.heap :=
        List.map_congr_left fun r hr => hold r (hheld r hr)
      rw [hinward, List.map_append, hsame, hmap, List.append_assoc]

end Runs

theorem groups_of_cuts (packets : List Packet) (reads : List Read)
    (hstream : stream reads = wire packets)
    (hcut : ∀ k, ∃ n, (stream (reads.take k)).length = (wire (packets.take n)).length) :
    ∃ groups : List (List Packet), reads.map Subtype.val = groups.map wire ∧
      groups.flatten = packets := by
  induction reads generalizing packets with
  | nil =>
    have hle := length_le_wire packets
    rw [← hstream] at hle
    exact ⟨[], rfl, (List.length_eq_zero_iff.mp (Nat.le_zero.mp hle)).symm⟩
  | cons bytes reads ih =>
    have hcons : ∀ rs, stream (bytes :: rs) = bytes.1 ++ stream rs := fun rs => rfl
    obtain ⟨n, hn⟩ := hcut 1
    have hfirst : bytes.1.length = (wire (packets.take n)).length := by
      rw [← hn, List.take_succ_cons, List.take_zero, hcons, List.length_append]
      rfl
    have hsplit : wire packets = wire (packets.take n) ++ wire (packets.drop n) := by
      rw [← wire_append, List.take_append_drop]
    rw [hcons, hsplit] at hstream
    obtain ⟨hbytes, hrest⟩ := List.append_inj hstream hfirst
    obtain ⟨groups, hmap, hflat⟩ := ih (packets.drop n) hrest (by
      intro k
      obtain ⟨m, hm⟩ := hcut (k + 1)
      rw [List.take_succ_cons, hcons, List.length_append, hfirst] at hm
      rcases Nat.lt_or_ge m n with hlt | hle
      · -- a cut inside the first read leaves nothing behind it
        obtain ⟨j, rfl⟩ := Nat.exists_eq_add_of_lt hlt
        rw [Nat.add_assoc, List.take_add, wire_append, List.length_append] at hm
        refine ⟨0, ?_⟩
        rw [List.take_zero]
        simp only [wire, List.flatMap_nil, List.length_nil] at hm ⊢
        omega
      · obtain ⟨j, rfl⟩ := Nat.exists_eq_add_of_le hle
        rw [List.take_add, wire_append, List.length_append] at hm
        exact ⟨j, Nat.add_left_cancel hm⟩)
    refine ⟨packets.take n :: groups, ?_, ?_⟩
    · rw [List.map_cons, List.map_cons, hmap, hbytes]
    · rw [List.flatten_cons, hflat, List.take_append_drop]

theorem alwaysDelivers_of_cut {w : World Packet PacketClass UInt16}
    (hw : w.Reachable PacketClass.all) {classes : List PacketClass} {lengths : List Nat}
    (hfree : ∀ c, classes.count c + (w.outstanding (tags c)).length ≤ 100)
    (hcut : CutBetweenFrames classes lengths) :
    AlwaysDelivers w.factory classes lengths := by
  rintro packets reads receiveBuffer rfl hown rfl hstream
  obtain ⟨stock, l, hk, hheld⟩ := kept_of_all hw
  obtain ⟨groups, hmap, rfl⟩ := groups_of_cuts packets reads hstream (by
    intro k
    obtain ⟨n, hn⟩ := hcut k
    refine ⟨n, ?_⟩
    rw [stream_length, wire_length, List.map_take, ← hn, readLengths, readLengths, List.map_take])
  refine readAll_groups _ hk (fun r hr => absurd hr List.not_mem_nil) groups reads hmap hown ?_
  intro c
  have hsum := World.free_add_outstanding hk hheld (PacketClass.mem_all c)
  have hcount := hfree c
  rw [List.count, List.countP_map] at hcount
  have hsame : groups.flatten.countP (·.classOf = c) =
      groups.flatten.countP ((· == c) ∘ Packet.classOf) :=
    List.countP_congr fun p _ => by simp
  omega

end SocketCPlusPlus.Socket
