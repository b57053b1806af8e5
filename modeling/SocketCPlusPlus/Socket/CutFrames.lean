import SocketCPlusPlus.Socket.Segmentation

/-! A frame cut by a read boundary is lost. One marked byte shows it: behind the cut it comes
to lie among the first five bytes of its read, where no packet takes a member from. -/
namespace SocketCPlusPlus.Socket
open Foundation Packets IPacketSerializable

def Unmarked (bytes : List UInt8) : Prop := ∀ i, 5 ≤ i → bytes[i]? ≠ some 255

namespace Unmarked

theorem of_not_mem {bytes : List UInt8} (h : 255 ∉ bytes) : Unmarked bytes :=
  fun _ _ hi => h (List.mem_of_getElem? hi)

theorem of_append (xs ys : List UInt8) (h : Unmarked (xs ++ ys)) : Unmarked xs ∧ Unmarked ys := by
  constructor
  · intro i hi hx
    apply h i hi
    rw [List.getElem?_append_left (List.getElem?_eq_some_iff.mp hx).1, hx]
  · intro i hi hy
    apply h (xs.length + i) (by omega)
    rw [List.getElem?_append_right (Nat.le_add_right ..), Nat.add_sub_cancel_left, hy]

theorem of_stream {reads : List Read} (h : Unmarked (stream reads)) :
    ∀ bytes ∈ reads, Unmarked bytes.1 := by
  induction reads with
  | nil => exact fun _ hb => absurd hb List.not_mem_nil
  | cons bytes reads ih =>
    obtain ⟨hfirst, hrest⟩ := of_append bytes.1 (stream reads) h
    intro b hb
    rcases List.mem_cons.mp hb with rfl | hb
    · exact hfirst
    · exact ih hrest b hb

end Unmarked

private theorem header_not_marked (c : PacketClass) :
    255 ∉ PacketType.networkProtocol.toU8 :: msbFirst 2 c.size := by
  cases c <;> decide

theorem frame_parsed_get {c : PacketClass} {data : Memory} {offset k : Nat} (hk : k < c.size) :
    (SizePacket.frame (Packet.parsed c data offset))[3 + k]? = some (data (offset + k)) := by
  rw [SizePacket.frame, Packet.classOf_parsed, Packet.body_parsed, ← List.cons_append,
    List.getElem?_append_right (by simp), ← Store.load_get data offset c.size k hk]
  congr 1
  simp only [List.length_cons, msbFirst_length]
  omega

theorem frame_parsed_marked {c : PacketClass} {data : Memory} {offset i : Nat}
    (h : (SizePacket.frame (Packet.parsed c data (offset + 3)))[i]? = some 255) :
    data (offset + i) = 255 := by
  obtain ⟨hi, -⟩ := List.getElem?_eq_some_iff.mp h
  rw [SizePacket.frame_length, Packet.classOf_parsed, SizePacket.headerSize] at hi
  rcases Nat.lt_or_ge i 3 with hlt | hge
  · rw [SizePacket.frame, Packet.classOf_parsed, ← List.cons_append,
      List.getElem?_append_left (by simpa using hlt)] at h
    exact absurd (List.mem_of_getElem? h) (header_not_marked c)
  · obtain ⟨k, rfl⟩ := Nat.exists_eq_add_of_le hge
    rw [frame_parsed_get (by omega), Option.some.injEq, Nat.add_assoc] at h
    exact h

/-! Runs in an unmarked buffer. -/

theorem decode_unmarked {data : Memory} (hdata : ∀ i, 5 ≤ i → data i ≠ 255) (length : Int)
    (fuel offset : Nat) :
    ∀ p ∈ (decode data length fuel offset).1, Unmarked (SizePacket.frame p) := by
  induction fuel generalizing offset with
  | zero => exact fun _ hp => absurd hp List.not_mem_nil
  | succ fuel ih =>
    by_cases hfit : Fits data length offset
    · cases hc : PacketClass.ofTags (data (offset + 3), data (offset + 4)) with
      | none =>
        rw [decode_unregistered hfit hc]
        exact fun _ hp => absurd hp List.not_mem_nil
      | some c =>
        rw [decode_frame hfit hc]
        intro p hp
        rcases List.mem_cons.mp hp with rfl | hp
        · intro i hi hmark
          exact hdata (offset + i) (by omega) (frame_parsed_marked hmark)
        · exact ih _ p hp
    · rw [decode_done hfit]
      exact fun _ hp => absurd hp List.not_mem_nil

theorem store_unmarked {data : Memory} {bytes : List UInt8} (hdata : ∀ i, 5 ≤ i → data i ≠ 255)
    (hbytes : Unmarked bytes) : ∀ i, 5 ≤ i → data.store 0 bytes i ≠ 255 := by
  intro i hi
  rcases Nat.lt_or_ge i bytes.length with hlt | hge
  · have hcell := Store.store_get data 0 bytes hlt
    rw [Nat.zero_add] at hcell
    rw [hcell]
    intro hmark
    exact hbytes i hi (by rw [List.getElem?_eq_getElem hlt, hmark])
  · rw [Store.store_after _ _ (by omega)]
    exact hdata i hi

theorem readAll_unmarked {stock : Stock TypePair Ref}
    {f f' : PacketMethodFactory Packet PacketClass UInt16} {l : Ledger stock}
    {conn conn' : TCPConnection} (hk : f.Keeps PacketClass.all l)
    (hbuffer : ∀ i, 5 ≤ i → conn.receiveBuffer i ≠ 255)
    (hinward : ∀ r ∈ conn.inwardPackets, r ∈ l.held ∧ Unmarked (SizePacket.frame (f.heap r)))
    (reads : List Read) (hreads : ∀ bytes ∈ reads, Unmarked bytes.1)
    (h : conn.readAll f reads = (.finished, f', conn')) :
    ∀ r ∈ conn'.inwardPackets, Unmarked (SizePacket.frame (f'.heap r)) := by
  induction reads generalizing f l conn with
  | nil =>
    cases h
    exact fun r hr => (hinward r hr).2
  | cons bytes reads ih =>
    obtain ⟨f₁, conn₁, hread, hrest⟩ := readAll_cons h
    obtain ⟨refs, l₁, rfl, hk₁, hheld₁, hmap, hold⟩ := readSome_finished hk hread
    have hdata := store_unmarked hbuffer (hreads bytes List.mem_cons_self)
    refine ih hk₁ hdata ?_ (fun b hb => hreads b (List.mem_cons_of_mem bytes hb)) hrest
    intro r hr
    rw [hheld₁]
    rcases List.mem_append.mp hr with hr | hr
    · rw [hold r (hinward r hr).1]
      exact ⟨List.mem_append_left _ (hinward r hr).1, (hinward r hr).2⟩
    · refine ⟨List.mem_append_right _ hr, ?_⟩
      apply decode_unmarked hdata bytes.1.length (bytes.1.length + 1) 0
      rw [← hmap]
      exact List.mem_map_of_mem hr

/-! Packets to lose. -/

def tagged (c : PacketClass) : Memory := Store.store (fun _ => 0) 3 [type c, subType c]

def plain (c : PacketClass) : Packet := Packet.parsed c (tagged c) (0 + 3)

/-- The packet whose frame is marked at q. -/
def marked (c : PacketClass) (q : Nat) : Packet :=
  Packet.parsed c ((tagged c).store q [255]) (0 + 3)

theorem tagged_unmarked (c : PacketClass) (i : Nat) : tagged c i ≠ 255 := by
  rcases Nat.lt_or_ge i 3 with hlt | hge
  · rw [tagged, Store.store_before _ _ hlt]
    decide
  · obtain ⟨k, rfl⟩ := Nat.exists_eq_add_of_le hge
    rcases k with _ | _ | k
    · cases c <;> decide
    · cases c <;> decide
    · rw [tagged, Store.store_after]
      · decide
      · simp only [List.length_cons, List.length_nil]
        omega

theorem ownTags_parsed {c : PacketClass} {data : Memory} {offset : Nat}
    (h : (data offset, data (offset + 1)) = tags c) : OwnTags (Packet.parsed c data offset) := by
  obtain ⟨htype, hsub⟩ := @Packet.tags_of_load (Packet.parsed c data offset)
    data offset (by rw [Packet.classOf_parsed, Packet.body_parsed])
  rw [OwnTags, Packet.classOf_parsed, ← h, htype, hsub]

theorem plain_ownTags (c : PacketClass) : OwnTags (plain c) := by
  apply ownTags_parsed
  cases c <;> rfl

theorem marked_ownTags (c : PacketClass) {q : Nat} (hq : 5 ≤ q) : OwnTags (marked c q) := by
  apply ownTags_parsed
  rw [Store.store_before _ _ (by omega), Store.store_before _ _ (by omega)]
  cases c <;> rfl

theorem plain_wire (classes : List PacketClass) : 255 ∉ wire (classes.map plain) := by
  intro h
  obtain ⟨p, hp, hmark⟩ := List.mem_flatMap.mp h
  obtain ⟨c, -, rfl⟩ := List.mem_map.mp hp
  obtain ⟨i, hi⟩ := List.mem_iff_getElem?.mp hmark
  exact tagged_unmarked c _ (frame_parsed_marked hi)

theorem marked_at {c : PacketClass} {q i : Nat}
    (h : (SizePacket.frame (marked c q))[i]? = some 255) : i = q := by
  have hcell := frame_parsed_marked h
  rw [Nat.zero_add] at hcell
  by_contra hne
  apply tagged_unmarked c i
  rw [← hcell, Store.store_frame]
  simp only [List.length_cons, List.length_nil]
  omega

theorem marked_marked (c : PacketClass) {q : Nat} (hq : 5 ≤ q) (hsize : q < frameSize c) :
    ¬ Unmarked (SizePacket.frame (marked c q)) := by
  intro h
  simp only [frameSize, SizePacket.headerSize] at hsize
  obtain ⟨k, rfl⟩ := Nat.exists_eq_add_of_le (Nat.le_of_add_right_le (k := 2) (n := 3) hq)
  apply h (3 + k) hq
  rw [marked, frame_parsed_get (by omega), Nat.zero_add]
  exact congrArg some (Store.store_get (tagged c) (3 + k) [255] (k := 0) Nat.one_pos)

/-! The cut. -/

theorem inside_of_not_between (classes : List PacketClass) (t : Nat)
    (hle : t ≤ (classes.map frameSize).sum)
    (hcut : ∀ n, t ≠ ((classes.take n).map frameSize).sum) :
    ∃ (front : List PacketClass) (c : PacketClass) (back : List PacketClass) (j : Nat),
      classes = front ++ c :: back ∧ t = (front.map frameSize).sum + j ∧ 0 < j ∧
        j < frameSize c := by
  induction classes generalizing t with
  | nil => exact absurd (Nat.le_zero.mp hle) (hcut 0)
  | cons c classes ih =>
    have hpos : t ≠ 0 := hcut 0
    have hfirst := hcut 1
    simp only [List.map_cons, List.sum_cons, List.take_succ_cons, List.take_zero, List.map_nil,
      List.sum_nil, Nat.add_zero] at hle hfirst
    rcases Nat.lt_or_ge t (frameSize c) with hlt | hge
    · exact ⟨[], c, classes, t, rfl, (Nat.zero_add t).symm, Nat.pos_of_ne_zero hpos, hlt⟩
    · obtain ⟨front, d, back, j, hclasses, ht, hj⟩ := ih (t - frameSize c) (by omega) (by
        intro n hn
        apply hcut (n + 1)
        rw [List.take_succ_cons, List.map_cons, List.sum_cons]
        omega)
      refine ⟨c :: front, d, back, j, congrArg (c :: ·) hclasses, ?_, hj⟩
      rw [List.map_cons, List.sum_cons]
      omega

/-- Cut at j, the marked frame has no marked byte in front of the cut and none from the fifth
byte behind it. -/
theorem marked_cut (front back : List PacketClass) (c : PacketClass) {j : Nat} (hj : 0 < j) :
    255 ∉ wire (front.map plain) ++ (SizePacket.frame (marked c (max j 5))).take j ∧
    Unmarked ((SizePacket.frame (marked c (max j 5))).drop j ++ wire (back.map plain)) := by
  constructor
  · intro h
    rcases List.mem_append.mp h with h | h
    · exact plain_wire front h
    · obtain ⟨i, hi⟩ := List.mem_iff_getElem?.mp h
      rw [List.getElem?_take] at hi
      split at hi
      · have hq := marked_at hi
        omega
      · cases hi
  · intro i hi hmark
    rcases Nat.lt_or_ge i ((SizePacket.frame (marked c (max j 5))).drop j).length
      with hlt | hge
    · rw [List.getElem?_append_left hlt, List.getElem?_drop] at hmark
      have hq := marked_at hmark
      omega
    · rw [List.getElem?_append_right hge] at hmark
      exact plain_wire back (List.mem_of_getElem? hmark)

theorem stream_take_append_drop (reads : List Read) (k : Nat) :
    stream (reads.take k) ++ stream (reads.drop k) = stream reads := by
  rw [stream, stream, stream, ← List.flatten_append, ← List.map_append, List.take_append_drop]

/-- Plain packets and a marked one, its frame to be cut at j. -/
def oneMarked (front : List PacketClass) (c : PacketClass) (j : Nat) (back : List PacketClass) :
    List Packet :=
  front.map plain ++ marked c (max j 5) :: back.map plain

section OneMarked
variable {front back : List PacketClass} {c : PacketClass} {j : Nat}

theorem oneMarked_class : (oneMarked front c j back).map Packet.classOf = front ++ c :: back := by
  simp [oneMarked, plain, marked, Function.comp_def]

theorem oneMarked_ownTags : ∀ p ∈ oneMarked front c j back, OwnTags p := by
  intro p hp
  rcases List.mem_append.mp hp with hp | hp
  · obtain ⟨d, -, rfl⟩ := List.mem_map.mp hp
    exact plain_ownTags d
  · rcases List.mem_cons.mp hp with rfl | hp
    · exact marked_ownTags c (Nat.le_max_right j 5)
    · obtain ⟨d, -, rfl⟩ := List.mem_map.mp hp
      exact plain_ownTags d

theorem oneMarked_wire : wire (oneMarked front c j back) =
    (wire (front.map plain) ++ (SizePacket.frame (marked c (max j 5))).take j) ++
      ((SizePacket.frame (marked c (max j 5))).drop j ++ wire (back.map plain)) := by
  rw [oneMarked, wire_append, List.append_assoc, ← List.append_assoc (List.take j _),
    List.take_append_drop]
  rfl

theorem cut_length (hlt : j < frameSize c) :
    (wire (front.map plain) ++ (SizePacket.frame (marked c (max j 5))).take j).length =
      (front.map frameSize).sum + j := by
  have hmap : (front.map plain).map Packet.classOf = front := by
    simp [plain, Function.comp_def]
  rw [List.length_append, wire_length, hmap, List.length_take, SizePacket.frame_length, marked,
    Packet.classOf_parsed, ← frameSize, Nat.min_eq_left (Nat.le_of_lt hlt)]

theorem reads_unmarked {reads : List Read} {k : Nat} (hj : 0 < j) (hlt : j < frameSize c)
    (hstream : stream reads = wire (oneMarked front c j back))
    (hcut : (stream (reads.take k)).length = (front.map frameSize).sum + j) :
    ∀ bytes ∈ reads, Unmarked bytes.1 := by
  rw [oneMarked_wire, ← stream_take_append_drop reads k] at hstream
  obtain ⟨htake, hdrop⟩ := List.append_inj hstream (hcut.trans (cut_length hlt).symm)
  obtain ⟨hclean, hrest⟩ := marked_cut front back c hj
  intro bytes hb
  rw [← List.take_append_drop k reads] at hb
  rcases List.mem_append.mp hb with hb | hb
  · exact Unmarked.of_stream (by rw [htake]; exact .of_not_mem hclean) bytes hb
  · exact Unmarked.of_stream (by rw [hdrop]; exact hrest) bytes hb

theorem not_delivers_oneMarked {w : World Packet PacketClass UInt16}
    (hw : w.Reachable PacketClass.all) (hlt : j < frameSize c) {reads : List Read}
    (hreads : ∀ bytes ∈ reads, Unmarked bytes.1) :
    ¬ Delivers ⟨fun _ => 0, []⟩ w.factory reads (oneMarked front c j back) := by
  rintro ⟨f', conn', hrun, hinward⟩
  obtain ⟨stock, l, hk, -⟩ := kept_of_all hw
  have hpushed := readAll_unmarked hk (fun _ _ => show (0 : UInt8) ≠ 255 by decide)
    (fun r hr => absurd hr List.not_mem_nil) reads hreads hrun
  have hmem : marked c (max j 5) ∈ conn'.inwardPackets.map f'.heap := by
    rw [hinward]
    exact List.mem_append_right _ (List.mem_append_right _ List.mem_cons_self)
  obtain ⟨r, hr, hmark⟩ := List.mem_map.mp hmem
  have hsize := c.base_le_size
  refine marked_marked c (Nat.le_max_right j 5) ?_ (hmark ▸ hpushed r hr)
  simp only [frameSize, SizePacket.headerSize, FixedLayout.size] at hlt hsize ⊢
  omega

end OneMarked

/-- Lengths that always deliver end every read where a frame ends. -/
theorem cut_of_alwaysDelivers {w : World Packet PacketClass UInt16}
    (hw : w.Reachable PacketClass.all) {classes : List PacketClass} {lengths : List Nat}
    (hlengths : ∀ n ∈ lengths, 0 < n ∧ n ≤ maxLength)
    (hsum : lengths.sum = (classes.map frameSize).sum)
    (hall : AlwaysDelivers w.factory classes lengths) : CutBetweenFrames classes lengths := by
  intro k
  by_contra hno
  have hsplit : (lengths.take k).sum + (lengths.drop k).sum = lengths.sum := by
    rw [← List.sum_append, List.take_append_drop]
  obtain ⟨front, c, back, j, rfl, ht, hj, hlt⟩ :=
    inside_of_not_between classes (lengths.take k).sum (by omega) (not_exists.mp hno)
  -- the packet cut carries the mark, the others are plain
  obtain ⟨reads, rfl, hstream⟩ := exists_reads lengths (wire (oneMarked front c j back)) hlengths (by
    rw [hsum, wire_length, oneMarked_class])
  have hcut : (stream (reads.take k)).length = (front.map frameSize).sum + j := by
    rw [stream_length, readLengths, List.map_take]
    exact ht
  exact not_delivers_oneMarked hw hlt (reads_unmarked hj hlt hstream hcut)
    (hall (oneMarked front c j back) reads (fun _ => 0) oneMarked_class oneMarked_ownTags rfl
      hstream)

/-- A segmentation delivers every stream of packets of these classes exactly if every read
ends where a frame ends. -/
theorem segmentation_iff (w : World Packet PacketClass UInt16) (hw : w.Reachable PacketClass.all)
    (classes : List PacketClass) (lengths : List Nat)
    (hfree : ∀ c, classes.count c + (w.outstanding (tags c)).length ≤ 100)
    (hlengths : ∀ n ∈ lengths, 0 < n ∧ n ≤ 512)
    (hsum : lengths.sum = (classes.map frameSize).sum) :
    AlwaysDelivers w.factory classes lengths ↔ CutBetweenFrames classes lengths :=
  ⟨cut_of_alwaysDelivers hw hlengths hsum, alwaysDelivers_of_cut hw hfree⟩

theorem sample_segmentation :
    AlwaysDelivers initialWorld.factory [.basePacket, .movementPacket] [10, 32] := by
  refine (segmentation_iff initialWorld ⟨_, _, _, .refl⟩ [.basePacket, .movementPacket] [10, 32]
    (fun c => ?_) (by decide) (by decide)).mpr ?_
  · rw [initial_outstanding]
    cases c <;> decide
  · intro k
    rcases k with _ | _ | k
    · exact ⟨0, rfl⟩
    · exact ⟨1, rfl⟩
    · exact ⟨2, by rw [List.take_of_length_le (by simp)]; decide⟩

/-- The frame of one base packet, its first byte in a read of its own. -/
abbrev cutReads : List Read :=
  [⟨[3], by decide⟩, ⟨[0, 7, 0, 0, 51, 0, 0, 0, 0], by decide⟩]

/-- A frame cut behind its first byte is lost. -/
theorem cut_frame_lost :
    stream cutReads = wire [.base (.new 0 0)] ∧
      ¬ Delivers ⟨fun _ => 0, []⟩ initialWorld.factory cutReads [.base (.new 0 0)] := by
  refine ⟨by decide, ?_⟩
  rintro ⟨f, conn, hrun, hpackets⟩
  rw [readAll_finished _ (TCPConnection.readSome_done _ _ _ (by decide)),
    readAll_finished _ (TCPConnection.readSome_done _ _ _ (by decide))] at hrun
  rw [TCPConnection.readAll, Prod.mk.injEq, Prod.mk.injEq] at hrun
  rw [← hrun.2.2] at hpackets
  exact absurd hpackets.symm (List.cons_ne_nil _ _)

end SocketCPlusPlus.Socket
