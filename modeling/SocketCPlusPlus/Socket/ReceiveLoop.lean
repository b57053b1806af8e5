import SocketCPlusPlus.Packets.SizePacket

/-! The receive loop of a connection. It refines a pure decoder of the bytes: with enough
free packets it pushes exactly the packets the decoder finds. -/
namespace SocketCPlusPlus.Socket
open Foundation Packets IPacketSerializable

/-- How a run of the loop ends. -/
inductive Stop where
  | finished | crashed | outOfFuel
  deriving DecidableEq, Repr

/-- One unit of fuel for each evaluation of the loop condition. -/
def receiveLoop {Obj Class Raw : Type} [IPacketSerializable Obj Class Raw] (length : Int) :
    Nat → PacketMethodFactory Obj Class Raw → List Ref →
      Input (Stop × PacketMethodFactory Obj Class Raw × List Ref)
  | 0, f, inwardPackets => pure (.outOfFuel, f, inwardPackets)
  | fuel+1, f, inwardPackets => do
      if ← SizePacket.isRemainingBufferBigenough length then
        match ← SizePacket.serializeIn f with
        | some (_, ⟨some packet⟩, f) => receiveLoop length fuel f (inwardPackets ++ [packet])
        | _ => pure (.crashed, f, inwardPackets)
      else pure (.finished, f, inwardPackets)

abbrev Fits (data : Memory) (length : Int) (offset : Nat) : Prop :=
  (offset + SizePacket.headerSize + Serialize.wordAt data (offset + 1) 2 : Nat) ≤ length

abbrev classAt (data : Memory) (offset : Nat) : Option PacketClass :=
  PacketClass.ofTags (data (offset + 3), data (offset + 4))

/-- The frames a stretch of memory holds: the packets, how it ends and where. -/
def decode (data : Memory) (length : Int) : Nat → Nat → List Packet × Stop × Nat
  | 0, offset => ([], .outOfFuel, offset)
  | fuel+1, offset =>
    if (offset + SizePacket.headerSize + Serialize.wordAt data (offset + 1) 2 : Nat) ≤ length then
      match PacketClass.ofTags (data (offset + 3), data (offset + 4)) with
      | some c =>
        let (packets, stop, last) :=
          decode data length fuel (offset + (SizePacket.headerSize + c.size))
        (Packet.parsed c data (offset + 3) :: packets, stop, last)
      | none => ([], .crashed, offset + SizePacket.headerSize)
    else ([], .finished, offset)

section Decoder
variable {data : Memory} {length : Int} {fuel offset : Nat}

theorem header_of_fits (h : Fits data length offset) : (offset : Int) + 3 ≤ length := by
  simp only [Fits, SizePacket.headerSize] at h
  omega

theorem decode_done (h : ¬ Fits data length offset) :
    decode data length (fuel + 1) offset = ([], .finished, offset) := by
  rw [decode, if_neg h]

theorem decode_unregistered (h : Fits data length offset) (hnone : classAt data offset = none) :
    decode data length (fuel + 1) offset = ([], .crashed, offset + SizePacket.headerSize) := by
  rw [classAt] at hnone
  rw [decode, if_pos h, hnone]

theorem decode_frame {c : PacketClass} (h : Fits data length offset)
    (hc : classAt data offset = some c) :
    decode data length (fuel + 1) offset =
      let rest := decode data length fuel (offset + (SizePacket.headerSize + c.size))
      (Packet.parsed c data (offset + 3) :: rest.1, rest.2) := by
  rw [classAt] at hc
  rw [decode, if_pos h, hc]

theorem decode_packets_le (data : Memory) (length : Int) (fuel offset : Nat) :
    (decode data length fuel offset).1 = [] ∨
      offset + 10 * (decode data length fuel offset).1.length ≤ length + 7 := by
  induction fuel generalizing offset with
  | zero => exact Or.inl rfl
  | succ fuel ih =>
    by_cases h : Fits data length offset
    · cases hc : classAt data offset with
      | none =>
        rw [decode_unregistered h hc]
        exact Or.inl rfl
      | some c =>
        have hsize := c.base_le_size
        have hahead := header_of_fits h
        have hrest := ih (offset + (SizePacket.headerSize + c.size))
        rw [decode_frame h hc]
        apply Or.inr
        simp only [SizePacket.headerSize, FixedLayout.size, List.length_cons] at *
        rcases hrest with hnil | hle
        · rw [hnil, List.length_nil]
          omega
        · omega
    · rw [decode_done h]
      exact Or.inl rfl

end Decoder

section Refinement
variable {stock : Stock TypePair Ref} {f : PacketMethodFactory Packet PacketClass UInt16}
  {data : Memory} {length : Int} {fuel offset : Nat} {inward : List Ref}

theorem receiveLoop_done (h : ¬ Fits data length offset) :
    (receiveLoop length (fuel + 1) f inward).eval data offset = ((.finished, f, inward), offset) := by
  simp only [receiveLoop, Input.eval_bind, SizePacket.eval_isRemaining, decide_eq_false h,
    Bool.false_eq_true, if_false, Input.eval_pure]

private theorem loop_crash (h : Fits data length offset)
    (hnone : (f.create (data (offset + 3)) (data (offset + 4))).1 = none) :
    (receiveLoop length (fuel + 1) f inward).eval data offset =
      ((.crashed, f, inward), offset + SizePacket.headerSize) := by
  simp only [receiveLoop, Input.eval_bind, SizePacket.eval_isRemaining, decide_eq_true h, if_true,
    SizePacket.eval_serializeIn_null hnone, Input.eval_pure]

/-- What `SerializeIn` returns is not looked at. -/
theorem loop_packet {g : PacketMethodFactory Packet PacketClass UInt16} {r : Ref} {ok : Bool}
    {last : Nat} (h : Fits data length offset)
    (hin : (SizePacket.serializeIn f).eval data offset = (some (ok, ⟨some r⟩, g), last)) :
    (receiveLoop length (fuel + 1) f inward).eval data offset =
      (receiveLoop length fuel g (inward ++ [r])).eval data last := by
  simp only [receiveLoop, Input.eval_bind, SizePacket.eval_isRemaining, decide_eq_true h, if_true,
    hin]

theorem free_take {l : Ledger stock} {c : PacketClass} {r : Ref} {rest : List Ref}
    (h : l.free (tags c) = r :: rest) (d : PacketClass) :
    ((l.take h).free (tags d)).length + (if c = d then 1 else 0) = (l.free (tags d)).length := by
  by_cases hd : c = d
  · cases hd
    rw [l.take_free_self h, h, if_pos rfl, List.length_cons]
  · rw [l.take_free_ne h (fun he => hd (PacketClass.tags_inj he).symm), if_neg hd, Nat.add_zero]

/-- Tags of no class get a null packet. -/
theorem create_unregistered {l : Ledger stock} (hk : f.Keeps PacketClass.all l)
    {t s : UInt8} (hc : PacketClass.ofTags (t, s) = none) : f.create t s = (none, f) := by
  apply hk.create_none
  intro c _ ht
  rw [(PacketClass.ofTags_iff _ c).mpr ht] at hc
  cases hc

theorem create_registered {l : Ledger stock} {c : PacketClass} {r : Ref} {rest : List Ref}
    (hk : f.Keeps PacketClass.all l) (hrest : l.free (tags c) = r :: rest) :
    (f.create (type c) (subType c)).1 = some r ∧
      ((f.create (type c) (subType c)).2.heap r).classOf = c := by
  obtain ⟨hcreate, hheap, -⟩ := hk.create_free (PacketClass.mem_all c) hrest
  have hmem : r ∈ l.free (tags c) := by rw [hrest]; exact List.mem_cons_self
  refine ⟨hcreate, ?_⟩
  rw [hheap]
  exact (hk.made c (PacketClass.mem_all c) r (l.free_mem hmem)).1

/-- A frame of a registered class with a free packet: the packet takes the body. -/
theorem serializeIn_take {l : Ledger stock} {c : PacketClass} {r : Ref} {rest : List Ref}
    (hk : f.Keeps PacketClass.all l) (hc : classAt data offset = some c)
    (hrest : l.free (tags c) = r :: rest) :
    ∃ g : PacketMethodFactory Packet PacketClass UInt16,
      (SizePacket.serializeIn f).eval data offset =
        (some (true, ⟨some r⟩, g), offset + (SizePacket.headerSize + c.size)) ∧
      g.Keeps PacketClass.all (l.take hrest) ∧
      g.heap r = Packet.parsed c data (offset + 3) ∧ ∀ s ∈ l.held, g.heap s = f.heap s := by
  obtain ⟨hcreate, hclass⟩ := create_registered hk hrest
  obtain ⟨-, hheap, hkeep⟩ := hk.create_free (PacketClass.mem_all c) hrest
  have hmem : r ∈ l.free (tags c) := by rw [hrest]; exact List.mem_cons_self
  have hin := SizePacket.eval_serializeIn_packet ((PacketClass.ofTags_iff _ c).mp hc) hcreate hclass
  refine ⟨_, hin, hkeep.assign ((Packet.classOf_parsed ..).trans hclass.symm),
    PacketMethodFactory.assign_self .., ?_⟩
  intro s hs
  have hne : s ≠ r := fun he => l.free_not_held hmem (he ▸ hs)
  rw [PacketMethodFactory.assign_ne _ _ hne, hheap]

theorem free_for_frame {l : Ledger stock} {c : PacketClass} (hfit : Fits data length offset)
    (hc : classAt data offset = some c)
    (hfree : ∀ d, (decode data length (fuel + 1) offset).1.countP (·.classOf = d) ≤
      (l.free (tags d)).length) :
    ∃ (r : Ref) (rest : List Ref) (hrest : l.free (tags c) = r :: rest), ∀ d,
      (decode data length fuel (offset + (SizePacket.headerSize + c.size))).1.countP
        (·.classOf = d) ≤ ((l.take hrest).free (tags d)).length := by
  rw [decode_frame hfit hc] at hfree
  simp only [List.countP_cons, Packet.classOf_parsed, decide_eq_true_eq] at hfree
  obtain ⟨r, rest, hrest⟩ : ∃ r rest, l.free (tags c) = r :: rest := by
    apply List.exists_cons_of_length_pos
    have hcount := hfree c
    rw [if_pos rfl] at hcount
    omega
  refine ⟨r, rest, hrest, fun d => ?_⟩
  have hcount := hfree d
  have hd := free_take hrest d
  omega

/-- With enough free packets the loop pushes, in order, packets holding what the decoder
finds, and leaves every packet held before alone. -/
theorem receiveLoop_decode (data : Memory) (length : Int) (fuel offset : Nat) (l : Ledger stock)
    (hk : f.Keeps PacketClass.all l) (inward : List Ref)
    (hfree : ∀ c, (decode data length fuel offset).1.countP (·.classOf = c) ≤
      (l.free (tags c)).length) :
    ∃ (f' : PacketMethodFactory Packet PacketClass UInt16) (refs : List Ref) (l' : Ledger stock),
      (receiveLoop length fuel f inward).eval data offset =
        (((decode data length fuel offset).2.1, f', inward ++ refs),
          (decode data length fuel offset).2.2) ∧
      f'.Keeps PacketClass.all l' ∧ l'.held = l.held ++ refs ∧
      refs.map f'.heap = (decode data length fuel offset).1 ∧
      (∀ r ∈ l.held, f'.heap r = f.heap r) ∧
      ∀ c, (l'.free (tags c)).length + (decode data length fuel offset).1.countP (·.classOf = c) =
        (l.free (tags c)).length := by
  induction fuel generalizing offset f l inward with
  | zero =>
    exact ⟨f, [], l, by simp [receiveLoop, decode], hk, (List.append_nil _).symm, rfl,
      fun _ _ => rfl, fun _ => rfl⟩
  | succ fuel ih =>
    by_cases hfit : Fits data length offset
    · cases hc : classAt data offset with
      | none =>
        rw [loop_crash hfit (congrArg Prod.fst (create_unregistered hk hc)),
          decode_unregistered hfit hc]
        exact ⟨f, [], l, by rw [List.append_nil], hk, (List.append_nil _).symm, rfl,
          fun _ _ => rfl, fun _ => rfl⟩
      | some c =>
        -- the first free packet of the class takes this frame
        obtain ⟨r, rest, hrest, hlater⟩ := free_for_frame hfit hc hfree
        obtain ⟨g, hin, hg, hpacket, hsame⟩ := serializeIn_take hk hc hrest
        rw [decode_frame hfit hc]
        simp only [List.countP_cons, Packet.classOf_parsed, decide_eq_true_eq]
        have htake := free_take hrest
        obtain ⟨f', refs, l', heval, hk', hheld, hmap, hold, hsum⟩ :=
          ih (offset + (SizePacket.headerSize + c.size)) (l.take hrest) hg (inward ++ [r]) hlater
        refine ⟨f', r :: refs, l', ?_, hk', ?_, ?_, ?_, ?_⟩
        · rw [loop_packet hfit hin, heval, List.append_assoc]
          rfl
        · rw [hheld, l.take_held, List.append_assoc]
          rfl
        · rw [List.map_cons, hmap, hold r (by simp), hpacket]
        · intro s hs
          rw [hold s (by simp [hs]), hsame s hs]
        · intro d
          have hd := htake d
          have hs := hsum d
          omega
    · rw [receiveLoop_done hfit, decode_done hfit]
      exact ⟨f, [], l, by rw [List.append_nil], hk, (List.append_nil _).symm, rfl,
        fun _ _ => rfl, fun _ => rfl⟩

theorem receiveLoop_exhausted (data : Memory) (length : Int) (fuel offset : Nat)
    (l : Ledger stock) (hk : f.Keeps PacketClass.all l) (inward : List Ref) {d : PacketClass}
    (hshort : (l.free (tags d)).length <
      (decode data length fuel offset).1.countP (·.classOf = d)) :
    ((receiveLoop length fuel f inward).eval data offset).1.1 = .crashed := by
  induction fuel generalizing offset f l inward with
  | zero => exact absurd hshort (Nat.not_lt_zero _)
  | succ fuel ih =>
    by_cases hfit : Fits data length offset
    · cases hc : classAt data offset with
      | none =>
        rw [decode_unregistered hfit hc] at hshort
        exact absurd hshort (Nat.not_lt_zero _)
      | some c =>
        rw [decode_frame hfit hc] at hshort
        simp only [List.countP_cons, Packet.classOf_parsed, decide_eq_true_eq] at hshort
        cases hrest : l.free (tags c) with
        | nil =>
          have hnone := hk.create_none (t := data (offset + 3)) (s := data (offset + 4))
            fun c' _ ht => by
              rw [← (PacketClass.ofTags_iff _ c).mp hc] at ht
              rw [ht, hrest]
          rw [loop_crash hfit (congrArg Prod.fst hnone)]
        | cons r rest =>
          obtain ⟨g, hin, hg, -, -⟩ := serializeIn_take hk hc hrest
          have hd := free_take hrest d
          rw [loop_packet hfit hin]
          exact ih _ (l.take hrest) hg (inward ++ [r]) (by omega)
    · rw [decode_done hfit] at hshort
      exact absurd hshort (Nat.not_lt_zero _)

theorem enough_free {w : World Packet PacketClass UInt16} {l : Ledger stock}
    (hk : w.factory.Keeps PacketClass.all l) (hheld : l.held = w.held) {count : PacketClass → Nat}
    (hfree : ∀ c, count c + (w.outstanding (tags c)).length ≤ 100) (c : PacketClass) :
    count c ≤ (l.free (tags c)).length := by
  have hsum := World.free_add_outstanding hk hheld (PacketClass.mem_all c)
  have hcount := hfree c
  omega

/-- From a reachable state with a free packet for each one decoded, the loop yields what the
decoder finds. -/
theorem receiveLoop_reachable {w : World Packet PacketClass UInt16}
    (hw : w.Reachable PacketClass.all) (data : Memory) (length : Int) (fuel offset : Nat)
    (hfree : ∀ c, (decode data length fuel offset).1.countP (·.classOf = c) +
      (w.outstanding (tags c)).length ≤ 100) :
    ∃ (f : PacketMethodFactory Packet PacketClass UInt16) (received : List Ref),
      (receiveLoop length fuel w.factory []).eval data offset =
        (((decode data length fuel offset).2.1, f, received),
          (decode data length fuel offset).2.2) ∧
      received.map f.heap = (decode data length fuel offset).1 := by
  obtain ⟨stock, l, hk, hheld⟩ := kept_of_all hw
  obtain ⟨f, received, -, heval, -, -, hmap, -, -⟩ :=
    receiveLoop_decode data length fuel offset l hk [] (enough_free hk hheld hfree)
  exact ⟨f, received, heval, hmap⟩

end Refinement
end SocketCPlusPlus.Socket
