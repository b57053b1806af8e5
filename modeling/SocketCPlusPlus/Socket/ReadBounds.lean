import SocketCPlusPlus.Packets.Footprint
import SocketCPlusPlus.Socket.TCPConnection

/-! How far the receive loop reads. The header behind the last frame is probed before the length
is compared, and a body is read as its class says, so where frames end decides it. -/
namespace SocketCPlusPlus.Socket
open Foundation Packets IPacketSerializable

/-- One frame the length check accepts begins at the offset and ends at the next. -/
def NextFrame (data : Memory) (length : Int) (offset next : Nat) : Prop :=
  Fits data length offset ∧
    ∃ c, classAt data offset = some c ∧ next = offset + (SizePacket.headerSize + c.size)

/-- Accepted frames fill the memory between two offsets. -/
abbrev Reaches (data : Memory) (length : Int) : Nat → Nat → Prop :=
  Relation.ReflTransGen (NextFrame data length)

/-- Every tag pair among the first bytes is registered. -/
def TagsRegistered (data : Memory) (length : Int) (offset bound : Nat) : Prop :=
  ∀ o, Reaches data length offset o → Fits data length o → o + 4 < bound →
    classAt data o ≠ none

/-- Behind every accepted frame there is room for one more header. -/
def LeavesRoom (data : Memory) (length : Int) (offset bound : Nat) : Prop :=
  ∀ o, Reaches data length offset o → Fits data length o → ∃ c, classAt data o = some c ∧
    o + (SizePacket.headerSize + c.size) + SizePacket.headerSize ≤ bound

/-- The cells the loop touches, frame by frame. -/
def footprint (data : Memory) (length : Int) : Nat → Nat → List Nat
  | 0, _ => []
  | fuel+1, offset =>
    [offset + 1, offset + 2] ++
      if Fits data length offset then
        SizePacket.headTouched offset ++
          match classAt data offset with
          | some c => List.range' (offset + 3) c.size ++
              footprint data length fuel (offset + (SizePacket.headerSize + c.size))
          | none => []
      else []

section Frames
variable {data : Memory} {length : Int} {fuel offset bound : Nat}

theorem reaches_done (h : ¬ Fits data length offset) {o : Nat}
    (ho : Reaches data length offset o) : o = offset := by
  rcases ho.cases_head with rfl | ⟨next, hnext, -⟩
  · rfl
  · exact absurd hnext.1 h

theorem reaches_frame {c : PacketClass} (h : Fits data length offset)
    (hc : classAt data offset = some c) {o : Nat} : Reaches data length offset o ↔
      o = offset ∨ Reaches data length (offset + (SizePacket.headerSize + c.size)) o := by
  constructor
  · intro ho
    rcases ho.cases_head with rfl | ⟨next, ⟨-, d, hd, rfl⟩, hrest⟩
    · exact Or.inl rfl
    · rw [hc] at hd
      cases hd
      exact Or.inr hrest
  · rintro (rfl | hrest)
    · exact .refl
    · exact .head ⟨h, c, hc, rfl⟩ hrest

theorem leavesRoom_done (h : ¬ Fits data length offset) :
    LeavesRoom data length offset bound := by
  intro o ho hfit
  rw [reaches_done h ho] at hfit
  exact absurd hfit h

theorem leavesRoom_frame {c : PacketClass} (h : Fits data length offset)
    (hc : classAt data offset = some c) : LeavesRoom data length offset bound ↔
      offset + (SizePacket.headerSize + c.size) + SizePacket.headerSize ≤ bound ∧
        LeavesRoom data length (offset + (SizePacket.headerSize + c.size)) bound := by
  constructor
  · intro hroom
    obtain ⟨d, hd, hle⟩ := hroom offset .refl h
    rw [hc] at hd
    cases hd
    exact ⟨hle, fun o ho => hroom o ((reaches_frame h hc).mpr (Or.inr ho))⟩
  · rintro ⟨hle, hroom⟩ o ho hfit
    rcases (reaches_frame h hc).mp ho with rfl | hrest
    · exact ⟨c, hc, hle⟩
    · exact hroom o hrest hfit

private theorem range_within {a n : Nat} (hn : 0 < n) :
    (∀ i ∈ List.range' a n, i < bound) ↔ a + n ≤ bound := by
  simp only [List.mem_range'_1]
  constructor
  · intro h
    have hlast := h (a + n - 1) (by omega)
    omega
  · intro h i hi
    omega

/-- The loop stays below a bound exactly if the first header and every later one do. -/
theorem footprint_within_iff (data : Memory) (length : Int) (fuel offset bound : Nat)
    (h : length < offset + fuel) (hpos : 0 < fuel)
    (htags : TagsRegistered data length offset bound) :
    (∀ i ∈ footprint data length fuel offset, i < bound) ↔
      offset + SizePacket.headerSize ≤ bound ∧ LeavesRoom data length offset bound := by
  induction fuel generalizing offset with
  | zero => omega
  | succ fuel ih =>
    have hprobe : (∀ i ∈ [offset + 1, offset + 2], i < bound) ↔
        offset + SizePacket.headerSize ≤ bound :=
      range_within (a := offset + 1) (n := 2) (by decide)
    rw [footprint, List.forall_mem_append, hprobe]
    refine and_congr_right fun _ => ?_
    by_cases hfit : Fits data length offset
    · rw [if_pos hfit, List.forall_mem_append, SizePacket.headTouched, range_within (by decide)]
      cases hc : classAt data offset with
      | none =>
        constructor
        · rintro ⟨hle, -⟩
          exact absurd hc (htags offset .refl hfit (by omega))
        · intro hroom
          obtain ⟨c, hsome, -⟩ := hroom offset .refl hfit
          rw [hc] at hsome
          cases hsome
      | some c =>
        have hsize : 7 ≤ c.size := c.base_le_size
        have hahead := header_of_fits hfit
        have hrest := ih (offset + (SizePacket.headerSize + c.size))
          (by simp only [SizePacket.headerSize]; omega) (by omega)
          (fun o ho => htags o ((reaches_frame hfit hc).mpr (Or.inr ho)))
        rw [leavesRoom_frame hfit hc, List.forall_mem_append, range_within (by omega), hrest]
        simp only [SizePacket.headerSize]
        constructor
        · rintro ⟨-, -, hrest⟩
          exact hrest
        · rintro ⟨hnext, hlater⟩
          exact ⟨by omega, by omega, hnext, hlater⟩
    · rw [if_neg hfit]
      exact iff_of_true (List.forall_mem_nil _) (leavesRoom_done hfit)

end Frames

section Loop
variable {stock : Stock TypePair Ref} {f : PacketMethodFactory Packet PacketClass UInt16}
  {data : Memory} {length : Int} {fuel offset : Nat} {inward : List Ref}

private theorem touched_done (h : ¬ Fits data length offset) :
    (receiveLoop length (fuel + 1) f inward).touched data offset = [offset + 1, offset + 2] := by
  simp only [receiveLoop, Input.touched_bind, SizePacket.touched_isRemaining,
    SizePacket.eval_isRemaining, decide_eq_false h, Bool.false_eq_true, if_false,
    Input.touched_pure, List.append_nil]

private theorem touched_crash (h : Fits data length offset)
    (hnone : (f.create (data (offset + 3)) (data (offset + 4))).1 = none) :
    (receiveLoop length (fuel + 1) f inward).touched data offset =
      [offset + 1, offset + 2] ++ SizePacket.headTouched offset := by
  simp only [receiveLoop, Input.touched_bind, SizePacket.touched_isRemaining,
    SizePacket.eval_isRemaining, decide_eq_true h, if_true,
    SizePacket.touched_serializeIn_null hnone, SizePacket.eval_serializeIn_null hnone,
    Input.touched_pure, List.append_nil]

private theorem touched_packet {g : PacketMethodFactory Packet PacketClass UInt16} {r : Ref}
    {last : Nat} (h : Fits data length offset)
    (hin : (SizePacket.serializeIn f).eval data offset = (some (true, ⟨some r⟩, g), last)) :
    (receiveLoop length (fuel + 1) f inward).touched data offset =
      [offset + 1, offset + 2] ++ ((SizePacket.serializeIn f).touched data offset ++
        (receiveLoop length fuel g (inward ++ [r])).touched data last) := by
  simp only [receiveLoop, Input.touched_bind, SizePacket.touched_isRemaining,
    SizePacket.eval_isRemaining, decide_eq_true h, if_true, hin]

theorem touched_receiveLoop (data : Memory) (length : Int) (fuel offset : Nat) (l : Ledger stock)
    (hk : f.Keeps PacketClass.all l) (inward : List Ref)
    (hfree : ∀ c, (decode data length fuel offset).1.countP (·.classOf = c) ≤
      (l.free (tags c)).length) :
    (receiveLoop length fuel f inward).touched data offset =
      footprint data length fuel offset := by
  induction fuel generalizing offset f l inward with
  | zero => rfl
  | succ fuel ih =>
    rw [footprint]
    by_cases hfit : Fits data length offset
    · rw [if_pos hfit]
      cases hc : classAt data offset with
      | none =>
        rw [touched_crash hfit (congrArg Prod.fst (create_unregistered hk hc)), List.append_nil]
      | some c =>
        obtain ⟨r, rest, hrest, hlater⟩ := free_for_frame hfit hc hfree
        obtain ⟨g, hin, hg, -, -⟩ := serializeIn_take hk hc hrest
        obtain ⟨hcreate, hclass⟩ := create_registered hk hrest
        have hnext := ih (offset + (SizePacket.headerSize + c.size)) (l.take hrest) hg
          (inward ++ [r]) hlater
        rw [touched_packet hfit hin, hnext, SizePacket.touched_serializeIn_packet
          ((PacketClass.ofTags_iff _ c).mp hc) hcreate hclass, List.append_assoc]
    · rw [if_neg hfit, touched_done hfit, List.append_nil]

/-- From a reachable state with free packets the loop touches what the frames say. -/
theorem touched_receiveAll {w : World Packet PacketClass UInt16}
    (hw : w.Reachable PacketClass.all) (data : Memory) (length : Nat) (inward : List Ref)
    (hfree : FreeForFrames w data length) :
    (receiveAll w.factory inward length).touched data 0 =
      footprint data length (length + 1) 0 := by
  obtain ⟨stock, l, hk, hheld⟩ := kept_of_all hw
  simp only [receiveAll, Input.touched_bind, Input.touched_set, Input.eval_set, List.nil_append]
  exact touched_receiveLoop data length (length + 1) 0 l hk inward (enough_free hk hheld hfree)

end Loop

/-- Among registered tags and free packets, the loop stays inside the receive buffer exactly if
every frame it accepts leaves room for one more header. -/
theorem reads_within_buffer_iff (w : World Packet PacketClass UInt16)
    (hw : w.Reachable PacketClass.all) (data : Memory) (length : Nat) (inward : List Ref)
    (htags : TagsRegistered data length 0 maxLength) (hfree : FreeForFrames w data length) :
    (∀ i ∈ (receiveAll w.factory inward length).touched data 0, i < maxLength) ↔
      LeavesRoom data length 0 maxLength := by
  rw [touched_receiveAll hw data length inward hfree,
    footprint_within_iff data length (length + 1) 0 maxLength (by omega) (Nat.succ_pos _) htags]
  exact and_iff_right (by decide)

/-- A base-class frame with nothing behind it. -/
private theorem sample_reaches {o : Nat} (h : Reaches SizePacket.sampleFrame 10 0 o) :
    o = 0 ∨ o = 10 := by
  rcases (reaches_frame (c := .basePacket) (by decide) rfl).mp h with rfl | hrest
  · exact Or.inl rfl
  · exact Or.inr (reaches_done (by decide) hrest)

private theorem sample_leavesRoom : LeavesRoom SizePacket.sampleFrame 10 0 512 := by
  intro o ho hfit
  rcases sample_reaches ho with rfl | rfl
  · exact ⟨.basePacket, rfl, by decide⟩
  · exact absurd hfit (by decide)

theorem sample_reads_within_buffer : LeavesRoom SizePacket.sampleFrame 10 0 512 ∧
    ∀ i ∈ (receiveAll initialWorld.factory [] 10).touched SizePacket.sampleFrame 0, i < 512 := by
  have htags : TagsRegistered SizePacket.sampleFrame 10 0 512 := by
    intro o ho hfit
    obtain ⟨c, hc, -⟩ := sample_leavesRoom o ho hfit
    rw [hc]
    exact fun _ => Option.some_ne_none c
  exact ⟨sample_leavesRoom, (reads_within_buffer_iff initialWorld ⟨_, _, _, .refl⟩
    SizePacket.sampleFrame 10 [] htags ((initial_freeFor (by decide)).forFrames _)).mpr
      sample_leavesRoom⟩

/-- Movement frames, one behind the other. -/
abbrev movementTraffic : Memory := fun i => (SizePacket.frame (.movement .new)).getD (i % 32) 0

section Traffic
variable (k : Nat)

private theorem traffic_get {j : Nat} (hj : j < 32) :
    movementTraffic (32 * k + j) = (SizePacket.frame (.movement .new)).getD j 0 := by
  rw [movementTraffic, Nat.mul_add_mod, Nat.mod_eq_of_lt hj]

private theorem traffic_class : classAt movementTraffic (32 * k) = some .movementPacket := by
  rw [classAt, traffic_get k (by omega), traffic_get k (by omega)]
  rfl

private theorem traffic_fits : Fits movementTraffic 512 (32 * k) ↔ k ≤ 15 := by
  have hsize : Serialize.wordAt movementTraffic (32 * k + 1) 2 = 29 := by
    simp only [Serialize.wordAt, Store.load, Nat.add_assoc]
    rw [traffic_get k (by omega), traffic_get k (by omega)]
    decide
  rw [Fits, hsize, SizePacket.headerSize]
  omega

private theorem traffic_reaches {o : Nat} (h : Reaches movementTraffic 512 0 o) :
    ∃ k, o = 32 * k := by
  induction h with
  | refl => exact ⟨0, rfl⟩
  | tail _ hnext ih =>
    obtain ⟨k, rfl⟩ := ih
    obtain ⟨-, c, hc, rfl⟩ := hnext
    rw [traffic_class] at hc
    cases hc
    exact ⟨k + 1, rfl⟩

private theorem traffic_reached (hk : k ≤ 16) : Reaches movementTraffic 512 0 (32 * k) := by
  induction k with
  | zero => exact .refl
  | succ k ih =>
    exact (ih (by omega)).tail ⟨(traffic_fits k).mpr (by omega), _, traffic_class k, rfl⟩

end Traffic

/-- Sixteen of them fill the buffer, and the loop probes for a seventeenth behind it. -/
theorem exact_fit_reads_behind_buffer :
    TagsRegistered movementTraffic 512 0 512 ∧ FreeForFrames initialWorld movementTraffic 512 ∧
      ¬ ∀ i ∈ (receiveAll initialWorld.factory [] 512).touched movementTraffic 0, i < 512 := by
  have htags : TagsRegistered movementTraffic 512 0 512 := by
    intro o ho _ _
    obtain ⟨k, rfl⟩ := traffic_reaches ho
    rw [traffic_class]
    exact Option.some_ne_none _
  have hfree : FreeForFrames initialWorld movementTraffic 512 :=
    (initial_freeFor (Nat.le_refl 512)).forFrames _
  refine ⟨htags, hfree, ?_⟩
  have hreads := touched_receiveAll ⟨_, _, _, .refl⟩ movementTraffic 512 [] hfree
  have hiff := footprint_within_iff movementTraffic 512 513 0 512 (by omega) (by omega) htags
  rw [hreads]
  intro hwithin
  obtain ⟨-, hroom⟩ := hiff.mp hwithin
  -- the sixteenth frame ends where the buffer does
  obtain ⟨c, hc, hle⟩ := hroom (32 * 15) (traffic_reached 15 (by omega))
    ((traffic_fits 15).mpr (Nat.le_refl 15))
  rw [traffic_class] at hc
  cases hc
  exact absurd hle (by decide)

end SocketCPlusPlus.Socket
