import SocketCPlusPlus.Foundation.Climbing
import SocketCPlusPlus.Socket.TCPConnection

/-! The receive loop comes to an end. How far a round gets is up to the class of the packet that
takes the frame, whatever size the header declares, and no class has a shorter body than the base
class. -/
namespace SocketCPlusPlus.Socket
open Foundation Packets IPacketSerializable

/-- What the loop works on. -/
structure LoopState where
  inOffset : Nat
  factory : PacketMethodFactory Packet PacketClass UInt16
  inwardPackets : List Ref

/-- The length check accepts, and the packet that `SerializeIn` sets is pushed. -/
def Round (data : Memory) (length : Int) (s s' : LoopState) : Prop :=
  (SizePacket.isRemainingBufferBigenough length).eval data s.inOffset = (true, s.inOffset) ∧
    ∃ ok packet, (SizePacket.serializeIn s.factory).eval data s.inOffset =
        (some (ok, ⟨some packet⟩, s'.factory), s'.inOffset) ∧
      s'.inwardPackets = s.inwardPackets ++ [packet]

/-- Wherever the loop gets and the length check accepts, `Create` finds the tags registered and a
packet free. -/
def Supplied (data : Memory) (length : Int) (start : LoopState) : Prop :=
  ∀ n s, Rounds (Round data length) start n s → Fits data length s.inOffset →
    (s.factory.create (data (s.inOffset + 3)) (data (s.inOffset + 4))).1 ≠ none

/-- The loop ends by its length check, with at most so many packets pushed and one round for each
of them. Fuel for one more check than rounds is enough, and more of it changes nothing. -/
def EndsWithin (data : Memory) (length : Int) (start : LoopState) (most : Nat) : Prop :=
  ∃ (pushed : List Ref) (last : LoopState), pushed.length ≤ most ∧
    Rounds (Round data length) start pushed.length last ∧
    last.inwardPackets = start.inwardPackets ++ pushed ∧
    ∀ fuel > pushed.length,
      (receiveLoop length fuel start.factory start.inwardPackets).eval data start.inOffset =
        ((.finished, last.factory, last.inwardPackets), last.inOffset)

section Rounds
variable {data : Memory} {length : Int} {s s' last : LoopState} {n : Nat}

theorem check_accepts_iff {offset : Nat} :
    (SizePacket.isRemainingBufferBigenough length).eval data offset = (true, offset) ↔
      Fits data length offset := by
  rw [SizePacket.eval_isRemaining, Prod.mk.injEq, decide_eq_true_iff]
  exact and_iff_left rfl

theorem Round.fits (h : Round data length s s') : Fits data length s.inOffset :=
  check_accepts_iff.mp h.1

theorem serializeIn_next {f f' : PacketMethodFactory Packet PacketClass UInt16}
    {offset next : Nat} {ok : Bool} {sp : SizePacket}
    (h : (SizePacket.serializeIn f).eval data offset = (some (ok, sp, f'), next)) :
    ∃ c : PacketClass, next = offset + (SizePacket.headerSize + c.size) := by
  cases hcreate : (f.create (data (offset + 3)) (data (offset + 4))).1 with
  | none =>
    rw [SizePacket.eval_serializeIn_null hcreate, Prod.mk.injEq] at h
    exact absurd h.1.symm (Option.some_ne_none _)
  | some r =>
    let p := (f.create (data (offset + 3)) (data (offset + 4))).2.heap r
    have hbody : (SelfSerializable.serializeIn p).eval data (offset + 3) =
        ((true, Packet.parsed p.classOf data (offset + 3)), offset + 3 + p.classOf.size) :=
      p.eval_serializeIn data (offset + 3)
    have hin := SizePacket.eval_serializeIn_some hcreate
    refine ⟨p.classOf, ?_⟩
    rw [h] at hin
    rw [← Nat.add_assoc]
    exact (congrArg Prod.snd hin).trans (congrArg Prod.snd hbody)

/-- Every round gets past a header and a body with the base class's bytes. -/
theorem Round.rises (h : Round data length s s') : s.inOffset + 10 ≤ s'.inOffset := by
  obtain ⟨-, ok, packet, hin, -⟩ := h
  obtain ⟨c, hnext⟩ := serializeIn_next hin
  have hsize : 7 ≤ c.size := c.base_le_size
  rw [hnext, SizePacket.headerSize]
  omega

theorem climbs (data : Memory) (length : Nat) :
    Climbs (Round data length) LoopState.inOffset 10 (length - 2) where
  begins h := by
    have hahead := header_of_fits h.fits
    omega
  rises := Round.rises

/-- One unit of fuel takes the loop through one round. -/
theorem receiveLoop_round (h : Round data length s s') (fuel : Nat) :
    (receiveLoop length (fuel + 1) s.factory s.inwardPackets).eval data s.inOffset =
      (receiveLoop length fuel s'.factory s'.inwardPackets).eval data s'.inOffset := by
  have hfit := h.fits
  obtain ⟨-, ok, packet, hin, hpushed⟩ := h
  rw [loop_packet hfit hin, hpushed]

theorem receiveLoop_rounds (h : Rounds (Round data length) s n last) (fuel : Nat) :
    (receiveLoop length (fuel + n) s.factory s.inwardPackets).eval data s.inOffset =
      (receiveLoop length fuel last.factory last.inwardPackets).eval data last.inOffset := by
  induction h with
  | none s => rfl
  | more hround _ ih => rw [← Nat.add_assoc, receiveLoop_round hround, ih]

theorem pushed_of_rounds (h : Rounds (Round data length) s n last) :
    ∃ pushed : List Ref, pushed.length = n ∧
      last.inwardPackets = s.inwardPackets ++ pushed := by
  induction h with
  | none s => exact ⟨[], rfl, (List.append_nil _).symm⟩
  | more hround _ ih =>
    obtain ⟨-, ok, packet, -, hfirst⟩ := hround
    obtain ⟨pushed, hcount, hrest⟩ := ih
    refine ⟨packet :: pushed, congrArg Nat.succ hcount, ?_⟩
    rw [hrest, hfirst, List.append_assoc]
    rfl

theorem inOffset_le_of_rounds {length : Nat} (h : Rounds (Round data length) s n last)
    (hstart : s.inOffset ≤ length + 2 ^ 16) : last.inOffset ≤ length + 2 ^ 16 := by
  induction h with
  | none s => exact hstart
  | more hround _ ih =>
    refine ih ?_
    have hahead := header_of_fits hround.fits
    obtain ⟨-, ok, packet, hin, -⟩ := hround
    obtain ⟨c, hnext⟩ := serializeIn_next hin
    have hsize := c.size_lt
    rw [hnext, SizePacket.headerSize]
    omega

/-- No offset that the loop computes leaves the range of an `int`. -/
theorem offsets_fit_int {length : Nat} (hlength : length ≤ 2 ^ 30)
    (h : Rounds (Round data length) s n last) (hstart : s.inOffset = 0) :
    last.inOffset + SizePacket.headerSize + Serialize.wordAt data (last.inOffset + 1) 2 <
      2 ^ 31 := by
  have hlast := inOffset_le_of_rounds h (by omega)
  have hword : Serialize.wordAt data (last.inOffset + 1) 2 < 2 ^ 16 := Serialize.wordAt_lt ..
  rw [SizePacket.headerSize]
  omega

theorem EndsWithin.mono {most most' : Nat} (h : EndsWithin data length s most)
    (hle : most ≤ most') : EndsWithin data length s most' := by
  obtain ⟨pushed, last, hcount, hrest⟩ := h
  exact ⟨pushed, last, hcount.trans hle, hrest⟩

theorem exists_round (hfit : Fits data length s.inOffset)
    (hcreate : (s.factory.create (data (s.inOffset + 3)) (data (s.inOffset + 4))).1 ≠ none) :
    ∃ s', Round data length s s' := by
  obtain ⟨r, hr⟩ := Option.ne_none_iff_exists'.mp hcreate
  have hin := SizePacket.eval_serializeIn_some hr
  exact ⟨⟨_, _, s.inwardPackets ++ [r]⟩, check_accepts_iff.mpr hfit, true, r, hin, rfl⟩

theorem endsWithin_of_supplied {length : Nat} (hstart : s.inOffset = 0)
    (hsupplied : Supplied data length s) : EndsWithin data length s ((length + 7) / 10) := by
  have hclimbs := climbs data length
  obtain ⟨n, last, hrounds, hlast⟩ := hclimbs.ends (by decide) s
  obtain ⟨pushed, rfl, hpushed⟩ := pushed_of_rounds hrounds
  have hrefused : ¬ Fits data length last.inOffset := by
    intro hfit
    obtain ⟨s', hround⟩ := exists_round hfit (hsupplied _ last hrounds hfit)
    exact hlast s' hround
  refine ⟨pushed, last, ?_, hrounds, hpushed, fun fuel hfuel => ?_⟩
  · cases hcount : pushed.length with
    | zero => exact Nat.zero_le _
    | succ n =>
      rw [hcount] at hrounds
      have hlt := hclimbs.rounds_lt hrounds
      rw [hstart] at hlt
      omega
  · obtain ⟨more, rfl⟩ := Nat.exists_eq_add_of_lt hfuel
    have hspent := receiveLoop_rounds hrounds (more + 1)
    rw [show pushed.length + more + 1 = more + 1 + pushed.length by omega, hspent,
      receiveLoop_done hrefused]

/-- The fuel the completion handler gives its loop is enough. -/
theorem receiveAll_finished {factory : PacketMethodFactory Packet PacketClass UInt16}
    {inwardPackets : List Ref} {length : Nat}
    (hsupplied : Supplied data length ⟨0, factory, inwardPackets⟩) :
    ((receiveAll factory inwardPackets length).eval data 0).1.1 = .finished := by
  obtain ⟨pushed, last, hcount, -, -, heval⟩ := endsWithin_of_supplied rfl hsupplied
  have hend := heval (length + 1) (by omega)
  simp only [receiveAll, Input.eval_bind, Input.eval_set]
  rw [hend]

end Rounds

section Supply
variable {stock : Stock TypePair Ref} {data : Memory} {length : Int} {s s' : LoopState}

theorem supplied_of_refused (h : ¬ Fits data length s.inOffset) : Supplied data length s := by
  intro n last hrounds hfit
  cases hrounds with
  | none => exact absurd hfit h
  | more hround _ => exact absurd hround.fits h

theorem supplied_of_round
    (hcreate : (s.factory.create (data (s.inOffset + 3)) (data (s.inOffset + 4))).1 ≠ none)
    (hnext : ∀ s', Round data length s s' → Supplied data length s') : Supplied data length s := by
  intro n last hrounds
  cases hrounds with
  | none => exact fun _ => hcreate
  | more hround hrest => exact hnext _ hround _ last hrest

theorem Round.take {l : Ledger stock} {c : PacketClass} {r : Ref} {rest : List Ref}
    (h : Round data length s s') (hk : s.factory.Keeps PacketClass.all l)
    (hc : classAt data s.inOffset = some c) (hrest : l.free (tags c) = r :: rest) :
    s'.inOffset = s.inOffset + (SizePacket.headerSize + c.size) ∧
      s'.factory.Keeps PacketClass.all (l.take hrest) := by
  obtain ⟨g, hin, hg, -, -⟩ := serializeIn_take hk hc hrest
  obtain ⟨-, ok, packet, hin', -⟩ := h
  rw [hin, Prod.mk.injEq, Option.some.injEq, Prod.mk.injEq, Prod.mk.injEq] at hin'
  obtain ⟨⟨-, -, rfl⟩, hnext⟩ := hin'
  exact ⟨hnext.symm, hg⟩

theorem supplied_of_free {fuel : Nat} {l : Ledger stock} (hk : s.factory.Keeps PacketClass.all l)
    (hfuel : length < s.inOffset + fuel)
    (hregistered : (decode data length fuel s.inOffset).2.1 ≠ .crashed)
    (hfree : ∀ c, (decode data length fuel s.inOffset).1.countP (·.classOf = c) ≤
      (l.free (tags c)).length) : Supplied data length s := by
  induction fuel generalizing s l with
  | zero =>
    refine supplied_of_refused fun hfit => ?_
    have hahead := header_of_fits hfit
    omega
  | succ fuel ih =>
    by_cases hfit : Fits data length s.inOffset
    · cases hc : classAt data s.inOffset with
      | none =>
        rw [decode_unregistered hfit hc] at hregistered
        exact absurd rfl hregistered
      | some c =>
        obtain ⟨r, rest, hrest, hlater⟩ := free_for_frame hfit hc hfree
        rw [decode_frame hfit hc] at hregistered
        refine supplied_of_round ?_ fun s' hround => ?_
        · obtain ⟨htype, hsub⟩ := Prod.mk.inj ((PacketClass.ofTags_iff _ c).mp hc)
          have hcreate := (create_registered hk hrest).1
          rw [htype, hsub] at hcreate
          rw [hcreate]
          exact Option.some_ne_none r
        · obtain ⟨hnext, hk'⟩ := hround.take hk hc hrest
          rw [← hnext] at hregistered hlater
          refine ih hk' ?_ hregistered hlater
          rw [hnext, SizePacket.headerSize]
          omega
    · exact supplied_of_refused hfit

theorem supplied_of_reachable {w : World Packet PacketClass UInt16}
    (hw : w.Reachable PacketClass.all) {length : Nat}
    (hregistered : (decode data length (length + 1) 0).2.1 ≠ .crashed)
    (hfree : FreeForFrames w data length) (inwardPackets : List Ref) :
    Supplied data length ⟨0, w.factory, inwardPackets⟩ := by
  obtain ⟨stock, l, hk, hheld⟩ := kept_of_all hw
  refine supplied_of_free hk ?_ hregistered (enough_free hk hheld hfree)
  dsimp only
  omega

end Supply

/-- Whatever is in the buffer and however much is received: every round leaves the offset further
on than it found it, and while tags are registered and packets free, the loop ends after pushing
at most a packet for every ten bytes and one more. -/
theorem receive_loop_terminates (data : Memory) (length : Nat)
    (factory : PacketMethodFactory Packet PacketClass UInt16) (inwardPackets : List Ref)
    (hsupplied : Supplied data length ⟨0, factory, inwardPackets⟩) :
    (∀ s s', Round data length s s' → s.inOffset < s'.inOffset) ∧
      EndsWithin data length ⟨0, factory, inwardPackets⟩ (length / 10 + 1) := by
  refine ⟨fun s s' hround => ?_, (endsWithin_of_supplied rfl hsupplied).mono (by omega)⟩
  have hrise := hround.rises
  omega

/-- Zeros are frames of the base class whose headers declare no size. -/
theorem zeros_receive_loop_terminates :
    (∀ s s', Round (fun _ => 0) (25 : Nat) s s' → s.inOffset < s'.inOffset) ∧
      EndsWithin (fun _ => 0) (25 : Nat) ⟨0, initialWorld.factory, []⟩ (25 / 10 + 1) :=
  receive_loop_terminates (fun _ => 0) 25 initialWorld.factory []
    (supplied_of_reachable ⟨_, _, _, .refl⟩ (by decide)
      ((initial_freeFor (by decide)).forFrames _) [])

end SocketCPlusPlus.Socket
