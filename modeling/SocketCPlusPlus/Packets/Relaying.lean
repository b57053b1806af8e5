import SocketCPlusPlus.Packets.MovementPrecision

/-! A movement packet filled with what another one says. Angles and magnitudes are encoded as
before; the sign of a coordinate too small to leave a quantum is not. -/
namespace SocketCPlusPlus.Packets
open Foundation Network SelfSerializable

namespace PositionCompressed

/-- A negative coordinate of less than a quantum. -/
def LosesSign (c : ℚ) : Prop := -(1 / 256) < c ∧ c < 0

theorem abs_quantized (c : ℚ) : |quantized c| * 256 = magnitude c := by
  have hsign : |(if c < 0 then -1 else 1 : ℚ)| = 1 := by
    split <;> simp
  rw [quantized, abs_div, abs_mul, hsign, one_mul, Nat.abs_cast, abs_of_pos (by norm_num)]
  exact div_mul_cancel₀ _ (by norm_num)

theorem magnitude_quantized (c : ℚ) : magnitude (quantized c) = magnitude c := by
  have hlt := magnitude_lt c
  conv_lhs => rw [magnitude]
  rw [abs_quantized, Int.floor_natCast]
  omega

theorem quantized_neg_iff (c : ℚ) : quantized c < 0 ↔ c < 0 ∧ magnitude c ≠ 0 := by
  rw [quantized]
  by_cases hneg : c < 0
  · rw [if_pos hneg, neg_one_mul, neg_div, neg_lt_zero, ← Nat.pos_iff_ne_zero]
    simp [hneg]
  · rw [if_neg hneg, one_mul]
    exact iff_of_false (not_lt.mpr (by positivity)) fun h => hneg h.1

theorem quantized_quantized (c : ℚ) : quantized (quantized c) = quantized c := by
  conv_lhs => rw [quantized, magnitude_quantized]
  by_cases hzero : magnitude c = 0
  · simp [quantized, hzero]
  · rw [quantized]
    refine congrArg (fun s : ℚ => s * magnitude c / 256) (if_congr ?_ rfl rfl)
    exact (quantized_neg_iff c).trans (and_iff_left hzero)

theorem magnitude_eq_zero_iff {c : ℚ} (h : |c| < 4096) : magnitude c = 0 ↔ |c| < 1 / 256 := by
  have hcast := magnitude_eq h
  rw [← Nat.cast_eq_zero (R := ℚ), hcast, Int.cast_eq_zero, Int.floor_eq_zero_iff, Set.mem_Ico,
    and_iff_right (by positivity), lt_div_iff₀ (by norm_num)]

theorem sign_kept_iff {c : ℚ} (h : |c| < 4096) : (quantized c < 0 ↔ c < 0) ↔ ¬ LosesSign c := by
  rw [quantized_neg_iff, and_iff_left_iff_imp, Ne, magnitude_eq_zero_iff h, LosesSign, not_and']
  refine forall_congr' fun hneg => ?_
  rw [abs_of_neg hneg, neg_lt]

/-- The code of a coordinate: its quanta and its sign. -/
def SameCode (c c' : ℚ) : Prop := magnitude c = magnitude c' ∧ (c < 0 ↔ c' < 0)

theorem Carries.sameCode {position shift sign : UInt64} {c c' : ℚ}
    (h : Carries position shift sign c) (h' : Carries position shift sign c') : SameCode c c' :=
  ⟨h.magnitude.symm.trans h'.magnitude, h.sign.symm.trans h'.sign⟩

theorem set_eq_iff (v w : Vector3) : set v = set w ↔ v.All₂ SameCode w := by
  constructor
  · intro h
    have hword : pack v.x v.y v.z = pack w.x w.y w.z := congrArg position h
    obtain ⟨hx, hy, hz⟩ := pack_carries v.x v.y v.z
    obtain ⟨hx', hy', hz'⟩ := pack_carries w.x w.y w.z
    rw [← hword] at hx' hy' hz'
    exact ⟨hx.sameCode hx', hy.sameCode hy', hz.sameCode hz'⟩
  · rintro ⟨⟨hx, hsx⟩, ⟨hy, hsy⟩, hz, hsz⟩
    apply congrArg PositionCompressed.mk
    apply UInt64.toNat_inj.mp
    rw [pack_toNat, pack_toNat, hx, hy, hz, signBits, signBits, if_congr hsx rfl rfl,
      if_congr hsy rfl rfl, if_congr hsz rfl rfl]

theorem set_get_set_iff {v : Vector3} (h : v.All (|·| < 4096)) :
    set (set v).get = set v ↔ v.All (¬ LosesSign ·) := by
  rw [set_eq_iff, get_set]
  refine and_congr ?_ (and_congr ?_ ?_)
  · exact (and_iff_right (magnitude_quantized v.x)).trans (sign_kept_iff h.1)
  · exact (and_iff_right (magnitude_quantized v.y)).trans (sign_kept_iff h.2.1)
  · exact (and_iff_right (magnitude_quantized v.z)).trans (sign_kept_iff h.2.2)

theorem get_set_get (v : Vector3) : (set (set v).get).get = (set v).get := by
  rw [get_set (set v).get, get_set v, quantized_quantized, quantized_quantized,
    quantized_quantized]

end PositionCompressed

namespace RotationCompressed
open Network.Utils

theorem quantitized_again (a : ℚ) : convertDegToQuantitized
    (convertToDeg (convertDegToQuantitized a 1024) 1024) 1024 = convertDegToQuantitized a 1024 := by
  obtain ⟨hnonneg, hlt⟩ := convertDegToQuantitized_mem a (show 0 < (1024 : Int32).toInt by decide)
  exact convertDegToQuantitized_convertToDeg hnonneg hlt

theorem set_get_set (v : Vector3) : set (set v).get = set v := by
  have hx : Settings.rotation.quantizationX = 1024 := rfl
  have hy : Settings.rotation.quantizationY = 1024 := rfl
  have hz : Settings.rotation.quantizationZ = 1024 := rfl
  rw [get_set]
  simp only [set, hx, hy, hz, quantitized_again]

end RotationCompressed

namespace MovementPacket

/-- Fill another packet with what a packet says. -/
def relay (p q : MovementPacket) : MovementPacket := q.set p.get.1 p.get.2.1 p.get.2.2

/-- Packets with equal headers differ in their compressed members only. -/
theorem eq_iff_members {p q : MovementPacket} (h : p.toServerTickPacket = q.toServerTickPacket) :
    p = q ↔ p.positionCompressed = q.positionCompressed ∧
      p.rotationCompressed = q.rotationCompressed ∧
      p.movementDirCompressed = q.movementDirCompressed := by
  obtain ⟨⟨header, position, rotation⟩, movementDir⟩ := p
  obtain ⟨⟨header', position', rotation'⟩, movementDir'⟩ := q
  cases h
  simp only [MovementPacket.mk.injEq, PositionPacket.mk.injEq, true_and, and_assoc]

/-- A relayed packet says what the first one said, with the same rotation field. It has the same
bytes exactly if no coordinate has lost its sign. -/
theorem relayed_bytes_iff {p q : MovementPacket} {position direction movementDir : Vector3}
    (hheader : q.toServerTickPacket = p.toServerTickPacket) (hposition : position.All (|·| < 4096))
    (_hdirection : direction.All (|·| * 1024 / 360 < 2 ^ 31))
    (hmovementDir : movementDir.All (|·| < 4096)) :
    let sent := p.set position direction movementDir
    let relayed := sent.relay q
    relayed.get = sent.get ∧ relayed.rotationCompressed = sent.rotationCompressed ∧
      ((∀ b, (serializeOut relayed).exec b = (serializeOut sent).exec b) ↔
        position.All (¬ PositionCompressed.LosesSign ·) ∧
          movementDir.All (¬ PositionCompressed.LosesSign ·)) := by
  intro sent relayed
  -- within their bound the angles are converted to `int`s without wrapping around
  have hrotation : relayed.rotationCompressed = sent.rotationCompressed :=
    RotationCompressed.set_get_set direction
  refine ⟨?_, hrotation, ?_⟩
  · exact Prod.ext (PositionCompressed.get_set_get position)
      (Prod.ext (congrArg RotationCompressed.get hrotation)
        (PositionCompressed.get_set_get movementDir))
  · have hsame : (∀ b, (serializeOut relayed).exec b = (serializeOut sent).exec b) ↔
        relayed = sent := ⟨FixedLayout.exec_out_inj, fun he _ => by rw [he]⟩
    have hmembers : relayed = sent ↔ _ := eq_iff_members (q := sent) hheader
    rw [hsame, hmembers]
    exact and_congr (PositionCompressed.set_get_set_iff hposition)
      ((and_iff_right hrotation).trans (PositionCompressed.set_get_set_iff hmovementDir))

theorem sample_relayed_bytes :
    let position : Vector3 := ⟨1, -2, 1 / 3⟩
    let direction : Vector3 := ⟨18, -32, 1000⟩
    let movementDir : Vector3 := ⟨5 / 3, -2, 0⟩
    let sent := MovementPacket.new.set position direction movementDir
    let relayed := sent.relay .new
    relayed.get = sent.get ∧ relayed.rotationCompressed = sent.rotationCompressed ∧
      ((∀ b, (serializeOut relayed).exec b = (serializeOut sent).exec b) ↔
        position.All (¬ PositionCompressed.LosesSign ·) ∧
          movementDir.All (¬ PositionCompressed.LosesSign ·)) :=
  relayed_bytes_iff (p := .new) (q := .new) rfl
    ⟨by norm_num, by norm_num [abs_lt], by norm_num [abs_lt]⟩
    ⟨by norm_num, by norm_num [abs_lt], by norm_num [abs_lt]⟩
    ⟨by norm_num [abs_lt], by norm_num [abs_lt], by norm_num⟩

/-- Half a quantum below zero is sent as zero with a sign and relayed as zero. -/
theorem small_sign_not_relayed :
    let sent := MovementPacket.new.set ⟨-1 / 512, 0, 0⟩ ⟨0, 0, 0⟩ ⟨0, 0, 0⟩
    let relayed := sent.relay .new
    sent.positionCompressed = ⟨4⟩ ∧ relayed.positionCompressed = ⟨0⟩ ∧
      ¬ ∀ b, (serializeOut relayed).exec b = (serializeOut sent).exec b := by
  intro sent relayed
  have hsent : sent.positionCompressed = ⟨4⟩ := by decide +kernel
  have hrelayed : relayed.positionCompressed = ⟨0⟩ := by decide +kernel
  refine ⟨hsent, hrelayed, fun hbytes => ?_⟩
  rw [FixedLayout.exec_out_inj hbytes, hsent] at hrelayed
  cases hrelayed

end MovementPacket
end SocketCPlusPlus.Packets
