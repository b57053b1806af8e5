import SocketCPlusPlus.Packets.CompressedVectors

/-! How much of the vectors given to a movement packet arrives at the other side. -/
namespace SocketCPlusPlus.Packets
open Foundation Network SelfSerializable

namespace Vector3

def All (P : ℚ → Prop) (v : Vector3) : Prop := P v.x ∧ P v.y ∧ P v.z

def All₂ (P : ℚ → ℚ → Prop) (v w : Vector3) : Prop := P v.x w.x ∧ P v.y w.y ∧ P v.z w.z

end Vector3

namespace PositionPacket

def set (p : PositionPacket) (position direction : Vector3) : PositionPacket :=
  { p with
    positionCompressed := .set position
    rotationCompressed := .set direction }

def get (p : PositionPacket) : Vector3 × Vector3 :=
  (p.positionCompressed.get, p.rotationCompressed.get)

end PositionPacket

namespace MovementPacket

def set (p : MovementPacket) (position direction movementDir : Vector3) : MovementPacket :=
  { p with
    toPositionPacket := p.toPositionPacket.set position direction
    movementDirCompressed := .set movementDir }

def get (p : MovementPacket) : Vector3 × Vector3 × Vector3 :=
  let (position, direction) := p.toPositionPacket.get
  (position, direction, p.movementDirCompressed.get)

end MovementPacket

/-- A coordinate arrives with an error below the precision and never with the other sign. -/
structure CoordinateKept (c c' : ℚ) : Prop where
  close : |c' - c| < 1 / 256
  nonneg : 0 ≤ c → 0 ≤ c'
  nonpos : c ≤ 0 → c' ≤ 0

/-- An angle arrives in the circle, less than a quantum off some turns. -/
structure AngleKept (a a' : ℚ) : Prop where
  nonneg : 0 ≤ a'
  lt : a' < 360
  close : ∃ turns : Int, |a' + 360 * turns - a| < 360 / 1024

namespace PositionCompressed

theorem magnitude_eq {c : ℚ} (h : |c| < 4096) : (magnitude c : ℚ) = ⌊|c| * 256⌋ := by
  have hnonneg : 0 ≤ ⌊|c| * 256⌋ := Int.floor_nonneg.mpr (by positivity)
  have hlt : ⌊|c| * 256⌋ < 2 ^ 20 := Int.floor_lt.mpr (by push_cast; linarith)
  have hcast : ((magnitude c : Nat) : Int) = ⌊|c| * 256⌋ := by
    rw [magnitude_cast, Int.emod_eq_of_lt hnonneg hlt]
  exact_mod_cast hcast

theorem quantized_kept {c : ℚ} (h : |c| < 4096) : CoordinateKept c (quantized c) := by
  have hle := Int.floor_le (|c| * 256)
  have hlt := Int.lt_floor_add_one (|c| * 256)
  have hnonneg : (0 : ℚ) ≤ ⌊|c| * 256⌋ := by
    exact_mod_cast Int.floor_nonneg.mpr (show 0 ≤ |c| * 256 by positivity)
  rw [← magnitude_eq h] at hle hlt hnonneg
  rcases lt_or_ge c 0 with hneg | hpos
  · rw [abs_of_neg hneg] at hle hlt
    have hvalue : quantized c = -(magnitude c / 256) := by
      rw [quantized, if_pos hneg, neg_one_mul, neg_div]
    refine ⟨?_, fun hc => absurd hneg (not_lt.mpr hc), fun _ => ?_⟩
    · rw [hvalue, abs_lt]
      constructor <;> linarith
    · rw [hvalue]
      linarith
  · rw [abs_of_nonneg hpos] at hle hlt
    have hvalue : quantized c = magnitude c / 256 := by
      rw [quantized, if_neg (not_lt.mpr hpos), one_mul]
    refine ⟨?_, fun _ => ?_, fun hc => ?_⟩
    · rw [hvalue, abs_lt]
      constructor <;> linarith
    · rw [hvalue]
      linarith
    · rw [hvalue]
      linarith

theorem get_set (v : Vector3) :
    (set v).get = ⟨quantized v.x, quantized v.y, quantized v.z⟩ := by
  rw [set, get, unpack_pack]

theorem get_set_kept {v : Vector3} (h : v.All (|·| < 4096)) :
    v.All₂ CoordinateKept (set v).get := by
  rw [get_set]
  exact ⟨quantized_kept h.1, quantized_kept h.2.1, quantized_kept h.2.2⟩

end PositionCompressed

namespace RotationCompressed
open Network.Utils

theorem rotation_widths : Widths Settings.rotation 10 10 10 := ⟨rfl, rfl, rfl, by decide⟩

theorem quantitization_eq : (1024 : Int32).toInt = 1024 := by decide

theorem quantitized_field (a : ℚ) :
    ∃ n < 2 ^ 10, convertDegToQuantitized a 1024 = Int32.ofNat n := by
  obtain ⟨hnonneg, hlt⟩ := convertDegToQuantitized_mem a (show 0 < (1024 : Int32).toInt by decide)
  rw [quantitization_eq] at hlt
  exact ⟨_, by omega, int_eq_ofNat hnonneg⟩

theorem quantitized_kept {a : ℚ} (h : |a| * 1024 / 360 < 2 ^ 31) :
    AngleKept a (convertToDeg (convertDegToQuantitized a 1024) 1024) := by
  have hquanta : |a / degreesInCircle * ((1024 : Int32).toInt : ℚ)| < 2 ^ 31 := by
    have heq : |a / degreesInCircle * ((1024 : Int32).toInt : ℚ)| = |a| * 1024 / 360 := by
      rw [quantitization_eq, degreesInCircle, abs_mul, abs_div, div_mul_eq_mul_div]
      norm_num
    rwa [heq]
  obtain ⟨hnonneg, hlt, hclose⟩ := convertToDeg_quantitized a (by decide) hquanta
  rw [quantitization_eq, Int.cast_ofNat] at hclose
  exact ⟨hnonneg, hlt, hclose⟩

theorem get_set (v : Vector3) : (set v).get =
    ⟨convertToDeg (convertDegToQuantitized v.x 1024) 1024,
      convertToDeg (convertDegToQuantitized v.y 1024) 1024,
      convertToDeg (convertDegToQuantitized v.z 1024) 1024⟩ := by
  obtain ⟨x, hx, hxq⟩ := quantitized_field v.x
  obtain ⟨y, hy, hyq⟩ := quantitized_field v.y
  obtain ⟨z, hz, hzq⟩ := quantitized_field v.z
  have hunpack := rotation_widths.unpack_pack hx hy hz
  rw [← hxq, ← hyq, ← hzq] at hunpack
  have hx' : Settings.rotation.quantizationX = 1024 := rfl
  have hy' : Settings.rotation.quantizationY = 1024 := rfl
  have hz' : Settings.rotation.quantizationZ = 1024 := rfl
  simp only [set, get, hx', hy', hz', hunpack]

theorem get_set_kept {v : Vector3} (h : v.All (|·| * 1024 / 360 < 2 ^ 31)) :
    v.All₂ AngleKept (set v).get := by
  rw [get_set]
  exact ⟨quantitized_kept h.1, quantitized_kept h.2.1, quantitized_kept h.2.2⟩

/-- Quanta of an angle are below the quantization. -/
def InRange (quanta : Int32) : Prop := 0 ≤ quanta.toInt ∧ quanta.toInt < 1024

/-- Every axis has quanta of an angle, and the angles lie in the circle. -/
structure Valid (r : RotationCompressed) : Prop where
  x : InRange (unpack Settings.rotation r.rotation).1
  y : InRange (unpack Settings.rotation r.rotation).2.1
  z : InRange (unpack Settings.rotation r.rotation).2.2
  angles : r.get.All fun a => 0 ≤ a ∧ a < 360

theorem inRange_field (shift n : Nat) : InRange (Int32.ofNat (bitField shift 10 n)) := by
  have hlt : bitField shift 10 n < 1024 := Nat.mod_lt _ (by decide)
  exact (int_ofNat_range (by omega) (by decide)).mpr hlt

/-- The third axis keeps whatever the other two leave of the word. -/
theorem inRange_rest {n : Nat} (h : n < 2 ^ 32) :
    InRange (Int32.ofNat (n - bitField 20 10 n * 2 ^ 20 - bitField 10 10 n * 2 ^ 10)) ↔
      n < 2 ^ 30 := by
  refine (int_ofNat_range (k := 1024) (by omega) (by decide)).trans ?_
  simp only [bitField]
  omega

theorem convertToDeg_mem {quanta : Int32} (h : InRange quanta) :
    0 ≤ convertToDeg quanta 1024 ∧ convertToDeg quanta 1024 < 360 := by
  have hlow : (0 : ℚ) ≤ quanta.toInt := by exact_mod_cast h.1
  have hhigh : (quanta.toInt : ℚ) < 1024 := by exact_mod_cast h.2
  rw [convertToDeg, quantitization_eq, degreesInCircle, Int.cast_ofNat]
  constructor
  · positivity
  · linarith

theorem valid_iff (r : RotationCompressed) : r.Valid ↔ r.rotation.toUInt32.toNat < 2 ^ 30 := by
  have hword : r.rotation = Int32.ofNat r.rotation.toUInt32.toNat := by
    rw [← UInt32.toInt32_ofNat', UInt32.ofNat_toNat, Int32.toInt32_toUInt32]
  have hunpack := rotation_widths.unpack_eq r.rotation.toUInt32.toNat
  rw [← hword] at hunpack
  have hrest := inRange_rest r.rotation.toUInt32.toNat_lt
  have hx := inRange_field 20 r.rotation.toUInt32.toNat
  have hy := inRange_field 10 r.rotation.toUInt32.toNat
  rw [← hrest]
  constructor
  · intro h
    have hz := h.z
    rwa [hunpack] at hz
  · intro hz
    refine ⟨?_, ?_, ?_, ?_⟩
    · rwa [hunpack]
    · rwa [hunpack]
    · rwa [hunpack]
    · rw [get, hunpack]
      exact ⟨convertToDeg_mem hx, convertToDeg_mem hy, convertToDeg_mem hz⟩

/-- A rotation read from the wire is valid exactly if the two bits of its field that no axis owns
are clear. -/
theorem decoded_rotation_valid_iff (r : RotationCompressed) (data : Memory) (offset : Nat) :
    ((serializeIn r).eval data offset).1.2.Valid ↔ Serialize.wordAt data offset 4 < 2 ^ 30 := by
  rw [FixedLayout.eval_in, valid_iff]
  change (UInt32.ofNat (Serialize.wordAt data offset 4)).toInt32.toUInt32.toNat < 2 ^ 30 ↔ _
  rw [UInt32.toUInt32_toInt32, Serialize.u32_wordAt_toNat]

/-- Bit 30 alone becomes the third axis's quanta, over a million turns. -/
theorem unowned_bit_decoded :
    let r := ((serializeIn RotationCompressed.new).eval (Store.store (fun _ => 0) 0 [64]) 0).1.2
    (unpack Settings.rotation r.rotation).2.2 = 2 ^ 30 ∧ r.get.z = 2 ^ 20 * 360 ∧ ¬ r.Valid := by
  have hread : ((serializeIn RotationCompressed.new).eval
      (Store.store (fun _ => 0) 0 [64]) 0).1.2 = ⟨2 ^ 30⟩ := by
    rw [FixedLayout.eval_in]
    decide
  intro r
  have hr : r = ⟨2 ^ 30⟩ := hread
  have hz : (unpack Settings.rotation r.rotation).2.2 = 2 ^ 30 := by
    rw [hr]
    decide
  refine ⟨hz, ?_, ?_⟩
  · change convertToDeg (unpack Settings.rotation r.rotation).2.2 1024 = 2 ^ 20 * 360
    have hint : (2 ^ 30 : Int32).toInt = 2 ^ 30 := by decide
    rw [hz, convertToDeg, hint, quantitization_eq, degreesInCircle]
    norm_num
  · rw [valid_iff, hr]
    decide

end RotationCompressed

/-- What `Get` returns stands for the vectors. -/
structure MovementPacket.StandsFor (p : MovementPacket)
    (position direction movementDir : Vector3) : Prop where
  position : position.All₂ CoordinateKept p.get.1
  direction : direction.All₂ AngleKept p.get.2.1
  movementDir : movementDir.All₂ CoordinateKept p.get.2.2

/-- Vectors set in one packet, written, read into another packet and taken from it. -/
theorem movement_end_to_end (p q : MovementPacket) (b : Buffer)
    {position direction movementDir : Vector3} (hposition : position.All (|·| < 4096))
    (hdirection : direction.All (|·| * 1024 / 360 < 2 ^ 31))
    (hmovementDir : movementDir.All (|·| < 4096)) :
    let written := ((serializeOut (p.set position direction movementDir)).exec b).2
    let read := ((serializeIn q).eval written.data b.bufferOffset).1.2
    read.StandsFor position direction movementDir := by
  intro written read
  have hread : read = p.set position direction movementDir := by
    simp only [read, written]
    rw [FixedLayout.eval_in_exec_out]
  rw [hread]
  exact ⟨PositionCompressed.get_set_kept hposition, RotationCompressed.get_set_kept hdirection,
    PositionCompressed.get_set_kept hmovementDir⟩

/-- A position and a movement with both signs and angles on both sides of the circle. -/
theorem sample_movement_end_to_end :
    let position : Vector3 := ⟨1, 2, -3⟩
    let direction : Vector3 := ⟨18, -32, 1000⟩
    let movementDir : Vector3 := ⟨5 / 3, -2, 0⟩
    let written :=
      ((serializeOut (MovementPacket.new.set position direction movementDir)).exec ⟨fun _ => 0, 0⟩).2
    let read := ((serializeIn MovementPacket.new).eval written.data 0).1.2
    read.StandsFor position direction movementDir :=
  movement_end_to_end .new .new ⟨fun _ => 0, 0⟩
    ⟨by norm_num, by norm_num [abs_lt], by norm_num [abs_lt]⟩
    ⟨by norm_num, by norm_num [abs_lt], by norm_num [abs_lt]⟩
    ⟨by norm_num [abs_lt], by norm_num [abs_lt], by norm_num⟩

end SocketCPlusPlus.Packets
