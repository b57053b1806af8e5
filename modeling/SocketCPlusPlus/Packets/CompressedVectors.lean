import Mathlib.Data.Sign.Basic
import SocketCPlusPlus.NetworkUtils
import SocketCPlusPlus.Packets.MovementPacket

/-! What the compressed members stand for: three angles in one `int`, three coordinates with their
signs in one 64-bit word. -/
namespace SocketCPlusPlus.Packets
open Foundation Network

structure Vector3 where
  x : ℚ
  y : ℚ
  z : ℚ
  deriving DecidableEq, Repr

namespace RotationCompressed
open Network.Utils

def pack (s : Settings.Rotation) (x y z : Int32) : Int32 :=
  (x <<< (s.shiftX + s.shiftY)) + (y <<< s.shiftY) + z

def unpack (s : Settings.Rotation) (value : Int32) : Int32 × Int32 × Int32 :=
  let x := value &&& (s.maskX <<< (s.shiftY + s.shiftX))
  let value := value - x
  let x := x >>> (s.shiftX + s.shiftY)
  let y := value &&& (s.maskY <<< s.shiftY)
  let value := value - y
  let y := y >>> s.shiftY
  let z := value
  (x, y, z)

def set (eulerAngles : Vector3) : RotationCompressed :=
  let repAngleX := convertDegToQuantitized eulerAngles.x Settings.rotation.quantizationX
  let repAngleY := convertDegToQuantitized eulerAngles.y Settings.rotation.quantizationY
  let repAngleZ := convertDegToQuantitized eulerAngles.z Settings.rotation.quantizationZ
  ⟨pack Settings.rotation repAngleX repAngleY repAngleZ⟩

def get (r : RotationCompressed) : Vector3 :=
  let (x, y, z) := unpack Settings.rotation r.rotation
  ⟨convertToDeg x Settings.rotation.quantizationX, convertToDeg y Settings.rotation.quantizationY,
    convertToDeg z Settings.rotation.quantizationZ⟩

end RotationCompressed

namespace PositionCompressed
open Network.Settings.Position

/-- `(long)` truncates. The word is the same for a `long` of any width that holds the result. -/
def pack (x y z : ℚ) : UInt64 :=
  let xNeg : Bool := x < 0
  let yNeg : Bool := y < 0
  let zNeg : Bool := z < 0
  let x := if xNeg then -x else x
  let y := if yNeg then -y else y
  let z := if zNeg then -z else z
  let x0 := UInt64.ofInt (truncate (x * precision.toInt))
  let y0 := UInt64.ofInt (truncate (y * precision.toInt))
  let z0 := UInt64.ofInt (truncate (z * precision.toInt))
  let xPacked := (x0 <<< xShift) &&& xMask
  let yPacked := (y0 <<< yShift) &&& yMask
  let zPacked := (z0 <<< zShift) &&& zMask
  let signs : UInt64 := 0
  let signs := if xNeg then signs ||| ((1 : UInt64) <<< 2) else signs
  let signs := if yNeg then signs ||| ((1 : UInt64) <<< 1) else signs
  let signs := if zNeg then signs ||| ((1 : UInt64) <<< 0) else signs
  xPacked ||| yPacked ||| zPacked ||| signs

/-- One coordinate: its magnitude under the mask, its sign in the bit. -/
def unpackAxis (position mask shift sign : UInt64) : ℚ :=
  let u : ℚ := ((position &&& mask) >>> shift).toNat
  let u := u / precision.toInt
  if position &&& ((1 : UInt64) <<< sign) != 0 then -u else u

def unpack (position : UInt64) : ℚ × ℚ × ℚ :=
  let x := unpackAxis position xMask xShift 2
  let y := unpackAxis position yMask yShift 1
  let z := unpackAxis position zMask zShift 0
  (x, y, z)

def set (pos : Vector3) : PositionCompressed := ⟨pack pos.x pos.y pos.z⟩

def get (p : PositionCompressed) : Vector3 :=
  let (x, y, z) := unpack p.position
  ⟨x, y, z⟩

end PositionCompressed

/-! Rotations, for any quantizations that are powers of two. -/

/-- Quantizations of `a`, `b` and `c` bits that fit into a nonnegative `int`. -/
structure Widths (s : Settings.Rotation) (a b c : Nat) : Prop where
  x : s.quantizationX = Int32.ofNat (2 ^ a)
  y : s.quantizationY = Int32.ofNat (2 ^ b)
  z : s.quantizationZ = Int32.ofNat (2 ^ c)
  fits : a + b + c ≤ 31

namespace Widths
variable {s : Settings.Rotation} {a b c : Nat}

theorem shiftX_eq (h : Widths s a b c) : s.shiftX = Int32.ofNat b := by
  have hfits := h.fits
  rw [Settings.Rotation.shiftX, h.y, Utils.getBitPosition_two_pow (by omega)]

theorem shiftY_eq (h : Widths s a b c) : s.shiftY = Int32.ofNat c := by
  have hfits := h.fits
  rw [Settings.Rotation.shiftY, h.z, Utils.getBitPosition_two_pow (by omega)]

theorem shifts_eq (h : Widths s a b c) : s.shiftX + s.shiftY = Int32.ofNat (b + c) := by
  rw [h.shiftX_eq, h.shiftY_eq, Int32.ofNat_add]

theorem maskX_eq (h : Widths s a b c) : s.maskX = Int32.ofNat (2 ^ a - 1) := by
  rw [Settings.Rotation.maskX, h.x, Int32.ofNat_sub _ _ (Nat.two_pow_pos a)]
  rfl

theorem maskY_eq (h : Widths s a b c) : s.maskY = Int32.ofNat (2 ^ b - 1) := by
  rw [Settings.Rotation.maskY, h.y, Int32.ofNat_sub _ _ (Nat.two_pow_pos b)]
  rfl

theorem pack_eq (h : Widths s a b c) (x y z : Nat) :
    RotationCompressed.pack s (.ofNat x) (.ofNat y) (.ofNat z) =
      .ofNat (x * 2 ^ (b + c) + y * 2 ^ c + z) := by
  have hfits := h.fits
  rw [RotationCompressed.pack, h.shifts_eq, h.shiftY_eq, int_ofNat_shiftLeft x (by omega),
    int_ofNat_shiftLeft y (by omega), ← Int32.ofNat_add, ← Int32.ofNat_add]

theorem unpack_eq (h : Widths s a b c) (n : Nat) :
    RotationCompressed.unpack s (.ofNat n) =
      (.ofNat (bitField (b + c) a n), .ofNat (bitField c b n),
        .ofNat (n - bitField (b + c) a n * 2 ^ (b + c) - bitField c b n * 2 ^ c)) := by
  have hfits := h.fits
  have hx := bitField_le (b + c) a n
  have hy := bitField_le c b (n - bitField (b + c) a n * 2 ^ (b + c))
  rw [bitField_sub] at hy
  have hwordx := Nat.lt_of_lt_of_le (bitField_mul_lt (b + c) a n)
    (Nat.pow_le_pow_right (by decide) (show a + (b + c) ≤ 31 by omega))
  have hwordy := Nat.lt_of_lt_of_le (bitField_mul_lt c b n)
    (Nat.pow_le_pow_right (by decide) (show b + c ≤ 31 by omega))
  simp only [RotationCompressed.unpack, Int32.add_comm s.shiftY s.shiftX]
  rw [h.shifts_eq, h.shiftY_eq, h.maskX_eq, h.maskY_eq, int_ofNat_shiftLeft _ (by omega),
    int_ofNat_shiftLeft _ (by omega), int_ofNat_and, and_mask, ← Int32.ofNat_sub _ _ hx,
    int_ofNat_and, and_mask, bitField_sub, ← Int32.ofNat_sub _ _ hy,
    int_ofNat_shiftRight hwordx (by omega), int_ofNat_shiftRight hwordy (by omega),
    Nat.mul_div_cancel _ (Nat.two_pow_pos _), Nat.mul_div_cancel _ (Nat.two_pow_pos _)]

theorem unpack_pack (h : Widths s a b c) {x y z : Nat} (hx : x < 2 ^ a) (hy : y < 2 ^ b)
    (hz : z < 2 ^ c) :
    RotationCompressed.unpack s (RotationCompressed.pack s (.ofNat x) (.ofNat y) (.ofNat z)) =
      (.ofNat x, .ofNat y, .ofNat z) := by
  have hlow : y * 2 ^ c + z < 2 ^ (b + c) := append_lt hy hz
  rw [h.pack_eq, Nat.add_assoc, h.unpack_eq]
  have hfx : bitField (b + c) a (x * 2 ^ (b + c) + (y * 2 ^ c + z)) = x := by
    rw [bitField_append a x hlow, Nat.mod_eq_of_lt hx]
  have hfy : bitField c b (x * 2 ^ (b + c) + (y * 2 ^ c + z)) = y := by
    rw [Nat.add_comm b c, bitField_above, bitField_append b y hz, Nat.mod_eq_of_lt hy]
  rw [hfx, hfy, Nat.add_sub_cancel_left, Nat.add_sub_cancel_left]

theorem pack_unpack (h : Widths s a b c) (n : Nat) :
    RotationCompressed.pack s (RotationCompressed.unpack s (.ofNat n)).1
      (RotationCompressed.unpack s (.ofNat n)).2.1 (RotationCompressed.unpack s (.ofNat n)).2.2 =
      .ofNat n := by
  have hx := bitField_le (b + c) a n
  have hy := bitField_le c b (n - bitField (b + c) a n * 2 ^ (b + c))
  rw [bitField_sub] at hy
  rw [h.unpack_eq, h.pack_eq]
  exact congrArg Int32.ofNat (by omega)

end Widths

namespace RotationCompressed

/-- The value of `x << (shiftX + shiftY)`. -/
def shiftedX (s : Settings.Rotation) (x : Int32) : Int :=
  x.toInt * 2 ^ (s.shiftX.toInt + s.shiftY.toInt).toNat

/-- The value of `y << shiftY`. -/
def shiftedY (s : Settings.Rotation) (y : Int32) : Int := y.toInt * 2 ^ s.shiftY.toInt.toNat

/-- No shift goes too far and no subexpression of `Pack` leaves the range of an `int`. -/
structure PackFits (s : Settings.Rotation) (x y z : Int32) : Prop where
  shifts : 0 ≤ s.shiftY.toInt ∧ s.shiftY.toInt ≤ s.shiftX.toInt + s.shiftY.toInt ∧
    s.shiftX.toInt + s.shiftY.toInt < 32
  left : 0 ≤ shiftedX s x ∧ shiftedX s x < 2 ^ 31
  middle : 0 ≤ shiftedY s y ∧ shiftedY s y < 2 ^ 31
  sum : shiftedX s x + shiftedY s y < 2 ^ 31
  total : shiftedX s x + shiftedY s y + z.toInt < 2 ^ 31
  value : (pack s x y z).toInt = shiftedX s x + shiftedY s y + z.toInt

/-- A quantum of an axis whose quantization has so many bits. -/
def Quantum (bits : Nat) (quantum : Int32) : Prop :=
  0 ≤ quantum.toInt ∧ quantum.toInt < 2 ^ bits

theorem quantum_eq {bits : Nat} {quantum : Int32} (h : Quantum bits quantum) :
    ∃ n < 2 ^ bits, quantum = .ofNat n ∧ quantum.toInt = n := by
  obtain ⟨hnonneg, hlt⟩ := h
  have hnat := Int.toNat_of_nonneg hnonneg
  refine ⟨quantum.toInt.toNat, ?_, int_eq_ofNat hnonneg, hnat.symm⟩
  rw [← hnat] at hlt
  exact_mod_cast hlt

theorem shift_values {s : Settings.Rotation} {a b c : Nat} (h : Widths s a b c) :
    s.shiftX.toInt = b ∧ s.shiftY.toInt = c := by
  have hfits := h.fits
  rw [h.shiftX_eq, h.shiftY_eq, Int32.toInt_ofNat_of_lt (by omega),
    Int32.toInt_ofNat_of_lt (by omega)]
  exact ⟨rfl, rfl⟩

theorem word_lt {a b c x y z : Nat} (hfits : a + b + c ≤ 31) (hx : x < 2 ^ a) (hy : y < 2 ^ b)
    (hz : z < 2 ^ c) : x * 2 ^ (b + c) + y * 2 ^ c + z < 2 ^ 31 := by
  have hlow : y * 2 ^ c + z < 2 ^ (b + c) := append_lt hy hz
  have hall : x * 2 ^ (b + c) + (y * 2 ^ c + z) < 2 ^ (a + (b + c)) := append_lt hx hlow
  have hpow : 2 ^ (a + (b + c)) ≤ 2 ^ 31 := Nat.pow_le_pow_right (by decide) (by omega)
  omega

theorem pack_fits {s : Settings.Rotation} {a b c : Nat} (h : Widths s a b c) {x y z : Int32}
    (hx : Quantum a x) (hy : Quantum b y) (hz : Quantum c z) : PackFits s x y z := by
  have hfits := h.fits
  obtain ⟨hshiftX, hshiftY⟩ := shift_values h
  obtain ⟨x, hxlt, rfl, hxint⟩ := quantum_eq hx
  obtain ⟨y, hylt, rfl, hyint⟩ := quantum_eq hy
  obtain ⟨z, hzlt, rfl, hzint⟩ := quantum_eq hz
  have hleft : shiftedX s (.ofNat x) = (x * 2 ^ (b + c) : Nat) := by
    rw [shiftedX, hxint, show (s.shiftX.toInt + s.shiftY.toInt).toNat = b + c by omega]
    push_cast
    rfl
  have hmiddle : shiftedY s (.ofNat y) = (y * 2 ^ c : Nat) := by
    rw [shiftedY, hyint, hshiftY, Int.toNat_natCast]
    push_cast
    rfl
  have hword := word_lt hfits hxlt hylt hzlt
  have hvalue : (pack s (.ofNat x) (.ofNat y) (.ofNat z)).toInt =
      (x * 2 ^ (b + c) + y * 2 ^ c + z : Nat) := by
    rw [h.pack_eq, Int32.toInt_ofNat_of_lt hword]
  refine ⟨by omega, ?_, ?_, ?_, ?_, ?_⟩
  · rw [hleft]
    omega
  · rw [hmiddle]
    omega
  · rw [hleft, hmiddle]
    omega
  · rw [hleft, hmiddle, hzint]
    omega
  · rw [hvalue, hleft, hmiddle, hzint]
    omega

/-- Whatever powers of two the settings have, as long as their exponents are at most 31 together:
packing quanta does not overflow, unpacking gives them back, and packing what a word is unpacked to
gives the word back. -/
theorem packing_for_all_widths {s : Settings.Rotation} {a b c : Nat} (h : Widths s a b c) :
    (∀ x y z, Quantum a x → Quantum b y → Quantum c z →
      PackFits s x y z ∧ unpack s (pack s x y z) = (x, y, z)) ∧
    ∀ v, Quantum (a + b + c) v →
      pack s (unpack s v).1 (unpack s v).2.1 (unpack s v).2.2 = v := by
  constructor
  · intro x y z hx hy hz
    refine ⟨pack_fits h hx hy hz, ?_⟩
    obtain ⟨x, hxlt, rfl, -⟩ := quantum_eq hx
    obtain ⟨y, hylt, rfl, -⟩ := quantum_eq hy
    obtain ⟨z, hzlt, rfl, -⟩ := quantum_eq hz
    exact h.unpack_pack hxlt hylt hzlt
  · intro v hv
    obtain ⟨n, -, rfl, -⟩ := quantum_eq hv
    exact h.pack_unpack n

/-- Axes of one, two and three bits. -/
theorem packing_for_small_widths :
    let s : Settings.Rotation := ⟨2, 4, 8⟩
    (∀ x y z, Quantum 1 x → Quantum 2 y → Quantum 3 z →
      PackFits s x y z ∧ unpack s (pack s x y z) = (x, y, z)) ∧
    ∀ v, Quantum (1 + 2 + 3) v →
      pack s (unpack s v).1 (unpack s v).2.1 (unpack s v).2.2 = v :=
  packing_for_all_widths ⟨rfl, rfl, rfl, by decide⟩

end RotationCompressed

/-! Positions. -/

namespace PositionCompressed
open Network.Settings.Position

/-- A coordinate's magnitude in quanta, cut to the width of a field. -/
def magnitude (c : ℚ) : Nat := (⌊|c| * 256⌋ % 2 ^ 20).toNat

/-- What a coordinate becomes: the quanta of its magnitude under its sign. -/
def quantized (c : ℚ) : ℚ := (if c < 0 then -1 else 1) * magnitude c / 256

theorem magnitude_lt (c : ℚ) : magnitude c < 2 ^ 20 := by
  have hlt := Int.emod_lt_of_pos ⌊|c| * 256⌋ (show (0 : Int) < 2 ^ 20 by decide)
  rw [magnitude]
  omega

theorem precision_eq : ((precision.toInt : Int) : ℚ) = 256 := by
  have hint : precision.toInt = 256 := by decide
  rw [hint]
  rfl

theorem twentyBits_toNat : twentyBits.toNat = 2 ^ 20 - 1 := by decide

theorem shifts_fit : xShift.toNat + 20 ≤ 64 ∧ yShift.toNat + 20 ≤ 64 ∧ zShift.toNat + 20 ≤ 64 := by
  decide

theorem ofInt_mod (c : ℚ) : (UInt64.ofInt (truncate ((if decide (c < 0) then -c else c) *
    precision.toInt))).toNat % 2 ^ 20 = magnitude c := by
  have habs : (if decide (c < 0) then -c else c) = |c| := by
    by_cases h : c < 0
    · rw [if_pos (decide_eq_true h), abs_of_neg h]
    · rw [if_neg (by simpa using h), abs_of_nonneg (not_lt.mp h)]
  rw [habs, precision_eq, truncate_nonneg (by positivity), magnitude, UInt64.ofInt,
    UInt64.toNat_ofNat']
  omega

/-- The sign bits of three coordinates. -/
def signBits (x y z : ℚ) : Nat :=
  (if x < 0 then 4 else 0) + (if y < 0 then 2 else 0) + if z < 0 then 1 else 0

private theorem or_fields {x y z signs : Nat} (hy : y < 2 ^ 20) (hz : z < 2 ^ 20)
    (hsigns : signs < 2 ^ 3) :
    x * 2 ^ 43 ||| y * 2 ^ 23 ||| z * 2 ^ 3 ||| signs =
      ((x * 2 ^ 20 + y) * 2 ^ 20 + z) * 2 ^ 3 + signs := by
  have hxy : x * 2 ^ 43 ||| y * 2 ^ 23 = (x * 2 ^ 20 + y) * 2 ^ 23 := by
    rw [or_append x (by omega)]
    omega
  have hxyz : (x * 2 ^ 20 + y) * 2 ^ 23 ||| z * 2 ^ 3 = ((x * 2 ^ 20 + y) * 2 ^ 20 + z) * 2 ^ 3 := by
    rw [or_append _ (by omega)]
    omega
  rw [hxy, hxyz, or_append _ hsigns]

theorem signBits_lt (x y z : ℚ) : signBits x y z < 2 ^ 3 := by
  rw [signBits]
  split <;> split <;> split <;> decide

/-- The packed word is the number with the three fields and the signs below them. -/
theorem pack_toNat (x y z : ℚ) : (pack x y z).toNat =
    ((magnitude x * 2 ^ 20 + magnitude y) * 2 ^ 20 + magnitude z) * 2 ^ 3 + signBits x y z := by
  obtain ⟨hfitx, hfity, hfitz⟩ := shifts_fit
  have hsigns : ∀ s : UInt64, s.toNat = signBits x y z →
      magnitude x * 2 ^ xShift.toNat ||| magnitude y * 2 ^ yShift.toNat |||
        magnitude z * 2 ^ zShift.toNat ||| s.toNat =
      ((magnitude x * 2 ^ 20 + magnitude y) * 2 ^ 20 + magnitude z) * 2 ^ 3 + signBits x y z := by
    intro s hs
    rw [hs]
    exact or_fields (magnitude_lt y) (magnitude_lt z) (signBits_lt x y z)
  simp only [pack, xMask, yMask, zMask, UInt64.toNat_or]
  rw [u64_shiftLeft_mask twentyBits_toNat (Nat.succ_pos _) hfitx,
    u64_shiftLeft_mask twentyBits_toNat (Nat.succ_pos _) hfity,
    u64_shiftLeft_mask twentyBits_toNat (Nat.succ_pos _) hfitz, ofInt_mod, ofInt_mod, ofInt_mod]
  apply hsigns
  rw [signBits]
  by_cases hx : x < 0 <;> by_cases hy : y < 0 <;> by_cases hz : z < 0 <;>
    simp only [hx, hy, hz, decide_true, decide_false] <;> rfl

private theorem fields_of_word {x y z signs : Nat} (hx : x < 2 ^ 20) (hy : y < 2 ^ 20)
    (hz : z < 2 ^ 20) (hsigns : signs < 2 ^ 3) :
    bitField 43 20 (((x * 2 ^ 20 + y) * 2 ^ 20 + z) * 2 ^ 3 + signs) = x ∧
      bitField 23 20 (((x * 2 ^ 20 + y) * 2 ^ 20 + z) * 2 ^ 3 + signs) = y ∧
      bitField 3 20 (((x * 2 ^ 20 + y) * 2 ^ 20 + z) * 2 ^ 3 + signs) = z ∧
      ∀ i < 3, bitField i 1 (((x * 2 ^ 20 + y) * 2 ^ 20 + z) * 2 ^ 3 + signs) =
        bitField i 1 signs := by
  simp only [bitField]
  refine ⟨by omega, by omega, by omega, fun i hi => ?_⟩
  obtain rfl | rfl | rfl : i = 0 ∨ i = 1 ∨ i = 2 := by omega
  all_goals omega

theorem signBits_bit (x y z : ℚ) :
    bitField 2 1 (signBits x y z) = (if x < 0 then 1 else 0) ∧
      bitField 1 1 (signBits x y z) = (if y < 0 then 1 else 0) ∧
      bitField 0 1 (signBits x y z) = if z < 0 then 1 else 0 := by
  rw [signBits]
  split <;> split <;> split <;> decide

/-- The field and the sign bit of an axis in a word say one coordinate. -/
structure Carries (position shift sign : UInt64) (c : ℚ) : Prop where
  magnitude : ((position &&& (twentyBits <<< shift)) >>> shift).toNat = magnitude c
  sign : position &&& ((1 : UInt64) <<< sign) ≠ 0 ↔ c < 0

theorem carries_of_fields {position shift sign : UInt64} {c : ℚ} (h : shift.toNat + 20 ≤ 64)
    (hsign : sign.toNat < 64)
    (hfield : bitField shift.toNat 20 position.toNat = PositionCompressed.magnitude c)
    (hbit : bitField sign.toNat 1 position.toNat = if c < 0 then 1 else 0) :
    Carries position shift sign c where
  magnitude := by rw [u64_mask_shiftRight twentyBits_toNat (Nat.succ_pos _) h, hfield]
  sign := by
    rw [Ne, u64_bit hsign, hbit]
    split
    · next hneg => exact iff_of_true Nat.one_ne_zero hneg
    · next hneg => exact iff_of_false (fun hne => hne rfl) hneg

theorem pack_carries (x y z : ℚ) : Carries (pack x y z) xShift 2 x ∧
    Carries (pack x y z) yShift 1 y ∧ Carries (pack x y z) zShift 0 z := by
  obtain ⟨hx, hy, hz, hbits⟩ := fields_of_word (magnitude_lt x) (magnitude_lt y) (magnitude_lt z)
    (signBits_lt x y z)
  obtain ⟨hsx, hsy, hsz⟩ := signBits_bit x y z
  obtain ⟨hfitx, hfity, hfitz⟩ := shifts_fit
  rw [← pack_toNat] at hx hy hz hbits
  exact ⟨carries_of_fields hfitx (by decide) hx ((hbits 2 (by omega)).trans hsx),
    carries_of_fields hfity (by decide) hy ((hbits 1 (by omega)).trans hsy),
    carries_of_fields hfitz (by decide) hz ((hbits 0 (by omega)).trans hsz)⟩

theorem Carries.unpackAxis_eq {position shift sign : UInt64} {c : ℚ}
    (h : Carries position shift sign c) :
    unpackAxis position (twentyBits <<< shift) shift sign = quantized c := by
  rw [unpackAxis, h.magnitude, precision_eq, quantized]
  by_cases hneg : c < 0
  · rw [if_pos (bne_iff_ne.mpr (h.sign.mpr hneg)), if_pos hneg, neg_one_mul, neg_div]
  · rw [if_neg (mt bne_iff_ne.mp (mt h.sign.mp hneg)), if_neg hneg, one_mul]

theorem unpack_pack (x y z : ℚ) :
    unpack (pack x y z) = (quantized x, quantized y, quantized z) := by
  obtain ⟨hx, hy, hz⟩ := pack_carries x y z
  rw [unpack, xMask, yMask, zMask, hx.unpackAxis_eq, hy.unpackAxis_eq, hz.unpackAxis_eq]

/-- The value of an axis: the coordinate's sign and the low twenty bits of its quanta. -/
def axisValue (c : ℚ) : ℚ := (SignType.sign c : ℚ) * ((⌊|c| * 256⌋ % 2 ^ 20 : Int) : ℚ) / 256

theorem magnitude_cast (c : ℚ) : ((magnitude c : Nat) : Int) = ⌊|c| * 256⌋ % 2 ^ 20 := by
  rw [magnitude, Int.toNat_of_nonneg (Int.emod_nonneg _ (by decide))]

theorem quantized_eq (c : ℚ) : quantized c = axisValue c := by
  have hcast : (magnitude c : ℚ) = ((⌊|c| * 256⌋ % 2 ^ 20 : Int) : ℚ) := by
    rw [← magnitude_cast, Int.cast_natCast]
  rw [quantized, axisValue, ← hcast]
  rcases lt_trichotomy c 0 with hneg | rfl | hpos
  · rw [if_pos hneg, sign_neg hneg]
    simp
  · simp [magnitude]
  · rw [if_neg (not_lt.mpr hpos.le), sign_pos hpos]
    simp

/-- Each axis of what is unpacked is its own coordinate's value, and neither a bit of a magnitude
nor a sign reaches another axis of the word: they also say their own coordinate only. -/
theorem axes_independent (x y z : ℚ) :
    unpack (pack x y z) = (axisValue x, axisValue y, axisValue z) ∧
      Carries (pack x y z) xShift 2 x ∧ Carries (pack x y z) yShift 1 y ∧
      Carries (pack x y z) zShift 0 z := by
  refine ⟨?_, pack_carries x y z⟩
  rw [unpack_pack, quantized_eq, quantized_eq, quantized_eq]

end PositionCompressed
end SocketCPlusPlus.Packets
