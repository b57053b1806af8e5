import Mathlib.Data.Rat.Floor
import SocketCPlusPlus.Foundation.BitField
import SocketCPlusPlus.Foundation.Truncation

/-! Conversions between degrees and the integers that stand for them, and the settings of the
compressed vectors. Floats are exact rationals. -/
namespace SocketCPlusPlus.Network
open Foundation

namespace Utils

def wrap {T : Type} [Mod T] [Add T] [OfNat T 0] [LT T] [DecidableLT T] (value range : T) : T :=
  let value := value % range
  if value < 0 then value + range else value

def degreesInCircle : ℚ := 360

def convertToDeg (value range : Int32) : ℚ :=
  let angle : ℚ := value.toInt / range.toInt
  angle * degreesInCircle

/-- The conversion of a product that no `int` holds is undefined; here it wraps around. -/
def convertRange (value : ℚ) (range : Int32) : Int32 :=
  let repAngle := Int32.ofInt (truncate (value * range.toInt))
  wrap repAngle range

def convertDegToQuantitized (value : ℚ) (quantitization : Int32) : Int32 :=
  let deg := value / degreesInCircle
  convertRange deg quantitization

def getBitPosition (input : Int32) : Int32 :=
  match (List.range 32).find? fun i => input &&& (1 <<< Int32.ofNat i) != 0 with
  | some i => Int32.ofNat i
  | none => -1

end Utils

namespace Settings

/-- The quantization of each angle. Shifts and masks are derived. -/
structure Rotation where
  quantizationX : Int32
  quantizationY : Int32
  quantizationZ : Int32

namespace Rotation

def shiftX (s : Rotation) : Int32 := Utils.getBitPosition s.quantizationY
def shiftY (s : Rotation) : Int32 := Utils.getBitPosition s.quantizationZ
def maskZ (s : Rotation) : Int32 := s.quantizationZ - 1
def maskY (s : Rotation) : Int32 := s.quantizationY - 1
def maskX (s : Rotation) : Int32 := s.quantizationX - 1

end Rotation

def rotation : Rotation := ⟨1024, 1024, 1024⟩

namespace Float

def shift : ℚ := 512

end Float

namespace Position

def precision : Int32 := 256
def xShift : UInt64 := 43
def yShift : UInt64 := 23
def zShift : UInt64 := 3
def twentyBits : UInt64 := 0xfffff
def xMask : UInt64 := twentyBits <<< xShift
def yMask : UInt64 := twentyBits <<< yShift
def zMask : UInt64 := twentyBits <<< zShift

end Position
end Settings

namespace Utils

private theorem tmod_of_neg {a n : Int} (hn : 0 < n) (h : a.tmod n < 0) : a.tmod n + n = a % n := by
  have hnonneg := Int.emod_nonneg a (Int.ne_of_gt hn)
  rw [Int.tmod_eq_emod] at h ⊢
  by_cases hc : 0 ≤ a ∨ n ∣ a
  · rw [if_pos hc] at h ⊢
    omega
  · rw [if_neg hc] at h ⊢
    omega

private theorem tmod_of_nonneg {a n : Int} (hn : 0 < n) (h : 0 ≤ a.tmod n) : a.tmod n = a % n := by
  have hlt := Int.emod_lt_of_pos a hn
  rw [Int.tmod_eq_emod] at h ⊢
  by_cases hc : 0 ≤ a ∨ n ∣ a
  · rw [if_pos hc] at h ⊢
    omega
  · rw [if_neg hc] at h ⊢
    omega

theorem wrap_toInt (value : Int32) {range : Int32} (h : 0 < range.toInt) :
    (wrap value range).toInt = value.toInt % range.toInt := by
  have hlt := Int.emod_lt_of_pos value.toInt h
  have hnonneg := Int.emod_nonneg value.toInt (Int.ne_of_gt h)
  have hword := range.toInt_lt
  have hmod := Int32.toInt_mod value range
  rw [wrap]
  split
  · next hneg =>
    rw [Int32.lt_iff_toInt_lt, hmod, Int32.toInt_zero] at hneg
    rw [Int32.toInt_add, hmod, tmod_of_neg h hneg]
    exact Int.bmod_eq_of_le (by omega) (by omega)
  · next hpos =>
    rw [Int32.lt_iff_toInt_lt, hmod, Int32.toInt_zero, Int.not_lt] at hpos
    rw [hmod, tmod_of_nonneg h hpos]

theorem convertDegToQuantitized_mem (value : ℚ) {quantitization : Int32}
    (hpos : 0 < quantitization.toInt) :
    0 ≤ (convertDegToQuantitized value quantitization).toInt ∧
      (convertDegToQuantitized value quantitization).toInt < quantitization.toInt := by
  rw [convertDegToQuantitized, convertRange, wrap_toInt _ hpos]
  exact ⟨Int.emod_nonneg _ (Int.ne_of_gt hpos), Int.emod_lt_of_pos _ hpos⟩

theorem convertDegToQuantitized_toInt (value : ℚ) {quantitization : Int32}
    (hpos : 0 < quantitization.toInt)
    (h : |value / degreesInCircle * quantitization.toInt| < 2 ^ 31) :
    (convertDegToQuantitized value quantitization).toInt =
      truncate (value / degreesInCircle * quantitization.toInt) % quantitization.toInt := by
  have hle := lt_of_le_of_lt (abs_truncate_le _) h
  rw [abs_lt] at hle
  have hlow : -2 ^ 31 ≤ truncate (value / degreesInCircle * quantitization.toInt) := by
    exact_mod_cast hle.1.le
  have hhigh : truncate (value / degreesInCircle * quantitization.toInt) < 2 ^ 31 := by
    exact_mod_cast hle.2
  rw [convertDegToQuantitized, convertRange, wrap_toInt _ hpos,
    Int32.toInt_ofInt_of_le hlow hhigh]

/-- Back in degrees a quantized angle lies in the circle, less than a quantum off some turns. -/
theorem convertToDeg_quantitized (value : ℚ) {quantitization : Int32}
    (hpos : 0 < quantitization.toInt)
    (h : |value / degreesInCircle * quantitization.toInt| < 2 ^ 31) :
    0 ≤ convertToDeg (convertDegToQuantitized value quantitization) quantitization ∧
      convertToDeg (convertDegToQuantitized value quantitization) quantitization < 360 ∧
      ∃ turns : Int, |convertToDeg (convertDegToQuantitized value quantitization) quantitization +
        360 * turns - value| < 360 / quantitization.toInt := by
  have hquanta := convertDegToQuantitized_toInt value hpos h
  have hcut := abs_truncate_sub_lt (value / degreesInCircle * quantitization.toInt)
  have hlow := Int.emod_nonneg (truncate (value / degreesInCircle * quantitization.toInt))
    (Int.ne_of_gt hpos)
  have hhigh := Int.emod_lt_of_pos (truncate (value / degreesInCircle * quantitization.toInt)) hpos
  rw [convertToDeg, hquanta]
  rw [degreesInCircle] at hcut hlow hhigh ⊢
  generalize truncate (value / 360 * quantitization.toInt) = t at hcut hlow hhigh ⊢
  generalize quantitization.toInt = n at hpos hcut hlow hhigh ⊢
  have hn : (0 : ℚ) < n := by exact_mod_cast hpos
  have hlow' : (0 : ℚ) ≤ (t % n : Int) := by exact_mod_cast hlow
  have hhigh' : ((t % n : Int) : ℚ) < n := by exact_mod_cast hhigh
  have hsplit : (t : ℚ) = n * (t / n : Int) + (t % n : Int) := by
    exact_mod_cast (Int.mul_ediv_add_emod t n).symm
  refine ⟨by positivity, ?_, t / n, ?_⟩
  · rw [div_mul_eq_mul_div, div_lt_iff₀ hn]
    linarith
  · have hquantum : (t % n : Int) / (n : ℚ) * 360 + 360 * (t / n : Int) - value =
        (t - value / 360 * n) * (360 / n) := by
      rw [hsplit]
      field_simp
      ring
    have hpositive : 0 < 360 / (n : ℚ) := by positivity
    rw [hquantum, abs_mul, abs_of_pos hpositive]
    exact mul_lt_of_lt_one_left hpositive hcut

theorem convertDegToQuantitized_convertToDeg {quanta quantitization : Int32}
    (hnonneg : 0 ≤ quanta.toInt) (hlt : quanta.toInt < quantitization.toInt) :
    convertDegToQuantitized (convertToDeg quanta quantitization) quantitization = quanta := by
  have hpos : 0 < quantitization.toInt := Int.lt_of_le_of_lt hnonneg hlt
  have hback : convertToDeg quanta quantitization / degreesInCircle * quantitization.toInt =
      (quanta.toInt : ℚ) := by
    have hne : (quantitization.toInt : ℚ) ≠ 0 := by exact_mod_cast Int.ne_of_gt hpos
    rw [convertToDeg, degreesInCircle]
    field_simp
  have hword : |(quanta.toInt : ℚ)| < 2 ^ 31 := by
    have hint := quanta.toInt_lt
    rw [abs_of_nonneg (by exact_mod_cast hnonneg)]
    exact_mod_cast hint
  apply Int32.toInt_inj.mp
  rw [convertDegToQuantitized_toInt _ hpos (by rwa [hback]), hback, truncate_intCast,
    Int.emod_eq_of_lt hnonneg hlt]

theorem getBitPosition_two_pow {k : Nat} (h : k < 32) :
    getBitPosition (Int32.ofNat (2 ^ k)) = Int32.ofNat k := by
  have hall : ∀ k : Fin 32, getBitPosition (Int32.ofNat (2 ^ k.val)) = Int32.ofNat k := by decide
  exact hall ⟨k, h⟩

end Utils
end SocketCPlusPlus.Network
