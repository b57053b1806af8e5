import SocketCPlusPlus.NetworkUtils

/-! A float kept as a 16-bit number of quanta. The word has no sign, the assertion in front of it
lets negative values through. -/
namespace SocketCPlusPlus.Packets
open Foundation Network

structure FloatCompressed where
  value : UInt16
  deriving DecidableEq, Repr

namespace FloatCompressed

/-- What `Set` asserts of its argument. -/
def Admitted (pos : ℚ) : Prop := |pos * Settings.Float.shift| < 16537

def set (pos : ℚ) : FloatCompressed :=
  ⟨.ofInt (truncate (pos * Settings.Float.shift))⟩

def get (f : FloatCompressed) : ℚ :=
  let ret : ℚ := f.value.toNat
  ret / Settings.Float.shift

/-- The quanta of an admitted value. -/
theorem quanta_bounds {pos : ℚ} (h : Admitted pos) :
    -16537 < truncate (pos * Settings.Float.shift) ∧
      truncate (pos * Settings.Float.shift) < 16537 := by
  have hlt := (abs_truncate_le (pos * Settings.Float.shift)).trans_lt h
  rw [abs_lt] at hlt
  exact ⟨by exact_mod_cast hlt.1, by exact_mod_cast hlt.2⟩

theorem value_toNat (pos : ℚ) :
    ((set pos).value.toNat : Int) = truncate (pos * Settings.Float.shift) % 2 ^ 16 := by
  rw [set, UInt16.ofInt, UInt16.toNat_ofNat']
  omega

/-- Quanta that are not negative come back. -/
theorem get_set_of_nonneg {pos : ℚ} (h : Admitted pos)
    (hsign : 0 ≤ truncate (pos * Settings.Float.shift)) :
    (set pos).get = truncate (pos * Settings.Float.shift) / Settings.Float.shift := by
  have hvalue : ((set pos).value.toNat : Int) = truncate (pos * Settings.Float.shift) := by
    rw [value_toNat]
    exact Int.emod_eq_of_lt hsign ((quanta_bounds h).2.trans (by decide))
  have hcast : ((set pos).value.toNat : ℚ) = truncate (pos * Settings.Float.shift) := by
    exact_mod_cast hvalue
  rw [get, hcast]

/-- Negative quanta come back as if a whole word of quanta had been added. -/
theorem get_set_of_neg {pos : ℚ} (h : Admitted pos)
    (hsign : truncate (pos * Settings.Float.shift) < 0) :
    (set pos).get =
      (truncate (pos * Settings.Float.shift) + 2 ^ 16) / Settings.Float.shift := by
  have hvalue : ((set pos).value.toNat : Int) =
      truncate (pos * Settings.Float.shift) + 2 ^ 16 := by
    have hlow := (quanta_bounds h).1
    rw [value_toNat]
    omega
  have hcast : ((set pos).value.toNat : ℚ) =
      truncate (pos * Settings.Float.shift) + 2 ^ 16 := by
    exact_mod_cast hvalue
  rw [get, hcast]

/-- An admitted value comes back to within a quantum exactly if it is not a quantum or more below
zero. -/
theorem get_set_close_iff (pos : ℚ) (h : Admitted pos) :
    |(set pos).get - pos| < 1 / 512 ↔ -(1 / 512) < pos := by
  have hclose := abs_truncate_sub_lt (pos * Settings.Float.shift)
  have hsign := truncate_nonneg_iff (q := pos * Settings.Float.shift)
  have hlow : -1 < pos * Settings.Float.shift ↔ -(1 / 512) < pos := by
    rw [Settings.Float.shift]
    constructor <;> intro hpos <;> linarith
  rw [← hlow, ← hsign]
  rw [abs_lt] at hclose
  constructor
  · intro hback
    by_contra hneg
    rw [get_set_of_neg h (Int.not_le.mp hneg), abs_lt] at hback
    rw [Settings.Float.shift] at hback hclose
    linarith
  · intro hquanta
    rw [get_set_of_nonneg h hquanta, abs_lt]
    rw [Settings.Float.shift] at hclose ⊢
    constructor <;> linarith

theorem get_set_close_three :
    |(set 3).get - 3| < 1 / 512 ↔ -(1 / 512) < (3 : ℚ) :=
  get_set_close_iff 3 (by norm_num [Admitted, Settings.Float.shift])

/-- Minus one is admitted and comes back as 127. -/
theorem minus_one_lost : Admitted (-1) ∧ (set (-1)).get = 127 ∧
    ¬ |(set (-1)).get - -1| < 1 / 512 := by
  have hadmitted : Admitted (-1) := by norm_num [Admitted, Settings.Float.shift]
  have hquanta : truncate (-1 * Settings.Float.shift) = -512 := by
    have hcast : -1 * Settings.Float.shift = ((-512 : Int) : ℚ) := by
      norm_num [Settings.Float.shift]
    rw [hcast, truncate_intCast]
  have hget : (set (-1)).get = 127 := by
    rw [get_set_of_neg hadmitted (by rw [hquanta]; decide), hquanta, Settings.Float.shift]
    norm_num
  refine ⟨hadmitted, hget, ?_⟩
  rw [hget]
  norm_num

end FloatCompressed
end SocketCPlusPlus.Packets
