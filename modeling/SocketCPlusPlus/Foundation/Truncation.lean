import Mathlib.Algebra.Order.Floor.Ring
import Mathlib.Tactic.Linarith

/-! Truncation toward zero, as a conversion to an integer type does it. -/
namespace SocketCPlusPlus.Foundation
variable {K : Type} [Field K] [LinearOrder K] [FloorRing K]

def truncate (q : K) : Int := if q < 0 then ⌈q⌉ else ⌊q⌋

theorem truncate_nonneg {q : K} (h : 0 ≤ q) : truncate q = ⌊q⌋ := if_neg (not_lt.mpr h)

theorem truncate_neg {q : K} (h : q < 0) : truncate q = ⌈q⌉ := if_pos h

variable [IsStrictOrderedRing K]

theorem truncate_nonneg_iff {q : K} : 0 ≤ truncate q ↔ -1 < q := by
  rcases lt_or_ge q 0 with h | h
  · have hstep : 0 ≤ ⌈q⌉ ↔ -1 < ⌈q⌉ := by omega
    rw [truncate_neg h, hstep, Int.lt_ceil, Int.cast_neg, Int.cast_one]
  · rw [truncate_nonneg h]
    exact iff_of_true (Int.floor_nonneg.mpr h) (by linarith)

@[simp] theorem truncate_intCast (n : Int) : truncate (n : K) = n := by
  rw [truncate, Int.ceil_intCast, Int.floor_intCast, ite_self]

theorem abs_truncate_sub_lt (q : K) : |(truncate q : K) - q| < 1 := by
  rw [abs_lt]
  rcases lt_or_ge q 0 with h | h
  · rw [truncate_neg h]
    have hle := Int.le_ceil q
    have hlt := Int.ceil_lt_add_one q
    constructor <;> linarith
  · rw [truncate_nonneg h]
    have hle := Int.floor_le q
    have hlt := Int.lt_floor_add_one q
    constructor <;> linarith

theorem abs_truncate_le (q : K) : |(truncate q : K)| ≤ |q| := by
  rcases lt_or_ge q 0 with h | h
  · have hneg : (⌈q⌉ : K) ≤ 0 := by exact_mod_cast Int.ceil_nonpos.mpr h.le
    rw [truncate_neg h, abs_of_nonpos hneg, abs_of_neg h]
    exact neg_le_neg (Int.le_ceil q)
  · have hpos : (0 : K) ≤ ⌊q⌋ := by exact_mod_cast Int.floor_nonneg.mpr h
    rw [truncate_nonneg h, abs_of_nonneg hpos, abs_of_nonneg h]
    exact Int.floor_le q

end SocketCPlusPlus.Foundation
