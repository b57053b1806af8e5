import Mathlib.Algebra.Order.Ring.Nat

/-! Streams of numbers of one width read as bits, most significant bits first, and as numbers of
another width. A number that is not there takes with it whatever needs one of its bits. -/
namespace SocketCPlusPlus.Foundation

/-- Bit b of a stream of w-bit numbers. -/
def bitAt (w : Nat) (values : Nat → Option Nat) (b : Nat) : Option Nat :=
  (values (b / w)).map fun value => value / 2 ^ (w - 1 - b % w) % 2

/-- The number that n bits from a place on make. -/
def collect (bits : Nat → Option Nat) (start : Nat) : Nat → Option Nat
  | 0 => some 0
  | n+1 => do
      let high ← collect bits start n
      let bit ← bits (start + n)
      some (2 * high + bit)

/-- The k-th v-bit number of a stream of w-bit numbers. -/
def regroup (v w : Nat) (values : Nat → Option Nat) (k : Nat) : Option Nat :=
  collect (bitAt w values) (k * v) v

section Collect
variable {bits bits' : Nat → Option Nat} {start start' n : Nat}

theorem collect_congr (h : ∀ j < n, bits (start + j) = bits' (start' + j)) :
    collect bits start n = collect bits' start' n := by
  induction n with
  | zero => rfl
  | succ n ih =>
    rw [collect, collect, ih fun j hj => h j (Nat.lt_succ_of_lt hj), h n (Nat.lt_succ_self n)]

theorem collect_none {j : Nat} (hj : j < n) (h : bits (start + j) = none) :
    collect bits start n = none := by
  induction n with
  | zero => exact absurd hj (Nat.not_lt_zero j)
  | succ n ih =>
    rw [collect]
    rcases Nat.lt_succ_iff_lt_or_eq.mp hj with hlt | rfl
    · rw [ih hlt]
      rfl
    · rw [h]
      cases collect bits start j <;> rfl

theorem collect_eq {x : Nat} (hx : x < 2 ^ n)
    (h : ∀ j < n, bits (start + j) = some (x / 2 ^ (n - 1 - j) % 2)) :
    collect bits start n = some x := by
  induction n generalizing x with
  | zero =>
    rw [Nat.pow_zero, Nat.lt_one_iff] at hx
    rw [hx]
    rfl
  | succ n ih =>
    have hhigh : collect bits start n = some (x / 2) := by
      refine ih (by rw [Nat.pow_succ] at hx; omega) fun j hj => ?_
      rw [h j (Nat.lt_succ_of_lt hj), Nat.div_div_eq_div_mul, ← Nat.pow_succ',
        show n + 1 - 1 - j = (n - 1 - j).succ by omega]
    have hlow := h n (Nat.lt_succ_self n)
    rw [Nat.add_sub_cancel, Nat.sub_self, Nat.pow_zero, Nat.div_one] at hlow
    rw [collect, hhigh, hlow]
    exact congrArg some (by omega)

theorem collect_bits {x : Nat} (hbits : ∀ b y, bits b = some y → y < 2)
    (h : collect bits start n = some x) :
    x < 2 ^ n ∧ ∀ j < n, bits (start + j) = some (x / 2 ^ (n - 1 - j) % 2) := by
  induction n generalizing x with
  | zero =>
    obtain rfl := Option.some.inj h
    exact ⟨Nat.one_pos, fun j hj => absurd hj (Nat.not_lt_zero j)⟩
  | succ n ih =>
    obtain ⟨high, hhigh, hrest⟩ := Option.bind_eq_some_iff.mp h
    obtain ⟨bit, hbit, hx⟩ := Option.bind_eq_some_iff.mp hrest
    obtain rfl := Option.some.inj hx
    obtain ⟨hlt, hfront⟩ := ih hhigh
    have hbit2 := hbits _ _ hbit
    refine ⟨by rw [Nat.pow_succ]; omega, fun j hj => ?_⟩
    rcases Nat.lt_succ_iff_lt_or_eq.mp hj with hj | rfl
    · rw [hfront j hj, show n + 1 - 1 - j = (n - 1 - j).succ by omega, Nat.pow_succ',
        ← Nat.div_div_eq_div_mul, show (2 * high + bit) / 2 = high by omega]
    · rw [hbit, Nat.add_sub_cancel, Nat.sub_self, Nat.pow_zero, Nat.div_one]
      exact congrArg some (by omega)

theorem collect_isSome (h : ∀ j < n, (bits (start + j)).isSome) :
    (collect bits start n).isSome := by
  induction n with
  | zero => rfl
  | succ n ih =>
    obtain ⟨high, hhigh⟩ := Option.isSome_iff_exists.mp (ih fun j hj => h j (Nat.lt_succ_of_lt hj))
    obtain ⟨bit, hbit⟩ := Option.isSome_iff_exists.mp (h n (Nat.lt_succ_self n))
    rw [collect, hhigh, hbit]
    rfl

end Collect

section Regroup
variable {v w : Nat} {values values' : Nat → Option Nat} {k : Nat}

theorem bitAt_lt {b y : Nat} (h : bitAt w values b = some y) : y < 2 := by
  obtain ⟨value, -, rfl⟩ := Option.map_eq_some_iff.mp h
  exact Nat.mod_lt _ Nat.two_pos

theorem bitAt_value {j : Nat} (hj : j < v) :
    bitAt v values (k * v + j) = (values k).map fun value => value / 2 ^ (v - 1 - j) % 2 := by
  rw [bitAt, Nat.mul_comm, Nat.mul_add_div (Nat.zero_lt_of_lt hj), Nat.div_eq_of_lt hj,
    Nat.mul_add_mod, Nat.mod_eq_of_lt hj, Nat.add_zero]

theorem regroup_eq {x : Nat} (hx : x < 2 ^ v) (hvalue : values' k = some x)
    (h : ∀ j < v, bitAt w values (k * v + j) = bitAt v values' (k * v + j)) :
    regroup v w values k = some x := by
  refine collect_eq hx fun j hj => ?_
  rw [h j hj, bitAt_value hj, hvalue]
  rfl

theorem bitAt_regroup (hv : 0 < v) {b : Nat} (h : (regroup v w values (b / v)).isSome) :
    bitAt v (regroup v w values) b = bitAt w values b := by
  obtain ⟨x, hx⟩ := Option.isSome_iff_exists.mp h
  have hbit := (collect_bits (fun _ _ => bitAt_lt) hx).2 (b % v) (Nat.mod_lt b hv)
  have hplace : b / v * v + b % v = b := by
    rw [Nat.mul_comm]
    exact Nat.div_add_mod b v
  rw [hplace] at hbit
  rw [hbit, bitAt, hx]
  rfl

theorem regroup_lt {x : Nat} (h : regroup v w values k = some x) : x < 2 ^ v :=
  (collect_bits (fun _ _ => bitAt_lt) h).1

theorem regroup_none {j : Nat} (hj : j < v) (h : values ((k * v + j) / w) = none) :
    regroup v w values k = none :=
  collect_none hj (by rw [bitAt, h]; rfl)

theorem regroup_isSome (h : ∀ i, (values i).isSome) : (regroup v w values k).isSome :=
  collect_isSome fun j _ => by rw [bitAt, Option.isSome_map]; exact h _

theorem regroup_congr {k' : Nat}
    (h : ∀ j < v, bitAt w values (k * v + j) = bitAt w values' (k' * v + j)) :
    regroup v w values k = regroup v w values' k' :=
  collect_congr h

end Regroup
end SocketCPlusPlus.Foundation
