import Mathlib.Algebra.Order.Ring.Nat
import Mathlib.Data.List.Basic
import Mathlib.Tactic.Ring

/-! Fixed-width base-256 numerals in both byte orders. -/
namespace SocketCPlusPlus.Foundation

/-- The n low bytes of x, least significant first. -/
def leBytes : Nat → Nat → List UInt8
  | 0, _ => []
  | n+1, x => UInt8.ofNat x :: leBytes n (x / 256)

/-- The number a list of bytes stands for, least significant first. -/
def leValue : List UInt8 → Nat
  | [] => 0
  | b :: bs => b.toNat + 256 * leValue bs

/-- The n low bytes of x, most significant first. -/
def msbFirst : Nat → Nat → List UInt8
  | 0, _ => []
  | n+1, x => UInt8.ofNat (x / 256^n) :: msbFirst n x

@[simp] theorem leBytes_length (n x : Nat) : (leBytes n x).length = n := by
  induction n generalizing x with
  | zero => rfl
  | succ n ih => simp [leBytes, ih]

@[simp] theorem msbFirst_length (n x : Nat) : (msbFirst n x).length = n := by
  induction n with
  | zero => rfl
  | succ n ih => simp [msbFirst, ih]

theorem leValue_lt (bs : List UInt8) : leValue bs < 256 ^ bs.length := by
  induction bs with
  | nil => simp [leValue]
  | cons b bs ih =>
    have hb := b.toNat_lt
    rw [leValue, List.length_cons, Nat.pow_succ]
    omega

theorem leValue_leBytes (n x : Nat) : leValue (leBytes n x) = x % 256 ^ n := by
  induction n generalizing x with
  | zero => simp [leBytes, leValue, Nat.mod_one]
  | succ n ih =>
    rw [leBytes, leValue, ih, Nat.pow_succ, Nat.mul_comm (256 ^ n) 256, Nat.mod_mul]
    simp

theorem leBytes_leValue (bs : List UInt8) : leBytes bs.length (leValue bs) = bs := by
  induction bs with
  | nil => rfl
  | cons b bs ih =>
    have hb := b.toNat_lt
    have hd : (b.toNat + 256 * leValue bs) / 256 = leValue bs := by omega
    have hm : UInt8.ofNat (b.toNat + 256 * leValue bs) = b := by
      apply UInt8.toNat_inj.mp
      rw [UInt8.toNat_ofNat']
      omega
    rw [List.length_cons, leValue, leBytes, hd, hm, ih]

theorem leBytes_mod (n x : Nat) : leBytes n (x % 256 ^ n) = leBytes n x := by
  have h := leBytes_leValue (leBytes n x)
  rwa [leBytes_length, leValue_leBytes] at h

theorem leBytes_split (n k x y : Nat) (hx : x < 256 ^ n) :
    leBytes (n+k) (256 ^ n * y + x) = leBytes n x ++ leBytes k y := by
  induction n generalizing x with
  | zero =>
    have hz : x = 0 := by simpa using hx
    simp [hz, leBytes]
  | succ n ih =>
    have hsplit : 256 ^ (n+1) * y + x = 256 * (256 ^ n * y + x / 256) + x % 256 := by
      rw [Nat.pow_succ, Nat.mul_add, ← Nat.mul_assoc, Nat.mul_comm 256 (256 ^ n)]
      omega
    have hd : (256 ^ (n+1) * y + x) / 256 = 256 ^ n * y + x / 256 := by omega
    have hm : UInt8.ofNat (256 ^ (n+1) * y + x) = UInt8.ofNat x := by
      apply UInt8.toNat_inj.mp
      rw [UInt8.toNat_ofNat', UInt8.toNat_ofNat', hsplit]
      omega
    rw [show n + 1 + k = (n + k) + 1 by omega, leBytes, leBytes, hd, hm,
      ih _ (by rw [Nat.pow_succ] at hx; omega), List.cons_append]

theorem leBytes_snoc (n x : Nat) : leBytes (n+1) x = leBytes n x ++ [UInt8.ofNat (x / 256 ^ n)] := by
  have hs := leBytes_split n 1 (x % 256 ^ n) (x / 256 ^ n) (Nat.mod_lt _ (Nat.pow_pos (by decide)))
  rw [Nat.div_add_mod, leBytes_mod] at hs
  rw [hs]
  rfl

theorem msbFirst_eq_reverse (n x : Nat) : msbFirst n x = (leBytes n x).reverse := by
  induction n with
  | zero => rfl
  | succ n ih => rw [msbFirst, leBytes_snoc, List.reverse_append, ih]; rfl

/-- The number a list of bytes stands for, most significant first. -/
def beValue (bs : List UInt8) : Nat := leValue bs.reverse

theorem beValue_lt (bs : List UInt8) : beValue bs < 256 ^ bs.length := by
  simpa [beValue] using leValue_lt bs.reverse

theorem beValue_msbFirst (n x : Nat) : beValue (msbFirst n x) = x % 256 ^ n := by
  rw [beValue, msbFirst_eq_reverse, List.reverse_reverse, leValue_leBytes]

theorem msbFirst_beValue (bs : List UInt8) : msbFirst bs.length (beValue bs) = bs := by
  have h := leBytes_leValue bs.reverse
  rw [List.length_reverse] at h
  rw [msbFirst_eq_reverse, beValue, h, List.reverse_reverse]

theorem msbFirst_inj {n x y : Nat} (hx : x < 256 ^ n) (hy : y < 256 ^ n)
    (h : msbFirst n x = msbFirst n y) : x = y := by
  have hv := congrArg beValue h
  rwa [beValue_msbFirst, beValue_msbFirst, Nat.mod_eq_of_lt hx, Nat.mod_eq_of_lt hy] at hv

/-- The n-byte number with its bytes in the opposite order. -/
def swapBytes (n x : Nat) : Nat := leValue (msbFirst n x)

theorem swapBytes_lt (n x : Nat) : swapBytes n x < 256 ^ n := by
  simpa [swapBytes] using leValue_lt (msbFirst n x)

theorem leBytes_swapBytes (n x : Nat) : leBytes n (swapBytes n x) = msbFirst n x := by
  have h := leBytes_leValue (msbFirst n x)
  rwa [msbFirst_length] at h

theorem swapBytes_leValue (bs : List UInt8) : swapBytes bs.length (leValue bs) = beValue bs := by
  rw [swapBytes, msbFirst_eq_reverse, leBytes_leValue, beValue]

end SocketCPlusPlus.Foundation
