import Mathlib.Logic.Basic
import Mathlib.Logic.Nontrivial.Basic
import Mathlib.Data.List.Basic

/-! Flat memory as a total function of the address, with block stores and loads.
An array is a range of addresses; what lies outside it is ordinary, arbitrary memory. -/
namespace SocketCPlusPlus.Foundation

abbrev Store (β : Type) := Nat → β

namespace Store
variable {β : Type}

/-- Write a block of cells from an address on. -/
def store (m : Store β) (a : Nat) (bs : List β) : Store β :=
  fun i => if a ≤ i then (bs[i - a]?).getD (m i) else m i

/-- Read a block of n cells from an address on. -/
def load (m : Store β) (a : Nat) : Nat → List β
  | 0 => []
  | n+1 => m a :: load m (a+1) n

theorem store_apply (m : Store β) (a : Nat) (bs : List β) (i : Nat) :
    store m a bs i = if a ≤ i then (bs[i - a]?).getD (m i) else m i := rfl

theorem store_before (m : Store β) {a i : Nat} (bs : List β) (h : i < a) :
    store m a bs i = m i := by
  simp [store, Nat.not_le.mpr h]

theorem store_after (m : Store β) {a i : Nat} (bs : List β) (h : a + bs.length ≤ i) :
    store m a bs i = m i := by
  have hn : bs[i - a]? = none := List.getElem?_eq_none (by omega)
  simp [store, hn]

/-- Frame rule: a block store changes nothing outside its range. -/
theorem store_frame (m : Store β) {a i : Nat} (bs : List β) (h : i < a ∨ a + bs.length ≤ i) :
    store m a bs i = m i :=
  h.elim (store_before m bs) (store_after m bs)

theorem store_get (m : Store β) (a : Nat) (bs : List β) {k : Nat} (h : k < bs.length) :
    store m a bs (a+k) = bs[k] := by
  simp [store, List.getElem?_eq_getElem h]

@[simp] theorem store_nil (m : Store β) (a : Nat) : store m a [] = m := by
  funext i
  simp [store]

theorem store_append (m : Store β) (a : Nat) (xs ys : List β) :
    store m a (xs ++ ys) = store (store m a xs) (a + xs.length) ys := by
  funext i
  by_cases h₁ : i < a
  · rw [store_before _ _ h₁, store_before _ _ (by omega), store_before _ _ h₁]
  by_cases h₂ : i < a + xs.length
  · rw [store_before _ ys h₂]
    simp [store, List.getElem?_append, show i - a < xs.length by omega]
  · have he : i - a - xs.length = i - (a + xs.length) := by omega
    have hx := store_after m xs (Nat.le_of_not_lt h₂)
    simp [store_apply, List.getElem?_append, show ¬ i - a < xs.length by omega, he,
      show a ≤ i by omega, show a + xs.length ≤ i by omega]

/-- A block store hides an earlier one that it covers. -/
theorem store_over (m : Store β) (a : Nat) {xs ys : List β} (h : xs.length ≤ ys.length) :
    store (store m a xs) a ys = store m a ys := by
  funext i
  by_cases hi : a ≤ i ∧ i < a + ys.length
  · obtain ⟨k, rfl⟩ := Nat.exists_eq_add_of_le hi.1
    rw [store_get _ _ _ (by omega), store_get _ _ _ (by omega)]
  · have ho : i < a ∨ a + ys.length ≤ i := by omega
    rw [store_frame _ _ ho, store_frame _ _ ho, store_frame _ _ (by omega)]

/-- The end of a stored block is patched by a block that reaches as far. -/
theorem store_patch (m : Store β) (a : Nat) (xs zs : List β) {k : Nat} (hk : k ≤ xs.length)
    (h : xs.length ≤ k + zs.length) :
    store (store m a xs) (a + k) zs = store m a (xs.take k ++ zs) := by
  have hlen : (xs.take k).length = k := List.length_take_of_le hk
  conv_lhs => rw [← List.take_append_drop k xs]
  rw [store_append, store_append, hlen, store_over]
  rw [List.length_drop]
  omega

theorem store_comm (m : Store β) {a b : Nat} (xs ys : List β) (h : a + xs.length ≤ b) :
    store (store m b ys) a xs = store (store m a xs) b ys := by
  funext i
  by_cases hi : i < b
  · rw [store_before _ ys hi]
    by_cases ha : a ≤ i ∧ i < a + xs.length
    · obtain ⟨k, rfl⟩ := Nat.exists_eq_add_of_le ha.1
      rw [store_get _ _ _ (by omega), store_get _ _ _ (by omega)]
    · have ho : i < a ∨ a + xs.length ≤ i := by omega
      rw [store_frame _ _ ho, store_frame _ _ ho, store_before _ _ hi]
  · rw [store_after _ xs (by omega)]
    simp only [store_apply, show b ≤ i by omega, if_true]
    rw [← store_apply, store_after _ xs (by omega)]

/-- A block store stays below an address for every memory exactly if its range does. -/
theorem store_within_iff [Nontrivial β] {a n : Nat} (bs : List β) (h : a ≤ n) :
    (∀ (m : Store β) (i : Nat), n ≤ i → store m a bs i = m i) ↔ a + bs.length ≤ n := by
  constructor
  · intro hsame
    by_contra hlong
    obtain ⟨k, rfl⟩ := Nat.exists_eq_add_of_le h
    have hk : k < bs.length := by omega
    obtain ⟨b, hb⟩ := exists_ne bs[k]
    have hcell := hsame (fun _ => b) (a + k) (Nat.le_refl _)
    rw [store_get _ _ _ hk] at hcell
    exact hb hcell.symm
  · intro hfit m i hi
    exact store_after m bs (by omega)

@[simp] theorem load_length (m : Store β) (a n : Nat) : (load m a n).length = n := by
  induction n generalizing a with
  | zero => rfl
  | succ n ih => simp [load, ih]

theorem load_add (m : Store β) (a n k : Nat) :
    load m a (n+k) = load m a n ++ load m (a+n) k := by
  induction n generalizing a with
  | zero => simp [load]
  | succ n ih =>
    rw [show n + 1 + k = (n + k) + 1 by omega, load, load, ih]
    simp [Nat.add_assoc, Nat.add_comm 1 n]

theorem load_congr {m m' : Store β} {a n : Nat} (h : ∀ i, a ≤ i → i < a + n → m i = m' i) :
    load m a n = load m' a n := by
  induction n generalizing a with
  | zero => rfl
  | succ n ih =>
    rw [load, load, h a (by omega) (by omega), ih (fun i h₁ h₂ => h i (by omega) (by omega))]

theorem load_get (m : Store β) (a n k : Nat) (h : k < n) :
    (load m a n)[k]? = some (m (a+k)) := by
  induction n generalizing a k with
  | zero => omega
  | succ n ih =>
    cases k with
    | zero => simp [load]
    | succ k =>
      rw [load, List.getElem?_cons_succ, ih (a+1) k (by omega)]
      congr 2
      omega

theorem mem_load {m : Store β} {a n : Nat} {b : β} : b ∈ load m a n ↔ ∃ k < n, m (a+k) = b := by
  rw [List.mem_iff_getElem?]
  constructor
  · rintro ⟨k, hk⟩
    have hlt : k < n := by
      by_contra hge
      rw [List.getElem?_eq_none (by simpa using hge)] at hk
      exact Option.some_ne_none b hk.symm
    rw [load_get _ _ _ _ hlt] at hk
    exact ⟨k, hlt, Option.some.inj hk⟩
  · rintro ⟨k, hlt, hk⟩
    exact ⟨k, by rw [load_get _ _ _ _ hlt, hk]⟩

theorem load_inj {m m' : Store β} {a b n : Nat} (h : load m a n = load m' b n) {k : Nat}
    (hk : k < n) : m (a+k) = m' (b+k) := by
  have he := congrArg (fun bs : List β => bs[k]?) h
  simpa [load_get _ _ _ _ hk] using he

@[simp] theorem load_store_same (m : Store β) (a : Nat) (bs : List β) :
    load (store m a bs) a bs.length = bs := by
  apply List.ext_getElem?
  intro k
  by_cases h : k < bs.length
  · rw [load_get _ _ _ _ h, store_get _ _ _ h, List.getElem?_eq_getElem h]
  · rw [List.getElem?_eq_none (by simp; omega), List.getElem?_eq_none (by omega)]

theorem load_store_disjoint (m : Store β) {a b n : Nat} (bs : List β)
    (h : b + n ≤ a ∨ a + bs.length ≤ b) : load (store m a bs) b n = load m b n := by
  apply load_congr
  intro i h₁ h₂
  exact store_frame m bs (by omega)

theorem load_store_front (m : Store β) (bs : List β) (n : Nat) :
    load (store m 0 bs) 0 n = (bs ++ (load m 0 n).drop bs.length).take n := by
  apply List.ext_getElem?
  intro k
  by_cases hk : k < n
  · rw [load_get _ _ _ _ hk, List.getElem?_take_of_lt hk, Nat.zero_add]
    by_cases hb : k < bs.length
    · rw [List.getElem?_append_left hb, store_apply, if_pos (Nat.zero_le k), Nat.sub_zero,
        List.getElem?_eq_getElem hb, Option.getD_some]
    · have hle := Nat.le_of_not_lt hb
      rw [List.getElem?_append_right hle, List.getElem?_drop, Nat.add_sub_cancel' hle,
        load_get _ _ _ _ hk, Nat.zero_add, store_after _ _ (by omega)]
  · rw [List.getElem?_eq_none (by rw [load_length]; omega),
      List.getElem?_eq_none (by rw [List.length_take]; omega)]

theorem load_store_prefix (m : Store β) (a : Nat) (xs ys : List β) :
    load (store m a (xs ++ ys)) a xs.length = xs := by
  rw [store_append, load_store_disjoint _ _ (Or.inl (Nat.le_refl _)), load_store_same]

end Store
end SocketCPlusPlus.Foundation
