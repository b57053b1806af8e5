import Mathlib.Data.List.Nodup
import Mathlib.Data.List.Perm.Basic
import Mathlib.Logic.Function.Basic

/-! Items of several kinds, each either free or held by someone. Taking and giving move one
item between the two sides, so both together stay the fixed stock of the kind. -/
namespace SocketCPlusPlus.Foundation

/-- The items of every kind; no item is of two kinds. -/
structure Stock (K R : Type) where
  items : K → List R
  nodup : ∀ k, (items k).Nodup
  disjoint : ∀ j k r, r ∈ items j → r ∈ items k → j = k

theorem Stock.flatMap_nodup {K R : Type} (stock : Stock K R) {kinds : List K}
    (hkinds : kinds.Nodup) : (kinds.flatMap stock.items).Nodup := by
  refine List.nodup_flatMap.mpr ⟨fun k _ => stock.nodup k, ?_⟩
  exact hkinds.imp fun hjk r hj hk => hjk (stock.disjoint _ _ r hj hk)

/-- Who has what: the free items of each kind in the order they are handed out, and the
held ones. -/
structure Ledger {K R : Type} [DecidableEq R] (stock : Stock K R) where
  free : K → List R
  held : List R
  balanced : ∀ k, (free k ++ held.filter (· ∈ stock.items k)).Perm (stock.items k)
  accounted : ∀ r ∈ held, ∃ k, r ∈ stock.items k

namespace Ledger
variable {K R : Type} [DecidableEq R] {stock : Stock K R} (l : Ledger stock)

/-- The items of a kind that are out. -/
def outstanding (k : K) : List R := l.held.filter (· ∈ stock.items k)

/-- Nobody holds anything. -/
def full (stock : Stock K R) : Ledger stock where
  free := stock.items
  held := []
  balanced k := by simp
  accounted := by simp

theorem nodup (k : K) : (l.free k ++ l.outstanding k).Nodup :=
  (l.balanced k).nodup_iff.mpr (stock.nodup k)

theorem length_eq (k : K) :
    (l.free k).length + (l.outstanding k).length = (stock.items k).length := by
  rw [← List.length_append]
  exact (l.balanced k).length_eq

theorem mem_items {k : K} {r : R} (h : r ∈ l.free k ++ l.outstanding k) : r ∈ stock.items k :=
  (l.balanced k).mem_iff.mp h

theorem free_mem {k : K} {r : R} (h : r ∈ l.free k) : r ∈ stock.items k :=
  l.mem_items (List.mem_append_left _ h)

theorem mem_outstanding {k : K} {r : R} :
    r ∈ l.outstanding k ↔ r ∈ l.held ∧ r ∈ stock.items k := by
  simp [outstanding]

theorem held_nodup : l.held.Nodup := by
  rw [List.nodup_iff_count_le_one]
  intro r
  by_cases hr : r ∈ l.held
  · obtain ⟨k, hk⟩ := l.accounted r hr
    have hn := List.nodup_iff_count_le_one.mp (l.nodup k).of_append_right r
    rwa [outstanding, List.count_filter (by simpa using hk)] at hn
  · rw [List.count_eq_zero_of_not_mem hr]
    exact Nat.zero_le 1

theorem free_not_held {k : K} {r : R} (h : r ∈ l.free k) : r ∉ l.held := by
  intro hh
  have hout := l.mem_outstanding.mpr ⟨hh, l.free_mem h⟩
  exact (List.disjoint_of_nodup_append (l.nodup k)) h hout

theorem room {k : K} {r : R} (hh : r ∈ l.held) (hk : r ∈ stock.items k) :
    (l.free k).length < (stock.items k).length := by
  have h := l.length_eq k
  have hpos := List.length_pos_of_mem (l.mem_outstanding.mpr ⟨hh, hk⟩)
  omega

private theorem filter_snoc_of_not_mem {held : List R} {r : R} {items : List R} (h : r ∉ items) :
    (held ++ [r]).filter (· ∈ items) = held.filter (· ∈ items) := by
  simp [List.filter_append, h]

private theorem filter_erase_of_not_mem {held : List R} {r : R} {items : List R} (h : r ∉ items) :
    (held.erase r).filter (· ∈ items) = held.filter (· ∈ items) := by
  rw [← List.erase_filter, List.erase_of_not_mem]
  simp [h]

theorem whole {kinds : List K} (hkinds : kinds.Nodup)
    (hall : ∀ k, ∀ r ∈ stock.items k, k ∈ kinds) :
    (kinds.flatMap l.free ++ l.held).Perm (kinds.flatMap stock.items) := by
  have hfree : (kinds.flatMap l.free).Nodup := by
    refine List.nodup_flatMap.mpr ⟨fun k _ => (l.nodup k).of_append_left, ?_⟩
    exact hkinds.imp fun hjk r hj hk => hjk (stock.disjoint _ _ r (l.free_mem hj) (l.free_mem hk))
  have hboth : (kinds.flatMap l.free ++ l.held).Nodup := by
    refine hfree.append l.held_nodup fun r hr hh => ?_
    obtain ⟨k, -, hk⟩ := List.mem_flatMap.mp hr
    exact l.free_not_held hk hh
  rw [List.perm_ext_iff_of_nodup hboth (stock.flatMap_nodup hkinds)]
  intro r
  rw [List.mem_append, List.mem_flatMap, List.mem_flatMap]
  constructor
  · rintro (⟨k, hkind, hk⟩ | hh)
    · exact ⟨k, hkind, l.free_mem hk⟩
    · obtain ⟨k, hk⟩ := l.accounted r hh
      exact ⟨k, hall k r hk, hk⟩
  · rintro ⟨k, hkind, hk⟩
    rcases List.mem_append.mp ((l.balanced k).mem_iff.mpr hk) with hfree | hout
    · exact Or.inl ⟨k, hkind, hfree⟩
    · exact Or.inr (l.mem_outstanding.mp hout).1

section Moves
variable [DecidableEq K]

/-- Hand out the first free item of a kind. -/
def take {k : K} {r : R} {rest : List R} (h : l.free k = r :: rest) : Ledger stock where
  free := Function.update l.free k rest
  held := l.held ++ [r]
  balanced j := by
    have hb := l.balanced j
    have hr : r ∈ stock.items k := l.free_mem (by rw [h]; exact List.mem_cons_self)
    by_cases hj : j = k
    · subst hj
      rw [h] at hb
      rw [Function.update_self, List.filter_append]
      simp only [List.filter_cons, hr, decide_true, if_true, List.filter_nil]
      rw [← List.append_assoc]
      exact (List.perm_append_singleton r _).trans hb
    · have hnot : r ∉ stock.items j := fun hm => hj (stock.disjoint j k r hm hr)
      rwa [Function.update_of_ne hj, filter_snoc_of_not_mem hnot]
  accounted s hs := by
    rcases List.mem_append.mp hs with hs | hs
    · exact l.accounted s hs
    · cases List.mem_singleton.mp hs
      exact ⟨k, l.free_mem (by rw [h]; exact List.mem_cons_self)⟩

/-- Put a held item of a kind behind the free ones. -/
def give {k : K} {r : R} (hh : r ∈ l.held) (hk : r ∈ stock.items k) : Ledger stock where
  free := Function.update l.free k (l.free k ++ [r])
  held := l.held.erase r
  balanced j := by
    have hb := l.balanced j
    by_cases hj : j = k
    · subst hj
      have hout := List.perm_cons_erase (l.mem_outstanding.mpr ⟨hh, hk⟩)
      rw [Function.update_self, ← List.erase_filter, List.append_assoc, List.singleton_append]
      exact (hout.symm.append_left _).trans hb
    · have hnot : r ∉ stock.items j := fun hm => hj (stock.disjoint j k r hm hk)
      rwa [Function.update_of_ne hj, filter_erase_of_not_mem hnot]
  accounted s hs := l.accounted s (List.mem_of_mem_erase hs)

variable {j k : K} {r : R} {rest : List R}

@[simp] theorem take_free_self (h : l.free k = r :: rest) : (l.take h).free k = rest := by
  simp only [take, Function.update_self]

theorem take_free_ne (h : l.free k = r :: rest) (hj : j ≠ k) : (l.take h).free j = l.free j := by
  simp only [take, Function.update_of_ne hj]

@[simp] theorem take_held (h : l.free k = r :: rest) : (l.take h).held = l.held ++ [r] := rfl

@[simp] theorem give_free_self (hh : r ∈ l.held) (hk : r ∈ stock.items k) :
    (l.give hh hk).free k = l.free k ++ [r] := by
  simp only [give, Function.update_self]

theorem give_free_ne (hh : r ∈ l.held) (hk : r ∈ stock.items k) (hj : j ≠ k) :
    (l.give hh hk).free j = l.free j := by
  simp only [give, Function.update_of_ne hj]

@[simp] theorem give_held (hh : r ∈ l.held) (hk : r ∈ stock.items k) :
    (l.give hh hk).held = l.held.erase r := rfl

end Moves
end Ledger
end SocketCPlusPlus.Foundation
