import Mathlib.Data.List.Nodup
import Mathlib.Data.List.Perm.Basic
import Mathlib.Logic.Function.Basic

/-! Items that lie in places or are held, none of them twice. -/
namespace SocketCPlusPlus.Foundation
variable {K R : Type}

/-- No item is in two places, in one place twice, or in a place and held. -/
structure Exclusive (places : K → List R) (held : List R) : Prop where
  single : ∀ k, (places k ++ held).Nodup
  apart : ∀ j k, j ≠ k → List.Disjoint (places j) (places k)

namespace Exclusive
variable {places : K → List R} {held held' items : List R}

theorem held_nodup (h : Exclusive places held) (k : K) : held.Nodup := (h.single k).of_append_right

theorem empty (h : held.Nodup) : Exclusive (fun _ : K => ([] : List R)) held where
  single _ := h
  apart _ _ _ := List.disjoint_nil_left _

variable [DecidableEq K]

/-- Items change hands between one place and the holder; some may be lost on the way. -/
theorem move (h : Exclusive places held) (k : K)
    (hmove : (items ++ held').Subperm (places k ++ held)) :
    Exclusive (Function.update places k items) held' := by
  obtain ⟨moved, hperm, hsub⟩ := hmove
  have hnodup : (items ++ held').Nodup := hperm.nodup_iff.mp ((h.single k).sublist hsub)
  have hmem : ∀ r ∈ items ++ held', r ∈ places k ∨ r ∈ held := fun r hr =>
    List.mem_append.mp (hsub.subset (hperm.mem_iff.mpr hr))
  -- what was moved is in no other place
  have hother : ∀ j ≠ k, ∀ r ∈ items ++ held', r ∉ places j := by
    intro j hj r hr hin
    rcases hmem r hr with hold | hold
    · exact h.apart j k hj hin hold
    · exact List.disjoint_of_nodup_append (h.single j) hin hold
  constructor
  · intro j
    by_cases hj : j = k
    · rw [hj, Function.update_self]
      exact hnodup
    · rw [Function.update_of_ne hj]
      exact (h.single j).of_append_left.append hnodup.of_append_right fun r hin hr =>
        hother j hj r (List.mem_append_right _ hr) hin
  · intro i j hij r hi hj
    by_cases hik : i = k
    · rw [hik, Function.update_self] at hi
      rw [Function.update_of_ne fun hjk => hij (hik.trans hjk.symm)] at hj
      exact hother j (fun hjk => hij (hik.trans hjk.symm)) r (List.mem_append_left _ hi) hj
    · rw [Function.update_of_ne hik] at hi
      by_cases hjk : j = k
      · rw [hjk, Function.update_self] at hj
        exact hother i hik r (List.mem_append_left _ hj) hi
      · rw [Function.update_of_ne hjk] at hj
        exact h.apart i j hij hi hj

theorem stock (h : Exclusive places held) {k : K} (hnone : places k = []) (hnodup : items.Nodup)
    (hnew : ∀ r ∈ items, r ∉ held ∧ ∀ j, r ∉ places j) :
    Exclusive (Function.update places k items) held := by
  have hwith : Exclusive places (items ++ held) := by
    refine ⟨fun j => ?_, h.apart⟩
    rw [← List.append_assoc]
    refine ((h.single j).of_append_left.append hnodup ?_).append (h.held_nodup j) ?_
    · exact fun r hin hr => (hnew r hr).2 j hin
    · intro r hr hheld
      rcases List.mem_append.mp hr with hr | hr
      · exact List.disjoint_of_nodup_append (h.single j) hr hheld
      · exact (hnew r hr).1 hheld
  apply hwith.move
  rw [hnone, List.nil_append]

end Exclusive

/-- Of places that are all different one has its part of the items, and filling it anew changes only
that part. -/
theorem flatMap_update [DecidableEq K] {keys : List K} (hkeys : keys.Nodup) {k : K} (hk : k ∈ keys)
    (places : K → List R) : ∃ others : List R,
      (keys.flatMap places).Perm (places k ++ others) ∧
      ∀ items, (keys.flatMap (Function.update places k items)).Perm (items ++ others) := by
  have hfirst := List.perm_cons_erase hk
  refine ⟨(keys.erase k).flatMap places, hfirst.flatMap_right places, fun items => ?_⟩
  have hrest : (keys.erase k).flatMap (Function.update places k items) =
      (keys.erase k).flatMap places := by
    apply List.flatMap_congr
    intro j hj
    have hne : j ≠ k := fun he => hkeys.not_mem_erase (he ▸ hj)
    exact Function.update_of_ne hne ..
  refine (hfirst.flatMap_right _).trans ?_
  rw [List.flatMap_cons, Function.update_self, hrest]

end SocketCPlusPlus.Foundation
