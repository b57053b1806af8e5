import Mathlib.Algebra.Group.Defs
import Mathlib.Data.List.Basic

/-! Sums run up term by term, in anything whose addition cancels. -/
namespace SocketCPlusPlus.Foundation
variable {M : Type} [Add M] {term term' : Nat → M} {zero : M}

def runningSum (zero : M) (term : Nat → M) (n : Nat) : M :=
  (List.range n).foldl (fun sum index => sum + term index) zero

theorem runningSum_succ (n : Nat) :
    runningSum zero term (n + 1) = runningSum zero term n + term n := by
  rw [runningSum, List.range_succ, List.foldl_append]
  rfl

theorem runningSum_eq_iff [IsCancelAdd M] {k : Nat} (hk : term k ≠ term' k)
    (hsame : ∀ j, j ≠ k → term j = term' j) (n : Nat) :
    runningSum zero term n = runningSum zero term' n ↔ n ≤ k := by
  induction n with
  | zero => exact iff_of_true rfl (Nat.zero_le k)
  | succ n ih =>
    rw [runningSum_succ, runningSum_succ]
    by_cases hn : n = k
    · have hbefore := ih.mpr (Nat.le_of_eq hn)
      refine iff_of_false (fun h => hk ?_) (by omega)
      rw [hbefore, hn] at h
      exact add_left_cancel h
    · rw [hsame n hn, add_left_inj, ih]
      omega

end SocketCPlusPlus.Foundation
