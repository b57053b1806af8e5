import Mathlib.Data.List.Induction
import Mathlib.Logic.Function.Iterate

/-! Tables of counters, where a key's counter is made when the key comes first and moved on each
time it comes again. -/
namespace SocketCPlusPlus.Foundation
namespace Tally
variable {K C : Type} [DecidableEq K] {first : C} {more : C → C}

def note (first : C) (more : C → C) (table : K → Option C) (k : K) : K → Option C :=
  Function.update table k (some ((table k).elim first more))

theorem note_same (table : K → Option C) (k : K) :
    note first more table k k = some ((table k).elim first more) :=
  Function.update_self ..

theorem note_ne (table : K → Option C) {k k' : K} (h : k' ≠ k) :
    note first more table k k' = table k' :=
  Function.update_of_ne h ..

/-- A counter has been moved on once for every time its key came after the first. -/
theorem notes_eq (keys : List K) (k : K) :
    keys.foldl (note first more) (fun _ => none) k =
      if keys.count k = 0 then none else some (more^[keys.count k - 1] first) := by
  induction keys using List.reverseRecOn with
  | nil => rfl
  | append_singleton keys last ih =>
    rw [List.foldl_append, List.foldl_cons, List.foldl_nil, List.count_append]
    by_cases hk : k = last
    · rw [← hk, note_same, ih, List.count_singleton_self]
      by_cases hseen : keys.count k = 0
      · rw [hseen]
        rfl
      · obtain ⟨n, hn⟩ := Nat.exists_eq_succ_of_ne_zero hseen
        rw [hn, if_neg (Nat.succ_ne_zero n), if_neg (Nat.succ_ne_zero _)]
        exact congrArg some (Function.iterate_succ_apply' more n first).symm
    · rw [note_ne _ hk, ih, List.count_singleton, beq_eq_false_iff_ne.mpr (Ne.symm hk)]
      rfl

end Tally
end SocketCPlusPlus.Foundation
