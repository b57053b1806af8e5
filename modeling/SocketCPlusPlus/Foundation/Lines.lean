import Mathlib.Data.List.Basic

/-! Streams of lines, each ended by a separator, and a buffer in which they arrive in pieces. -/
namespace SocketCPlusPlus.Foundation
namespace Lines
variable {α : Type} [DecidableEq α] {separator : α} {buffer : List α}

/-- Lines one behind the other, each with its separator. -/
def ended (separator : α) (lines : List (List α)) : List α :=
  lines.flatMap (· ++ [separator])

/-- How far the first line of a buffer goes, its separator included. -/
def firstLength (separator : α) (buffer : List α) : Nat := buffer.idxOf separator + 1

theorem firstLength_split (h : separator ∈ buffer) :
    buffer = buffer.take (firstLength separator buffer - 1) ++
      separator :: buffer.drop (firstLength separator buffer) := by
  have hlt : buffer.idxOf separator < buffer.length := List.idxOf_lt_length_iff.mpr h
  have hcell : buffer[buffer.idxOf separator] = separator := List.getElem_idxOf hlt
  have hdrop := List.drop_eq_getElem_cons hlt
  rw [hcell] at hdrop
  rw [firstLength, Nat.add_sub_cancel, ← hdrop, List.take_append_drop]

theorem not_mem_first (separator : α) (buffer : List α) :
    separator ∉ buffer.take (firstLength separator buffer - 1) := by
  rw [firstLength, Nat.add_sub_cancel]
  induction buffer with
  | nil => exact List.not_mem_nil
  | cons x buffer ih =>
    by_cases hx : x = separator
    · rw [hx, List.idxOf_cons_self, List.take_zero]
      exact List.not_mem_nil
    · rw [List.idxOf_cons_ne _ hx, List.take_succ_cons, List.mem_cons, not_or]
      exact ⟨Ne.symm hx, ih⟩

omit [DecidableEq α] in
theorem ended_snoc (separator : α) (lines : List (List α)) (line : List α) :
    ended separator (lines ++ [line]) = ended separator lines ++ (line ++ [separator]) := by
  rw [ended, List.flatMap_append, List.flatMap_singleton]
  rfl

theorem splitOn_ended {lines : List (List α)} (h : ∀ line ∈ lines, separator ∉ line)
    (rest : List α) :
    (ended separator lines ++ rest).splitOn separator = lines ++ rest.splitOn separator := by
  induction lines with
  | nil => rfl
  | cons line lines ih =>
    rw [List.forall_mem_cons] at h
    have hcons : ended separator (line :: lines) ++ rest =
        line ++ separator :: (ended separator lines ++ rest) := by
      simp [ended]
    rw [hcons, List.splitOn_append_cons_self_of_not_mem h.1, ih h.2, List.cons_append]

end Lines
end SocketCPlusPlus.Foundation
