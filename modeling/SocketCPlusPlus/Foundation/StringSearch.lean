import Mathlib.Data.List.Infix
import SocketCPlusPlus.Foundation.CString

/-! What the C library's comparisons and its search for a substring find. -/
namespace SocketCPlusPlus.Foundation.CString
variable {β : Type} [OfNat β 0] [DecidableEq β]

section Comparison
variable [LT β] [DecidableLT β]

/-- The order of the first characters that differ; a string is in front of its extensions. -/
def compareChars : List β → List β → Int
  | [], [] => 0
  | [], _ :: _ => -1
  | _ :: _, [] => 1
  | c :: s, d :: t => if c = d then compareChars s t else if c < d then -1 else 1

def strcmp (s t : CString β) : Int := compareChars s.chars t.chars

/-- The comparison after both strings' characters are folded. -/
def strcasecmp (fold : β → β) (s t : CString β) : Int :=
  compareChars (s.chars.map fold) (t.chars.map fold)

omit [OfNat β 0] in
theorem compareChars_eq_zero_iff (s t : List β) : compareChars s t = 0 ↔ s = t := by
  induction s, t using compareChars.induct with
  | case1 => exact iff_of_true rfl rfl
  | case2 => exact iff_of_false (by simp [compareChars]) (List.cons_ne_nil _ _).symm
  | case3 => exact iff_of_false (by simp [compareChars]) (List.cons_ne_nil _ _)
  | case4 c s t ih => rw [compareChars, if_pos rfl, ih, List.cons.injEq, and_iff_right rfl]
  | case5 c s d t hne hlt =>
    rw [compareChars, if_neg hne, if_pos hlt]
    exact iff_of_false (by decide) fun h => hne (List.cons.inj h).1
  | case6 c s d t hne hge =>
    rw [compareChars, if_neg hne, if_neg hge]
    exact iff_of_false (by decide) fun h => hne (List.cons.inj h).1

theorem strcmp_eq_zero_iff (s t : CString β) : s.strcmp t = 0 ↔ s = t := by
  rw [strcmp, compareChars_eq_zero_iff]
  exact ⟨CString.ext, fun h => congrArg chars h⟩

end Comparison

/-- The first position from which on the string has the characters of another. -/
def strstr (s sub : CString β) : Option Nat := s.chars.tails.findIdx? (sub.chars.isPrefixOf ·)

/-- A string has the characters of another from a position on. -/
def OccursAt (s sub : CString β) (i : Nat) : Prop := i ≤ s.strlen ∧ sub.chars <+: s.chars.drop i

theorem strstr_eq_some_iff (s sub : CString β) (i : Nat) :
    s.strstr sub = some i ↔ s.OccursAt sub i ∧ ∀ j < i, ¬ s.OccursAt sub j := by
  have hpos : ∀ j, j < s.chars.tails.length ↔ j ≤ s.strlen := by
    intro j
    rw [List.length_tails, Nat.lt_succ_iff, strlen]
  rw [strstr, List.findIdx?_eq_some_iff_getElem]
  constructor
  · rintro ⟨hi, hfound, hfirst⟩
    rw [List.getElem_tails, List.isPrefixOf_iff_prefix] at hfound
    refine ⟨⟨(hpos i).mp hi, hfound⟩, ?_⟩
    rintro j hj ⟨-, hoccurs⟩
    apply hfirst j hj
    rwa [List.getElem_tails, List.isPrefixOf_iff_prefix]
  · rintro ⟨⟨hi, hfound⟩, hfirst⟩
    refine ⟨(hpos i).mpr hi, ?_, fun j hj hoccurs => ?_⟩
    · rwa [List.getElem_tails, List.isPrefixOf_iff_prefix]
    · rw [List.getElem_tails, List.isPrefixOf_iff_prefix] at hoccurs
      exact hfirst j hj ⟨hj.le.trans hi, hoccurs⟩

theorem strstr_eq_none_iff (s sub : CString β) :
    s.strstr sub = none ↔ ∀ i, ¬ s.OccursAt sub i := by
  constructor
  · rintro hnone i ⟨hi, hoccurs⟩
    rw [strstr, List.findIdx?_eq_none_iff] at hnone
    have hmem : s.chars.drop i ∈ s.chars.tails := (List.mem_tails ..).mpr (List.drop_suffix i _)
    have hfalse := hnone _ hmem
    rw [List.isPrefixOf_iff_prefix.mpr hoccurs] at hfalse
    exact Bool.true_eq_false.mp hfalse
  · intro h
    cases hfound : s.strstr sub with
    | none => rfl
    | some i => exact absurd ((strstr_eq_some_iff s sub i).mp hfound).1 (h i)

end SocketCPlusPlus.Foundation.CString
