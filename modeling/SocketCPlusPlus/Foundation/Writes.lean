import Mathlib.Data.List.Induction

/-! What is where after a list of writes: the last one wins. -/
namespace SocketCPlusPlus.Foundation
namespace Writes
variable {K V : Type} [DecidableEq K]

/-- The last value written to a place, if any. -/
def last (writes : List (K × V)) (k : K) : Option V :=
  (writes.reverse.find? (·.1 = k)).map Prod.snd

/-- What a place holds after the writes. -/
def after (original : K → Option V) (writes : List (K × V)) (k : K) : Option V :=
  (last writes k).or (original k)

theorem last_snoc (writes : List (K × V)) (w : K × V) (k : K) :
    last (writes ++ [w]) k = if w.1 = k then some w.2 else last writes k := by
  rw [last, List.reverse_append, List.reverse_singleton, List.singleton_append, List.find?_cons]
  by_cases hk : w.1 = k
  · rw [decide_eq_true hk, if_pos hk]
    rfl
  · rw [decide_eq_false hk, if_neg hk, last]

theorem after_snoc (original : K → Option V) (writes : List (K × V)) (w : K × V) (k : K) :
    after original (writes ++ [w]) k = if w.1 = k then some w.2 else after original writes k := by
  rw [after, last_snoc]
  by_cases hk : w.1 = k
  · rw [if_pos hk, if_pos hk]
    rfl
  · rw [if_neg hk, if_neg hk, after]

/-- Each write goes to a place whose value at that time has the property. -/
def Each (P : Option V → Prop) (original : K → Option V) (writes : List (K × V)) : Prop :=
  ∀ n w, writes[n]? = some w → P (after original (writes.take n) w.1)

theorem each_snoc {P : Option V → Prop} {original : K → Option V} {writes : List (K × V)}
    {w : K × V} : Each P original (writes ++ [w]) ↔
      Each P original writes ∧ P (after original writes w.1) := by
  constructor
  · intro h
    refine ⟨fun n v hv => ?_, ?_⟩
    · have hn := (List.getElem?_eq_some_iff.mp hv).1
      have hbefore := h n v (by rw [List.getElem?_append_left hn, hv])
      rwa [List.take_append_of_le_length (Nat.le_of_lt hn)] at hbefore
    · have hlast := h writes.length w (by rw [List.getElem?_concat_length])
      rwa [List.take_left] at hlast
  · rintro ⟨hbefore, hlast⟩ n v hv
    rcases Nat.lt_or_ge n writes.length with hn | hn
    · rw [List.getElem?_append_left hn] at hv
      rw [List.take_append_of_le_length (Nat.le_of_lt hn)]
      exact hbefore n v hv
    · rw [List.getElem?_append_right hn, List.getElem?_singleton] at hv
      split at hv
      · next hend =>
        obtain rfl := Option.some.inj hv
        have hlen : n = writes.length := by omega
        rw [hlen, List.take_left]
        exact hlast
      · exact absurd hv.symm (Option.some_ne_none v)

end Writes
end SocketCPlusPlus.Foundation
