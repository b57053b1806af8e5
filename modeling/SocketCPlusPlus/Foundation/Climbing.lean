import Mathlib.Order.WellFounded

/-! Loops that climb: a round begins below a bound and ends at least a step higher, so there are
only so many of them. -/
namespace SocketCPlusPlus.Foundation
variable {σ : Type} {Round : σ → σ → Prop}

/-- So many rounds, one after another. -/
inductive Rounds (Round : σ → σ → Prop) : σ → Nat → σ → Prop
  | none (s : σ) : Rounds Round s 0 s
  | more {s s' last : σ} {n : Nat} :
      Round s s' → Rounds Round s' n last → Rounds Round s (n + 1) last

structure Climbs (Round : σ → σ → Prop) (height : σ → Nat) (step bound : Nat) : Prop where
  begins : ∀ {s s'}, Round s s' → height s < bound
  rises : ∀ {s s'}, Round s s' → height s + step ≤ height s'

namespace Climbs
variable {height : σ → Nat} {step bound : Nat}

/-- The last round begins below the bound too. -/
theorem rounds_lt (h : Climbs Round height step bound) {s last : σ} {n : Nat}
    (hrounds : Rounds Round s (n + 1) last) : height s + step * n < bound := by
  induction n generalizing s with
  | zero =>
    cases hrounds with
    | more hround _ => exact h.begins hround
  | succ n ih =>
    cases hrounds with
    | more hround hrest =>
      have hrise := h.rises hround
      have hle := ih hrest
      rw [Nat.mul_succ]
      omega

/-- From everywhere the loop comes to where there is no other round. -/
theorem ends (h : Climbs Round height step bound) (hstep : 0 < step) (s : σ) :
    ∃ n last, Rounds Round s n last ∧ ∀ s', ¬ Round last s' := by
  induction s using WellFounded.induction (measure fun s => bound - height s).wf with
  | _ s ih =>
    by_cases hmore : ∃ s', Round s s'
    · obtain ⟨s', hround⟩ := hmore
      have hbegin := h.begins hround
      have hrise := h.rises hround
      have hlower : bound - height s' < bound - height s := by omega
      obtain ⟨n, last, hrounds, hlast⟩ := ih s' hlower
      exact ⟨n + 1, last, .more hround hrounds, hlast⟩
    · exact ⟨0, s, .none s, fun s' hround => hmore ⟨s', hround⟩⟩

end Climbs
end SocketCPlusPlus.Foundation
