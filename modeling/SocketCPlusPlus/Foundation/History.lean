import Mathlib.Data.List.Basic

/-! Runs of a step relation, kept with their steps, and what holds of every state on the way. -/
namespace SocketCPlusPlus.Foundation

/-- A step of a run: the state it was taken in, what happened, and where it led. -/
structure Taken (σ ε : Type) where
  before : σ
  event : ε
  after : σ

/-- The runs from a state, their steps in order. -/
inductive History {σ ε : Type} (Step : σ → ε → σ → Prop) (start : σ) :
    List (Taken σ ε) → σ → Prop
  | start : History Step start [] start
  | step {taken : List (Taken σ ε)} {s s' : σ} {event : ε} :
      History Step start taken s → Step s event s' →
        History Step start (taken ++ [⟨s, event, s'⟩]) s'

namespace History
variable {σ ε : Type} {Step : σ → ε → σ → Prop} {start s : σ} {taken : List (Taken σ ε)}

private theorem forall_mem_snoc {α : Type} {p : α → Prop} (xs : List α) (x : α) :
    (∀ y ∈ xs ++ [x], p y) ↔ (∀ y ∈ xs, p y) ∧ p x := by
  rw [List.forall_mem_append, List.forall_mem_singleton]

/-- What the start has and every step keeps holds at the end. -/
theorem invariant (Inv : σ → Prop) (hstart : Inv start)
    (hstep : ∀ s event s', Inv s → Step s event s' → Inv s') (h : History Step start taken s) :
    Inv s := by
  induction h with
  | start => exact hstart
  | step _ hs ih => exact hstep _ _ _ ih hs

/-- Where each step takes from the front of a queue what leaves it and puts what enters it behind the
rest, so does the whole run. -/
theorem queued {β : Type} (Inv : σ → Prop) (content : σ → List β)
    (enters leaves : Taken σ ε → List β) (hstart : Inv start)
    (hstep : ∀ s event s', Inv s → Step s event s' →
      content s ++ enters ⟨s, event, s'⟩ = leaves ⟨s, event, s'⟩ ++ content s' ∧ Inv s')
    (h : History Step start taken s) :
    content start ++ taken.flatMap enters = taken.flatMap leaves ++ content s := by
  have hboth : content start ++ taken.flatMap enters = taken.flatMap leaves ++ content s ∧ Inv s := by
    induction h with
    | start => exact ⟨List.append_nil _, hstart⟩
    | step _ hs ih =>
      obtain ⟨hqueue, hinv⟩ := ih
      obtain ⟨hnext, hinv'⟩ := hstep _ _ _ hinv hs
      refine ⟨?_, hinv'⟩
      rw [List.flatMap_append, List.flatMap_append, List.flatMap_singleton, List.flatMap_singleton,
        ← List.append_assoc, hqueue, List.append_assoc, hnext, List.append_assoc]
  exact hboth.1

/-- Steps that meet a condition and keep an invariant are good in every run whose steps all
meet the condition. -/
theorem always (Inv : σ → Prop) (Good : σ → ε → σ → Prop) (Cond : σ → ε → Prop)
    (hstart : Inv start)
    (hstep : ∀ s event s', Inv s → Step s event s' → Cond s event → Good s event s' ∧ Inv s')
    (h : History Step start taken s) (hcond : ∀ t ∈ taken, Cond t.before t.event) :
    ∀ t ∈ taken, Good t.before t.event t.after := by
  have hboth : (∀ t ∈ taken, Good t.before t.event t.after) ∧ Inv s := by
    induction h with
    | start => exact ⟨by simp, hstart⟩
    | step _ hs ih =>
      obtain ⟨hbefore, hlast⟩ := (forall_mem_snoc _ _).mp hcond
      obtain ⟨hgood, hinv⟩ := ih hbefore
      obtain ⟨hnext, hinv'⟩ := hstep _ _ _ hinv hs hlast
      exact ⟨(forall_mem_snoc _ _).mpr ⟨hgood, hnext⟩, hinv'⟩
  exact hboth.1

/-- Where each step's condition tells exactly whether the step is good, it does so for whole
runs. The invariant is needed only as long as the steps are good. -/
theorem always_iff (Inv : σ → Prop) (Good : σ → ε → σ → Prop) (Cond : σ → ε → Prop)
    (hstart : Inv start)
    (hstep : ∀ s event s', Inv s → Step s event s' →
      (Good s event s' ↔ Cond s event) ∧ (Good s event s' → Inv s'))
    (h : History Step start taken s) :
    (∀ t ∈ taken, Good t.before t.event t.after) ↔ ∀ t ∈ taken, Cond t.before t.event := by
  have hboth : ((∀ t ∈ taken, Good t.before t.event t.after) ↔
      ∀ t ∈ taken, Cond t.before t.event) ∧
      ((∀ t ∈ taken, Good t.before t.event t.after) → Inv s) := by
    induction h with
    | start => exact ⟨iff_of_true (by simp) (by simp), fun _ => hstart⟩
    | step _ hs ih =>
      obtain ⟨hiff, hinv⟩ := ih
      rw [forall_mem_snoc, forall_mem_snoc, ← hiff]
      refine ⟨and_congr_right fun hgood => (hstep _ _ _ (hinv hgood) hs).1, ?_⟩
      rintro ⟨hgood, hlast⟩
      exact (hstep _ _ _ (hinv hgood) hs).2 hlast
  exact hboth.1

section View
variable {τ δ : Type} {Shown : τ → δ → τ → Prop}

/-- A step as a view shows it, if it does. -/
def showStep (view : σ → τ) (shows : Taken σ ε → Option δ) (t : Taken σ ε) : Option (Taken τ δ) :=
  (shows t).map fun event => ⟨view t.before, event, view t.after⟩

/-- Where a view of every step is a step of another relation, or shows nothing and changes nothing, a
run in view is a run of that relation. -/
theorem viewed {first : List (Taken τ δ)} {origin : τ} (Inv : σ → Prop) (view : σ → τ)
    (shows : Taken σ ε → Option δ) (hstart : Inv start)
    (hstep : ∀ s event s', Inv s → Step s event s' → Inv s' ∧
      (shows ⟨s, event, s'⟩ = none ∧ view s' = view s ∨
        ∃ shown, shows ⟨s, event, s'⟩ = some shown ∧ Shown (view s) shown (view s')))
    (h : History Step start taken s) (hfirst : History Shown origin first (view start)) :
    History Shown origin (first ++ taken.filterMap (showStep view shows)) (view s) := by
  have hboth : Inv s ∧
      History Shown origin (first ++ taken.filterMap (showStep view shows)) (view s) := by
    induction h with
    | start => exact ⟨hstart, by rwa [List.filterMap_nil, List.append_nil]⟩
    | step _ hs ih =>
      obtain ⟨hinv, hrun⟩ := ih
      obtain ⟨hinv', hshown⟩ := hstep _ _ _ hinv hs
      refine ⟨hinv', ?_⟩
      rw [List.filterMap_append, ← List.append_assoc]
      rcases hshown with ⟨hnone, hsame⟩ | ⟨shown, hsome, hnext⟩
      · rw [List.filterMap_cons_none (by rw [showStep, hnone]; rfl), List.filterMap_nil,
          List.append_nil, hsame]
        exact hrun
      · rw [List.filterMap_cons_some (by rw [showStep, hsome]; rfl), List.filterMap_nil]
        exact hrun.step hnext
  exact hboth.2

end View

/-- A step of a call that may leave nothing defined to go on with. -/
def PartialStep (call : σ → ε → Option σ) (s : Option σ) (event : ε) (s' : Option σ) : Prop :=
  ∃ defined, s = some defined ∧ s' = call defined event

/-- Where the event alone decides whether a call ends well, it does so for whole runs. -/
theorem always_defined_iff {call : σ → ε → Option σ} (Good : σ → Prop) (Cond : ε → Prop)
    (hcall : ∀ s event, (∃ s', call s event = some s' ∧ Good s') ↔ Cond event)
    {start s : Option σ} {taken : List (Taken (Option σ) ε)}
    (h : History (PartialStep call) start taken s) :
    (∀ t ∈ taken, ∃ s', t.after = some s' ∧ Good s') ↔ ∀ t ∈ taken, Cond t.event := by
  refine h.always_iff (fun _ => True) (fun _ _ after => ∃ s', after = some s' ∧ Good s')
    (fun _ event => Cond event) trivial ?_
  rintro before event after - ⟨defined, -, rfl⟩
  exact ⟨hcall defined event, fun _ => trivial⟩

end History
end SocketCPlusPlus.Foundation
