import Mathlib.Data.List.Basic

/-! Objects called one operation after another and seen from outside only: what each call yields
and what the object shows of itself after it. -/
namespace SocketCPlusPlus.Foundation

structure Object (Call Result View : Type) where
  State : Type
  call : State → Call → Result × State
  view : State → View

namespace Object
variable {Call Result View : Type}

/-- What a caller gets from a list of calls. -/
def trace (o : Object Call Result View) : o.State → List Call → List (Result × View)
  | _, [] => []
  | s, c :: calls => ((o.call s c).1, o.view (o.call s c).2) :: o.trace (o.call s c).2 calls

/-- Everything there is to see of an object: what it shows at first, then the calls. -/
def behaviour (o : Object Call Result View) (s : o.State) (calls : List Call) :
    View × List (Result × View) :=
  (o.view s, o.trace s calls)

/-- Related states yield and show the same, and calls keep them related. -/
structure Simulates (o o' : Object Call Result View) (Rel : o.State → o'.State → Prop) : Prop where
  result : ∀ {s s'} c, Rel s s' → (o.call s c).1 = (o'.call s' c).1
  next : ∀ {s s'} c, Rel s s' → Rel (o.call s c).2 (o'.call s' c).2
  view : ∀ {s s'}, Rel s s' → o.view s = o'.view s'

namespace Simulates
variable {o o' : Object Call Result View} {Rel : o.State → o'.State → Prop}

theorem trace_eq (h : Simulates o o' Rel) {s : o.State} {s' : o'.State} (hs : Rel s s')
    (calls : List Call) : o.trace s calls = o'.trace s' calls := by
  induction calls generalizing s s' with
  | nil => rfl
  | cons c calls ih =>
    have hnext := h.next c hs
    rw [trace, trace, h.result c hs, h.view hnext, ih hnext]

/-- No caller can tell related states apart. -/
theorem behaviour_eq (h : Simulates o o' Rel) {s : o.State} {s' : o'.State} (hs : Rel s s')
    (calls : List Call) : o.behaviour s calls = o'.behaviour s' calls := by
  rw [behaviour, behaviour, h.view hs, h.trace_eq hs]

end Simulates

/-- Every call meets a condition on the state it finds. -/
def Along (o : Object Call Result View) (Cond : o.State → Call → Prop) : o.State → List Call → Prop
  | _, [] => True
  | s, c :: calls => Cond s c ∧ o.Along Cond (o.call s c).2 calls

theorem along_and {o : Object Call Result View} {Cond Cond' : o.State → Call → Prop} (s : o.State)
    (calls : List Call) : o.Along (fun s c => Cond s c ∧ Cond' s c) s calls ↔
      o.Along Cond s calls ∧ o.Along Cond' s calls := by
  induction calls generalizing s with
  | nil => exact iff_of_true trivial ⟨trivial, trivial⟩
  | cons c calls ih =>
    rw [Along, Along, Along, ih]
    exact and_and_and_comm

/-- Where a condition tells exactly whether an object follows another one in a call, it tells
whether it does so call after call. -/
theorem trace_eq_iff (o o' : Object Call Result View) (embed : o'.State → o.State)
    {Cond : o'.State → Call → Prop} (hview : ∀ s, o.view (embed s) = o'.view s)
    (hcall : ∀ s c, (Cond s c → o.call (embed s) c = ((o'.call s c).1, embed (o'.call s c).2)) ∧
      ((o.call (embed s) c).1 = (o'.call s c).1 → Cond s c))
    (s : o'.State) (calls : List Call) :
    o.trace (embed s) calls = o'.trace s calls ↔ o'.Along Cond s calls := by
  induction calls generalizing s with
  | nil => exact iff_of_true rfl trivial
  | cons c calls ih =>
    obtain ⟨hfollows, hcond⟩ := hcall s c
    rw [trace, trace, Along, List.cons.injEq, Prod.mk.injEq]
    constructor
    · rintro ⟨⟨hresult, -⟩, hrest⟩
      have hc := hcond hresult
      rw [hfollows hc] at hrest
      exact ⟨hc, (ih _).mp hrest⟩
    · rintro ⟨hc, hrest⟩
      rw [hfollows hc]
      exact ⟨⟨rfl, hview _⟩, (ih _).mpr hrest⟩

end Object
end SocketCPlusPlus.Foundation
