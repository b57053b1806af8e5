import SocketCPlusPlus.Foundation.Store

/-! Programs that read memory cells one address at a time, with their result and
their footprint. -/
namespace SocketCPlusPlus.Foundation

/-- A program over read-only memory; each continuation gets the cell's content. -/
inductive Reading (β α : Type) where
  | done : α → Reading β α
  | cell : Nat → (β → Reading β α) → Reading β α

namespace Reading
variable {β α γ : Type}

protected def bind : Reading β α → (α → Reading β γ) → Reading β γ
  | .done a, f => f a
  | .cell i k, f => .cell i (fun b => (k b).bind f)

instance : Monad (Reading β) where
  pure := .done
  bind := Reading.bind

def peek (i : Nat) : Reading β β := .cell i .done

/-- Read a block of n cells from an address on. -/
def peekBlock (a : Nat) : Nat → Reading β (List β)
  | 0 => pure []
  | n+1 => do
      let b ← peek a
      let rest ← peekBlock (a+1) n
      pure (b :: rest)

def run (m : Store β) : Reading β α → α
  | .done a => a
  | .cell i k => (k (m i)).run m

/-- The addresses a run reads, in order. -/
def touched (m : Store β) : Reading β α → List Nat
  | .done _ => []
  | .cell i k => i :: (k (m i)).touched m

private theorem reading_map_id (p : Reading β α) : p.bind .done = p := by
  induction p with
  | done a => rfl
  | cell i k ih => simp only [Reading.bind, ih]

private theorem reading_assoc {δ : Type} (p : Reading β α) (f : α → Reading β γ)
    (g : γ → Reading β δ) : (p.bind f).bind g = p.bind (fun a => (f a).bind g) := by
  induction p with
  | done a => rfl
  | cell i k ih => simp only [Reading.bind, ih]

instance : LawfulMonad (Reading β) :=
  LawfulMonad.mk' (Reading β) (fun p => reading_map_id p) (fun _ _ => rfl)
    (fun p f g => reading_assoc p f g)

@[simp] theorem run_pure (m : Store β) (a : α) : run m (pure a : Reading β α) = a := rfl

@[simp] theorem run_bind (m : Store β) (p : Reading β α) (f : α → Reading β γ) :
    run m (p >>= f) = run m (f (run m p)) := by
  induction p with
  | done a => rfl
  | cell i k ih => exact ih (m i)

@[simp] theorem run_map (m : Store β) (p : Reading β α) (f : α → γ) :
    run m (f <$> p) = f (run m p) := by
  rw [← bind_pure_comp, run_bind, run_pure]

@[simp] theorem run_peek (m : Store β) (i : Nat) : run m (peek i) = m i := rfl

@[simp] theorem run_peekBlock (m : Store β) (a n : Nat) :
    run m (peekBlock a n) = m.load a n := by
  induction n generalizing a with
  | zero => rfl
  | succ n ih => simp [peekBlock, Store.load, ih]

@[simp] theorem touched_pure (m : Store β) (a : α) :
    touched m (pure a : Reading β α) = [] := rfl

@[simp] theorem touched_bind (m : Store β) (p : Reading β α) (f : α → Reading β γ) :
    touched m (p >>= f) = touched m p ++ touched m (f (run m p)) := by
  induction p with
  | done a => rfl
  | cell i k ih => exact congrArg (i :: ·) (ih (m i))

@[simp] theorem touched_map (m : Store β) (p : Reading β α) (f : α → γ) :
    touched m (f <$> p) = touched m p := by
  rw [← bind_pure_comp, touched_bind, touched_pure, List.append_nil]

@[simp] theorem touched_peek (m : Store β) (i : Nat) : touched m (peek i : Reading β β) = [i] := rfl

@[simp] theorem touched_peekBlock (m : Store β) (a n : Nat) :
    touched m (peekBlock a n) = List.range' a n := by
  induction n generalizing a with
  | zero => rfl
  | succ n ih => simp [peekBlock, ih, List.range'_succ]

end Reading
end SocketCPlusPlus.Foundation
