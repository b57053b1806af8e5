import SocketCPlusPlus.Foundation.Object
import SocketCPlusPlus.General.CircularBuffer

/-! What the ring buffer is for: a queue that drops its oldest item rather than grow past its
capacity. No caller can tell the two apart. -/
namespace SocketCPlusPlus.General
open Foundation

structure BoundedQueue (T : Type) (n : Nat) where
  items : List T
  length_le : items.length ≤ n
  capacity_pos : 0 < n

namespace BoundedQueue
variable {T : Type} {n : Nat}

def new (h : 0 < n) : BoundedQueue T n := ⟨[], Nat.zero_le n, h⟩

def put (q : BoundedQueue T n) (item : T) : BoundedQueue T n where
  items := (if q.items.length = n then q.items.tail else q.items) ++ [item]
  length_le := by
    have hle := q.length_le
    have hpos := q.capacity_pos
    split <;> simp only [List.length_append, List.length_tail, List.length_singleton] <;> omega
  capacity_pos := q.capacity_pos

def tail (q : BoundedQueue T n) : BoundedQueue T n where
  items := q.items.tail
  length_le := Nat.le_trans (List.tail_sublist _).length_le q.length_le
  capacity_pos := q.capacity_pos

def get [Inhabited T] (q : BoundedQueue T n) : T × BoundedQueue T n :=
  (q.items.headD default, q.tail)

def reset (q : BoundedQueue T n) : BoundedQueue T n := new q.capacity_pos

end BoundedQueue

/-- The calls on a buffer. What moving leaves in the slot a `get` reads is up to the item type. -/
inductive QueueCall (T : Type) where
  | put (item : T)
  | get (left : T)
  | reset

/-- What a buffer tells about its filling. -/
structure QueueView where
  size : Nat
  empty : Bool
  full : Bool
  deriving DecidableEq, Repr

section Objects
variable (T : Type) [Inhabited T] (n : Nat)

/-- `put` and `reset` yield nothing. -/
def circularBuffer : Object (QueueCall T) (Option T) QueueView where
  State := CircularBuffer T n
  call c
    | .put item => (none, c.put item)
    | .get left => ((c.getLeaving left).1, (c.getLeaving left).2)
    | .reset => (none, c.reset)
  view c := ⟨c.size, c.empty, c.full⟩

def boundedQueue : Object (QueueCall T) (Option T) QueueView where
  State := BoundedQueue T n
  call q
    | .put item => (none, q.put item)
    | .get _ => (q.get.1, q.get.2)
    | .reset => (none, q.reset)
  view q := ⟨q.items.length, q.items.isEmpty, q.items.length == n⟩

end Objects

section Refinement
variable {T : Type} {n : Nat}

/-- The buffer's queue is the list. -/
def Holds (c : CircularBuffer T n) (q : BoundedQueue T n) : Prop := c.contents = q.items

theorem Holds.of_start (memory : Store T) (h : 0 < n) : Holds (.construct memory h) (.new h) :=
  CircularBuffer.construct_contents memory h

theorem Holds.size_eq {c : CircularBuffer T n} {q : BoundedQueue T n} (h : Holds c q) :
    c.size = q.items.length := by
  rw [← c.contents_length, h]

theorem Holds.full_iff {c : CircularBuffer T n} {q : BoundedQueue T n} (h : Holds c q) :
    c.full = true ↔ q.items.length = n := by
  rw [← c.size_eq_iff_full, h.size_eq]

theorem Holds.put {c : CircularBuffer T n} {q : BoundedQueue T n} (h : Holds c q) (item : T) :
    Holds (c.put item) (q.put item) := by
  rw [Holds, c.put_contents, h]
  exact congrArg (· ++ [item]) (if_congr h.full_iff rfl rfl)

variable [Inhabited T]

theorem Holds.get {c : CircularBuffer T n} {q : BoundedQueue T n} (h : Holds c q) (left : T) :
    (c.getLeaving left).1 = q.get.1 ∧ Holds (c.getLeaving left).2 q.get.2 := by
  obtain ⟨items, hle, hpos⟩ := q
  cases items with
  | nil =>
    rw [c.getLeaving_of_empty left h]
    exact ⟨rfl, h⟩
  | cons x rest => exact c.getLeaving_of_cons left h

theorem Holds.view {c : CircularBuffer T n} {q : BoundedQueue T n} (h : Holds c q) :
    (circularBuffer T n).view c = (boundedQueue T n).view q := by
  have hempty : c.empty = q.items.isEmpty := by
    rw [Bool.eq_iff_iff, c.empty_iff_size, h.size_eq, List.length_eq_zero_iff, List.isEmpty_iff]
  have hfull : c.full = (q.items.length == n) := by
    rw [Bool.eq_iff_iff, h.full_iff, beq_iff_eq]
  change QueueView.mk _ _ _ = QueueView.mk _ _ _
  rw [h.size_eq, hempty, hfull]

theorem circularBuffer_simulates :
    Object.Simulates (circularBuffer T n) (boundedQueue T n) Holds where
  result c h := by
    cases c with
    | put item => rfl
    | get left => exact congrArg some (h.get left).1
    | reset => rfl
  next c h := by
    cases c with
    | put item => exact h.put item
    | get left => exact (h.get left).2
    | reset => exact CircularBuffer.reset_contents _
  view h := h.view

/-- Whatever the array held at first, a new buffer behaves as an empty bounded queue does under
any calls. -/
theorem circular_buffer_refines (memory : Store T) (h : 0 < n) (calls : List (QueueCall T)) :
    (circularBuffer T n).behaviour (.construct memory h) calls =
      (boundedQueue T n).behaviour (.new h) calls :=
  circularBuffer_simulates.behaviour_eq (Holds.of_start memory h) calls

/-- Capacity one: the second `put` drops the first item. -/
theorem sample_circular_buffer_refines :
    (circularBuffer Nat 1).behaviour (.construct (fun _ => 7) Nat.one_pos)
        [.put 1, .put 2, .get 0, .get 0] =
      (boundedQueue Nat 1).behaviour (.new Nat.one_pos) [.put 1, .put 2, .get 0, .get 0] :=
  circular_buffer_refines (fun _ => 7) Nat.one_pos _

end Refinement
end SocketCPlusPlus.General
