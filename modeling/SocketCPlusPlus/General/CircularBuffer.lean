import Mathlib.Tactic.SplitIfs
import SocketCPlusPlus.Foundation.Store

/-! The ring buffer behind the packet pools and the bounded queue it stands for.
A full buffer and an empty one have equal indices and differ in the flag only. -/
namespace SocketCPlusPlus.General
open Foundation

/-- Slots 0 to maxSize-1 are the array. -/
structure CircularBuffer (T : Type) (maxSize : Nat) where
  buf : Store T
  head : Nat
  tail : Nat
  full : Bool
  head_lt : head < maxSize
  tail_lt : tail < maxSize
  head_eq : full = true → head = tail

namespace CircularBuffer
variable {T : Type} {n : Nat}

def new [Inhabited T] (h : 0 < n) : CircularBuffer T n where
  buf _ := default
  head := 0
  tail := 0
  full := false
  head_lt := h
  tail_lt := h
  head_eq _ := rfl

/-- A new buffer over an array that holds anything. -/
def construct (memory : Store T) (h : 0 < n) : CircularBuffer T n where
  buf := memory
  head := 0
  tail := 0
  full := false
  head_lt := h
  tail_lt := h
  head_eq _ := rfl

def empty (c : CircularBuffer T n) : Bool := !c.full && c.head == c.tail

def size (c : CircularBuffer T n) : Nat :=
  if !c.full then
    if c.head ≥ c.tail then c.head - c.tail else n + c.head - c.tail
  else n

/-- An item put into a full buffer takes the oldest item's slot. -/
def put (c : CircularBuffer T n) (item : T) : CircularBuffer T n where
  buf := c.buf.store c.head [item]
  head := (c.head + 1) % n
  tail := if c.full then (c.tail + 1) % n else c.tail
  full := (c.head + 1) % n == if c.full then (c.tail + 1) % n else c.tail
  head_lt := Nat.mod_lt _ (Nat.zero_lt_of_lt c.head_lt)
  tail_lt := by
    split
    · exact Nat.mod_lt _ (Nat.zero_lt_of_lt c.head_lt)
    · exact c.tail_lt
  head_eq h := by simpa using h

/-- The slot read is moved from; a moved-from shared pointer is null. -/
def get [Inhabited T] (c : CircularBuffer T n) : T × CircularBuffer T n :=
  if c.empty then (default, c)
  else (c.buf c.tail,
    { buf := c.buf.store c.tail [default]
      head := c.head
      tail := (c.tail + 1) % n
      full := false
      head_lt := c.head_lt
      tail_lt := Nat.mod_lt _ (Nat.zero_lt_of_lt c.head_lt)
      head_eq := nofun })

/-- The same read whatever moving leaves in the slot. -/
def getLeaving [Inhabited T] (c : CircularBuffer T n) (left : T) : T × CircularBuffer T n :=
  if c.empty then (default, c)
  else (c.buf c.tail,
    { buf := c.buf.store c.tail [left]
      head := c.head
      tail := (c.tail + 1) % n
      full := false
      head_lt := c.head_lt
      tail_lt := Nat.mod_lt _ (Nat.zero_lt_of_lt c.head_lt)
      head_eq := nofun })

theorem get_eq [Inhabited T] (c : CircularBuffer T n) : c.get = c.getLeaving default := rfl

def reset (c : CircularBuffer T n) : CircularBuffer T n :=
  { c with head := c.tail, full := false, head_lt := c.tail_lt, head_eq := nofun }

/-- The queued items, oldest first. -/
def contents (c : CircularBuffer T n) : List T :=
  (List.range c.size).map (fun i => c.buf ((c.tail + i) % n))

private theorem ring_wrap {t i : Nat} (ht : t < n) (hi : i ≤ n) :
    (t + i) % n = if t + i < n then t + i else t + i - n := by
  split
  · exact Nat.mod_eq_of_lt ‹_›
  · rw [Nat.mod_eq_sub_mod (by omega), Nat.mod_eq_of_lt (by omega)]

private theorem ring_next (t i : Nat) : ((t + 1) % n + i) % n = (t + (i + 1)) % n := by
  rw [Nat.mod_add_mod, Nat.add_assoc, Nat.add_comm 1 i]

private theorem ring_ne {t i j : Nat} (ht : t < n) (hi : i < n) (hj : j < n) (h : i ≠ j) :
    (t + i) % n ≠ (t + j) % n := by
  rw [ring_wrap ht (Nat.le_of_lt hi), ring_wrap ht (Nat.le_of_lt hj)]
  split <;> split <;> omega

private theorem ring_ne_start {t i : Nat} (ht : t < n) (hi : i + 1 < n) :
    (t + (i + 1)) % n ≠ t := by
  have h := ring_ne (j := 0) ht hi (by omega) (by omega)
  rwa [show t + 0 = t from rfl, Nat.mod_eq_of_lt ht] at h

private theorem store_one_ne (m : Store T) {a i : Nat} (x : T) (h : i ≠ a) :
    m.store a [x] i = m i := by
  apply Store.store_frame m [x]
  simp only [List.length_singleton]
  omega

private theorem store_one_same (m : Store T) (a : Nat) (x : T) : m.store a [x] a = x := by
  simp [Store.store]

theorem size_le (c : CircularBuffer T n) : c.size ≤ n := by
  have h₁ := c.head_lt
  have h₂ := c.tail_lt
  unfold size
  split
  · split <;> omega
  · exact Nat.le_refl n

theorem size_eq_iff_full (c : CircularBuffer T n) : c.size = n ↔ c.full = true := by
  have h₁ := c.head_lt
  have h₂ := c.tail_lt
  unfold size
  cases c.full
  · simp only [Bool.not_false, if_true, Bool.false_eq_true, iff_false]
    split <;> omega
  · simp

theorem not_full_of_size_lt {c : CircularBuffer T n} (h : c.size < n) : c.full = false := by
  cases hf : c.full with
  | false => rfl
  | true => exact absurd (c.size_eq_iff_full.mpr hf) (Nat.ne_of_lt h)

theorem empty_iff_size (c : CircularBuffer T n) : c.empty = true ↔ c.size = 0 := by
  have h₁ := c.head_lt
  have h₂ := c.tail_lt
  unfold empty size
  cases c.full
  · simp only [Bool.not_false, Bool.true_and, beq_iff_eq, if_true]
    split <;> omega
  · simp
    omega

/-- The write index is the queue's length past the read index. -/
theorem head_eq_tail_add_size (c : CircularBuffer T n) : c.head = (c.tail + c.size) % n := by
  have h₁ := c.head_lt
  have h₂ := c.tail_lt
  have h₃ := c.head_eq
  rw [ring_wrap h₂ c.size_le]
  unfold size
  cases hf : c.full
  · simp only [Bool.not_false, if_true]
    split <;> split <;> omega
  · have he := h₃ hf
    simp only [Bool.not_true, Bool.false_eq_true, if_false]
    split <;> omega

@[simp] theorem contents_length (c : CircularBuffer T n) : c.contents.length = c.size := by
  simp [contents]

theorem construct_contents (memory : Store T) (h : 0 < n) :
    (construct memory h : CircularBuffer T n).contents = [] := by
  simp [contents, size, construct]

theorem new_contents [Inhabited T] (h : 0 < n) : (new h : CircularBuffer T n).contents = [] :=
  construct_contents _ h

theorem reset_contents (c : CircularBuffer T n) : c.reset.contents = [] := by
  simp [contents, size, reset]

theorem put_size (c : CircularBuffer T n) (item : T) :
    (c.put item).size = if c.full then n else c.size + 1 := by
  have h₁ := c.head_lt
  have h₂ := c.tail_lt
  have hw := ring_wrap (i := 1) h₁ (by omega)
  cases hf : c.full
  · have hlt : c.size ≠ n := fun he => by simp [c.size_eq_iff_full.mp he] at hf
    simp only [size, hf, Bool.not_false, if_true] at hlt
    simp only [size, put, hf, Bool.not_false, if_true, Bool.false_eq_true, if_false]
    generalize (c.head + 1) % n = next at hw ⊢
    by_cases he : next = c.tail
    · simp only [he, beq_self_eq_true, Bool.not_true, Bool.false_eq_true, if_false]
      split_ifs at hw hlt ⊢ <;> omega
    · have hb : (next == c.tail) = false := by simpa using he
      simp only [hb, Bool.not_false, if_true]
      split_ifs at hw hlt ⊢ <;> omega
  · have he := c.head_eq hf
    simp [size, put, hf, he]

/-- A full buffer drops its oldest item to make room. -/
theorem put_contents (c : CircularBuffer T n) (item : T) :
    (c.put item).contents =
      (if c.full then c.contents.tail else c.contents) ++ [item] := by
  have h₁ := c.head_lt
  have h₂ := c.tail_lt
  have hh := c.head_eq_tail_add_size
  have hs := c.put_size item
  cases hf : c.full
  · rw [hf, if_neg Bool.false_ne_true] at hs
    have hlt : c.size < n := by
      have := (c.put item).size_le
      omega
    have hold : ∀ i ∈ List.range c.size,
        (c.put item).buf (((c.put item).tail + i) % n) = c.buf ((c.tail + i) % n) := by
      intro i hi
      have hi := List.mem_range.mp hi
      have hne := ring_ne h₂ (by omega) hlt (show i ≠ c.size by omega)
      rw [← hh] at hne
      simp only [put, hf, Bool.false_eq_true, if_false, store_one_ne _ _ hne]
    have hnew : (c.put item).buf (((c.put item).tail + c.size) % n) = item := by
      simp only [put, hf, Bool.false_eq_true, if_false, ← hh, store_one_same]
    rw [contents, hs, List.range_succ, List.map_append, List.map_congr_left hold,
      List.map_singleton, hnew]
    rfl
  · rw [hf, if_pos rfl] at hs
    have he := c.head_eq hf
    have hn := c.size_eq_iff_full.mpr hf
    obtain ⟨m, rfl⟩ := Nat.exists_eq_add_one_of_ne_zero (show n ≠ 0 by omega)
    have hold : ∀ i ∈ List.range m, (c.put item).buf (((c.put item).tail + i) % (m+1)) =
        c.buf ((c.tail + (i + 1)) % (m+1)) := by
      intro i hi
      have hi := List.mem_range.mp hi
      have hne := ring_ne_start (i := i) h₂ (by omega)
      simp only [put, hf, if_true, ring_next, he, store_one_ne _ _ hne]
    have hnew : (c.put item).buf (((c.put item).tail + m) % (m+1)) = item := by
      have hback : (c.tail + (m + 1)) % (m + 1) = c.head := by
        rw [Nat.add_mod_right, Nat.mod_eq_of_lt h₂, he]
      simp only [put, hf, if_true, ring_next, hback, store_one_same]
    rw [contents, hs, List.range_succ, List.map_append, List.map_congr_left hold,
      List.map_singleton, hnew, contents, hn, List.range_succ_eq_map]
    simp [Function.comp_def]

theorem getLeaving_of_empty [Inhabited T] (c : CircularBuffer T n) (left : T)
    (h : c.contents = []) : c.getLeaving left = (default, c) := by
  have hz : c.size = 0 := by rw [← contents_length, h]; rfl
  rw [getLeaving, if_pos (c.empty_iff_size.mpr hz)]

/-- Otherwise the oldest item comes out and the others stay in order. -/
theorem getLeaving_of_cons [Inhabited T] (c : CircularBuffer T n) (left : T) {x : T}
    {rest : List T} (h : c.contents = x :: rest) :
    (c.getLeaving left).1 = x ∧ (c.getLeaving left).2.contents = rest := by
  have h₁ := c.head_lt
  have h₂ := c.tail_lt
  have hle := c.size_le
  have hsize : c.size = rest.length + 1 := by rw [← contents_length, h]; rfl
  have hne : ¬ c.empty = true := by
    rw [empty_iff_size]
    omega
  have hhead := h
  rw [contents, hsize, List.range_succ_eq_map, List.map_cons, List.map_map, List.cons.injEq,
    Nat.add_zero, Nat.mod_eq_of_lt h₂] at hhead
  have hsz : (c.getLeaving left).2.size = rest.length := by
    have hw := ring_wrap (i := 1) h₂ (by omega)
    rw [getLeaving, if_neg hne]
    simp only [size] at hsize
    simp only [size, hw, Bool.not_false, if_true]
    cases hf : c.full
    · simp only [hf, Bool.not_false, if_true] at hsize
      split at hsize <;> split <;> split <;> omega
    · have he := c.head_eq hf
      simp only [hf, Bool.not_true, Bool.false_eq_true, if_false] at hsize
      split <;> split <;> omega
  refine ⟨?_, ?_⟩
  · rw [getLeaving, if_neg hne]
    exact hhead.1
  · rw [contents, hsz]
    refine Eq.trans (List.map_congr_left ?_) hhead.2
    intro i hi
    have hi := List.mem_range.mp hi
    have hslot := ring_ne_start (i := i) h₂ (by omega)
    rw [getLeaving, if_neg hne]
    simp only [ring_next, store_one_ne _ _ hslot, Function.comp_apply, Nat.succ_eq_add_one]

theorem get_of_empty [Inhabited T] (c : CircularBuffer T n) (h : c.contents = []) :
    c.get = (default, c) := by
  rw [get_eq, c.getLeaving_of_empty default h]

theorem get_of_cons [Inhabited T] (c : CircularBuffer T n) {x : T} {rest : List T}
    (h : c.contents = x :: rest) : c.get.1 = x ∧ c.get.2.contents = rest := by
  rw [get_eq]
  exact c.getLeaving_of_cons default h

end CircularBuffer
end SocketCPlusPlus.General
