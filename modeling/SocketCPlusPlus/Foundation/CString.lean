import Mathlib.Data.List.TakeWhile
import SocketCPlusPlus.Foundation.Store

/-! Strings that end at their first zero cell, and what the C library's copies of them store. -/
namespace SocketCPlusPlus.Foundation

/-- The characters in front of the terminator. -/
@[ext] structure CString (β : Type) [OfNat β 0] where
  chars : List β
  nul_free : (0 : β) ∉ chars

namespace CString
variable {β : Type} [OfNat β 0] [DecidableEq β]

def strlen (s : CString β) : Nat := s.chars.length

/-- The string that a block of cells starts with, as far as the block goes. -/
def ofBlock (block : List β) : CString β where
  chars := block.takeWhile (· != 0)
  nul_free h := by simpa using List.mem_takeWhile_imp h

/-- What `strcpy` stores. -/
def strcpy (s : CString β) : List β := s.chars ++ [0]

/-- A string filled up with zeros to n cells. -/
def pad (s : CString β) (n : Nat) : List β := s.chars ++ List.replicate (n - s.strlen) 0

/-- What `strncpy` stores of a source, of which it sees n cells. -/
def strncpy (source : List β) (n : Nat) : List β := (ofBlock (source.take n)).pad n

def take (s : CString β) (n : Nat) : CString β where
  chars := s.chars.take n
  nul_free h := s.nul_free (List.mem_of_mem_take h)

/-- The string at an address of memory, looked for in n cells. -/
def stringAt (m : Store β) (a n : Nat) : CString β := ofBlock (m.load a n)

theorem chars_ofBlock (block : List β) : (ofBlock block).chars = block.takeWhile (· != 0) := rfl

theorem takeWhile_of_nul_free {chars : List β} (h : (0 : β) ∉ chars) (rest : List β) :
    (chars ++ rest).takeWhile (· != 0) = chars ++ rest.takeWhile (· != 0) := by
  refine List.takeWhile_append_of_pos fun c hc => bne_iff_ne.mpr ?_
  rintro rfl
  exact h hc

theorem ofBlock_terminated (s : CString β) (rest : List β) : ofBlock (s.chars ++ 0 :: rest) = s := by
  apply CString.ext
  rw [chars_ofBlock, takeWhile_of_nul_free s.nul_free]
  simp

theorem ofBlock_chars (s : CString β) : ofBlock s.chars = s := by
  apply CString.ext
  have hchars := takeWhile_of_nul_free s.nul_free []
  rwa [List.takeWhile_nil, List.append_nil] at hchars

theorem ofBlock_strcpy (s : CString β) : ofBlock s.strcpy = s := ofBlock_terminated s []

theorem ofBlock_pad (s : CString β) (n : Nat) : ofBlock (s.pad n) = s := by
  rw [pad]
  cases n - s.strlen with
  | zero => rw [List.replicate_zero, List.append_nil, ofBlock_chars]
  | succ k => rw [List.replicate_succ, ofBlock_terminated]

theorem terminated_split {block : List β} (h : (0 : β) ∈ block) :
    ∃ rest, block = (ofBlock block).chars ++ 0 :: rest := by
  induction block with
  | nil => exact absurd h List.not_mem_nil
  | cons c block ih =>
    by_cases hc : c = 0
    · exact ⟨block, by simp [ofBlock, hc]⟩
    · obtain ⟨rest, hrest⟩ := ih ((List.mem_cons.mp h).resolve_left (Ne.symm hc))
      refine ⟨rest, ?_⟩
      have hchars : (ofBlock (c :: block)).chars = c :: (ofBlock block).chars := by
        simp [ofBlock, hc]
      rw [hchars, List.cons_append, ← hrest]

theorem ofBlock_append {block : List β} (h : (0 : β) ∈ block) (rest : List β) :
    ofBlock (block ++ rest) = ofBlock block := by
  obtain ⟨after, hafter⟩ := terminated_split h
  have hsplit : block ++ rest = (ofBlock block).chars ++ 0 :: (after ++ rest) := by
    conv_lhs => rw [hafter]
    rw [List.append_assoc, List.cons_append]
  rw [hsplit, ofBlock_terminated]

theorem strlen_lt_of_terminated {block : List β} (h : (0 : β) ∈ block) :
    (ofBlock block).strlen < block.length := by
  obtain ⟨rest, hrest⟩ := terminated_split h
  have hlen := congrArg List.length hrest
  rw [List.length_append, List.length_cons] at hlen
  rw [strlen]
  omega

theorem strlen_ofBlock_le (block : List β) : (ofBlock block).strlen ≤ block.length :=
  (List.takeWhile_prefix _).length_le

/-- A block that may end without a terminator is as good as one to which it is added. -/
theorem ofBlock_snoc_nul (block : List β) : ofBlock (block ++ [0]) = ofBlock block := by
  by_cases h : (0 : β) ∈ block
  · exact ofBlock_append h [0]
  · exact (ofBlock_strcpy ⟨block, h⟩).trans (ofBlock_chars ⟨block, h⟩).symm

omit [DecidableEq β] in
@[simp] theorem pad_length (s : CString β) (n : Nat) : (s.pad n).length = max s.strlen n := by
  rw [pad, List.length_append, List.length_replicate, strlen]
  omega

@[simp] theorem strncpy_length (source : List β) (n : Nat) : (strncpy source n).length = n := by
  have hle := strlen_ofBlock_le (source.take n)
  rw [List.length_take] at hle
  rw [strncpy, pad_length]
  omega

theorem ofBlock_strncpy (source : List β) (n : Nat) :
    ofBlock (strncpy source n) = ofBlock (source.take n) :=
  ofBlock_pad ..

/-- A string cut by `strncpy` leaves no room for its terminator. -/
theorem strncpy_of_le (s : CString β) {n : Nat} (h : n ≤ s.strlen) :
    strncpy s.strcpy n = (s.take n).chars := by
  have htake : s.strcpy.take n = (s.take n).chars := List.take_append_of_le_length h
  have hlen : (s.take n).strlen = n := List.length_take_of_le h
  rw [strncpy, htake, ofBlock_chars, pad, hlen, Nat.sub_self, List.replicate_zero, List.append_nil]

omit [DecidableEq β] in
theorem take_of_le (s : CString β) {n : Nat} (h : s.strlen ≤ n) : s.take n = s :=
  CString.ext (List.take_of_length_le h)

omit [DecidableEq β] in
theorem strlen_take (s : CString β) (n : Nat) : (s.take n).strlen = min n s.strlen :=
  List.length_take

/-! In memory. -/

omit [OfNat β 0] [DecidableEq β] in
theorem load_store_block (m : Store β) (a : Nat) {block : List β} {n : Nat} (h : block.length ≤ n) :
    ∃ rest, (m.store a block).load a n = block ++ rest := by
  obtain ⟨k, rfl⟩ := Nat.exists_eq_add_of_le h
  rw [Store.load_add, Store.load_store_same]
  exact ⟨_, rfl⟩

omit [DecidableEq β] in
theorem terminated_store (m : Store β) (a : Nat) {block : List β} {n : Nat}
    (hnul : (0 : β) ∈ block) (h : block.length ≤ n) : (0 : β) ∈ (m.store a block).load a n := by
  obtain ⟨rest, hrest⟩ := load_store_block m a h
  rw [hrest]
  exact List.mem_append_left rest hnul

theorem stringAt_store (m : Store β) (a : Nat) {block : List β} {n : Nat}
    (hnul : (0 : β) ∈ block) (h : block.length ≤ n) :
    stringAt (m.store a block) a n = ofBlock block := by
  obtain ⟨rest, hrest⟩ := load_store_block m a h
  rw [stringAt, hrest, ofBlock_append hnul]

theorem stringAt_succ {m : Store β} {a n : Nat} (h : (0 : β) ∈ m.load a (n + 1)) :
    stringAt m a (n + 1) = ofBlock (m.load a n) := by
  rw [stringAt, Store.load_add]
  rw [Store.load_add, List.mem_append] at h
  rcases h with hfront | hlast
  · exact ofBlock_append hfront _
  · have hcell : m (a + n) = 0 := (List.mem_singleton.mp hlast).symm
    rw [Store.load, hcell]
    exact ofBlock_snoc_nul _

end CString
end SocketCPlusPlus.Foundation
