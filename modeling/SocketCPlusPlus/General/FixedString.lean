import SocketCPlusPlus.Foundation.CString
import SocketCPlusPlus.Foundation.History
import SocketCPlusPlus.Packets.Serialize

/-! `FixedLengthString`: a character array that goes over the wire whole, with zeros behind the
characters. -/
namespace SocketCPlusPlus.General
open Foundation Packets

/-- Cells 0 to strLength of the buffer are the character array. -/
structure FixedLengthString (strLength : Nat) where
  buffer : Memory

namespace FixedLengthString
variable {strLength : Nat}

def new (s : FixedLengthString strLength) : FixedLengthString strLength :=
  ⟨s.buffer.store 0 [0]⟩

def clear (s : FixedLengthString strLength) : FixedLengthString strLength :=
  ⟨s.buffer.store 0 [0]⟩

/-- The null pointer is no string. The length is an `int`, whatever `strlen` returns; nothing is
defined where `strcpy` runs past the array. -/
def copy (s : FixedLengthString strLength) (str : Option (CString UInt8)) :
    Option (FixedLengthString strLength) :=
  match str with
  | none => some ⟨s.buffer.store 0 [0]⟩
  | some str =>
    let len := (Int32.ofNat str.strlen).toInt
    if len > strLength then
      some ⟨(s.buffer.store 0 (CString.strncpy str.strcpy strLength)).store strLength [0]⟩
    else if str.strlen ≤ strLength then some ⟨s.buffer.store 0 str.strcpy⟩
    else none

def serializeIn (s : FixedLengthString strLength) :
    Input (Bool × FixedLengthString strLength) := do
  let bufferOffset ← get
  let inputBuffer ← peekBytes bufferOffset strLength
  set (bufferOffset + strLength)
  pure (true,
    ⟨(s.buffer.store 0 (CString.strncpy inputBuffer strLength)).store strLength [0]⟩)

def serializeOut (s : FixedLengthString strLength) : Output Bool := do
  modify (·.append (CString.strncpy (s.buffer.load 0 strLength) strLength))
  pure true

/-- The string that a reader of the array sees. -/
def cStr (s : FixedLengthString strLength) : CString UInt8 :=
  CString.stringAt s.buffer 0 (strLength + 1)

/-- What a program does to one. Every constructor and assignment from a string copies its
characters, and so does the constructor from another object. -/
inductive Call where
  | new
  | copy (str : Option (CString UInt8))
  | clear
  | serializeIn (data : Memory) (bufferOffset : Nat)

def call (s : FixedLengthString strLength) : Call → Option (FixedLengthString strLength)
  | .new => some s.new
  | .copy str => s.copy str
  | .clear => some s.clear
  | .serializeIn data bufferOffset => some (s.serializeIn.eval data bufferOffset).1.2

/-- A terminator in reach. -/
def Terminated (s : FixedLengthString strLength) : Prop := ∃ k ≤ strLength, s.buffer k = 0

theorem terminated_iff (s : FixedLengthString strLength) :
    s.Terminated ↔ 0 ∈ s.buffer.load 0 (strLength + 1) := by
  rw [Store.mem_load]
  simp only [Terminated, Nat.zero_add, Nat.lt_succ_iff]

/-- The length of a string is taken for what it is, or at least for too long. -/
def Call.Fits (strLength : Nat) : Call → Prop
  | .copy (some str) => str.strlen ≤ strLength ∨ strLength < (Int32.ofNat str.strlen).toInt
  | .copy none | .new | .clear | .serializeIn .. => True

private theorem store_with_nul (m : Memory) {block : List UInt8} {n : Nat} (h : block.length = n) :
    (m.store 0 block).store n [0] = m.store 0 (block ++ [0]) := by
  rw [Store.store_append, Nat.zero_add, h]

theorem call_block (s : FixedLengthString strLength) {c : Call} (h : c.Fits strLength) :
    ∃ block, 0 ∈ block ∧ block.length ≤ strLength + 1 ∧
      s.call c = some ⟨s.buffer.store 0 block⟩ := by
  cases c with
  | new => exact ⟨[0], by simp, by simp, rfl⟩
  | clear => exact ⟨[0], by simp, by simp, rfl⟩
  | serializeIn data bufferOffset =>
    refine ⟨CString.strncpy (data.load bufferOffset strLength) strLength ++ [0], by simp, by simp,
      ?_⟩
    simp [call, serializeIn, store_with_nul]
  | copy str =>
    cases str with
    | none => exact ⟨[0], by simp, by simp, rfl⟩
    | some str =>
      by_cases hlong : (Int32.ofNat str.strlen).toInt > strLength
      · refine ⟨CString.strncpy str.strcpy strLength ++ [0], by simp, by simp, ?_⟩
        rw [call, copy, if_pos hlong, store_with_nul _ (CString.strncpy_length ..)]
      · have hfits : str.strlen ≤ strLength := h.resolve_right hlong
        refine ⟨str.strcpy, by simp [CString.strcpy], ?_, ?_⟩
        · rw [CString.strcpy, List.length_append, List.length_singleton]
          exact Nat.succ_le_succ hfits
        · rw [call, copy, if_neg hlong, if_pos hfits]

theorem call_terminated (s : FixedLengthString strLength) {c : Call} (h : c.Fits strLength) :
    ∃ s', s.call c = some s' ∧ s'.Terminated := by
  obtain ⟨block, hnul, hlen, hcall⟩ := s.call_block h
  exact ⟨_, hcall, (terminated_iff _).mpr (CString.terminated_store s.buffer 0 hnul hlen)⟩

/-- A length that wraps below the bound lets all the characters through. -/
theorem fits_of_call_defined (s : FixedLengthString strLength) {c : Call}
    (h : (s.call c).isSome) : c.Fits strLength := by
  match c with
  | .copy (some str) =>
    rw [call, copy] at h
    split at h
    · next hlong => exact Or.inr hlong
    · split at h
      · next hfits => exact Or.inl hfits
      · exact absurd h Bool.false_ne_true
  | .copy none | .new | .clear | .serializeIn .. => trivial

theorem exec_serializeOut {s : FixedLengthString strLength} (h : s.Terminated) (b : Buffer) :
    s.serializeOut.exec b = (true, b.append (s.cStr.pad strLength)) := by
  have hstring := CString.stringAt_succ (s.terminated_iff.mp h)
  have hblock : CString.strncpy (s.buffer.load 0 strLength) strLength = s.cStr.pad strLength := by
    rw [CString.strncpy, List.take_of_length_le (by simp), cStr, hstring]
  simp only [serializeOut, Output.exec_bind, Output.exec_modify, Output.exec_pure, hblock]

theorem strlen_cStr_le {s : FixedLengthString strLength} (h : s.Terminated) :
    s.cStr.strlen ≤ strLength := by
  have hlt := CString.strlen_lt_of_terminated (s.terminated_iff.mp h)
  rw [Store.load_length] at hlt
  exact Nat.lt_succ_iff.mp hlt

theorem pad_cStr_length {s : FixedLengthString strLength} (h : s.Terminated) :
    (s.cStr.pad strLength).length = strLength := by
  rw [CString.pad_length, Nat.max_eq_right (strlen_cStr_le h)]

theorem eval_serializeIn (target : FixedLengthString strLength) (data : Memory)
    (bufferOffset : Nat) : ∃ read : FixedLengthString strLength,
      target.serializeIn.eval data bufferOffset = ((true, read), bufferOffset + strLength) ∧
        read.cStr = CString.ofBlock (data.load bufferOffset strLength) := by
  refine ⟨⟨(target.buffer.store 0
    (CString.strncpy (data.load bufferOffset strLength) strLength)).store strLength [0]⟩, ?_, ?_⟩
  · simp [serializeIn]
  · rw [cStr, store_with_nul _ (CString.strncpy_length ..),
      CString.stringAt_store _ _ (by simp) (by simp), CString.ofBlock_snoc_nul,
      CString.ofBlock_strncpy, List.take_of_length_le (by simp)]

/-- One string, one representation on the wire, and every object reads it back. -/
structure Canonical (s : FixedLengthString strLength) : Prop where
  terminated : ∃ k ≤ strLength, s.buffer k = 0
  width : (s.cStr.pad strLength).length = strLength
  writes : ∀ b, s.serializeOut.exec b = (true, b.append (s.cStr.pad strLength))
  restores : ∀ (target : FixedLengthString strLength) (b : Buffer),
    ∃ read : FixedLengthString strLength,
      target.serializeIn.eval (s.serializeOut.exec b).2.data b.bufferOffset =
        ((true, read), b.bufferOffset + strLength) ∧ read.cStr = s.cStr

theorem canonical_iff (s : FixedLengthString strLength) : s.Canonical ↔ s.Terminated := by
  refine ⟨Canonical.terminated, fun h => ⟨h, pad_cStr_length h, exec_serializeOut h, ?_⟩⟩
  intro target b
  obtain ⟨read, heval, hread⟩ :=
    target.eval_serializeIn (s.serializeOut.exec b).2.data b.bufferOffset
  refine ⟨read, heval, hread.trans ?_⟩
  have hload := b.append_load (s.cStr.pad strLength)
  rw [pad_cStr_length h] at hload
  rw [exec_serializeOut h, hload, CString.ofBlock_pad]

theorem call_canonical_iff (s : FixedLengthString strLength) (c : Call) :
    (∃ s', s.call c = some s' ∧ s'.Canonical) ↔ c.Fits strLength := by
  simp only [canonical_iff]
  refine ⟨fun h => ?_, s.call_terminated⟩
  obtain ⟨s', hcall, -⟩ := h
  exact s.fits_of_call_defined (Option.isSome_iff_exists.mpr ⟨s', hcall⟩)

/-- From any memory on, an object is canonical after every call exactly if each string copied
into it is as long as its `int` length says or is at least seen to be too long. -/
theorem fixed_length_string_canonical {start : FixedLengthString strLength}
    {taken : List (Taken (Option (FixedLengthString strLength)) Call)}
    {s : Option (FixedLengthString strLength)}
    (h : History (History.PartialStep call) (some start) taken s) :
    (∀ t ∈ taken, ∃ after, t.after = some after ∧ after.Canonical) ↔
      ∀ t ∈ taken, t.event.Fits strLength :=
  h.always_defined_iff Canonical (Call.Fits strLength) call_canonical_iff

/-- Three characters into an array for two. -/
theorem sample_calls_canonical :
    let start : FixedLengthString 2 := ⟨fun _ => 7⟩
    let cut : Call := .copy (some ⟨[97, 98, 99], by decide⟩)
    let taken : List (Taken (Option (FixedLengthString 2)) Call) :=
      [⟨some start, .new, some start.new⟩, ⟨some start.new, cut, start.new.call cut⟩]
    (∀ t ∈ taken, ∃ after, t.after = some after ∧ after.Canonical) ↔
      ∀ t ∈ taken, t.event.Fits 2 :=
  fixed_length_string_canonical
    (.step (.step .start ⟨⟨fun _ => 7⟩, rfl, rfl⟩) ⟨new ⟨fun _ => 7⟩, rfl, rfl⟩)

/-- The length of two gigabytes is negative as an `int`, and all of them are copied. -/
theorem two_gigabytes_overrun :
    let str : CString UInt8 := ⟨List.replicate (2 ^ 31) 97, by
      rw [List.mem_replicate]
      decide⟩
    (⟨fun _ => 0⟩ : FixedLengthString 16).copy (some str) = none := by
  intro str
  have hlen : str.strlen = 2 ^ 31 := List.length_replicate
  rw [copy, hlen]
  decide

end FixedLengthString
end SocketCPlusPlus.General
