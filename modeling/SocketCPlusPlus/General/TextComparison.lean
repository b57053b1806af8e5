import SocketCPlusPlus.Foundation.StringSearch
import SocketCPlusPlus.General.BoundedString
import SocketCPlusPlus.General.FixedString

/-! How the two string classes measure, compare and search what is in their arrays. Both do it the
same way, with a length that is an `int` in front of the comparison. -/
namespace SocketCPlusPlus.General
open Foundation Packets

/-- The C locale's. -/
def tolower (c : UInt8) : UInt8 := if 65 ≤ c ∧ c ≤ 90 then c + 32 else c

namespace CharArray

/-- The string that a reader of the array sees. -/
def cStr (buffer : Memory) (strLength : Nat) : CString UInt8 :=
  CString.stringAt buffer 0 (strLength + 1)

def maxLength (strLength : Nat) : Nat := strLength + 1

def length (buffer : Memory) (strLength : Nat) : Nat :=
  if buffer 0 = 0 then 0 else (cStr buffer strLength).strlen

def find (buffer : Memory) (strLength : Nat) (subString : CString UInt8) : Nat :=
  if buffer 0 = 0 then maxLength strLength
  else
    match (cStr buffer strLength).strstr subString with
    | none => maxLength strLength
    | some i => i

/-- The null pointer is no string. A string that seems too long is not looked at. -/
def isEqual (buffer : Memory) (strLength : Nat) (str : Option (CString UInt8))
    (compareCaseless : Bool) : Bool :=
  match str with
  | none => if buffer 0 = 0 then true else false
  | some str =>
    let len := (Int32.ofNat str.strlen).toInt
    if len > strLength then false
    else if compareCaseless = false then
      if (cStr buffer strLength).strcmp str = 0 then true else false
    else if (cStr buffer strLength).strcasecmp tolower str = 0 then true else false

/-- Every question about an array is answered by the text in it. -/
structure ReadsAs (buffer : Memory) (strLength : Nat) (text : CString UInt8) : Prop where
  shown : cStr buffer strLength = text
  measured : length buffer strLength = text.strlen
  compared : ∀ str, isEqual buffer strLength (some str) false = true ↔ text = str
  folded : ∀ str, isEqual buffer strLength (some str) true = true ↔
    text.chars.map tolower = str.chars.map tolower
  null : ∀ compareCaseless, isEqual buffer strLength none compareCaseless = true ↔ text.chars = []
  found : ∀ subString, ∀ i ≤ strLength, find buffer strLength subString = i ↔
    text.chars ≠ [] ∧ text.OccursAt subString i ∧ ∀ j < i, ¬ text.OccursAt subString j
  missed : ∀ subString, find buffer strLength subString = maxLength strLength ↔
    text.chars = [] ∨ ∀ i, ¬ text.OccursAt subString i

variable {buffer : Memory} {strLength : Nat}

theorem cStr_empty_iff : (cStr buffer strLength).chars = [] ↔ buffer 0 = 0 := by
  rw [cStr, CString.stringAt, Store.load, CString.chars_ofBlock, List.takeWhile_cons]
  by_cases h : buffer 0 = 0
  · rw [if_neg (by simpa using h)]
    exact iff_of_true rfl h
  · rw [if_pos (by simpa using h)]
    exact iff_of_false (List.cons_ne_nil _ _) h

theorem int_length_le (n : Nat) : (Int32.ofNat n).toInt ≤ n := by
  rw [Int32.toInt_ofNat', Int.bmod_def]
  simp only [Int32.size]
  omega

/-- A string that seems too long is too long, so that no comparison misses it. -/
theorem not_equal_of_long {text str : CString UInt8} (htext : text.strlen ≤ strLength)
    (hlong : (Int32.ofNat str.strlen).toInt > strLength) : text.strlen ≠ str.strlen := by
  have hle := int_length_le str.strlen
  omega

theorem ite_bool_iff {p : Prop} [Decidable p] : (if p then true else false) = true ↔ p := by
  split <;> simp [*]

section Room
variable (hroom : (cStr buffer strLength).strlen ≤ strLength)
include hroom

theorem isEqual_some (str : CString UInt8) :
    isEqual buffer strLength (some str) false = true ↔ cStr buffer strLength = str := by
  rw [isEqual]
  split
  · next hlong =>
    refine iff_of_false Bool.false_ne_true fun heq => ?_
    exact not_equal_of_long hroom hlong (congrArg CString.strlen heq)
  · rw [if_pos rfl, ite_bool_iff, CString.strcmp_eq_zero_iff]

theorem isEqual_folded (str : CString UInt8) :
    isEqual buffer strLength (some str) true = true ↔
      (cStr buffer strLength).chars.map tolower = str.chars.map tolower := by
  rw [isEqual]
  split
  · next hlong =>
    refine iff_of_false Bool.false_ne_true fun heq => ?_
    have hlen := congrArg List.length heq
    rw [List.length_map, List.length_map] at hlen
    exact not_equal_of_long hroom hlong hlen
  · rw [if_neg Bool.true_eq_false.mp, ite_bool_iff, CString.strcasecmp,
      CString.compareChars_eq_zero_iff]

theorem find_missed (subString : CString UInt8) :
    find buffer strLength subString = maxLength strLength ↔
      (cStr buffer strLength).chars = [] ∨ ∀ i, ¬ (cStr buffer strLength).OccursAt subString i := by
  rw [find, cStr_empty_iff, ← CString.strstr_eq_none_iff]
  split
  · next hnul => exact iff_of_true rfl (Or.inl hnul)
  · next hnul =>
    rw [or_iff_right hnul]
    cases hfound : (cStr buffer strLength).strstr subString with
    | none => exact iff_of_true rfl rfl
    | some j =>
      -- a position found is in front of the terminator
      have hj := ((CString.strstr_eq_some_iff _ _ j).mp hfound).1.1
      refine iff_of_false (Nat.ne_of_lt ?_) (Option.some_ne_none j)
      exact Nat.lt_succ_of_le (hj.trans hroom)

end Room

theorem find_eq_iff (subString : CString UInt8) {i : Nat} (hi : i ≤ strLength) :
    find buffer strLength subString = i ↔ (cStr buffer strLength).chars ≠ [] ∧
      (cStr buffer strLength).OccursAt subString i ∧
        ∀ j < i, ¬ (cStr buffer strLength).OccursAt subString j := by
  rw [find, ne_eq, cStr_empty_iff]
  split
  · next hnul =>
    refine iff_of_false (Nat.ne_of_gt (Nat.lt_succ_of_le hi)) fun hfound => ?_
    exact hfound.1 hnul
  · next hnul =>
    rw [← CString.strstr_eq_some_iff, and_iff_right hnul]
    cases hfound : (cStr buffer strLength).strstr subString with
    | none => exact iff_of_false (Nat.ne_of_gt (Nat.lt_succ_of_le hi)) (Option.some_ne_none i).symm
    | some j => exact (Option.some_inj).symm

theorem ReadsAs.of_terminated (h : 0 ∈ buffer.load 0 (strLength + 1)) :
    ReadsAs buffer strLength (cStr buffer strLength) := by
  have hroom : (cStr buffer strLength).strlen ≤ strLength := by
    have hlt := CString.strlen_lt_of_terminated h
    rw [Store.load_length] at hlt
    exact Nat.lt_succ_iff.mp hlt
  refine ⟨rfl, ?_, isEqual_some hroom, isEqual_folded hroom, fun compareCaseless => ?_,
    fun subString i hi => find_eq_iff subString hi, find_missed hroom⟩
  · rw [length]
    split
    · next hnul => rw [CString.strlen, cStr_empty_iff.mpr hnul, List.length_nil]
    · rfl
  · rw [isEqual, ite_bool_iff, cStr_empty_iff]

end CharArray

theorem append_injective (b : Buffer) {bytes bytes' : List UInt8}
    (h : b.append bytes = b.append bytes') : bytes = bytes' := by
  have hlen : bytes.length = bytes'.length := by
    have hoffset := congrArg Buffer.bufferOffset h
    rw [Buffer.append_offset, Buffer.append_offset] at hoffset
    exact Nat.add_left_cancel hoffset
  have hload := b.append_load bytes
  rw [h, hlen, b.append_load] at hload
  exact hload.symm

/-! What each class makes of it. -/

namespace FixedLengthString
variable {strLength : Nat}

def maxLength (_s : FixedLengthString strLength) : Nat := CharArray.maxLength strLength

def length (s : FixedLengthString strLength) : Nat := CharArray.length s.buffer strLength

def size (s : FixedLengthString strLength) : Nat := s.length

def empty (s : FixedLengthString strLength) : Bool := s.size = 0

def find (s : FixedLengthString strLength) (subString : CString UInt8) : Nat :=
  CharArray.find s.buffer strLength subString

def isEqual (s : FixedLengthString strLength) (str : Option (CString UInt8))
    (compareCaseless : Bool) : Bool := CharArray.isEqual s.buffer strLength str compareCaseless

/-- `operator==` with a C string. -/
def eqStr (s : FixedLengthString strLength) (str : Option (CString UInt8)) : Bool :=
  s.isEqual str false

/-- `operator==` with another object, whose array is never null. -/
def eq (s rhs : FixedLengthString strLength) : Bool := s.isEqual (some rhs.cStr) false

/-- The text a call leaves in the array. -/
def Call.text (strLength : Nat) : Call → CString UInt8
  | .copy (some str) => str.take strLength
  | .serializeIn data bufferOffset => CString.ofBlock (data.load bufferOffset strLength)
  | .copy none | .new | .clear => CString.ofBlock [0]

private theorem empty_text (s : FixedLengthString strLength) :
    (⟨s.buffer.store 0 [0]⟩ : FixedLengthString strLength).cStr = CString.ofBlock [0] :=
  CString.stringAt_store s.buffer 0 (List.mem_singleton_self 0) (Nat.le_add_left 1 strLength)

theorem call_text (s : FixedLengthString strLength) {c : Call} (h : c.Fits strLength)
    {s' : FixedLengthString strLength} (hcall : s.call c = some s') :
    s'.cStr = c.text strLength := by
  match c, h with
  | .new, _ | .clear, _ | .copy none, _ =>
    rw [← Option.some.inj hcall]
    exact s.empty_text
  | .serializeIn data bufferOffset, _ =>
    obtain ⟨read, heval, hread⟩ := s.eval_serializeIn data bufferOffset
    rw [call, heval] at hcall
    rw [← Option.some.inj hcall, hread, Call.text]
  | .copy (some str), h =>
    rw [call, copy] at hcall
    by_cases hlong : (Int32.ofNat str.strlen).toInt > strLength
    · have hcut : strLength ≤ str.strlen := by
        have hle := CharArray.int_length_le str.strlen
        omega
      have hlen : (str.take strLength).strlen = strLength := by
        rw [CString.strlen_take, Nat.min_eq_left hcut]
      have hroom : (str.take strLength).strcpy.length ≤ strLength + 1 := by
        rw [CString.strcpy, List.length_append, List.length_singleton]
        exact Nat.succ_le_succ hlen.le
      have hstored := BoundedLengthString.store_chars s.buffer (str.take strLength)
      rw [hlen] at hstored
      rw [if_pos hlong, CString.strncpy_of_le str hcut, hstored] at hcall
      rw [← Option.some.inj hcall, cStr,
        CString.stringAt_store s.buffer 0 (by simp [CString.strcpy]) hroom, CString.ofBlock_strcpy,
        Call.text]
    · have hfits : str.strlen ≤ strLength := h.resolve_right hlong
      have hroom : str.strcpy.length ≤ strLength + 1 := by
        rw [CString.strcpy, List.length_append, List.length_singleton]
        exact Nat.succ_le_succ hfits
      rw [if_neg hlong, if_pos hfits] at hcall
      rw [← Option.some.inj hcall, cStr,
        CString.stringAt_store s.buffer 0 (by simp [CString.strcpy]) hroom, CString.ofBlock_strcpy,
        Call.text, CString.take_of_le str hfits]

theorem eq_iff_wire {s rhs : FixedLengthString strLength} (h : s.Terminated)
    (hrhs : rhs.Terminated) (b : Buffer) :
    s.eq rhs = true ↔ s.serializeOut.exec b = rhs.serializeOut.exec b := by
  rw [eq, isEqual, (CharArray.ReadsAs.of_terminated (s.terminated_iff.mp h)).compared,
    exec_serializeOut h, exec_serializeOut hrhs]
  constructor
  · rintro heq
    rw [← heq]
    rfl
  · intro heq
    have hbuffer : b.append (s.cStr.pad strLength) = b.append (rhs.cStr.pad strLength) :=
      congrArg Prod.snd heq
    have htext := congrArg CString.ofBlock (append_injective b hbuffer)
    rwa [CString.ofBlock_pad, CString.ofBlock_pad] at htext

/-- After any calls that fit, whatever was in the array before, an object is measured, compared and
searched as the text of the last call, cut to the characters there is room for, and is equal to the
objects that look the same on the wire. -/
theorem fixed_length_string_reads_as {start : FixedLengthString strLength}
    {taken : List (Taken (Option (FixedLengthString strLength)) Call)}
    {s : Option (FixedLengthString strLength)}
    (h : History (History.PartialStep call) (some start) taken s)
    (hfits : ∀ t ∈ taken, t.event.Fits strLength) :
    ∀ t ∈ taken, ∃ after, t.after = some after ∧
      CharArray.ReadsAs after.buffer strLength (t.event.text strLength) ∧
      ∀ rhs : FixedLengthString strLength, rhs.Terminated → ∀ b,
        (after.eq rhs = true ↔ after.serializeOut.exec b = rhs.serializeOut.exec b) := by
  refine h.always (fun _ => True) (fun _ event after => ∃ s', after = some s' ∧
    CharArray.ReadsAs s'.buffer strLength (event.text strLength) ∧
    ∀ rhs : FixedLengthString strLength, rhs.Terminated → ∀ b,
      (s'.eq rhs = true ↔ s'.serializeOut.exec b = rhs.serializeOut.exec b))
    (fun _ event => event.Fits strLength) trivial ?_ hfits
  rintro before event after - ⟨defined, -, rfl⟩ hevent
  obtain ⟨s', hcall, hterm⟩ := defined.call_terminated hevent
  refine ⟨⟨s', hcall, ?_, fun rhs hrhs b => eq_iff_wire hterm hrhs b⟩, trivial⟩
  rw [← defined.call_text hevent hcall]
  exact .of_terminated (s'.terminated_iff.mp hterm)

/-- Three characters into an array for two. -/
theorem sample_fixed_reads_as :
    let start : FixedLengthString 2 := ⟨fun _ => 7⟩
    let cut : Call := .copy (some ⟨[97, 98, 99], by decide⟩)
    let taken : List (Taken (Option (FixedLengthString 2)) Call) :=
      [⟨some start, .new, some start.new⟩, ⟨some start.new, cut, start.new.call cut⟩]
    ∀ t ∈ taken, ∃ after, t.after = some after ∧
      CharArray.ReadsAs after.buffer 2 (t.event.text 2) ∧
      ∀ rhs : FixedLengthString 2, rhs.Terminated → ∀ b,
        (after.eq rhs = true ↔ after.serializeOut.exec b = rhs.serializeOut.exec b) :=
  fixed_length_string_reads_as
    (.step (.step .start ⟨⟨fun _ => 7⟩, rfl, rfl⟩) ⟨new ⟨fun _ => 7⟩, rfl, rfl⟩)
    (List.forall_mem_cons.mpr ⟨trivial, List.forall_mem_singleton.mpr (Or.inr (by decide))⟩)

end FixedLengthString

namespace BoundedLengthString
variable {strLength : Nat}

def maxLength (_s : BoundedLengthString strLength) : Nat := CharArray.maxLength strLength

def empty (s : BoundedLengthString strLength) : Bool := s.size = 0

def find (s : BoundedLengthString strLength) (subString : CString UInt8) : Nat :=
  CharArray.find s.buffer strLength subString

def isEqual (s : BoundedLengthString strLength) (str : Option (CString UInt8))
    (compareCaseless : Bool) : Bool := CharArray.isEqual s.buffer strLength str compareCaseless

/-- `operator==` with a C string. -/
def eqStr (s : BoundedLengthString strLength) (str : Option (CString UInt8)) : Bool :=
  s.isEqual str false

/-- `operator==` with another object, whose array is never null. -/
def eq (s rhs : BoundedLengthString strLength) : Bool := s.isEqual (some rhs.cStr) false

/-- The text a call leaves in the array. -/
def Call.text (strLength : Nat) : Call → CString UInt8
  | .copy (some str) => str.take strLength
  | .serializeIn data bufferOffset => CString.ofBlock
      (data.load (bufferOffset + 2) (min (Serialize.wordAt data bufferOffset 2) strLength))
  | .copy none | .new | .clear => CString.ofBlock [0]

theorem call_text (hint : strLength < 2 ^ 31) (s : BoundedLengthString strLength) {c : Call}
    (h : c.Whole strLength) {s' : BoundedLengthString strLength} (hcall : s.call c = some s') :
    s'.cStr = c.text strLength := by
  match c, h with
  | .new, _ | .clear, _ | .copy none, _ =>
    rw [← Option.some.inj hcall]
    exact CString.stringAt_store s.buffer 0 (List.mem_singleton_self 0) (Nat.le_add_left 1 strLength)
  | .copy (some str), h =>
    rw [call, s.copy_holding hint h] at hcall
    rw [← Option.some.inj hcall, cStr_holding, Call.text]
    rw [CString.strlen_take]
    exact Nat.min_le_left ..
  | .serializeIn data bufferOffset, h =>
    let n := min (Serialize.wordAt data bufferOffset 2) strLength
    let str : CString UInt8 := ⟨data.load (bufferOffset + 2) n, h⟩
    have hlen : str.strlen = n := Store.load_length ..
    rw [call, s.eval_serializeIn_holding str hlen.symm (by rw [hlen])] at hcall
    rw [← Option.some.inj hcall, cStr_holding (hlen.trans_le (Nat.min_le_right ..))]
    exact (CString.ofBlock_chars str).symm

theorem Consistent.terminator {s : BoundedLengthString strLength} (h : s.Consistent) :
    0 ∈ s.buffer.load 0 (strLength + 1) := by
  obtain ⟨k, hk, hnul⟩ := h.terminated
  rw [Store.mem_load]
  exact ⟨k, Nat.lt_succ_of_le hk, by rw [Nat.zero_add, hnul]⟩

theorem Consistent.wire {s : BoundedLengthString strLength} (h : s.Consistent) (b : Buffer) :
    s.serializeOut.exec b =
      (true, b.append (msbFirst 2 (s.cStr.strlen % 2 ^ 16) ++ s.cStr.chars)) := by
  obtain ⟨rest, hrest⟩ := CString.terminated_split h.terminator
  have hchars : s.buffer.load 0 s.cStr.strlen = s.cStr.chars := by
    have hroom : s.cStr.strlen < strLength + 1 := by
      have hlt := CString.strlen_lt_of_terminated h.terminator
      rwa [Store.load_length] at hlt
    obtain ⟨k, hk⟩ := Nat.exists_eq_add_of_lt hroom
    have hsplit : s.buffer.load 0 (strLength + 1) = s.cStr.chars ++ 0 :: rest := hrest
    rw [hk, Nat.add_assoc, Store.load_add] at hsplit
    exact (List.append_inj hsplit (Store.load_length ..)).1
  rw [exec_serializeOut, h.length, hchars]

theorem eq_iff_wire {s rhs : BoundedLengthString strLength} (h : s.Consistent)
    (hrhs : rhs.Consistent) (b : Buffer) :
    s.eq rhs = true ↔ s.serializeOut.exec b = rhs.serializeOut.exec b := by
  have hcompared : s.eq rhs = true ↔ s.cStr = rhs.cStr :=
    (CharArray.ReadsAs.of_terminated h.terminator).compared rhs.cStr
  rw [hcompared, h.wire, hrhs.wire]
  constructor
  · intro heq
    rw [heq]
  · intro heq
    have hbytes := append_injective b (congrArg Prod.snd heq)
    exact CString.ext (List.append_inj hbytes (by simp)).2

/-- After any calls with whole characters that 16 bits count, whatever was in the object before, it is
measured, compared and searched as the text of the last call, cut to the characters there is room
for, and is equal to the objects that look the same on the wire. -/
theorem bounded_length_string_reads_as (hint : strLength < 2 ^ 31)
    {start : BoundedLengthString strLength}
    {taken : List (Taken (Option (BoundedLengthString strLength)) Call)}
    {s : Option (BoundedLengthString strLength)}
    (h : History (History.PartialStep call) (some start) taken s)
    (hfits : ∀ t ∈ taken, t.event.Fits strLength) :
    ∀ t ∈ taken, ∃ after, t.after = some after ∧
      CharArray.ReadsAs after.buffer strLength (t.event.text strLength) ∧
      ∀ rhs : BoundedLengthString strLength, rhs.Consistent → ∀ b,
        (after.eq rhs = true ↔ after.serializeOut.exec b = rhs.serializeOut.exec b) := by
  refine h.always (fun _ => True) (fun _ event after => ∃ s', after = some s' ∧
    CharArray.ReadsAs s'.buffer strLength (event.text strLength) ∧
    ∀ rhs : BoundedLengthString strLength, rhs.Consistent → ∀ b,
      (s'.eq rhs = true ↔ s'.serializeOut.exec b = rhs.serializeOut.exec b))
    (fun _ event => event.Fits strLength) trivial ?_ hfits
  rintro before event after - ⟨defined, -, rfl⟩ hevent
  obtain ⟨s', hcall, hconsistent⟩ := (call_consistent_iff hint defined event).mpr hevent
  refine ⟨⟨s', hcall, ?_, fun rhs hrhs b => eq_iff_wire hconsistent hrhs b⟩, trivial⟩
  rw [← defined.call_text hint hevent.1 hcall]
  exact .of_terminated hconsistent.terminator

/-- Three characters into an array for two. -/
theorem sample_bounded_reads_as :
    let start : BoundedLengthString 2 := ⟨fun _ => 7, 7⟩
    let cut : Call := .copy (some ⟨[97, 98, 99], by decide⟩)
    let taken : List (Taken (Option (BoundedLengthString 2)) Call) :=
      [⟨some start, .new, some start.new⟩, ⟨some start.new, cut, start.new.call cut⟩]
    ∀ t ∈ taken, ∃ after, t.after = some after ∧
      CharArray.ReadsAs after.buffer 2 (t.event.text 2) ∧
      ∀ rhs : BoundedLengthString 2, rhs.Consistent → ∀ b,
        (after.eq rhs = true ↔ after.serializeOut.exec b = rhs.serializeOut.exec b) :=
  bounded_length_string_reads_as (by decide)
    (.step (.step .start ⟨⟨fun _ => 7, 7⟩, rfl, rfl⟩) ⟨new ⟨fun _ => 7, 7⟩, rfl, rfl⟩)
    (List.forall_mem_cons.mpr ⟨⟨trivial, by decide⟩,
      List.forall_mem_singleton.mpr ⟨Or.inr (by decide), by decide⟩⟩)

end BoundedLengthString
end SocketCPlusPlus.General
