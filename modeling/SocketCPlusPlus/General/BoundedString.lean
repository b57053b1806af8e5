import SocketCPlusPlus.Foundation.CString
import SocketCPlusPlus.Foundation.History
import SocketCPlusPlus.General.FixedLengthString

/-! What `BoundedLengthString` keeps twice: the number of its characters and their terminator. -/
namespace SocketCPlusPlus.General
open Foundation Packets

namespace BoundedLengthString
variable {strLength : Nat}

def new (s : BoundedLengthString strLength) : BoundedLengthString strLength :=
  ⟨s.buffer.store 0 [0], 0⟩

def clear (s : BoundedLengthString strLength) : BoundedLengthString strLength :=
  ⟨s.buffer.store 0 [0], 0⟩

/-- The null pointer is no string. The length is an `int`, whatever `strlen` returns; nothing is
defined where `strcpy` runs past the array. -/
def copy (s : BoundedLengthString strLength) (str : Option (CString UInt8)) :
    Option (BoundedLengthString strLength) :=
  match str with
  | none => some ⟨s.buffer.store 0 [0], 0⟩
  | some str =>
    let mLength := (Int32.ofNat str.strlen).toInt
    if mLength > strLength then
      some ⟨(s.buffer.store 0 (CString.strncpy str.strcpy strLength)).store strLength [0], strLength⟩
    else if str.strlen ≤ strLength then
      some ⟨(s.buffer.store 0 str.strcpy).store mLength.toNat [0], mLength.toNat⟩
    else none

/-- The constructor from a `std::string` copies its `c_str()`. -/
def construct (s : BoundedLengthString strLength) (str : StdString) :
    Option (BoundedLengthString strLength) :=
  s.copy (some (CString.ofBlock str))

def serializeOut (s : BoundedLengthString strLength) : Output Bool := do
  let size : UInt16 := .ofNat s.mLength
  Serialize.Out size
  if s.mLength > 0 then
    modify (·.append (s.buffer.load 0 s.mLength))
  pure true

/-- The string that a reader of the array sees. -/
def cStr (s : BoundedLengthString strLength) : CString UInt8 :=
  CString.stringAt s.buffer 0 (strLength + 1)

def length (s : BoundedLengthString strLength) : Nat :=
  if s.buffer 0 = 0 then 0 else s.cStr.strlen

def size (s : BoundedLengthString strLength) : Nat := s.length

/-- What a program does to one. Every constructor and assignment from a string copies its
characters, and so does the constructor from another object. -/
inductive Call where
  | new
  | copy (str : Option (CString UInt8))
  | clear
  | serializeIn (data : Memory) (bufferOffset : Nat)

def call (s : BoundedLengthString strLength) : Call → Option (BoundedLengthString strLength)
  | .new => some s.new
  | .copy str => s.copy str
  | .clear => some s.clear
  | .serializeIn data bufferOffset => some (s.serializeIn.eval data bufferOffset).1.2

namespace Call

/-- The characters a call is given, as far as there is room for them. -/
def count (strLength : Nat) : Call → Nat
  | .copy (some str) => min str.strlen strLength
  | .serializeIn data bufferOffset => min (Serialize.wordAt data bufferOffset 2) strLength
  | .copy none | .new | .clear => 0

/-- A string's length is taken for what it is, or at least for too long; characters from the wire
have no terminator among them. -/
def Whole (strLength : Nat) : Call → Prop
  | .copy (some str) => str.strlen ≤ strLength ∨ strLength < (Int32.ofNat str.strlen).toInt
  | .serializeIn data bufferOffset =>
    0 ∉ data.load (bufferOffset + 2) (min (Serialize.wordAt data bufferOffset 2) strLength)
  | .copy none | .new | .clear => True

/-- The characters arrive whole, and 16 bits count them. -/
def Fits (strLength : Nat) (c : Call) : Prop := c.Whole strLength ∧ c.count strLength < 2 ^ 16

end Call

/-- The array with the characters of a string and its terminator in it. -/
def holding (m : Memory) (strLength : Nat) (str : CString UInt8) : BoundedLengthString strLength :=
  ⟨m.store 0 str.strcpy, str.strlen⟩

theorem store_chars (m : Memory) (str : CString UInt8) :
    (m.store 0 str.chars).store str.strlen [0] = m.store 0 str.strcpy := by
  rw [CString.strcpy, Store.store_append, Nat.zero_add, CString.strlen]

theorem store_strcpy_nul (m : Memory) (str : CString UInt8) :
    (m.store 0 str.strcpy).store str.strlen [0] = m.store 0 str.strcpy := by
  rw [← store_chars, Store.store_over _ _ (Nat.le_refl _)]

theorem copy_whole (s : BoundedLengthString strLength) (str : CString UInt8)
    (hfits : str.strlen ≤ strLength) (hint : str.strlen < 2 ^ 31) :
    s.copy (some str) = some (holding s.buffer strLength str) := by
  have hlen := Int32.toInt_ofNat_of_lt hint
  rw [copy, hlen, if_neg (by omega), if_pos hfits, Int.toNat_natCast, store_strcpy_nul, holding]

theorem copy_holding (hint : strLength < 2 ^ 31) (s : BoundedLengthString strLength)
    {str : CString UInt8} (h : (Call.copy (some str)).Whole strLength) :
    s.copy (some str) = some (holding s.buffer strLength (str.take strLength)) := by
  have hle : (Int32.ofNat str.strlen).toInt ≤ str.strlen := by
    rw [Int32.toInt_ofNat', Int.bmod_def]
    simp only [Int32.size]
    omega
  by_cases hlong : (Int32.ofNat str.strlen).toInt > strLength
  · have hcut : strLength ≤ str.strlen := by omega
    have hlen : (str.take strLength).strlen = strLength := by
      rw [CString.strlen_take, Nat.min_eq_left hcut]
    have hstored := store_chars s.buffer (str.take strLength)
    rw [hlen] at hstored
    rw [copy, if_pos hlong, CString.strncpy_of_le str hcut, hstored, holding, hlen]
  · have hfits : str.strlen ≤ strLength := h.resolve_right hlong
    rw [CString.take_of_le str hfits, s.copy_whole str hfits (Nat.lt_of_le_of_lt hfits hint)]

theorem eval_serializeIn_holding (s : BoundedLengthString strLength) {data : Memory}
    {bufferOffset : Nat} (str : CString UInt8)
    (hsize : min (Serialize.wordAt data bufferOffset 2) strLength = str.strlen)
    (hload : data.load (bufferOffset + 2) str.strlen = str.chars) :
    s.serializeIn.eval data bufferOffset =
      ((true, holding s.buffer strLength str), bufferOffset + 2 + str.strlen) := by
  have heval := s.eval_serializeIn data bufferOffset
  dsimp only at heval
  rw [heval, hsize, hload, store_chars, holding]

/-! What an object with a string in it shows. -/

section Holding
variable {m : Memory} {str : CString UInt8}

theorem cStr_holding (h : str.strlen ≤ strLength) : (holding m strLength str).cStr = str := by
  have hroom : str.strcpy.length ≤ strLength + 1 := by
    rw [CString.strcpy, List.length_append, List.length_singleton]
    exact Nat.succ_le_succ h
  rw [cStr, holding, CString.stringAt_store m 0 (by simp [CString.strcpy]) hroom,
    CString.ofBlock_strcpy]

theorem load_holding : (holding m strLength str).buffer.load 0 str.strlen = str.chars :=
  Store.load_store_prefix m 0 str.chars [0]

theorem exec_serializeOut (s : BoundedLengthString strLength) (b : Buffer) :
    s.serializeOut.exec b = (true,
      b.append (msbFirst 2 (s.mLength % 2 ^ 16) ++ s.buffer.load 0 s.mLength)) := by
  have hlen : (UInt16.ofNat s.mLength).toNat = s.mLength % 2 ^ 16 := UInt16.toNat_ofNat'
  by_cases h : s.mLength = 0
  · simp [serializeOut, h, Store.load]
  · simp [serializeOut, Nat.pos_of_ne_zero h, hlen]

theorem exec_serializeOut_holding (b : Buffer) :
    (holding m strLength str).serializeOut.exec b =
      (true, b.append (msbFirst 2 (str.strlen % 2 ^ 16) ++ str.chars)) := by
  rw [exec_serializeOut, ← load_holding]
  rfl

end Holding

/-- The number of characters counts the characters, is within the bound, goes over the wire with
as many of them, and a copy goes over the wire the same. -/
structure Consistent (s : BoundedLengthString strLength) : Prop where
  terminated : ∃ k ≤ strLength, s.buffer k = 0
  length : s.mLength = s.cStr.strlen
  bounded : s.mLength ≤ strLength
  written : ∀ b, Serialize.wordAt (s.serializeOut.exec b).2.data b.bufferOffset 2 = s.size ∧
    (s.serializeOut.exec b).2.bufferOffset = b.bufferOffset + 2 + s.size
  copied : ∀ fresh : BoundedLengthString strLength, ∃ copy, fresh.copy (some s.cStr) = some copy ∧
    ∀ b, copy.serializeOut.exec b = s.serializeOut.exec b

theorem size_eq (s : BoundedLengthString strLength) : s.size = s.cStr.strlen := by
  rw [size, BoundedLengthString.length]
  split
  · next hempty =>
    have hfront : s.buffer.load 0 (strLength + 1) = [] ++ 0 :: s.buffer.load 1 strLength := by
      rw [Store.load, hempty]
      rfl
    rw [cStr, CString.stringAt, hfront, CString.ofBlock_terminated ⟨[], List.not_mem_nil⟩]
    rfl
  · rfl

theorem written_size (s : BoundedLengthString strLength) (b : Buffer) :
    Serialize.wordAt (s.serializeOut.exec b).2.data b.bufferOffset 2 = s.mLength % 2 ^ 16 ∧
      (s.serializeOut.exec b).2.bufferOffset = b.bufferOffset + 2 + s.mLength := by
  have hload := b.append_load (msbFirst 2 (s.mLength % 2 ^ 16) ++ s.buffer.load 0 s.mLength)
  rw [List.length_append, msbFirst_length, Store.load_add] at hload
  have hword := (List.append_inj hload (by simp)).1
  rw [exec_serializeOut]
  constructor
  · rw [Serialize.wordAt, hword, beValue_msbFirst]
    exact Nat.mod_mod_of_dvd _ (by decide)
  · rw [Buffer.append_offset, List.length_append, msbFirst_length, Store.load_length, Nat.add_assoc]

theorem holding_consistent {m : Memory} {str : CString UInt8} (h : str.strlen ≤ strLength)
    (hcount : str.strlen < 2 ^ 16) : (holding m strLength str).Consistent := by
  have hcStr : (holding m strLength str).cStr = str := cStr_holding h
  have hsize : (holding m strLength str).size = str.strlen := by rw [size_eq, hcStr]
  refine ⟨⟨str.strlen, h, ?_⟩, by rw [hcStr]; rfl, h, fun b => ?_, fun fresh => ?_⟩
  · have hlast : (holding m strLength str).buffer =
        (m.store 0 str.chars).store str.strlen [0] := (store_chars m str).symm
    rw [hlast]
    exact Store.store_get _ _ [0] (k := 0) (by decide)
  · obtain ⟨hword, hoffset⟩ := (holding m strLength str).written_size b
    rw [hsize, hword, hoffset]
    exact ⟨Nat.mod_eq_of_lt hcount, rfl⟩
  · refine ⟨holding fresh.buffer strLength str, ?_, fun b => ?_⟩
    · rw [hcStr, fresh.copy_whole str h (hcount.trans (by decide))]
    · rw [exec_serializeOut_holding, exec_serializeOut_holding]

/-- Every call with whole characters leaves them in the array. -/
theorem call_holding (hint : strLength < 2 ^ 31) (s : BoundedLengthString strLength) {c : Call}
    (h : c.Whole strLength) : ∃ str : CString UInt8, str.strlen = c.count strLength ∧
      s.call c = some (holding s.buffer strLength str) := by
  match c, h with
  | .new, _ | .clear, _ | .copy none, _ => exact ⟨⟨[], List.not_mem_nil⟩, rfl, rfl⟩
  | .copy (some str), h =>
    refine ⟨str.take strLength, ?_, s.copy_holding hint h⟩
    rw [CString.strlen_take, Call.count, Nat.min_comm]
  | .serializeIn data bufferOffset, h =>
    let n := min (Serialize.wordAt data bufferOffset 2) strLength
    let str : CString UInt8 := ⟨data.load (bufferOffset + 2) n, h⟩
    have hlen : str.strlen = n := Store.load_length ..
    refine ⟨str, hlen, ?_⟩
    rw [call, s.eval_serializeIn_holding str hlen.symm (by rw [hlen])]

/-- A terminator among the characters makes the string shorter than their number. -/
theorem strlen_read_lt (m : Memory) {chars : List UInt8} (hnul : 0 ∈ chars)
    (hroom : chars.length ≤ strLength) :
    (⟨(m.store 0 chars).store chars.length [0], chars.length⟩ :
      BoundedLengthString strLength).cStr.strlen < chars.length := by
  have hblock : (m.store 0 chars).store chars.length [0] = m.store 0 (chars ++ [0]) := by
    rw [Store.store_append, Nat.zero_add]
  have hlen : (chars ++ [0]).length ≤ strLength + 1 := by
    rw [List.length_append, List.length_singleton]
    exact Nat.succ_le_succ hroom
  rw [cStr, hblock, CString.stringAt_store m 0 (List.mem_append_left _ hnul) hlen,
    CString.ofBlock_snoc_nul]
  exact CString.strlen_lt_of_terminated hnul

theorem whole_of_consistent {s s' : BoundedLengthString strLength} {c : Call}
    (hcall : s.call c = some s') (h : s'.Consistent) : c.Whole strLength := by
  match c, hcall with
  | .new, _ | .clear, _ | .copy none, _ => trivial
  | .copy (some str), hcall =>
    rw [call, copy] at hcall
    split at hcall
    · next hlong => exact Or.inr hlong
    · split at hcall
      · next hfits => exact Or.inl hfits
      · exact absurd hcall.symm (Option.some_ne_none s')
  | .serializeIn data bufferOffset, hcall =>
    let n := min (Serialize.wordAt data bufferOffset 2) strLength
    intro hnul
    have hload : (data.load (bufferOffset + 2) n).length = n := Store.load_length ..
    have hshort := strlen_read_lt s.buffer hnul
      (hload.trans_le (Nat.min_le_right ..))
    have heval := s.eval_serializeIn data bufferOffset
    dsimp only at heval
    rw [call, heval] at hcall
    have hlength := h.length
    rw [← Option.some.inj hcall] at hlength
    rw [hload] at hshort
    exact absurd hlength (Nat.ne_of_gt hshort)

theorem call_consistent_iff (hint : strLength < 2 ^ 31) (s : BoundedLengthString strLength)
    (c : Call) : (∃ s', s.call c = some s' ∧ s'.Consistent) ↔ c.Fits strLength := by
  have hroom : c.count strLength ≤ strLength := by
    match c with
    | .new | .clear | .copy none => exact Nat.zero_le _
    | .copy (some str) | .serializeIn data bufferOffset => exact Nat.min_le_right ..
  constructor
  · rintro ⟨s', hcall, h⟩
    have hwhole := whole_of_consistent hcall h
    obtain ⟨str, hcount, hholding⟩ := s.call_holding hint hwhole
    have hs' : holding s.buffer strLength str = s' := Option.some.inj (hholding.symm.trans hcall)
    have hword := (h.written ⟨fun _ => 0, 0⟩).1
    rw [← hs', (written_size _ _).1, size_eq, cStr_holding (hcount ▸ hroom)] at hword
    refine ⟨hwhole, ?_⟩
    rw [← hcount, ← hword]
    exact Nat.mod_lt _ (by decide)
  · rintro ⟨hwhole, hsize⟩
    obtain ⟨str, hcount, hholding⟩ := s.call_holding hint hwhole
    exact ⟨_, hholding, holding_consistent (hcount ▸ hroom) (hcount ▸ hsize)⟩

/-- From any memory on, an object is consistent after every call exactly if each was given whole
characters that 16 bits count. The bound is an `int`. -/
theorem bounded_length_string_consistent (hint : strLength < 2 ^ 31)
    {start : BoundedLengthString strLength}
    {taken : List (Taken (Option (BoundedLengthString strLength)) Call)}
    {s : Option (BoundedLengthString strLength)}
    (h : History (History.PartialStep call) (some start) taken s) :
    (∀ t ∈ taken, ∃ after, t.after = some after ∧ after.Consistent) ↔
      ∀ t ∈ taken, t.event.Fits strLength :=
  h.always_defined_iff Consistent (Call.Fits strLength) (call_consistent_iff hint)

/-- Three characters into an array for two. -/
theorem sample_calls_consistent :
    let start : BoundedLengthString 2 := ⟨fun _ => 7, 7⟩
    let cut : Call := .copy (some ⟨[97, 98, 99], by decide⟩)
    let taken : List (Taken (Option (BoundedLengthString 2)) Call) :=
      [⟨some start, .new, some start.new⟩, ⟨some start.new, cut, start.new.call cut⟩]
    (∀ t ∈ taken, ∃ after, t.after = some after ∧ after.Consistent) ↔
      ∀ t ∈ taken, t.event.Fits 2 :=
  bounded_length_string_consistent (by decide)
    (.step (.step .start ⟨⟨fun _ => 7, 7⟩, rfl, rfl⟩) ⟨new ⟨fun _ => 7, 7⟩, rfl, rfl⟩)

/-- Two characters from the wire, the first a terminator: the object counts two, is an empty
string and is copied as one. -/
theorem wire_terminator_counted :
    let data := Store.store (fun _ => 0) 0 [0, 2, 0, 98]
    let read := ((⟨fun _ => 0, 0⟩ : BoundedLengthString 16).serializeIn.eval data 0).1.2
    read.mLength = 2 ∧ read.size = 0 ∧ ¬ read.Consistent := by
  intro data read
  have hlength : read.mLength = 2 := by
    simp only [read]
    rw [eval_serializeIn]
    decide
  have hsize : read.size = 0 := by
    have hfront : read.buffer 0 = 0 := by
      simp only [read]
      rw [eval_serializeIn]
      decide
    rw [size, BoundedLengthString.length, if_pos hfront]
  refine ⟨hlength, hsize, fun h => ?_⟩
  have hcount := h.length
  rw [← size_eq, hlength, hsize] at hcount
  exact absurd hcount (by decide)

/-! The same bytes as a `std::string`'s. -/

theorem exec_serializeOut_wire (m : Memory) (str : CString UInt8) (h : str.strlen < 2 ^ 16)
    (b : Buffer) : (holding m strLength str).serializeOut.exec b =
      (true, b.append (stringWire str.chars)) := by
  rw [exec_serializeOut_holding, Nat.mod_eq_of_lt h]
  rfl

theorem eval_serializeIn_wire (s : BoundedLengthString strLength) (str : CString UInt8)
    (hfits : str.strlen ≤ strLength) (hword : str.strlen < 2 ^ 16) {data : Memory}
    {bufferOffset : Nat}
    (hload : data.load bufferOffset (stringWire str.chars).length = stringWire str.chars) :
    s.serializeIn.eval data bufferOffset =
      ((true, holding s.buffer strLength str), bufferOffset + (stringWire str.chars).length) := by
  have hlen : (stringWire str.chars).length = 2 + str.strlen := by
    rw [stringWire, List.length_append, msbFirst_length, CString.strlen]
  rw [hlen, Store.load_add] at hload
  obtain ⟨hsize, hbody⟩ := List.append_inj hload (by simp)
  have hcount : Serialize.wordAt data bufferOffset 2 = str.strlen := by
    rw [Serialize.wordAt, hsize, beValue_msbFirst]
    exact Nat.mod_eq_of_lt hword
  rw [s.eval_serializeIn_holding str (by rw [hcount, Nat.min_eq_left hfits]) hbody, hlen,
    Nat.add_assoc]

/-- Constructed from a string without NUL that fits both readers, an object writes what the string
template writes, and either reader gets the string from it and ends where the writer did. -/
theorem string_encodings_interchangeable {str : StdString} (hnul : 0 ∉ str)
    (hlen : str.length ≤ min strLength (maxString - 1))
    (fresh target : BoundedLengthString strLength) (old : StdString) (b : Buffer) :
    ∃ s, fresh.construct str = some s ∧
      (s.serializeOut.exec b).2 = ((Serialize.Out str).exec b).2 ∧
      (Serialize.In old).eval (s.serializeOut.exec b).2.data b.bufferOffset =
        (str, (s.serializeOut.exec b).2.bufferOffset) ∧
      ∃ read, target.serializeIn.eval ((Serialize.Out str).exec b).2.data b.bufferOffset =
          ((true, read), ((Serialize.Out str).exec b).2.bufferOffset) ∧
        read.cStr.chars = str := by
  obtain ⟨hbound, hmax⟩ := Nat.le_min.mp hlen
  have hword : str.length < 2 ^ 16 := Nat.lt_of_le_of_lt hmax (by decide)
  let chars : CString UInt8 := ⟨str, hnul⟩
  have hconstruct : fresh.construct str = some (holding fresh.buffer strLength chars) := by
    have hchars : CString.ofBlock str = chars := CString.ofBlock_chars chars
    rw [construct, hchars, fresh.copy_whole chars hbound (Nat.lt_trans hword (by decide))]
  have hwire : (holding fresh.buffer strLength chars).serializeOut.exec b =
      (true, b.append (stringWire str)) := exec_serializeOut_wire fresh.buffer chars hword b
  have hout := string_roundTrips.out str b ⟨hmax, hnul⟩
  have hload := b.append_load (stringWire str)
  refine ⟨_, hconstruct, by rw [hwire, hout], ?_, holding target.buffer strLength chars, ?_, ?_⟩
  · rw [hwire]
    exact string_roundTrips.back str old _ _ ⟨hmax, hnul⟩ hload
  · rw [hout]
    exact target.eval_serializeIn_wire chars hbound hword hload
  · rw [cStr_holding hbound]

theorem sample_encodings_interchangeable :
    let fresh : BoundedLengthString 2 := ⟨fun _ => 7, 7⟩
    let b : Buffer := ⟨fun _ => 9, 5⟩
    ∃ s, fresh.construct [97, 98] = some s ∧
      (s.serializeOut.exec b).2 = ((Serialize.Out ([97, 98] : StdString)).exec b).2 ∧
      (Serialize.In ([] : StdString)).eval (s.serializeOut.exec b).2.data b.bufferOffset =
        ([97, 98], (s.serializeOut.exec b).2.bufferOffset) ∧
      ∃ read, fresh.serializeIn.eval ((Serialize.Out ([97, 98] : StdString)).exec b).2.data
          b.bufferOffset =
          ((true, read), ((Serialize.Out ([97, 98] : StdString)).exec b).2.bufferOffset) ∧
        read.cStr.chars = [97, 98] :=
  string_encodings_interchangeable (by decide) (by decide) _ _ _ _

end BoundedLengthString
end SocketCPlusPlus.General
