import SocketCPlusPlus.Foundation.CString
import SocketCPlusPlus.Packets.SerializeSequence

/-! Strings with a 16-bit length prefix: `std::string` through the templates and
`BoundedLengthString`. Each reader clamps the length to its own buffer. -/
namespace SocketCPlusPlus.General
open Foundation Packets

/-- Cells 0 to strLength of the buffer are the character array. -/
structure BoundedLengthString (strLength : Nat) where
  buffer : Memory
  mLength : Nat

namespace BoundedLengthString
variable {strLength : Nat}

def serializeIn (s : BoundedLengthString strLength) : Input (Bool × BoundedLengthString strLength) := do
  let size ← Serialize.In (0 : UInt16)
  if size = 0 then
    pure (true, ⟨s.buffer.store 0 [0], 0⟩)
  else
    let mLength := if size.toNat > strLength then strLength else size.toNat
    let offset ← get
    let bytes ← peekBytes offset mLength
    set (offset + mLength)
    pure (true, ⟨(s.buffer.store 0 bytes).store mLength [0], mLength⟩)

/-- As many characters are read as are announced and there is room for. -/
theorem eval_serializeIn (s : BoundedLengthString strLength) (data : Memory) (bufferOffset : Nat) :
    let n := min (Serialize.wordAt data bufferOffset 2) strLength
    s.serializeIn.eval data bufferOffset =
      ((true, ⟨(s.buffer.store 0 (data.load (bufferOffset + 2) n)).store n [0], n⟩),
        bufferOffset + 2 + n) := by
  intro n
  have hlen := Serialize.u16_wordAt_toNat data bufferOffset
  by_cases h : UInt16.ofNat (Serialize.wordAt data bufferOffset 2) = 0
  · have hn : n = 0 := by
      simp only [n]
      rw [← hlen, h]
      exact Nat.zero_min _
    simp [serializeIn, h, hn, Store.load]
  · have hclamp : (if Serialize.wordAt data bufferOffset 2 > strLength then strLength
        else Serialize.wordAt data bufferOffset 2) = n := by
      simp only [n]
      split <;> omega
    simp [serializeIn, h, hlen, hclamp]

/-- The reader moves past the clamped length, not past the length on the wire. -/
theorem serializeIn_offset (s : BoundedLengthString strLength) (data : Memory) (offset : Nat) :
    (s.serializeIn.eval data offset).2 =
      offset + 2 + min (Serialize.wordAt data offset 2) strLength :=
  congrArg Prod.snd (s.eval_serializeIn data offset)

end BoundedLengthString

/-- Reading back what was written for s gives s at the writer's end, and the values
written after s decode correctly. -/
def StaysInStep (s : StdString) : Prop :=
  ∀ (b : Buffer) (old : StdString) (later targets : List TypedValue),
    (∀ v ∈ later, v.1.Valid v.2) → targets.map Sigma.fst = later.map Sigma.fst →
    let written := ((Serialize.Out s).exec b).2
    let all := ((outAll later).exec written).2
    let read := (Serialize.In old).eval all.data b.bufferOffset
    read = (s, written.bufferOffset) ∧ ((inAll targets).eval all.data read.2).1 = later

private theorem fits_of_stays {s : StdString} (h : StaysInStep s) : StringFits s := by
  have hread := (h ⟨fun _ => 0, 0⟩ [] [] [] (by simp) rfl).1
  rw [Serialize.eval_in_string, Prod.mk.injEq] at hread
  rw [StringFits, ← hread.1]
  refine ⟨?_, (CString.ofBlock _).nul_free⟩
  apply (CString.strlen_ofBlock_le _).trans
  rw [Store.load_length]
  exact Nat.min_le_right ..

private theorem stays_of_fits {s : StdString} (h : StringFits s) : StaysInStep s := by
  intro b old later targets hv ht
  rw [string_roundTrips.out s b h]
  simp only [exec_outAll later hv, Buffer.append_append]
  have hall := b.append_load (stringWire s ++ wireAll later)
  rw [List.length_append, Store.load_add] at hall
  obtain ⟨hs, hlater⟩ := List.append_inj hall (by simp)
  rw [string_roundTrips.back s old _ _ h hs]
  refine ⟨rfl, ?_⟩
  rw [eval_inAll later targets hv ht _ _ hlater]

/-- Exactly the NUL-free strings of at most `MaxString - 1` bytes stay in step, and a
bounded string exactly on the wire lengths it can hold. -/
theorem length_prefixed_in_step (s : StdString) {strLength : Nat}
    (target : BoundedLengthString strLength) (data : Memory) (offset : Nat) :
    (StaysInStep s ↔ s.length ≤ maxString - 1 ∧ 0 ∉ s) ∧
      ((target.serializeIn.eval data offset).2 = offset + (2 + Serialize.wordAt data offset 2) ↔
        Serialize.wordAt data offset 2 ≤ strLength) := by
  refine ⟨⟨fits_of_stays, stays_of_fits⟩, ?_⟩
  rw [target.serializeIn_offset]
  omega

/-- A string of 3072 bytes leaves its last byte to be read as the next field, one with an
inner NUL loses its tail, and so does a bounded string shorter than its wire length. -/
theorem length_prefixed_out_of_step :
    ¬ StaysInStep (List.replicate 3072 97) ∧ ¬ StaysInStep [97, 0, 98] ∧
      ((⟨fun _ => 0, 0⟩ : BoundedLengthString 1).serializeIn.eval
        (Store.store (fun _ => 0) 0 [0, 2, 97, 98]) 0).2 ≠ 0 + (2 + 2) := by
  refine ⟨fun h => ?_, fun h => ?_, ?_⟩
  · have hlen := (fits_of_stays h).1
    rw [List.length_replicate] at hlen
    exact absurd hlen (by decide)
  · exact (fits_of_stays h).2 (by decide)
  · rw [BoundedLengthString.serializeIn_offset]
    decide

end SocketCPlusPlus.General
