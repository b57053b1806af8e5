import Mathlib.Data.List.TakeWhile
import SocketCPlusPlus.Packets.Serialize

/-! Sequences of typed values written and read back through the templates. -/
namespace SocketCPlusPlus.Packets
open Foundation

/-- A specialisation whose reader undoes its writer on the valid values. -/
structure RoundTrips (T : Type) [Serializer T] (Valid : T → Prop) (wire : T → List UInt8) :
    Prop where
  out : ∀ value b, Valid value → (Serialize.Out value).exec b = ((), b.append (wire value))
  back : ∀ value old data offset, Valid value →
    data.load offset (wire value).length = wire value →
    (Serialize.In old).eval data offset = (value, offset + (wire value).length)

private theorem wordAt_back {data : Memory} {offset size x : Nat} (hx : x < 256 ^ size)
    (h : data.load offset size = msbFirst size x) : Serialize.wordAt data offset size = x := by
  rw [Serialize.wordAt, h, beValue_msbFirst, Nat.mod_eq_of_lt hx]

theorem u8_roundTrips : RoundTrips UInt8 (fun _ => True) (fun v => [v]) where
  out value b _ := Serialize.exec_out_u8 b value
  back value old data offset _ h := by
    have hb : data offset = value := by simpa [Store.load] using h
    simp [hb]

theorem u16_roundTrips : RoundTrips UInt16 (fun _ => True) (fun v => msbFirst 2 v.toNat) where
  out value b _ := Serialize.exec_out_u16 b value
  back value old data offset _ h := by
    rw [msbFirst_length] at h
    simp [wordAt_back value.toNat_lt h]

theorem u32_roundTrips : RoundTrips UInt32 (fun _ => True) (fun v => msbFirst 4 v.toNat) where
  out value b _ := Serialize.exec_out_u32 b value
  back value old data offset _ h := by
    rw [msbFirst_length] at h
    simp [wordAt_back value.toNat_lt h]

theorem int_roundTrips :
    RoundTrips Int32 (fun _ => True) (fun v => msbFirst 4 v.toUInt32.toNat) where
  out value b _ := Serialize.exec_out_int b value
  back value old data offset _ h := by
    rw [msbFirst_length] at h
    simp [wordAt_back value.toUInt32.toNat_lt h]

theorem u64_roundTrips : RoundTrips UInt64 (fun _ => True) (fun v => msbFirst 8 v.toNat) where
  out value b _ := Serialize.exec_out_u64 b value
  back value old data offset _ h := by
    rw [msbFirst_length] at h
    simp [wordAt_back value.toNat_lt h]

theorem bool_roundTrips :
    RoundTrips Bool (fun _ => True) (fun v => [if v then 1 else 0]) where
  out value b _ := Serialize.exec_out_bool b value
  back value old data offset _ h := by
    have hb : data offset = if value then 1 else 0 := by simpa [Store.load] using h
    cases value <;> simp [hb]

/-- The strings that fit the reader's buffer and survive its C-string assignment. -/
def StringFits (value : StdString) : Prop := value.length ≤ maxString - 1 ∧ 0 ∉ value

def stringWire (value : StdString) : List UInt8 := msbFirst 2 value.length ++ value

theorem cString_of_nul_free {value : StdString} (h : 0 ∉ value) : cString value = value := by
  rw [cString, List.takeWhile_eq_self_iff]
  intro c hc
  have hne : c ≠ 0 := fun he => h (he ▸ hc)
  simpa using hne

theorem string_roundTrips : RoundTrips StdString StringFits stringWire where
  out value b h := by
    have hm : value.length % 2 ^ 16 = value.length :=
      Nat.mod_eq_of_lt (by have := h.1; simp only [maxString] at this; omega)
    rw [Serialize.exec_out_string, hm, List.take_length]
    rfl
  back value old data offset h hload := by
    have hmax := h.1
    rw [stringWire, List.length_append, msbFirst_length, Store.load_add] at hload
    obtain ⟨hlen, hbody⟩ := List.append_inj hload (by simp)
    have hw : Serialize.wordAt data offset 2 = value.length :=
      wordAt_back (by simp only [maxString] at hmax; omega) hlen
    rw [Serialize.eval_in_string, hw, Nat.min_eq_left hmax, hbody, cString_of_nul_free h.2]
    simp [stringWire, Nat.add_assoc]

/-! Arrays and mixed sequences. -/

section Lists
variable {T : Type} [Serializer T] {Valid : T → Prop} {wire : T → List UInt8}

theorem exec_out_list (h : RoundTrips T Valid wire) (values : List T)
    (hv : ∀ v ∈ values, Valid v) (b : Buffer) :
    (forM values Serialize.Out : Output Unit).exec b = ((), b.append (values.flatMap wire)) := by
  induction values generalizing b with
  | nil => simp
  | cons v values ih =>
    rw [List.forM_cons, Output.exec_bind, h.out v b (hv v (by simp)),
      ih (fun w hw => hv w (by simp [hw]))]
    simp

private theorem eval_in_list (h : RoundTrips T Valid wire) (values olds : List T)
    (hv : ∀ v ∈ values, Valid v) (hlen : olds.length = values.length) (data : Memory)
    (offset : Nat)
    (hload : data.load offset (values.flatMap wire).length = values.flatMap wire) :
    (olds.mapM Serialize.In).eval data offset =
      (values, offset + (values.flatMap wire).length) := by
  induction values generalizing olds offset with
  | nil =>
    have ho : olds = [] := List.length_eq_zero_iff.mp hlen
    simp [ho]
  | cons v values ih =>
    obtain ⟨old, olds, rfl⟩ := List.exists_cons_of_length_eq_add_one hlen
    rw [List.flatMap_cons, List.length_append, Store.load_add] at hload
    obtain ⟨hhead, htail⟩ := List.append_inj hload (by simp)
    have hin := h.back v old data offset (hv v (by simp)) hhead
    have hrest := ih olds (fun w hw => hv w (by simp [hw])) (by simpa using hlen) _ htail
    simp [List.mapM_cons, hin, hrest, Nat.add_assoc]

end Lists

private theorem eval_mapM_toList {T : Type} {n : Nat} (f : T → Input T) (values : Vector T n)
    (data : Memory) (offset : Nat) :
    ((values.mapM f).eval data offset).1.toList = ((values.toList.mapM f).eval data offset).1 ∧
      ((values.mapM f).eval data offset).2 = ((values.toList.mapM f).eval data offset).2 := by
  have hmap : Vector.toArray <$> values.mapM f = values.toArray.mapM f := Vector.toArray_mapM
  have h := congrArg (Input.eval data offset) hmap
  rw [Array.mapM_eq_mapM_toList, Input.eval_map, Input.eval_map, Prod.mk.injEq] at h
  exact ⟨congrArg Array.toList h.1, h.2⟩

theorem array_roundTrips {T : Type} [Serializer T] {Valid : T → Prop} {wire : T → List UInt8}
    (n : Nat) (h : RoundTrips T Valid wire) :
    RoundTrips (Vector T n) (fun v => ∀ x ∈ v.toList, Valid x)
      (fun v => v.toList.flatMap wire) where
  out value b hv := exec_out_list h value.toList hv b
  back value old data offset hv hload := by
    have hlist := eval_in_list h value.toList old.toList hv (by simp) data offset hload
    obtain ⟨hval, hoff⟩ := eval_mapM_toList Serialize.In old data offset
    rw [hlist] at hval hoff
    exact Prod.ext (Vector.toList_inj.mp hval) hoff

/-! The types a stream may mix, by name. -/

inductive WireType where
  | u8 | u16 | u32 | int | u64 | bool | string
  | array (element : WireType) (size : Nat)
  deriving DecidableEq, Repr

namespace WireType

@[reducible] def Value : WireType → Type
  | .u8 => UInt8 | .u16 => UInt16 | .u32 => UInt32 | .int => Int32 | .u64 => UInt64
  | .bool => Bool | .string => StdString
  | .array t n => Vector t.Value n

/-- The overload each type selects. -/
instance serializer : (t : WireType) → Serializer t.Value
  | .u8 => inferInstanceAs (Serializer UInt8)
  | .u16 => inferInstanceAs (Serializer UInt16)
  | .u32 => inferInstanceAs (Serializer UInt32)
  | .int => inferInstanceAs (Serializer Int32)
  | .u64 => inferInstanceAs (Serializer UInt64)
  | .bool => inferInstanceAs (Serializer Bool)
  | .string => inferInstanceAs (Serializer StdString)
  | .array t n =>
    let _ := t.serializer
    inferInstanceAs (Serializer (Vector t.Value n))

/-- Strings fit the reader; everything else is unrestricted. -/
def Valid : (t : WireType) → t.Value → Prop
  | .string, s => StringFits s
  | .array t _, v => ∀ x ∈ v.toList, t.Valid x
  | .u8, _ | .u16, _ | .u32, _ | .int, _ | .u64, _ | .bool, _ => True

/-- The bytes of a value: every integer most significant byte first. -/
def wire : (t : WireType) → t.Value → List UInt8
  | .u8, v => [v]
  | .u16, v => msbFirst 2 v.toNat
  | .u32, v => msbFirst 4 v.toNat
  | .int, v => msbFirst 4 v.toUInt32.toNat
  | .u64, v => msbFirst 8 v.toNat
  | .bool, v => [if v then 1 else 0]
  | .string, s => stringWire s
  | .array t _, v => v.toList.flatMap t.wire

theorem roundTrips (t : WireType) : RoundTrips t.Value t.Valid t.wire := by
  induction t with
  | u8 => exact u8_roundTrips
  | u16 => exact u16_roundTrips
  | u32 => exact u32_roundTrips
  | int => exact int_roundTrips
  | u64 => exact u64_roundTrips
  | bool => exact bool_roundTrips
  | string => exact string_roundTrips
  | array t n ih => exact array_roundTrips n ih

end WireType

/-- A value together with its type. -/
abbrev TypedValue := (t : WireType) × t.Value

def outAll (values : List TypedValue) : Output Unit :=
  forM values (fun v => Serialize.Out v.2)

def inAll (targets : List TypedValue) : Input (List TypedValue) :=
  targets.mapM (fun v => Sigma.mk v.1 <$> Serialize.In v.2)

def wireAll (values : List TypedValue) : List UInt8 := values.flatMap (fun v => v.1.wire v.2)

theorem exec_outAll (values : List TypedValue) (hv : ∀ v ∈ values, v.1.Valid v.2) (b : Buffer) :
    (outAll values).exec b = ((), b.append (wireAll values)) := by
  induction values generalizing b with
  | nil => simp [outAll, wireAll]
  | cons v values ih =>
    have hrest := ih (fun w hw => hv w (by simp [hw]))
    rw [outAll, List.forM_cons, Output.exec_bind, v.1.roundTrips.out v.2 b (hv v (by simp))]
    rw [outAll] at hrest
    simp [hrest, wireAll]

/-- While the end of a sequence is an `int`, so is the offset behind each of its values. -/
theorem outAll_offsets_fit_int (front later : List TypedValue)
    (hv : ∀ v ∈ front ++ later, v.1.Valid v.2) (b : Buffer)
    (hend : ((outAll (front ++ later)).exec b).2.bufferOffset < 2 ^ 31) :
    ((outAll front).exec b).2.bufferOffset < 2 ^ 31 := by
  have hfront : ∀ v ∈ front, v.1.Valid v.2 := fun v hmem => hv v (List.mem_append_left _ hmem)
  rw [exec_outAll _ hv, Buffer.append_offset, wireAll, List.flatMap_append,
    List.length_append] at hend
  rw [exec_outAll _ hfront, Buffer.append_offset, wireAll]
  omega

private theorem inAll_cons (v : TypedValue) (targets : List TypedValue) :
    inAll (v :: targets) = (do
      let value ← Serialize.In v.2
      let rest ← inAll targets
      pure (⟨v.1, value⟩ :: rest)) := by
  simp [inAll, List.mapM_cons]

theorem eval_inAll (values targets : List TypedValue) (hv : ∀ v ∈ values, v.1.Valid v.2)
    (ht : targets.map Sigma.fst = values.map Sigma.fst) (data : Memory) (offset : Nat)
    (hload : data.load offset (wireAll values).length = wireAll values) :
    (inAll targets).eval data offset = (values, offset + (wireAll values).length) := by
  induction values generalizing targets offset with
  | nil =>
    have ho : targets = [] := by simpa using ht
    simp [ho, inAll, wireAll]
  | cons v values ih =>
    obtain ⟨t, value⟩ := v
    cases targets with
    | nil => simp at ht
    | cons old targets =>
      obtain ⟨t', old⟩ := old
      obtain ⟨rfl, hrest⟩ : t' = t ∧ targets.map Sigma.fst = values.map Sigma.fst := by
        simpa using ht
      rw [wireAll, List.flatMap_cons, List.length_append, Store.load_add] at hload
      obtain ⟨hhead, htail⟩ := List.append_inj hload (by simp)
      have hin := t'.roundTrips.back value old data offset (hv _ List.mem_cons_self) hhead
      have hback := ih targets (fun w hw => hv w (by simp [hw])) hrest _ htail
      simp [inAll_cons, hin, hback, wireAll, Nat.add_assoc]

/-- Any mixed sequence is read back as written, from any offset over any memory; the
writer touches its own range only and lays every integer out most significant byte first. -/
theorem mixed_sequence_round_trip (values targets : List TypedValue)
    (hv : ∀ v ∈ values, v.1.Valid v.2)
    (ht : targets.map Sigma.fst = values.map Sigma.fst) (b : Buffer) :
    let written := ((outAll values).exec b).2
    (inAll targets).eval written.data b.bufferOffset = (values, written.bufferOffset) ∧
      (∀ i, i < b.bufferOffset ∨ written.bufferOffset ≤ i → written.data i = b.data i) ∧
      written.bufferOffset = b.bufferOffset + (wireAll values).length ∧
      written.data.load b.bufferOffset (wireAll values).length = wireAll values := by
  rw [exec_outAll values hv b]
  refine ⟨?_, fun i hi => b.append_frame _ hi, rfl, b.append_load _⟩
  exact eval_inAll values targets hv ht _ _ (b.append_load _)

abbrev sample : List TypedValue := [⟨.u16, 0xFEAC⟩, ⟨.string, [116, 101, 115, 116]⟩,
  ⟨.array .u8 2, #v[1, 2]⟩, ⟨.u64, 0x0102030405060708⟩]
abbrev sampleTargets : List TypedValue := [⟨.u16, 0⟩, ⟨.string, [1]⟩,
  ⟨.array .u8 2, #v[0, 0]⟩, ⟨.u64, 0⟩]

theorem mixed_sample_round_trip :
    let b : Buffer := ⟨fun _ => 7, 3⟩
    let written := ((outAll sample).exec b).2
    (inAll sampleTargets).eval written.data b.bufferOffset = (sample, written.bufferOffset) ∧
      (∀ i, i < b.bufferOffset ∨ written.bufferOffset ≤ i → written.data i = b.data i) ∧
      written.bufferOffset = b.bufferOffset + (wireAll sample).length ∧
      written.data.load b.bufferOffset (wireAll sample).length = wireAll sample :=
  mixed_sequence_round_trip sample sampleTargets
    (by simp [sample, WireType.Valid, StringFits, maxString]) rfl ⟨fun _ => 7, 3⟩

end SocketCPlusPlus.Packets
