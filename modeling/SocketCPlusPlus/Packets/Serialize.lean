import Mathlib.Data.UInt
import SocketCPlusPlus.Foundation.Reading
import SocketCPlusPlus.Foundation.ByteOrder

/-! `Serialize::In` and `Serialize::Out` over flat byte memory on a little-endian host.
The offset is the state both directions advance. It stands for an `int` of the source,
exactly so as long as no `int` overflows. `minorVersion` is passed along by every function
of the source and read by none, so it is left out. -/
namespace SocketCPlusPlus.Packets
open Foundation

abbrev Memory := Store UInt8

/-- A reader: it advances `bufferOffset` over memory it does not change. -/
abbrev Input := StateT Nat (Reading UInt8)

abbrev peekByte (offset : Nat) : Reading UInt8 UInt8 := Reading.peek offset
abbrev peekBytes (offset size : Nat) : Reading UInt8 (List UInt8) := Reading.peekBlock offset size

/-- Value read and offset reached from an offset on. -/
def Input.eval {α : Type} (data : Memory) (offset : Nat) (p : Input α) : α × Nat :=
  (p.run offset).run data

/-- The destination of a writer: memory and `bufferOffset`. -/
structure Buffer where
  data : Memory
  bufferOffset : Nat

/-- The effect of writing a block at the current offset and moving past it. -/
def Buffer.append (b : Buffer) (bs : List UInt8) : Buffer :=
  ⟨b.data.store b.bufferOffset bs, b.bufferOffset + bs.length⟩

abbrev Output := StateM Buffer

/-- Value returned and destination reached by a writer. -/
def Output.exec {α : Type} (b : Buffer) (p : Output α) : α × Buffer := (p.run b).run

namespace Input
variable {α γ : Type} (data : Memory) (offset : Nat)

@[simp] theorem eval_pure (a : α) : eval data offset (pure a) = (a, offset) := rfl

@[simp] theorem eval_bind (p : Input α) (f : α → Input γ) :
    eval data offset (p >>= f) =
      eval data (eval data offset p).2 (f (eval data offset p).1) := by
  simp [eval]

@[simp] theorem eval_map (p : Input α) (f : α → γ) :
    eval data offset (f <$> p) = (f (eval data offset p).1, (eval data offset p).2) := by
  simp [eval]

@[simp] theorem eval_get : eval data offset get = (offset, offset) := rfl

@[simp] theorem eval_set (n : Nat) : eval data offset (set n) = ((), n) := rfl

@[simp] theorem eval_lift (p : Reading UInt8 α) :
    eval data offset (liftM p : Input α) = (p.run data, offset) := by
  simp [eval, liftM, monadLift, MonadLift.monadLift, StateT.lift, StateT.run]

end Input

namespace Output
variable {α γ : Type} (b : Buffer)

@[simp] theorem exec_pure (a : α) : exec b (pure a) = (a, b) := rfl

@[simp] theorem exec_bind (p : Output α) (f : α → Output γ) :
    exec b (p >>= f) = exec (exec b p).2 (f (exec b p).1) := rfl

@[simp] theorem exec_map (p : Output α) (f : α → γ) :
    exec b (f <$> p) = (f (exec b p).1, (exec b p).2) := rfl

@[simp] theorem exec_get : exec b get = (b, b) := rfl

@[simp] theorem exec_set (b' : Buffer) : exec b (set b') = ((), b') := rfl

@[simp] theorem exec_modify (f : Buffer → Buffer) : exec b (modify f) = ((), f b) := rfl

end Output

namespace Buffer

@[simp] theorem append_nil (b : Buffer) : b.append [] = b := by
  simp [append]

@[simp] theorem append_append (b : Buffer) (xs ys : List UInt8) :
    (b.append xs).append ys = b.append (xs ++ ys) := by
  simp [append, Store.store_append, Nat.add_assoc]

@[simp] theorem append_offset (b : Buffer) (bs : List UInt8) :
    (b.append bs).bufferOffset = b.bufferOffset + bs.length := rfl

@[simp] theorem append_load (b : Buffer) (bs : List UInt8) :
    (b.append bs).data.load b.bufferOffset bs.length = bs :=
  Store.load_store_same ..

theorem append_frame (b : Buffer) (bs : List UInt8) {i : Nat}
    (h : i < b.bufferOffset ∨ (b.append bs).bufferOffset ≤ i) :
    (b.append bs).data i = b.data i :=
  Store.store_frame _ _ h

end Buffer

/-! Byte order of the host. -/

def htons (value : UInt16) : UInt16 := .ofNat (swapBytes 2 value.toNat)
def ntohs (value : UInt16) : UInt16 := htons value
def htonl (value : UInt32) : UInt32 := .ofNat (swapBytes 4 value.toNat)
def ntohl (value : UInt32) : UInt32 := htonl value

/-- The little-endian branch of the hand-written swap. -/
def htonll (value : UInt64) : UInt64 :=
  let highPart := htonl (value >>> 32).toUInt32
  let lowPart := htonl (value &&& 0xFFFFFFFF).toUInt32
  (lowPart.toUInt64 <<< 32) ||| highPart.toUInt64

def ntohll (value : UInt64) : UInt64 := htonll value

theorem htons_toNat (v : UInt16) : (htons v).toNat = swapBytes 2 v.toNat := by
  rw [htons, UInt16.toNat_ofNat_of_lt' (swapBytes_lt 2 _)]

theorem htonl_toNat (v : UInt32) : (htonl v).toNat = swapBytes 4 v.toNat := by
  rw [htonl, UInt32.toNat_ofNat_of_lt' (swapBytes_lt 4 _)]

private theorem join_halves (high low : UInt32) :
    ((low.toUInt64 <<< 32) ||| high.toUInt64).toNat = 256 ^ 4 * low.toNat + high.toNat := by
  have hl := low.toNat_lt
  have hh := high.toNat_lt
  have hs : (low.toUInt64 <<< 32).toNat = 2 ^ 32 * low.toNat := by
    rw [UInt64.toNat_shiftLeft]
    simp [Nat.shiftLeft_eq]
    omega
  rw [UInt64.toNat_or, hs, UInt32.toNat_toUInt64, ← Nat.two_pow_add_eq_or_of_lt hh]
  norm_num

/-- The hand-written 64-bit swap reverses all eight bytes. -/
theorem htonll_toNat (v : UInt64) : (htonll v).toNat = swapBytes 8 v.toNat := by
  let high := v.toNat / 2 ^ 32
  let low := v.toNat % 2 ^ 32
  have hv := v.toNat_lt
  have hhigh : (v >>> 32).toUInt32.toNat = high := by
    simp [high, Nat.shiftRight_eq_div_pow]
    omega
  have hlow : (v &&& 0xFFFFFFFF).toUInt32.toNat = low := by
    have hm := Nat.and_two_pow_sub_one_eq_mod (v.toNat % 2 ^ 32) 32
    rw [Nat.mod_mod] at hm
    simpa [low] using hm
  have hnat : (htonll v).toNat = 256 ^ 4 * swapBytes 4 low + swapBytes 4 high := by
    simp only [htonll, join_halves, htonl_toNat, hhigh, hlow]
  have hbytes : leBytes 8 (htonll v).toNat = (leBytes 8 v.toNat).reverse := by
    have hsplit : v.toNat = 256 ^ 4 * high + low := by simp only [high, low]; omega
    rw [hnat, leBytes_split 4 4 _ _ (swapBytes_lt 4 _), leBytes_swapBytes, leBytes_swapBytes,
      msbFirst_eq_reverse, msbFirst_eq_reverse, ← List.reverse_append, hsplit,
      leBytes_split 4 4 _ _ (by simp only [low]; omega)]
  have hval := congrArg leValue hbytes
  rwa [leValue_leBytes, Nat.mod_eq_of_lt (by simpa using (htonll v).toNat_lt),
    ← msbFirst_eq_reverse] at hval

/-! The templates. -/

/-- One specialisation of `Serializer<T>`; `In` overwrites the variable it is given. -/
class Serializer (T : Type) where
  In : T → Input T
  Out : T → Output Unit

namespace Serialize

def In {T : Type} [Serializer T] (value : T) : Input T := Serializer.In value
def Out {T : Type} [Serializer T] (value : T) : Output Unit := Serializer.Out value

/-- Read a host-order word of the given size at the offset and move past it. -/
def inWord {T : Type} (size : Nat) (convert : Nat → T) : Input T := do
  let offset ← get
  let bytes ← peekBytes offset size
  set (offset + size)
  pure (convert (leValue bytes))

def outWord (size word : Nat) : Output Unit :=
  modify (·.append (leBytes size word))

end Serialize

instance : Serializer UInt8 where
  In _ := do
    let offset ← get
    let value ← peekByte offset
    set (offset + 1)
    pure value
  Out value := modify (·.append [value])

instance : Serializer UInt16 where
  In _ := Serialize.inWord 2 (fun word => ntohs (.ofNat word))
  Out value := Serialize.outWord 2 (htons value).toNat

instance : Serializer UInt32 where
  In _ := Serialize.inWord 4 (fun word => ntohl (.ofNat word))
  Out value := Serialize.outWord 4 (htonl value).toNat

instance : Serializer Int32 where
  In _ := Serialize.inWord 4 (fun word => (ntohl (.ofNat word)).toInt32)
  Out value := Serialize.outWord 4 (htonl value.toUInt32).toNat

instance : Serializer UInt64 where
  In _ := Serialize.inWord 8 (fun word => ntohll (.ofNat word))
  Out value := Serialize.outWord 8 (htonll value).toNat

instance : Serializer Bool where
  In _ := do
    let offset ← get
    let tempValue ← peekByte offset
    set (offset + 1)
    pure (tempValue != 0)
  Out value := modify (·.append [if value then 1 else 0])

/-- Arrays element by element. -/
instance {T : Type} {n : Nat} [Serializer T] : Serializer (Vector T n) where
  In value := value.mapM Serialize.In
  Out value := forM value.toList Serialize.Out

/-- A `std::string`: any bytes, NUL included. -/
abbrev StdString := List UInt8

def maxString : Nat := 3 * 1024

/-- The string a NUL-terminated character buffer is assigned as. -/
def cString (buffer : List UInt8) : StdString := buffer.takeWhile (· != 0)

/-- The reader clamps the length to its local buffer, advances by the clamped length
and assigns the buffer as a C string. -/
def inString : Input StdString := do
  let len ← Serialize.In (0 : UInt16)
  if len = 0 then
    pure []
  else
    let len := if len.toNat > maxString - 1 then maxString - 1 else len.toNat
    let offset ← get
    let buffer ← peekBytes offset len
    set (offset + len)
    pure (cString buffer)

/-- The writer truncates the size to 16 bits and copies that many bytes. -/
def outString (value : StdString) : Output Unit := do
  let len : UInt16 := .ofNat value.length
  Serialize.Out len
  if len = 0 then
    pure ()
  else
    modify (·.append (value.take len.toNat))

instance : Serializer StdString where
  In _ := inString
  Out := outString

/-- The classes with members `SerializeIn` and `SerializeOut`; the flag is their result. -/
class SelfSerializable (T : Type) where
  serializeIn : T → Input (Bool × T)
  serializeOut : T → Output Bool

/-- The specialisation for such a class drops the flag. -/
instance {T : Type} [SelfSerializable T] : Serializer T where
  In value := do
    let (_, value) ← SelfSerializable.serializeIn value
    pure value
  Out value := do
    let _ ← SelfSerializable.serializeOut value
    pure ()

/-! What each specialisation reads and writes. -/

namespace Serialize

/-- The unsigned number of a block of bytes in network order. -/
def wordAt (data : Memory) (offset size : Nat) : Nat := beValue (data.load offset size)

theorem wordAt_lt (data : Memory) (offset size : Nat) : wordAt data offset size < 256 ^ size := by
  simpa [wordAt] using beValue_lt (data.load offset size)

theorem msbFirst_wordAt (data : Memory) (offset size : Nat) :
    msbFirst size (wordAt data offset size) = data.load offset size := by
  have h := msbFirst_beValue (data.load offset size)
  rwa [Store.load_length] at h

theorem u16_wordAt_toNat (data : Memory) (offset : Nat) :
    (UInt16.ofNat (wordAt data offset 2)).toNat = wordAt data offset 2 :=
  UInt16.toNat_ofNat_of_lt' (wordAt_lt data offset 2)

theorem u32_wordAt_toNat (data : Memory) (offset : Nat) :
    (UInt32.ofNat (wordAt data offset 4)).toNat = wordAt data offset 4 :=
  UInt32.toNat_ofNat_of_lt' (wordAt_lt data offset 4)

theorem u64_wordAt_toNat (data : Memory) (offset : Nat) :
    (UInt64.ofNat (wordAt data offset 8)).toNat = wordAt data offset 8 :=
  UInt64.toNat_ofNat_of_lt' (wordAt_lt data offset 8)

@[simp] theorem msbFirst_u16 (data : Memory) (offset : Nat) :
    msbFirst 2 (UInt16.ofNat (wordAt data offset 2)).toNat = data.load offset 2 := by
  rw [u16_wordAt_toNat, msbFirst_wordAt]

@[simp] theorem msbFirst_u32 (data : Memory) (offset : Nat) :
    msbFirst 4 (UInt32.ofNat (wordAt data offset 4)).toNat = data.load offset 4 := by
  rw [u32_wordAt_toNat, msbFirst_wordAt]

@[simp] theorem msbFirst_u64 (data : Memory) (offset : Nat) :
    msbFirst 8 (UInt64.ofNat (wordAt data offset 8)).toNat = data.load offset 8 := by
  rw [u64_wordAt_toNat, msbFirst_wordAt]

private theorem swap_host (data : Memory) (offset size : Nat) :
    swapBytes size (leValue (data.load offset size)) = wordAt data offset size := by
  have h := swapBytes_leValue (data.load offset size)
  rwa [Store.load_length] at h

private theorem host_lt (data : Memory) (offset size : Nat) :
    leValue (data.load offset size) < 256 ^ size := by
  simpa using leValue_lt (data.load offset size)

theorem eval_inWord {T : Type} (data : Memory) (offset size : Nat) (convert : Nat → T) :
    (inWord size convert).eval data offset =
      (convert (leValue (data.load offset size)), offset + size) := by
  simp [inWord]

@[simp] theorem eval_in_u8 (data : Memory) (offset : Nat) (value : UInt8) :
    (In value).eval data offset = (data offset, offset + 1) := by
  simp [In, Serializer.In]

@[simp] theorem eval_in_u16 (data : Memory) (offset : Nat) (value : UInt16) :
    (In value).eval data offset = (.ofNat (wordAt data offset 2), offset + 2) := by
  simp only [In, Serializer.In, eval_inWord, ntohs, htons]
  rw [UInt16.toNat_ofNat_of_lt' (host_lt data offset 2), swap_host]

@[simp] theorem eval_in_u32 (data : Memory) (offset : Nat) (value : UInt32) :
    (In value).eval data offset = (.ofNat (wordAt data offset 4), offset + 4) := by
  simp only [In, Serializer.In, eval_inWord, ntohl, htonl]
  rw [UInt32.toNat_ofNat_of_lt' (host_lt data offset 4), swap_host]

@[simp] theorem eval_in_int (data : Memory) (offset : Nat) (value : Int32) :
    (In value).eval data offset =
      ((UInt32.ofNat (wordAt data offset 4)).toInt32, offset + 4) := by
  simp only [In, Serializer.In, eval_inWord, ntohl, htonl]
  rw [UInt32.toNat_ofNat_of_lt' (host_lt data offset 4), swap_host]

@[simp] theorem eval_in_u64 (data : Memory) (offset : Nat) (value : UInt64) :
    (In value).eval data offset = (.ofNat (wordAt data offset 8), offset + 8) := by
  have hv : ntohll (.ofNat (leValue (data.load offset 8))) = .ofNat (wordAt data offset 8) := by
    apply UInt64.toNat_inj.mp
    rw [ntohll, htonll_toNat, UInt64.toNat_ofNat_of_lt' (host_lt data offset 8), swap_host,
      u64_wordAt_toNat]
  simp only [In, Serializer.In, eval_inWord, hv]

@[simp] theorem eval_in_bool (data : Memory) (offset : Nat) (value : Bool) :
    (In value).eval data offset = (data offset != 0, offset + 1) := by
  simp [In, Serializer.In]

@[simp] theorem exec_out_u8 (b : Buffer) (value : UInt8) :
    (Out value).exec b = ((), b.append [value]) := by
  simp [Out, Serializer.Out]

@[simp] theorem exec_out_u16 (b : Buffer) (value : UInt16) :
    (Out value).exec b = ((), b.append (msbFirst 2 value.toNat)) := by
  simp [Out, Serializer.Out, outWord, htons_toNat, leBytes_swapBytes]

@[simp] theorem exec_out_u32 (b : Buffer) (value : UInt32) :
    (Out value).exec b = ((), b.append (msbFirst 4 value.toNat)) := by
  simp [Out, Serializer.Out, outWord, htonl_toNat, leBytes_swapBytes]

@[simp] theorem exec_out_int (b : Buffer) (value : Int32) :
    (Out value).exec b = ((), b.append (msbFirst 4 value.toUInt32.toNat)) := by
  simp [Out, Serializer.Out, outWord, htonl_toNat, leBytes_swapBytes]

@[simp] theorem exec_out_u64 (b : Buffer) (value : UInt64) :
    (Out value).exec b = ((), b.append (msbFirst 8 value.toNat)) := by
  simp [Out, Serializer.Out, outWord, htonll_toNat, leBytes_swapBytes]

@[simp] theorem exec_out_bool (b : Buffer) (value : Bool) :
    (Out value).exec b = ((), b.append [if value then 1 else 0]) := by
  simp [Out, Serializer.Out]

theorem exec_out_string (b : Buffer) (value : StdString) :
    (Out value).exec b = ((), b.append (msbFirst 2 (value.length % 2 ^ 16) ++
      value.take (value.length % 2 ^ 16))) := by
  change (outString value).exec b = _
  have hlen : (UInt16.ofNat value.length).toNat = value.length % 2 ^ 16 := UInt16.toNat_ofNat'
  by_cases h : UInt16.ofNat value.length = 0
  · have hz : value.length % 2 ^ 16 = 0 := by rw [← hlen, h]; rfl
    rw [hz]
    simp [outString, h]
  · simp [outString, h, hlen]

theorem eval_in_self {T : Type} [SelfSerializable T] (data : Memory) (offset : Nat) (value : T) :
    (In value).eval data offset =
      (((SelfSerializable.serializeIn value).eval data offset).1.2,
        ((SelfSerializable.serializeIn value).eval data offset).2) := by
  simp [In, Serializer.In]

theorem exec_out_self {T : Type} [SelfSerializable T] (b : Buffer) (value : T) :
    (Out value).exec b = ((), ((SelfSerializable.serializeOut value).exec b).2) := by
  simp [Out, Serializer.Out]

theorem eval_in_string (data : Memory) (offset : Nat) (value : StdString) :
    (In value).eval data offset =
      (cString (data.load (offset + 2) (min (wordAt data offset 2) (maxString - 1))),
        offset + 2 + min (wordAt data offset 2) (maxString - 1)) := by
  change inString.eval data offset = _
  have hlen := u16_wordAt_toNat data offset
  by_cases h : UInt16.ofNat (wordAt data offset 2) = 0
  · have hz : wordAt data offset 2 = 0 := by rw [← hlen, h]; rfl
    simp [inString, hz, Store.load, cString]
  · have hclamp : (if wordAt data offset 2 > maxString - 1 then maxString - 1
        else wordAt data offset 2) = min (wordAt data offset 2) (maxString - 1) := by
      split <;> omega
    simp [inString, h, hlen, hclamp]

end Serialize

end SocketCPlusPlus.Packets
