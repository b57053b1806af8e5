import SocketCPlusPlus.Foundation.Regroup
import SocketCPlusPlus.Packets.Serialize

/-! Base64 by the iterators of Boost's archive library. The encoder patches its padding in
afterwards; the decoder takes the padding for zero bits. -/
namespace SocketCPlusPlus.General
open Foundation Packets

/-- The iterators the codec is put together from. A value that is not there is a dereference that
throws `dataflow_exception`. -/
structure Iterators where
  transformWidth (bitsOut bitsIn : Nat) (base : Nat → Option Nat) : Nat → Option Nat
  base64FromBinary : Nat → UInt8
  binaryFromBase64 : UInt8 → Option Nat

namespace Iterators

def alphabet : List UInt8 :=
  (List.range 26).map (65 + .ofNat ·) ++ (List.range 26).map (97 + .ofNat ·) ++
    (List.range 10).map (48 + .ofNat ·) ++ [43, 47]

def equalsSign : UInt8 := 61

/-- What the library documents of its iterators. -/
structure Documented (it : Iterators) : Prop where
  transformWidth : ∀ bitsOut bitsIn base k,
    it.transformWidth bitsOut bitsIn base k = regroup bitsOut bitsIn base k
  base64FromBinary : ∀ value < 64, alphabet[value]? = some (it.base64FromBinary value)
  binaryFromBase64 : ∀ value < 64, ∀ c, alphabet[value]? = some c →
    it.binaryFromBase64 c = some value
  padding : it.binaryFromBase64 equalsSign = some 0
  other : ∀ c, c ∉ alphabet → c ≠ equalsSign → it.binaryFromBase64 c = none

/-- The characters of a block of n bytes that leaves no bits over. A pointer yields every byte. -/
def base64Enc (it : Iterators) (src : Memory) (n : Nat) : List UInt8 :=
  (List.range (n * 8 / 6)).map fun k =>
    it.base64FromBinary ((it.transformWidth 6 8 (fun i => some (src i).toNat) k).getD 0)

def base64Dec (it : Iterators) (src : Memory) : Nat → Option Nat :=
  it.transformWidth 8 6 fun i => it.binaryFromBase64 (src i)

/-- The `tail` array: the bytes of the last group, zeros where it is not full. -/
def tailOf (src : Memory) (lenRoundedDown count : Nat) : Memory :=
  Store.store (fun _ => 0) 0 (src.load lenRoundedDown count)

/-- The loop that writes the padding from i up to its end. -/
def padding (stop : UInt32) : Nat → UInt32 → Memory → UInt32 × Memory
  | 0, i, dest => (i, dest)
  | left+1, i, dest =>
    if i < stop then padding stop left (i + 1) (dest.store i.toNat [equalsSign]) else (i, dest)

def base64Encode (it : Iterators) (dest src : Memory) (len : UInt32) : UInt32 × Memory :=
  let oneThirdLen := len / 3
  let lenRoundedDown := oneThirdLen * 3
  let j := lenRoundedDown + oneThirdLen
  let dest := dest.store 0 (it.base64Enc src lenRoundedDown.toNat)
  if lenRoundedDown ≠ len then
    let tail := tailOf src lenRoundedDown.toNat (len - lenRoundedDown).toNat
    let dest := dest.store j.toNat (it.base64Enc tail 3)
    padding (j + 4) (j + 4).toNat (len + oneThirdLen + 1) dest
  else (j, dest)

/-- The loop that writes decoded bytes from i on, until there is no room left or an exception. -/
def decodeLoop (srcIt : Nat → Option Nat) : Nat → Nat → Memory → Nat × Memory
  | 0, i, dest => (i, dest)
  | left+1, i, dest =>
    match srcIt i with
    | none => (i, dest)
    | some value => decodeLoop srcIt left (i + 1) (dest.store i [.ofNat value])

/-- The new `*len`, the destination and how far behind `src` the returned pointer is. -/
def base64Decode (it : Iterators) (dest src : Memory) (len : UInt32) : UInt32 × Memory × UInt32 :=
  let (i, dest) := decodeLoop (it.base64Dec src) len.toNat 0 dest
  let i := UInt32.ofNat i
  (i, dest, (i + 2) / 3 * 4)

/-- Groups of three bytes, the last of them maybe not full. -/
def quads (s : List UInt8) : Nat := (s.length + 2) / 3

/-- The bytes with the zeros that fill the last group. -/
def padded (s : List UInt8) : List UInt8 := s ++ List.replicate (3 * quads s - s.length) 0

def bytesOf (s : List UInt8) (i : Nat) : Option Nat := some (s.getD i 0).toNat

theorem bytesOf_lt {s : List UInt8} {i x : Nat} (h : bytesOf s i = some x) : x < 2 ^ 8 := by
  obtain rfl := Option.some.inj h
  exact UInt8.toNat_lt _

theorem padded_length (s : List UInt8) : (padded s).length = 3 * quads s := by
  rw [padded, List.length_append, List.length_replicate, quads]
  omega

theorem bytesOf_padded (s : List UInt8) (i : Nat) :
    bytesOf s i = some ((padded s).getD i 0).toNat := by
  rw [bytesOf, padded, List.getD_eq_getElem?_getD, List.getD_eq_getElem?_getD,
    List.getElem?_append]
  by_cases h : i < s.length
  · rw [if_pos h]
  · rw [if_neg h, List.getElem?_eq_none (Nat.le_of_not_lt h), List.getElem?_replicate]
    split <;> rfl

section Documented
variable {it : Iterators} (h : it.Documented)
include h

theorem binary_fromBinary {value : Nat} (hvalue : value < 64) :
    it.binaryFromBase64 (it.base64FromBinary value) = some value :=
  h.binaryFromBase64 value hvalue _ (h.base64FromBinary value hvalue)

theorem binary_nul : it.binaryFromBase64 0 = none :=
  h.other 0 (by decide) (by decide)

theorem base64Dec_eq (src : Memory) :
    it.base64Dec src = regroup 8 6 fun i => it.binaryFromBase64 (src i) :=
  funext fun k => h.transformWidth 8 6 _ k

/-- The characters of a block stand for the numbers of six bits in it. -/
theorem base64Enc_get (src : Memory) {n k : Nat} (hk : k < n * 8 / 6) :
    ∃ c, (it.base64Enc src n)[k]? = some c ∧
      it.binaryFromBase64 c = regroup 6 8 (fun i => some (src i).toNat) k := by
  have hsome : (regroup 6 8 (fun i => some (src i).toNat) k).isSome := regroup_isSome fun _ => rfl
  obtain ⟨x, hx⟩ := Option.isSome_iff_exists.mp hsome
  refine ⟨it.base64FromBinary x, ?_, ?_⟩
  · rw [base64Enc, List.getElem?_map, List.getElem?_range hk, Option.map_some, h.transformWidth, hx]
    rfl
  · rw [hx]
    exact binary_fromBinary h (regroup_lt hx)

end Documented

/-! The encoder. -/

theorem padding_eq {stop : UInt32} {left : Nat} {i : UInt32} (dest : Memory)
    (hi : i.toNat ≤ stop.toNat) (hleft : stop.toNat - i.toNat ≤ left) :
    padding stop left i dest =
      (stop, dest.store i.toNat (List.replicate (stop.toNat - i.toNat) equalsSign)) := by
  induction left generalizing i dest with
  | zero =>
    have hend : i = stop := UInt32.toNat_inj.mp (by omega)
    rw [padding, hend, Nat.sub_self, List.replicate_zero, Store.store_nil]
  | succ left ih =>
    rw [padding]
    split
    · next hlt =>
      have hlt' := UInt32.lt_iff_toNat_lt.mp hlt
      have hstop := stop.toNat_lt
      have hnext : (i + 1).toNat = i.toNat + 1 := by
        rw [UInt32.toNat_add, UInt32.toNat_one]
        exact Nat.mod_eq_of_lt (by omega)
      have hcount : stop.toNat - i.toNat = (stop.toNat - (i + 1).toNat) + 1 := by omega
      rw [ih _ (by omega) (by omega), hcount, List.replicate_succ, hnext]
      exact congrArg (stop, ·) (Store.store_append dest i.toNat [equalsSign] _).symm
    · next hge =>
      have hge' := mt UInt32.lt_iff_toNat_lt.mpr hge
      have hend : i = stop := UInt32.toNat_inj.mp (by omega)
      rw [hend, Nat.sub_self, List.replicate_zero, Store.store_nil]

/-- The encoder's lengths, as long as 32 bits hold the text's. -/
structure Lengths (n : Nat) (len oneThirdLen lenRoundedDown j : UInt32) : Prop where
  whole : len.toNat = n
  rounded : lenRoundedDown.toNat = 3 * (n / 3)
  block : j.toNat = 4 * (n / 3)
  rest : (len - lenRoundedDown).toNat = n % 3
  stop : n % 3 ≠ 0 → (j + 4).toNat = 4 * (n / 3) + 4
  start : n % 3 ≠ 0 → (len + oneThirdLen + 1).toNat = 4 * (n / 3) + n % 3 + 1

theorem lengths {n : Nat} (h : 4 * ((n + 2) / 3) < 2 ^ 32) :
    Lengths n (.ofNat n) (.ofNat n / 3) (.ofNat n / 3 * 3) (.ofNat n / 3 * 3 + .ofNat n / 3) := by
  have hlen : (UInt32.ofNat n).toNat = n :=
    UInt32.toNat_ofNat_of_lt' (Nat.lt_of_le_of_lt (by omega) h)
  have hthird : (UInt32.ofNat n / 3).toNat = n / 3 := by
    rw [UInt32.toNat_div, hlen]
    rfl
  have hround : (UInt32.ofNat n / 3 * 3).toNat = 3 * (n / 3) := by
    rw [UInt32.toNat_mul, hthird, show (3 : UInt32).toNat = 3 from rfl]
    omega
  have hj : (UInt32.ofNat n / 3 * 3 + UInt32.ofNat n / 3).toNat = 4 * (n / 3) := by
    rw [UInt32.toNat_add, hround, hthird]
    omega
  refine ⟨hlen, hround, hj, ?_, fun hr => ?_, fun hr => ?_⟩
  · rw [UInt32.toNat_sub_of_le _ _ (UInt32.le_iff_toNat_le.mpr (by omega)), hlen, hround]
    omega
  · rw [UInt32.toNat_add, hj, show (4 : UInt32).toNat = 4 from rfl]
    omega
  · rw [UInt32.toNat_add, UInt32.toNat_add, hlen, hthird, UInt32.toNat_one]
    omega

/-- Characters that stand for the numbers of six bits in the bytes, the last group filled up. -/
structure StandsFor (it : Iterators) (s text : List UInt8) : Prop where
  length : text.length = 4 * quads s
  get : ∀ k < 4 * quads s, ∃ c, text[k]? = some c ∧
    it.binaryFromBase64 c = regroup 6 8 (bytesOf s) k

section Encode
variable {it : Iterators} (h : it.Documented) {s : List UInt8} {src : Memory}
  (hsrc : src.load 0 s.length = s)
include hsrc

theorem src_byte {i : Nat} (hi : i < s.length) : some (src i).toNat = bytesOf s i := by
  have hget := Store.load_get src 0 s.length i hi
  rw [hsrc, Nat.zero_add] at hget
  rw [bytesOf, List.getD_eq_getElem?_getD, hget]
  rfl

theorem tail_byte (i : Nat) :
    some (tailOf src (3 * (s.length / 3)) (s.length % 3) i).toNat =
      bytesOf s (3 * (s.length / 3) + i) := by
  rw [tailOf, Store.store_apply, if_pos (Nat.zero_le i), Nat.sub_zero]
  by_cases hrest : i < s.length % 3
  · rw [Store.load_get _ _ _ _ hrest]
    exact src_byte hsrc (by omega)
  · rw [List.getElem?_eq_none (by simpa using hrest), bytesOf, List.getD_eq_getElem?_getD,
      List.getElem?_eq_none (by omega)]

theorem block_sextet {k : Nat} (hk : k < 4 * (s.length / 3)) :
    regroup 6 8 (fun i => some (src i).toNat) k = regroup 6 8 (bytesOf s) k := by
  refine regroup_congr fun j hj => ?_
  rw [bitAt, bitAt, src_byte hsrc (by omega)]

theorem tail_sextet (k : Nat) :
    regroup 6 8 (fun i => some (tailOf src (3 * (s.length / 3)) (s.length % 3) i).toNat) k =
      regroup 6 8 (bytesOf s) (4 * (s.length / 3) + k) := by
  refine regroup_congr fun j hj => ?_
  have hdiv : ((4 * (s.length / 3) + k) * 6 + j) / 8 = 3 * (s.length / 3) + (k * 6 + j) / 8 := by
    omega
  have hmod : ((4 * (s.length / 3) + k) * 6 + j) % 8 = (k * 6 + j) % 8 := by omega
  rw [bitAt, bitAt, hdiv, hmod, tail_byte hsrc]

omit hsrc in
theorem padding_sextet (s : List UInt8) {k : Nat} (hk : s.length % 3 + 1 ≤ k) :
    regroup 6 8 (bytesOf s) (4 * (s.length / 3) + k) = some 0 := by
  refine collect_eq (by decide) fun j hj => ?_
  have hend : s.length ≤ ((4 * (s.length / 3) + k) * 6 + j) / 8 := by omega
  rw [bitAt, bytesOf, List.getD_eq_getElem?_getD, List.getElem?_eq_none hend]
  simp

/-- The characters of the last group: those with bytes in them, then the padding. -/
def lastGroup (it : Iterators) (src : Memory) (n : Nat) : List UInt8 :=
  (it.base64Enc (tailOf src (3 * (n / 3)) (n % 3)) 3).take (n % 3 + 1) ++
    List.replicate (3 - n % 3) equalsSign

omit hsrc in
theorem base64Enc_length (src : Memory) (n : Nat) : (it.base64Enc src n).length = n * 8 / 6 := by
  rw [base64Enc, List.length_map, List.length_range]

omit hsrc in
theorem lastGroup_length (src : Memory) (n : Nat) : (lastGroup it src n).length = 4 := by
  rw [lastGroup, List.length_append, List.length_take, List.length_replicate, base64Enc_length]
  omega

include h in
theorem lastGroup_get {k : Nat} (hk : k < 4) :
    ∃ c, (lastGroup it src s.length)[k]? = some c ∧
      it.binaryFromBase64 c = regroup 6 8 (bytesOf s) (4 * (s.length / 3) + k) := by
  let tail := tailOf src (3 * (s.length / 3)) (s.length % 3)
  have htake : ((it.base64Enc tail 3).take (s.length % 3 + 1)).length = s.length % 3 + 1 := by
    rw [List.length_take, base64Enc_length]
    omega
  rw [lastGroup, List.getElem?_append, htake]
  by_cases hbytes : k < s.length % 3 + 1
  · obtain ⟨c, hget, hc⟩ := base64Enc_get h tail (n := 3) hk
    exact ⟨c, by rw [if_pos hbytes, List.getElem?_take_of_lt hbytes, hget],
      hc.trans (tail_sextet hsrc k)⟩
  · refine ⟨equalsSign, ?_, h.padding.trans (padding_sextet s (by omega)).symm⟩
    rw [if_neg hbytes, List.getElem?_replicate, if_pos (by omega)]

omit hsrc in
theorem block_length (src : Memory) (n : Nat) :
    (it.base64Enc src (3 * (n / 3))).length = 4 * (n / 3) := by
  rw [base64Enc_length]
  omega

include h in
theorem block_get {k : Nat} (hk : k < 4 * (s.length / 3)) : ∃ c,
    (it.base64Enc src (3 * (s.length / 3)))[k]? = some c ∧
      it.binaryFromBase64 c = regroup 6 8 (bytesOf s) k := by
  obtain ⟨c, hc, hvalue⟩ := base64Enc_get h src (n := 3 * (s.length / 3)) (k := k) (by omega)
  exact ⟨c, hc, hvalue.trans (block_sextet hsrc hk)⟩

include h in
theorem encode_full (dest : Memory) (hfit : 4 * quads s < 2 ^ 32) (hr : s.length % 3 = 0) :
    let text := it.base64Enc src (3 * (s.length / 3))
    StandsFor it s text ∧
      it.base64Encode dest src (.ofNat s.length) = (.ofNat (4 * quads s), dest.store 0 text) := by
  intro text
  have hl := lengths hfit
  have hquads : 4 * quads s = 4 * (s.length / 3) := by
    rw [quads]
    omega
  have hwhole : UInt32.ofNat s.length / 3 * 3 = .ofNat s.length :=
    UInt32.toNat_inj.mp (by rw [hl.rounded, hl.whole]; omega)
  have hj : UInt32.ofNat s.length / 3 * 3 + UInt32.ofNat s.length / 3 = .ofNat (4 * quads s) := by
    apply UInt32.toNat_inj.mp
    rw [hl.block, UInt32.toNat_ofNat_of_lt' hfit, hquads]
  refine ⟨⟨(block_length src s.length).trans hquads.symm, fun k hk => ?_⟩, ?_⟩
  · exact block_get h hsrc (hquads ▸ hk)
  · rw [base64Encode]
    dsimp only
    rw [if_neg (not_not.mpr hwhole), hl.rounded, hj]

include h in
theorem encode_broken (dest : Memory) (hfit : 4 * quads s < 2 ^ 32) (hr : s.length % 3 ≠ 0) :
    let text := it.base64Enc src (3 * (s.length / 3)) ++ lastGroup it src s.length
    StandsFor it s text ∧
      it.base64Encode dest src (.ofNat s.length) = (.ofNat (4 * quads s), dest.store 0 text) := by
  intro text
  have hl := lengths hfit
  have hblock : (it.base64Enc src (3 * (s.length / 3))).length = 4 * (s.length / 3) :=
    block_length src s.length
  have hquads : 4 * quads s = 4 * (s.length / 3) + 4 := by
    rw [quads]
    omega
  have hpart : UInt32.ofNat s.length / 3 * 3 ≠ .ofNat s.length := by
    intro heq
    have hnat := congrArg UInt32.toNat heq
    rw [hl.rounded, hl.whole] at hnat
    omega
  have hstop : UInt32.ofNat s.length / 3 * 3 + UInt32.ofNat s.length / 3 + 4 =
      .ofNat (4 * quads s) := by
    apply UInt32.toNat_inj.mp
    rw [hl.stop hr, UInt32.toNat_ofNat_of_lt' hfit, hquads]
  refine ⟨⟨?_, fun k hk => ?_⟩, ?_⟩
  · rw [List.length_append, hblock, lastGroup_length, hquads]
  · rw [List.getElem?_append, hblock]
    by_cases hfront : k < 4 * (s.length / 3)
    · rw [if_pos hfront]
      exact block_get h hsrc hfront
    · rw [if_neg hfront]
      obtain ⟨i, rfl⟩ := Nat.exists_eq_add_of_le (Nat.le_of_not_lt hfront)
      rw [Nat.add_sub_cancel_left]
      exact lastGroup_get h hsrc (by omega)
  · have hcount : 4 * (s.length / 3) + 4 - (4 * (s.length / 3) + s.length % 3 + 1) =
        3 - s.length % 3 := by omega
    have hpatch := Store.store_patch (dest.store 0 (it.base64Enc src (3 * (s.length / 3))))
      (4 * (s.length / 3)) (it.base64Enc (tailOf src (3 * (s.length / 3)) (s.length % 3)) 3)
      (List.replicate (3 - s.length % 3) equalsSign) (k := s.length % 3 + 1)
      (by rw [base64Enc_length]; omega) (by rw [base64Enc_length, List.length_replicate]; omega)
    rw [base64Encode]
    dsimp only
    rw [if_pos hpart, hl.rounded, hl.rest, hl.block,
      padding_eq _ (by rw [hl.start hr, hl.stop hr]; omega) (Nat.sub_le ..), hl.start hr,
      hl.stop hr, hstop, Store.store_append, Nat.zero_add, hblock, hcount, Nat.add_assoc, hpatch]
    rfl

include h in
/-- The encoder writes a text that stands for the bytes, from the destination's front on, and
returns its length. -/
theorem encode_stands (dest : Memory) (hfit : 4 * quads s < 2 ^ 32) :
    ∃ text, StandsFor it s text ∧ it.base64Encode dest src (.ofNat s.length) =
      (.ofNat (4 * quads s), dest.store 0 text) := by
  by_cases hr : s.length % 3 = 0
  · exact ⟨_, encode_full h hsrc dest hfit hr⟩
  · exact ⟨_, encode_broken h hsrc dest hfit hr⟩

end Encode

/-! The decoder. -/

theorem decodeLoop_eq (srcIt : Nat → Option Nat) (left i : Nat) (dest : Memory)
    (bytes : List UInt8) (hroom : bytes.length ≤ left)
    (hvalues : ∀ k < bytes.length, srcIt (i + k) = some (bytes.getD k 0).toNat)
    (hend : srcIt (i + bytes.length) = none) :
    decodeLoop srcIt left i dest = (i + bytes.length, dest.store i bytes) := by
  induction bytes generalizing left i dest with
  | nil =>
    rw [List.length_nil, Nat.add_zero] at hend ⊢
    rw [Store.store_nil]
    cases left with
    | zero => rfl
    | succ left => rw [decodeLoop, hend]
  | cons byte bytes ih =>
    rw [List.length_cons] at hroom hend
    obtain ⟨left, rfl⟩ := Nat.exists_eq_succ_of_ne_zero (show left ≠ 0 by omega)
    have hfirst := hvalues 0 (Nat.succ_pos _)
    rw [Nat.add_zero, List.getD_cons_zero] at hfirst
    have hrest := ih left (i + 1) (dest.store i [byte]) (by omega)
      (fun k hk => by
        have hk' := hvalues (k + 1) (Nat.succ_lt_succ hk)
        rwa [List.getD_cons_succ, Nat.add_comm k 1, ← Nat.add_assoc] at hk')
      (by rwa [Nat.add_assoc, Nat.add_comm 1])
    rw [decodeLoop, hfirst]
    dsimp only
    rw [UInt8.ofNat_toNat, hrest, List.length_cons, Nat.add_assoc, Nat.add_comm 1]
    exact congrArg (i + (bytes.length + 1), ·) (Store.store_append dest i [byte] bytes).symm

section Decode
variable {it : Iterators} (h : it.Documented) {s text : List UInt8} {src : Memory}
  (htext : StandsFor it s text) (hload : src.load 0 text.length = text)
  (hnul : src (4 * quads s) = 0)
include htext hload

theorem text_sextet {k : Nat} (hk : k < 4 * quads s) :
    it.binaryFromBase64 (src k) = regroup 6 8 (bytesOf s) k := by
  obtain ⟨c, hc, hvalue⟩ := htext.get k hk
  have hget := Store.load_get src 0 text.length k (htext.length ▸ hk)
  rw [hload, Nat.zero_add, hc] at hget
  rw [← Option.some.inj hget, hvalue]

include h

/-- The bytes come back, and after them the zeros that filled the last group. -/
theorem decoded_byte {i : Nat} (hi : i < 3 * quads s) :
    it.base64Dec src i = some ((padded s).getD i 0).toNat := by
  rw [base64Dec_eq h]
  refine regroup_eq (bytesOf_lt (bytesOf_padded s i)) (bytesOf_padded s i) fun j hj => ?_
  have hsextet := text_sextet htext hload (k := (i * 8 + j) / 6) (by omega)
  have hsome : (regroup 6 8 (bytesOf s) ((i * 8 + j) / 6)).isSome := regroup_isSome fun _ => rfl
  rw [← bitAt_regroup (by decide) hsome, bitAt, bitAt, hsextet]

include hnul in
omit htext hload in
theorem decoded_end : it.base64Dec src (3 * quads s) = none := by
  have hplace : (3 * quads s * 8 + 0) / 6 = 4 * quads s := by omega
  rw [base64Dec_eq h]
  refine regroup_none (j := 0) (by decide) ?_
  rw [hplace, hnul]
  exact binary_nul h

include hnul in
theorem decode_text (out : Memory) (hfit : 4 * quads s < 2 ^ 32) {capacity : UInt32}
    (hroom : 3 * quads s ≤ capacity.toNat) : it.base64Decode out src capacity =
      (.ofNat (3 * quads s), out.store 0 (padded s), .ofNat (4 * quads s)) := by
  have hloop := decodeLoop_eq (it.base64Dec src) capacity.toNat 0 out (padded s) (by rwa [padded_length])
    (fun k hk => by
      rw [padded_length] at hk
      rw [Nat.zero_add, decoded_byte h htext hload hk])
    (by rw [padded_length, Nat.zero_add, decoded_end h hnul])
  have hback : (UInt32.ofNat (3 * quads s) + 2) / 3 * 4 = .ofNat (4 * quads s) := by
    apply UInt32.toNat_inj.mp
    rw [UInt32.toNat_mul, UInt32.toNat_div, UInt32.toNat_add, UInt32.toNat_ofNat_of_lt' hfit,
      UInt32.toNat_ofNat_of_lt' (show 3 * quads s < 2 ^ 32 by omega),
      show (2 : UInt32).toNat = 2 from rfl, show (3 : UInt32).toNat = 3 from rfl,
      show (4 : UInt32).toNat = 4 from rfl,
      Nat.mod_eq_of_lt (show 3 * quads s + 2 < 2 ^ 32 by omega)]
    omega
  rw [base64Decode, hloop, padded_length, Nat.zero_add]
  dsimp only
  rw [hback]

end Decode

/-- Encoded and decoded again, the bytes come back: as many, the same, and with the returned
pointer at the terminating NUL. -/
def RoundTrips (it : Iterators) (s : List UInt8) : Prop :=
  ∀ dest src : Memory, src.load 0 s.length = s →
    ∃ (written : UInt32) (text : List UInt8),
      it.base64Encode dest src (.ofNat s.length) = (written, dest.store 0 text) ∧
      written.toNat = 4 * quads s ∧ text.length = 4 * quads s ∧
      ∀ (out : Memory) (capacity : UInt32), 3 * quads s ≤ capacity.toNat →
        ∃ len returned : UInt32,
          it.base64Decode out ((dest.store 0 text).store (4 * quads s) [0]) capacity =
            (len, out.store 0 s, returned) ∧
          len.toNat = s.length ∧ returned.toNat = 4 * quads s

/-- What encoding and decoding do for every number of bytes whose text 32 bits count. -/
theorem decode_encode {it : Iterators} (h : it.Documented) {s : List UInt8} {src : Memory}
    (hsrc : src.load 0 s.length = s) (dest : Memory) (hfit : 4 * quads s < 2 ^ 32) :
    ∃ text : List UInt8, text.length = 4 * quads s ∧
      it.base64Encode dest src (.ofNat s.length) = (.ofNat (4 * quads s), dest.store 0 text) ∧
      ∀ (out : Memory) (capacity : UInt32), 3 * quads s ≤ capacity.toNat →
        it.base64Decode out ((dest.store 0 text).store (4 * quads s) [0]) capacity =
          (.ofNat (3 * quads s), out.store 0 (padded s), .ofNat (4 * quads s)) := by
  obtain ⟨text, htext, hencode⟩ := encode_stands h hsrc dest hfit
  have hfront : ((dest.store 0 text).store (4 * quads s) [0]).load 0 text.length = text := by
    rw [Store.load_store_disjoint _ _ (Or.inl (by rw [htext.length, Nat.zero_add])),
      Store.load_store_same]
  have hnul : (dest.store 0 text).store (4 * quads s) [0] (4 * quads s) = 0 :=
    Store.store_get _ _ [0] (k := 0) (by decide)
  exact ⟨text, htext.length, hencode,
    fun out _ hroom => decode_text h htext hfront hnul out hfit hroom⟩

/-- Exactly the byte strings without a broken last group come back, of those whose text 32 bits
count. The length is a 32-bit number. -/
theorem base64_round_trip_iff {it : Iterators} (h : it.Documented) (s : List UInt8)
    (hlen : s.length < 2 ^ 32) :
    it.RoundTrips s ↔ 3 ∣ s.length ∧ s.length < 3 * 2 ^ 30 := by
  constructor
  · intro hback
    have hsrc : (Store.store (fun _ => 0) 0 s : Memory).load 0 s.length = s :=
      Store.load_store_same ..
    obtain ⟨written, text, hencode, hwritten, -, hdecode⟩ := hback (fun _ => 0) _ hsrc
    have hfit : 4 * quads s < 2 ^ 32 := hwritten ▸ written.toNat_lt
    obtain ⟨text', -, hencode', hdecode'⟩ := decode_encode h hsrc (fun _ => 0) hfit
    have htext := congrArg Prod.snd (hencode.symm.trans hencode')
    dsimp only at htext
    have hbytes : (UInt32.ofNat (3 * quads s)).toNat = 3 * quads s :=
      UInt32.toNat_ofNat_of_lt' (show _ < 2 ^ 32 by omega)
    have hcapacity : 3 * quads s ≤ (UInt32.ofNat (3 * quads s)).toNat := hbytes.ge
    obtain ⟨len, returned, hresult, hcount, -⟩ := hdecode (fun _ => 0) _ hcapacity
    rw [htext, hdecode' _ _ hcapacity, Prod.mk.injEq] at hresult
    rw [← hresult.1, hbytes] at hcount
    exact ⟨⟨quads s, hcount.symm⟩, by omega⟩
  · rintro ⟨⟨k, hk⟩, hshort⟩ dest src hsrc
    have hquads : 3 * quads s = s.length := by
      rw [quads]
      omega
    have hfit : 4 * quads s < 2 ^ 32 := by omega
    have hpadded : padded s = s := by
      rw [padded, hquads, Nat.sub_self, List.replicate_zero, List.append_nil]
    obtain ⟨text, htext, hencode, hdecode⟩ := decode_encode h hsrc dest hfit
    have hwritten : (UInt32.ofNat (4 * quads s)).toNat = 4 * quads s :=
      UInt32.toNat_ofNat_of_lt' hfit
    refine ⟨_, text, hencode, hwritten, htext, fun out capacity hroom => ?_⟩
    refine ⟨_, _, by rw [hdecode out capacity hroom, hpadded], ?_, hwritten⟩
    rw [hquads, UInt32.toNat_ofNat_of_lt' hlen]

/-- Iterators that do what is documented. -/
def standard : Iterators where
  transformWidth := regroup
  base64FromBinary value := alphabet.getD value 0
  binaryFromBase64 c := if c = equalsSign then some 0 else alphabet.findIdx? (· = c)

theorem standard_documented : standard.Documented where
  transformWidth _ _ _ _ := rfl
  base64FromBinary := by decide +kernel
  binaryFromBase64 := by
    intro value hvalue c hc
    have hall : ∀ value < 64, alphabet[value]?.bind standard.binaryFromBase64 = some value := by
      decide +kernel
    have hvalue' := hall value hvalue
    rwa [hc] at hvalue'
  padding := rfl
  other c hc hne := by
    simp only [standard]
    rw [if_neg hne, List.findIdx?_eq_none_iff]
    intro c' hmem
    refine decide_eq_false ?_
    rintro rfl
    exact hc hmem

theorem sample_base64_round_trip :
    standard.RoundTrips [77, 97, 110] ↔ 3 ∣ [77, 97, 110].length ∧ [77, 97, 110].length < 3 * 2 ^ 30 :=
  base64_round_trip_iff standard_documented [77, 97, 110] (by decide)

/-- A single byte is encoded as two characters and their padding and comes back as three. -/
theorem single_byte_grows :
    let src : Memory := Store.store (fun _ => 0) 0 [65]
    let encoded := standard.base64Encode (fun _ => 0) src 1
    encoded.1 = 4 ∧ encoded.2.load 0 5 = [81, 81, 61, 61, 0] ∧
      (standard.base64Decode (fun _ => 7) (encoded.2.store 4 [0]) 9).1 = 3 ∧
      ¬ standard.RoundTrips [65] := by
  intro src encoded
  have hcount : (standard.base64Decode (fun _ => 7) (encoded.2.store 4 [0]) 9).1 = 3 := by
    decide +kernel
  refine ⟨by decide +kernel, by decide +kernel, hcount, fun hback => ?_⟩
  obtain ⟨written, text, hencode, -, -, hdecode⟩ := hback (fun _ => 0) src (Store.load_store_same ..)
  obtain ⟨len, returned, hresult, hlen, -⟩ := hdecode (fun _ => 7) 9 (by decide)
  have htext : encoded.2 = Store.store (fun _ => 0) 0 text := congrArg Prod.snd hencode
  have hlen3 : len = 3 := by
    rw [← hcount, htext]
    exact (congrArg Prod.fst hresult).symm
  rw [hlen3] at hlen
  exact absurd hlen (by decide)

end Iterators
end SocketCPlusPlus.General
