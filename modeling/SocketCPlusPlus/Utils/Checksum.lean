import SocketCPlusPlus.Foundation.BitField
import SocketCPlusPlus.Foundation.RunningSum
import SocketCPlusPlus.Packets.Serialize

/-! The checksum of a file: the sum of its 16-bit words, and of a last byte that it never sees. -/
namespace SocketCPlusPlus.Utils
open Foundation Packets

instance u16IsCancelAdd : IsCancelAdd UInt16 where
  add_left_cancel a _ _ h := UInt16.add_right_inj a |>.mp h
  add_right_cancel a _ _ h := UInt16.add_left_inj a |>.mp h

/-- The file as an array of words of the host. -/
def twoBytePtr (fileData : Memory) (index : Nat) : UInt16 :=
  .ofNat (leValue (fileData.load (2 * index) 2))

def calculateChecksum (fileData : Memory) (fileSize : Int32) : UInt16 :=
  let halfway := fileSize >>> 1
  let extraByte := fileSize % 1
  let checksum := runningSum 0 (fun index => htons (twoBytePtr fileData index)) halfway.toInt.toNat
  if extraByte ≠ 0 then checksum + htons (fileData (fileSize - 1).toInt.toNat).toUInt16
  else checksum

theorem extraByte_eq (fileSize : Int32) : fileSize % 1 = 0 := by
  rw [← Int32.toInt_inj, Int32.toInt_mod]
  exact Int.tmod_one _

theorem halfway_eq {fileSize : Int32} (h : 0 ≤ fileSize.toInt) :
    (fileSize >>> 1).toInt.toNat = fileSize.toInt.toNat / 2 := by
  have hlt := fileSize.toInt_lt
  have hshift := int_ofNat_shiftRight (x := fileSize.toInt.toNat) (k := 1) (by omega) (by decide)
  rw [← int_eq_ofNat h] at hshift
  change (fileSize >>> Int32.ofNat 1).toInt.toNat = _
  rw [hshift, Int32.toInt_ofNat_of_lt (by omega)]
  rfl

theorem calculateChecksum_eq (fileData : Memory) {fileSize : Int32} (h : 0 ≤ fileSize.toInt) :
    calculateChecksum fileData fileSize =
      runningSum 0 (fun index => htons (twoBytePtr fileData index)) (fileSize.toInt.toNat / 2) := by
  rw [calculateChecksum, extraByte_eq, halfway_eq h]
  rfl

theorem htons_twoBytePtr (fileData : Memory) (index : Nat) :
    htons (twoBytePtr fileData index) = .ofNat (Serialize.wordAt fileData (2 * index) 2) := by
  have hword := Serialize.eval_in_u16 fileData (2 * index) 0
  have hhost := Serialize.eval_inWord fileData (2 * index) 2 fun word => ntohs (.ofNat word)
  exact congrArg Prod.fst (hhost.symm.trans hword)

theorem load_eq_of_htons {fileData fileData' : Memory} {index : Nat}
    (h : htons (twoBytePtr fileData index) = htons (twoBytePtr fileData' index)) :
    fileData.load (2 * index) 2 = fileData'.load (2 * index) 2 := by
  rw [htons_twoBytePtr, htons_twoBytePtr] at h
  rw [← Serialize.msbFirst_u16, h, Serialize.msbFirst_u16]

/-- Another byte in a file makes another checksum exactly if it is not the last of an odd number. -/
theorem changed_byte_detected_iff (fileData : Memory) {fileSize : Int32} {i : Nat} {byte : UInt8}
    (hi : i < fileSize.toInt) (hbyte : byte ≠ fileData i) :
    calculateChecksum (fileData.store i [byte]) fileSize ≠ calculateChecksum fileData fileSize ↔
      ¬ (fileSize.toInt % 2 = 1 ∧ i = fileSize.toInt - 1) := by
  have hcell : fileData.store i [byte] i = byte := Store.store_get _ i [byte] (k := 0) Nat.one_pos
  have hword : htons (twoBytePtr (fileData.store i [byte]) (i / 2)) ≠
      htons (twoBytePtr fileData (i / 2)) := by
    intro heq
    have hload := Store.load_inj (load_eq_of_htons heq) (Nat.mod_lt i Nat.two_pos)
    rw [Nat.div_add_mod, hcell] at hload
    exact hbyte hload
  have hother : ∀ j, j ≠ i / 2 → htons (twoBytePtr (fileData.store i [byte]) j) =
      htons (twoBytePtr fileData j) := by
    intro j hj
    rw [twoBytePtr, Store.load_store_disjoint _ _ (by rw [List.length_singleton]; omega)]
    rfl
  rw [calculateChecksum_eq _ (by omega), calculateChecksum_eq _ (by omega), Ne,
    runningSum_eq_iff hword hother]
  omega

theorem sample_changed_byte_detected :
    calculateChecksum (Store.store (fun _ => 0) 1 [7]) 3 ≠ calculateChecksum (fun _ => 0) 3 ↔
      ¬ ((3 : Int32).toInt % 2 = 1 ∧ (1 : Nat) = (3 : Int32).toInt - 1) :=
  changed_byte_detected_iff (fun _ => 0) (by decide) (by decide)

/-- The last of three bytes may be anything. -/
theorem last_byte_ignored : calculateChecksum (Store.store (fun _ => 0) 2 [7]) 3 =
    calculateChecksum (fun _ => 0) 3 := by
  decide

end SocketCPlusPlus.Utils
