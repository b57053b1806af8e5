import SocketCPlusPlus.Foundation.Object
import SocketCPlusPlus.Packets.Serialize

/-! The two wrappers of a vector that remove by index, each behind a guard of its own. -/
namespace SocketCPlusPlus.Packets
open Foundation

/-- `erase(begin() + position)`. Nothing is defined where there is no element. -/
def vectorErase {E : Type} (data : List E) (position : Int) : Option (List E) :=
  if 0 ≤ position ∧ position < data.length then some (data.eraseIdx position.toNat) else none

/-- An index beside a `size_t` is one. -/
def toSizeT (index : Int32) : Nat := (index.toInt % 2 ^ 64).toNat

structure KeyValueSerializer (T : Type) where
  key : StdString
  value : T
  deriving DecidableEq, Repr

structure SerializedKeyValueVector (T : Type) where
  dataList : List (KeyValueSerializer T)
  deriving DecidableEq, Repr

namespace SerializedKeyValueVector
variable {T : Type}

def insert (v : SerializedKeyValueVector T) (key : StdString) (obj : T) :
    SerializedKeyValueVector T :=
  ⟨v.dataList ++ [⟨key, obj⟩]⟩

def erase (v : SerializedKeyValueVector T) (index : Int32) :
    Option (Bool × SerializedKeyValueVector T) :=
  if index.toInt < 0 ∧ toSizeT index ≥ v.dataList.length then some (false, v)
  else (vectorErase v.dataList index.toInt).map fun dataList => (true, ⟨dataList⟩)

end SerializedKeyValueVector

structure SerializedVector (T : Type) where
  mData : List T
  deriving DecidableEq, Repr

namespace SerializedVector
variable {T : Type}

def pushBack (v : SerializedVector T) (value : T) : SerializedVector T := ⟨v.mData ++ [value]⟩

def remove (v : SerializedVector T) (index : UInt32) : Option (Bool × SerializedVector T) :=
  if index.toNat ≥ v.mData.length then some (false, v)
  else (vectorErase v.mData index.toNat).map fun mData => (true, ⟨mData⟩)

end SerializedVector

namespace IndexedRemoval

/-- What is done to a list, with the index as its user has it. -/
inductive Call (E : Type) where
  | insert (element : E)
  | remove (index : Int32)

inductive Result where
  | done
  | returned (result : Bool)
  | undefined
  deriving DecidableEq, Repr

/-- The list that both wrappers are for. -/
def list (E : Type) : Object (Call E) Result (Option (List E)) where
  State := List E
  call data
    | .insert element => (.done, data ++ [element])
    | .remove index =>
      if 0 ≤ index.toInt ∧ index.toInt < data.length then
        (.returned true, data.eraseIdx index.toInt.toNat)
      else (.returned false, data)
  view data := some data

/-- Once undefined, always undefined. -/
def keyValueVector (T : Type) : Object (Call (KeyValueSerializer T)) Result
    (Option (List (KeyValueSerializer T))) where
  State := Option (SerializedKeyValueVector T)
  call
    | none, _ => (.undefined, none)
    | some v, .insert element => (.done, some (v.insert element.key element.value))
    | some v, .remove index =>
      match v.erase index with
      | none => (.undefined, none)
      | some (result, v) => (.returned result, some v)
  view s := s.map SerializedKeyValueVector.dataList

def vector (T : Type) : Object (Call T) Result (Option (List T)) where
  State := Option (SerializedVector T)
  call
    | none, _ => (.undefined, none)
    | some v, .insert element => (.done, some (v.pushBack element))
    | some v, .remove index =>
      match v.remove index.toUInt32 with
      | none => (.undefined, none)
      | some (result, v) => (.returned result, some v)
  view s := s.map SerializedVector.mData

/-- The guard of `erase` lets no index through that is not in the list. -/
def EraseGuarded {E : Type} (data : List E) : Call E → Prop
  | .insert _ => True
  | .remove index =>
    index.toInt < data.length ∧ (index.toInt < 0 → data.length ≤ 2 ^ 64 + index.toInt)

/-- No negative index becomes one in the list. -/
def RemoveGuarded {E : Type} (data : List E) : Call E → Prop
  | .insert _ => True
  | .remove index => index.toInt < 0 → data.length ≤ 2 ^ 32 + index.toInt

theorem toSizeT_neg {index : Int32} (h : index.toInt < 0) :
    (toSizeT index : Int) = 2 ^ 64 + index.toInt := by
  have hlow := index.le_toInt
  rw [toSizeT]
  omega

theorem toUInt32_toNat (index : Int32) :
    (index.toUInt32.toNat : Int) = if index.toInt < 0 then 2 ^ 32 + index.toInt else index.toInt := by
  have hlt := index.toUInt32.toNat_lt
  have hint := BitVec.toInt_eq_toNat_cond index.toBitVec
  rw [Int32.toInt_toBitVec, Int32.toNat_toBitVec] at hint
  split at hint
  · rw [if_neg (by omega)]
    omega
  · rw [if_pos (by omega)]
    omega

section Erase
variable {E : Type} {data : List E} {position : Int}

theorem vectorErase_in (h : 0 ≤ position ∧ position < data.length) :
    vectorErase data position = some (data.eraseIdx position.toNat) := if_pos h

theorem vectorErase_out (h : ¬ (0 ≤ position ∧ position < data.length)) :
    vectorErase data position = none := if_neg h

end Erase

section Guards
variable {T : Type}

theorem erase_guarded (v : SerializedKeyValueVector T) {index : Int32}
    (h : EraseGuarded v.dataList (.remove index)) : v.erase index =
      some (if 0 ≤ index.toInt ∧ index.toInt < v.dataList.length then
        (true, ⟨v.dataList.eraseIdx index.toInt.toNat⟩) else (false, v)) := by
  obtain ⟨hsize, hneg⟩ := h
  by_cases hindex : index.toInt < 0
  · have hlarge := toSizeT_neg hindex
    have hroom := hneg hindex
    rw [SerializedKeyValueVector.erase, if_pos ⟨hindex, by omega⟩, if_neg (by omega)]
  · have hin : 0 ≤ index.toInt ∧ index.toInt < v.dataList.length := ⟨by omega, hsize⟩
    rw [SerializedKeyValueVector.erase, if_neg fun h => hindex h.1, vectorErase_in hin, if_pos hin]
    rfl

theorem erase_unguarded (v : SerializedKeyValueVector T) {index : Int32}
    (h : ¬ EraseGuarded v.dataList (.remove index)) : v.erase index = none := by
  rw [EraseGuarded, not_and_or] at h
  have hpast : ¬ (index.toInt < 0 ∧ toSizeT index ≥ v.dataList.length) := by
    rintro ⟨hindex, hlarge⟩
    have hsize := toSizeT_neg hindex
    omega
  have hout : ¬ (0 ≤ index.toInt ∧ index.toInt < v.dataList.length) := by omega
  rw [SerializedKeyValueVector.erase, if_neg hpast, vectorErase_out hout]
  rfl

theorem remove_guarded (v : SerializedVector T) {index : Int32}
    (h : RemoveGuarded v.mData (.remove index)) : v.remove index.toUInt32 =
      some (if 0 ≤ index.toInt ∧ index.toInt < v.mData.length then
        (true, ⟨v.mData.eraseIdx index.toInt.toNat⟩) else (false, v)) := by
  have hword := toUInt32_toNat index
  by_cases hin : 0 ≤ index.toInt ∧ index.toInt < v.mData.length
  · rw [if_neg (by omega)] at hword
    rw [SerializedVector.remove, if_neg (by omega), hword, vectorErase_in hin, if_pos hin]
    rfl
  · have hlarge : index.toUInt32.toNat ≥ v.mData.length := by
      rw [RemoveGuarded] at h
      split at hword
      · next hneg =>
        have hroom := h hneg
        omega
      · omega
    rw [SerializedVector.remove, if_pos hlarge, if_neg hin]

theorem remove_unguarded (v : SerializedVector T) {index : Int32}
    (h : ¬ RemoveGuarded v.mData (.remove index)) : index.toInt < 0 ∧
      ∃ v', v.remove index.toUInt32 = some (true, v') := by
  rw [RemoveGuarded, Classical.not_imp] at h
  have hword := toUInt32_toNat index
  rw [if_pos h.1] at hword
  refine ⟨h.1, ⟨v.mData.eraseIdx index.toUInt32.toNat⟩, ?_⟩
  rw [SerializedVector.remove, if_neg (by omega), vectorErase_in (by omega)]
  rfl

/-- Step for step, `erase` follows the list as long as its guard does what it is for. -/
theorem keyValueVector_call (data : List (KeyValueSerializer T))
    (c : Call (KeyValueSerializer T)) :
    (EraseGuarded data c → (keyValueVector T).call (some ⟨data⟩) c =
      (((list _).call data c).1, some ⟨((list _).call data c).2⟩)) ∧
    (((keyValueVector T).call (some ⟨data⟩) c).1 = ((list _).call data c).1 →
      EraseGuarded data c) := by
  cases c with
  | insert element => exact ⟨fun _ => rfl, fun _ => trivial⟩
  | remove index =>
    constructor
    · intro h
      have herase := erase_guarded ⟨data⟩ h
      simp only [keyValueVector, list, herase]
      split <;> rfl
    · intro hsame
      by_contra h
      have herase := erase_unguarded ⟨data⟩ h
      simp only [keyValueVector, list, herase] at hsame
      split at hsame <;> exact Result.noConfusion hsame

/-- Step for step, `remove` follows the list as long as no negative index becomes one in it. -/
theorem vector_call (data : List T) (c : Call T) :
    (RemoveGuarded data c → (vector T).call (some ⟨data⟩) c =
      (((list _).call data c).1, some ⟨((list _).call data c).2⟩)) ∧
    (((vector T).call (some ⟨data⟩) c).1 = ((list _).call data c).1 → RemoveGuarded data c) := by
  cases c with
  | insert element => exact ⟨fun _ => rfl, fun _ => trivial⟩
  | remove index =>
    constructor
    · intro h
      have hremove := remove_guarded ⟨data⟩ h
      simp only [vector, list, hremove]
      split <;> rfl
    · intro hsame
      by_contra h
      obtain ⟨hneg, v', hremove⟩ := remove_unguarded ⟨data⟩ h
      simp only [vector, list, hremove] at hsame
      rw [if_neg (by omega)] at hsame
      exact Bool.false_ne_true (Result.returned.inj hsame).symm

theorem keyValueVector_trace_iff (data : List (KeyValueSerializer T))
    (calls : List (Call (KeyValueSerializer T))) :
    (keyValueVector T).trace (some ⟨data⟩) calls = (list _).trace data calls ↔
      (list _).Along EraseGuarded data calls :=
  Object.trace_eq_iff (keyValueVector T) (list _) (fun data => some ⟨data⟩) (fun _ => rfl)
    keyValueVector_call data calls

theorem vector_trace_iff (data : List T) (calls : List (Call T)) :
    (vector T).trace (some ⟨data⟩) calls = (list _).trace data calls ↔
      (list _).Along RemoveGuarded data calls :=
  Object.trace_eq_iff (vector T) (list _) (fun data => some ⟨data⟩) (fun _ => rfl) vector_call
    data calls

/-- An index is below the size, and if it is negative the size leaves it out of range as a `U32`
too. -/
def Safe {E : Type} (data : List E) : Call E → Prop
  | .insert _ => True
  | .remove index =>
    index.toInt < data.length ∧ (index.toInt < 0 → data.length ≤ 2 ^ 32 + index.toInt)

theorem safe_iff {E : Type} (data : List E) (c : Call E) :
    Safe data c ↔ EraseGuarded data c ∧ RemoveGuarded data c := by
  cases c with
  | insert element => exact iff_of_true trivial ⟨trivial, trivial⟩
  | remove index =>
    rw [Safe, EraseGuarded, RemoveGuarded]
    omega

/-- Filled and emptied by the same calls, both wrappers yield and hold what the list does exactly
as long as every index is safe. -/
theorem indexed_removal_iff (calls : List (Call (KeyValueSerializer T))) :
    ((keyValueVector T).trace (some ⟨[]⟩) calls = (list _).trace [] calls ∧
      (vector (KeyValueSerializer T)).trace (some ⟨[]⟩) calls = (list _).trace [] calls) ↔
      (list _).Along Safe [] calls := by
  have hsafe : (Safe : List (KeyValueSerializer T) → _ → Prop) =
      fun data c => EraseGuarded data c ∧ RemoveGuarded data c :=
    funext fun data => funext fun c => propext (safe_iff data c)
  rw [hsafe, keyValueVector_trace_iff, vector_trace_iff]
  exact (Object.along_and (o := list (KeyValueSerializer T)) [] calls).symm

/-- Removed at its size, a list loses nothing; `erase` goes past the end. -/
theorem erase_at_size_undefined :
    (keyValueVector Nat).trace (some ⟨[]⟩) [.insert ⟨[97], 1⟩, .remove 1] ≠
        (list _).trace [] [.insert ⟨[97], 1⟩, .remove 1] ∧
      (⟨[⟨[97], 1⟩]⟩ : SerializedKeyValueVector Nat).erase 1 = none ∧
      (⟨[⟨[97], 1⟩]⟩ : SerializedVector (KeyValueSerializer Nat)).remove 1 =
        some (false, ⟨[⟨[97], 1⟩]⟩) := by
  decide

end Guards

end IndexedRemoval
end SocketCPlusPlus.Packets
