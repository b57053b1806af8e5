import SocketCPlusPlus.Foundation.Tally
import SocketCPlusPlus.Packets.BasePacket

/-! The listener that counts received packets by type and subtype. The counts are right; the
question for one of them never gets it. -/
namespace SocketCPlusPlus.Socket
open Foundation Packets

structure PacketPair where
  first : Int32
  second : Int32
  deriving DecidableEq, Repr

/-- The key of two bytes, each as an `int`. -/
def packetPair (packetType packetSubType : UInt8) : PacketPair :=
  ⟨packetType.toUInt32.toInt32, packetSubType.toUInt32.toInt32⟩

theorem int_of_byte_inj {a b : UInt8} : a.toUInt32.toInt32 = b.toUInt32.toInt32 ↔ a = b := by
  refine ⟨fun h => ?_, fun h => h ▸ rfl⟩
  have hword := congrArg Int32.toUInt32 h
  rwa [UInt32.toUInt32_toInt32, UInt32.toUInt32_toInt32, UInt8.toUInt32_inj] at hword

theorem packetPair_inj {t s t' s' : UInt8} :
    packetPair t s = packetPair t' s' ↔ t = t' ∧ s = s' := by
  rw [packetPair, packetPair, PacketPair.mk.injEq, int_of_byte_inj, int_of_byte_inj]

/-- `none` is a key the map does not have. -/
structure PacketObserver where
  numberOfEachType : PacketPair → Option Int32

namespace PacketObserver

def new : PacketObserver := ⟨fun _ => none⟩

def update (value : Int32) : Int32 := value + 1

def packetReceived (o : PacketObserver) (bp : BasePacket) : PacketObserver :=
  let key := packetPair bp.packetType bp.packetSubType
  match o.numberOfEachType key with
  | none => ⟨Function.update o.numberOfEachType key (some 1)⟩
  | some value => ⟨Function.update o.numberOfEachType key (some (update value))⟩

/-- `none` stands for what is read through the end iterator. -/
def getCount (o : PacketObserver) (packetType packetSubType : UInt8) : Option Int32 :=
  let i := o.numberOfEachType (packetPair packetType packetSubType)
  if i.isNone then i else some 0

/-- The listener after a sequence of packets. -/
def observe (packets : List BasePacket) : PacketObserver := packets.foldl packetReceived new

/-- How many packets of a sequence have the pair. -/
def occurrences (packets : List BasePacket) (packetType packetSubType : UInt8) : Nat :=
  packets.countP fun bp => bp.packetType = packetType ∧ bp.packetSubType = packetSubType

/-- Either branch keeps a tally. -/
theorem packetReceived_eq (o : PacketObserver) (bp : BasePacket) :
    o.packetReceived bp = ⟨Tally.note 1 update o.numberOfEachType
      (packetPair bp.packetType bp.packetSubType)⟩ := by
  rw [packetReceived, Tally.note]
  split
  · next hnew => rw [hnew]; rfl
  · next value hseen => rw [hseen]; rfl

theorem observe_eq (packets : List BasePacket) : (observe packets).numberOfEachType =
    (packets.map fun bp => packetPair bp.packetType bp.packetSubType).foldl
      (Tally.note 1 update) (fun _ => none) := by
  have hfold : ∀ o : PacketObserver, (packets.foldl packetReceived o).numberOfEachType =
      (packets.map fun bp => packetPair bp.packetType bp.packetSubType).foldl
        (Tally.note 1 update) o.numberOfEachType := by
    induction packets with
    | nil => exact fun o => rfl
    | cons bp packets ih =>
      intro o
      rw [List.foldl_cons, ih, packetReceived_eq]
      rfl
  exact hfold new

theorem count_pairs (packets : List BasePacket) (t s : UInt8) :
    (packets.map fun bp => packetPair bp.packetType bp.packetSubType).count (packetPair t s) =
      occurrences packets t s := by
  rw [List.count, List.countP_map, occurrences]
  refine List.countP_congr fun bp _ => ?_
  rw [Function.comp_apply, beq_iff_eq, packetPair_inj, decide_eq_true_iff]

theorem update_iterate (n : Nat) : update^[n] 1 = Int32.ofNat (n + 1) := by
  induction n with
  | zero => rfl
  | succ n ih =>
    rw [Function.iterate_succ_apply', ih, update, Int32.ofNat_add (n + 1) 1]
    rfl

/-- The map counts exactly, in as many bits as an `int` has. -/
theorem numberOfEachType_eq (packets : List BasePacket) (t s : UInt8) :
    (observe packets).numberOfEachType (packetPair t s) =
      if occurrences packets t s = 0 then none
      else some (Int32.ofNat (occurrences packets t s)) := by
  rw [observe_eq, Tally.notes_eq, count_pairs]
  split
  · rfl
  · next hseen => rw [update_iterate, Nat.sub_add_cancel (Nat.pos_of_ne_zero hseen)]

/-- A pair that came is said not to have come, any other is looked up past the end. -/
theorem getCount_eq (packets : List BasePacket) (t s : UInt8) :
    (observe packets).getCount t s = if occurrences packets t s = 0 then none else some 0 := by
  rw [getCount, numberOfEachType_eq]
  split <;> rfl

/-- The answer for a pair is the number of packets that had it. -/
def CountsExactly (packets : List BasePacket) (t s : UInt8) : Prop :=
  ((observe packets).getCount t s).map Int32.toInt = some (occurrences packets t s : Int)

instance (packets : List BasePacket) (t s : UInt8) : Decidable (CountsExactly packets t s) :=
  inferInstanceAs (Decidable (_ = _))

/-- After no sequence of packets is the answer for any pair the number. -/
theorem getCount_never_exact (packets : List BasePacket) (t s : UInt8) :
    ¬ CountsExactly packets t s := by
  intro hexact
  rw [CountsExactly, getCount_eq] at hexact
  split at hexact
  · exact Option.some_ne_none _ hexact.symm
  · next hseen => exact hseen (by simpa using hexact.symm)

/-- A packet received is counted as none, and before it came there was nothing to read. -/
theorem received_packet_not_counted :
    let bp : BasePacket := ⟨1, 2, 0, 1, 0, 0⟩
    ¬ CountsExactly [bp] 1 2 ∧ (observe [bp]).getCount 1 2 = some 0 ∧
      (observe []).getCount 1 2 = none := by
  decide

end PacketObserver
end SocketCPlusPlus.Socket
