import SocketCPlusPlus.Packets.SerializeSequence

/-! The containers of strings that packets carry, written behind their counts. A list is read to
the end of what its reader holds already; a table is read as a rectangle. -/
namespace SocketCPlusPlus.Packets
open Foundation

def pushBackAll {T : Type} (read : Input T) : Nat → List T → Input (List T)
  | 0, values => pure values
  | n+1, values => do
      let temp ← read
      pushBackAll read n (values ++ [temp])

/-- `numStrings` and the table's counts are `int`; a loop up to a negative one does not run. -/
def count (size : Nat) : Nat := (Int32.ofNat size).toInt.toNat

structure StringBucket where
  bucket : List StdString
  deriving DecidableEq, Repr

namespace StringBucket

def serializeIn (b : StringBucket) : Input (Bool × StringBucket) := do
  let numStrings ← Serialize.In (0 : Int32)
  let bucket ← pushBackAll (Serialize.In ([] : StdString)) numStrings.toInt.toNat b.bucket
  pure (true, { bucket })

def serializeOut (b : StringBucket) : Output Bool := do
  Serialize.Out (Int32.ofNat b.bucket.length)
  forM b.bucket Serialize.Out
  pure true

end StringBucket

/-- A vector of cells and the string that stands in for a cell with the text NULL. -/
structure DataRow where
  cells : List StdString
  empty : StdString
  deriving DecidableEq, Repr

structure DynamicDataBucket where
  bucket : List DataRow
  deriving DecidableEq, Repr

namespace DynamicDataBucket

def serializeIn (_ : DynamicDataBucket) : Input (Bool × DynamicDataBucket) := do
  let numRows ← Serialize.In (0 : Int32)
  let numColumns ← Serialize.In (0 : Int32)
  let newRow : Input DataRow := do
    let cells ← pushBackAll (Serialize.In ([] : StdString)) numColumns.toInt.toNat []
    pure { cells, empty := [] }
  let bucket ← pushBackAll newRow numRows.toInt.toNat []
  pure (true, { bucket })

/-- `none` stands for the size of the row at `end()`. -/
def serializeOut (b : DynamicDataBucket) : Output (Option Bool) := do
  Serialize.Out (Int32.ofNat b.bucket.length)
  match b.bucket with
  | [] => pure none
  | row :: _ => do
      Serialize.Out (Int32.ofNat row.cells.length)
      forM b.bucket fun newRow => forM newRow.cells Serialize.Out
      pure (some true)

end DynamicDataBucket

/-! Counts. -/

theorem count_le (n : Nat) : count n ≤ n := by
  rw [count, Int32.toInt_ofNat', Int.bmod_def]
  simp only [Int32.size]
  omega

theorem count_eq_iff {n : Nat} : count n = n ↔ n < 2 ^ 31 := by
  rw [count, Int32.toInt_ofNat', Int.bmod_def]
  simp only [Int32.size]
  omega

/-! Values pushed one after another. -/

section PushBack
variable {T : Type} {read : Input T} {data : Memory}

theorem pushBackAll_length (n : Nat) (values : List T) (offset : Nat) :
    ((pushBackAll read n values).eval data offset).1.length = values.length + n := by
  induction n generalizing values offset with
  | zero => rfl
  | succ n ih =>
    simp only [pushBackAll, Input.eval_bind, ih, List.length_append, List.length_singleton]
    omega

theorem pushBackAll_forall {P : T → Prop} (hread : ∀ offset, P (read.eval data offset).1) (n : Nat)
    (values : List T) (hvalues : ∀ v ∈ values, P v) (offset : Nat) :
    ∀ v ∈ ((pushBackAll read n values).eval data offset).1, P v := by
  induction n generalizing values offset with
  | zero => exact hvalues
  | succ n ih =>
    simp only [pushBackAll, Input.eval_bind]
    refine ih _ ?_ _
    rw [List.forall_mem_append, List.forall_mem_singleton]
    exact ⟨hvalues, hread offset⟩

theorem pushBackAll_wire {wire : T → List UInt8} (later values : List T) (offset : Nat)
    (hread : ∀ v ∈ later, ∀ offset, data.load offset (wire v).length = wire v →
      read.eval data offset = (v, offset + (wire v).length))
    (hload : data.load offset (later.flatMap wire).length = later.flatMap wire) :
    (pushBackAll read later.length values).eval data offset =
      (values ++ later, offset + (later.flatMap wire).length) := by
  induction later generalizing values offset with
  | nil => simp [pushBackAll]
  | cons v later ih =>
    rw [List.flatMap_cons, List.length_append, Store.load_add] at hload
    obtain ⟨hhead, htail⟩ := List.append_inj hload (by simp)
    have hv := hread v List.mem_cons_self offset hhead
    have hrest := ih (values ++ [v]) (offset + (wire v).length)
      (fun w hw => hread w (List.mem_cons_of_mem v hw)) htail
    simp only [List.length_cons, pushBackAll, Input.eval_bind, hv, hrest]
    simp [Nat.add_assoc]

end PushBack

/-- The bytes of a list of strings. -/
def stringsWire (strings : List StdString) : List UInt8 := strings.flatMap stringWire

theorem stringsWire_append (strings later : List StdString) :
    stringsWire (strings ++ later) = stringsWire strings ++ stringsWire later :=
  List.flatMap_append

def stringsSize (strings : List StdString) : Nat := (strings.map fun s => 2 + s.length).sum

theorem stringsWire_length (strings : List StdString) :
    (stringsWire strings).length = stringsSize strings := by
  rw [stringsWire, List.length_flatMap, stringsSize]
  congr 1
  apply List.map_congr_left
  intro s _
  rw [stringWire, List.length_append, msbFirst_length]

theorem length_le_stringsSize (strings : List StdString) :
    2 * strings.length ≤ stringsSize strings := by
  induction strings with
  | nil => exact Nat.le_refl 0
  | cons s strings ih =>
    have hcons : stringsSize (s :: strings) = 2 + s.length + stringsSize strings := by
      rw [stringsSize, List.map_cons, List.sum_cons]
      rfl
    rw [hcons, List.length_cons]
    omega

theorem pushBack_strings {data : Memory} (later values : List StdString) (offset : Nat)
    (hfits : ∀ s ∈ later, StringFits s)
    (hload : data.load offset (stringsWire later).length = stringsWire later) :
    (pushBackAll (Serialize.In ([] : StdString)) later.length values).eval data offset =
      (values ++ later, offset + (stringsWire later).length) :=
  pushBackAll_wire later values offset
    (fun s hs offset h => string_roundTrips.back s [] data offset (hfits s hs) h) hload

/-- A count in front of some bytes. -/
def countWire (n : Nat) : List UInt8 := msbFirst 4 (Int32.ofNat n).toUInt32.toNat

@[simp] theorem countWire_length (n : Nat) : (countWire n).length = 4 := msbFirst_length ..

theorem eval_in_count {data : Memory} {offset n : Nat}
    (h : data.load offset 4 = countWire n) :
    (Serialize.In (0 : Int32)).eval data offset = (Int32.ofNat n, offset + 4) :=
  int_roundTrips.back (Int32.ofNat n) 0 data offset trivial h

namespace StringBucket

theorem exec_serializeOut (b : StringBucket) (buffer : Buffer)
    (hfits : ∀ s ∈ b.bucket, StringFits s) : b.serializeOut.exec buffer =
      (true, buffer.append (countWire b.bucket.length ++ stringsWire b.bucket)) := by
  simp only [serializeOut, Output.exec_bind, Serialize.exec_out_int,
    exec_out_list string_roundTrips b.bucket hfits, Output.exec_pure, Buffer.append_append]
  rfl

theorem eval_serializeIn {b old : StringBucket} {data : Memory} {offset : Nat}
    (hfits : ∀ s ∈ b.bucket, StringFits s)
    (hload : data.load offset (countWire b.bucket.length ++ stringsWire b.bucket).length =
      countWire b.bucket.length ++ stringsWire b.bucket) :
    let taken := b.bucket.take (count b.bucket.length)
    old.serializeIn.eval data offset =
      ((true, ⟨old.bucket ++ taken⟩), offset + 4 + (stringsWire taken).length) := by
  intro taken
  rw [List.length_append, countWire_length, Store.load_add] at hload
  obtain ⟨hcount, hstrings⟩ := List.append_inj hload (by simp)
  have hsplit : stringsWire b.bucket =
      stringsWire taken ++ stringsWire (b.bucket.drop (count b.bucket.length)) := by
    rw [← stringsWire_append, List.take_append_drop]
  rw [hsplit, List.length_append, Store.load_add] at hstrings
  have htaken := (List.append_inj hstrings (by simp)).1
  have hlength : taken.length = (Int32.ofNat b.bucket.length).toInt.toNat :=
    List.length_take_of_le (count_le b.bucket.length)
  have hread := pushBack_strings taken old.bucket (offset + 4)
    (fun s hs => hfits s (List.mem_of_mem_take hs)) htaken
  rw [hlength] at hread
  simp only [serializeIn, Input.eval_bind, eval_in_count hcount, hread, Input.eval_pure]

/-- The bytes of the bucket on the wire. -/
def size (b : StringBucket) : Nat := 4 + stringsSize b.bucket

/-- The writer's end is still an `int`, and reading what was written gives the bucket, at that
end. -/
def RoundTripsInto (b old : StringBucket) (buffer : Buffer) : Prop :=
  let written := (b.serializeOut.exec buffer).2
  written.bufferOffset < 2 ^ 31 ∧
    old.serializeIn.eval written.data buffer.bufferOffset = ((true, b), written.bufferOffset)

/-- The strings counted must be all there are, with nothing in front of them. -/
theorem roundTripsInto_iff (b old : StringBucket) (buffer : Buffer)
    (hfits : ∀ s ∈ b.bucket, StringFits s) :
    b.RoundTripsInto old buffer ↔ buffer.bufferOffset + b.size < 2 ^ 31 ∧
      old.bucket ++ b.bucket.take (count b.bucket.length) = b.bucket ∧
      stringsSize (b.bucket.take (count b.bucket.length)) = stringsSize b.bucket := by
  obtain ⟨strings⟩ := b
  rw [RoundTripsInto, exec_serializeOut _ buffer hfits,
    eval_serializeIn hfits (buffer.append_load _)]
  simp only [Buffer.append_offset, Prod.mk.injEq, StringBucket.mk.injEq, true_and,
    List.length_append, countWire_length, stringsWire_length, size, Nat.add_assoc,
    Nat.add_left_cancel_iff]

/-- A bucket of strings that fit is read back exactly into an empty bucket, if the offset behind it
is an `int`. -/
theorem string_bucket_round_trip_iff (b old : StringBucket) (buffer : Buffer)
    (hfits : ∀ s ∈ b.bucket, StringFits s) :
    b.RoundTripsInto old buffer ↔
      old.bucket = [] ∧ buffer.bufferOffset + b.size < 2 ^ 31 := by
  rw [roundTripsInto_iff b old buffer hfits, and_comm]
  apply and_congr_left
  intro hroom
  -- so many bytes are left for less than 2 ^ 30 strings
  have hlength := length_le_stringsSize b.bucket
  rw [size] at hroom
  have hcount : count b.bucket.length = b.bucket.length := count_eq_iff.mpr (by omega)
  rw [hcount, List.take_length, List.append_left_eq_self]
  exact and_iff_left rfl

theorem sample_string_bucket_round_trip :
    (StringBucket.mk [[97], []]).RoundTripsInto ⟨[]⟩ ⟨fun _ => 7, 3⟩ ↔
      ([] : List StdString) = [] ∧ 3 + (StringBucket.mk [[97], []]).size < 2 ^ 31 :=
  string_bucket_round_trip_iff ⟨[[97], []]⟩ ⟨[]⟩ ⟨fun _ => 7, 3⟩ (by simp [StringFits, maxString])

/-- A bucket read into twice holds everything twice. -/
theorem reused_bucket_appends :
    ¬ (StringBucket.mk [[97]]).RoundTripsInto ⟨[[97]]⟩ ⟨fun _ => 0, 0⟩ := by
  rw [roundTripsInto_iff _ _ _ (by simp [StringFits, maxString])]
  decide

end StringBucket

namespace DynamicDataBucket

/-- The cells of the table, row by row. -/
def cells (b : DynamicDataBucket) : List (List StdString) := b.bucket.map DataRow.cells

/-- Every cell survives on its own. -/
def CellsFit (b : DynamicDataBucket) : Prop := ∀ row ∈ b.bucket, ∀ cell ∈ row.cells, StringFits cell

def rowsWire (rows : List DataRow) : List UInt8 := rows.flatMap fun row => stringsWire row.cells

/-- The bytes of the table on the wire, if there is a row to take the columns from. -/
def size (b : DynamicDataBucket) : Nat :=
  8 + (b.bucket.map fun row => stringsSize row.cells).sum

theorem size_eq (b : DynamicDataBucket) : b.size = 8 + (rowsWire b.bucket).length := by
  rw [size, rowsWire, List.length_flatMap]
  congr 2
  exact List.map_congr_left fun row _ => (stringsWire_length row.cells).symm

theorem exec_rows (rows : List DataRow)
    (hfits : ∀ row ∈ rows, ∀ cell ∈ row.cells, StringFits cell) (buffer : Buffer) :
    (forM rows (fun newRow => forM newRow.cells Serialize.Out) : Output Unit).exec buffer =
      ((), buffer.append (rowsWire rows)) := by
  induction rows generalizing buffer with
  | nil => simp [rowsWire]
  | cons row rows ih =>
    obtain ⟨hrow, hrows⟩ := List.forall_mem_cons.mp hfits
    rw [List.forM_cons, Output.exec_bind, exec_out_list string_roundTrips _ hrow, ih hrows,
      Buffer.append_append]
    rfl

theorem exec_serializeOut_nil (empty : DynamicDataBucket) (h : empty.bucket = [])
    (buffer : Buffer) : (empty.serializeOut.exec buffer).1 = none := by
  rw [serializeOut, h]
  rfl

theorem exec_serializeOut_cons {b : DynamicDataBucket} {row : DataRow} {rows : List DataRow}
    (h : b.bucket = row :: rows) (hfits : b.CellsFit) (buffer : Buffer) :
    b.serializeOut.exec buffer = (some true, buffer.append (countWire b.bucket.length ++
      countWire row.cells.length ++ rowsWire b.bucket)) := by
  have hout : b.serializeOut.exec buffer = (do
      Serialize.Out (Int32.ofNat b.bucket.length)
      Serialize.Out (Int32.ofNat row.cells.length)
      forM b.bucket fun newRow => forM newRow.cells Serialize.Out
      pure (some true) : Output (Option Bool)).exec buffer := by
    rw [serializeOut, h]
  rw [hout]
  simp only [Output.exec_bind, Serialize.exec_out_int, exec_rows _ hfits, Output.exec_pure,
    Buffer.append_append]
  rfl

theorem eval_serializeIn_shape (old : DynamicDataBucket) {data : Memory} {offset m k : Nat}
    (hrows : data.load offset 4 = countWire m) (hcolumns : data.load (offset + 4) 4 = countWire k) :
    (old.serializeIn.eval data offset).1.2.bucket.length = count m ∧
      ∀ row ∈ (old.serializeIn.eval data offset).1.2.bucket, row.cells.length = count k := by
  simp only [serializeIn, Input.eval_bind, eval_in_count hrows, eval_in_count hcolumns,
    Input.eval_pure]
  constructor
  · rw [pushBackAll_length, List.length_nil, Nat.zero_add]
    rfl
  · apply pushBackAll_forall
    · intro offset
      simp only [Input.eval_bind, Input.eval_pure]
      rw [pushBackAll_length, List.length_nil, Nat.zero_add]
      rfl
    · exact List.forall_mem_nil _

theorem eval_serializeIn_rectangle (old : DynamicDataBucket) {b : DynamicDataBucket}
    {data : Memory} {offset k : Nat}
    (hfits : b.CellsFit) (hm : b.bucket.length < 2 ^ 31) (hk : k < 2 ^ 31)
    (hwidth : ∀ row ∈ b.bucket, row.cells.length = k)
    (hload : data.load offset (countWire b.bucket.length ++ countWire k ++
      rowsWire b.bucket).length = countWire b.bucket.length ++ countWire k ++ rowsWire b.bucket) :
    (old.serializeIn.eval data offset).1.2.cells = b.cells ∧
      (old.serializeIn.eval data offset).2 = offset + 8 + (rowsWire b.bucket).length := by
  simp only [List.length_append, countWire_length, Store.load_add] at hload
  obtain ⟨hcounts, hrows⟩ := List.append_inj hload (by simp)
  obtain ⟨hcount, hcolumns⟩ := List.append_inj hcounts (by simp)
  have hcountm : (Int32.ofNat b.bucket.length).toInt.toNat = b.bucket.length := count_eq_iff.mpr hm
  have hcountk : (Int32.ofNat k).toInt.toNat = k := count_eq_iff.mpr hk
  -- the reader makes new rows, whose stand-in strings are empty
  let fresh := b.bucket.map fun row => (⟨row.cells, []⟩ : DataRow)
  have hfresh : fresh.flatMap (fun row => stringsWire row.cells) = rowsWire b.bucket :=
    List.flatMap_map ..
  have hrow : ∀ row ∈ fresh, ∀ o,
      data.load o (stringsWire row.cells).length = stringsWire row.cells →
      Input.eval data o (do
        let cells ← pushBackAll (Serialize.In ([] : StdString)) k []
        pure ({ cells, empty := [] } : DataRow)) = (row, o + (stringsWire row.cells).length) := by
    intro row hmem o hcells
    obtain ⟨old, hold, rfl⟩ := List.mem_map.mp hmem
    have hread := pushBack_strings old.cells [] o (hfits old hold) hcells
    rw [hwidth old hold] at hread
    simp only [Input.eval_bind, hread, Input.eval_pure, List.nil_append]
  have hread := pushBackAll_wire fresh [] (offset + 4 + 4) hrow (by rwa [hfresh])
  rw [List.length_map, hfresh, List.nil_append] at hread
  simp only [serializeIn, Input.eval_bind, eval_in_count hcount, eval_in_count hcolumns, hcountm,
    hcountk, hread, Input.eval_pure, and_true]
  exact List.map_map

/-- Writing is defined and ends at an `int`, and reading what was written gives the cells, at that
end, whatever is read into. -/
def RoundTrips (b : DynamicDataBucket) (buffer : Buffer) : Prop :=
  let written := b.serializeOut.exec buffer
  written.1 = some true ∧ written.2.bufferOffset < 2 ^ 31 ∧ ∀ old : DynamicDataBucket,
    let read := old.serializeIn.eval written.2.data buffer.bufferOffset
    read.1.2.cells = b.cells ∧ read.2 = written.2.bufferOffset

/-- There is a row, and every row has the length of every other; `int`s count both. -/
def Rectangular (b : DynamicDataBucket) : Prop :=
  b.bucket ≠ [] ∧ b.bucket.length < 2 ^ 31 ∧
    ∃ columns < 2 ^ 31, ∀ row ∈ b.bucket, row.cells.length = columns

theorem roundTrips_of_rectangular {b : DynamicDataBucket} {buffer : Buffer} (hfits : b.CellsFit)
    (h : b.Rectangular) (hroom : buffer.bufferOffset + b.size < 2 ^ 31) :
    b.RoundTrips buffer := by
  obtain ⟨hrows, hm, columns, hk, hwidth⟩ := h
  obtain ⟨row, rows, hcons⟩ := List.exists_cons_of_ne_nil hrows
  have hfirst : row.cells.length = columns := hwidth row (by rw [hcons]; exact List.mem_cons_self)
  rw [size_eq] at hroom
  rw [RoundTrips, exec_serializeOut_cons hcons hfits, hfirst]
  dsimp only
  have hlength : (countWire b.bucket.length ++ countWire columns ++ rowsWire b.bucket).length =
      8 + (rowsWire b.bucket).length := by
    simp only [List.length_append, countWire_length]
  rw [Buffer.append_offset, hlength]
  refine ⟨rfl, hroom, fun old => ?_⟩
  obtain ⟨hcells, hend⟩ := eval_serializeIn_rectangle old hfits hm hk hwidth
    (buffer.append_load (countWire b.bucket.length ++ countWire columns ++ rowsWire b.bucket))
  refine ⟨hcells, ?_⟩
  rw [hend, Nat.add_assoc]

theorem rectangular_of_roundTrips {b : DynamicDataBucket} {buffer : Buffer} (hfits : b.CellsFit)
    (h : b.RoundTrips buffer) : b.Rectangular := by
  obtain ⟨hdefined, -, hback⟩ := h
  obtain ⟨hcells, -⟩ := hback b
  rcases hcons : b.bucket with _ | ⟨row, rows⟩
  · rw [exec_serializeOut_nil b hcons] at hdefined
    cases hdefined
  rw [exec_serializeOut_cons hcons hfits] at hcells
  dsimp only at hcells
  have hload := buffer.append_load
    (countWire b.bucket.length ++ countWire row.cells.length ++ rowsWire b.bucket)
  simp only [List.length_append, countWire_length, Store.load_add] at hload
  obtain ⟨hcounts, -⟩ := List.append_inj hload (by simp)
  obtain ⟨hm, hk⟩ := List.append_inj hcounts (by simp)
  obtain ⟨hrows, hcolumns⟩ := eval_serializeIn_shape b hm hk
  -- the table is the rectangle that was read
  have hlength := congrArg List.length hcells
  rw [cells, cells, List.length_map, List.length_map, hrows] at hlength
  have hwidth : ∀ r ∈ b.bucket, r.cells.length = count row.cells.length := by
    intro r hr
    have hmem : r.cells ∈ b.cells := List.mem_map_of_mem hr
    rw [← hcells] at hmem
    obtain ⟨r', hr', he⟩ := List.mem_map.mp hmem
    rw [← he]
    exact hcolumns r' hr'
  have hfirst := hwidth row (by rw [hcons]; exact List.mem_cons_self)
  refine ⟨by rw [hcons]; exact List.cons_ne_nil _ _, count_eq_iff.mp hlength, row.cells.length,
    count_eq_iff.mp hfirst.symm, fun r hr => (hwidth r hr).trans hfirst.symm⟩

theorem room_of_roundTrips {b : DynamicDataBucket} {buffer : Buffer} (hfits : b.CellsFit)
    (h : b.RoundTrips buffer) : buffer.bufferOffset + b.size < 2 ^ 31 := by
  obtain ⟨hrows, -⟩ := rectangular_of_roundTrips hfits h
  obtain ⟨row, rows, hcons⟩ := List.exists_cons_of_ne_nil hrows
  obtain ⟨-, hend, -⟩ := h
  rw [exec_serializeOut_cons hcons hfits] at hend
  simpa only [size_eq, Buffer.append_offset, List.length_append, countWire_length] using hend

/-- A table of cells that fit survives exactly if it is a rectangle with at least one row and the
offset behind it is an `int`. -/
theorem table_round_trip_iff (b : DynamicDataBucket) (buffer : Buffer) (hfits : b.CellsFit) :
    b.RoundTrips buffer ↔ b.Rectangular ∧ buffer.bufferOffset + b.size < 2 ^ 31 :=
  ⟨fun h => ⟨rectangular_of_roundTrips hfits h, room_of_roundTrips hfits h⟩,
    fun ⟨h, hroom⟩ => roundTrips_of_rectangular hfits h hroom⟩

/-- A table of two rows, NULL among its cells. -/
abbrev sampleTable : DynamicDataBucket := ⟨[⟨[[97], []], []⟩, ⟨[[78, 85, 76, 76], [98]], [99]⟩]⟩

theorem sample_table_round_trip :
    sampleTable.RoundTrips ⟨fun _ => 7, 3⟩ ↔
      sampleTable.Rectangular ∧ 3 + sampleTable.size < 2 ^ 31 :=
  table_round_trip_iff sampleTable ⟨fun _ => 7, 3⟩ (by simp [CellsFit, StringFits, maxString])

/-- The size of no row is written for an empty table, and a short row takes its missing cell from
behind the table. -/
theorem ragged_not_round_trip :
    ((DynamicDataBucket.mk []).serializeOut.exec ⟨fun _ => 0, 0⟩).1 = none ∧
      ¬ (DynamicDataBucket.mk [⟨[[97]], []⟩, ⟨[], []⟩]).RoundTrips ⟨fun _ => 0, 0⟩ := by
  refine ⟨exec_serializeOut_nil _ rfl _, fun h => ?_⟩
  obtain ⟨-, -, columns, -, hwidth⟩ :=
    rectangular_of_roundTrips (by simp [CellsFit, StringFits, maxString]) h
  simp only [List.forall_mem_cons, List.length_cons, List.length_nil] at hwidth
  omega

end DynamicDataBucket
end SocketCPlusPlus.Packets
