import SocketCPlusPlus.Foundation.Writes
import SocketCPlusPlus.Packets.CommonTypes

/-! Cells of a row written through `operator[]`, which gives out one string of the row for every
cell that holds the text NULL. -/
namespace SocketCPlusPlus.Packets
open Foundation

namespace DataRow

def nullText : StdString := [78, 85, 76, 76]

/-- What `operator[]` refers to. -/
inductive Reference where
  | cell (pos : Nat)
  | empty
  deriving DecidableEq, Repr

/-- Nothing is referred to past the cells. -/
def subscript (row : DataRow) (pos : Nat) : Option Reference :=
  row.cells[pos]?.map fun ref => if ref = nullText then .empty else .cell pos

def load (row : DataRow) : Reference → Option StdString
  | .cell pos => row.cells[pos]?
  | .empty => some row.empty

def assign (row : DataRow) (value : StdString) : Reference → DataRow
  | .cell pos => { row with cells := row.cells.set pos value }
  | .empty => { row with empty := value }

def read (row : DataRow) (pos : Nat) : Option StdString := row.subscript pos >>= row.load

/-- `row[pos] = value`. -/
def write (row : DataRow) (w : Nat × StdString) : Option DataRow :=
  (row.subscript w.1).map (row.assign w.2)

def writeAll (row : DataRow) (writes : List (Nat × StdString)) : Option DataRow :=
  writes.foldlM write row

/-- A text as a reader should get it. -/
def shown (cell : StdString) : StdString := if cell = nullText then [] else cell

section Step
variable {row : DataRow} {pos : Nat} {value : StdString}

theorem read_eq (row : DataRow) (pos : Nat) : row.read pos =
    row.cells[pos]?.map fun cell => if cell = nullText then row.empty else cell := by
  rw [read, subscript]
  cases hcell : row.cells[pos]? with
  | none => rfl
  | some cell =>
    by_cases hnull : cell = nullText
    · simp [hnull, load]
    · simp [hnull, load, hcell]

theorem write_null (h : row.cells[pos]? = some nullText) :
    row.write (pos, value) = some { row with empty := value } := by
  rw [write, subscript, h]
  rfl

theorem write_cell {cell : StdString} (h : row.cells[pos]? = some cell) (hcell : cell ≠ nullText) :
    row.write (pos, value) = some { row with cells := row.cells.set pos value } := by
  rw [write, subscript, h, Option.map_some, if_neg hcell]
  rfl

end Step

/-- What a cell should hold after the writes. -/
def valueAt (row : DataRow) (writes : List (Nat × StdString)) (pos : Nat) : Option StdString :=
  Writes.after (row.cells[·]?) writes pos

/-- The cells hold the last values written to them or what they held before, and reading shows
that, with the text NULL as the empty string. -/
def WritesKept (row : DataRow) (writes : List (Nat × StdString)) : Prop :=
  ∃ after, row.writeAll writes = some after ∧ after.cells.length = row.cells.length ∧
    ∀ pos < row.cells.length, after.cells[pos]? = row.valueAt writes pos ∧
      after.read pos = (row.valueAt writes pos).map shown

/-- Each write goes to a cell that does not hold the text NULL at that time. -/
def Unhidden (row : DataRow) (writes : List (Nat × StdString)) : Prop :=
  Writes.Each (· ≠ some nullText) (row.cells[·]?) writes

/-- The cells as they should be, the stand-in as it was. -/
structure Plain (row : DataRow) (writes : List (Nat × StdString)) (after : DataRow) : Prop where
  cells : ∀ pos, after.cells[pos]? = row.valueAt writes pos
  empty : after.empty = row.empty

/-- The stand-in has the last value written to a cell that still holds the text NULL. -/
def Hidden (writes : List (Nat × StdString)) (after : DataRow) : Prop :=
  ∃ pos, after.cells[pos]? = some nullText ∧ Writes.last writes pos = some after.empty

/-- A write in the range hides itself, or it leaves the row as plain or as hidden as it was. -/
theorem write_cases {row before : DataRow} {writes : List (Nat × StdString)} {w : Nat × StdString}
    (hw : w.1 < before.cells.length) : ∃ after, before.write w = some after ∧
      after.cells.length = before.cells.length ∧
      (before.cells[w.1]? = some nullText → Hidden (writes ++ [w]) after) ∧
      (before.cells[w.1]? ≠ some nullText →
        (Plain row writes before → Plain row (writes ++ [w]) after) ∧
        (Hidden writes before → Hidden (writes ++ [w]) after)) := by
  obtain ⟨pos, value⟩ := w
  by_cases hnull : before.cells[pos]? = some nullText
  · refine ⟨_, write_null hnull, rfl, fun _ => ⟨pos, hnull, ?_⟩, fun hne => absurd hnull hne⟩
    rw [Writes.last_snoc, if_pos rfl]
  · have hcell : before.cells[pos]? = some before.cells[pos] := List.getElem?_eq_getElem hw
    refine ⟨_, write_cell hcell fun heq => hnull (heq ▸ hcell), List.length_set, fun h =>
      absurd h hnull, fun _ => ⟨fun hplain => ⟨fun j => ?_, hplain.empty⟩, ?_⟩⟩
    · rw [valueAt, Writes.after_snoc, List.getElem?_set]
      by_cases hj : pos = j
      · rw [if_pos hj, if_pos hj, if_pos hw]
      · rw [if_neg hj, if_neg hj]
        exact hplain.cells j
    · rintro ⟨j, hj, hlast⟩
      have hne : pos ≠ j := fun heq => hnull (heq ▸ hj)
      refine ⟨j, ?_, ?_⟩
      · rw [List.getElem?_set_ne hne]
        exact hj
      · rw [Writes.last_snoc, if_neg hne]
        exact hlast

/-- Up to the first write that hides itself the row is plain, from then on it is hidden. -/
theorem writeAll_cases (row : DataRow) (writes : List (Nat × StdString))
    (hrange : ∀ w ∈ writes, w.1 < row.cells.length) : ∃ after, row.writeAll writes = some after ∧
      after.cells.length = row.cells.length ∧
      (row.Unhidden writes ∧ Plain row writes after ∨
        ¬ row.Unhidden writes ∧ Hidden writes after) := by
  induction writes using List.reverseRecOn with
  | nil =>
    refine ⟨row, rfl, rfl, Or.inl ⟨fun n w hw => ?_, fun _ => rfl, rfl⟩⟩
    exact absurd hw.symm (Option.some_ne_none w)
  | append_singleton writes w ih =>
    obtain ⟨before, hbefore, hlength, hcases⟩ :=
      ih fun v hv => hrange v (List.mem_append_left _ hv)
    have hw : w.1 < before.cells.length :=
      hlength ▸ hrange w (List.mem_append_right _ List.mem_cons_self)
    obtain ⟨after, hafter, hlength', hhit, hmiss⟩ := write_cases hw
    have hrun : row.writeAll (writes ++ [w]) = some after := by
      rw [writeAll, List.foldlM_append, ← writeAll, hbefore]
      simp [hafter]
    refine ⟨after, hrun, hlength'.trans hlength, ?_⟩
    rcases hcases with ⟨hclean, hplain⟩ | ⟨hlost, hhidden⟩
    · by_cases hnull : before.cells[w.1]? = some nullText
      · refine Or.inr ⟨fun h => (Writes.each_snoc.mp h).2 ?_, hhit hnull⟩
        exact (hplain.cells w.1).symm.trans hnull
      · refine Or.inl ⟨Writes.each_snoc.mpr ⟨hclean, ?_⟩, (hmiss hnull).1 hplain⟩
        exact fun h => hnull ((hplain.cells w.1).trans h)
    · refine Or.inr ⟨fun h => hlost (Writes.each_snoc.mp h).1, ?_⟩
      by_cases hnull : before.cells[w.1]? = some nullText
      · exact hhit hnull
      · exact (hmiss hnull).2 hhidden

/-- What a hidden row shows is wrong somewhere. -/
theorem not_kept_of_hidden {row after : DataRow} {writes : List (Nat × StdString)}
    (hlength : after.cells.length = row.cells.length) (h : Hidden writes after)
    (hkept : ∀ pos < row.cells.length, after.cells[pos]? = row.valueAt writes pos ∧
      after.read pos = (row.valueAt writes pos).map shown) : False := by
  obtain ⟨pos, hcell, hlast⟩ := h
  have hpos : pos < row.cells.length := hlength ▸ (List.getElem?_eq_some_iff.mp hcell).1
  obtain ⟨hvalue, hread⟩ := hkept pos hpos
  have hexpected : row.valueAt writes pos = some after.empty := by
    rw [valueAt, Writes.after, hlast]
    rfl
  -- the last value written is the stand-in's, so it is the text NULL and should be read as empty
  have hnull : after.empty = nullText := by
    rw [hcell, hexpected] at hvalue
    exact (Option.some.inj hvalue).symm
  rw [read_eq, hcell, hexpected, hnull] at hread
  exact absurd hread (by decide)

/-- Writes are kept and shown exactly if none goes to a cell that holds the text NULL at that
time, and no cell is left with that text to show a stand-in that is not empty. -/
theorem writes_kept_iff (row : DataRow) (writes : List (Nat × StdString))
    (hrange : ∀ w ∈ writes, w.1 < row.cells.length) : row.WritesKept writes ↔
      row.Unhidden writes ∧ (row.empty = [] ∨
        ∀ pos < row.cells.length, row.valueAt writes pos ≠ some nullText) := by
  obtain ⟨after, hrun, hlength, hcases⟩ := writeAll_cases row writes hrange
  constructor
  · rintro ⟨after', hrun', -, hkept⟩
    obtain rfl : after = after' := Option.some.inj (hrun.symm.trans hrun')
    rcases hcases with ⟨hclean, hplain⟩ | ⟨-, hhidden⟩
    · refine ⟨hclean, ?_⟩
      by_contra hstandin
      push Not at hstandin
      obtain ⟨hempty, pos, hpos, hnull⟩ := hstandin
      have hread := (hkept pos hpos).2
      rw [read_eq, hplain.cells, hnull, hplain.empty] at hread
      exact hempty (Option.some.inj hread)
    · exact (not_kept_of_hidden hlength hhidden hkept).elim
  · rintro ⟨hclean, hstandin⟩
    have hplain := (hcases.resolve_right fun h => h.1 hclean).2
    refine ⟨after, hrun, hlength, fun pos hpos => ⟨hplain.cells pos, ?_⟩⟩
    rw [read_eq, hplain.cells, hplain.empty]
    cases hvalue : row.valueAt writes pos with
    | none => rfl
    | some cell =>
      rw [Option.map_some, Option.map_some, shown]
      by_cases hnull : cell = nullText
      · have hempty := hstandin.resolve_right fun h => h pos hpos (hnull ▸ hvalue)
        rw [if_pos hnull, if_pos hnull, hempty]
      · rw [if_neg hnull, if_neg hnull]

theorem sample_writes_kept :
    let row : DataRow := ⟨[[97], nullText], []⟩
    row.WritesKept [(0, [98]), (0, [99])] ↔ row.Unhidden [(0, [98]), (0, [99])] ∧
      (row.empty = [] ∨
        ∀ pos < row.cells.length, row.valueAt [(0, [98]), (0, [99])] pos ≠ some nullText) :=
  writes_kept_iff ⟨[[97], nullText], []⟩ [(0, [98]), (0, [99])] (by decide)

/-- Written to the first of two cells with the text NULL, a value is read from both and found in
neither. -/
theorem written_null_cell_spreads :
    let row : DataRow := ⟨[nullText, nullText], []⟩
    row.writeAll [(0, [97])] = some ⟨[nullText, nullText], [97]⟩ ∧
      (⟨[nullText, nullText], [97]⟩ : DataRow).read 1 = some [97] ∧
      ¬ row.WritesKept [(0, [97])] := by
  refine ⟨by decide, by decide, ?_⟩
  rintro ⟨after, hrun, -, hkept⟩
  have hafter : after = ⟨[nullText, nullText], [97]⟩ :=
    (Option.some.inj (hrun.symm.trans (by decide)))
  have hcell := (hkept 0 (by decide)).1
  rw [hafter] at hcell
  exact absurd hcell (by decide)

end DataRow
end SocketCPlusPlus.Packets
