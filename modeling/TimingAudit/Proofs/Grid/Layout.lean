import TimingAudit.Grid.Basic
import Mathlib.Data.List.Basic
import Mathlib.Tactic.Common

/-!
# The grid as a matrix with column minima

The buffer of a grid is read through two total views: `cell` by row and column, and `least` by
column. A grid is well formed if the buffer holds its rows and no more, fits into memory, has room
for the passes run, and stores beside it the minimum of every column.

* `record_eq_ok_iff` says when a measurement can be recorded, and that this is the update
  `recorded`;
* `addRows_eq_ok_iff` says when rows can be added, and that this is the update `extend`;
* `WellFormed.recorded` and `WellFormed.extend` say that both updates keep a grid well formed.
-/

namespace TimingAudit

/-- The smaller of two words, as a number. -/
@[simp] theorem toNat_min (a b : UInt64) : (min a b).toNat = min a.toNat b.toNat := by
  have hmin : min a b = if a ≤ b then a else b := rfl
  rw [hmin, Nat.min_def, apply_ite UInt64.toNat]
  simp only [UInt64.le_iff_toNat_le]

/-- No word exceeds the sentinel. -/
theorem le_sentinel (a : UInt64) : a ≤ sentinel := by
  have ha := a.toNat_lt
  rw [UInt64.le_iff_toNat_le, show sentinel.toNat = 2 ^ 64 - 1 from rfl]
  omega

namespace Grid

/-! ## Views -/

/-- The cell at a row and a column, `sentinel` outside of the buffer. -/
def cell (g : Grid) (row col : Nat) : UInt64 := g.cells.getD (g.place row col) sentinel

/-- The running minimum of a column, `sentinel` outside of the grid. -/
def least (g : Grid) (col : Nat) : UInt64 := g.minima.getD col sentinel

/-- Places of the rows below `rows` come before those of the row `rows`. -/
theorem place_lt (g : Grid) {row col rows : Nat} (hrow : row < rows) (hcol : col < g.sampleCount) :
    g.place row col < rows * g.sampleCount := by
  have hle : (row + 1) * g.sampleCount ≤ rows * g.sampleCount := Nat.mul_le_mul_right _ hrow
  rw [Nat.succ_mul] at hle
  unfold place
  omega

/-- A place before those of the row `rows` lies in a row below it. -/
theorem lt_of_place_lt (g : Grid) {row col rows : Nat}
    (h : g.place row col < rows * g.sampleCount) : row < rows := by
  have hle : row * g.sampleCount ≤ g.place row col := Nat.le_add_right _ _
  exact Nat.lt_of_mul_lt_mul_right (Nat.lt_of_le_of_lt hle h)

/-- Different cells have different places. -/
theorem place_inj (g : Grid) {row col row' col' : Nat} (hcol : col < g.sampleCount)
    (hcol' : col' < g.sampleCount) :
    g.place row col = g.place row' col' ↔ row = row' ∧ col = col' := by
  constructor
  · intro h
    have hpos : 0 < g.sampleCount := by omega
    have hdiv : ∀ i j, j < g.sampleCount → g.place i j / g.sampleCount = i := by
      intro i j hj
      rw [place, Nat.mul_comm, Nat.mul_add_div hpos, Nat.div_eq_of_lt hj, Nat.add_zero]
    have hmod : ∀ i j, j < g.sampleCount → g.place i j % g.sampleCount = j := by
      intro i j hj
      rw [place, Nat.mul_comm, Nat.mul_add_mod, Nat.mod_eq_of_lt hj]
    refine ⟨?_, ?_⟩
    · rw [← hdiv row col hcol, h, hdiv row' col' hcol']
    · rw [← hmod row col hcol, h, hmod row' col' hcol']
  · rintro ⟨rfl, rfl⟩
    rfl

/-! ## Well-formed grids -/

/-- The buffer holds exactly the rows, and the minima are those of its columns. -/
structure WellFormed (g : Grid) : Prop where
  cells_size : g.cells.size = g.rows * g.sampleCount
  minima_size : g.minima.size = g.sampleCount
  /-- The buffer could be allocated, so that no place of it leaves the words. -/
  fits : Store.cells.Fits (g.rows * g.sampleCount)
  passes_le_rows : g.passes ≤ g.rows
  least_le : ∀ row < g.rows, ∀ col < g.sampleCount, g.least col ≤ g.cell row col
  /-- A minimum below the sentinel has been measured. -/
  least_attained : ∀ col < g.sampleCount,
    g.least col = sentinel ∨ ∃ row < g.rows, g.cell row col = g.least col

/-- What fits into memory is counted by a word. -/
theorem lt_wordLimit_of_fits {count : Nat} (h : Store.cells.Fits count) : count < wordLimit := by
  have hle : count * 8 ≤ 0x7FFFFFFFFFFFFFFF := h
  show count < 0x10000000000000000
  omega

/-- Fewer cells fit as well. -/
theorem fits_mono {count count' : Nat} (hle : count' ≤ count) (h : Store.cells.Fits count) :
    Store.cells.Fits count' := by
  have hcount : count * 8 ≤ 0x7FFFFFFFFFFFFFFF := h
  show count' * 8 ≤ 0x7FFFFFFFFFFFFFFF
  omega

/-- The place of a cell lies in the buffer. -/
theorem WellFormed.place_lt_size {g : Grid} (hg : g.WellFormed) {row col : Nat} (hrow : row < g.rows)
    (hcol : col < g.sampleCount) : g.place row col < g.cells.size := by
  rw [hg.cells_size]
  exact g.place_lt hrow hcol

/-- A cell is what stands at its place. -/
theorem WellFormed.getElem?_place {g : Grid} (hg : g.WellFormed) {row col : Nat}
    (hrow : row < g.rows) (hcol : col < g.sampleCount) :
    g.cells[g.place row col]? = some (g.cell row col) := by
  have hsize := hg.place_lt_size hrow hcol
  rw [cell, Array.getD_eq_getD_getElem?, Array.getElem?_eq_getElem hsize, Option.getD_some]

/-- Reading a cell succeeds inside of the grid. -/
theorem get_eq {g : Grid} (hg : g.WellFormed) {row col : Nat} (hrow : row < g.rows)
    (hcol : col < g.sampleCount) : g.get row col = .ok (g.cell row col) := by
  have hplace := g.place_lt hrow hcol
  have hword := lt_wordLimit_of_fits hg.fits
  unfold get
  rw [if_neg (by omega), if_neg (by omega), hg.getElem?_place hrow hcol]

/-- Reading a cell fails outside of the grid. -/
theorem get_eq_ok {g : Grid} (hg : g.WellFormed) {row col : Nat} {clocks : UInt64}
    (h : g.get row col = .ok clocks) : row < g.rows ∧ col < g.sampleCount := by
  unfold get at h
  split at h
  · cases h
  · rename_i hcol
    split at h
    · cases h
    · split at h
      · cases h
      · rename_i hget
        obtain ⟨hlt, -⟩ := Array.getElem?_eq_some_iff.mp hget
        rw [hg.cells_size] at hlt
        exact ⟨g.lt_of_place_lt hlt, by omega⟩

/-- Reading a minimum succeeds inside of the grid. -/
theorem minimum_eq {g : Grid} (hg : g.WellFormed) {col : Nat} (hcol : col < g.sampleCount) :
    g.minimum col = .ok (g.least col) := by
  have hsize : col < g.minima.size := by rw [hg.minima_size]; exact hcol
  unfold minimum least
  rw [Array.getElem?_eq_getElem hsize, Array.getD_eq_getD_getElem?,
    Array.getElem?_eq_getElem hsize]
  rfl

/-- Cells behind the last row read as unmeasured. -/
theorem WellFormed.cell_of_rows_le {g : Grid} (hg : g.WellFormed) {row : Nat} (hrow : g.rows ≤ row)
    (col : Nat) : g.cell row col = sentinel := by
  have hplace : g.cells.size ≤ g.place row col := by
    rw [hg.cells_size]
    exact Nat.le_trans (Nat.mul_le_mul_right _ hrow) (Nat.le_add_right _ _)
  rw [cell, Array.getD_eq_getD_getElem?, Array.getElem?_eq_none hplace]
  rfl

/-- The minimum of a column without measurements. -/
theorem WellFormed.least_of_unmeasured {g : Grid} (hg : g.WellFormed) {col : Nat}
    (hcol : col < g.sampleCount) (hcells : ∀ row, g.cell row col = sentinel) :
    g.least col = sentinel := by
  rcases hg.least_attained col hcol with hs | ⟨row, -, heq⟩
  · exact hs
  · rw [← heq, hcells row]

/-- If a column is unmeasured from row `count` on, its minimum stands in one of the rows before. -/
theorem WellFormed.least_attained_below {g : Grid} (hg : g.WellFormed) {col : Nat}
    (hcol : col < g.sampleCount) {count : Nat} (hpos : 0 < count) (hrows : count ≤ g.rows)
    (hcells : ∀ row, count ≤ row → g.cell row col = sentinel) :
    ∃ row < count, g.cell row col = g.least col := by
  by_cases hs : g.least col = sentinel
  · refine ⟨0, hpos, ?_⟩
    have hle := hg.least_le 0 (by omega) col hcol
    rw [hs] at hle ⊢
    exact UInt64.le_antisymm (le_sentinel _) hle
  · rcases hg.least_attained col hcol with hs' | ⟨row, -, heq⟩
    · exact absurd hs' hs
    · refine ⟨row, ?_, heq⟩
      by_contra hrow
      exact hs (by rw [← heq, hcells row (by omega)])

/-- The cells of a column are those of all rows, in order. -/
theorem columnCells_eq {g : Grid} (hg : g.WellFormed) {col : Nat} (hcol : col < g.sampleCount) :
    g.columnCells col = (List.range g.rows).map fun row => g.cell row col := by
  have hcount : (g.cells.size + g.sampleCount - 1 - col) / g.sampleCount = g.rows := by
    have hsum : g.cells.size + g.sampleCount - 1 - col =
        g.sampleCount - 1 - col + g.rows * g.sampleCount := by
      rw [hg.cells_size]
      omega
    rw [hsum, Nat.add_mul_div_right _ _ (by omega), Nat.div_eq_of_lt (by omega), Nat.zero_add]
  rw [columnCells, hcount, List.filterMap_eq_map_iff_forall_eq_some]
  intro row hrow
  exact hg.getElem?_place (List.mem_range.mp hrow) hcol

/-- Reading a row succeeds inside of the grid. -/
theorem row_eq {g : Grid} (hg : g.WellFormed) {row : Nat} (hrow : row < g.rows) :
    g.row row = .ok ((List.range g.sampleCount).map fun col => g.cell row col) := by
  have hstart : ∀ col, g.place row 0 + col = g.place row col := fun col => rfl
  have hend : g.place row g.sampleCount ≤ g.cells.size := by
    rw [hg.cells_size, place, ← Nat.succ_mul]
    exact Nat.mul_le_mul_right _ hrow
  have hword := lt_wordLimit_of_fits hg.fits
  rw [← hg.cells_size] at hword
  rw [Grid.row, if_neg (by omega), if_neg (by omega)]
  congr 1
  apply List.ext_getElem?
  intro col
  rw [Array.getElem?_toList, Array.getElem?_extract, List.getElem?_map, Nat.min_eq_left hend,
    ← hstart g.sampleCount, Nat.add_sub_cancel_left, hstart]
  by_cases hcol : col < g.sampleCount
  · rw [if_pos hcol, List.getElem?_range hcol, Option.map_some, hg.getElem?_place hrow hcol]
  · rw [if_neg hcol, List.getElem?_eq_none (by rw [List.length_range]; omega)]
    rfl

/-! ## Recording a measurement -/

/-- The grid in which a measurement has been folded into a cell and into the minimum of its column.
-/
def recorded (g : Grid) (row col : Nat) (clocks : UInt64) : Grid :=
  { g with
    cells := g.cells.setIfInBounds (g.place row col) (min (g.cell row col) clocks)
    minima := g.minima.setIfInBounds col (min (g.least col) clocks) }

section Recorded

variable (g : Grid) (row col : Nat) (clocks : UInt64)

@[simp] theorem recorded_sampleCount :
    (g.recorded row col clocks).sampleCount = g.sampleCount := rfl

@[simp] theorem recorded_rows : (g.recorded row col clocks).rows = g.rows := rfl

@[simp] theorem recorded_passes : (g.recorded row col clocks).passes = g.passes := rfl

@[simp] theorem recorded_place (row' col' : Nat) :
    (g.recorded row col clocks).place row' col' = g.place row' col' := rfl

end Recorded

/-- A measurement can be recorded exactly inside of the grid. -/
theorem record_eq_ok_iff {g g' : Grid} (hg : g.WellFormed) {row col : Nat} {clocks : UInt64} :
    g.record row col clocks = .ok g' ↔
      row < g.rows ∧ col < g.sampleCount ∧ g' = g.recorded row col clocks := by
  constructor
  · intro h
    unfold record at h
    split at h
    · cases h
    · rename_i old hget
      obtain ⟨hrow, hcol⟩ := get_eq_ok hg hget
      rw [get_eq hg hrow hcol, Except.ok.injEq] at hget
      rw [minimum_eq hg hcol] at h
      cases h
      exact ⟨hrow, hcol, by rw [← hget]; rfl⟩
  · rintro ⟨hrow, hcol, rfl⟩
    unfold record
    rw [get_eq hg hrow hcol, minimum_eq hg hcol]
    rfl

/-- The cells after recording: one is lowered to the measurement, the others are as before. -/
theorem cell_recorded {g : Grid} (hg : g.WellFormed) {row col : Nat} (hrow : row < g.rows)
    (hcol : col < g.sampleCount) (clocks : UInt64) (row' : Nat) {col' : Nat}
    (hcol' : col' < g.sampleCount) :
    (g.recorded row col clocks).cell row' col' =
      if row = row' ∧ col = col' then min (g.cell row col) clocks else g.cell row' col' := by
  have hsize := hg.place_lt_size hrow hcol
  rw [cell, recorded_place, recorded, Array.getD_eq_getD_getElem?, Array.getElem?_setIfInBounds]
  by_cases h : g.place row col = g.place row' col'
  · rw [if_pos h, if_pos (h ▸ hsize), if_pos ((g.place_inj hcol hcol').mp h)]
    rfl
  · rw [if_neg h, if_neg fun heq => h ((g.place_inj hcol hcol').mpr heq), cell,
      Array.getD_eq_getD_getElem?]

/-- The minima after recording: one is lowered to the measurement, the others are as before. -/
theorem least_recorded {g : Grid} (hg : g.WellFormed) {col : Nat} (hcol : col < g.sampleCount)
    (row : Nat) (clocks : UInt64) (col' : Nat) :
    (g.recorded row col clocks).least col' =
      if col = col' then min (g.least col) clocks else g.least col' := by
  have hsize : col < g.minima.size := by rw [hg.minima_size]; exact hcol
  rw [least, recorded, Array.getD_eq_getD_getElem?, Array.getElem?_setIfInBounds]
  by_cases h : col = col'
  · rw [if_pos h, if_pos (h ▸ hsize), if_pos h]
    rfl
  · rw [if_neg h, if_neg h, least, Array.getD_eq_getD_getElem?]

/-- **A recorded measurement** keeps a grid well formed. -/
theorem WellFormed.recorded {g : Grid} (hg : g.WellFormed) {row col : Nat} (hrow : row < g.rows)
    (hcol : col < g.sampleCount) (clocks : UInt64) : (g.recorded row col clocks).WellFormed where
  cells_size := by rw [Grid.recorded, Array.size_setIfInBounds]; exact hg.cells_size
  minima_size := by rw [Grid.recorded, Array.size_setIfInBounds]; exact hg.minima_size
  fits := hg.fits
  passes_le_rows := hg.passes_le_rows
  least_le := by
    intro row' hrow' col' hcol'
    have hle := hg.least_le row' hrow' col' hcol'
    rw [cell_recorded hg hrow hcol clocks row' hcol', least_recorded hg hcol row clocks col']
    rw [UInt64.le_iff_toNat_le] at hle ⊢
    by_cases hc : col = col'
    · subst hc
      by_cases hr : row = row'
      · subst hr
        simp only [and_self, if_true, toNat_min]
        omega
      · simp only [hr, false_and, if_false, if_true, toNat_min]
        omega
    · simp only [hc, and_false, if_false]
      exact hle
  least_attained := by
    intro col' hcol'
    rw [least_recorded hg hcol row clocks col']
    by_cases hc : col = col'
    · subst hc
      rw [if_pos rfl]
      have hle := UInt64.le_iff_toNat_le.mp (hg.least_le row hrow col hcol)
      by_cases hlow : clocks.toNat ≤ (g.least col).toNat
      -- The new measurement is the least one, and stands in its own cell.
      · refine .inr ⟨row, hrow, ?_⟩
        rw [cell_recorded hg hrow hcol clocks row hcol, if_pos ⟨rfl, rfl⟩, ← UInt64.toNat_inj,
          toNat_min, toNat_min]
        omega
      -- The old minimum stays, and so does the cell that it was measured in.
      · have hmin : min (g.least col) clocks = g.least col := by
          rw [← UInt64.toNat_inj, toNat_min]
          omega
        rw [hmin]
        rcases hg.least_attained col hcol with hs | ⟨row', hrow', heq⟩
        · exact .inl hs
        · refine .inr ⟨row', hrow', ?_⟩
          rw [cell_recorded hg hrow hcol clocks row' hcol]
          by_cases hr : row = row'
          · subst hr
            rw [if_pos ⟨rfl, rfl⟩, heq, hmin]
          · rw [if_neg fun h => hr h.1, heq]
    · rw [if_neg hc]
      rcases hg.least_attained col' hcol' with hs | ⟨row', hrow', heq⟩
      · exact .inl hs
      · refine .inr ⟨row', hrow', ?_⟩
        rw [cell_recorded hg hrow hcol clocks row' hcol', if_neg fun h => hc h.2, heq]

/-! ## Adding rows -/

/-- The grid with `count` more rows, all unmeasured. -/
def extend (g : Grid) (count : Nat) : Grid :=
  { g with
    cells := g.cells ++ Array.replicate (count * g.sampleCount) sentinel
    rows := g.rows + count }

section Extend

variable (g : Grid) (count : Nat)

@[simp] theorem extend_sampleCount : (g.extend count).sampleCount = g.sampleCount := rfl

@[simp] theorem extend_rows : (g.extend count).rows = g.rows + count := rfl

@[simp] theorem extend_passes : (g.extend count).passes = g.passes := rfl

@[simp] theorem extend_minima : (g.extend count).minima = g.minima := rfl

@[simp] theorem extend_least (col : Nat) : (g.extend count).least col = g.least col := rfl

@[simp] theorem extend_best : (g.extend count).best = g.best := rfl

/-- Adding no row changes nothing. -/
@[simp] theorem extend_zero : g.extend 0 = g := by
  simp [extend]

/-- Rows can be added in one step or in two. -/
theorem extend_extend (count' : Nat) :
    (g.extend count).extend count' = g.extend (count + count') := by
  simp [extend, Array.append_assoc, Nat.add_mul, Nat.add_assoc]

/-- A cell outside of the buffer reads as unmeasured, so added rows do not show in the cells. -/
@[simp] theorem cell_extend (row col : Nat) : (g.extend count).cell row col = g.cell row col := by
  show (g.cells ++ Array.replicate (count * g.sampleCount) sentinel).getD (g.place row col)
    sentinel = g.cells.getD (g.place row col) sentinel
  rw [Array.getD_eq_getD_getElem?, Array.getD_eq_getD_getElem?, Array.getElem?_append]
  by_cases h : g.place row col < g.cells.size
  · rw [if_pos h]
  · have hnone : g.cells[g.place row col]? = none := Array.getElem?_eq_none (by omega)
    rw [if_neg h, hnone, Array.getElem?_replicate]
    split <;> rfl

end Extend

/-- Adding rows keeps a grid well formed, if the buffer still fits. -/
theorem WellFormed.extend {g : Grid} (hg : g.WellFormed) {count : Nat}
    (hfits : Store.cells.Fits ((g.rows + count) * g.sampleCount)) :
    (g.extend count).WellFormed where
  cells_size := by
    rw [Grid.extend, Array.size_append, Array.size_replicate, hg.cells_size, Nat.add_mul]
  minima_size := hg.minima_size
  fits := hfits
  passes_le_rows := Nat.le_add_right_of_le hg.passes_le_rows
  least_le := by
    intro row _ col hcol
    rw [cell_extend, extend_least]
    by_cases hrow : row < g.rows
    · exact hg.least_le row hrow col hcol
    · rw [hg.cell_of_rows_le (Nat.le_of_not_lt hrow)]
      exact le_sentinel _
  least_attained := by
    intro col hcol
    simp only [cell_extend, extend_least, extend_rows]
    rcases hg.least_attained col hcol with hs | ⟨row, hrow, heq⟩
    · exact .inl hs
    · exact .inr ⟨row, by omega, heq⟩

/-- Rows that are there already may be recorded in before or after others are added. -/
theorem recorded_extend {g : Grid} (hg : g.WellFormed) {row col : Nat} (hrow : row < g.rows)
    (hcol : col < g.sampleCount) (clocks : UInt64) (count : Nat) :
    (g.extend count).recorded row col clocks = (g.recorded row col clocks).extend count := by
  have hsize := hg.place_lt_size hrow hcol
  unfold recorded
  rw [cell_extend, extend_least]
  simp only [extend, Grid.mk.injEq, and_true]
  exact Array.setIfInBounds_append_left hsize

/-- Rows can be added exactly if the buffer then fits. -/
theorem addRows_eq_ok_iff {g g' : Grid} (hg : g.WellFormed) {rows : Nat} :
    g.addRows rows = .ok g' ↔
      Store.cells.Fits (rows * g.sampleCount) ∧ g' = g.extend (rows - g.rows) := by
  unfold addRows
  by_cases hrows : rows ≤ g.rows
  · have hfits := fits_mono (Nat.mul_le_mul_right g.sampleCount hrows) hg.fits
    rw [if_pos hrows, Nat.sub_eq_zero_of_le hrows, extend_zero, Except.ok.injEq,
      and_iff_right hfits, eq_comm]
  · have hle : g.rows * g.sampleCount ≤ rows * g.sampleCount := Nat.mul_le_mul_right _ (by omega)
    rw [if_neg hrows]
    by_cases hfits : Store.cells.Fits (rows * g.sampleCount)
    · have hword := lt_wordLimit_of_fits hfits
      have hextra : rows * g.sampleCount - g.cells.size = (rows - g.rows) * g.sampleCount := by
        rw [hg.cells_size, Nat.sub_mul]
      have hextend : g.extend (rows - g.rows) =
          { g with
            cells := g.cells ++ Array.replicate ((rows - g.rows) * g.sampleCount) sentinel
            rows := rows } := by
        rw [extend, Nat.add_sub_cancel' (by omega)]
      rw [if_neg (by omega), if_neg (by rw [hg.cells_size]; omega)]
      simp only [if_pos hfits, hextra, Except.ok.injEq]
      rw [hextend, and_iff_right hfits, eq_comm]
    · rw [iff_false_right fun h => hfits h.1]
      intro h
      split at h
      · cases h
      · split at h <;> cases h

/-! ## New grids -/

/-- A new grid can be had if its cells and its minima fit. -/
theorem allocate_eq_ok_iff {sampleCount rows : Nat} {g : Grid} :
    allocate sampleCount rows = .ok g ↔
      (Store.cells.Fits (sampleCount * rows) ∧ Store.minima.Fits sampleCount) ∧
        g = blank sampleCount rows := by
  unfold allocate
  by_cases hcells : Store.cells.Fits (sampleCount * rows)
  · have hword := lt_wordLimit_of_fits hcells
    rw [if_neg (by omega), if_neg (not_not_intro hcells)]
    by_cases hminima : Store.minima.Fits sampleCount
    · rw [if_neg (not_not_intro hminima), Except.ok.injEq, and_iff_right ⟨hcells, hminima⟩, eq_comm]
    · rw [if_pos hminima, iff_false_right fun h => hminima h.1.2]
      intro h
      cases h
  · rw [iff_false_right fun h => hcells h.1.1]
    intro h
    split at h <;> cases h

/-- Every cell of a new grid is unmeasured. -/
@[simp] theorem cell_blank (sampleCount rows row col : Nat) :
    (blank sampleCount rows).cell row col = sentinel := by
  rw [cell, blank, Array.getD_eq_getD_getElem?, Array.getElem?_replicate]
  split <;> rfl

/-- Every minimum of a new grid is empty. -/
@[simp] theorem least_blank (sampleCount rows col : Nat) :
    (blank sampleCount rows).least col = sentinel := by
  rw [least, blank, Array.getD_eq_getD_getElem?, Array.getElem?_replicate]
  split <;> rfl

/-- A new grid is well formed. -/
theorem wellFormed_of_allocate {sampleCount rows : Nat} {g : Grid}
    (h : allocate sampleCount rows = .ok g) : g.WellFormed := by
  obtain ⟨⟨hfits, -⟩, rfl⟩ := allocate_eq_ok_iff.mp h
  constructor
  · show (Array.replicate _ _).size = rows * sampleCount
    rw [Array.size_replicate, Nat.mul_comm]
  · exact Array.size_replicate
  · show Store.cells.Fits (rows * sampleCount)
    rw [Nat.mul_comm]
    exact hfits
  · exact Nat.zero_le _
  · intro row _ col _
    rw [cell_blank]
    exact le_sentinel _
  · intro col _
    exact .inl (least_blank _ _ _)

end Grid

end TimingAudit
