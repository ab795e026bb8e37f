import TimingAudit.Proofs.Grid.InPlace

/-!
# The buffer as a matrix

The cells of a grid can be reached in three ways: one by its place in the buffer, the cells of a row
as a slice of the buffer, and those of a column on a walk through the buffer in steps of one row. All
three agree, and a measurement that is recorded shows at one place in each of them.

A column that is not there would have a place in the next row, and a row that is not there may have a
place that no word counts. Both are refused before anything is written.

* `column_eq_walk` : a column is a walk;
* `get_eq_error`, `recordInPlace_eq_error` : what is refused, and why;
* `get_recorded`, `minimum_recorded` : what is changed by recording;
* `buffer_is_matrix` : all of this, for every grid that calls lead to.
-/

namespace TimingAudit

/-! ## Walks through a list -/

/-- The entries of a list that are met on a walk: some are passed over, then one in every `stride` of
them is taken. -/
def walk {α : Type} (stride : Nat) : (skip : Nat) → List α → List α
  | _, [] => []
  | 0, x :: xs => x :: walk stride (stride - 1) xs
  | skip + 1, _ :: xs => walk stride skip xs

/-- A walk meets the entries at equal distances. -/
theorem getElem?_walk {α : Type} {stride : Nat} (hstride : 0 < stride) (xs : List α) :
    ∀ skip i : Nat, (walk stride skip xs)[i]? = xs[skip + i * stride]? := by
  induction xs with
  | nil =>
      intro skip i
      rw [walk, List.getElem?_nil, List.getElem?_nil]
  | cons x xs ih =>
      intro skip i
      cases skip with
      | succ skip =>
          rw [walk, ih, Nat.add_right_comm, List.getElem?_cons_succ]
      | zero =>
          cases i with
          | zero => simp [walk]
          | succ i =>
              -- The next entry is one stride away from the one that is taken.
              have hplace : 0 + (i + 1) * stride = stride - 1 + i * stride + 1 := by
                rw [Nat.succ_mul]
                omega
              rw [walk, List.getElem?_cons_succ, ih, hplace, List.getElem?_cons_succ]

namespace Grid

variable {g : Grid}

/-- Reading a column succeeds inside of the grid. -/
theorem column_eq (hg : g.WellFormed) {col : Nat} (hcol : col < g.sampleCount) :
    g.column col = .ok ((List.range g.rows).map fun row => g.cell row col) := by
  rw [column, if_neg (Nat.not_le_of_lt hcol), columnCells_eq hg hcol]

/-- **A column is a walk** through the buffer, from the place of its first cell on in steps of one
row. -/
theorem column_eq_walk (hg : g.WellFormed) {col : Nat} (hcol : col < g.sampleCount) :
    g.column col = .ok (walk (max g.sampleCount 1) col g.cells.toList) := by
  have hstride : max g.sampleCount 1 = g.sampleCount := Nat.max_eq_left (by omega)
  rw [column_eq hg hcol, hstride]
  congr 1
  apply List.ext_getElem?
  intro row
  have hplace : g.cells.toList[col + row * g.sampleCount]? = g.cells[g.place row col]? := by
    rw [Nat.add_comm]
    exact Array.getElem?_toList
  rw [getElem?_walk (by omega), hplace, List.getElem?_map]
  by_cases hrow : row < g.rows
  · rw [List.getElem?_range hrow, Option.map_some, hg.getElem?_place hrow hcol]
  · have hsize : g.cells.size ≤ g.place row col := by
      rw [hg.cells_size]
      exact Nat.le_of_not_lt fun h => hrow (g.lt_of_place_lt h)
    rw [List.getElem?_eq_none (by rw [List.length_range]; omega), Array.getElem?_eq_none hsize,
      Option.map_none]

/-! ## Outside of the grid -/

/-- What is wrong with a row and a column that are not in the grid. -/
def faultAt (g : Grid) (row col : Nat) : Fault :=
  if g.sampleCount ≤ col then .columnOutOfRange col
  else if wordLimit ≤ g.place row col then .countOverflow
  else .indexOutOfRange

/-- Reading a cell outside of the grid fails. -/
theorem get_eq_error (hg : g.WellFormed) {row col : Nat}
    (h : ¬ (row < g.rows ∧ col < g.sampleCount)) : g.get row col = .error (g.faultAt row col) := by
  unfold get faultAt
  by_cases hcol : g.sampleCount ≤ col
  · rw [if_pos hcol, if_pos hcol]
  · rw [if_neg hcol, if_neg hcol]
    by_cases hword : wordLimit ≤ g.place row col
    · rw [if_pos hword, if_pos hword]
    · -- The column is there, so the row is not, and the place lies behind the buffer.
      have hplace : g.cells.size ≤ g.place row col := by
        rw [hg.cells_size]
        refine Nat.le_of_not_lt fun hlt => h ⟨g.lt_of_place_lt hlt, Nat.lt_of_not_le hcol⟩
      rw [if_neg hword, if_neg hword, Array.getElem?_eq_none hplace]

/-- Recording outside of the grid fails in the same way, and nothing has been written. -/
theorem recordInPlace_eq_error (hg : g.WellFormed) {row col : Nat}
    (h : ¬ (row < g.rows ∧ col < g.sampleCount)) (clocks : UInt64) :
    g.recordInPlace row col clocks = (.error (g.faultAt row col), g) := by
  rw [recordInPlace, get_eq_error hg h]

/-- No place of the grid overflows the words, so one that does is outside of it. -/
theorem not_inside_of_overflow (hg : g.WellFormed) {row col : Nat}
    (hword : wordLimit ≤ g.place row col) : ¬ (row < g.rows ∧ col < g.sampleCount) := by
  rintro ⟨hrow, hcol⟩
  have hplace := g.place_lt hrow hcol
  have hfits := lt_wordLimit_of_fits hg.fits
  omega

theorem record_eq_error (hg : g.WellFormed) {row col : Nat}
    (h : ¬ (row < g.rows ∧ col < g.sampleCount)) (clocks : UInt64) :
    g.record row col clocks = .error (g.faultAt row col) := by
  rw [record, get_eq_error hg h]

/-- Reading a minimum outside of the grid fails. -/
theorem minimum_eq_error (hg : g.WellFormed) {col : Nat} (h : g.sampleCount ≤ col) :
    g.minimum col = .error .indexOutOfRange := by
  rw [minimum, Array.getElem?_eq_none (by rw [hg.minima_size]; exact h)]

/-- Where there are columns, only the rows of the grid can be read. -/
theorem lt_rows_of_row_eq_ok (hg : g.WellFormed) (hpos : 0 < g.sampleCount) {row : Nat}
    {cells : List UInt64} (h : g.row row = .ok cells) : row < g.rows := by
  unfold Grid.row at h
  split at h
  · cases h
  · split at h
    · cases h
    · rename_i hsize
      rw [hg.cells_size, place] at hsize
      apply Nat.lt_of_mul_lt_mul_right (a := g.sampleCount)
      omega

/-! ## Recording one measurement -/

/-- The cells after recording, also those outside of the grid. -/
theorem get_recorded (hg : g.WellFormed) {row col : Nat} (hrow : row < g.rows)
    (hcol : col < g.sampleCount) (clocks : UInt64) (row' col' : Nat) :
    (g.recorded row col clocks).get row' col' =
      if row' = row ∧ col' = col then .ok (min (g.cell row col) clocks) else g.get row' col' := by
  have hrec := hg.recorded hrow hcol clocks
  by_cases hinside : row' < g.rows ∧ col' < g.sampleCount
  · obtain ⟨hrow', hcol'⟩ := hinside
    rw [get_eq hrec hrow' hcol', cell_recorded hg hrow hcol clocks row' hcol', get_eq hg hrow' hcol']
    by_cases hsame : row' = row ∧ col' = col
    · rw [if_pos hsame, if_pos ⟨hsame.1.symm, hsame.2.symm⟩]
    · rw [if_neg hsame, if_neg fun h => hsame ⟨h.1.symm, h.2.symm⟩]
  · rw [get_eq_error hrec hinside, if_neg, get_eq_error hg hinside]
    · rfl
    · rintro ⟨rfl, rfl⟩
      exact hinside ⟨hrow, hcol⟩

/-- The minima after recording, also those outside of the grid. -/
theorem minimum_recorded (hg : g.WellFormed) {row col : Nat} (hrow : row < g.rows)
    (hcol : col < g.sampleCount) (clocks : UInt64) (col' : Nat) :
    (g.recorded row col clocks).minimum col' =
      if col' = col then .ok (min (g.least col) clocks) else g.minimum col' := by
  have hrec := hg.recorded hrow hcol clocks
  by_cases hinside : col' < g.sampleCount
  · rw [minimum_eq hrec hinside, least_recorded hg hcol row clocks col', minimum_eq hg hinside]
    by_cases hsame : col' = col
    · rw [if_pos hsame, if_pos hsame.symm]
    · rw [if_neg hsame, if_neg fun h => hsame h.symm]
  · rw [minimum_eq_error hrec (Nat.le_of_not_lt hinside), if_neg,
      minimum_eq_error hg (Nat.le_of_not_lt hinside)]
    rintro rfl
    exact hinside hcol

/-! ## All ways to the cells -/

/-- **The buffer is a matrix.** In every grid that calls lead to, a cell can be read exactly if its row
and its column are there, and it is then the entry of its row and of its column. A column is a walk
through the buffer with an entry for every row. Where there are columns, exactly the rows that are
there can be read, with an entry for every column. A measurement can be recorded exactly where a cell
can be read; it lowers this cell and the minimum of its column, and nothing else is changed. Anywhere
else it is refused, also where the place of the cell overflows the words, and the grid is as it was. -/
theorem buffer_is_matrix (hg : g.Reachable) :
    (∀ row col, (∃ clocks, g.get row col = .ok clocks) ↔ row < g.rows ∧ col < g.sampleCount) ∧
    (∀ row col clocks, g.get row col = .ok clocks →
      (∃ cells, g.row row = .ok cells ∧ cells[col]? = some clocks) ∧
        ∃ cells, g.column col = .ok cells ∧ cells[row]? = some clocks) ∧
    (∀ col < g.sampleCount, ∃ cells, g.column col = .ok cells ∧
      cells = walk (max g.sampleCount 1) col g.cells.toList ∧ cells.length = g.rows) ∧
    (0 < g.sampleCount → ∀ row, ((∃ cells, g.row row = .ok cells) ↔ row < g.rows) ∧
      ∀ cells, g.row row = .ok cells → cells.length = g.sampleCount) ∧
    ∀ row col clocks,
      (row < g.rows ∧ col < g.sampleCount →
        ∃ old least g', g.get row col = .ok old ∧ g.minimum col = .ok least ∧
          g.record row col clocks = .ok g' ∧ g.recordInPlace row col clocks = (.ok (), g') ∧
          (∀ row' col', g'.get row' col' =
            if row' = row ∧ col' = col then .ok (min old clocks) else g.get row' col') ∧
          (∀ col', g'.minimum col' =
            if col' = col then .ok (min least clocks) else g.minimum col') ∧
          g'.SameShape g) ∧
      (¬ (row < g.rows ∧ col < g.sampleCount) →
        g.get row col = .error (g.faultAt row col) ∧
          g.record row col clocks = .error (g.faultAt row col) ∧
          g.recordInPlace row col clocks = (.error (g.faultAt row col), g)) ∧
      (col < g.sampleCount → wordLimit ≤ row * g.sampleCount + col →
        g.recordInPlace row col clocks = (.error .countOverflow, g)) := by
  have hwf := hg.wellFormed
  refine ⟨?_, ?_, ?_, ?_, ?_⟩
  · intro row col
    constructor
    · rintro ⟨clocks, hget⟩
      exact get_eq_ok hwf hget
    · rintro ⟨hrow, hcol⟩
      exact ⟨_, get_eq hwf hrow hcol⟩
  · intro row col clocks hget
    obtain ⟨hrow, hcol⟩ := get_eq_ok hwf hget
    rw [get_eq hwf hrow hcol] at hget
    cases hget
    refine ⟨⟨_, row_eq hwf hrow, ?_⟩, ⟨_, column_eq hwf hcol, ?_⟩⟩
    · rw [List.getElem?_map, List.getElem?_range hcol, Option.map_some]
    · rw [List.getElem?_map, List.getElem?_range hrow, Option.map_some]
  · intro col hcol
    have hwalk := Except.ok.inj ((column_eq hwf hcol).symm.trans (column_eq_walk hwf hcol))
    exact ⟨_, column_eq hwf hcol, hwalk, by rw [List.length_map, List.length_range]⟩
  · intro hpos row
    have hiff : (∃ cells, g.row row = .ok cells) ↔ row < g.rows :=
      ⟨fun ⟨_, h⟩ => lt_rows_of_row_eq_ok hwf hpos h, fun hrow => ⟨_, row_eq hwf hrow⟩⟩
    refine ⟨hiff, ?_⟩
    intro cells hcells
    rw [row_eq hwf (hiff.mp ⟨cells, hcells⟩)] at hcells
    cases hcells
    rw [List.length_map, List.length_range]
  · intro row col clocks
    refine ⟨?_, ?_, ?_⟩
    · rintro ⟨hrow, hcol⟩
      exact ⟨_, _, g.recorded row col clocks, get_eq hwf hrow hcol, minimum_eq hwf hcol,
        (record_eq_ok_iff hwf).mpr ⟨hrow, hcol, rfl⟩, recordInPlace_eq hwf hrow hcol clocks,
        get_recorded hwf hrow hcol clocks, minimum_recorded hwf hrow hcol clocks, ⟨rfl, rfl, rfl⟩⟩
    · intro houtside
      exact ⟨get_eq_error hwf houtside, record_eq_error hwf houtside clocks,
        recordInPlace_eq_error hwf houtside clocks⟩
    · intro hcol hsum
      have hword : wordLimit ≤ g.place row col := hsum
      have hfault : g.faultAt row col = .countOverflow := by
        rw [faultAt, if_neg (Nat.not_le_of_lt hcol), if_pos hword]
      rw [recordInPlace_eq_error hwf (not_inside_of_overflow hwf hword) clocks, hfault]

/-- A grid of two columns and two rows with one measurement. Another one is recorded in the same
column, a column too far would be the first one of the next row, and a row very far away would be the
first one if its place were taken modulo the words. -/
theorem buffer_is_matrix_two_by_two :
    let g := (blank 2 2).recorded 0 1 7
    g.Reachable ∧
      (∃ g', g.recordInPlace 1 1 5 = (.ok (), g') ∧ g'.get 1 1 = .ok 5 ∧ g'.get 0 1 = .ok 7 ∧
        g'.get 1 0 = .ok sentinel ∧ g'.minimum 1 = .ok 5) ∧
      g.recordInPlace 0 2 5 = (.error (.columnOutOfRange 2), g) ∧
      g.recordInPlace 9223372036854775808 1 5 = (.error .countOverflow, g) := by
  intro g
  have hreach : g.Reachable := ⟨2, 2, blank 2 2, [.record 0 1 7], by decide, by decide⟩
  obtain ⟨-, -, -, -, hrecord⟩ := buffer_is_matrix hreach
  obtain ⟨hinside, -, -⟩ := hrecord 1 1 5
  obtain ⟨old, least, g', hold, hleast, -, hg', hget, hminimum, -⟩ := hinside (by decide)
  have hcell : old = sentinel := (Except.ok.inj hold).symm
  have hseven : least = 7 := (Except.ok.inj hleast).symm
  subst hcell hseven
  refine ⟨hreach, ⟨g', hg', hget 1 1, hget 0 1, hget 1 0, hminimum 1⟩, ?_, ?_⟩
  · exact ((hrecord 0 2 5).2.1 (by decide)).2.2
  · exact (hrecord 9223372036854775808 1 5).2.2 (by decide) (by decide)

end Grid

end TimingAudit
