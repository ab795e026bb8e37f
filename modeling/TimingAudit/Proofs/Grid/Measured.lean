import TimingAudit.Proofs.Bench.Trace
import TimingAudit.Proofs.Grid.Passes

/-!
# Grids after known measurements

What a pass leaves is determined by what it measured: for every sample a tick count, or nothing if
the sample was skipped. `recordedRow` folds the measurements of one pass into its row,
`recordedPasses` those of several passes into the next rows. Every cell ends as the smaller of its
old value and what was measured for it (`cell_recordedRow`, `cell_recordedPasses`), and so does the
minimum of every column (`least_recordedRow`).

On a bench that always answers, `sweep_traced_cons` is one sample of a pass with the window that is
measured for it.
-/

namespace TimingAudit.Grid

/-- The value of a cell after a measurement, or after none. -/
def lowered (old : UInt64) : Option UInt64 → UInt64
  | none => old
  | some clocks => min old clocks

/-- An unmeasured cell takes what is measured. -/
theorem lowered_sentinel (clocks : UInt64) : lowered sentinel (some clocks) = clocks := by
  have hle := UInt64.le_iff_toNat_le.mp (le_sentinel clocks)
  rw [lowered, ← UInt64.toNat_inj, toNat_min]
  omega

/-- The grid after a sample was measured or skipped. -/
def foldedIn (g : Grid) (row col : Nat) : Option UInt64 → Grid
  | none => g
  | some clocks => g.recorded row col clocks

/-- The grid after a pass in the given row, with the measurements from column `col` on. -/
def recordedRow (row : Nat) : (col : Nat) → List (Option UInt64) → Grid → Grid
  | _, [], g => g
  | col, m :: ms, g => recordedRow row (col + 1) ms (g.foldedIn row col m)

/-- The grid after several more passes, with the measurements of each. -/
def recordedPasses : List (List (Option UInt64)) → Grid → Grid
  | [], g => g
  | ms :: mss, g => recordedPasses mss (recordedRow g.passes 0 ms g).nextPass

/-! ## One sample -/

/-- A sample does not change the shape of the grid. -/
theorem sameShape_foldedIn (g : Grid) (row col : Nat) (m : Option UInt64) :
    (g.foldedIn row col m).SameShape g := by
  cases m <;> exact ⟨rfl, rfl, rfl⟩

/-- A sample keeps a grid well formed. -/
theorem WellFormed.foldedIn {g : Grid} (hg : g.WellFormed) {row col : Nat} (hrow : row < g.rows)
    (hcol : col < g.sampleCount) (m : Option UInt64) : (g.foldedIn row col m).WellFormed := by
  cases m with
  | none => exact hg
  | some clocks => exact hg.recorded hrow hcol clocks

/-- The cells after a sample. -/
theorem cell_foldedIn {g : Grid} (hg : g.WellFormed) {row col : Nat} (hrow : row < g.rows)
    (hcol : col < g.sampleCount) (m : Option UInt64) (row' : Nat) {col' : Nat}
    (hcol' : col' < g.sampleCount) :
    (g.foldedIn row col m).cell row' col' =
      if row = row' ∧ col = col' then lowered (g.cell row' col') m else g.cell row' col' := by
  cases m with
  | none =>
      rw [lowered, ite_self]
      rfl
  | some clocks =>
      rw [foldedIn, cell_recorded hg hrow hcol clocks row' hcol']
      by_cases h : row = row' ∧ col = col'
      · rw [if_pos h, if_pos h, h.1, h.2, lowered]
      · rw [if_neg h, if_neg h]

/-- The minima after a sample. -/
theorem least_foldedIn {g : Grid} (hg : g.WellFormed) {col : Nat} (hcol : col < g.sampleCount)
    (row : Nat) (m : Option UInt64) (col' : Nat) :
    (g.foldedIn row col m).least col' =
      if col = col' then lowered (g.least col') m else g.least col' := by
  cases m with
  | none =>
      rw [lowered, ite_self]
      rfl
  | some clocks =>
      rw [foldedIn, least_recorded hg hcol row clocks col']
      by_cases h : col = col'
      · rw [if_pos h, if_pos h, h, lowered]
      · rw [if_neg h, if_neg h]

/-! ## One pass -/

/-- A pass does not change the shape of the grid. -/
theorem sameShape_recordedRow (row : Nat) (ms : List (Option UInt64)) :
    ∀ (col : Nat) (g : Grid), (recordedRow row col ms g).SameShape g := by
  induction ms with
  | nil =>
      intro col g
      exact ⟨rfl, rfl, rfl⟩
  | cons m ms ih =>
      intro col g
      have hrest := ih (col + 1) (g.foldedIn row col m)
      have hfirst := sameShape_foldedIn g row col m
      exact ⟨hrest.sampleCount.trans hfirst.sampleCount, hrest.rows.trans hfirst.rows,
        hrest.passes.trans hfirst.passes⟩

/-- A pass keeps a grid well formed. -/
theorem WellFormed.recordedRow {row : Nat} (ms : List (Option UInt64)) :
    ∀ (col : Nat) (g : Grid), g.WellFormed → row < g.rows → col + ms.length ≤ g.sampleCount →
      (recordedRow row col ms g).WellFormed := by
  induction ms with
  | nil =>
      intro col g hg _ _
      exact hg
  | cons m ms ih =>
      intro col g hg hrow hlen
      rw [List.length_cons] at hlen
      have hshape := sameShape_foldedIn g row col m
      refine ih (col + 1) _ (hg.foldedIn hrow (by omega) m) ?_ ?_
      · rw [hshape.rows]
        exact hrow
      · rw [hshape.sampleCount]
        omega

/-- A pass in the next row, counted: the grid is well formed, with the columns and rows it had. -/
theorem WellFormed.nextPass_recordedRow {g : Grid} (hg : g.WellFormed) (hroom : g.passes < g.rows)
    {ms : List (Option UInt64)} (hlen : ms.length ≤ g.sampleCount) :
    (Grid.recordedRow g.passes 0 ms g).nextPass.WellFormed ∧
      (Grid.recordedRow g.passes 0 ms g).nextPass.sampleCount = g.sampleCount ∧
      (Grid.recordedRow g.passes 0 ms g).nextPass.rows = g.rows ∧
      (Grid.recordedRow g.passes 0 ms g).nextPass.passes = g.passes + 1 := by
  have hshape := sameShape_recordedRow g.passes ms 0 g
  have hrow := WellFormed.recordedRow ms 0 g hg hroom (by omega)
  refine ⟨hrow.nextPass ?_, hshape.sampleCount, hshape.rows, ?_⟩
  · rw [hshape.passes, hshape.rows]
    exact hroom
  · rw [nextPass_passes, hshape.passes]

/-- The cells after a pass: those of its row from `col` on are lowered to what was measured. -/
theorem cell_recordedRow {row : Nat} (ms : List (Option UInt64)) :
    ∀ (col : Nat) (g : Grid), g.WellFormed → row < g.rows → col + ms.length ≤ g.sampleCount →
      ∀ row' col', col' < g.sampleCount →
        (Grid.recordedRow row col ms g).cell row' col' =
          if row = row' ∧ col ≤ col' then lowered (g.cell row' col') ms[col' - col]?.join
          else g.cell row' col' := by
  induction ms with
  | nil =>
      intro col g _ _ _ row' col' _
      rw [List.getElem?_nil, Option.join_none, lowered, ite_self]
      rfl
  | cons m ms ih =>
      intro col g hg hrow hlen row' col' hcol'
      rw [List.length_cons] at hlen
      have hcol : col < g.sampleCount := by omega
      have hshape := sameShape_foldedIn g row col m
      rw [recordedRow, ih (col + 1) _ (hg.foldedIn hrow hcol m) (by rw [hshape.rows]; exact hrow)
        (by rw [hshape.sampleCount]; omega) row' col' (by rw [hshape.sampleCount]; exact hcol'),
        cell_foldedIn hg hrow hcol m row' hcol']
      by_cases hr : row = row'
      · subst hr
        -- The first measurement is that of `col`; the others stand one place further on.
        rcases Nat.lt_trichotomy col col' with hlt | heq | hgt
        · have hindex : col' - col = (col' - (col + 1)) + 1 := by omega
          rw [if_pos ⟨rfl, hlt⟩, if_neg (by omega), if_pos ⟨rfl, Nat.le_of_lt hlt⟩, hindex,
            List.getElem?_cons_succ]
        · subst heq
          rw [if_neg (by omega), if_pos ⟨rfl, rfl⟩, if_pos ⟨rfl, Nat.le_refl _⟩, Nat.sub_self,
            List.getElem?_cons_zero, Option.join_some]
        · rw [if_neg (by omega), if_neg (by omega), if_neg (by omega)]
      · rw [if_neg fun h => hr h.1, if_neg fun h => hr h.1, if_neg fun h => hr h.1]

/-- The minima after a pass: those from `col` on are lowered to what was measured. -/
theorem least_recordedRow {row : Nat} (ms : List (Option UInt64)) :
    ∀ (col : Nat) (g : Grid), g.WellFormed → row < g.rows → col + ms.length ≤ g.sampleCount →
      ∀ col', (Grid.recordedRow row col ms g).least col' =
        if col ≤ col' then lowered (g.least col') ms[col' - col]?.join else g.least col' := by
  induction ms with
  | nil =>
      intro col g _ _ _ col'
      rw [List.getElem?_nil, Option.join_none, lowered, ite_self]
      rfl
  | cons m ms ih =>
      intro col g hg hrow hlen col'
      rw [List.length_cons] at hlen
      have hcol : col < g.sampleCount := by omega
      have hshape := sameShape_foldedIn g row col m
      rw [recordedRow, ih (col + 1) _ (hg.foldedIn hrow hcol m) (by rw [hshape.rows]; exact hrow)
        (by rw [hshape.sampleCount]; omega) col', least_foldedIn hg hcol row m col']
      rcases Nat.lt_trichotomy col col' with hlt | heq | hgt
      · have hindex : col' - col = (col' - (col + 1)) + 1 := by omega
        rw [if_pos (Nat.succ_le_of_lt hlt), if_neg (by omega), if_pos (Nat.le_of_lt hlt), hindex,
          List.getElem?_cons_succ]
      · subst heq
        rw [if_neg (by omega), if_pos rfl, if_pos (Nat.le_refl _), Nat.sub_self,
          List.getElem?_cons_zero, Option.join_some]
      · rw [if_neg (by omega), if_neg (by omega), if_neg (by omega)]

/-! ## Several passes -/

/-- What was measured for a sample in one of several passes. -/
def measuredAt (mss : List (List (Option UInt64))) (pass col : Nat) : Option UInt64 :=
  (mss[pass]?.bind (·[col]?)).join

/-- Some passes, and then some more. -/
theorem recordedPasses_append (mss mss' : List (List (Option UInt64))) (g : Grid) :
    recordedPasses (mss ++ mss') g = recordedPasses mss' (recordedPasses mss g) := by
  induction mss generalizing g with
  | nil => rfl
  | cons ms mss ih => exact ih _

/-- Several passes keep a grid well formed and its columns and rows, and are counted. -/
theorem WellFormed.recordedPasses (mss : List (List (Option UInt64))) :
    ∀ g : Grid, g.WellFormed → g.passes + mss.length ≤ g.rows →
      (∀ ms ∈ mss, ms.length ≤ g.sampleCount) →
      (recordedPasses mss g).WellFormed ∧ (recordedPasses mss g).sampleCount = g.sampleCount ∧
        (recordedPasses mss g).rows = g.rows ∧
        (recordedPasses mss g).passes = g.passes + mss.length := by
  induction mss with
  | nil =>
      intro g hg _ _
      exact ⟨hg, rfl, rfl, rfl⟩
  | cons ms mss ih =>
      intro g hg hroom hlens
      rw [List.length_cons] at hroom ⊢
      obtain ⟨hlen, hlens⟩ := List.forall_mem_cons.mp hlens
      obtain ⟨hnext, hcount, hrows, hpasses⟩ := hg.nextPass_recordedRow (by omega) hlen
      obtain ⟨hg', hcount', hrows', hpasses'⟩ := ih _ hnext (by rw [hpasses, hrows]; omega)
        (by rw [hcount]; exact hlens)
      refine ⟨hg', hcount'.trans hcount, hrows'.trans hrows, ?_⟩
      rw [Grid.recordedPasses, hpasses', hpasses]
      omega

/-- The cells after several passes: those of their rows are lowered to what was measured. -/
theorem cell_recordedPasses (mss : List (List (Option UInt64))) :
    ∀ g : Grid, g.WellFormed → g.passes + mss.length ≤ g.rows →
      (∀ ms ∈ mss, ms.length ≤ g.sampleCount) → ∀ row col, col < g.sampleCount →
        (Grid.recordedPasses mss g).cell row col =
          if g.passes ≤ row then lowered (g.cell row col) (measuredAt mss (row - g.passes) col)
          else g.cell row col := by
  induction mss with
  | nil =>
      intro g _ _ _ row col _
      rw [measuredAt, List.getElem?_nil, Option.bind_none, Option.join_none, lowered, ite_self]
      rfl
  | cons ms mss ih =>
      intro g hg hroom hlens row col hcol
      rw [List.length_cons] at hroom
      obtain ⟨hlen, hlens⟩ := List.forall_mem_cons.mp hlens
      have hrow : g.passes < g.rows := by omega
      obtain ⟨hnext, hcount, hrows, hpasses⟩ := hg.nextPass_recordedRow hrow hlen
      rw [Grid.recordedPasses, ih _ hnext (by rw [hpasses, hrows]; omega)
        (by rw [hcount]; exact hlens) row col (by rw [hcount]; exact hcol), hpasses, nextPass_cell,
        cell_recordedRow ms 0 g hg hrow (by omega) row col hcol]
      rcases Nat.lt_trichotomy g.passes row with hlt | heq | hgt
      · have hindex : row - g.passes = (row - (g.passes + 1)) + 1 := by omega
        rw [if_pos (by omega), if_neg (by omega), if_pos (Nat.le_of_lt hlt), hindex, measuredAt,
          measuredAt, List.getElem?_cons_succ]
      · subst heq
        rw [if_neg (by omega), if_pos ⟨rfl, Nat.zero_le _⟩, if_pos (Nat.le_refl _), Nat.sub_self,
          measuredAt, List.getElem?_cons_zero, Option.bind_some, Nat.sub_zero]
      · rw [if_neg (by omega), if_neg (by omega), if_neg (by omega)]

/-! ## One sample on a traced bench -/

/-- A sample is skipped and nothing is done with the bench, or its window is measured, recorded and
left in the trace. -/
theorem sweep_traced_cons {σ : Type} (bench : Bench (StateM σ)) (policy : Policy) (repeats : Nat)
    {g : Grid} (hg : g.WellFormed) {row col : Nat} (hrow : row < g.rows)
    (hcol : col < g.sampleCount) (x : Input) (xs : List Input) (best : UInt64) (s : σ)
    (trace : List Bench.Action) :
    sweep bench.traced policy repeats row (x :: xs) col best g (s, trace) =
      if policy.skips (g.least col) best then
        sweep bench.traced policy repeats row xs (col + 1) best g (s, trace)
      else
        let w := bench.window x.a x.b repeats s
        sweep bench.traced policy repeats row xs (col + 1) (min best (w.stop - w.start))
          (g.recorded row col (w.stop - w.start))
          (w.state, trace ++ Bench.windowTrace x.a x.b repeats w.start w.stop) := by
  rw [sweep_cons bench.traced policy repeats hg hrow hcol]
  by_cases hskip : policy.skips (g.least col) best = true
  · rw [if_pos hskip, if_pos hskip]
  · rw [if_neg hskip, if_neg hskip, stateM_bind, Bench.measure_traced]

end TimingAudit.Grid
