import TimingAudit.Proofs.Grid.Reachable

/-!
# Passes in place

A call works on the one grid that its caller has: rows are added to it, measurements are written into
it while the passes go on, and whatever has been written stays there if the call then fails.
`convergeInPlace` is the call written in this way. It is the same as the call that returns a new grid
and keeps the old one for a failure (`convergeInPlace_eq_map`), because behind the checks at its
beginning nothing can fail any more: every place of the passes lies within the grid.

* `convergeInPlace_eq_map` : the two ways to write a call are the same;
* `convergeInPlace_all_or_nothing` : when a call fails, and that it has changed nothing then.
-/

namespace TimingAudit.Grid

section InPlace

variable {m : Type → Type} [Monad m]

/-- Folds a measurement into a cell, and then into the minimum of its column. -/
def recordInPlace (g : Grid) (row col : Nat) (clocks : UInt64) : Except Fault Unit × Grid :=
  match g.get row col with
  | .error f => (.error f, g)
  | .ok old =>
    let g := { g with cells := g.cells.setIfInBounds (g.place row col) (min old clocks) }
    match g.minimum col with
    | .error f => (.error f, g)
    | .ok least => (.ok (), { g with minima := g.minima.setIfInBounds col (min least clocks) })

/-- Measures the inputs from column `col` on in the given row of a grid. -/
def sweepInPlace (bench : Bench m) (policy : Policy) (repeats row : Nat) :
    List Input → (col : Nat) → (best : UInt64) → Grid → m (Except Failure Unit × Grid)
  | [], _, _, g => pure (.ok (), g)
  | x :: xs, col, best, g =>
    match g.minimum col with
    | .error f => pure (.error (.fault f), g)
    | .ok current =>
      if policy.skips current best then sweepInPlace bench policy repeats row xs (col + 1) best g
      else do
        let clocks ← bench.measure x.a x.b repeats
        match g.recordInPlace row col clocks with
        | (.error f, g) => pure (.error (.fault f), g)
        | (.ok (), g) => sweepInPlace bench policy repeats row xs (col + 1) (min best clocks) g

/-- Runs `n` passes over the inputs in the next rows of a grid. -/
def runPassesInPlace (bench : Bench m) (policy : Policy) (repeats : Nat) (inputs : List Input) :
    Nat → Grid → m (Except Failure Unit × Grid)
  | 0, g => pure (.ok (), g)
  | n + 1, g => do
    match ← sweepInPlace bench policy repeats g.passes inputs 0 g.best g with
    | (.error f, g) => pure (.error f, g)
    | (.ok (), g) => runPassesInPlace bench policy repeats inputs n g.nextPass

/-- Runs more passes on a grid: the answer, and what has become of the grid. -/
def convergeInPlace (bench : Bench m) (policy : Policy) (inputs : List Input) (passes repeats : Nat)
    (g : Grid) : m (Except Failure Unit × Grid) :=
  match g.prepare inputs.length passes with
  | .error f => pure (.error f, g)
  | .ok g => runPassesInPlace bench policy repeats inputs passes g

/-- A returned grid takes the place of the old one, which a failure leaves as it is. -/
def settled (g : Grid) : Except Failure Grid → Except Failure Unit × Grid
  | .error f => (.error f, g)
  | .ok g' => (.ok (), g')

/-! ## The same passes -/

/-- Inside of the grid a measurement is recorded in full. -/
theorem recordInPlace_eq {g : Grid} (hg : g.WellFormed) {row col : Nat} (hrow : row < g.rows)
    (hcol : col < g.sampleCount) (clocks : UInt64) :
    g.recordInPlace row col clocks = (.ok (), g.recorded row col clocks) := by
  have hminimum : ∀ cells, Grid.minimum { g with cells } col = .ok (g.least col) :=
    fun _ => minimum_eq hg hcol
  unfold recordInPlace
  rw [get_eq hg hrow hcol]
  simp only [hminimum]
  rfl

variable (bench : Bench m) (policy : Policy) (repeats : Nat)

/-- One sample of a pass in place. -/
theorem sweepInPlace_cons {g : Grid} (hg : g.WellFormed) {row col : Nat} (hrow : row < g.rows)
    (hcol : col < g.sampleCount) (x : Input) (xs : List Input) (best : UInt64) :
    sweepInPlace bench policy repeats row (x :: xs) col best g =
      if policy.skips (g.least col) best then
        sweepInPlace bench policy repeats row xs (col + 1) best g
      else bench.measure x.a x.b repeats >>= fun clocks =>
        sweepInPlace bench policy repeats row xs (col + 1) (min best clocks)
          (g.recorded row col clocks) := by
  rw [sweepInPlace, minimum_eq hg hcol]
  simp only [recordInPlace_eq hg hrow hcol]

section Lawful

variable [LawfulMonad m]

/-- Behind a computation that never fails it does not matter which grid is kept for a failure. -/
theorem settled_congr {P : Grid → Prop} {x : m (Except Failure Grid)} (hx : Succeeds P x)
    (g g' : Grid) : settled g <$> x = settled g' <$> x := by
  rw [map_eq_pure_bind, map_eq_pure_bind]
  refine hx _ _ _ fun r hr => ?_
  obtain ⟨g'', rfl, -⟩ := hr
  rfl

/-- A pass in place is the pass. -/
theorem sweepInPlace_eq_map {row : Nat} (xs : List Input) :
    ∀ (col : Nat) (best : UInt64) (g : Grid), g.WellFormed → row < g.rows →
      col + xs.length ≤ g.sampleCount →
      sweepInPlace bench policy repeats row xs col best g =
        settled g <$> sweep bench policy repeats row xs col best g := by
  induction xs with
  | nil =>
      intro col best g _ _ _
      rw [sweepInPlace, sweep, map_pure]
      rfl
  | cons x xs ih =>
      intro col best g hg hrow hlen
      rw [List.length_cons] at hlen
      have hcol : col < g.sampleCount := by omega
      rw [sweepInPlace_cons bench policy repeats hg hrow hcol,
        sweep_cons bench policy repeats hg hrow hcol]
      by_cases hskip : policy.skips (g.least col) best = true
      · rw [if_pos hskip, if_pos hskip]
        exact ih (col + 1) best g hg hrow (by omega)
      · rw [if_neg hskip, if_neg hskip, map_bind]
        congr 1
        funext clocks
        have hlen' : col + 1 + xs.length ≤ (g.recorded row col clocks).sampleCount := by
          rw [recorded_sampleCount]
          omega
        have hrec := hg.recorded hrow hcol clocks
        rw [ih (col + 1) _ _ hrec hrow hlen']
        exact settled_congr (sweep_succeeds bench policy repeats (fun _ h => h)
          (fun _ _ clocks h hrow hcol => h.recorded hrow hcol clocks) xs (col + 1) _ _ hrec hrow
          hlen') _ _

/-- Passes in place are the passes. -/
theorem runPassesInPlace_eq_map {inputs : List Input} (n : Nat) :
    ∀ g : Grid, g.WellFormed → inputs.length = g.sampleCount → g.passes + n ≤ g.rows →
      runPassesInPlace bench policy repeats inputs n g =
        settled g <$> runPasses bench policy repeats inputs n g := by
  induction n with
  | zero =>
      intro g _ _ _
      rw [runPassesInPlace, runPasses, map_pure]
      rfl
  | succ n ih =>
      intro g hg hlen hroom
      have hrow : g.passes < g.rows := by omega
      have hsweep := sweep_wellFormed bench policy repeats hg hlen hrow g.best
      rw [runPassesInPlace, runPasses_succ,
        sweepInPlace_eq_map bench policy repeats inputs 0 g.best g hg hrow (by omega),
        bind_map_left, map_bind]
      -- Only grids that the pass can return matter to what follows it.
      refine hsweep _ _ _ fun r hr => ?_
      obtain ⟨g', rfl, hg', hshape⟩ := hr
      have hnext : g'.nextPass.WellFormed := hg'.nextPass (by rw [hshape.passes, hshape.rows]; omega)
      have hlen' : inputs.length = g'.nextPass.sampleCount := by
        rw [nextPass_sampleCount, hshape.sampleCount, hlen]
      have hroom' : g'.nextPass.passes + n ≤ g'.nextPass.rows := by
        rw [nextPass_passes, nextPass_rows, hshape.passes, hshape.rows]
        omega
      show runPassesInPlace bench policy repeats inputs n g'.nextPass = _
      rw [ih g'.nextPass hnext hlen' hroom']
      exact settled_congr (runPasses_wellFormed bench policy repeats hnext hlen' hroom') _ _

/-- **A call in place** is the call that returns a grid and leaves the old one to a failure. -/
theorem convergeInPlace_eq_map {g : Grid} (hg : g.WellFormed) (inputs : List Input) (passes : Nat) :
    g.convergeInPlace bench policy inputs passes repeats =
      settled g <$> g.converge bench policy inputs passes repeats := by
  unfold convergeInPlace
  cases hprep : g.prepare inputs.length passes with
  | error f =>
      rw [converge_of_prepare_error bench policy repeats hprep, map_pure]
      rfl
  | ok g₁ =>
      obtain ⟨hg₁, hcount, hroom⟩ := wellFormed_of_prepare hg hprep
      rw [converge_of_prepare_ok bench policy repeats hprep]
      show runPassesInPlace bench policy repeats inputs passes g₁ = _
      rw [runPassesInPlace_eq_map bench policy repeats passes g₁ hg₁ hcount hroom]
      exact settled_congr (runPasses_wellFormed bench policy repeats hg₁ hcount hroom) _ _

end Lawful

end InPlace

/-! ## What is refused -/

section Refused

variable {g : Grid} {inputCount passes : Nat}

theorem prepare_of_count_ne (hcount : inputCount ≠ g.sampleCount) :
    g.prepare inputCount passes = .error (.sampleCountMismatch inputCount g.sampleCount) :=
  if_pos hcount

theorem prepare_of_wordLimit_le (hcount : inputCount = g.sampleCount)
    (hword : wordLimit ≤ g.passes + passes) :
    g.prepare inputCount passes = .error (.fault .countOverflow) := by
  unfold prepare
  rw [if_neg (not_not_intro hcount), if_pos hword]

/-- Rows that are missing are refused if the buffer does not fit with them. The failure names the
cells to add, or the largest word if the cells of the buffer cannot be counted. -/
theorem prepare_of_not_fits (hg : g.WellFormed) (hcount : inputCount = g.sampleCount)
    (hword : g.passes + passes < wordLimit) (hrows : g.rows < g.passes + passes)
    (hfits : ¬ Store.cells.Fits ((g.passes + passes) * g.sampleCount)) :
    g.prepare inputCount passes = .error (.allocation .cells
      (if wordLimit ≤ (g.passes + passes) * g.sampleCount then wordLimit - 1
        else (g.passes + passes - g.rows) * g.sampleCount)) := by
  -- More rows have more cells, so nothing is taken from less.
  have hcells : g.cells.size ≤ (g.passes + passes) * g.sampleCount := by
    rw [hg.cells_size]
    exact Nat.mul_le_mul_right _ (Nat.le_of_lt hrows)
  unfold prepare addRows
  rw [if_neg (not_not_intro hcount), if_neg (Nat.not_le_of_lt hword),
    if_neg (Nat.not_le_of_lt hrows)]
  by_cases hproduct : wordLimit ≤ (g.passes + passes) * g.sampleCount
  · rw [if_pos hproduct, if_pos hproduct]
  · rw [if_neg hproduct, if_neg hproduct, if_neg (Nat.not_lt_of_le hcells)]
    simp only [if_neg hfits, hg.cells_size, Nat.sub_mul]

/-- There is room for the passes if no rows are missing, or the buffer fits with them. -/
theorem exists_prepare_eq_ok (hg : g.WellFormed) (hcount : inputCount = g.sampleCount)
    (hword : g.passes + passes < wordLimit)
    (hroom : g.rows < g.passes + passes →
      Store.cells.Fits ((g.passes + passes) * g.sampleCount)) :
    ∃ g', g.prepare inputCount passes = .ok g' := by
  refine ⟨_, (prepare_eq_ok_iff hg).mpr ⟨⟨hcount, hword, ?_⟩, rfl⟩⟩
  by_cases hrows : g.rows < g.passes + passes
  · exact hroom hrows
  · exact fits_mono (Nat.mul_le_mul_right _ (Nat.le_of_not_lt hrows)) hg.fits

end Refused

/-! ## All or nothing -/

/-- A call that the checks refuse does not touch the grid. -/
theorem convergeInPlace_of_prepare_error {m : Type → Type} [Monad m] (bench : Bench m)
    (policy : Policy) (repeats : Nat) {g : Grid} {inputs : List Input} {passes : Nat} {f : Failure}
    (hprep : g.prepare inputs.length passes = .error f) :
    g.convergeInPlace bench policy inputs passes repeats = pure (.error f, g) := by
  unfold convergeInPlace
  rw [hprep]

/-- A call that the checks let pass is carried out. -/
theorem exists_converge_eq_ok {σ : Type} (bench : Bench (StateM σ)) (policy : Policy)
    (repeats : Nat) {g g₁ : Grid} (hg : g.WellFormed) {inputs : List Input} {passes : Nat}
    (hprep : g.prepare inputs.length passes = .ok g₁) (s : σ) :
    ∃ g', (g.converge bench policy inputs passes repeats s).1 = .ok g' ∧
      g'.passes = g.passes + passes ∧ g'.rows = max g.rows (g.passes + passes) := by
  obtain ⟨hg₁, hcount, hroom⟩ := wellFormed_of_prepare hg hprep
  obtain ⟨g', hok, -⟩ :=
    (runPasses_wellFormed bench policy repeats hg₁ hcount hroom).of_stateM s
  rw [← converge_of_prepare_ok bench policy repeats hprep] at hok
  obtain ⟨-, -, hrows, hpasses⟩ :=
    (converge_ensures bench policy repeats hg inputs passes).of_stateM s g' hok
  exact ⟨g', hok, hpasses, hrows⟩

/-- **All or nothing.** Passes are run in place on a grid that calls have led to. They are refused if
there is not one input for every column, if the passes cannot be counted, or if rows are missing and
the buffer cannot be allocated with them, its old cells and the new ones together. Then the grid, the
bench and the trace of what was done with the bench are as they were, and the failure says which of
the three it was. Otherwise the call succeeds: it counts the passes and leaves a row for each. -/
theorem convergeInPlace_all_or_nothing {σ : Type} (bench : Bench (StateM σ)) (policy : Policy)
    (repeats : Nat) {g : Grid} (hg : g.Reachable) (inputs : List Input) (passes : Nat) (s : σ)
    (trace : List Bench.Action) :
    let rows := g.passes + passes
    let cells := rows * g.sampleCount
    let outcome := g.convergeInPlace bench.traced policy inputs passes repeats (s, trace)
    let returned := g.converge bench.traced policy inputs passes repeats (s, trace)
    outcome = (settled g returned.1, returned.2) ∧
      (inputs.length ≠ g.sampleCount →
        outcome = ((.error (.sampleCountMismatch inputs.length g.sampleCount), g), (s, trace))) ∧
      (inputs.length = g.sampleCount → wordLimit ≤ rows →
        outcome = ((.error (.fault .countOverflow), g), (s, trace))) ∧
      (inputs.length = g.sampleCount → rows < wordLimit → g.rows < rows →
        wordLimit ≤ cells ∨ allocationLimit < 8 * cells →
        outcome = ((.error (.allocation .cells (if wordLimit ≤ cells then wordLimit - 1
          else (rows - g.rows) * g.sampleCount)), g), (s, trace))) ∧
      (inputs.length = g.sampleCount → rows < wordLimit →
        (g.rows < rows → cells < wordLimit ∧ 8 * cells ≤ allocationLimit) →
        ∃ g', outcome.1 = (.ok (), g') ∧ g'.passes = rows ∧ g'.rows = max g.rows rows) := by
  intro rows cells outcome returned
  have hwf := hg.wellFormed
  have hsettled : outcome = (settled g returned.1, returned.2) :=
    congrFun (convergeInPlace_eq_map bench.traced policy repeats hwf inputs passes) (s, trace)
  have hrefused : ∀ {f}, g.prepare inputs.length passes = .error f →
      outcome = ((.error f, g), (s, trace)) := fun hprep =>
    congrFun (convergeInPlace_of_prepare_error bench.traced policy repeats hprep) (s, trace)
  have hfits : Store.cells.Fits cells ↔ 8 * cells ≤ allocationLimit := by
    rw [Nat.mul_comm]
    rfl
  refine ⟨hsettled, fun hcount => hrefused (prepare_of_count_ne hcount),
    fun hcount hword => hrefused (prepare_of_wordLimit_le hcount hword), ?_, ?_⟩
  · intro hcount hword hrows hlarge
    have hnot : ¬ Store.cells.Fits cells := by
      rcases hlarge with hlarge | hlarge
      · exact fun h => absurd (lt_wordLimit_of_fits h) (Nat.not_lt_of_le hlarge)
      · exact fun h => absurd (hfits.mp h) (Nat.not_le_of_lt hlarge)
    exact hrefused (prepare_of_not_fits hwf hcount hword hrows hnot)
  · intro hcount hword hroom
    obtain ⟨g₁, hprep⟩ := exists_prepare_eq_ok hwf hcount hword fun h => hfits.mpr (hroom h).2
    obtain ⟨g', hok, hpasses, hrows⟩ :=
      exists_converge_eq_ok bench.traced policy repeats hwf hprep (s, trace)
    refine ⟨g', ?_, hpasses, hrows⟩
    rw [hsettled, hok]
    rfl

/-- A new grid of one column and two rows: one pass leaves the spare row, and three passes add one. -/
theorem convergeInPlace_all_or_nothing_spare_row :
    (blank 1 2).Reachable ∧
      let bench := (SimulatedClock.bench .nothing).traced
      let run := fun passes =>
        (blank 1 2).convergeInPlace bench .exhaustive [⟨0, 0, .uniform⟩] passes 1
          (.stepping 0 10, [])
      (∃ g', (run 1).1 = (.ok (), g') ∧ g'.passes = 1 ∧ g'.rows = 2) ∧
        (∃ g', (run 3).1 = (.ok (), g') ∧ g'.passes = 3 ∧ g'.rows = 3) := by
  have hreach : (blank 1 2).Reachable := ⟨1, 2, blank 1 2, [], by decide, rfl⟩
  have hall := fun passes => convergeInPlace_all_or_nothing (SimulatedClock.bench .nothing)
    .exhaustive 1 hreach [⟨0, 0, .uniform⟩] passes (.stepping 0 10) []
  exact ⟨hreach, (hall 1).2.2.2.2 rfl (by decide) (by decide),
    (hall 3).2.2.2.2 rfl (by decide) (by decide)⟩

/-- A grid of one cell is to hold `2 ^ 60` passes. The cells to add would fit into memory by
themselves, but not beside the cell that is there, and the call fails. -/
theorem converge_fails_though_extra_cells_fit :
    let g := blank 1 1
    let passes := 1152921504606846976
    let inputs : List Input := [⟨0, 0, .uniform⟩]
    g.Reachable ∧ inputs.length = g.sampleCount ∧ g.passes + passes < wordLimit ∧
      (g.passes + passes) * g.sampleCount < wordLimit ∧
      8 * ((g.passes + passes) * g.sampleCount - g.cells.size) ≤ allocationLimit ∧
      (g.converge (SimulatedClock.bench .nothing) .exhaustive inputs passes 0
        (.stepping 0 10)).1 = .error (.allocation .cells 1152921504606846975) := by
  refine ⟨⟨1, 1, blank 1 1, [], by decide, rfl⟩, rfl, by decide, by decide, by decide, ?_⟩
  decide +kernel

end TimingAudit.Grid
