import TimingAudit.Grid.Converge
import TimingAudit.Proofs.Grid.Layout
import TimingAudit.Proofs.Outcome

/-!
# What the passes do to a grid

On a well-formed grid a pass meets no fault: `sweep_cons` is its recursion without the failing
branches. Whatever the bench answers, a pass only records measurements in its own row, so a property
that is kept by recording there is kept by the pass (`sweep_succeeds`), and one that is also kept by
counting the pass is kept by all passes (`runPasses_succeeds`).

* `prepare_eq_ok_iff` says when there is room for more passes;
* `converge_ensures` is the rule for a whole call, with its failures.
-/

namespace TimingAudit.Grid

variable {m : Type → Type} [Monad m]

/-- The grid in which one more pass counts as run. -/
def nextPass (g : Grid) : Grid := { g with passes := g.passes + 1 }

section NextPass

variable (g : Grid)

@[simp] theorem nextPass_sampleCount : g.nextPass.sampleCount = g.sampleCount := rfl

@[simp] theorem nextPass_rows : g.nextPass.rows = g.rows := rfl

@[simp] theorem nextPass_passes : g.nextPass.passes = g.passes + 1 := rfl

@[simp] theorem nextPass_cell (row col : Nat) : g.nextPass.cell row col = g.cell row col := rfl

@[simp] theorem nextPass_least (col : Nat) : g.nextPass.least col = g.least col := rfl

end NextPass

/-- Counting a pass keeps a grid well formed, if it has a row for the pass. -/
theorem WellFormed.nextPass {g : Grid} (hg : g.WellFormed) (hroom : g.passes < g.rows) :
    g.nextPass.WellFormed where
  cells_size := hg.cells_size
  minima_size := hg.minima_size
  fits := hg.fits
  passes_le_rows := hroom
  least_le := hg.least_le
  least_attained := hg.least_attained

/-- Two grids of as many columns, rows and passes. -/
structure SameShape (g g' : Grid) : Prop where
  sampleCount : g.sampleCount = g'.sampleCount
  rows : g.rows = g'.rows
  passes : g.passes = g'.passes

/-! ## Room for the passes -/

/-- There is room for more passes if there is an input for every column, the passes can be counted,
and the buffer fits with their rows. -/
theorem prepare_eq_ok_iff {g g' : Grid} (hg : g.WellFormed) {inputCount passes : Nat} :
    g.prepare inputCount passes = .ok g' ↔
      (inputCount = g.sampleCount ∧ g.passes + passes < wordLimit ∧
        Store.cells.Fits ((g.passes + passes) * g.sampleCount)) ∧
      g' = g.extend (g.passes + passes - g.rows) := by
  unfold prepare
  by_cases hcount : inputCount = g.sampleCount
  · by_cases hword : g.passes + passes < wordLimit
    · rw [if_neg (not_not_intro hcount), if_neg (by omega), addRows_eq_ok_iff hg]
      simp only [hcount, hword, true_and]
    · rw [if_neg (not_not_intro hcount), if_pos (by omega), iff_false_right fun h => hword h.1.2.1]
      intro h
      cases h
  · rw [if_pos hcount, iff_false_right fun h => hcount h.1.1]
    intro h
    cases h

/-- Room for more passes is made by adding rows to a well-formed grid. -/
theorem wellFormed_of_prepare {g g' : Grid} (hg : g.WellFormed) {inputCount passes : Nat}
    (h : g.prepare inputCount passes = .ok g') :
    g'.WellFormed ∧ inputCount = g'.sampleCount ∧ g'.passes + passes ≤ g'.rows := by
  obtain ⟨⟨hcount, -, hfits⟩, rfl⟩ := (prepare_eq_ok_iff hg).mp h
  refine ⟨hg.extend ?_, hcount, by rw [extend_passes, extend_rows]; omega⟩
  by_cases hle : g.passes + passes ≤ g.rows
  · rw [Nat.sub_eq_zero_of_le hle]
    exact hg.fits
  · rw [Nat.add_sub_cancel' (by omega)]
    exact hfits

/-- Room for passes on a new grid: it is still unmeasured, with rows for all of them. -/
theorem prepare_of_allocate {sampleCount rows passes : Nat} {g : Grid}
    (halloc : allocate sampleCount rows = .ok g) (hword : passes < wordLimit)
    (hfits : Store.cells.Fits (passes * sampleCount)) :
    ∃ g', g.prepare sampleCount passes = .ok g' ∧ g'.WellFormed ∧ g'.sampleCount = sampleCount ∧
      g'.passes = 0 ∧ passes ≤ g'.rows ∧ ∀ row col, g'.cell row col = sentinel := by
  have hg := wellFormed_of_allocate halloc
  obtain ⟨-, rfl⟩ := allocate_eq_ok_iff.mp halloc
  have hpasses : (blank sampleCount rows).passes + passes = passes := Nat.zero_add passes
  have hprep := (prepare_eq_ok_iff hg).mpr
    ⟨⟨rfl, by rw [hpasses]; exact hword, by rw [hpasses]; exact hfits⟩, rfl⟩
  obtain ⟨hg', -, hroom⟩ := wellFormed_of_prepare hg hprep
  refine ⟨_, hprep, hg', rfl, rfl, Nat.le_trans (Nat.le_add_left _ _) hroom, ?_⟩
  intro row col
  rw [cell_extend, cell_blank]

/-! ## The recursions of a well-formed grid -/

variable (bench : Bench m) (policy : Policy) (repeats : Nat)

/-- One sample of a pass: it is skipped, or one window of it is measured and recorded. -/
theorem sweep_cons {g : Grid} (hg : g.WellFormed) {row col : Nat} (hrow : row < g.rows)
    (hcol : col < g.sampleCount) (x : Input) (xs : List Input) (best : UInt64) :
    sweep bench policy repeats row (x :: xs) col best g =
      if policy.skips (g.least col) best then sweep bench policy repeats row xs (col + 1) best g
      else bench.measure x.a x.b repeats >>= fun clocks =>
        sweep bench policy repeats row xs (col + 1) (min best clocks)
          (g.recorded row col clocks) := by
  rw [sweep, minimum_eq hg hcol]
  simp only
  congr 2
  funext clocks
  rw [(record_eq_ok_iff hg).mpr ⟨hrow, hcol, rfl⟩]

/-- A pass after which all others follow. -/
theorem runPasses_succ (inputs : List Input) (n : Nat) (g : Grid) :
    runPasses bench policy repeats inputs (n + 1) g =
      sweep bench policy repeats g.passes inputs 0 g.best g >>= fun
        | .error f => pure (.error f)
        | .ok g => runPasses bench policy repeats inputs n g.nextPass := rfl

/-- A call without room measures nothing. -/
theorem converge_of_prepare_error {g : Grid} {inputs : List Input} {passes : Nat} {f : Failure}
    (h : g.prepare inputs.length passes = .error f) :
    g.converge bench policy inputs passes repeats = pure (.error f) := by
  rw [converge, h]

/-- A call with room runs its passes on the prepared grid. -/
theorem converge_of_prepare_ok {g g' : Grid} {inputs : List Input} {passes : Nat}
    (h : g.prepare inputs.length passes = .ok g') :
    g.converge bench policy inputs passes repeats =
      runPasses bench policy repeats inputs passes g' := by
  rw [converge, h]

/-! ## Invariants of the passes -/

section Invariants

variable [LawfulMonad m]

/-- **Invariant rule of a pass.** A property of well-formed grids that is kept by recording in the
row of the pass is kept by the pass, which never fails and leaves the shape of the grid as it is. -/
theorem sweep_succeeds {P : Grid → Prop} {row : Nat} (hwf : ∀ g, P g → g.WellFormed)
    (hrec : ∀ g col clocks, P g → row < g.rows → col < g.sampleCount →
      P (g.recorded row col clocks))
    (xs : List Input) : ∀ (col : Nat) (best : UInt64) (g : Grid), P g → row < g.rows →
      col + xs.length ≤ g.sampleCount →
      Succeeds (fun g' => P g' ∧ g'.SameShape g)
        (sweep bench policy repeats row xs col best g) := by
  induction xs with
  | nil =>
      intro col best g hg _ _
      exact Succeeds.pure ⟨hg, rfl, rfl, rfl⟩
  | cons x xs ih =>
      intro col best g hg hrow hlen
      rw [List.length_cons] at hlen
      have hcol : col < g.sampleCount := by omega
      rw [sweep_cons bench policy repeats (hwf g hg) hrow hcol]
      by_cases hskip : policy.skips (g.least col) best = true
      · rw [if_pos hskip]
        exact ih (col + 1) best g hg hrow (by omega)
      · rw [if_neg hskip]
        refine Ensures.bind (ensures_true _) fun clocks _ => ?_
        have hlen' : col + 1 + xs.length ≤ (g.recorded row col clocks).sampleCount := by
          rw [recorded_sampleCount]
          omega
        refine Ensures.imp (ih (col + 1) _ _ (hrec g col clocks hg hrow hcol) hrow hlen') ?_
        intro r hr
        obtain ⟨g', rfl, hg', hshape⟩ := hr
        exact ⟨g', rfl, hg', hshape.sampleCount, hshape.rows, hshape.passes⟩

/-- **Invariant rule of all passes.** A property of well-formed grids that is kept by recording in
the row of the next pass and by counting a pass is kept by any number of passes for which there are
rows, and they never fail. -/
theorem runPasses_succeeds {P : Grid → Prop} (inputs : List Input) (hwf : ∀ g, P g → g.WellFormed)
    (hrec : ∀ g col clocks, P g → g.passes < g.rows → col < g.sampleCount →
      P (g.recorded g.passes col clocks))
    (hnext : ∀ g, P g → g.passes < g.rows → P g.nextPass) (n : Nat) :
    ∀ g : Grid, P g → inputs.length = g.sampleCount → g.passes + n ≤ g.rows →
      Succeeds (fun g' => P g' ∧ g'.sampleCount = g.sampleCount ∧ g'.rows = g.rows ∧
          g'.passes = g.passes + n)
        (runPasses bench policy repeats inputs n g) := by
  induction n with
  | zero =>
      intro g hg _ _
      exact Succeeds.pure ⟨hg, rfl, rfl, rfl⟩
  | succ n ih =>
      intro g hg hlen hroom
      -- While the pass runs, its row stays that of the next pass.
      have hrec' : ∀ g' col clocks, (P g' ∧ g'.passes = g.passes) → g.passes < g'.rows →
          col < g'.sampleCount → P (g'.recorded g.passes col clocks) ∧ g'.passes = g.passes := by
        rintro g' col clocks ⟨hg', hpasses⟩ hrow hcol
        rw [← hpasses] at hrow ⊢
        exact ⟨hrec g' col clocks hg' hrow hcol, rfl⟩
      have hsweep := sweep_succeeds bench policy repeats (fun g' h => hwf g' h.1) hrec' inputs 0
        g.best g ⟨hg, rfl⟩ (by omega) (by omega)
      rw [runPasses_succ]
      refine Ensures.bind hsweep fun r hr => ?_
      obtain ⟨g', rfl, ⟨hg', -⟩, hshape⟩ := hr
      have hroom' : g'.nextPass.passes + n ≤ g'.nextPass.rows := by
        rw [nextPass_passes, nextPass_rows, hshape.passes, hshape.rows]
        omega
      have hlen' : inputs.length = g'.nextPass.sampleCount := by
        rw [nextPass_sampleCount, hshape.sampleCount, hlen]
      have hnext' : P g'.nextPass := hnext g' hg' (by rw [hshape.passes, hshape.rows]; omega)
      refine Ensures.imp (ih g'.nextPass hnext' hlen' hroom') fun r hr => ?_
      obtain ⟨g'', rfl, hg'', hcount, hrows, hpasses⟩ := hr
      refine ⟨g'', rfl, hg'', hcount.trans hshape.sampleCount, hrows.trans hshape.rows, ?_⟩
      rw [hpasses, nextPass_passes, hshape.passes]
      omega

/-- Whatever the bench answers, a pass keeps a grid well formed. -/
theorem sweep_wellFormed {g : Grid} (hg : g.WellFormed) {inputs : List Input}
    (hlen : inputs.length = g.sampleCount) {row : Nat} (hrow : row < g.rows) (best : UInt64) :
    Succeeds (fun g' => g'.WellFormed ∧ g'.SameShape g)
      (sweep bench policy repeats row inputs 0 best g) :=
  sweep_succeeds bench policy repeats (fun _ h => h)
    (fun _ _ clocks h hrow hcol => h.recorded hrow hcol clocks) inputs 0 best g hg hrow (by omega)

/-- Whatever the bench answers, passes for which there are rows keep a grid well formed. -/
theorem runPasses_wellFormed {g : Grid} (hg : g.WellFormed) {inputs : List Input}
    (hlen : inputs.length = g.sampleCount) {n : Nat} (hroom : g.passes + n ≤ g.rows) :
    Succeeds (fun g' => g'.WellFormed ∧ g'.sampleCount = g.sampleCount ∧ g'.rows = g.rows ∧
        g'.passes = g.passes + n)
      (runPasses bench policy repeats inputs n g) :=
  runPasses_succeeds bench policy repeats inputs (fun _ h => h)
    (fun _ _ clocks h hrow hcol => h.recorded hrow hcol clocks)
    (fun _ h hrow => h.nextPass hrow) n g hg hlen hroom

/-- Whatever the bench answers, a call that returns a grid returns a well-formed one with the
columns it had, a row for every pass, and the passes counted. -/
theorem converge_ensures {g : Grid} (hg : g.WellFormed) (inputs : List Input) (passes : Nat) :
    Ensures (fun r => ∀ g', r = .ok g' → g'.WellFormed ∧ g'.sampleCount = g.sampleCount ∧
        g'.rows = max g.rows (g.passes + passes) ∧ g'.passes = g.passes + passes)
      (g.converge bench policy inputs passes repeats) := by
  cases hprep : g.prepare inputs.length passes with
  | error f =>
      rw [converge_of_prepare_error bench policy repeats hprep]
      refine Ensures.pure fun g' h => ?_
      cases h
  | ok g₁ =>
      obtain ⟨hg₁, hcount, hroom⟩ := wellFormed_of_prepare hg hprep
      rw [converge_of_prepare_ok bench policy repeats hprep]
      refine Ensures.imp (runPasses_wellFormed bench policy repeats hg₁ hcount hroom) ?_
      intro r hr g' hok
      obtain ⟨-, rfl⟩ := (prepare_eq_ok_iff hg).mp hprep
      obtain ⟨g₂, rfl, hg₂, hcount₂, hrows₂, hpasses₂⟩ := hr
      cases hok
      refine ⟨hg₂, hcount₂, ?_, hpasses₂⟩
      rw [hrows₂, extend_rows]
      omega

end Invariants

end TimingAudit.Grid
