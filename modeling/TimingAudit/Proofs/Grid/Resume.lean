import TimingAudit.Proofs.Bench.Trace
import TimingAudit.Proofs.Grid.Reachable

/-!
# Passes that are resumed

Running some passes and then some more is the same computation as running all of them at once. Two
things could tell them apart. The smallest minimum of all samples is carried along within a pass
only, and at the start of each pass it is found anew. And the rows for the later passes are there
from the start in the one run, and added in between in the other; but a pass does not touch the rows
behind its own.

* `runPasses_add` : passes split at any point;
* `runPasses_extend` : rows behind the passes may be added before or after them;
* `converge_add` : so one call can be split into two, as a computation in any monad;
* `converge_split` : the same on a bench with a state, with the trace of all that is done with it.
-/

namespace TimingAudit.Grid

section Computations

variable {m : Type → Type} [Monad m] [LawfulMonad m]
variable (bench : Bench m) (policy : Policy) (repeats : Nat)

/-- Passes can be split at any point. -/
theorem runPasses_add (inputs : List Input) (p q : Nat) (g : Grid) :
    runPasses bench policy repeats inputs (p + q) g =
      runPasses bench policy repeats inputs p g >>= fun
        | .error f => pure (.error f)
        | .ok g => runPasses bench policy repeats inputs q g := by
  induction p generalizing g with
  | zero =>
      rw [Nat.zero_add, runPasses, pure_bind]
  | succ p ih =>
      rw [Nat.succ_add, runPasses_succ, runPasses_succ, bind_assoc]
      congr 1
      funext r
      cases r with
      | error f => rw [pure_bind]
      | ok g => exact ih g.nextPass

/-! ## Rows behind the passes -/

/-- A pass does not see the rows behind its own. -/
theorem sweep_extend {count row : Nat} (xs : List Input) :
    ∀ (col : Nat) (best : UInt64) (g : Grid), g.WellFormed →
      Store.cells.Fits ((g.rows + count) * g.sampleCount) → row < g.rows →
      col + xs.length ≤ g.sampleCount →
      sweep bench policy repeats row xs col best (g.extend count) =
        Except.map (·.extend count) <$> sweep bench policy repeats row xs col best g := by
  induction xs with
  | nil =>
      intro col best g _ _ _ _
      rw [sweep, sweep, map_pure]
      rfl
  | cons x xs ih =>
      intro col best g hg hfits hrow hlen
      rw [List.length_cons] at hlen
      have hcol : col < g.sampleCount := by omega
      have hrow' : row < (g.extend count).rows := by rw [extend_rows]; omega
      rw [sweep_cons bench policy repeats hg hrow hcol,
        sweep_cons bench policy repeats (hg.extend hfits) hrow' hcol, extend_least]
      by_cases hskip : policy.skips (g.least col) best = true
      · rw [if_pos hskip, if_pos hskip]
        exact ih (col + 1) best g hg hfits hrow (by omega)
      · rw [if_neg hskip, if_neg hskip, map_bind]
        congr 1
        funext clocks
        rw [recorded_extend hg hrow hcol]
        exact ih (col + 1) _ _ (hg.recorded hrow hcol clocks) hfits hrow (by
          rw [recorded_sampleCount]; omega)

/-- Rows behind the passes may be added before or after them. -/
theorem runPasses_extend {count : Nat} {inputs : List Input} (n : Nat) :
    ∀ g : Grid, g.WellFormed → Store.cells.Fits ((g.rows + count) * g.sampleCount) →
      inputs.length = g.sampleCount → g.passes + n ≤ g.rows →
      runPasses bench policy repeats inputs n (g.extend count) =
        Except.map (·.extend count) <$> runPasses bench policy repeats inputs n g := by
  induction n with
  | zero =>
      intro g _ _ _ _
      rw [runPasses, runPasses, map_pure]
      rfl
  | succ n ih =>
      intro g hg hfits hlen hroom
      have hrow : g.passes < g.rows := by omega
      have hsweep := sweep_wellFormed bench policy repeats hg hlen hrow g.best
      rw [runPasses_succ, runPasses_succ, extend_best, extend_passes,
        sweep_extend bench policy repeats inputs 0 g.best g hg hfits hrow (by omega),
        bind_map_left, map_bind]
      -- Only grids that the pass can return matter to what follows it.
      refine hsweep _ _ _ fun r hr => ?_
      obtain ⟨g', rfl, hg', hshape⟩ := hr
      refine ih g'.nextPass (hg'.nextPass ?_) ?_ ?_ ?_
      · rw [hshape.passes, hshape.rows]
        omega
      · rw [nextPass_rows, nextPass_sampleCount, hshape.rows, hshape.sampleCount]
        exact hfits
      · rw [nextPass_sampleCount, hshape.sampleCount, hlen]
      · rw [nextPass_passes, nextPass_rows, hshape.passes, hshape.rows]
        omega

/-! ## Whole calls -/

/-- **One call split into two.** A call with room for `p + q` passes is the same computation as one
of `p` passes and then, on the grid it leaves, one of `q` passes. -/
theorem converge_add {g g' : Grid} (hg : g.WellFormed) {inputs : List Input} {p q : Nat}
    (hprep : g.prepare inputs.length (p + q) = .ok g') :
    g.converge bench policy inputs (p + q) repeats =
      g.converge bench policy inputs p repeats >>= fun
        | .error f => pure (.error f)
        | .ok g => g.converge bench policy inputs q repeats := by
  obtain ⟨⟨hcount, hword, hfits⟩, rfl⟩ := (prepare_eq_ok_iff hg).mp hprep
  -- There is room for the first `p` passes alone; `g₁` is the grid they run on.
  have hle : (g.passes + p) * g.sampleCount ≤ (g.passes + (p + q)) * g.sampleCount :=
    Nat.mul_le_mul_right _ (by omega)
  have hprep₁ : g.prepare inputs.length p = .ok (g.extend (g.passes + p - g.rows)) :=
    (prepare_eq_ok_iff hg).mpr ⟨⟨hcount, by omega, fits_mono hle hfits⟩, rfl⟩
  obtain ⟨hg₁, hcount₁, hroom₁⟩ := wellFormed_of_prepare hg hprep₁
  obtain ⟨hg₂, -, -⟩ := wellFormed_of_prepare hg hprep
  rw [converge_of_prepare_ok bench policy repeats hprep,
    converge_of_prepare_ok bench policy repeats hprep₁]
  set g₁ := g.extend (g.passes + p - g.rows) with hg₁_def
  -- The grid of the one run is `g₁` with the rows that the second call adds.
  set count := g.passes + (p + q) - g₁.rows with hcount_def
  have hextend : g.extend (g.passes + (p + q) - g.rows) = g₁.extend count := by
    rw [hcount_def, hg₁_def, extend_extend, extend_rows]
    congr 1
    omega
  rw [hextend] at hg₂ ⊢
  rw [runPasses_add, runPasses_extend bench policy repeats p g₁ hg₁ hg₂.fits hcount₁ hroom₁,
    bind_map_left]
  refine runPasses_wellFormed bench policy repeats hg₁ hcount₁ hroom₁ _ _ _ fun r hr => ?_
  obtain ⟨g₃, rfl, hg₃, hcount₃, hrows₃, hpasses₃⟩ := hr
  have hprep₃ : g₃.prepare inputs.length q = .ok (g₃.extend count) := by
    refine (prepare_eq_ok_iff hg₃).mpr ⟨⟨hcount₁.trans hcount₃.symm, ?_, ?_⟩, ?_⟩
    · rw [hpasses₃, hg₁_def, extend_passes]
      omega
    · rw [hpasses₃, hcount₃, hg₁_def, extend_passes, extend_sampleCount, Nat.add_assoc]
      exact hfits
    · rw [hpasses₃, hrows₃, hcount_def, hg₁_def, extend_passes, Nat.add_assoc]
  exact (converge_of_prepare_ok bench policy repeats hprep₃).symm

end Computations

/-- A call that returned a grid had room. -/
theorem prepare_of_converge_eq_some {σ : Type} {bench : Bench (StateT σ Option)} {policy : Policy}
    {repeats : Nat} {g g' : Grid} {inputs : List Input} {passes : Nat} {s s' : σ}
    (h : g.converge bench policy inputs passes repeats s = some (.ok g', s')) :
    ∃ g₁, g.prepare inputs.length passes = .ok g₁ := by
  cases hprep : g.prepare inputs.length passes with
  | error f =>
      rw [converge_of_prepare_error bench policy repeats hprep] at h
      cases h
  | ok g₁ => exact ⟨g₁, rfl⟩

/-- **Split passes equal one run.** On every grid that calls can lead to and under every policy, if
a call of `p + q` passes succeeds, then so do a call of `p` passes and, after it, one of `q` passes,
and they end with the same grid, the same state of the bench, and the same trace of reads and calls.
-/
theorem converge_split {σ : Type} (bench : Bench (StateT σ Option)) (policy : Policy)
    (repeats : Nat) {g g' : Grid} (hg : g.Reachable) {inputs : List Input} {p q : Nat} {s s' : σ}
    {trace trace' : List Bench.Action}
    (h : g.converge bench.traced policy inputs (p + q) repeats (s, trace) =
      some (.ok g', (s', trace'))) :
    ∃ g₁ s₁ trace₁,
      g.converge bench.traced policy inputs p repeats (s, trace) = some (.ok g₁, (s₁, trace₁)) ∧
      g₁.converge bench.traced policy inputs q repeats (s₁, trace₁) =
        some (.ok g', (s', trace')) := by
  obtain ⟨g₂, hprep⟩ := prepare_of_converge_eq_some h
  rw [converge_add bench.traced policy repeats hg.wellFormed hprep] at h
  obtain ⟨⟨r, s₁, trace₁⟩, hfirst, hsecond⟩ := Option.bind_eq_some_iff.mp h
  cases r with
  | error f => cases hsecond
  | ok g₁ => exact ⟨g₁, s₁, trace₁, hfirst, hsecond⟩

/-- Three passes under early exit, the first one alone: the second sample is left out of the later
two, and the rows of these are added by the second call. -/
theorem converge_split_one_two :
    ∃ g' s' trace',
      (blank 2 1).Reachable ∧
      (blank 2 1).converge (SimulatedClock.bench .comparison).total.traced (.earlyExit 3)
          [⟨1, 2, .uniform⟩, ⟨2, 1, .uniform⟩] (1 + 2) 1 (.scripted 5 0 [4, 0], []) =
        some (.ok g', (s', trace')) ∧
      g'.cells = #[12, 1, 12, sentinel, 8, sentinel] ∧
      Bench.Action.calls trace' = [(1, 2), (2, 1), (1, 2), (1, 2)] ∧
      ∃ g₁ s₁ trace₁,
        (blank 2 1).converge (SimulatedClock.bench .comparison).total.traced (.earlyExit 3)
            [⟨1, 2, .uniform⟩, ⟨2, 1, .uniform⟩] 1 1 (.scripted 5 0 [4, 0], []) =
          some (.ok g₁, (s₁, trace₁)) ∧
        g₁.converge (SimulatedClock.bench .comparison).total.traced (.earlyExit 3)
            [⟨1, 2, .uniform⟩, ⟨2, 1, .uniform⟩] 2 1 (s₁, trace₁) =
          some (.ok g', (s', trace')) := by
  have hreach : (blank 2 1).Reachable := ⟨2, 1, blank 2 1, [], by decide, rfl⟩
  have hrun : (blank 2 1).converge (SimulatedClock.bench .comparison).total.traced (.earlyExit 3)
      [⟨1, 2, .uniform⟩, ⟨2, 1, .uniform⟩] (1 + 2) 1 (.scripted 5 0 [4, 0], []) =
        some (.ok ⟨#[12, 1, 12, sentinel, 8, sentinel], #[8, 1], 2, 3, 3⟩,
          (⟨38, 0, some [4, 0], 4, 8, 4⟩,
            [.opened 5, .called 1 2, .closed 17, .opened 17, .called 2 1, .closed 18,
              .opened 18, .called 1 2, .closed 30, .opened 30, .called 1 2, .closed 38])) := by
    decide +kernel
  exact ⟨_, _, _, hreach, hrun, rfl, rfl, converge_split _ _ _ hreach hrun⟩

end TimingAudit.Grid
