import TimingAudit.Proofs.Grid.Passes
import TimingAudit.Run

/-!
# What a run returns

A run makes a new grid with one column per input and one row per pass, so that its passes fill the
rows exactly: in the dataset of a run there is neither a column without an input nor a row without a
pass. The samples of such a dataset then show whole columns, beside the minima that belong to them.

* `Yields.complete` : every dataset of a run, mixed or not, is complete;
* `Complete.sample` : what this says of the samples.
-/

namespace TimingAudit

/-- The stored minimum of a sample is that of its passes. -/
structure Sample.WellFormed (s : Sample) : Prop where
  minimum_le : ∀ clocks ∈ s.passes, s.minimum ≤ clocks
  /-- A minimum below the sentinel has been measured. -/
  minimum_mem : s.minimum = sentinel ∨ s.minimum ∈ s.passes

namespace Dataset

/-- The columns are those of the inputs, and the rows those of the passes. -/
structure Complete (d : Dataset) : Prop where
  grid : d.grid.WellFormed
  columns : d.grid.sampleCount = d.size
  rows : d.grid.rows = d.iterations

/-- In a complete dataset the passes of a sample are the cells of its column. -/
theorem Complete.passes_sampleAt {d : Dataset} (hd : d.Complete) {col : Nat} (hcol : col < d.size)
    (x : Input) :
    (d.sampleAt col x).passes = (List.range d.iterations).map fun row => d.grid.cell row col := by
  have hcell : d.grid.columnCells col =
      (List.range d.iterations).map fun row => d.grid.cell row col := by
    rw [Grid.columnCells_eq hd.grid (by rw [hd.columns]; exact hcol), hd.rows]
  rw [sampleAt, hcell]
  refine List.take_of_length_le ?_
  rw [List.length_map, List.length_range]
  exact Nat.le_refl _

/-- The samples of a complete dataset show a measurement for every pass and the minimum of these. -/
theorem Complete.sample {d : Dataset} (hd : d.Complete) {s : Sample} (hs : s ∈ d.samples) :
    s.passes.length = d.iterations ∧ s.WellFormed := by
  obtain ⟨⟨x, col⟩, hmem, rfl⟩ := List.mem_map.mp hs
  have hcol : col < d.size := (List.mem_zipIdx' hmem).1
  have hcol' : col < d.grid.sampleCount := by rw [hd.columns]; exact hcol
  have hpasses := hd.passes_sampleAt hcol x
  have hlength : (d.sampleAt col x).passes.length = d.iterations := by
    rw [hpasses, List.length_map, List.length_range]
  refine ⟨hlength, ?_, ?_⟩
  · intro clocks hclocks
    rw [hpasses] at hclocks
    obtain ⟨row, hrow, rfl⟩ := List.mem_map.mp hclocks
    exact hd.grid.least_le row (by rw [hd.rows]; exact List.mem_range.mp hrow) col hcol'
  · rcases hd.grid.least_attained col hcol' with hs | ⟨row, hrow, heq⟩
    · exact .inl hs
    · refine .inr ?_
      rw [hpasses]
      exact List.mem_map.mpr ⟨row, List.mem_range.mpr (by rw [← hd.rows]; exact hrow), heq⟩

end Dataset

namespace RunConfig

/-! ## The datasets of runs -/

section Ensures

variable {m : Type → Type} [Monad m] [LawfulMonad m]

/-- Whatever the bench answers, the dataset of inputs that were measured is complete. -/
theorem measureInputs_ensures (config : RunConfig) (bench : Bench m) (inputs : Array Input)
    (kinds : List InputClass) :
    Ensures (fun r => ∀ d, r = .ok d → d.Complete ∧ d.iterations = config.iterations.toNat)
      (config.measureInputs bench inputs kinds) := by
  unfold measureInputs
  cases halloc : Grid.allocate inputs.size config.iterations.toNat with
  | error f =>
      refine Ensures.pure fun d h => ?_
      cases h
  | ok g =>
      have hg := Grid.wellFormed_of_allocate halloc
      obtain ⟨-, rfl⟩ := Grid.allocate_eq_ok_iff.mp halloc
      refine Ensures.bind (Grid.converge_ensures bench config.policy config.repeats.toNat hg
        inputs.toList config.iterations.toNat) fun r hr => ?_
      cases r with
      | error f =>
          refine Ensures.pure fun d h => ?_
          cases h
      | ok g =>
          obtain ⟨hg', hcount, hrows, hpasses⟩ := hr g rfl
          -- The new grid had one row per pass, so none was added.
          have hpasses' : g.passes = config.iterations.toNat := by
            rw [hpasses]
            exact Nat.zero_add _
          have hrows' : g.rows = config.iterations.toNat := by
            rw [hrows]
            exact (congrArg _ (Nat.zero_add _)).trans (Nat.max_self _)
          refine Ensures.pure fun d h => ?_
          cases h
          exact ⟨⟨hg', hcount, hrows'.trans hpasses'.symm⟩, hpasses'⟩

/-- The same of inputs that could not all be drawn. -/
theorem measureDrawn_ensures (config : RunConfig) (bench : Bench m) (kinds : List InputClass)
    (drawn : Except Failure (Array Input)) :
    Ensures (fun r => ∀ d, r = .ok d → d.Complete ∧ d.iterations = config.iterations.toNat)
      (config.measureDrawn bench kinds drawn) := by
  cases drawn with
  | error f =>
      refine Ensures.pure fun d h => ?_
      cases h
  | ok inputs => exact config.measureInputs_ensures bench inputs kinds

end Ensures

/-- A dataset that a run of the configuration has returned, from some state of some random source
and of some bench that may break off. -/
inductive Yields (config : RunConfig) (d : Dataset) : Prop
  | run {σ τ : Type} [RandomSource σ] (bench : Bench (StateT τ Option)) (k : InputClass)
      (source source' : σ) (s s' : τ)
      (h : config.run bench k source s = some ((.ok d, source'), s'))
  | runMixed {σ τ : Type} [RandomSource σ] (bench : Bench (StateT τ Option))
      (kinds : List InputClass) (source source' : σ) (s s' : τ)
      (h : config.runMixed bench kinds source s = some ((.ok d, source'), s'))

/-- The dataset of a run is complete, with as many passes as the configuration asks for. -/
theorem Yields.complete {config : RunConfig} {d : Dataset} (h : config.Yields d) :
    d.Complete ∧ d.iterations = config.iterations.toNat := by
  cases h with
  | run bench k source source' s s' h =>
      obtain ⟨⟨r, s₁⟩, hmeasure, hpair⟩ := Option.bind_eq_some_iff.mp h
      cases hpair
      exact (config.measureDrawn_ensures bench _ _).of_eq_some hmeasure d rfl
  | runMixed bench kinds source source' s s' h =>
      obtain ⟨⟨drawn, s₁⟩, hdraw, hrest⟩ := Option.bind_eq_some_iff.mp h
      obtain ⟨⟨r, s₂⟩, hmeasure, hpair⟩ := Option.bind_eq_some_iff.mp hrest
      cases hpair
      exact (config.measureDrawn_ensures bench _ _).of_eq_some hmeasure d rfl

end RunConfig

end TimingAudit
