import TimingAudit.Bench.Simulated
import TimingAudit.Proofs.Bench.Trace
import TimingAudit.Proofs.Grid.Passes

/-!
# Grids that calls can lead to

A grid is new at first and then changed by calls only: measurements recorded by hand, and passes on
some bench. A call that fails leaves the grid as it was. The bench of a call has a state of its own and
may break off; such a call counts as if it had not been made.

* `Call.wellFormed_run` : one call keeps a grid well formed;
* `WellFormed.after` : so does any sequence of calls;
* `layout_after_calls` : what this says of the buffer, the rows and the minima.
-/

namespace TimingAudit.Grid

/-- A call that may change a grid. -/
inductive Call : Type 1
  /-- A measurement that is recorded by hand. -/
  | record (row col : Nat) (clocks : UInt64)
  /-- Passes on a bench, from a state of the bench on. A step of the bench that returns nothing
  breaks the call off. -/
  | converge {σ : Type} (bench : Bench (StateT σ Option)) (state : σ) (policy : Policy)
      (inputs : List Input) (passes repeats : Nat)

/-- The grid after a call. For a call that its bench breaks off this is the grid before it, which is a
convention: what was recorded until then is in the cells, but the call returns no grid that would
have it. -/
def Call.run (g : Grid) : Call → Grid
  | .record row col clocks =>
    match g.record row col clocks with
    | .ok g' => g'
    | .error _ => g
  | .converge bench state policy inputs passes repeats =>
    match g.converge bench policy inputs passes repeats state with
    | some (.ok g', _) => g'
    | _ => g

/-- The grid after some calls, the first one first. -/
def after (g : Grid) (calls : List Call) : Grid := calls.foldl Call.run g

/-- A grid that some calls lead to from a new one. -/
def Reachable (g : Grid) : Prop :=
  ∃ sampleCount rows g₀ calls, allocate sampleCount rows = .ok g₀ ∧ g = g₀.after calls

/-! ## What calls keep -/

/-- **One call** keeps a grid well formed, and the number of its columns. -/
theorem Call.wellFormed_run {g : Grid} (hg : g.WellFormed) (call : Call) :
    (call.run g).WellFormed ∧ (call.run g).sampleCount = g.sampleCount := by
  cases call with
  | record row col clocks =>
      simp only [Call.run]
      split
      · rename_i g' hrec
        obtain ⟨hrow, hcol, rfl⟩ := (record_eq_ok_iff hg).mp hrec
        exact ⟨hg.recorded hrow hcol clocks, rfl⟩
      · exact ⟨hg, rfl⟩
  | converge bench state policy inputs passes repeats =>
      have hensures := converge_ensures bench policy repeats hg inputs passes
      simp only [Call.run]
      split
      · rename_i g' _ hconv
        obtain ⟨hg', hcount, -⟩ := hensures.of_eq_some hconv g' rfl
        exact ⟨hg', hcount⟩
      · exact ⟨hg, rfl⟩

/-- **Calls one after another** keep a grid well formed, and the number of its columns. -/
theorem WellFormed.after {g : Grid} (hg : g.WellFormed) (calls : List Call) :
    (g.after calls).WellFormed ∧ (g.after calls).sampleCount = g.sampleCount := by
  induction calls generalizing g with
  | nil => exact ⟨hg, rfl⟩
  | cons call calls ih =>
      obtain ⟨hrun, hcount⟩ := call.wellFormed_run hg
      obtain ⟨hafter, hcount'⟩ := ih hrun
      exact ⟨hafter, hcount'.trans hcount⟩

/-- Every grid that calls lead to is well formed. -/
theorem Reachable.wellFormed {g : Grid} (hg : g.Reachable) : g.WellFormed := by
  obtain ⟨sampleCount, rows, g₀, calls, halloc, rfl⟩ := hg
  exact ((wellFormed_of_allocate halloc).after calls).1

/-- The stored minimum of a column bounds its cells from below, and is one of them unless it is the
sentinel. -/
theorem WellFormed.minimum_spec {g : Grid} (hg : g.WellFormed) {col : Nat}
    (hcol : col < g.sampleCount) :
    ∃ least, g.minimum col = .ok least ∧
      (∀ row < g.rows, ∃ clocks, g.get row col = .ok clocks ∧ least ≤ clocks) ∧
      (least = sentinel ∨ ∃ row < g.rows, g.get row col = .ok least) := by
  refine ⟨g.least col, minimum_eq hg hcol, ?_, ?_⟩
  · intro row hrow
    exact ⟨g.cell row col, get_eq hg hrow hcol, hg.least_le row hrow col hcol⟩
  · rcases hg.least_attained col hcol with hs | ⟨row, hrow, heq⟩
    · exact .inl hs
    · exact .inr ⟨row, hrow, by rw [get_eq hg hrow hcol, heq]⟩

/-- **The grid after any calls.** However a new grid has been used, its buffer holds its rows, there
is a minimum for every column, the columns are those it was made with, there are rows for all
passes, and the stored minimum of a column is the minimum of its cells: it is below all of them and
equal to one of them, unless it is the sentinel, above which there is nothing. -/
theorem layout_after_calls {sampleCount rows : Nat} {g₀ : Grid}
    (halloc : allocate sampleCount rows = .ok g₀) (calls : List Call) :
    let g := g₀.after calls
    g.cells.size = g.rows * g.sampleCount ∧ g.minima.size = g.sampleCount ∧
      g.sampleCount = sampleCount ∧ g.passes ≤ g.rows ∧
      ∀ col < sampleCount, ∃ least, g.minimum col = .ok least ∧
        (∀ row < g.rows, ∃ clocks, g.get row col = .ok clocks ∧ least ≤ clocks) ∧
        (least = sentinel ∨ ∃ row < g.rows, g.get row col = .ok least) := by
  intro g
  obtain ⟨hg, hcount⟩ := (wellFormed_of_allocate halloc).after calls
  obtain ⟨-, rfl⟩ := allocate_eq_ok_iff.mp halloc
  refine ⟨hg.cells_size, hg.minima_size, hcount, hg.passes_le_rows, ?_⟩
  intro col hcol
  exact hg.minimum_spec (by rw [hcount]; exact hcol)

/-- A record by hand, two passes under early exit that outgrow the one row, and a record out of
range: the minimum of the second column is still that of its cells. -/
theorem layout_after_three_calls :
    allocate 2 1 = .ok (blank 2 1) ∧
      let g := (blank 2 1).after [.record 0 1 7,
        .converge (SimulatedClock.bench .comparison).total (.stepping 5 10) (.earlyExit 3)
          [⟨1, 2, .uniform⟩, ⟨2, 1, .uniform⟩] 2 1,
        .record 9 1 0]
      ∃ least, g.minimum 1 = .ok least ∧
        (∀ row < g.rows, ∃ clocks, g.get row 1 = .ok clocks ∧ least ≤ clocks) ∧
        (least = sentinel ∨ ∃ row < g.rows, g.get row 1 = .ok least) := by
  have halloc : allocate 2 1 = .ok (blank 2 1) := by decide
  exact ⟨halloc, (layout_after_calls halloc _).2.2.2.2 1 (by decide)⟩

end TimingAudit.Grid
