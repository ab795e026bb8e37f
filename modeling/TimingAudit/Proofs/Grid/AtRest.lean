import TimingAudit.Proofs.Grid.Frame
import TimingAudit.Proofs.Grid.InPlace
import TimingAudit.Proofs.Grid.Resume

/-!
# Passes that measure nothing

A sample that is left out of one pass may be measured again in a later one, after a fast window of
another sample. But a pass that leaves out every sample moves no minimum, and the minima are all that
the rule looks at: so the next pass leaves every sample out as well, and so on for ever. It takes no
more than that the grid is at rest, which means that the rule leaves out every sample as the minima
stand.

* `AtRest.converge_eq` : a call on a grid at rest counts its passes and does nothing with the bench;
* `atRest_of_quiet_pass` : a pass that did nothing with the bench ran on a grid at rest;
* `converge_after_quiet_pass` : both together.
-/

namespace TimingAudit.Grid

open Bench (Action)

/-- The rule leaves out every sample, as the minima stand. -/
def AtRest (policy : Policy) (g : Grid) : Prop := ∀ col < g.sampleCount, policy.Omits g col

/-- The grid in which `count` more passes count as run. -/
def idled (g : Grid) (count : Nat) : Grid := { g with passes := g.passes + count }

section Idled

variable (g : Grid) (count : Nat)

@[simp] theorem idled_sampleCount : (g.idled count).sampleCount = g.sampleCount := rfl

@[simp] theorem idled_rows : (g.idled count).rows = g.rows := rfl

@[simp] theorem idled_passes : (g.idled count).passes = g.passes + count := rfl

@[simp] theorem idled_minima : (g.idled count).minima = g.minima := rfl

@[simp] theorem idled_cell (row col : Nat) : (g.idled count).cell row col = g.cell row col := rfl

/-- One pass and then some more. -/
theorem nextPass_idled : g.nextPass.idled count = g.idled (count + 1) := by
  simp only [idled, nextPass, Nat.add_assoc, Nat.add_comm 1]

end Idled

/-- Counting passes keeps a grid well formed, if it has rows for them. -/
theorem WellFormed.idled {g : Grid} (hg : g.WellFormed) {count : Nat}
    (hroom : g.passes + count ≤ g.rows) : (g.idled count).WellFormed where
  cells_size := hg.cells_size
  minima_size := hg.minima_size
  fits := hg.fits
  passes_le_rows := hroom
  least_le := hg.least_le
  least_attained := hg.least_attained

/-! ## What the rule looks at -/

/-- The rule looks at the minima alone. -/
theorem omits_congr {g g' : Grid} (h : g.minima = g'.minima) (policy : Policy) (col : Nat) :
    policy.Omits g col ↔ policy.Omits g' col := by
  cases policy with
  | exhaustive => exact Iff.rfl
  | earlyExit tolerance => simp only [Policy.Omits, least, smallest, h]

/-- A larger tolerance leaves out no fewer samples. -/
theorem omits_of_tolerance_le {tolerance tolerance' : UInt64} (hle : tolerance ≤ tolerance')
    {g : Grid} {col : Nat} (h : (Policy.earlyExit tolerance).Omits g col) :
    (Policy.earlyExit tolerance').Omits g col := by
  have hle' := UInt64.le_iff_toNat_le.mp hle
  refine ⟨h.1, Nat.le_trans h.2 ?_⟩
  omega

namespace AtRest

variable {policy : Policy} {g : Grid}

/-- Grids with the same minima are at rest together. -/
theorem congr {g' : Grid} (h : g.AtRest policy) (hminima : g'.minima = g.minima)
    (hcount : g'.sampleCount = g.sampleCount) : g'.AtRest policy := by
  intro col hcol
  rw [omits_congr hminima]
  exact h col (by omega)

/-- A grid at rest is so for every larger tolerance. -/
theorem mono {tolerance tolerance' : UInt64} (h : g.AtRest (.earlyExit tolerance))
    (hle : tolerance ≤ tolerance') : g.AtRest (.earlyExit tolerance') :=
  fun col hcol => omits_of_tolerance_le hle (h col hcol)

/-! ## Passes on a grid at rest -/

section Passes

variable {m : Type → Type} [Monad m] (bench : Bench m) (repeats : Nat)

/-- A pass on a grid at rest does nothing. -/
theorem sweep_eq (h : g.AtRest policy) (hg : g.WellFormed) {row : Nat} (hrow : row < g.rows)
    (xs : List Input) : ∀ col, col + xs.length ≤ g.sampleCount →
      sweep bench policy repeats row xs col g.best g = pure (.ok g) := by
  induction xs with
  | nil =>
      intro col _
      rw [sweep]
  | cons x xs ih =>
      intro col hlen
      rw [List.length_cons] at hlen
      have hcol : col < g.sampleCount := by omega
      rw [sweep_cons bench policy repeats hg hrow hcol,
        if_pos ((skips_iff_omits policy g col).mpr (h col hcol))]
      exact ih (col + 1) (by omega)

variable [LawfulMonad m]

/-- Passes on a grid at rest are counted, and do nothing else. -/
theorem runPasses_eq {inputs : List Input} (n : Nat) : ∀ g : Grid, g.AtRest policy →
    g.WellFormed → inputs.length = g.sampleCount → g.passes + n ≤ g.rows →
      runPasses bench policy repeats inputs n g = pure (.ok (g.idled n)) := by
  induction n with
  | zero =>
      intro g _ _ _ _
      rw [runPasses]
      rfl
  | succ n ih =>
      intro g h hg hlen hroom
      have hrow : g.passes < g.rows := by omega
      have hnext : g.nextPass.passes + n ≤ g.nextPass.rows := by
        rw [nextPass_passes, nextPass_rows]
        omega
      -- A pass moves no minimum, so the grid is still at rest behind it.
      rw [runPasses_succ, h.sweep_eq bench repeats hg hrow inputs 0 (by omega), pure_bind]
      simp only
      rw [ih g.nextPass (h.congr rfl rfl) (hg.nextPass hrow) hlen hnext, nextPass_idled]

/-- **A call on a grid at rest** counts its passes and does nothing with the bench. -/
theorem converge_eq (h : g.AtRest policy) (hg : g.WellFormed) {inputs : List Input} {passes : Nat}
    {g₁ : Grid} (hprep : g.prepare inputs.length passes = .ok g₁) :
    g.converge bench policy inputs passes repeats = pure (.ok (g₁.idled passes)) := by
  obtain ⟨hg₁, hlen, hroom⟩ := wellFormed_of_prepare hg hprep
  obtain ⟨-, hg₁_eq⟩ := (prepare_eq_ok_iff hg).mp hprep
  have h₁ : g₁.AtRest policy := h.congr (by rw [hg₁_eq, extend_minima]) (by rw [hg₁_eq]; rfl)
  rw [converge_of_prepare_ok bench policy repeats hprep,
    runPasses_eq bench repeats passes g₁ h₁ hg₁ hlen hroom]

end Passes

end AtRest

/-! ## Passes that left no trace -/

/-- A pass that left nothing in the trace measured nothing. -/
theorem PassTrace.eq_none_of_nil {repeats : Nat} {xs : List Input} {ms : List (Option UInt64)}
    {t : List Action} (h : PassTrace repeats xs ms t) (ht : t = []) : ∀ m ∈ ms, m = none := by
  induction h with
  | done => exact nofun
  | leftOut _ ih =>
      rintro m (_ | ⟨_, hm⟩)
      · rfl
      · exact ih ht m hm
  | measured start stop _ _ => exact absurd ht (List.cons_ne_nil _ _)

/-- If a pass left out all of its samples, the rule left them out on the grid as it was. -/
theorem RuledRow.omits_of_none {policy : Policy} {row : Nat} (ms : List (Option UInt64)) :
    ∀ (col : Nat) (g : Grid), (∀ m ∈ ms, m = none) → RuledRow policy row col ms g →
      ∀ i < ms.length, policy.Omits g (col + i) := by
  induction ms with
  | nil =>
      intro col g _ _ i hi
      exact absurd hi (Nat.not_lt_zero _)
  | cons m ms ih =>
      rintro col g hnone ⟨hfirst, hrest⟩ i hi
      obtain ⟨rfl, hnones⟩ := List.forall_mem_cons.mp hnone
      cases i with
      | zero => exact hfirst.mp rfl
      | succ i =>
          rw [Nat.add_comm i 1, ← Nat.add_assoc]
          exact ih (col + 1) g hnones hrest i (Nat.lt_of_succ_lt_succ hi)

/-- **A quiet pass** ran on a grid at rest: if a call of one pass left nothing in the trace, the rule
leaves out every sample of the grid. -/
theorem atRest_of_quiet_pass {σ : Type} {bench : Bench (StateT σ Option)} {policy : Policy}
    {repeats : Nat} {g g₁ : Grid} (hg : g.WellFormed) {inputs : List Input} {s s₁ : σ}
    {trace : List Action}
    (h : g.converge bench.traced policy inputs 1 repeats (s, trace) =
      some (.ok g₁, (s₁, trace))) : g.AtRest policy := by
  obtain ⟨l, hledger, -⟩ := exists_ledger_of_converge hg h
  obtain ⟨t, htrace, hpasses⟩ := ledger_traced hledger
  obtain ⟨hprep, hlen, hruled⟩ :=
    (ledger_ensures bench.traced policy repeats hg inputs 1).of_eq_some hledger l rfl
  obtain ⟨-, hstart⟩ := (prepare_eq_ok_iff hg).mp hprep
  have hminima : l.start.minima = g.minima := by rw [hstart, extend_minima]
  have ht : t = [] := List.self_eq_append_right.mp htrace
  obtain ⟨ms, hms⟩ := List.length_eq_one_iff.mp hlen
  have hrule := hruled.passes
  rw [hms] at hpasses hrule
  obtain ⟨hcount, hrow, -⟩ := hrule
  cases hpasses with
  | pass hpass _ =>
      have hnone := hpass.eq_none_of_nil (List.append_eq_nil_iff.mp ht).1
      intro col hcol
      have homits := RuledRow.omits_of_none ms 0 l.start hnone hrow col
        (by rw [hcount, hstart]; exact hcol)
      rw [Nat.zero_add] at homits
      exact (omits_congr hminima policy col).mp homits

/-! ## Whole calls -/

/-- There is room for the passes exactly if they can be counted and the buffer fits with the rows that
are missing. -/
theorem exists_prepare_eq_ok_iff {g : Grid} (hg : g.WellFormed) {inputCount : Nat}
    (hcount : inputCount = g.sampleCount) (passes : Nat) :
    (∃ g', g.prepare inputCount passes = .ok g') ↔
      g.passes + passes < wordLimit ∧ (g.rows < g.passes + passes →
        8 * ((g.passes + passes) * g.sampleCount) ≤ allocationLimit) := by
  have hfits : Store.cells.Fits ((g.passes + passes) * g.sampleCount) ↔
      8 * ((g.passes + passes) * g.sampleCount) ≤ allocationLimit := by
    rw [Nat.mul_comm 8]
    rfl
  constructor
  · rintro ⟨g', hprep⟩
    obtain ⟨⟨-, hword, hroom⟩, -⟩ := (prepare_eq_ok_iff hg).mp hprep
    exact ⟨hword, fun _ => hfits.mp hroom⟩
  · rintro ⟨hword, hroom⟩
    exact exists_prepare_eq_ok hg hcount hword fun hrows => hfits.mpr (hroom hrows)

/-- What a call on a grid at rest leaves: the passes are counted, and rows may have been added. -/
theorem idled_of_prepare {g g₁ : Grid} (hg : g.WellFormed) {inputCount passes : Nat}
    (hprep : g.prepare inputCount passes = .ok g₁) :
    (g₁.idled passes).passes = g.passes + passes ∧ (g₁.idled passes).minima = g.minima ∧
      (∀ row < g.rows, ∀ col < g.sampleCount, ∃ clocks,
        g.get row col = .ok clocks ∧ (g₁.idled passes).get row col = .ok clocks) ∧
      ∀ row, g.rows ≤ row → row < (g₁.idled passes).rows → ∀ col < g.sampleCount,
        (g₁.idled passes).get row col = .ok sentinel := by
  obtain ⟨hg₁, -, hroom⟩ := wellFormed_of_prepare hg hprep
  obtain ⟨hcount, hpasses, hrows, -, hcell⟩ := start_of_prepare hg hprep
  have hidled := hg₁.idled hroom
  obtain ⟨-, hg₁_eq⟩ := (prepare_eq_ok_iff hg).mp hprep
  refine ⟨by rw [idled_passes, hpasses], by rw [idled_minima, hg₁_eq, extend_minima], ?_, ?_⟩
  · intro row hrow col hcol
    refine ⟨g.cell row col, get_eq hg hrow hcol, ?_⟩
    rw [get_eq hidled (by rw [idled_rows]; omega) (by rw [idled_sampleCount]; omega), idled_cell,
      hcell]
  · intro row hrow hrow' col hcol
    rw [get_eq hidled hrow' (by rw [idled_sampleCount]; omega), idled_cell, hcell,
      hg.cell_of_rows_le hrow]

/-- **Early exit comes to rest.** Let one pass under early exit, on a grid that calls can lead to, do
nothing with the bench. Then no number of further passes does, under this tolerance or a larger one.
They succeed if they can be counted and the buffer fits with their rows, and are refused otherwise.
When they succeed, the passes are counted, all minima and all cells are as they were, and the rows
that were added are unmeasured. -/
theorem converge_after_quiet_pass {σ : Type} (bench : Bench (StateT σ Option)) {tolerance : UInt64}
    (repeats : Nat) {g g₁ : Grid} (hg : g.Reachable) {inputs : List Input} {s s₁ : σ}
    {trace : List Action}
    (h : g.converge bench.traced (.earlyExit tolerance) inputs 1 repeats (s, trace) =
      some (.ok g₁, (s₁, trace)))
    {tolerance' : UInt64} (hle : tolerance ≤ tolerance') (q : Nat) :
    s₁ = s ∧ ∃ r,
      g₁.converge bench.traced (.earlyExit tolerance') inputs q repeats (s₁, trace) =
        some (r, (s₁, trace)) ∧
      ((∃ g₂, r = .ok g₂) ↔ g₁.passes + q < wordLimit ∧ (g₁.rows < g₁.passes + q →
        8 * ((g₁.passes + q) * g₁.sampleCount) ≤ allocationLimit)) ∧
      ∀ g₂, r = .ok g₂ →
        g₂.passes = g₁.passes + q ∧ g₂.minima = g₁.minima ∧
        (∀ row < g₁.rows, ∀ col < g₁.sampleCount, ∃ clocks,
          g₁.get row col = .ok clocks ∧ g₂.get row col = .ok clocks) ∧
        ∀ row, g₁.rows ≤ row → row < g₂.rows → ∀ col < g₁.sampleCount,
          g₂.get row col = .ok sentinel := by
  have hwf := hg.wellFormed
  have hrest := atRest_of_quiet_pass hwf h
  obtain ⟨g₀, hprep⟩ := prepare_of_converge_eq_some h
  obtain ⟨hg₀, hcount₀, hroom₀⟩ := wellFormed_of_prepare hwf hprep
  obtain ⟨-, hg₀_eq⟩ := (prepare_eq_ok_iff hwf).mp hprep
  -- The pass only counted itself, so the grid behind it is at rest as well.
  rw [hrest.converge_eq bench.traced repeats hwf hprep] at h
  cases h
  have hwf₁ : (g₀.idled 1).WellFormed := hg₀.idled hroom₀
  have hrest₁ : (g₀.idled 1).AtRest (.earlyExit tolerance') :=
    (hrest.congr (by rw [hg₀_eq]; rfl) (by rw [hg₀_eq]; rfl)).mono hle
  have hroom := exists_prepare_eq_ok_iff hwf₁ hcount₀ q
  refine ⟨rfl, ?_⟩
  cases hprep₁ : (g₀.idled 1).prepare inputs.length q with
  | error f =>
      rw [hprep₁] at hroom
      refine ⟨.error f, ?_, hroom, nofun⟩
      rw [converge_of_prepare_error bench.traced _ repeats hprep₁]
      rfl
  | ok g₂ =>
      refine ⟨.ok (g₂.idled q), ?_, ?_, ?_⟩
      · rw [hrest₁.converge_eq bench.traced repeats hwf₁ hprep₁]
        rfl
      · exact iff_of_true ⟨_, rfl⟩ (hroom.mp ⟨g₂, hprep₁⟩)
      · rintro _ ⟨⟩
        exact idled_of_prepare hwf₁ hprep₁

/-- The slower of two samples is just within the tolerance, and a measurement was recorded by hand in
a row that no pass has reached. After a quiet pass, four more under the largest tolerance run over
that row and add others, and the measurement is still there. -/
theorem converge_after_quiet_pass_recorded_ahead :
    let bench := (SimulatedClock.bench .comparison).total
    let clock := SimulatedClock.scripted 5 0 [4, 0]
    let inputs : List Input := [⟨1, 2, .uniform⟩, ⟨2, 1, .uniform⟩]
    let g := (blank 2 3).after [.converge bench clock .exhaustive inputs 1 1, .record 2 1 9]
    let g₁ : Grid := ⟨#[12, 1, sentinel, sentinel, sentinel, 9], #[12, 1], 2, 3, 2⟩
    g.Reachable ∧
      g.converge bench.traced (.earlyExit 11) inputs 1 1 (clock, []) = some (.ok g₁, (clock, [])) ∧
      ∃ g₂,
        g₁.converge bench.traced (.earlyExit sentinel) inputs 4 1 (clock, []) =
          some (.ok g₂, (clock, [])) ∧
        g₂.passes = 6 ∧ g₂.minima = #[12, 1] ∧
        (∃ clocks, g₁.get 2 1 = .ok clocks ∧ g₂.get 2 1 = .ok clocks) ∧
        ∀ row, 3 ≤ row → row < g₂.rows → ∀ col < 2, g₂.get row col = .ok sentinel := by
  intro bench clock inputs g g₁
  have hreach : g.Reachable := ⟨2, 3, blank 2 3, _, by decide, rfl⟩
  have hquiet : g.converge bench.traced (.earlyExit 11) inputs 1 1 (clock, []) =
      some (.ok g₁, (clock, [])) := by
    decide +kernel
  obtain ⟨-, r, hrun, hroom, hrest⟩ :=
    converge_after_quiet_pass bench 1 hreach hquiet (le_sentinel 11) 4
  obtain ⟨g₂, rfl⟩ := hroom.mpr (by decide)
  obtain ⟨hpasses, hminima, hcells, hadded⟩ := hrest g₂ rfl
  exact ⟨hreach, hquiet, g₂, hrun, hpasses, hminima, hcells 2 (by decide) 1 (by decide), hadded⟩

end TimingAudit.Grid
