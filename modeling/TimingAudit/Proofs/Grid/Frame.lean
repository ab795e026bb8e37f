import TimingAudit.Proofs.Grid.EarlyExit

/-!
# What passes change, and what they leave alone

A pass can lower the cells of its own row and the minima, and nothing else. What it lowers a cell to
is the length of the window that was measured for it, which stands in the trace of the bench: one
window for every sample that was not left out, pass by pass and in the order of the samples.

* `PassesTrace` says what passes leave in a trace, and `ledger_traced` that a call leaves this;
* `cell_final`, `least_final_le` : the grid after the passes of a ledger;
* `converge_lowers` : the same of a whole call, with the rows that it adds.
-/

namespace TimingAudit.Grid

open Bench (Action)

/-! ## Windows in the trace -/

/-- The trace of a pass: a window for every sample that was measured, in the order of the samples.
What was measured for a sample is the length of its window. -/
inductive PassTrace (repeats : Nat) : List Input → List (Option UInt64) → List Action → Prop
  | done : PassTrace repeats [] [] []
  | leftOut {x : Input} {xs : List Input} {ms : List (Option UInt64)} {t : List Action}
      (h : PassTrace repeats xs ms t) : PassTrace repeats (x :: xs) (none :: ms) t
  | measured {x : Input} {xs : List Input} {ms : List (Option UInt64)} {t : List Action}
      (start stop : UInt64) (h : PassTrace repeats xs ms t) :
      PassTrace repeats (x :: xs) (some (stop - start) :: ms)
        (Bench.windowTrace x.a x.b repeats start stop ++ t)

/-- The trace of several passes over the same inputs. -/
inductive PassesTrace (repeats : Nat) (inputs : List Input) :
    List (List (Option UInt64)) → List Action → Prop
  | done : PassesTrace repeats inputs [] []
  | pass {ms : List (Option UInt64)} {mss : List (List (Option UInt64))} {t t' : List Action}
      (h : PassTrace repeats inputs ms t) (h' : PassesTrace repeats inputs mss t') :
      PassesTrace repeats inputs (ms :: mss) (t ++ t')

section Traced

variable {σ : Type} {bench : Bench (StateT σ Option)} {policy : Policy} {repeats : Nat}

/-- A pass by the rule leaves the windows of what it measured. -/
theorem ledgerRow_traced {row : Nat} (xs : List Input) :
    ∀ {col : Nat} {g : Grid} {s s' : σ} {trace trace' : List Action} {ms : List (Option UInt64)},
      ledgerRow bench.traced policy repeats row xs col g (s, trace) = some (ms, (s', trace')) →
      ∃ t, trace' = trace ++ t ∧ PassTrace repeats xs ms t := by
  induction xs with
  | nil =>
      intro col g s s' trace trace' ms h
      cases h
      exact ⟨[], (List.append_nil _).symm, .done⟩
  | cons x xs ih =>
      intro col g s s' trace trace' ms h
      rw [ledgerRow] at h
      by_cases homits : policy.Omits g col
      · rw [if_pos homits] at h
        obtain ⟨ms', hxs, rfl⟩ := stateT_map_eq_some_iff.mp h
        obtain ⟨t, htrace, hpass⟩ := ih hxs
        exact ⟨t, htrace, .leftOut hpass⟩
      · rw [if_neg homits] at h
        obtain ⟨⟨clocks, s₁, trace₁⟩, hmeasure, hrest⟩ := Option.bind_eq_some_iff.mp h
        obtain ⟨start, stop, rfl, rfl⟩ := Bench.measure_traced_eq_some hmeasure
        obtain ⟨ms', hxs, rfl⟩ := stateT_map_eq_some_iff.mp hrest
        obtain ⟨t, htrace, hpass⟩ := ih hxs
        exact ⟨_, by rw [htrace, List.append_assoc], .measured start stop hpass⟩

/-- Several passes by the rule leave the windows of each, one pass after another. -/
theorem ledgerPasses_traced {inputs : List Input} (n : Nat) :
    ∀ {g : Grid} {s s' : σ} {trace trace' : List Action} {mss : List (List (Option UInt64))},
      ledgerPasses bench.traced policy repeats inputs n g (s, trace) = some (mss, (s', trace')) →
      ∃ t, trace' = trace ++ t ∧ PassesTrace repeats inputs mss t := by
  induction n with
  | zero =>
      intro g s s' trace trace' mss h
      cases h
      exact ⟨[], (List.append_nil _).symm, .done⟩
  | succ n ih =>
      intro g s s' trace trace' mss h
      obtain ⟨⟨ms, s₁, trace₁⟩, hrow, hrest⟩ := Option.bind_eq_some_iff.mp h
      obtain ⟨t₁, rfl, hpass⟩ := ledgerRow_traced inputs hrow
      obtain ⟨mss', hothers, rfl⟩ := stateT_map_eq_some_iff.mp hrest
      obtain ⟨t₂, htrace, hpasses⟩ := ih hothers
      exact ⟨t₁ ++ t₂, by rw [htrace, List.append_assoc], .pass hpass hpasses⟩

/-- **The ledger is in the trace.** A call leaves the windows of all that its ledger shows. -/
theorem ledger_traced {g : Grid} {inputs : List Input} {passes : Nat} {s s' : σ}
    {trace trace' : List Action} {l : Ledger}
    (h : g.ledger bench.traced policy inputs passes repeats (s, trace) =
      some (.ok l, (s', trace'))) :
    ∃ t, trace' = trace ++ t ∧ PassesTrace repeats inputs l.measured t := by
  cases hprep : g.prepare inputs.length passes with
  | error f =>
      rw [ledger_of_prepare_error bench.traced policy repeats hprep] at h
      cases h
  | ok g₁ =>
      rw [ledger_of_prepare_ok bench.traced policy repeats hprep] at h
      obtain ⟨mss, hpasses, hl⟩ := stateT_map_eq_some_iff.mp h
      cases hl
      exact ledgerPasses_traced passes hpasses

/-- A call that returned a grid has a ledger, and the grid is that behind it. -/
theorem exists_ledger_of_converge {τ : Type} {bench : Bench (StateT τ Option)} {g g' : Grid}
    (hg : g.WellFormed) {inputs : List Input} {passes : Nat} {s s' : τ}
    (h : g.converge bench policy inputs passes repeats s = some (.ok g', s')) :
    ∃ l, g.ledger bench policy inputs passes repeats s = some (.ok l, s') ∧ g' = l.final := by
  rw [converge_eq_map_ledger bench policy repeats hg] at h
  obtain ⟨r, hledger, hr⟩ := stateT_map_eq_some_iff.mp h
  cases r with
  | error f => cases hr
  | ok l =>
      cases hr
      exact ⟨l, hledger, rfl⟩

end Traced

/-! ## Lower and no higher -/

/-- A cell never rises. -/
theorem lowered_le (old : UInt64) (m : Option UInt64) : lowered old m ≤ old := by
  cases m with
  | none => exact UInt64.le_refl _
  | some clocks =>
      rw [lowered, UInt64.le_iff_toNat_le, toNat_min]
      exact Nat.min_le_left _ _

/-- A minimum never rises, over any number of passes. -/
theorem least_recordedPasses_le (mss : List (List (Option UInt64))) :
    ∀ g : Grid, g.WellFormed → g.passes + mss.length ≤ g.rows →
      (∀ ms ∈ mss, ms.length ≤ g.sampleCount) → ∀ col,
        (recordedPasses mss g).least col ≤ g.least col := by
  induction mss with
  | nil =>
      intro g _ _ _ col
      exact UInt64.le_refl _
  | cons ms mss ih =>
      intro g hg hroom hlens col
      rw [List.length_cons] at hroom
      obtain ⟨hlen, hlens⟩ := List.forall_mem_cons.mp hlens
      have hrow : g.passes < g.rows := by omega
      obtain ⟨hnext, hcount, hrows, hpasses⟩ := hg.nextPass_recordedRow hrow hlen
      have hrest := ih _ hnext (by rw [hpasses, hrows]; omega) (by rw [hcount]; exact hlens) col
      refine UInt64.le_trans hrest ?_
      rw [nextPass_least, least_recordedRow ms 0 g hg hrow (by omega), if_pos (Nat.zero_le _)]
      exact lowered_le _ _

namespace Ledger.Ruled

variable {l : Ledger} {policy : Policy}

/-- The grid behind a ledger. -/
theorem wellFormed_final (hl : l.Ruled policy) :
    l.final.WellFormed ∧ l.final.sampleCount = l.start.sampleCount ∧
      l.final.rows = l.start.rows ∧ l.final.passes = l.start.passes + l.measured.length := by
  rw [final_eq_gridAfter]
  exact hl.gridAfter (Nat.le_refl _)

/-- The cells behind a ledger: those of its passes are lowered to what it shows. -/
theorem cell_final (hl : l.Ruled policy) (row : Nat) {col : Nat}
    (hcol : col < l.start.sampleCount) :
    l.final.cell row col =
      if l.start.passes ≤ row then
        lowered (l.start.cell row col) (measuredAt l.measured (row - l.start.passes) col)
      else l.start.cell row col := by
  rw [final_eq_gridAfter, hl.cell_gridAfter (Nat.le_refl _) row hcol, List.take_length]

/-- The minima behind a ledger are no higher than before it. -/
theorem least_final_le (hl : l.Ruled policy) (col : Nat) :
    l.final.least col ≤ l.start.least col :=
  least_recordedPasses_le l.measured l.start hl.start hl.room
    (RuledPasses.length_le l.measured l.start hl.passes) col

/-- No cell is higher behind a ledger than before it. -/
theorem cell_final_le (hl : l.Ruled policy) (row : Nat) {col : Nat}
    (hcol : col < l.start.sampleCount) : l.final.cell row col ≤ l.start.cell row col := by
  rw [hl.cell_final row hcol]
  split
  · exact lowered_le _ _
  · exact UInt64.le_refl _

/-- Rows that are not those of the passes are as before. -/
theorem cell_final_of_outside (hl : l.Ruled policy) {row : Nat}
    (hrow : ¬ (l.start.passes ≤ row ∧ row < l.start.passes + l.measured.length)) {col : Nat}
    (hcol : col < l.start.sampleCount) : l.final.cell row col = l.start.cell row col := by
  rw [hl.cell_final row hcol]
  by_cases hle : l.start.passes ≤ row
  · -- There is no pass of the ledger for a row so far behind.
    have hnone : l.measured[row - l.start.passes]? = none := List.getElem?_eq_none (by omega)
    rw [if_pos hle, measuredAt, hnone]
    rfl
  · rw [if_neg hle]

end Ledger.Ruled

/-! ## Whole calls -/

/-- A call with room, from the grid it was made on to the one that its passes begin on: rows may be
added, which read as unmeasured and are those of passes. -/
theorem start_of_prepare {g g₁ : Grid} (hg : g.WellFormed) {inputCount passes : Nat}
    (hprep : g.prepare inputCount passes = .ok g₁) :
    g₁.sampleCount = g.sampleCount ∧ g₁.passes = g.passes ∧
      g₁.rows = max g.rows (g.passes + passes) ∧ (∀ col, g₁.least col = g.least col) ∧
      ∀ row col, g₁.cell row col = g.cell row col := by
  obtain ⟨-, rfl⟩ := (prepare_eq_ok_iff hg).mp hprep
  refine ⟨rfl, rfl, ?_, fun _ => rfl, fun row col => g.cell_extend _ row col⟩
  rw [extend_rows]
  omega

/-- **Passes lower their own rows and nothing else.** Let a call on a grid that calls can lead to
succeed. No cell and no minimum is higher than before; cells in rows that are not those of its passes
are as before; and rows are only added for its passes. The passes measured what the ledger shows,
whose windows are what they left in the trace: every cell of theirs is the smaller of its old value,
the sentinel in an added row, and what was measured for it, and has its old value if the sample was
left out. -/
theorem converge_lowers {σ : Type} (bench : Bench (StateT σ Option)) (policy : Policy)
    (repeats : Nat) {g g' : Grid} (hg : g.Reachable) {inputs : List Input} {passes : Nat} {s s' : σ}
    {trace trace' : List Action}
    (h : g.converge bench.traced policy inputs passes repeats (s, trace) =
      some (.ok g', (s', trace'))) :
    (∀ row < g.rows, ∀ col < g.sampleCount, ∃ old new,
      g.get row col = .ok old ∧ g'.get row col = .ok new ∧ new ≤ old ∧
        (¬ (g.passes ≤ row ∧ row < g.passes + passes) → new = old)) ∧
    (∀ col < g.sampleCount, ∃ old new,
      g.minimum col = .ok old ∧ g'.minimum col = .ok new ∧ new ≤ old) ∧
    (∀ row, g.rows ≤ row → row < g'.rows → g.passes ≤ row ∧ row < g.passes + passes) ∧
    ∃ l t,
      g.ledger bench.traced policy inputs passes repeats (s, trace) =
        some (.ok l, (s', trace')) ∧
      trace' = trace ++ t ∧ l.measured.length = passes ∧
      PassesTrace repeats inputs l.measured t ∧
      ∀ j < passes, ∀ i < g.sampleCount, ∃ old,
        (g.passes + j < g.rows ∧ g.get (g.passes + j) i = .ok old ∨
          g.rows ≤ g.passes + j ∧ old = sentinel) ∧
        g'.get (g.passes + j) i = .ok (match measuredAt l.measured j i with
          | some clocks => min old clocks
          | none => old) := by
  have hwf := hg.wellFormed
  obtain ⟨l, hledger, rfl⟩ := exists_ledger_of_converge hwf h
  obtain ⟨t, htrace, hpasses⟩ := ledger_traced hledger
  obtain ⟨hprep, hlen, hruled⟩ :=
    (ledger_ensures bench.traced policy repeats hwf inputs passes).of_eq_some hledger l rfl
  obtain ⟨hcount₁, hpasses₁, hrows₁, hleast₁, hcell₁⟩ := start_of_prepare hwf hprep
  obtain ⟨hfinal, hcount₂, hrows₂, -⟩ := hruled.wellFormed_final
  refine ⟨?_, ?_, ?_, l, t, hledger, htrace, hlen, hpasses, ?_⟩
  · intro row hrow col hcol
    refine ⟨g.cell row col, l.final.cell row col, get_eq hwf hrow hcol,
      get_eq hfinal (by omega) (by omega), ?_, fun houtside => ?_⟩
    · rw [← hcell₁]
      exact hruled.cell_final_le row (by omega)
    · rw [← hcell₁]
      exact hruled.cell_final_of_outside (by rw [hpasses₁, hlen]; exact houtside) (by omega)
  · intro col hcol
    refine ⟨g.least col, l.final.least col, minimum_eq hwf hcol, minimum_eq hfinal (by omega), ?_⟩
    rw [← hleast₁]
    exact hruled.least_final_le col
  · intro row hrow hrow'
    have hfits := hwf.passes_le_rows
    omega
  · intro j hj i hi
    refine ⟨g.cell (g.passes + j) i, ?_, ?_⟩
    · by_cases hrow : g.passes + j < g.rows
      · exact .inl ⟨hrow, get_eq hwf hrow hi⟩
      · exact .inr ⟨Nat.le_of_not_lt hrow, hwf.cell_of_rows_le (Nat.le_of_not_lt hrow) i⟩
    · rw [get_eq hfinal (by omega) (by omega), hruled.cell_final _ (by omega), hpasses₁,
        if_pos (Nat.le_add_right _ _), Nat.add_sub_cancel_left, hcell₁]
      cases measuredAt l.measured j i <;> rfl

/-- Two passes under early exit on a grid with one pass behind it and a measurement recorded by hand
in the row of the next one. The second sample is left out of both passes and keeps that measurement;
the first one is measured in the row that was there and in the row that is added. -/
theorem converge_lowers_recorded_ahead :
    let bench := (SimulatedClock.bench .comparison).total
    let inputs : List Input := [⟨1, 2, .uniform⟩, ⟨2, 1, .uniform⟩]
    let g := (blank 2 2).after
      [.converge bench (.scripted 5 0 [4, 0]) .exhaustive inputs 1 1, .record 1 1 7]
    g.Reachable ∧ ∃ g' s' trace',
      g.converge bench.traced (.earlyExit 5) inputs 2 1 (.scripted 5 0 [4, 0], []) =
        some (.ok g', (s', trace')) ∧
      g'.cells = #[12, 1, 12, 7, 8, sentinel] ∧
      (∃ old new, g.get 0 0 = .ok old ∧ g'.get 0 0 = .ok new ∧ new ≤ old ∧
        (¬ (1 ≤ 0 ∧ 0 < 1 + 2) → new = old)) ∧
      ∃ measured t, trace' = [] ++ t ∧ PassesTrace 1 inputs measured t ∧
        ∃ old, (1 + 1 < 2 ∧ g.get (1 + 1) 0 = .ok old ∨ 2 ≤ 1 + 1 ∧ old = sentinel) ∧
          g'.get (1 + 1) 0 = .ok (match measuredAt measured 1 0 with
            | some clocks => min old clocks
            | none => old) := by
  intro bench inputs g
  have hreach : g.Reachable := ⟨2, 2, blank 2 2, _, by decide, rfl⟩
  have hg : g = ⟨#[12, 1, sentinel, 7], #[12, 1], 2, 2, 1⟩ := by decide +kernel
  have hrun : g.converge bench.traced (.earlyExit 5) inputs 2 1 (.scripted 5 0 [4, 0], []) =
      some (.ok ⟨#[12, 1, 12, 7, 8, sentinel], #[8, 1], 2, 3, 3⟩,
        (⟨25, 0, some [4, 0], 2, 4, 2⟩,
          [.opened 5, .called 1 2, .closed 17, .opened 17, .called 1 2, .closed 25])) := by
    decide +kernel
  obtain ⟨hcells, -, -, l, t, -, htrace, -, hpasses, hmeasured⟩ :=
    converge_lowers bench (.earlyExit 5) 1 hreach hrun
  have hframe := hcells 0 (by rw [hg]; decide) 0 (by rw [hg]; decide)
  have hcell := hmeasured 1 (by decide) 0 (by rw [hg]; decide)
  rw [hg] at hframe hcell
  rw [hg] at hrun ⊢
  exact ⟨hg ▸ hreach, _, _, _, hrun, rfl, hframe, l.measured, t, htrace, hpasses, hcell⟩

end TimingAudit.Grid
