import TimingAudit.Bench.Simulated
import TimingAudit.Proofs.Bench.Trace
import TimingAudit.Proofs.Grid.Ledger
import TimingAudit.Proofs.Grid.Reachable

/-!
# Samples that are left out

What the rule of early exit means for the samples, read off the ledger of a call. A sample that is
left out of a pass keeps its cell of that pass and its minimum (`Ledger.Ruled.kept`). A sample that
was never measured is not left out, so on a new grid the first pass measures all of them
(`Ledger.Ruled.first_pass`).

* `converge_earlyExit_by_rule` : both, together with the refinement of the rule by the passes.
-/

namespace TimingAudit.Grid

/-! ## The grids of a ledger -/

/-- Passes by the rule note down no more samples than there are columns. -/
theorem RuledPasses.length_le {policy : Policy} (mss : List (List (Option UInt64))) :
    ∀ g : Grid, RuledPasses policy mss g → ∀ ms ∈ mss, ms.length ≤ g.sampleCount := by
  induction mss with
  | nil => intro g _ ms hms; cases hms
  | cons ms mss ih =>
      rintro g ⟨hlen, -, hrest⟩ ms' hms'
      rcases List.mem_cons.mp hms' with rfl | hmem
      · exact Nat.le_of_eq hlen
      · have hshape := sameShape_recordedRow g.passes ms 0 g
        have hle := ih _ hrest ms' hmem
        rw [nextPass_sampleCount, hshape.sampleCount] at hle
        exact hle

namespace Ledger.Ruled

variable {l : Ledger} {policy : Policy}

/-- The first passes of a ledger are passes on the same grid. -/
theorem gridAfter (hl : l.Ruled policy) {count : Nat} (hcount : count ≤ l.measured.length) :
    (l.gridAfter count).WellFormed ∧ (l.gridAfter count).sampleCount = l.start.sampleCount ∧
      (l.gridAfter count).rows = l.start.rows ∧
      (l.gridAfter count).passes = l.start.passes + count := by
  have hroom := hl.room
  have htake : (l.measured.take count).length = count := List.length_take_of_le hcount
  have hpasses := WellFormed.recordedPasses (l.measured.take count) l.start hl.start
    (by omega) fun ms hms =>
      RuledPasses.length_le l.measured l.start hl.passes ms (List.mem_of_mem_take hms)
  rw [htake] at hpasses
  exact hpasses

/-- The cells after the first passes of a ledger. -/
theorem cell_gridAfter (hl : l.Ruled policy) {count : Nat} (hcount : count ≤ l.measured.length)
    (row : Nat) {col : Nat} (hcol : col < l.start.sampleCount) :
    (l.gridAfter count).cell row col =
      if l.start.passes ≤ row then
        lowered (l.start.cell row col)
          (measuredAt (l.measured.take count) (row - l.start.passes) col)
      else l.start.cell row col := by
  have hroom := hl.room
  have htake : (l.measured.take count).length = count := List.length_take_of_le hcount
  exact cell_recordedPasses _ l.start hl.start (by omega)
    (fun ms hms => RuledPasses.length_le l.measured l.start hl.passes ms (List.mem_of_mem_take hms))
    row col hcol

/-- The minima after one more pass of a ledger. -/
theorem least_gridAfter_succ (hl : l.Ruled policy) {j : Nat} (hj : j < l.measured.length)
    (col : Nat) :
    (l.gridAfter (j + 1)).least col =
      lowered ((l.gridAfter j).least col) (measuredAt l.measured j col) := by
  obtain ⟨hg, hcount, hrows, hpasses⟩ := hl.gridAfter (Nat.le_of_lt hj)
  have hroom := hl.room
  have hmem := RuledPasses.length_le l.measured l.start hl.passes _ (List.getElem_mem hj)
  have hstep : l.gridAfter (j + 1) =
      (recordedRow (l.gridAfter j).passes 0 l.measured[j] (l.gridAfter j)).nextPass := by
    rw [Ledger.gridAfter, List.take_add_one, List.getElem?_eq_getElem hj, Option.toList_some,
      recordedPasses_append]
    rfl
  rw [hstep, nextPass_least, least_recordedRow _ 0 _ hg (by omega) (by omega), if_pos (by omega),
    Nat.sub_zero, measuredAt, List.getElem?_eq_getElem hj, Option.bind_some]

/-- **A sample that is left out keeps what it has.** Its cell of the pass is at the end as it was
before the pass, and its minimum is after the pass as it was before. -/
theorem kept (hl : l.Ruled policy) {j i : Nat} (hj : j < l.measured.length)
    (hi : i < l.start.sampleCount) (hnone : measuredAt l.measured j i = none) :
    l.final.cell (l.start.passes + j) i = (l.gridAfter j).cell (l.start.passes + j) i ∧
      (l.gridAfter (j + 1)).least i = (l.gridAfter j).least i := by
  constructor
  · have hlater : measuredAt (l.measured.take j) j i = none := by
      rw [measuredAt, List.getElem?_eq_none (by rw [List.length_take]; omega)]
      rfl
    rw [final_eq_gridAfter, hl.cell_gridAfter (Nat.le_refl _) _ hi, hl.cell_gridAfter (Nat.le_of_lt hj) _ hi,
      if_pos (Nat.le_add_right _ _), if_pos (Nat.le_add_right _ _), Nat.add_sub_cancel_left,
      List.take_length, hnone, hlater]
  · rw [hl.least_gridAfter_succ hj, hnone, lowered]

end Ledger.Ruled

/-- As long as the samples to come are unmeasured, none of them is left out. -/
theorem RuledRow.ne_none {policy : Policy} {row : Nat} (ms : List (Option UInt64)) :
    ∀ (col : Nat) (g : Grid), g.WellFormed → row < g.rows → col + ms.length ≤ g.sampleCount →
      (∀ col', col ≤ col' → g.least col' = sentinel) → RuledRow policy row col ms g →
      ∀ m ∈ ms, m ≠ none := by
  induction ms with
  | nil => intro col g _ _ _ _ _ m hm; cases hm
  | cons m ms ih =>
      rintro col g hg hrow hlen hleast ⟨hfirst, hrest⟩ m' hm'
      rw [List.length_cons] at hlen
      have hcol : col < g.sampleCount := by omega
      rcases List.mem_cons.mp hm' with rfl | hmem
      · intro hnone
        have homits := hfirst.mp hnone
        cases policy with
        | exhaustive => exact homits
        | earlyExit tolerance => exact homits.1 (hleast col (Nat.le_refl _))
      · have hshape := sameShape_foldedIn g row col m
        refine ih (col + 1) _ (hg.foldedIn hrow hcol m) ?_ ?_ ?_ hrest m' hmem
        · rw [hshape.rows]
          exact hrow
        · rw [hshape.sampleCount]
          omega
        · intro col' hcol'
          rw [least_foldedIn hg hcol row m col', if_neg (by omega), hleast col' (by omega)]

/-- On an unmeasured grid the first pass leaves no sample out. -/
theorem Ledger.Ruled.first_pass {l : Ledger} {policy : Policy} (hl : l.Ruled policy)
    (hfresh : ∀ col, l.start.least col = sentinel) (hpos : 0 < l.measured.length) {i : Nat}
    (hi : i < l.start.sampleCount) : measuredAt l.measured 0 i ≠ none := by
  obtain ⟨start, measured⟩ := l
  cases measured with
  | nil => simp at hpos
  | cons ms mss =>
      obtain ⟨hstart, hroom, hlen, hrow, -⟩ := hl
      simp only [List.length_cons] at hroom hi hlen hrow
      have hmem : ms[i] ≠ none := RuledRow.ne_none ms 0 start hstart (by omega) (by omega)
        (fun col _ => hfresh col) hrow _ (List.getElem_mem (by omega))
      simpa [measuredAt, List.getElem?_eq_getElem (show i < ms.length by omega)] using hmem

/-! ## Whole calls -/

/-- **Early exit refines its rule.** On every grid that calls can lead to, passes under early exit
are passes that look at all minima before every sample and leave it out if its minimum is a
measurement within the tolerance of the smallest one: the two are the same computation on the state
of the bench and the trace of all that is done with it. So a sample that is left out of a pass keeps
its cell of the pass and its minimum, and the first pass over a new grid leaves no sample out. -/
theorem converge_earlyExit_by_rule {σ : Type} (bench : Bench (StateT σ Option))
    (tolerance : UInt64) (repeats : Nat) {g : Grid} (hg : g.Reachable) (inputs : List Input)
    (passes : Nat) :
    g.converge bench.traced (.earlyExit tolerance) inputs passes repeats =
        Except.map Ledger.final <$>
          g.ledger bench.traced (.earlyExit tolerance) inputs passes repeats ∧
      ∀ (s s' : σ) (trace trace' : List Bench.Action) (l : Ledger),
        g.ledger bench.traced (.earlyExit tolerance) inputs passes repeats (s, trace) =
          some (.ok l, (s', trace')) →
        (∀ j < passes, ∀ i < inputs.length, measuredAt l.measured j i = none →
          (∃ clocks, (l.gridAfter j).get (g.passes + j) i = .ok clocks ∧
            l.final.get (g.passes + j) i = .ok clocks) ∧
          ∃ least, (l.gridAfter j).minimum i = .ok least ∧
            (l.gridAfter (j + 1)).minimum i = .ok least) ∧
        ∀ rows, allocate inputs.length rows = .ok g → 0 < passes →
          ∀ i < inputs.length, measuredAt l.measured 0 i ≠ none := by
  have hwf := hg.wellFormed
  refine ⟨converge_eq_map_ledger bench.traced _ repeats hwf inputs passes, ?_⟩
  intro s s' trace trace' l hrun
  obtain ⟨hprep, hlen, hruled⟩ :=
    (ledger_ensures bench.traced _ repeats hwf inputs passes).of_eq_some hrun l rfl
  obtain ⟨⟨hcount, -⟩, hstart⟩ := (prepare_eq_ok_iff hwf).mp hprep
  have hpasses : l.start.passes = g.passes := by rw [hstart, extend_passes]
  have hcolumns : l.start.sampleCount = inputs.length := by
    rw [hstart, extend_sampleCount, hcount]
  constructor
  · intro j hj i hi hnone
    rw [← hlen] at hj
    rw [← hcolumns] at hi
    obtain ⟨hcell, hleast⟩ := hruled.kept hj hi hnone
    obtain ⟨hbefore, hcount₁, hrows₁, -⟩ := hruled.gridAfter (Nat.le_of_lt hj)
    obtain ⟨hafter, hcount₂, -⟩ := hruled.gridAfter (Nat.succ_le_of_lt hj)
    obtain ⟨hfinal, hcount₃, hrows₃, -⟩ := hruled.gridAfter (Nat.le_refl _)
    rw [← l.final_eq_gridAfter] at hfinal hcount₃ hrows₃
    have hroom := hruled.room
    rw [← hpasses]
    refine ⟨⟨_, get_eq hbefore (by omega) (by omega), ?_⟩, _, minimum_eq hbefore (by omega), ?_⟩
    · rw [get_eq hfinal (by omega) (by omega), hcell]
    · rw [minimum_eq hafter (by omega), hleast]
  · intro rows halloc hpos i hi
    obtain ⟨-, rfl⟩ := allocate_eq_ok_iff.mp halloc
    refine hruled.first_pass ?_ (by omega) (by omega)
    intro col
    rw [hstart, extend_least, least_blank]

/-- Three passes over two samples, of which one has a measurement recorded by hand. That sample is
left out of every pass and keeps its cell, and the other one is left out once it is fast enough. -/
theorem converge_earlyExit_by_rule_three_passes :
    ∃ l s' trace',
      ((blank 2 1).after [.record 0 1 7]).Reachable ∧
      ((blank 2 1).after [.record 0 1 7]).ledger (SimulatedClock.bench .comparison).total.traced
          (.earlyExit 3) [⟨1, 2, .uniform⟩, ⟨2, 1, .uniform⟩] 3 1 (.scripted 5 0 [4, 0], []) =
        some (.ok l, (s', trace')) ∧
      l.measured = [[some 12, none], [some 8, none], [none, none]] ∧
      ((blank 2 1).after [.record 0 1 7]).converge (SimulatedClock.bench .comparison).total.traced
          (.earlyExit 3) [⟨1, 2, .uniform⟩, ⟨2, 1, .uniform⟩] 3 1 (.scripted 5 0 [4, 0], []) =
        some (.ok l.final, (s', trace')) ∧
      (∃ clocks, (l.gridAfter 0).get 0 1 = .ok clocks ∧ l.final.get 0 1 = .ok clocks) ∧
      ∃ least, (l.gridAfter 2).minimum 0 = .ok least ∧ (l.gridAfter 3).minimum 0 = .ok least := by
  have hreach : ((blank 2 1).after [.record 0 1 7]).Reachable :=
    ⟨2, 1, blank 2 1, [.record 0 1 7], by decide, rfl⟩
  have hrun : ((blank 2 1).after [.record 0 1 7]).ledger
      (SimulatedClock.bench .comparison).total.traced (.earlyExit 3)
      [⟨1, 2, .uniform⟩, ⟨2, 1, .uniform⟩] 3 1 (.scripted 5 0 [4, 0], []) =
        some (.ok ⟨⟨#[sentinel, 7, sentinel, sentinel, sentinel, sentinel], #[sentinel, 7], 2, 3, 0⟩,
            [[some 12, none], [some 8, none], [none, none]]⟩,
          (⟨25, 0, some [4, 0], 2, 4, 2⟩,
            [.opened 5, .called 1 2, .closed 17, .opened 17, .called 1 2, .closed 25])) := by
    decide +kernel
  obtain ⟨heq, hkept⟩ := converge_earlyExit_by_rule (SimulatedClock.bench .comparison).total 3 1
    hreach [⟨1, 2, .uniform⟩, ⟨2, 1, .uniform⟩] 3
  obtain ⟨hkept, -⟩ := hkept _ _ _ _ _ hrun
  refine ⟨_, _, _, hreach, hrun, rfl, ?_, (hkept 0 (by decide) 1 (by decide) rfl).1,
    (hkept 2 (by decide) 0 (by decide) rfl).2⟩
  rw [heq, stateT_map, hrun]
  rfl

end TimingAudit.Grid
