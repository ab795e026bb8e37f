import TimingAudit.Bench.Simulated
import TimingAudit.Proofs.Bench.Trace
import TimingAudit.Proofs.Grid.EarlyExit
import TimingAudit.Proofs.Grid.Noise
import TimingAudit.Proofs.Lockstep

/-!
# Passes without noise

If every window of a sample lasts for as long as every other one, then the first pass over a new
grid finds the minima, and no later pass changes them. So under early exit all later passes are
alike: they measure the samples whose cost exceeds the smallest cost by more than the tolerance, and
leave out the others.

* `RuledRow.eq_later` : what a pass does once the minima are the costs;
* `Ledger.Ruled.final_minima` and `Ledger.Ruled.measured_eq` : the same for all passes;
* `converge_steady` : the result for a new grid, under early exit and without.
-/

namespace TimingAudit.Grid

open Bench (Action)

/-- Whatever a pass measured of a sample, from column `col` on, is the cost of the sample. -/
def AtCost (costs : List UInt64) (col : Nat) (ms : List (Option UInt64)) : Prop :=
  ∀ i clocks, ms[i]? = some (some clocks) → costs[col + i]? = some clocks

/-- Every window that passes on the grid measure of a sample, from a state of the bench on, lasts
for the cost of the sample. -/
def Steady {σ : Type} (g : Grid) (bench : Bench (StateM σ)) (policy : Policy) (inputs : List Input)
    (passes repeats : Nat) (costs : List UInt64) (s : σ) : Prop :=
  ∀ l s', g.ledger bench policy inputs passes repeats s = (.ok l, s') →
    ∀ ms ∈ l.measured, AtCost costs 0 ms

/-- The largest minimum that is left out, if the minima are the given costs. -/
def threshold (costs : List UInt64) (tolerance : UInt64) : Nat :=
  min ((costs.map UInt64.toNat).min?.getD sentinel.toNat + tolerance.toNat) (wordLimit - 1)

/-- What is measured of a sample of the given cost once the minima are known. -/
def later (costs : List UInt64) (tolerance cost : UInt64) : Option UInt64 :=
  if threshold costs tolerance < cost.toNat then some cost else none

variable {costs : List UInt64} {tolerance : UInt64}

/-! ## Steady benches -/

section Windows

variable {σ : Type} {bench : Bench (StateM σ)} {inputs : List Input} {repeats : Nat} {I : σ → Prop}

/-- A pass in states in which all windows are at cost. -/
theorem atCost_ledgerRow
    (hwindow : ∀ s, I s → ∀ i (hi : i < inputs.length),
      let w := bench.window inputs[i].a inputs[i].b repeats s
      I w.state ∧ costs[i]? = some (w.stop - w.start))
    (policy : Policy) {row : Nat} (xs : List Input) :
    ∀ (col : Nat) (g : Grid) (s : σ), inputs.drop col = xs → I s →
      I (ledgerRow bench policy repeats row xs col g s).2 ∧
        AtCost costs col (ledgerRow bench policy repeats row xs col g s).1 := by
  induction xs with
  | nil =>
      intro col g s _ hs
      exact ⟨hs, fun i clocks hi => by cases hi⟩
  | cons x xs ih =>
      intro col g s hxs hs
      have hcol : col < inputs.length := by
        have hlen := congrArg List.length hxs
        rw [List.length_drop, List.length_cons] at hlen
        omega
      rw [List.drop_eq_getElem_cons hcol, List.cons.injEq] at hxs
      obtain ⟨rfl, hxs⟩ := hxs
      rw [ledgerRow]
      by_cases homits : policy.Omits g col
      · rw [if_pos homits, stateM_map]
        obtain ⟨hstate, hcost⟩ := ih (col + 1) g s hxs hs
        refine ⟨hstate, ?_⟩
        rintro (_ | i) clocks hi
        · cases hi
        · rw [← Nat.add_assoc, Nat.add_right_comm]
          exact hcost i clocks hi
      · rw [if_neg homits, stateM_bind, bench.measure_eq_window, stateM_map]
        obtain ⟨hnext, hlength⟩ := hwindow s hs col hcol
        obtain ⟨hstate, hcost⟩ := ih (col + 1) (g.recorded row col _) _ hxs hnext
        refine ⟨hstate, ?_⟩
        rintro (_ | i) clocks hi
        · cases hi
          exact hlength
        · rw [← Nat.add_assoc, Nat.add_right_comm]
          exact hcost i clocks hi

/-- A bench is steady if its windows are at cost in all states that windows lead to. -/
theorem steady_of_windows
    (hwindow : ∀ s, I s → ∀ i (hi : i < inputs.length),
      let w := bench.window inputs[i].a inputs[i].b repeats s
      I w.state ∧ costs[i]? = some (w.stop - w.start))
    {s : σ} (hs : I s) (g : Grid) (policy : Policy) (passes : Nat) :
    g.Steady bench policy inputs passes repeats costs s := by
  have hpasses : ∀ (n : Nat) (g : Grid) (s : σ), I s →
      ∀ ms ∈ (ledgerPasses bench policy repeats inputs n g s).1, AtCost costs 0 ms := by
    intro n
    induction n with
    | zero => intro g s _ ms hms; cases hms
    | succ n ih =>
        intro g s hs
        obtain ⟨hstate, hcost⟩ := atCost_ledgerRow hwindow policy inputs 0 g s rfl hs
        rw [ledgerPasses, stateM_bind, stateM_map]
        exact List.forall_mem_cons.mpr ⟨hcost, ih _ _ hstate⟩
  intro l s' hl
  cases hprep : g.prepare inputs.length passes with
  | error f =>
      rw [ledger_of_prepare_error bench policy repeats hprep] at hl
      cases hl
  | ok g₁ =>
      rw [ledger_of_prepare_ok bench policy repeats hprep, stateM_map] at hl
      cases hl
      exact hpasses passes g₁ s hs

end Windows

/-- A window on a clock without a script lasts for one step and for its calls. -/
theorem window_stepping (cost : CallCost) (a b : Int64) (repeats : Nat) {c : SimulatedClock}
    (hscript : c.script = none) :
    let w := (SimulatedClock.bench cost).window a b repeats c
    w.stop = w.start + (c.step + UInt64.ofNat repeats * cost.ticks a b) ∧
      w.state.step = c.step ∧ w.state.script = none := by
  have hclosing : ∀ c' : SimulatedClock, c'.script = none →
      (SimulatedClock.bench cost).closing c' = c'.opening := by
    intro c' hc'
    show c'.closing = _
    rw [SimulatedClock.closing, hc']
  have hopening : (SimulatedClock.bench cost).opening c = c.opening := rfl
  simp only [Bench.window, hopening, SimulatedClock.opening, SimulatedClock.calledTimes_bench]
  rw [hclosing]
  · exact ⟨UInt64.add_assoc _ _ _, rfl, hscript⟩
  · exact hscript

/-- A clock without a script is steady. -/
theorem steady_stepping (cost : CallCost) (inputs : List Input) (repeats : Nat)
    (start step : UInt64) (g : Grid) (policy : Policy) (passes : Nat) :
    g.Steady (SimulatedClock.bench cost) policy inputs passes repeats
      (inputs.map fun x => step + UInt64.ofNat repeats * cost.ticks x.a x.b)
      (.stepping start step) := by
  refine steady_of_windows (I := fun c => c.step = step ∧ c.script = none) ?_ ⟨rfl, rfl⟩ g policy
    passes
  rintro c ⟨rfl, hscript⟩ i hi
  obtain ⟨hstop, hstep, hscript'⟩ :=
    window_stepping cost inputs[i].a inputs[i].b repeats hscript
  refine ⟨⟨hstep, hscript'⟩, ?_⟩
  rw [List.getElem?_map, List.getElem?_eq_getElem hi, Option.map_some, hstop,
    UInt64.add_comm (Bench.Window.start _), UInt64.add_sub_cancel]

/-! ## Minima that are the costs -/

theorem AtCost.tail {col : Nat} {m : Option UInt64} {ms : List (Option UInt64)}
    (h : AtCost costs col (m :: ms)) : AtCost costs (col + 1) ms := by
  intro i clocks hi
  have hcost := h (i + 1) clocks (by rw [List.getElem?_cons_succ, hi])
  rwa [Nat.add_assoc, Nat.add_comm 1 i]

/-- A measurement at cost does not change minima that are the costs. -/
theorem minima_foldedIn {g : Grid} (hminima : g.minima = costs.toArray) {col : Nat}
    {m : Option UInt64} (hm : ∀ clocks, m = some clocks → costs[col]? = some clocks) (row : Nat) :
    (g.foldedIn row col m).minima = costs.toArray := by
  cases m with
  | none => exact hminima
  | some clocks =>
      obtain ⟨hcol, hcost⟩ := List.getElem?_eq_some_iff.mp (hm clocks rfl)
      have hleast : g.least col = clocks := by
        rw [least, hminima, Array.getD_eq_getD_getElem?, List.getElem?_toArray, hm clocks rfl,
          Option.getD_some]
      have hmin : min clocks clocks = clocks := by
        rw [← UInt64.toNat_inj, toNat_min, Nat.min_self]
      show g.minima.setIfInBounds col (min (g.least col) clocks) = costs.toArray
      rw [hleast, hmin, hminima, List.setIfInBounds_toArray, ← hcost, List.set_getElem_self]

/-- A pass at cost does not change minima that are the costs. -/
theorem minima_recordedRow {row : Nat} (ms : List (Option UInt64)) : ∀ (col : Nat) (g : Grid),
    g.minima = costs.toArray → AtCost costs col ms →
    (recordedRow row col ms g).minima = costs.toArray := by
  induction ms with
  | nil =>
      intro col g hminima _
      exact hminima
  | cons m ms ih =>
      intro col g hminima hcost
      exact ih (col + 1) _ (minima_foldedIn hminima (fun clocks hm => hcost 0 clocks (by simp [hm]))
        row) hcost.tail

/-- Neither do several passes. -/
theorem minima_recordedPasses (mss : List (List (Option UInt64))) : ∀ g : Grid,
    g.minima = costs.toArray → (∀ ms ∈ mss, AtCost costs 0 ms) →
    (recordedPasses mss g).minima = costs.toArray := by
  induction mss with
  | nil =>
      intro g hminima _
      exact hminima
  | cons ms mss ih =>
      intro g hminima hcost
      obtain ⟨hfirst, hrest⟩ := List.forall_mem_cons.mp hcost
      exact ih _ (minima_recordedRow ms 0 g hminima hfirst) hrest

/-- The rule of early exit, if the minima are the costs. -/
theorem omits_iff {g : Grid} (hminima : g.minima = costs.toArray) {col : Nat}
    (hcol : col < costs.length) :
    (Policy.earlyExit tolerance).Omits g col ↔
      costs[col] ≠ sentinel ∧ costs[col].toNat ≤ threshold costs tolerance := by
  have hleast : g.least col = costs[col] := by
    rw [least, hminima, Array.getD_eq_getD_getElem?, List.getElem?_toArray,
      List.getElem?_eq_getElem hcol, Option.getD_some]
  simp only [Policy.Omits, hleast, smallest, hminima, threshold]

/-- **One later pass.** Once the minima are the costs, a pass under early exit measures exactly the
samples whose cost exceeds the threshold. -/
theorem RuledRow.eq_later (hcosts : ∀ c ∈ costs, c ≠ sentinel) {row : Nat}
    (ms : List (Option UInt64)) : ∀ (col : Nat) (g : Grid), g.minima = costs.toArray →
      col + ms.length = costs.length → RuledRow (.earlyExit tolerance) row col ms g →
      AtCost costs col ms → ms = (costs.drop col).map (later costs tolerance) := by
  induction ms with
  | nil =>
      intro col g _ hlen _ _
      rw [List.drop_eq_nil_of_le (by simpa using Nat.le_of_eq hlen.symm)]
      rfl
  | cons m ms ih =>
      rintro col g hminima hlen ⟨hfirst, hrest⟩ hcost
      rw [List.length_cons] at hlen
      have hcol : col < costs.length := by omega
      have hm : ∀ clocks, m = some clocks → costs[col]? = some clocks :=
        fun clocks hm => hcost 0 clocks (by simp [hm])
      rw [List.drop_eq_getElem_cons hcol, List.map_cons,
        ← ih (col + 1) _ (minima_foldedIn hminima hm row) (by omega) hrest hcost.tail]
      congr 1
      rw [omits_iff hminima hcol] at hfirst
      have hne := hcosts _ (List.getElem_mem hcol)
      unfold later
      cases m with
      | none =>
          have hle := (hfirst.mp rfl).2
          rw [if_neg (by omega)]
      | some clocks =>
          have hclocks := hm clocks rfl
          rw [List.getElem?_eq_getElem hcol, Option.some.injEq] at hclocks
          have hlt : threshold costs tolerance < costs[col].toNat := by
            by_contra hle
            have hnone := hfirst.mpr ⟨hne, by omega⟩
            cases hnone
          rw [if_pos hlt, hclocks]

/-- **All later passes** are alike. -/
theorem RuledPasses.eq_later (hcosts : ∀ c ∈ costs, c ≠ sentinel)
    (mss : List (List (Option UInt64))) : ∀ g : Grid, g.minima = costs.toArray →
      g.sampleCount = costs.length → RuledPasses (.earlyExit tolerance) mss g →
      (∀ ms ∈ mss, AtCost costs 0 ms) →
      mss = List.replicate mss.length (costs.map (later costs tolerance)) := by
  induction mss with
  | nil =>
      intro g _ _ _ _
      rfl
  | cons ms mss ih =>
      rintro g hminima hcount ⟨hlen, hrow, hrest⟩ hcost
      obtain ⟨hfirst, hothers⟩ := List.forall_mem_cons.mp hcost
      have hms := RuledRow.eq_later hcosts ms 0 g hminima (by omega) hrow hfirst
      have hshape := sameShape_recordedRow g.passes ms 0 g
      have hmss := ih (recordedRow g.passes 0 ms g).nextPass
        (minima_recordedRow ms 0 g hminima hfirst)
        (by rw [nextPass_sampleCount, hshape.sampleCount, hcount]) hrest hothers
      rw [List.drop_zero] at hms
      rw [List.length_cons, List.replicate_succ, ← hmss, ← hms]

/-! ## The first pass -/

/-- A pass that leaves no sample out measures all costs. -/
theorem AtCost.eq_map_some {ms : List (Option UInt64)} (h : AtCost costs 0 ms)
    (hlen : ms.length = costs.length) (hsome : ∀ m ∈ ms, m ≠ none) : ms = costs.map some := by
  apply List.ext_getElem (by rw [hlen, List.length_map])
  intro i hi hi'
  obtain ⟨clocks, hclocks⟩ := Option.ne_none_iff_exists'.mp (hsome ms[i] (List.getElem_mem hi))
  have hcost := h i clocks (by rw [List.getElem?_eq_getElem hi, hclocks])
  rw [Nat.zero_add] at hcost
  rw [List.getElem_map, hclocks, ← hcost, List.getElem?_eq_getElem]

/-- On an unmeasured grid a pass that measures all costs makes the costs the minima. -/
theorem minima_of_unmeasured {g : Grid} (hg : g.WellFormed) (hcount : g.sampleCount = costs.length)
    (hfresh : ∀ col, g.least col = sentinel) {row : Nat} (hrow : row < g.rows) :
    (recordedRow row 0 (costs.map some) g).minima = costs.toArray := by
  have hlen : 0 + (costs.map some).length ≤ g.sampleCount := by
    rw [List.length_map, hcount]
    omega
  have hg' := WellFormed.recordedRow (costs.map some) 0 g hg hrow hlen
  have hsize : (recordedRow row 0 (costs.map some) g).minima.size = costs.length := by
    rw [hg'.minima_size, (sameShape_recordedRow row (costs.map some) 0 g).sampleCount, hcount]
  apply Array.ext
  · rw [hsize, List.size_toArray]
  · intro i hi hi'
    rw [List.size_toArray] at hi'
    have hleast := least_recordedRow (costs.map some) 0 g hg hrow hlen i
    rw [if_pos (Nat.zero_le i), hfresh, Nat.sub_zero, List.getElem?_map,
      List.getElem?_eq_getElem hi', Option.map_some, Option.join_some, lowered_sentinel, least,
      Array.getD_eq_getD_getElem?, Array.getElem?_eq_getElem hi, Option.getD_some] at hleast
    rw [hleast, List.getElem_toArray]

namespace Ledger.Ruled

variable {l : Ledger} {policy : Policy}

/-- The passes of a ledger on an unmeasured grid, if all that they measured was at cost: the first
one measured all costs. -/
theorem measured_eq_cons (hl : l.Ruled policy) (hcount : l.start.sampleCount = costs.length)
    (hfresh : ∀ col, l.start.least col = sentinel) (hcost : ∀ ms ∈ l.measured, AtCost costs 0 ms)
    (hpos : 0 < l.measured.length) :
    ∃ mss, l.measured = costs.map some :: mss ∧
      (recordedRow l.start.passes 0 (costs.map some) l.start).nextPass.minima = costs.toArray ∧
      RuledPasses policy mss (recordedRow l.start.passes 0 (costs.map some) l.start).nextPass := by
  obtain ⟨start, measured⟩ := l
  obtain ⟨hstart, hroom, hpasses⟩ := hl
  cases measured with
  | nil => simp at hpos
  | cons ms mss =>
      obtain ⟨hlen, hrow, hrest⟩ := hpasses
      simp only [List.length_cons] at hroom hcount hfresh hlen hrow hrest ⊢
      have hfirst : start.passes < start.rows := by omega
      have hsome := RuledRow.ne_none ms 0 start hstart hfirst (by omega)
        (fun col _ => hfresh col) hrow
      have hms := AtCost.eq_map_some (hcost ms List.mem_cons_self) (by omega) hsome
      subst hms
      exact ⟨mss, rfl, minima_of_unmeasured hstart hcount hfresh hfirst, hrest⟩

/-- The minima after one pass or more are the costs. -/
theorem final_minima (hl : l.Ruled policy) (hcount : l.start.sampleCount = costs.length)
    (hfresh : ∀ col, l.start.least col = sentinel) (hcost : ∀ ms ∈ l.measured, AtCost costs 0 ms)
    (hpos : 0 < l.measured.length) : l.final.minima = costs.toArray := by
  obtain ⟨mss, hmss, hminima, -⟩ := hl.measured_eq_cons hcount hfresh hcost hpos
  rw [hmss] at hcost
  rw [Ledger.final, hmss]
  exact minima_recordedPasses mss _ hminima (List.forall_mem_cons.mp hcost).2

/-- Under early exit all passes but the first one are alike. -/
theorem measured_eq (hl : l.Ruled (.earlyExit tolerance)) (hcosts : ∀ c ∈ costs, c ≠ sentinel)
    (hcount : l.start.sampleCount = costs.length) (hfresh : ∀ col, l.start.least col = sentinel)
    (hcost : ∀ ms ∈ l.measured, AtCost costs 0 ms) {p : Nat} (hp : 1 ≤ p)
    (hlen : l.measured.length = p) :
    l.measured =
      costs.map some :: List.replicate (p - 1) (costs.map (later costs tolerance)) := by
  obtain ⟨mss, hmss, hminima, hrest⟩ := hl.measured_eq_cons hcount hfresh hcost (by omega)
  have hshape := sameShape_recordedRow l.start.passes (costs.map some) 0 l.start
  rw [hmss] at hcost
  have hlater := RuledPasses.eq_later hcosts mss _ hminima
    (by rw [nextPass_sampleCount, hshape.sampleCount, hcount]) hrest (List.forall_mem_cons.mp hcost).2
  rw [← hlen, hmss, List.length_cons, Nat.add_sub_cancel, ← hlater]

/-- A row of the grid that passes on an unmeasured one lead to, if the pass measured some of the
costs. -/
theorem row_final (hl : l.Ruled policy) (hcount : l.start.sampleCount = costs.length)
    (hpasses : l.start.passes = 0) (hblank : ∀ row col, l.start.cell row col = sentinel)
    {j : Nat} (hj : j < l.measured.length) {f : UInt64 → Option UInt64}
    (hmeasured : l.measured[j] = costs.map f) :
    l.final.row j = .ok (costs.map fun c => (f c).getD sentinel) := by
  obtain ⟨hfinal, hcount', hrows, -⟩ := hl.gridAfter (Nat.le_refl _)
  have hroom := hl.room
  rw [← l.final_eq_gridAfter] at hfinal hcount' hrows
  rw [row_eq hfinal (by omega), hcount', hcount]
  congr 1
  apply List.ext_getElem (by simp)
  intro i hi hi'
  rw [List.length_map] at hi'
  rw [List.getElem_map, List.getElem_map, List.getElem_range, l.final_eq_gridAfter,
    hl.cell_gridAfter (Nat.le_refl _) j (by omega), if_pos (by omega), hblank, hpasses,
    Nat.sub_zero, List.take_length, measuredAt, List.getElem?_eq_getElem hj, Option.bind_some,
    hmeasured, List.getElem?_map, List.getElem?_eq_getElem hi', Option.map_some, Option.join_some]
  cases f costs[i] with
  | none => rfl
  | some clocks => exact lowered_sentinel clocks

end Ledger.Ruled

/-! ## Counting the calls -/

section Calls

variable {σ : Type} (bench : Bench (StateM σ)) (policy : Policy) (repeats : Nat)

/-- A pass calls the function under audit `repeats` times for every sample that it measures. -/
theorem calls_ledgerRow {row : Nat} (xs : List Input) :
    ∀ (col : Nat) (g : Grid) (s : σ) (trace : List Action),
      let r := ledgerRow bench.traced policy repeats row xs col g (s, trace)
      ∃ t, r.2.2 = trace ++ t ∧ (Action.calls t).length = repeats * r.1.countP Option.isSome := by
  induction xs with
  | nil =>
      intro col g s trace
      exact ⟨[], (List.append_nil _).symm, rfl⟩
  | cons x xs ih =>
      intro col g s trace
      rw [ledgerRow]
      by_cases homits : policy.Omits g col
      · rw [if_pos homits]
        obtain ⟨t, htrace, hcalls⟩ := ih (col + 1) g s trace
        exact ⟨t, htrace, by rw [hcalls]; rfl⟩
      · rw [if_neg homits, stateM_bind, Bench.measure_traced]
        set w := bench.window x.a x.b repeats s
        obtain ⟨t, htrace, hcalls⟩ := ih (col + 1) (g.recorded row col (w.stop - w.start)) w.state
          (trace ++ Bench.windowTrace x.a x.b repeats w.start w.stop)
        refine ⟨Bench.windowTrace x.a x.b repeats w.start w.stop ++ t, ?_, ?_⟩
        · rw [← List.append_assoc]
          exact htrace
        · rw [Action.calls_append, Bench.calls_windowTrace, List.length_append,
            List.length_replicate, hcalls]
          show _ = repeats * (List.countP Option.isSome (some _ :: _))
          rw [List.countP_cons_of_pos rfl, Nat.mul_succ, Nat.add_comm]

/-- Several passes. -/
theorem calls_ledgerPasses (inputs : List Input) (n : Nat) :
    ∀ (g : Grid) (s : σ) (trace : List Action),
      let r := ledgerPasses bench.traced policy repeats inputs n g (s, trace)
      ∃ t, r.2.2 = trace ++ t ∧
        (Action.calls t).length = repeats * r.1.flatten.countP Option.isSome := by
  induction n with
  | zero =>
      intro g s trace
      exact ⟨[], (List.append_nil _).symm, rfl⟩
  | succ n ih =>
      intro g s trace
      rw [ledgerPasses, stateM_bind]
      obtain ⟨t₁, htrace₁, hcalls₁⟩ := calls_ledgerRow bench policy repeats inputs 0 g s trace
      set r₁ := ledgerRow bench.traced policy repeats g.passes inputs 0 g (s, trace)
      obtain ⟨t₂, htrace₂, hcalls₂⟩ := ih (recordedRow g.passes 0 r₁.1 g).nextPass r₁.2.1 r₁.2.2
      refine ⟨t₁ ++ t₂, ?_, ?_⟩
      · rw [← List.append_assoc, ← htrace₁]
        exact htrace₂
      · rw [Action.calls_append, List.length_append, hcalls₁, hcalls₂, ← Nat.mul_add,
          ← List.countP_append]
        rfl

end Calls

/-! ## Whole calls -/

/-- A call on a new grid with room for its passes, on a steady bench: it succeeds, the passes of its
ledger measure at cost, and the calls are those of the samples that the ledger shows measured. -/
theorem converge_of_steady {σ : Type} {bench : Bench (StateM σ)} {policy : Policy}
    {inputs : List Input} {p repeats rows : Nat} {s : σ} {g : Grid}
    (halloc : allocate inputs.length rows = .ok g) (hword : p < wordLimit)
    (hfits : Store.cells.Fits (p * inputs.length))
    (hsteady : g.Steady bench policy inputs p repeats costs s) :
    ∃ (l : Ledger) (s' : σ) (t : List Action) (k : Nat),
      g.converge bench.traced policy inputs p repeats (s, []) = (.ok l.final, (s', t)) ∧
      l.Ruled policy ∧ l.measured.length = p ∧ l.start = (blank inputs.length rows).extend k ∧
      (∀ ms ∈ l.measured, AtCost costs 0 ms) ∧
      (Action.calls t).length = repeats * l.measured.flatten.countP Option.isSome := by
  have hg := wellFormed_of_allocate halloc
  obtain ⟨g₁, hprep, -⟩ := prepare_of_allocate halloc hword hfits
  obtain ⟨t, htrace, hcalls⟩ := calls_ledgerPasses bench policy repeats inputs p g₁ s []
  set r := ledgerPasses bench.traced policy repeats inputs p g₁ (s, [])
  have hledger : g.ledger bench.traced policy inputs p repeats (s, []) = (.ok ⟨g₁, r.1⟩, r.2) := by
    rw [ledger_of_prepare_ok bench.traced policy repeats hprep, stateM_map]
  obtain ⟨-, hlen, hruled⟩ := (ledger_ensures bench.traced policy repeats hg inputs p).of_stateM
    (s, []) ⟨g₁, r.1⟩ (by rw [hledger])
  obtain ⟨-, hstart⟩ := (prepare_eq_ok_iff hg).mp hprep
  obtain ⟨-, rfl⟩ := allocate_eq_ok_iff.mp halloc
  refine ⟨⟨g₁, r.1⟩, r.2.1, r.2.2, _, ?_, hruled, hlen, hstart, ?_, ?_⟩
  · rw [converge_eq_map_ledger bench.traced policy repeats hg, stateM_map, hledger]
    rfl
  · -- Without the trace the bench answers the same.
    obtain ⟨hvalue, -⟩ := Lockstep.ledger (Lockstep.untraced_windows bench) policy repeats inputs p
      (blank inputs.length rows) s []
    rw [hledger] at hvalue
    exact hsteady _ _ (Prod.ext hvalue.symm rfl)
  · rw [htrace, List.nil_append, hcalls]

/-- **Early exit has no effect without noise.** Let every window of a sample last for the same number
of ticks, below the sentinel, under early exit and under exhaustive passes. Then either kind of
passes over a new grid, if there is at least one, finds these numbers as the minima. Under early
exit the first row holds all of them, and every later row those above the threshold, which is the
smallest of them with the tolerance added; and the function under audit is called for these samples
only. -/
theorem converge_steady {σ : Type} (bench : Bench (StateM σ)) {p repeats rows : Nat}
    (inputs : List Input) (costs : List UInt64) (tolerance : UInt64) (s : σ) {g : Grid}
    (halloc : allocate inputs.length rows = .ok g) (hp : 1 ≤ p) (hword : p < wordLimit)
    (hfits : Store.cells.Fits (p * inputs.length)) (hlen : costs.length = inputs.length)
    (hcosts : ∀ c ∈ costs, c ≠ sentinel)
    (hearly : g.Steady bench (.earlyExit tolerance) inputs p repeats costs s)
    (hexhaustive : g.Steady bench .exhaustive inputs p repeats costs s) :
    ∃ g₁ s₁ t₁ g₂ s₂ t₂,
      g.converge bench.traced (.earlyExit tolerance) inputs p repeats (s, []) =
        (.ok g₁, (s₁, t₁)) ∧
      g.converge bench.traced .exhaustive inputs p repeats (s, []) = (.ok g₂, (s₂, t₂)) ∧
      g₁.minima = costs.toArray ∧ g₂.minima = costs.toArray ∧
      g₁.row 0 = .ok costs ∧
      (∀ j, 1 ≤ j → j < p → g₁.row j =
        .ok (costs.map fun c => if threshold costs tolerance < c.toNat then c else sentinel)) ∧
      (Action.calls t₁).length = repeats * (inputs.length + (p - 1) *
        costs.countP fun c => threshold costs tolerance < c.toNat) := by
  obtain ⟨l₁, s₁, t₁, k₁, hrun₁, hruled₁, hlen₁, hstart₁, hcost₁, hcalls⟩ :=
    converge_of_steady halloc hword hfits hearly
  obtain ⟨l₂, s₂, t₂, k₂, hrun₂, hruled₂, hlen₂, hstart₂, hcost₂, -⟩ :=
    converge_of_steady halloc hword hfits hexhaustive
  have hcount₁ : l₁.start.sampleCount = costs.length := by rw [hstart₁, hlen]; rfl
  have hcount₂ : l₂.start.sampleCount = costs.length := by rw [hstart₂, hlen]; rfl
  have hfresh₁ : ∀ col, l₁.start.least col = sentinel := by simp [hstart₁]
  have hfresh₂ : ∀ col, l₂.start.least col = sentinel := by simp [hstart₂]
  have hpasses₁ : l₁.start.passes = 0 := by rw [hstart₁]; rfl
  have hblank₁ : ∀ row col, l₁.start.cell row col = sentinel := by simp [hstart₁]
  have hmeasured := hruled₁.measured_eq hcosts hcount₁ hfresh₁ hcost₁ hp hlen₁
  refine ⟨l₁.final, s₁, t₁, l₂.final, s₂, t₂, hrun₁, hrun₂,
    hruled₁.final_minima hcount₁ hfresh₁ hcost₁ (by omega),
    hruled₂.final_minima hcount₂ hfresh₂ hcost₂ (by omega), ?_, ?_, ?_⟩
  · have hfirst : l₁.measured[0] = costs.map some := by simp only [hmeasured, List.getElem_cons_zero]
    rw [hruled₁.row_final hcount₁ hpasses₁ hblank₁ (by omega) hfirst]
    simp
  · intro j hj hjp
    have hlater : l₁.measured[j] = costs.map (later costs tolerance) := by
      obtain ⟨j, rfl⟩ := Nat.exists_eq_add_of_le' hj
      simp only [hmeasured, List.getElem_cons_succ, List.getElem_replicate]
    rw [hruled₁.row_final hcount₁ hpasses₁ hblank₁ (by omega) hlater]
    congr 2
    funext c
    rw [later]
    split <;> rfl
  · have hsome : (costs.map some).countP Option.isSome = inputs.length := by
      rw [← hlen, List.countP_map]
      simp
    have hlater : (costs.map (later costs tolerance)).countP Option.isSome =
        costs.countP fun c => threshold costs tolerance < c.toNat := by
      rw [List.countP_map]
      congr 1
      funext c
      simp only [Function.comp_apply, later]
      split <;> simp_all
    rw [hcalls, hmeasured, List.flatten_cons, List.countP_append, List.countP_flatten,
      List.map_replicate, List.sum_replicate_nat, hsome, hlater]

/-- Three passes over three inputs with two calls in a window, on a clock that moves by one tick at
every read: only the first input is measured again. -/
theorem converge_steady_three_passes :
    allocate 3 1 = .ok (blank 3 1) ∧ Store.cells.Fits (3 * 3) ∧ threshold [17, 3, 3] 5 = 8 ∧
      ∃ g₁ s₁ t₁ g₂ s₂ t₂,
        (blank 3 1).converge (SimulatedClock.bench .comparison).traced (.earlyExit 5)
            [⟨1, 2, .uniform⟩, ⟨2, 1, .uniform⟩, ⟨3, 1, .uniform⟩] 3 2 (.stepping 7 1, []) =
          (.ok g₁, (s₁, t₁)) ∧
        (blank 3 1).converge (SimulatedClock.bench .comparison).traced .exhaustive
            [⟨1, 2, .uniform⟩, ⟨2, 1, .uniform⟩, ⟨3, 1, .uniform⟩] 3 2 (.stepping 7 1, []) =
          (.ok g₂, (s₂, t₂)) ∧
        g₁.minima = #[17, 3, 3] ∧ g₂.minima = #[17, 3, 3] ∧ g₁.row 0 = .ok [17, 3, 3] ∧
        g₁.row 2 = .ok [17, sentinel, sentinel] ∧
        (Action.calls t₁).length = 2 * (3 + (3 - 1) * 1) := by
  have halloc : allocate 3 1 = .ok (blank 3 1) := by decide
  have hfits : Store.cells.Fits (3 * 3) := by decide
  have hcosts : ∀ c ∈ ([17, 3, 3] : List UInt64), c ≠ sentinel := by
    rintro c hc rfl
    revert hc
    decide
  obtain ⟨g₁, s₁, t₁, g₂, s₂, t₂, hrun₁, hrun₂, hminima₁, hminima₂, hfirst, hlater, hcalls⟩ :=
    converge_steady (SimulatedClock.bench .comparison)
      [⟨1, 2, .uniform⟩, ⟨2, 1, .uniform⟩, ⟨3, 1, .uniform⟩] [17, 3, 3] 5 (.stepping 7 1) halloc
      (show 1 ≤ 3 by decide) (by decide) hfits rfl hcosts
      (steady_stepping .comparison _ 2 7 1 _ _ _) (steady_stepping .comparison _ 2 7 1 _ _ _)
  exact ⟨halloc, hfits, by decide, g₁, s₁, t₁, g₂, s₂, t₂, hrun₁, hrun₂, hminima₁, hminima₂, hfirst,
    hlater 2 (by decide) (by decide), hcalls⟩

end TimingAudit.Grid
