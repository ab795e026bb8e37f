import TimingAudit.Bench.Simulated
import TimingAudit.Proofs.Bench.Trace
import TimingAudit.Proofs.Grid.Measured

/-!
# Passes over a noisy bench

On a noisy bench the windows of an input cost a number of ticks that depends on the input, and more
that depends on when the window is measured. Exhaustive passes give the `k`-th window to the sample
and the pass that it belongs to: with `n` inputs, window `j * n + i` is that of input `i` in pass
`j`. So every cell holds the cost of its input with the noise of its own window, and the minimum of
a sample is its cost with the least noise of its windows.

* `sweep_noisy` and `runPasses_noisy` follow the windows through a pass and through all passes;
* `converge_noisy` is the result for a new grid.
-/

namespace TimingAudit

variable {σ : Type}

namespace Bench

/-- The states that `k` windows on the given inputs lead to, from a state `s` on. -/
inductive AfterWindows (bench : Bench (StateM σ)) (repeats : Nat) (inputs : List Input) (s : σ) :
    Nat → σ → Prop
  | start : AfterWindows bench repeats inputs s 0 s
  | next {k : Nat} {s' : σ} {x : Input} (h : AfterWindows bench repeats inputs s k s')
      (hx : x ∈ inputs) :
      AfterWindows bench repeats inputs s (k + 1) (bench.window x.a x.b repeats s').state

/-- After `k` windows, for any `k` below the limit, the next window of an input closes `cost` of the
input and `noise k` ticks later than it was opened. -/
def Noisy (bench : Bench (StateM σ)) (repeats : Nat) (inputs : List Input)
    (cost : Int64 → Int64 → Nat) (noise : Nat → Nat) (limit : Nat) (s : σ) : Prop :=
  ∀ k < limit, ∀ s', bench.AfterWindows repeats inputs s k s' → ∀ x ∈ inputs,
    (bench.window x.a x.b repeats s').stop =
      (bench.window x.a x.b repeats s').start + UInt64.ofNat (cost x.a x.b + noise k)

end Bench

/-! ## The scripted clock -/

namespace SimulatedClock

/-- Calls move the clock by their ticks and are counted. -/
theorem calledTimes_bench (cost : CallCost) (a b : Int64) (count : Nat) (c : SimulatedClock) :
    (bench cost).calledTimes a b count c =
      { c with
        now := c.now + UInt64.ofNat count * cost.ticks a b
        calls := c.calls + count } := by
  induction count generalizing c with
  | zero => simp [Bench.calledTimes]
  | succ count ih =>
      have hstep : (bench cost).calledTimes a b (count + 1) c =
          (bench cost).calledTimes a b count (c.call (cost.ticks a b)) := rfl
      rw [hstep, ih, call]
      simp only [UInt64.ofNat_add, UInt64.add_mul, mk.injEq, true_and]
      refine ⟨?_, by omega⟩
      rw [UInt64.add_assoc, UInt64.add_comm (cost.ticks a b)]
      congr 2
      exact (UInt64.one_mul _).symm

/-- A window on a clock that moves only by its script and by calls. It uses up one entry of the
script, and leaves the script and the step as they are. -/
theorem window_scripted (cost : CallCost) (a b : Int64) (repeats : Nat) {c : SimulatedClock}
    {script : List UInt64} (hstep : c.step = 0) (hscript : c.script = some script) :
    let w := (bench cost).window a b repeats c
    w.stop = w.start + (UInt64.ofNat repeats * cost.ticks a b + scriptTicks script c.closings) ∧
      w.state.step = 0 ∧ w.state.script = some script ∧ w.state.closings = c.closings + 1 := by
  have hopening : (bench cost).opening c =
      (c.now, { c with now := c.now + 0, reads := c.reads + 1 }) := by
    rw [← hstep]
    rfl
  have hclosing : ∀ c' : SimulatedClock, c'.script = some script → (bench cost).closing c' =
      (c'.now + scriptTicks script c'.closings,
        { c' with
          now := c'.now + scriptTicks script c'.closings
          closings := c'.closings + 1
          reads := c'.reads + 1 }) := by
    intro c' hc'
    show c'.closing = _
    rw [closing, hc']
  rw [Bench.window, hopening]
  simp only [calledTimes_bench]
  rw [hclosing]
  · refine ⟨?_, hstep, hscript, rfl⟩
    simp only [UInt64.add_zero, UInt64.add_assoc]
  · exact hscript

/-- Such a clock is a noisy bench: its script is the noise. -/
theorem noisy_scripted (cost : CallCost) (repeats : Nat) (inputs : List Input) (limit : Nat)
    (start : UInt64) (script : List UInt64) :
    (bench cost).Noisy repeats inputs
      (fun a b => (UInt64.ofNat repeats * cost.ticks a b).toNat)
      (fun k => (scriptTicks script k).toNat) limit (scripted start 0 script) := by
  intro k hk c hc
  clear hk
  have hclock : c.step = 0 ∧ c.script = some script ∧ c.closings = k := by
    induction hc with
    | start => exact ⟨rfl, rfl, rfl⟩
    | @next k c x _ _ ih =>
        obtain ⟨hstep, hscript, rfl⟩ := ih
        exact (window_scripted cost x.a x.b repeats hstep hscript).2
  obtain ⟨hstep, hscript, rfl⟩ := hclock
  intro x _
  rw [(window_scripted cost x.a x.b repeats hstep hscript).1, UInt64.ofNat_add, UInt64.ofNat_toNat,
    UInt64.ofNat_toNat]

end SimulatedClock

namespace Grid

open Bench (Action)

/-- The tick counts of the windows of some inputs, the first of them being window `k`. -/
def noisyRow (cost : Int64 → Int64 → Nat) (noise : Nat → Nat) (xs : List Input) (k : Nat) :
    List (Option UInt64) :=
  (xs.zipIdx k).map fun (x, k) => some (UInt64.ofNat (cost x.a x.b + noise k))

/-- The tick counts of `n` passes over some inputs, the first of them beginning with window `k`. -/
def noisyPasses (cost : Int64 → Int64 → Nat) (noise : Nat → Nat) (inputs : List Input) (k n : Nat) :
    List (List (Option UInt64)) :=
  (List.range n).map fun j => noisyRow cost noise inputs (k + j * inputs.length)

section Counts

variable (cost : Int64 → Int64 → Nat) (noise : Nat → Nat)

@[simp] theorem length_noisyRow (xs : List Input) (k : Nat) :
    (noisyRow cost noise xs k).length = xs.length := by
  simp [noisyRow]

@[simp] theorem length_noisyPasses (inputs : List Input) (k n : Nat) :
    (noisyPasses cost noise inputs k n).length = n := by
  simp [noisyPasses]

/-- Every pass measures every sample. -/
theorem length_of_mem_noisyPasses {inputs : List Input} {k n : Nat} {ms : List (Option UInt64)}
    (h : ms ∈ noisyPasses cost noise inputs k n) : ms.length = inputs.length := by
  obtain ⟨j, -, rfl⟩ := List.mem_map.mp h
  exact length_noisyRow ..

/-- The first pass of several, and the others. -/
theorem noisyPasses_succ (inputs : List Input) (k n : Nat) :
    noisyPasses cost noise inputs k (n + 1) =
      noisyRow cost noise inputs k :: noisyPasses cost noise inputs (k + inputs.length) n := by
  have hindex : ∀ j, k + (j + 1) * inputs.length = k + inputs.length + j * inputs.length := by
    intro j
    rw [Nat.succ_mul]
    omega
  rw [noisyPasses, List.range_succ_eq_map, List.map_cons, List.map_map]
  simp only [Function.comp_def, hindex, Nat.zero_mul, Nat.add_zero, noisyPasses]

/-- Window `k + j * n + i` is that of input `i` in pass `j`. -/
theorem measuredAt_noisyPasses (inputs : List Input) (k : Nat) {n j i : Nat} (hj : j < n)
    (hi : i < inputs.length) :
    measuredAt (noisyPasses cost noise inputs k n) j i =
      some (UInt64.ofNat (cost inputs[i].a inputs[i].b + noise (k + j * inputs.length + i))) := by
  have hrow : (noisyPasses cost noise inputs k n)[j]? =
      some (noisyRow cost noise inputs (k + j * inputs.length)) := by
    simp [noisyPasses, hj]
  rw [measuredAt, hrow, Option.bind_some]
  simp [noisyRow, hi]

/-- Nothing was measured in a pass that was not run. -/
theorem measuredAt_noisyPasses_of_le (inputs : List Input) (k : Nat) {n j : Nat} (hj : n ≤ j)
    (i : Nat) : measuredAt (noisyPasses cost noise inputs k n) j i = none := by
  rw [measuredAt, List.getElem?_eq_none (by rw [length_noisyPasses]; exact hj)]
  rfl

end Counts

/-! ## Following the windows -/

section Windows

variable {bench : Bench (StateM σ)} {repeats limit : Nat} {inputs : List Input}
  {cost : Int64 → Int64 → Nat} {noise : Nat → Nat} {s : σ}

/-- **One pass.** The windows of the samples follow one another, and each is recorded in the column
of its own sample. -/
theorem sweep_noisy (hnoisy : bench.Noisy repeats inputs cost noise limit s) {row : Nat}
    (xs : List Input) : ∀ (col k : Nat) (best : UInt64) (g : Grid) (s' : σ) (trace : List Action),
      (∀ x ∈ xs, x ∈ inputs) → bench.AfterWindows repeats inputs s k s' → k + xs.length ≤ limit →
      g.WellFormed → row < g.rows → col + xs.length ≤ g.sampleCount →
      ∃ s'' t, sweep bench.traced .exhaustive repeats row xs col best g (s', trace) =
          (.ok (recordedRow row col (noisyRow cost noise xs k) g), (s'', trace ++ t)) ∧
        bench.AfterWindows repeats inputs s (k + xs.length) s'' ∧
        Action.calls t = xs.flatMap (fun x => List.replicate repeats (x.a, x.b)) ∧
        (Action.readings t).length = 2 * xs.length := by
  induction xs with
  | nil =>
      intro col k best g s' trace _ hs' _ _ _ _
      exact ⟨s', [], by rw [List.append_nil]; rfl, hs', rfl, rfl⟩
  | cons x xs ih =>
      intro col k best g s' trace hmem hs' hlimit hg hrow hlen
      obtain ⟨hx, hmem⟩ := List.forall_mem_cons.mp hmem
      rw [List.length_cons] at hlimit hlen
      have hcol : col < g.sampleCount := by omega
      set w := bench.window x.a x.b repeats s' with hw
      -- This is the `k`-th window, so its length is what the bench says.
      have hlength : w.stop - w.start = UInt64.ofNat (cost x.a x.b + noise k) := by
        rw [hnoisy k (by omega) s' hs' x hx, UInt64.add_comm, UInt64.add_sub_cancel]
      have hlen' : col + 1 + xs.length ≤ (g.recorded row col (w.stop - w.start)).sampleCount := by
        rw [recorded_sampleCount]
        omega
      obtain ⟨s'', t, hsweep, hs'', hcalls, hreadings⟩ := ih (col + 1) (k + 1)
        (min best (w.stop - w.start)) (g.recorded row col (w.stop - w.start)) w.state
        (trace ++ Bench.windowTrace x.a x.b repeats w.start w.stop) hmem (hs'.next hx) (by omega)
        (hg.recorded hrow hcol _) hrow hlen'
      refine ⟨s'', Bench.windowTrace x.a x.b repeats w.start w.stop ++ t, ?_, ?_, ?_, ?_⟩
      · rw [sweep_traced_cons bench .exhaustive repeats hg hrow hcol,
          if_neg (by simp [Policy.skips])]
        simp only [← hw]
        rw [hsweep, List.append_assoc, hlength]
        rfl
      · rw [List.length_cons, Nat.add_comm xs.length 1, ← Nat.add_assoc]
        exact hs''
      · rw [Action.calls_append, Bench.calls_windowTrace, hcalls, List.flatMap_cons]
      · rw [Action.readings_append, Bench.readings_windowTrace, List.length_append, hreadings,
          List.length_cons, List.length_cons, List.length_cons, List.length_nil]
        omega

/-- **All passes.** The windows of a pass follow those of the pass before it. -/
theorem runPasses_noisy (hnoisy : bench.Noisy repeats inputs cost noise limit s) (n : Nat) :
    ∀ (k : Nat) (g : Grid) (s' : σ) (trace : List Action),
      bench.AfterWindows repeats inputs s k s' → k + n * inputs.length ≤ limit →
      g.WellFormed → inputs.length = g.sampleCount → g.passes + n ≤ g.rows →
      ∃ s'' t, runPasses bench.traced .exhaustive repeats inputs n g (s', trace) =
          (.ok (recordedPasses (noisyPasses cost noise inputs k n) g), (s'', trace ++ t)) ∧
        Action.calls t =
          (List.replicate n (inputs.flatMap fun x => List.replicate repeats (x.a, x.b))).flatten ∧
        (Action.readings t).length = 2 * n * inputs.length := by
  induction n with
  | zero =>
      intro k g s' trace _ _ _ _ _
      refine ⟨s', [], ?_, rfl, ?_⟩
      · rw [List.append_nil]
        rfl
      · rw [Nat.mul_zero, Nat.zero_mul]
        rfl
  | succ n ih =>
      intro k g s' trace hs' hlimit hg hlen hroom
      rw [Nat.succ_mul] at hlimit
      have hrow : g.passes < g.rows := by omega
      obtain ⟨s₁, t₁, hsweep, hs₁, hcalls₁, hreadings₁⟩ := sweep_noisy hnoisy inputs 0 k g.best g s'
        trace (fun _ h => h) hs' (by omega) hg hrow (by omega)
      obtain ⟨hnext, hcount, hrows, hpasses⟩ := hg.nextPass_recordedRow hrow
        (Nat.le_of_eq ((length_noisyRow cost noise inputs k).trans hlen))
      obtain ⟨s₂, t₂, hrest, hcalls₂, hreadings₂⟩ := ih (k + inputs.length) _ s₁ (trace ++ t₁) hs₁
        (by omega) hnext (by rw [hcount]; exact hlen) (by rw [hpasses, hrows]; omega)
      refine ⟨s₂, t₁ ++ t₂, ?_, ?_, ?_⟩
      · rw [runPasses_succ, stateM_bind, hsweep]
        simp only
        rw [hrest, noisyPasses_succ, recordedPasses, List.append_assoc]
      · rw [Action.calls_append, hcalls₁, hcalls₂, List.replicate_succ, List.flatten_cons]
      · rw [Action.readings_append, List.length_append, hreadings₁, hreadings₂, ← Nat.add_mul]
        congr 1
        omega

/-! ## The grid -/

/-- After exhaustive passes on an unmeasured grid, every cell of theirs holds the cost of its input
with the noise of its own window, and all other cells are unmeasured. -/
theorem cell_noisy (cost : Int64 → Int64 → Nat) (noise : Nat → Nat) {g : Grid} (hg : g.WellFormed)
    (hlen : inputs.length = g.sampleCount) (hpasses : g.passes = 0)
    (hcells : ∀ row col, g.cell row col = sentinel) {n : Nat} (hroom : n ≤ g.rows) (row : Nat)
    {i : Nat} (hi : i < inputs.length) :
    (recordedPasses (noisyPasses cost noise inputs 0 n) g).cell row i =
      if row < n then UInt64.ofNat (cost inputs[i].a inputs[i].b + noise (row * inputs.length + i))
      else sentinel := by
  rw [cell_recordedPasses _ g hg (by rw [hpasses, length_noisyPasses]; omega)
      (fun ms hms => Nat.le_of_eq ((length_of_mem_noisyPasses cost noise hms).trans hlen)) row i
      (by omega), hpasses, if_pos (Nat.zero_le _), hcells, Nat.sub_zero]
  by_cases hrow : row < n
  · rw [if_pos hrow, measuredAt_noisyPasses cost noise inputs 0 hrow hi, lowered_sentinel,
      Nat.zero_add]
  · rw [if_neg hrow, measuredAt_noisyPasses_of_le cost noise inputs 0 (by omega), lowered]

/-- The minimum of a column whose first cells are known and whose other cells are unmeasured. -/
theorem WellFormed.least_of_cells {g : Grid} (hg : g.WellFormed) {col n : Nat}
    (hcol : col < g.sampleCount) (hroom : n ≤ g.rows) {ticks : Nat → Nat}
    (hticks : ∀ j < n, ticks j < wordLimit)
    (hcells : ∀ row, g.cell row col = if row < n then UInt64.ofNat (ticks row) else sentinel) :
    n = 0 ∧ g.least col = sentinel ∨
      ∃ j < n, (g.least col).toNat = ticks j ∧ ∀ j' < n, ticks j ≤ ticks j' := by
  have htoNat : ∀ j < n, (g.cell j col).toNat = ticks j := by
    intro j hj
    rw [hcells, if_pos hj, UInt64.toNat_ofNat_of_lt' (hticks j hj)]
  by_cases hn : n = 0
  · refine .inl ⟨hn, hg.least_of_unmeasured hcol fun row => ?_⟩
    rw [hcells, if_neg (by omega)]
  · obtain ⟨j, hj, heq⟩ := hg.least_attained_below hcol (Nat.pos_of_ne_zero hn) hroom
      fun row hrow => by rw [hcells, if_neg (by omega)]
    refine .inr ⟨j, hj, by rw [← heq, htoNat j hj], fun j' hj' => ?_⟩
    have hle := UInt64.le_iff_toNat_le.mp (hg.least_le j' (by omega) col hcol)
    rw [← heq, htoNat j hj, htoNat j' hj'] at hle
    exact hle

end Windows

/-- **The minimum of several passes removes the noise.** On a new grid, exhaustive passes over a
noisy bench succeed. They call the function under audit pass by pass, in the order of the inputs,
`repeats` times in a row for each, and read the counter twice for every sample of every pass. Every
cell holds the cost of its input with the noise of its own window, and every minimum the cost with
the least noise of the windows of its sample, or the sentinel if there was no pass. -/
theorem converge_noisy {bench : Bench (StateM σ)} {repeats p rows : Nat} (inputs : List Input)
    {cost : Int64 → Int64 → Nat} {noise : Nat → Nat} {s : σ} {g : Grid}
    (halloc : allocate inputs.length rows = .ok g) (hp : p < wordLimit)
    (hfits : Store.cells.Fits (p * inputs.length))
    (hnoisy : bench.Noisy repeats inputs cost noise (p * inputs.length) s)
    (hsum : ∀ k < p * inputs.length, ∀ x ∈ inputs, cost x.a x.b + noise k < wordLimit) :
    ∃ g' s' trace,
      g.converge bench.traced .exhaustive inputs p repeats (s, []) = (.ok g', (s', trace)) ∧
      Action.calls trace =
        (List.replicate p (inputs.flatMap fun x => List.replicate repeats (x.a, x.b))).flatten ∧
      (Action.calls trace).length = p * inputs.length * repeats ∧
      (Action.readings trace).length = 2 * p * inputs.length ∧
      (∀ j < p, ∀ i (hi : i < inputs.length), ∃ clocks, g'.get j i = .ok clocks ∧
        clocks.toNat = cost inputs[i].a inputs[i].b + noise (j * inputs.length + i)) ∧
      ∀ i (hi : i < inputs.length), ∃ least, g'.minimum i = .ok least ∧
        (p = 0 ∧ least = sentinel ∨
          ∃ j < p, least.toNat = cost inputs[i].a inputs[i].b + noise (j * inputs.length + i) ∧
            ∀ j' < p, noise (j * inputs.length + i) ≤ noise (j' * inputs.length + i)) := by
  -- The passes run on an unmeasured grid with at least `p` rows.
  obtain ⟨g₁, hprep, hg₁, hlen, hpasses, hroom, hblank⟩ := prepare_of_allocate halloc hp hfits
  obtain ⟨s', trace, hrun, hcalls, hreadings⟩ := runPasses_noisy hnoisy p 0 g₁ s [] .start
    (by omega) hg₁ hlen.symm (by omega)
  have hcell := fun row i (hi : i < inputs.length) =>
    cell_noisy cost noise hg₁ hlen.symm hpasses hblank hroom row hi
  obtain ⟨hg', hcount, hrows, -⟩ := WellFormed.recordedPasses (noisyPasses cost noise inputs 0 p)
    g₁ hg₁ (by rw [hpasses, length_noisyPasses]; omega)
    (fun ms hms => Nat.le_of_eq ((length_of_mem_noisyPasses cost noise hms).trans hlen.symm))
  set g' := recordedPasses (noisyPasses cost noise inputs 0 p) g₁
  have hticks : ∀ i (hi : i < inputs.length), ∀ j < p,
      cost inputs[i].a inputs[i].b + noise (j * inputs.length + i) < wordLimit := by
    intro i hi j hj
    have hwindow := g₁.place_lt hj (hlen.symm ▸ hi)
    rw [place, hlen] at hwindow
    exact hsum _ hwindow inputs[i] (List.getElem_mem hi)
  refine ⟨g', s', trace, ?_, hcalls, ?_, hreadings, ?_, ?_⟩
  · rw [converge_of_prepare_ok bench.traced .exhaustive repeats hprep]
    exact hrun
  · rw [hcalls]
    simp only [List.length_flatten, List.map_replicate, List.length_flatMap, List.length_replicate,
      List.map_const', List.sum_replicate_nat, Nat.mul_assoc]
  · intro j hj i hi
    refine ⟨g'.cell j i, get_eq hg' (by omega) (by omega), ?_⟩
    rw [hcell j i hi, if_pos hj, UInt64.toNat_ofNat_of_lt' (hticks i hi j hj)]
  · intro i hi
    refine ⟨g'.least i, minimum_eq hg' (by omega), ?_⟩
    rcases hg'.least_of_cells (by omega) (by omega) (hticks i hi) (fun row => hcell row i hi) with
      hzero | ⟨j, hj, heq, hle⟩
    · exact .inl hzero
    · refine .inr ⟨j, hj, heq, fun j' hj' => ?_⟩
      have hj'_le := hle j' hj'
      omega

/-- Two passes over two inputs with three calls in a window, on a clock with a script of three
entries. -/
theorem converge_noisy_scripted :
    allocate 2 1 = .ok (blank 2 1) ∧ Store.cells.Fits (2 * 2) ∧
      ∃ g' s' trace,
        (blank 2 1).converge (SimulatedClock.bench .comparison).traced .exhaustive
            [⟨1, 2, .uniform⟩, ⟨2, 1, .uniform⟩] 2 3 (.scripted 5 0 [4, 0, 2], []) =
          (.ok g', (s', trace)) ∧
        (Action.calls trace).length = 2 * 2 * 3 ∧ (Action.readings trace).length = 2 * 2 * 2 ∧
        ∃ least, g'.minimum 0 = .ok least ∧ (2 = 0 ∧ least = sentinel ∨
          ∃ j < 2, least.toNat = 24 + (SimulatedClock.scriptTicks [4, 0, 2] (j * 2 + 0)).toNat ∧
            ∀ j' < 2, (SimulatedClock.scriptTicks [4, 0, 2] (j * 2 + 0)).toNat ≤
              (SimulatedClock.scriptTicks [4, 0, 2] (j' * 2 + 0)).toNat) := by
  have halloc : allocate 2 1 = .ok (blank 2 1) := by decide
  have hfits : Store.cells.Fits (2 * 2) := by decide
  obtain ⟨g', s', trace, hrun, -, hcalls, hreadings, -, hminimum⟩ := converge_noisy
    [⟨1, 2, .uniform⟩, ⟨2, 1, .uniform⟩] halloc (by decide) hfits
    (SimulatedClock.noisy_scripted .comparison 3 _ _ 5 [4, 0, 2]) (by decide +kernel)
  exact ⟨halloc, hfits, g', s', trace, hrun, hcalls, hreadings, hminimum 0 (by decide)⟩

end Grid

end TimingAudit
