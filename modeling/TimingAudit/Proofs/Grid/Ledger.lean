import TimingAudit.Proofs.Grid.Measured

/-!
# Passes by the rule

Which samples a pass leaves out can be said of the grid alone. Under early exit a sample is left out
if it has been measured and its minimum is within the tolerance of the smallest of all minima, as
they stand when its turn comes. Passes by this rule look at all minima before every sample, where
the passes of the program carry the smallest one along within a pass and look for it once at its
start. They also keep a ledger: what was measured of every sample in every pass, or nothing if the
sample was left out.

* `Policy.Omits` is the rule, and `Grid.ledger` runs passes by it;
* `converge_eq_map_ledger` : both kinds of passes are the same computation in every lawful monad;
* `ledger_ensures` : what a ledger shows, said of the ledger alone.
-/

namespace TimingAudit

/-- The smallest of all minima as they stand, the number of the sentinel if there is no column. -/
def Grid.smallest (g : Grid) : Nat :=
  (g.minima.toList.map UInt64.toNat).min?.getD sentinel.toNat

/-- The rule by which a sample is left out of a pass. -/
def Policy.Omits : Policy → Grid → (col : Nat) → Prop
  | .exhaustive, _, _ => False
  | .earlyExit tolerance, g, col =>
    g.least col ≠ sentinel ∧
      (g.least col).toNat ≤ min (g.smallest + tolerance.toNat) (wordLimit - 1)

instance (policy : Policy) (g : Grid) (col : Nat) : Decidable (policy.Omits g col) :=
  match policy with
  | .exhaustive => inferInstanceAs (Decidable False)
  | .earlyExit _ => inferInstanceAs (Decidable (_ ∧ _))

namespace Grid

/-- Passes and what they measured: the grid they began on, and for each pass and each sample a tick
count, or nothing if the sample was left out. -/
structure Ledger where
  start : Grid
  measured : List (List (Option UInt64))
deriving DecidableEq

namespace Ledger

variable (l : Ledger)

/-- The grid after the first `count` passes. -/
def gridAfter (count : Nat) : Grid := recordedPasses (l.measured.take count) l.start

/-- The grid after all passes. -/
def final : Grid := recordedPasses l.measured l.start

theorem final_eq_gridAfter : l.final = l.gridAfter l.measured.length := by
  rw [final, gridAfter, List.take_length]

end Ledger

section Rule

variable {m : Type → Type} [Monad m]
variable (bench : Bench m) (policy : Policy) (repeats : Nat)

/-- A pass by the rule, from column `col` on: what it measures of the samples. -/
def ledgerRow (row : Nat) : List Input → (col : Nat) → Grid → m (List (Option UInt64))
  | [], _, _ => pure []
  | x :: xs, col, g =>
    if policy.Omits g col then (none :: ·) <$> ledgerRow row xs (col + 1) g
    else do
      let clocks ← bench.measure x.a x.b repeats
      (some clocks :: ·) <$> ledgerRow row xs (col + 1) (g.recorded row col clocks)

/-- Passes by the rule, the first one in row `g.passes`. -/
def ledgerPasses (inputs : List Input) : Nat → Grid → m (List (List (Option UInt64)))
  | 0, _ => pure []
  | n + 1, g => do
    let measured ← ledgerRow bench policy repeats g.passes inputs 0 g
    (measured :: ·) <$> ledgerPasses inputs n (recordedRow g.passes 0 measured g).nextPass

end Rule

/-- A call that runs its passes by the rule. -/
def ledger {m : Type → Type} [Monad m] (bench : Bench m) (policy : Policy) (inputs : List Input)
    (passes repeats : Nat) (g : Grid) : m (Except Failure Ledger) :=
  match g.prepare inputs.length passes with
  | .error f => pure (.error f)
  | .ok g => (fun measured => .ok ⟨g, measured⟩) <$>
      ledgerPasses bench policy repeats inputs passes g

/-- A call without room measures nothing by the rule either. -/
theorem ledger_of_prepare_error {m : Type → Type} [Monad m] (bench : Bench m) (policy : Policy)
    (repeats : Nat) {g : Grid} {inputs : List Input} {passes : Nat} {f : Failure}
    (h : g.prepare inputs.length passes = .error f) :
    g.ledger bench policy inputs passes repeats = pure (.error f) := by
  rw [ledger, h]

/-- A call with room runs its passes by the rule on the prepared grid. -/
theorem ledger_of_prepare_ok {m : Type → Type} [Monad m] (bench : Bench m) (policy : Policy)
    (repeats : Nat) {g g' : Grid} {inputs : List Input} {passes : Nat}
    (h : g.prepare inputs.length passes = .ok g') :
    g.ledger bench policy inputs passes repeats =
      (fun measured => .ok ⟨g', measured⟩) <$>
        ledgerPasses bench policy repeats inputs passes g' := by
  rw [ledger, h]

/-! ## The smallest minimum -/

/-- A word is below a running minimum if it is below all that went into it. -/
theorem le_foldl_min {b : UInt64} (vs : List UInt64) :
    ∀ start, b ≤ vs.foldl min start ↔ b ≤ start ∧ ∀ v ∈ vs, b ≤ v := by
  induction vs with
  | nil => intro start; simp
  | cons v vs ih =>
      intro start
      rw [List.foldl_cons, ih, Std.le_min_iff, List.forall_mem_cons, and_assoc]

/-- The smallest minimum bounds the minima of all columns, and is the largest word that does. -/
theorem le_best_iff {g : Grid} (hg : g.WellFormed) {b : UInt64} :
    b ≤ g.best ↔ ∀ col < g.sampleCount, b ≤ g.least col := by
  rw [best, ← Array.foldl_toList, le_foldl_min, and_iff_right (le_sentinel b)]
  constructor
  · intro h col hcol
    have hsize : col < g.minima.size := by rw [hg.minima_size]; exact hcol
    rw [least, Array.getD_eq_getD_getElem?, Array.getElem?_eq_getElem hsize]
    exact h _ (Array.mem_toList_iff.mpr (Array.getElem_mem hsize))
  · intro h v hv
    obtain ⟨col, hsize, rfl⟩ := Array.mem_iff_getElem.mp (Array.mem_toList_iff.mp hv)
    have hle := h col (by rw [← hg.minima_size]; exact hsize)
    rw [least, Array.getD_eq_getD_getElem?, Array.getElem?_eq_getElem hsize] at hle
    exact hle

/-- **The smallest minimum can be carried along.** Folding a measurement in lowers the smallest
minimum to it, whatever was measured in the column before. -/
theorem best_recorded {g : Grid} (hg : g.WellFormed) {row col : Nat} (hrow : row < g.rows)
    (hcol : col < g.sampleCount) (clocks : UInt64) :
    (g.recorded row col clocks).best = min g.best clocks := by
  have hiff : ∀ b, b ≤ (g.recorded row col clocks).best ↔ b ≤ min g.best clocks := by
    intro b
    rw [le_best_iff (hg.recorded hrow hcol clocks), Std.le_min_iff, le_best_iff hg,
      recorded_sampleCount]
    simp only [least_recorded hg hcol]
    constructor
    · intro h
      have hmin := h col hcol
      rw [if_pos rfl, Std.le_min_iff] at hmin
      refine ⟨fun col' hcol' => ?_, hmin.2⟩
      have hle := h col' hcol'
      by_cases hc : col = col'
      · rw [← hc]
        exact hmin.1
      · rw [if_neg hc] at hle
        exact hle
    · rintro ⟨hall, hclocks⟩ col' hcol'
      by_cases hc : col = col'
      · rw [if_pos hc, Std.le_min_iff]
        exact ⟨hall col hcol, hclocks⟩
      · rw [if_neg hc]
        exact hall col' hcol'
  exact UInt64.le_antisymm ((hiff _).mp (UInt64.le_refl _)) ((hiff _).mpr (UInt64.le_refl _))

/-- The smallest minimum that a pass starts with is the smallest of all minima. -/
theorem toNat_best (g : Grid) : g.best.toNat = g.smallest := by
  have hfold : ∀ (vs : List UInt64) (start : UInt64),
      (vs.foldl min start).toNat = (vs.map UInt64.toNat).foldl min start.toNat := by
    intro vs start
    rw [List.foldl_map]
    exact (List.foldl_hom UInt64.toNat fun x y => (toNat_min x y).symm).symm
  rw [best, smallest, ← Array.foldl_toList]
  cases g.minima.toList with
  | nil => rfl
  | cons v vs =>
      have hmin : min sentinel v = v := by
        have hle := UInt64.le_iff_toNat_le.mp (le_sentinel v)
        rw [← UInt64.toNat_inj, toNat_min]
        omega
      rw [List.foldl_cons, hmin, hfold, List.map_cons, List.min?_cons', Option.getD_some]

/-- The test of the passes is the rule, if they carry the smallest minimum along. -/
theorem skips_iff_omits (policy : Policy) (g : Grid) (col : Nat) :
    policy.skips (g.least col) g.best = true ↔ policy.Omits g col := by
  cases policy with
  | exhaustive => simp [Policy.skips, Policy.Omits]
  | earlyExit tolerance =>
      have hsum : (saturatingAdd g.best tolerance).toNat =
          min (g.smallest + tolerance.toNat) (wordLimit - 1) := by
        rw [saturatingAdd, toNat_best]
        refine UInt64.toNat_ofNat_of_lt' (Nat.lt_of_le_of_lt (Nat.min_le_right _ _) ?_)
        decide
      simp only [Policy.skips, Policy.Omits, Bool.and_eq_true, bne_iff_ne, decide_eq_true_eq,
        UInt64.le_iff_toNat_le, hsum]

/-! ## The same computation -/

section Computations

variable {m : Type → Type} [Monad m] [LawfulMonad m]
variable (bench : Bench m) (policy : Policy) (repeats : Nat)

/-- A pass that carries the smallest minimum along is a pass by the rule. -/
theorem sweep_eq_map_ledgerRow {row : Nat} (xs : List Input) :
    ∀ (col : Nat) (g : Grid), g.WellFormed → row < g.rows → col + xs.length ≤ g.sampleCount →
      sweep bench policy repeats row xs col g.best g =
        (fun measured => .ok (recordedRow row col measured g)) <$>
          ledgerRow bench policy repeats row xs col g := by
  induction xs with
  | nil =>
      intro col g _ _ _
      rw [sweep, ledgerRow, map_pure]
      rfl
  | cons x xs ih =>
      intro col g hg hrow hlen
      rw [List.length_cons] at hlen
      have hcol : col < g.sampleCount := by omega
      rw [sweep_cons bench policy repeats hg hrow hcol, ledgerRow]
      by_cases homits : policy.Omits g col
      · rw [if_pos ((skips_iff_omits policy g col).mpr homits), if_pos homits, Functor.map_map]
        exact ih (col + 1) g hg hrow (by omega)
      · rw [if_neg fun h => homits ((skips_iff_omits policy g col).mp h), if_neg homits, map_bind]
        congr 1
        funext clocks
        rw [← best_recorded hg hrow hcol, Functor.map_map]
        exact ih (col + 1) _ (hg.recorded hrow hcol clocks) hrow
          (by rw [recorded_sampleCount]; omega)

/-! ## What a ledger shows -/

/-- Every sample of a pass, from column `col` on, was left out exactly if the rule said so when its
turn came. -/
def RuledRow (policy : Policy) (row : Nat) : (col : Nat) → List (Option UInt64) → Grid → Prop
  | _, [], _ => True
  | col, measured :: rest, g =>
    (measured = none ↔ policy.Omits g col) ∧
      RuledRow policy row (col + 1) rest (g.foldedIn row col measured)

/-- Every pass went through all samples by the rule. -/
def RuledPasses (policy : Policy) : List (List (Option UInt64)) → Grid → Prop
  | [], _ => True
  | measured :: rest, g =>
    measured.length = g.sampleCount ∧ RuledRow policy g.passes 0 measured g ∧
      RuledPasses policy rest (recordedRow g.passes 0 measured g).nextPass

/-- The passes of a ledger went by the rule, on a well-formed grid with rows for all of them. -/
structure Ledger.Ruled (l : Ledger) (policy : Policy) : Prop where
  start : l.start.WellFormed
  room : l.start.passes + l.measured.length ≤ l.start.rows
  passes : RuledPasses policy l.measured l.start

/-- What a pass by the rule notes down. -/
theorem ledgerRow_ensures {row : Nat} (xs : List Input) : ∀ (col : Nat) (g : Grid),
    Ensures (fun measured => measured.length = xs.length ∧ RuledRow policy row col measured g)
      (ledgerRow bench policy repeats row xs col g) := by
  induction xs with
  | nil =>
      intro col g
      exact Ensures.pure ⟨rfl, trivial⟩
  | cons x xs ih =>
      intro col g
      rw [ledgerRow]
      by_cases homits : policy.Omits g col
      · rw [if_pos homits]
        refine (ih (col + 1) g).map ?_
        rintro rest ⟨hlen, hrest⟩
        exact ⟨by rw [List.length_cons, hlen, List.length_cons], by simp [homits], hrest⟩
      · rw [if_neg homits]
        refine Ensures.bind (ensures_true _) fun clocks _ => ?_
        refine (ih (col + 1) (g.recorded row col clocks)).map ?_
        rintro rest ⟨hlen, hrest⟩
        exact ⟨by rw [List.length_cons, hlen, List.length_cons], by simp [homits], hrest⟩

/-- What passes by the rule note down. -/
theorem ledgerPasses_ensures {inputs : List Input} (n : Nat) : ∀ g : Grid,
    inputs.length = g.sampleCount →
    Ensures (fun measured => measured.length = n ∧ RuledPasses policy measured g)
      (ledgerPasses bench policy repeats inputs n g) := by
  induction n with
  | zero =>
      intro g _
      exact Ensures.pure ⟨rfl, trivial⟩
  | succ n ih =>
      intro g hlen
      rw [ledgerPasses]
      refine (ledgerRow_ensures bench policy repeats inputs 0 g).bind ?_
      rintro measured ⟨hmeasured, hrow⟩
      have hshape := sameShape_recordedRow g.passes measured 0 g
      refine (ih _ (by rw [nextPass_sampleCount, hshape.sampleCount, hlen])).map ?_
      rintro rest ⟨hrest, hpasses⟩
      exact ⟨by rw [List.length_cons, hrest], hmeasured.trans hlen, hrow, hpasses⟩

/-- Passes that carry the smallest minimum along are passes by the rule. -/
theorem runPasses_eq_map_ledgerPasses {inputs : List Input} (n : Nat) : ∀ g : Grid, g.WellFormed →
    inputs.length = g.sampleCount → g.passes + n ≤ g.rows →
    runPasses bench policy repeats inputs n g =
      (fun measured => .ok (recordedPasses measured g)) <$>
        ledgerPasses bench policy repeats inputs n g := by
  induction n with
  | zero =>
      intro g _ _ _
      rw [runPasses, ledgerPasses, map_pure]
      rfl
  | succ n ih =>
      intro g hg hlen hroom
      have hrow : g.passes < g.rows := by omega
      rw [runPasses_succ, ledgerPasses,
        sweep_eq_map_ledgerRow bench policy repeats inputs 0 g hg hrow (by omega), bind_map_left,
        map_bind]
      -- Only rows of the right length can be noted down, so the next pass finds a well-formed grid.
      apply ledgerRow_ensures bench policy repeats inputs 0 g
      rintro measured ⟨hmeasured, -⟩
      obtain ⟨hnext, hcount, hrows, hpasses⟩ := hg.nextPass_recordedRow hrow
        (Nat.le_of_eq (hmeasured.trans hlen))
      rw [Functor.map_map]
      exact ih _ hnext (by rw [hcount, hlen]) (by rw [hpasses, hrows]; omega)

/-- **A call is a call by the rule.** In every lawful monad, a call on a well-formed grid is the
computation that runs its passes by the rule and then forgets the ledger. -/
theorem converge_eq_map_ledger {g : Grid} (hg : g.WellFormed) (inputs : List Input)
    (passes : Nat) :
    g.converge bench policy inputs passes repeats =
      Except.map Ledger.final <$> g.ledger bench policy inputs passes repeats := by
  cases hprep : g.prepare inputs.length passes with
  | error f =>
      rw [converge_of_prepare_error bench policy repeats hprep,
        ledger_of_prepare_error bench policy repeats hprep, map_pure]
      rfl
  | ok g₁ =>
      obtain ⟨hg₁, hcount, hroom⟩ := wellFormed_of_prepare hg hprep
      rw [converge_of_prepare_ok bench policy repeats hprep,
        ledger_of_prepare_ok bench policy repeats hprep, Functor.map_map,
        runPasses_eq_map_ledgerPasses bench policy repeats passes g₁ hg₁ hcount hroom]
      rfl

/-- The ledger of a call is that of its passes, on the grid with room for them. -/
theorem ledger_ensures {g : Grid} (hg : g.WellFormed) (inputs : List Input) (passes : Nat) :
    Ensures (fun r => ∀ l, r = .ok l → g.prepare inputs.length passes = .ok l.start ∧
        l.measured.length = passes ∧ l.Ruled policy)
      (g.ledger bench policy inputs passes repeats) := by
  cases hprep : g.prepare inputs.length passes with
  | error f =>
      rw [ledger_of_prepare_error bench policy repeats hprep]
      refine Ensures.pure ?_
      rintro l ⟨⟩
  | ok g₁ =>
      obtain ⟨hg₁, hcount, hroom⟩ := wellFormed_of_prepare hg hprep
      rw [ledger_of_prepare_ok bench policy repeats hprep]
      refine (ledgerPasses_ensures bench policy repeats passes g₁ hcount).map ?_
      rintro measured ⟨hlen, hruled⟩ l ⟨⟩
      exact ⟨rfl, hlen, hg₁, by rw [hlen]; exact hroom, hruled⟩

end Computations

end Grid

end TimingAudit
