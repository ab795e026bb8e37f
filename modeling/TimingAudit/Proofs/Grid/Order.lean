import Mathlib.Order.Bounds.Defs
import TimingAudit.Proofs.Grid.Reachable

/-!
# Measurements in any order

A cell keeps the least of what is recorded in it, and so does the minimum of its column. So it does
not matter in which order measurements are recorded, nor how often each of them is.

This is not shown by exchanging neighbours. `Lowered` says of a grid what it has to be after some
measurements, and only asks which measurements these are. Recording them leads to such a grid, and
there is no other one.

* `Lowered.recorded` : the step, one more measurement at the front;
* `lowered_recordAll` : the run, for all measurements that lie inside of the grid;
* `Lowered.unique` : the same measurements lead to the same grid;
* `recordAll_any_order` : all of this, for every grid that calls lead to.
-/

namespace TimingAudit.Grid

/-- A tick count for a cell. -/
structure Measurement where
  row : Nat
  col : Nat
  clocks : UInt64
deriving DecidableEq

/-- Records measurements one after another, up to the first one that is refused. -/
def recordAll (g : Grid) (ms : List Measurement) : Except Fault Grid :=
  ms.foldlM (fun g m => g.record m.row m.col m.clocks) g

variable {g g' : Grid} {m : Measurement} {ms ms' : List Measurement}

/-- A measurement that lies inside of the grid is recorded, and the others after it. -/
theorem recordAll_cons (hg : g.WellFormed) (hrow : m.row < g.rows) (hcol : m.col < g.sampleCount) :
    g.recordAll (m :: ms) = (g.recorded m.row m.col m.clocks).recordAll ms := by
  have hrec : g.record m.row m.col m.clocks = .ok (g.recorded m.row m.col m.clocks) :=
    (record_eq_ok_iff hg).mpr ⟨hrow, hcol, rfl⟩
  rw [recordAll, List.foldlM_cons, hrec]
  rfl

/-! ## The least of the candidates -/

/-- What a value can be after some measurements: the old value, or one of the tick counts that are
meant for it. -/
def candidates (old : UInt64) (ms : List Measurement) (meant : Measurement → Prop) : Set UInt64 :=
  {clocks | clocks = old ∨ ∃ m ∈ ms, meant m ∧ m.clocks = clocks}

section Candidates

variable {old least least' : UInt64} {meant : Measurement → Prop}

/-- Without measurements the old value is the only candidate. -/
theorem isLeast_candidates_nil : IsLeast (candidates old [] meant) old := by
  refine ⟨.inl rfl, ?_⟩
  rintro clocks (rfl | ⟨m, hm, -⟩)
  · exact UInt64.le_refl _
  · cases hm

/-- The least candidate can be found one measurement at a time. -/
theorem isLeast_candidates_cons [Decidable (meant m)]
    (h : IsLeast (candidates (if meant m then min old m.clocks else old) ms meant) least) :
    IsLeast (candidates old (m :: ms) meant) least := by
  obtain ⟨hmem, hle⟩ := h
  have hfirst := hle (.inl rfl)
  refine ⟨?_, ?_⟩
  · rcases hmem with heq | ⟨m', hm', hmeant⟩
    · by_cases hm : meant m
      · rw [if_pos hm] at heq
        -- The smaller one of the two is one of the two.
        rcases Std.MinEqOr.min_eq_or old m.clocks with hold | hnew
        · exact .inl (heq.trans hold)
        · exact .inr ⟨m, List.mem_cons_self, hm, (heq.trans hnew).symm⟩
      · rw [if_neg hm] at heq
        exact .inl heq
    · exact .inr ⟨m', List.mem_cons_of_mem _ hm', hmeant⟩
  · rintro clocks (rfl | ⟨m', hm', hmeant, rfl⟩)
    · by_cases hm : meant m
      · rw [if_pos hm, Std.le_min_iff] at hfirst
        exact hfirst.1
      · rw [if_neg hm] at hfirst
        exact hfirst
    · rcases List.mem_cons.mp hm' with rfl | htail
      · rw [if_pos hmeant, Std.le_min_iff] at hfirst
        exact hfirst.2
      · exact hle (.inr ⟨m', htail, hmeant, rfl⟩)

/-- The same measurements have the same least candidate. -/
theorem isLeast_candidates_unique (hsame : ∀ m, m ∈ ms ↔ m ∈ ms')
    (h : IsLeast (candidates old ms meant) least) (h' : IsLeast (candidates old ms' meant) least') :
    least = least' := by
  have hset : candidates old ms meant = candidates old ms' meant := by
    unfold candidates
    simp only [hsame]
  rw [hset] at h
  exact UInt64.le_antisymm (h.2 h'.1) (h'.2 h.1)

end Candidates

/-! ## Grids with the same cells -/

/-- A well-formed grid is determined by its shape, its cells and its minima. -/
theorem WellFormed.eq_of_cells (hg : g.WellFormed) (hg' : g'.WellFormed) (hshape : g.SameShape g')
    (hcell : ∀ row, ∀ col < g.sampleCount, g.cell row col = g'.cell row col)
    (hleast : ∀ col < g.sampleCount, g.least col = g'.least col) : g = g' := by
  obtain ⟨cells, minima, n, rows, passes⟩ := g
  obtain ⟨cells', minima', n', rows', passes'⟩ := g'
  obtain ⟨rfl, rfl, rfl⟩ : n = n' ∧ rows = rows' ∧ passes = passes' :=
    ⟨hshape.sampleCount, hshape.rows, hshape.passes⟩
  have hminima : minima = minima' := by
    apply Array.ext (hg.minima_size.trans hg'.minima_size.symm)
    intro col hsize hsize'
    have heq := hleast col (hg.minima_size ▸ hsize)
    simpa only [least, Array.getD_eq_getD_getElem?, Array.getElem?_eq_getElem hsize,
      Array.getElem?_eq_getElem hsize', Option.getD_some] using heq
  have hcells : cells = cells' := by
    apply Array.ext (hg.cells_size.trans hg'.cells_size.symm)
    intro i hsize hsize'
    have hlt : i < rows * n := hg.cells_size ▸ hsize
    have hpos : 0 < n := Nat.pos_of_mul_pos_left (Nat.zero_lt_of_lt hlt)
    -- Every place of the buffer belongs to a cell.
    have hplace : i / n * n + i % n = i := by
      rw [Nat.mul_comm]
      exact Nat.div_add_mod i n
    have heq := hcell (i / n) (i % n) (Nat.mod_lt i hpos)
    simpa only [cell, place, hplace, Array.getD_eq_getD_getElem?, Array.getElem?_eq_getElem hsize,
      Array.getElem?_eq_getElem hsize', Option.getD_some] using heq
  rw [hcells, hminima]

/-! ## What measurements lead to -/

/-- The grid `g'` is what `g` has to be after some measurements: every cell is the least of what it
was and of what was recorded in it, and every minimum the least of what it was and of what was
recorded in its column. -/
structure Lowered (ms : List Measurement) (g g' : Grid) : Prop where
  wellFormed : g'.WellFormed
  shape : g'.SameShape g
  cell : ∀ row, ∀ col < g.sampleCount,
    IsLeast (candidates (g.cell row col) ms fun m => m.row = row ∧ m.col = col) (g'.cell row col)
  least : ∀ col < g.sampleCount,
    IsLeast (candidates (g.least col) ms fun m => m.col = col) (g'.least col)

/-- **The first of some measurements.** What the others lead to after it has been recorded, all of them
lead to. -/
theorem Lowered.recorded (hg : g.WellFormed) (hrow : m.row < g.rows) (hcol : m.col < g.sampleCount)
    (h : Lowered ms (g.recorded m.row m.col m.clocks) g') : Lowered (m :: ms) g g' where
  wellFormed := h.wellFormed
  shape := ⟨h.shape.sampleCount, h.shape.rows, h.shape.passes⟩
  cell := by
    intro row col hcol'
    apply isLeast_candidates_cons
    have hold : (if m.row = row ∧ m.col = col then min (g.cell row col) m.clocks
        else g.cell row col) = (g.recorded m.row m.col m.clocks).cell row col := by
      rw [cell_recorded hg hrow hcol m.clocks row hcol']
      by_cases hsame : m.row = row ∧ m.col = col
      · rw [if_pos hsame, if_pos hsame, hsame.1, hsame.2]
      · rw [if_neg hsame, if_neg hsame]
    rw [hold]
    exact h.cell row col hcol'
  least := by
    intro col hcol'
    apply isLeast_candidates_cons
    have hold : (if m.col = col then min (g.least col) m.clocks else g.least col) =
        (g.recorded m.row m.col m.clocks).least col := by
      rw [least_recorded hg hcol m.row m.clocks col]
      by_cases hsame : m.col = col
      · rw [if_pos hsame, if_pos hsame, hsame]
      · rw [if_neg hsame, if_neg hsame]
    rw [hold]
    exact h.least col hcol'

/-- **Measurements inside of the grid** can all be recorded, in the order they are given in. -/
theorem lowered_recordAll (hg : g.WellFormed)
    (hms : ∀ m ∈ ms, m.row < g.rows ∧ m.col < g.sampleCount) :
    ∃ g', g.recordAll ms = .ok g' ∧ Lowered ms g g' := by
  induction ms generalizing g with
  | nil =>
      exact ⟨g, rfl, hg, ⟨rfl, rfl, rfl⟩, fun _ _ _ => isLeast_candidates_nil,
        fun _ _ => isLeast_candidates_nil⟩
  | cons m ms ih =>
      obtain ⟨⟨hrow, hcol⟩, hrest⟩ := List.forall_mem_cons.mp hms
      obtain ⟨g', hrec, hlow⟩ := ih (hg.recorded hrow hcol m.clocks) hrest
      exact ⟨g', by rw [recordAll_cons hg hrow hcol, hrec], hlow.recorded hg hrow hcol⟩

/-- The same measurements lead to the same grid. -/
theorem Lowered.unique {g₁ g₂ : Grid} (h₁ : Lowered ms g g₁) (h₂ : Lowered ms' g g₂)
    (hsame : ∀ m, m ∈ ms ↔ m ∈ ms') : g₁ = g₂ := by
  have hshape : g₁.SameShape g₂ :=
    ⟨h₁.shape.sampleCount.trans h₂.shape.sampleCount.symm, h₁.shape.rows.trans h₂.shape.rows.symm,
      h₁.shape.passes.trans h₂.shape.passes.symm⟩
  apply h₁.wellFormed.eq_of_cells h₂.wellFormed hshape
  · intro row col hcol
    rw [h₁.shape.sampleCount] at hcol
    exact isLeast_candidates_unique hsame (h₁.cell row col hcol) (h₂.cell row col hcol)
  · intro col hcol
    rw [h₁.shape.sampleCount] at hcol
    exact isLeast_candidates_unique hsame (h₁.least col hcol) (h₂.least col hcol)

/-- **Recording does not depend on the order.** In every grid that calls lead to, measurements inside
of the grid can all be recorded, and the grid after them is the same for all lists of the same
measurements, in whatever order and with whatever repetitions. Every cell is then the least of what
it was and of what was recorded in it, every minimum the least of what it was and of what was
recorded in its column, and there are as many columns, rows and passes as before. -/
theorem recordAll_any_order (hg : g.Reachable)
    (hms : ∀ m ∈ ms, m.row < g.rows ∧ m.col < g.sampleCount) :
    ∃ g', g.recordAll ms = .ok g' ∧
      (∀ ms', (∀ m, m ∈ ms ↔ m ∈ ms') → g.recordAll ms' = .ok g') ∧
      (∀ row < g.rows, ∀ col < g.sampleCount, ∃ new, g'.get row col = .ok new ∧
        IsLeast {clocks | g.get row col = .ok clocks ∨
          ∃ m ∈ ms, (m.row = row ∧ m.col = col) ∧ m.clocks = clocks} new) ∧
      (∀ col < g.sampleCount, ∃ new, g'.minimum col = .ok new ∧
        IsLeast {clocks | g.minimum col = .ok clocks ∨
          ∃ m ∈ ms, m.col = col ∧ m.clocks = clocks} new) ∧
      g'.SameShape g := by
  have hwf := hg.wellFormed
  obtain ⟨g', hrec, hlow⟩ := lowered_recordAll hwf hms
  refine ⟨g', hrec, ?_, ?_, ?_, hlow.shape⟩
  · intro ms' hsame
    obtain ⟨g'', hrec', hlow'⟩ := lowered_recordAll hwf fun m hm => hms m ((hsame m).mpr hm)
    rw [hrec', hlow.unique hlow' hsame]
  · intro row hrow col hcol
    refine ⟨g'.cell row col, get_eq hlow.wellFormed ?_ ?_, ?_⟩
    · rw [hlow.shape.rows]
      exact hrow
    · rw [hlow.shape.sampleCount]
      exact hcol
    · simp only [get_eq hwf hrow hcol, Except.ok.injEq, eq_comm (a := g.cell row col)]
      exact hlow.cell row col hcol
  · intro col hcol
    refine ⟨g'.least col, minimum_eq hlow.wellFormed ?_, ?_⟩
    · rw [hlow.shape.sampleCount]
      exact hcol
    · simp only [minimum_eq hwf hcol, Except.ok.injEq, eq_comm (a := g.least col)]
      exact hlow.least col hcol

/-- Two measurements of one cell and one below them in the same column, then the same in another
order with one of them recorded twice. -/
theorem recordAll_any_order_repeated :
    ∃ g', (blank 2 2).recordAll [⟨0, 1, 9⟩, ⟨1, 1, 5⟩, ⟨0, 1, 7⟩] = .ok g' ∧
      (blank 2 2).recordAll [⟨0, 1, 7⟩, ⟨0, 1, 9⟩, ⟨0, 1, 7⟩, ⟨1, 1, 5⟩] = .ok g' ∧
      g'.get 0 1 = .ok 7 ∧ g'.minimum 1 = .ok 5 := by
  have hreach : (blank 2 2).Reachable := ⟨2, 2, blank 2 2, [], by decide, rfl⟩
  have hms : ∀ m ∈ [⟨0, 1, 9⟩, ⟨1, 1, 5⟩, (⟨0, 1, 7⟩ : Measurement)],
      m.row < (blank 2 2).rows ∧ m.col < (blank 2 2).sampleCount := by simp [blank]
  have hsame : ∀ m : Measurement, m ∈ [⟨0, 1, 9⟩, ⟨1, 1, 5⟩, (⟨0, 1, 7⟩ : Measurement)] ↔
      m ∈ [⟨0, 1, 7⟩, ⟨0, 1, 9⟩, ⟨0, 1, 7⟩, (⟨1, 1, 5⟩ : Measurement)] := by
    intro m
    simp only [List.mem_cons, List.not_mem_nil, or_false]
    tauto
  have hgrid : (blank 2 2).recordAll [⟨0, 1, 9⟩, ⟨1, 1, 5⟩, ⟨0, 1, 7⟩] =
      .ok ⟨#[sentinel, 7, sentinel, 5], #[sentinel, 5], 2, 2, 0⟩ := by decide
  obtain ⟨g', hrec, hany, -⟩ := recordAll_any_order hreach hms
  refine ⟨g', hrec, hany _ hsame, ?_, ?_⟩
  · cases hrec.symm.trans hgrid
    decide
  · cases hrec.symm.trans hgrid
    decide

end TimingAudit.Grid
