import TimingAudit.Proofs.Run.Mixed
import TimingAudit.Summary
import Mathlib.Data.List.Induction
import Mathlib.Data.Multiset.Basic

/-!
# The summary of a run and its reports

The summary of a run is taken from its grid, and the reports are written from its samples, class by
class. Whoever adds up the reports comes to the summary all the same: they have a record for each of its
samples and a column for each of its passes, and the smallest and the largest minimum that stand in them
are the ends of its range. A sample that was never measured counts on neither side: its minimum is the
sentinel, which the range leaves out and for which the reports have an empty field.

* `spans_rangeOf` : the range of some minima, found by widening it for one after another;
* `writtenMinima_eq` : the minima of all reports are those of the grid that are measurements;
* `summary_of_reports` : the summary in terms of the reports alone.
-/

namespace TimingAudit

/-! ## The range of tick counts -/

/-- The larger of two words, as a number. -/
theorem toNat_max (a b : UInt64) : (max a b).toNat = max a.toNat b.toNat := by
  have hmax : max a b = if a ≤ b then b else a := rfl
  rw [hmax, Nat.max_def, apply_ite UInt64.toNat]
  simp only [UInt64.le_iff_toNat_le]

namespace Summary

/-- The range goes from the smallest to the largest of the tick counts, and there is none if there are
none of these. -/
def Spans : Option (UInt64 × UInt64) → List UInt64 → Prop
  | none, clocks => clocks = []
  | some (lo, hi), clocks => lo ∈ clocks ∧ hi ∈ clocks ∧ ∀ c ∈ clocks, lo ≤ c ∧ c ≤ hi

/-- **A range that is widened** reaches over one more tick count. -/
theorem Spans.widen {range : Option (UInt64 × UInt64)} {clocks : List UInt64}
    (h : Spans range clocks) (c : UInt64) : Spans (widen range c) (clocks ++ [c]) := by
  cases range with
  | none =>
      obtain rfl : clocks = [] := h
      exact ⟨List.mem_singleton_self c, List.mem_singleton_self c, by simp⟩
  | some ends =>
      obtain ⟨lo, hi⟩ := ends
      obtain ⟨hlo, hhi, hall⟩ := h
      refine ⟨?_, ?_, ?_⟩
      · have hmin : min lo c = if lo ≤ c then lo else c := rfl
        rw [hmin]
        split <;> simp [hlo]
      · have hmax : max hi c = if hi ≤ c then c else hi := rfl
        rw [hmax]
        split <;> simp [hhi]
      · intro c' hc'
        rw [UInt64.le_iff_toNat_le, UInt64.le_iff_toNat_le, toNat_min, toNat_max]
        rcases List.mem_append.mp hc' with hold | hnew
        · obtain ⟨hle, hge⟩ := hall c' hold
          rw [UInt64.le_iff_toNat_le] at hle hge
          omega
        · obtain rfl := List.mem_singleton.mp hnew
          omega

/-- **A range that is widened from nothing** goes from the smallest to the largest of the tick
counts. -/
theorem spans_rangeOf (minima : List UInt64) :
    Spans (rangeOf minima) (minima.filter (· ≠ sentinel)) := by
  unfold rangeOf
  generalize minima.filter (· ≠ sentinel) = clocks
  induction clocks using List.reverseRecOn with
  | nil => rfl
  | append_singleton clocks c ih =>
      rw [List.foldl_append]
      exact ih.widen c

end Summary

namespace Dataset

/-- In a complete dataset the minima of the samples are those of the grid. -/
theorem Complete.map_minimum_samples {d : Dataset} (hd : d.Complete) :
    d.samples.map Sample.minimum = d.grid.minima.toList := by
  have hsize : d.grid.minima.size = d.inputs.size := hd.grid.minima_size.trans hd.columns
  apply List.ext_getElem?
  intro col
  rw [List.getElem?_map, getElem?_samples, Array.getElem?_toList]
  rcases Nat.lt_or_ge col d.inputs.size with hcol | hcol
  · have hminimum : col < d.grid.minima.size := by rwa [hsize]
    rw [Array.getElem?_eq_getElem hcol, Array.getElem?_eq_getElem hminimum, Option.map_some,
      Option.map_some, sampleAt, Array.getD_eq_getD_getElem?, Array.getElem?_eq_getElem hminimum,
      Option.getD_some]
  · rw [Array.getElem?_eq_none hcol, Array.getElem?_eq_none (by rwa [hsize])]
    rfl

end Dataset

namespace RunConfig

/-- A dataset has a class. -/
theorem kinds_ne_nil_of_perform {σ τ : Type} [RandomSource σ] {config : RunConfig}
    {bench : Bench (StateT τ Option)} (request : Request) {source source' : σ} {s s' : τ} {d : Dataset}
    (h : config.perform bench request source s = some ((.ok d, source'), s')) : d.kinds ≠ [] := by
  obtain ⟨drawn, hdraw, hdata⟩ := (config.perform_ensures bench request source).of_eq_some h
  obtain ⟨rfl, hkinds⟩ := hdata d rfl
  intro hnil
  obtain rfl : request = .mixed [] := Request.kinds_eq_nil_iff.mp (hkinds.symm.trans hnil)
  rw [draw_of_noClasses] at hdraw
  cases hdraw

/-- The dataset of a run has a class, has its classes listed once each and its inputs tagged with
them. -/
theorem Yields.classed {config : RunConfig} {d : Dataset} (h : config.Yields d) :
    d.Classed ∧ d.kinds ≠ [] := by
  cases h with
  | run bench k source source' s s' h =>
      exact ⟨classed_of_perform (.single k) h, kinds_ne_nil_of_perform (.single k) h⟩
  | runMixed bench kinds source source' s s' h =>
      exact ⟨classed_of_perform (.mixed kinds) h, kinds_ne_nil_of_perform (.mixed kinds) h⟩

end RunConfig

namespace Report

/-! ## Reading columns -/

/-- The fields under a name, in a table whose first line has the names. -/
def column (name : String) : List (List String) → List String
  | [] => []
  | names :: records => records.filterMap fun r => r[names.idxOf name]?

/-- The number of columns for passes, in a table whose first line has the names. -/
def passColumns : List (List String) → Nat
  | [] => 0
  | names :: _ => names.countP fun name => "it".toList.isPrefixOf name.toList

/-- The lines of the report of a class, cut into fields. -/
def reportFields (label : String) (k : InputClass) (d : Dataset) : List (List String) :=
  (fields? label k (reportBytes label k d)).getD []

/-- The minima that stand in the reports of all classes. -/
def writtenMinima (label : String) (d : Dataset) : Multiset String :=
  d.kinds.flatMap fun k => (column "min_clock_measured" (reportFields label k d)).filter (· ≠ "")

section Fields

variable (label : String) {k : InputClass} {d : Dataset} (h : Regular k d)

include h

theorem reportFields_eq :
    reportFields label k d = header d.iterations :: (d.samplesOf k).map record := by
  rw [reportFields, fields?_reportBytes label h]
  rfl

/-- There is a column for every pass. -/
theorem passColumns_reportFields :
    passColumns (reportFields label k d) = d.iterations := by
  have hfirst : (["input_a", "input_b", "min_clock_measured"].countP
      fun name => "it".toList.isPrefixOf name.toList) = 0 := by decide
  have hpasses : (((List.range d.iterations).map fun i => "it" ++ toString (i + 1)).countP
      fun name => "it".toList.isPrefixOf name.toList) = d.iterations := by
    rw [List.countP_map, List.countP_eq_length.mpr, List.length_range]
    intro i _
    rw [Function.comp_apply, String.toList_append]
    exact List.isPrefixOf_iff_prefix.mpr (List.prefix_append _ _)
  rw [reportFields_eq label h, passColumns, header, List.countP_append, hfirst, hpasses, Nat.zero_add]

/-- The minima of the samples of a class stand in their column. -/
theorem column_reportFields :
    column "min_clock_measured" (reportFields label k d) =
      ((d.samplesOf k).map Sample.minimum).map clockField := by
  have hplace : (header d.iterations).idxOf "min_clock_measured" = 2 := by
    rw [header, List.idxOf_append_of_mem (by decide)]
    decide
  rw [reportFields_eq label h, column, hplace, List.filterMap_map, List.map_map,
    List.filterMap_eq_map_iff_forall_eq_some]
  exact fun s _ => rfl

end Fields

/-- The fields that are not empty are those of the measurements. -/
theorem filter_map_clockField (minima : List UInt64) :
    (minima.map clockField).filter (· ≠ "") =
      (minima.filter (· ≠ sentinel)).map fun c => toString c.toNat := by
  rw [List.filter_map]
  have hfilter : (minima.filter ((fun f : String => decide (f ≠ "")) ∘ clockField)) =
      minima.filter (· ≠ sentinel) := by
    refine List.filter_congr fun c _ => ?_
    simp only [Function.comp_apply, ne_eq, clockField_eq_empty_iff]
  rw [hfilter]
  refine List.map_congr_left fun c hc => ?_
  exact if_neg (of_decide_eq_true (List.mem_filter.mp hc).2)

/-- **The minima of all reports** are those of the grid that are measurements. -/
theorem writtenMinima_eq {d : Dataset} (hcomplete : d.Complete) (hclassed : d.Classed)
    (label : String) :
    writtenMinima label d =
      ((d.grid.minima.toList.filter (· ≠ sentinel)).map fun c => toString c.toNat : List String) := by
  have hfields : ∀ k, (column "min_clock_measured" (reportFields label k d)).filter (· ≠ "") =
      (((d.samplesOf k).map Sample.minimum).map clockField).filter (· ≠ "") :=
    fun k => by rw [column_reportFields label (hcomplete.regular k)]
  simp only [writtenMinima, hfields, ← List.filter_flatMap, ← List.map_flatMap]
  rw [filter_map_clockField, Multiset.coe_eq_coe, ← hcomplete.map_minimum_samples]
  exact ((hclassed.perm_samples.map _).filter _).map _

theorem mem_writtenMinima {d : Dataset} (hcomplete : d.Complete) (hclassed : d.Classed)
    {label : String} {f : String} :
    f ∈ writtenMinima label d ↔
      ∃ c ∈ d.grid.minima.toList.filter (· ≠ sentinel), toString c.toNat = f := by
  rw [writtenMinima_eq hcomplete hclassed, Multiset.mem_coe, List.mem_map]

theorem writtenMinima_eq_zero_iff {d : Dataset} (hcomplete : d.Complete) (hclassed : d.Classed)
    {label : String} :
    writtenMinima label d = 0 ↔ d.grid.minima.toList.filter (· ≠ sentinel) = [] := by
  rw [writtenMinima_eq hcomplete hclassed, Multiset.coe_eq_zero, List.map_eq_nil_iff]

end Report

namespace RunConfig

/-- **The summary is that of the reports.** Over the reports of all classes of a run, its summary has as
many samples as there are records and as many passes as each report has columns for them. It has no
range if no report has a minimum in it, and its range otherwise goes from the smallest of these minima
to the largest. -/
theorem summary_of_reports {config : RunConfig} {d : Dataset} (hd : config.Yields d) (label : String)
    (outputs : List String) :
    (Summary.ofDataset d outputs).samples = Report.totalRecords label d ∧
      d.kinds ≠ [] ∧
      (∀ k ∈ d.kinds, (Summary.ofDataset d outputs).iterations =
        Report.passColumns (Report.reportFields label k d)) ∧
      ((Summary.ofDataset d outputs).clockRange = none ↔ Report.writtenMinima label d = 0) ∧
      (Report.writtenMinima label d ≠ 0 → ∃ lo hi : UInt64,
        (Summary.ofDataset d outputs).clockRange = some (lo, hi) ∧
        toString lo.toNat ∈ Report.writtenMinima label d ∧
        toString hi.toNat ∈ Report.writtenMinima label d ∧
        ∀ f ∈ Report.writtenMinima label d, ∃ c : UInt64, f = toString c.toNat ∧ lo ≤ c ∧ c ≤ hi) := by
  obtain ⟨hcomplete, -⟩ := hd.complete
  obtain ⟨hclassed, hkinds⟩ := hd.classed
  have hspans := Summary.spans_rangeOf d.grid.minima.toList
  have hrange : (Summary.ofDataset d outputs).clockRange = Summary.rangeOf d.grid.minima.toList := rfl
  refine ⟨(Report.totalRecords_eq hclassed hcomplete label).symm, hkinds,
    fun k _ => (Report.passColumns_reportFields label (hcomplete.regular k)).symm, ?_⟩
  rw [hrange, ne_eq, Report.writtenMinima_eq_zero_iff hcomplete hclassed]
  simp only [Report.mem_writtenMinima hcomplete hclassed]
  cases hends : Summary.rangeOf d.grid.minima.toList with
  | none =>
      rw [hends] at hspans
      exact ⟨iff_of_true rfl hspans, fun h => absurd hspans h⟩
  | some ends =>
      rw [hends] at hspans
      obtain ⟨lo, hi⟩ := ends
      obtain ⟨hlo, hhi, hall⟩ := hspans
      refine ⟨iff_of_false (Option.some_ne_none _) (List.ne_nil_of_mem hlo), fun _ => ?_⟩
      refine ⟨lo, hi, rfl, ⟨lo, hlo, rfl⟩, ⟨hi, hhi, rfl⟩, ?_⟩
      rintro f ⟨c, hc, rfl⟩
      exact ⟨c, rfl, hall c hc⟩

/-- Three samples of two classes, one of which was never measured. The ends of the range are compared as
numbers: as texts they would be the other way round. Without a pass there is no range. -/
theorem summary_of_reports_unmeasured :
    (∃ d, (RunConfig.mk 3 1 1 .exhaustive).Yields d ∧
      (Summary.ofDataset d ["a.csv"]).clockRange = some (9, 12) ∧
      Report.totalRecords "-O2" d = 3 ∧
      (∀ k ∈ [InputClass.small, InputClass.fixed],
        Report.passColumns (Report.reportFields "-O2" k d) = 1) ∧
      "9" ∈ Report.writtenMinima "-O2" d ∧ "12" ∈ Report.writtenMinima "-O2" d ∧
      ∀ f ∈ Report.writtenMinima "-O2" d, ∃ c : UInt64, f = toString c.toNat ∧ 9 ≤ c ∧ c ≤ 12) ∧
    ∃ d, (RunConfig.mk 1 0 1 .exhaustive).Yields d ∧
      (Summary.ofDataset d []).clockRange = none ∧ Report.writtenMinima "-O2" d = 0 := by
  have heval : ((RunConfig.mk 3 1 1 .exhaustive).runMixed (SimulatedClock.bench .nothing).total
      [.small, .fixed, .small] (ByteCycle.ofList [0, 0, 0, 64, 0, 0, 0, 128, 0, 0, 0, 0, 7, 255])
      (.scripted 5 0 [sentinel, 12, 9])).map (·.1.1) =
        some (.ok ⟨#[⟨fixedValue, fixedValue, .fixed⟩, ⟨7, 255, .small⟩,
          ⟨fixedValue, fixedValue, .fixed⟩], ⟨#[sentinel, 12, 9], #[sentinel, 12, 9], 3, 1, 1⟩,
            [.small, .fixed]⟩) := by decide +kernel
  have heval' : ((RunConfig.mk 1 0 1 .exhaustive).run (SimulatedClock.bench .nothing).total .small
      (ByteCycle.ofList [1, 2]) (.stepping 0 1)).map (·.1.1) =
        some (.ok ⟨#[⟨1, 2, .small⟩], ⟨#[], #[sentinel], 1, 0, 0⟩, [.small]⟩) := by decide +kernel
  obtain ⟨⟨⟨r, source⟩, s⟩, hrun, rfl⟩ := Option.map_eq_some_iff.mp heval
  obtain ⟨⟨⟨r', source'⟩, s'⟩, hrun', rfl⟩ := Option.map_eq_some_iff.mp heval'
  have hyields := Yields.runMixed _ _ _ _ _ _ hrun
  have hyields' := Yields.run _ _ _ _ _ _ hrun'
  refine ⟨⟨_, hyields, by decide, ?_⟩, ⟨_, hyields', by decide, ?_⟩⟩
  · obtain ⟨hsamples, -, hpasses, hnone, hsome⟩ := summary_of_reports hyields "-O2" ["a.csv"]
    obtain ⟨lo, hi, hrange, hlo, hhi, hall⟩ := hsome fun hzero => by
      have hempty := hnone.mpr hzero
      revert hempty
      decide
    obtain ⟨rfl, rfl⟩ : (9 : UInt64) = lo ∧ (12 : UInt64) = hi :=
      Prod.mk.inj (Option.some.inj hrange)
    exact ⟨hsamples.symm, fun k hk => (hpasses k hk).symm, hlo, hhi, hall⟩
  · obtain ⟨-, -, -, hnone, -⟩ := summary_of_reports hyields' "-O2" []
    exact hnone.mp (by decide)

end RunConfig

end TimingAudit
