import TimingAudit.Proofs.Report.Decoding
import TimingAudit.Proofs.Run.Inputs

/-!
# Mixed runs

The samples of a mixed run go into as many reports as there are classes, each sample into the report
of its tag. Nothing is lost and nothing is doubled on the way: the classes of the dataset are listed
once each, every tag is among them, and so every column belongs to exactly one of them.

* `samplesOf_eq` : the samples of a class are those of its columns, in order;
* `Classed.existsUnique_class` : every column has one class;
* `Classed.perm_samples` : the samples of all classes together are all samples;
* `totalRecords_eq` : the records of all reports are as many as the samples;
* `runMixed_partitions` : all of this, for every mixed run.
-/

namespace TimingAudit

/-! ## The columns of a class -/

namespace Dataset

/-- The columns whose input was drawn from a class. -/
def columnsOf (d : Dataset) (k : InputClass) : List Nat :=
  (d.inputs.toList.zipIdx.filter fun entry => entry.1.kind = k).map Prod.snd

theorem mem_columnsOf {d : Dataset} {k : InputClass} {col : Nat} :
    col ∈ d.columnsOf k ↔ ∃ x, d.inputs[col]? = some x ∧ x.kind = k := by
  simp [columnsOf, List.mk_mem_zipIdx_iff_getElem?]

/-- Columns are listed in order. -/
theorem pairwise_columnsOf (d : Dataset) (k : InputClass) : (d.columnsOf k).Pairwise (· < ·) := by
  have hall : (d.inputs.toList.zipIdx.map Prod.snd).Pairwise (· < ·) := by
    rw [List.zipIdx_map_snd]
    exact List.pairwise_lt_range'
  exact hall.sublist (List.filter_sublist.map Prod.snd)

/-- The sample of a column. -/
theorem getElem?_samples (d : Dataset) (col : Nat) :
    d.samples[col]? = d.inputs[col]?.map (d.sampleAt col) := by
  simp [samples, List.getElem?_zipIdx, Function.comp_def]

/-- The samples of a class are those of its columns. -/
theorem samplesOf_eq (d : Dataset) (k : InputClass) :
    d.samplesOf k = (d.columnsOf k).filterMap fun col => d.samples[col]? := by
  have hsamples : d.samplesOf k =
      (d.inputs.toList.zipIdx.filter fun entry => entry.1.kind = k).map
        fun entry => d.sampleAt entry.2 entry.1 := by
    rw [samplesOf, samples, List.filter_map]
    rfl
  rw [hsamples, columnsOf, List.filterMap_map, eq_comm, List.filterMap_eq_map_iff_forall_eq_some]
  intro entry hentry
  have hinput : d.inputs[entry.2]? = some entry.1 := by
    have hmem := List.mk_mem_zipIdx_iff_getElem?.mp (List.mem_of_mem_filter hentry)
    rwa [Array.getElem?_toList] at hmem
  show d.samples[entry.2]? = _
  rw [getElem?_samples, hinput, Option.map_some]

theorem length_samples (d : Dataset) : d.samples.length = d.size := by
  simp [samples, size]

/-- Every input is tagged with one of the classes, and these are listed once each. -/
structure Classed (d : Dataset) : Prop where
  nodup : d.kinds.Nodup
  tagged : ∀ x ∈ d.inputs, x.kind ∈ d.kinds

/-- Every column belongs to one class. -/
theorem Classed.existsUnique_class {d : Dataset} (hd : d.Classed) {col : Nat} (hcol : col < d.size) :
    ∃! k, k ∈ d.kinds ∧ col ∈ d.columnsOf k := by
  have hinput : d.inputs[col]? = some d.inputs[col] := Array.getElem?_eq_getElem hcol
  refine ⟨d.inputs[col].kind, ⟨hd.tagged _ (Array.getElem_mem hcol), ?_⟩, ?_⟩
  · exact mem_columnsOf.mpr ⟨_, hinput, rfl⟩
  · rintro k ⟨-, hk⟩
    obtain ⟨x, hx, rfl⟩ := mem_columnsOf.mp hk
    rw [hinput] at hx
    cases hx
    rfl

/-- Samples of one more class are put beside the others. -/
theorem perm_filter_mem_cons {k : InputClass} {ks : List InputClass} (hk : k ∉ ks)
    (samples : List Sample) :
    ((samples.filter fun s => s.input.kind = k) ++
      samples.filter fun s => s.input.kind ∈ ks).Perm
        (samples.filter fun s => s.input.kind ∈ k :: ks) := by
  have hclass : ((samples.filter fun s => s.input.kind ∈ k :: ks).filter
      fun s => s.input.kind = k) = samples.filter fun s => s.input.kind = k := by
    rw [List.filter_filter]
    refine List.filter_congr fun s _ => ?_
    by_cases hs : s.input.kind = k
    · simp [hs]
    · simp [hs]
  -- No sample is on both sides, since `k` is not among the others.
  have hothers : ((samples.filter fun s => s.input.kind ∈ k :: ks).filter
      fun s => !decide (s.input.kind = k)) = samples.filter fun s => s.input.kind ∈ ks := by
    rw [List.filter_filter]
    refine List.filter_congr fun s _ => ?_
    by_cases hs : s.input.kind = k
    · simp [hs, hk]
    · simp [hs]
  have hperm := List.filter_append_perm (fun s : Sample => s.input.kind = k)
    (samples.filter fun s => s.input.kind ∈ k :: ks)
  rwa [hclass, hothers] at hperm

/-- **The samples of all classes** are the samples of the dataset, in another order. -/
theorem Classed.perm_samples {d : Dataset} (hd : d.Classed) :
    (d.kinds.flatMap d.samplesOf).Perm d.samples := by
  have hperm : ∀ ks : List InputClass, ks.Nodup →
      (ks.flatMap d.samplesOf).Perm (d.samples.filter fun s => s.input.kind ∈ ks) := by
    intro ks hks
    induction ks with
    | nil => simp
    | cons k ks ih =>
        obtain ⟨hk, hks⟩ := List.nodup_cons.mp hks
        rw [List.flatMap_cons]
        exact ((ih hks).append_left _).trans (perm_filter_mem_cons hk d.samples)
  have hall : (d.samples.filter fun s => s.input.kind ∈ d.kinds) = d.samples := by
    rw [List.filter_eq_self]
    intro s hs
    obtain ⟨⟨x, col⟩, hentry, rfl⟩ := List.mem_map.mp hs
    have hx : x ∈ d.inputs := Array.mem_toList_iff.mp (List.fst_mem_of_mem_zipIdx hentry)
    exact decide_eq_true (hd.tagged x hx)
  rw [← hall]
  exact hperm d.kinds hd.nodup

end Dataset

/-! ## The records of all reports -/

namespace Report

/-- The number of records in a report: its lines behind the header. -/
def recordCount (label : String) (k : InputClass) (bytes : Bytes) : Nat :=
  ((fields? label k bytes).getD []).tail.length

/-- The number of records in all reports of a dataset. -/
def totalRecords (label : String) (d : Dataset) : Nat :=
  d.kinds.foldr (fun k total => recordCount label k (reportBytes label k d) + total) 0

/-- There is a record for every sample of the class. -/
theorem recordCount_reportBytes (label : String) {k : InputClass} {d : Dataset} (h : Regular k d) :
    recordCount label k (reportBytes label k d) = (d.samplesOf k).length := by
  rw [recordCount, fields?_reportBytes label h]
  exact List.length_map _

/-- Every sample has one record in all reports together. -/
theorem totalRecords_eq {d : Dataset} (hd : d.Classed) (hcomplete : d.Complete) (label : String) :
    totalRecords label d = d.size := by
  have hcount : ∀ ks : List InputClass,
      ks.foldr (fun k total => recordCount label k (reportBytes label k d) + total) 0 =
        (ks.flatMap d.samplesOf).length := by
    intro ks
    induction ks with
    | nil => rfl
    | cons k ks ih =>
        rw [List.foldr_cons, ih, recordCount_reportBytes label (hcomplete.regular k),
          List.flatMap_cons, List.length_append]
  rw [totalRecords, hcount, hd.perm_samples.length_eq, Dataset.length_samples]

end Report

/-! ## Mixed runs -/

namespace RunConfig

variable {σ : Type} [RandomSource σ]

/-- A mixed run does not see repeats in its list of classes. -/
theorem runMixed_firstOccurrences {m : Type → Type} [Monad m] [MonadLiftT Option m]
    (config : RunConfig) (bench : Bench m) (kinds : List InputClass) (source : σ) :
    config.runMixed bench (firstOccurrences kinds) source = config.runMixed bench kinds source := by
  simp only [runMixed, onceEach_eq_firstOccurrences, firstOccurrences_firstOccurrences]

/-- The dataset of a request has its classes listed once each, and its inputs tagged with them. -/
theorem classed_of_perform {τ : Type} {config : RunConfig} {bench : Bench (StateT τ Option)}
    (request : Request) {source source' : σ} {s s' : τ} {d : Dataset}
    (h : config.perform bench request source s = some ((.ok d, source'), s')) : d.Classed := by
  obtain ⟨hkinds, -, hinputs⟩ := inputs_of_perform request h
  constructor
  · rw [hkinds]
    cases request with
    | single k => exact List.pairwise_singleton _ k
    | mixed kinds => exact (isFirsts_firstOccurrences kinds).nodup
  · intro x hx
    rw [hkinds]
    exact (hinputs x hx).1

/-- **A mixed run loses and doubles nothing.** The classes of its dataset are the first occurrences of
those that were asked for, which is also what a queue of these lists as its distinct classes, and
asking for them alone gives the same dataset from the same source and bench. Every sample is among
those of exactly one of these classes, the samples of a class are in the order of all samples, and
the reports of all classes together have as many records as there are samples. -/
theorem runMixed_partitions {τ : Type} {config : RunConfig} {bench : Bench (StateT τ Option)}
    {kinds : List InputClass} {source source' : σ} {s s' : τ} {d : Dataset}
    (h : config.runMixed bench kinds source s = some ((.ok d, source'), s')) :
    IsFirsts kinds d.kinds ∧ d.kinds = (ClassQueue.mk kinds).distinct ∧
      config.runMixed bench d.kinds source s = some ((.ok d, source'), s') ∧
      d.samples.length = config.sampleCount.toNat ∧
      (∀ col < config.sampleCount.toNat, ∃! k, k ∈ d.kinds ∧ col ∈ d.columnsOf k) ∧
      (∀ k, (d.columnsOf k).Pairwise (· < ·) ∧
        d.samplesOf k = (d.columnsOf k).filterMap fun col => d.samples[col]?) ∧
      ∀ label, Report.totalRecords label d = config.sampleCount.toNat := by
  obtain ⟨hkinds, hsize, -⟩ := inputs_of_perform (.mixed kinds) h
  have hclassed := classed_of_perform (.mixed kinds) h
  have hcomplete := (Yields.runMixed _ _ _ _ _ _ h).complete.1
  have hkinds' : d.kinds = firstOccurrences kinds := hkinds
  have hsize' : d.size = config.sampleCount.toNat := hsize
  refine ⟨?_, ?_, ?_, ?_, ?_, ?_, ?_⟩
  · rw [hkinds']
    exact isFirsts_firstOccurrences kinds
  · rw [hkinds', ClassQueue.distinct, onceEach_eq_firstOccurrences]
  · rw [hkinds', runMixed_firstOccurrences]
    exact h
  · rw [Dataset.length_samples, hsize']
  · intro col hcol
    exact hclassed.existsUnique_class (by rw [hsize']; exact hcol)
  · intro k
    exact ⟨d.pairwise_columnsOf k, d.samplesOf_eq k⟩
  · intro label
    rw [Report.totalRecords_eq hclassed hcomplete, hsize']

/-- Three samples of two classes, one of which is listed twice. The first word that is drawn decides no
choice and is passed over. -/
theorem runMixed_partitions_repeated :
    ∃ d source' s',
      (RunConfig.mk 3 1 1 .exhaustive).runMixed (SimulatedClock.bench .nothing).total
        [.small, .fixed, .small] (ByteCycle.ofList [0, 0, 0, 64, 0, 0, 0, 128, 0, 0, 0, 0, 7, 255])
        (.stepping 0 1) = some ((.ok d, source'), s') ∧
      d.kinds = [.small, .fixed] ∧ d.columnsOf .small = [1] ∧ d.columnsOf .fixed = [0, 2] ∧
      IsFirsts [.small, .fixed, .small] d.kinds ∧
      (∀ col < 3, ∃! k, k ∈ d.kinds ∧ col ∈ d.columnsOf k) ∧
      Report.totalRecords "-O2" d = 3 := by
  have heval : ((RunConfig.mk 3 1 1 .exhaustive).runMixed (SimulatedClock.bench .nothing).total
      [.small, .fixed, .small] (ByteCycle.ofList [0, 0, 0, 64, 0, 0, 0, 128, 0, 0, 0, 0, 7, 255])
      (.stepping 0 1)).map (·.1.1) =
        some (.ok ⟨#[⟨fixedValue, fixedValue, .fixed⟩, ⟨7, 255, .small⟩,
          ⟨fixedValue, fixedValue, .fixed⟩], ⟨#[1, 1, 1], #[1, 1, 1], 3, 1, 1⟩,
            [.small, .fixed]⟩) := by decide +kernel
  obtain ⟨⟨⟨r, source'⟩, s'⟩, hrun, rfl⟩ := Option.map_eq_some_iff.mp heval
  obtain ⟨hfirsts, -, -, -, hcolumns, -, htotal⟩ := runMixed_partitions hrun
  exact ⟨_, _, _, hrun, rfl, by decide, by decide, hfirsts, hcolumns, htotal "-O2"⟩

end RunConfig

end TimingAudit
