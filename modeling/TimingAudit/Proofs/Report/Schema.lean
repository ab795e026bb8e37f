import TimingAudit.Bench.Simulated
import TimingAudit.Proofs.Bench.Trace
import TimingAudit.Proofs.Report.Delivery
import TimingAudit.Proofs.Report.Reading
import TimingAudit.Proofs.Run
import TimingAudit.Random.ByteCycle

/-!
# The schema of a report

In the report of a run every record has a field for each column name, and its minimum belongs to the
passes beside it: an empty minimum stands beside empty passes only, and any other is the smallest
number among them. A window that happens to last for as many ticks as the sentinel shows as no
measurement, so the sentinel is never written out.

* `clockFields_of_wellFormed` : the law of the clock fields, for a sample whose minimum is that of
  its passes;
* `deliver_schema` : the law of the whole report, for every dataset of a run.
-/

namespace TimingAudit.Report

/-- The clock fields of a record: a minimum and the passes that it belongs to. -/
structure ClockFields (least : String) (passes : List String) : Prop where
  /-- The minimum is empty exactly if all passes are. -/
  empty_iff : least = "" ↔ ∀ f ∈ passes, f = ""
  /-- Any other minimum stands among the passes, and no number there is smaller. -/
  smallest : least ≠ "" → ∃ v : Nat, least = toString v ∧ least ∈ passes ∧
    ∀ f ∈ passes, f ≠ "" → ∃ w : Nat, f = toString w ∧ v ≤ w
  /-- No field shows the number of the sentinel. -/
  ne_sentinel : ∀ f ∈ least :: passes, f ≠ "18446744073709551615"

/-! ## Single fields -/

/-- A number has at least one digit. -/
theorem toString_ne_empty (n : Nat) : toString n ≠ "" := by
  intro h
  have hdigits := Text.toList_toString n
  rw [h] at hdigits
  exact Nat.toDigits_ne_nil hdigits.symm

theorem toString_int_ne_empty (i : Int) : toString i ≠ "" := by
  cases i with
  | ofNat n => exact toString_ne_empty n
  | negSucc n =>
      intro h
      have hchars := Text.toList_toString_negSucc n
      rw [h] at hchars
      cases hchars

/-- A clock field is empty exactly if there is no measurement. -/
theorem clockField_eq_empty_iff {clocks : UInt64} : clockField clocks = "" ↔ clocks = sentinel := by
  unfold clockField
  split
  · rename_i h
    exact iff_of_true rfl h
  · rename_i h
    exact iff_of_false (toString_ne_empty _) h

/-- Any other clock field is the number of ticks. -/
theorem clockField_of_ne_empty {clocks : UInt64} (h : clockField clocks ≠ "") :
    clockField clocks = toString clocks.toNat :=
  if_neg fun hs => h (clockField_eq_empty_iff.mpr hs)

/-- The sentinel is never written out. -/
theorem clockField_ne_sentinel (clocks : UInt64) : clockField clocks ≠ "18446744073709551615" := by
  intro h
  have hne : clockField clocks ≠ "" := by
    rw [h]
    decide
  -- Read the digits back: they would be those of the sentinel.
  have hdigits := Text.toList_toString clocks.toNat
  rw [← clockField_of_ne_empty hne, h] at hdigits
  have hvalue : clocks.toNat = sentinel.toNat := by
    calc clocks.toNat
        = Nat.ofDigitChars 10 (Nat.toDigits 10 clocks.toNat) 0 := Nat.ofDigitChars_ten_toDigits.symm
      _ = Nat.ofDigitChars 10 "18446744073709551615".toList 0 := by rw [hdigits]
      _ = sentinel.toNat := by decide
  exact hne (clockField_eq_empty_iff.mpr (UInt64.toNat_inj.mp hvalue))

/-! ## Records -/

/-- The fields of a sample whose minimum is that of its passes. -/
theorem clockFields_of_wellFormed {s : Sample} (hs : s.WellFormed) :
    ClockFields (clockField s.minimum) (s.passes.map clockField) where
  empty_iff := by
    rw [clockField_eq_empty_iff]
    constructor
    · intro hmin f hf
      obtain ⟨clocks, hclocks, rfl⟩ := List.mem_map.mp hf
      have hle := hs.minimum_le clocks hclocks
      rw [hmin] at hle
      exact clockField_eq_empty_iff.mpr (UInt64.le_antisymm (le_sentinel _) hle)
    · intro hall
      rcases hs.minimum_mem with hmin | hmem
      · exact hmin
      · exact clockField_eq_empty_iff.mp (hall _ (List.mem_map_of_mem hmem))
  smallest := by
    intro hne
    refine ⟨s.minimum.toNat, clockField_of_ne_empty hne, ?_, ?_⟩
    · rcases hs.minimum_mem with hmin | hmem
      · exact absurd (clockField_eq_empty_iff.mpr hmin) hne
      · exact List.mem_map_of_mem hmem
    · intro f hf hfne
      obtain ⟨clocks, hclocks, rfl⟩ := List.mem_map.mp hf
      exact ⟨clocks.toNat, clockField_of_ne_empty hfne,
        UInt64.le_iff_toNat_le.mp (hs.minimum_le clocks hclocks)⟩
  ne_sentinel := by
    intro f hf
    rcases List.mem_cons.mp hf with rfl | hf
    · exact clockField_ne_sentinel _
    · obtain ⟨clocks, -, rfl⟩ := List.mem_map.mp hf
      exact clockField_ne_sentinel clocks

/-- **The schema of a report.** For every dataset that a run has returned, a sink that takes
everything gets the report of every class, and no record is refused. Behind the comment this is a table
with a header and one record per sample of the class. Every record is made of numerals, one for each
column of the header, and its clock fields obey their law. -/
theorem deliver_schema {config : RunConfig} {d : Dataset} (hd : config.Yields d) {ω : Type}
    [ByteSink ω] {received : ω → Bytes} (hsink : ByteSink.TakesAll received) (label : String)
    (k : InputClass) (sink : ω) :
    ∃ sink' body records,
      deliver label k d sink = (.ok (), sink') ∧
      received sink' = received sink ++ utf8 (comment label k) ++ utf8 body ∧
      readTable body = header d.iterations :: records ∧
      d.iterations = config.iterations.toNat ∧
      (header d.iterations).length = 3 + d.iterations ∧
      records.length = (d.samplesOf k).length ∧
      ∀ r ∈ records, r.length = 3 + d.iterations ∧ (∀ f ∈ r, Numeral f) ∧
        ∃ a b least passes, r = a :: b :: least :: passes ∧ ClockFields least passes := by
  obtain ⟨hcomplete, hiterations⟩ := hd.complete
  have hregular := hcomplete.regular k
  obtain ⟨sink', hdeliver, hreceived⟩ := deliver_of_takesAll hsink label k d sink
  rw [verdict_eq_ok_iff.mpr hregular] at hdeliver
  refine ⟨sink', body k d, (d.samplesOf k).map record, hdeliver, hreceived, readTable_body hregular,
    hiterations, length_header _, List.length_map _, ?_⟩
  intro r hr
  obtain ⟨s, hs, rfl⟩ := List.mem_map.mp hr
  obtain ⟨-, hwf⟩ := hcomplete.sample (List.mem_of_mem_filter hs)
  refine ⟨?_, fun f hf => numeral_of_mem_record hf, _, _, _, _, rfl, clockFields_of_wellFormed hwf⟩
  rw [length_record, hregular s hs]

/-- Two samples and two passes under early exit. The first window of one sample lasts for as long as
the sentinel, and the other sample is left out of the second pass: either record has an empty pass.
-/
theorem deliver_schema_two_passes :
    ∃ d, (RunConfig.mk 2 2 1 (.earlyExit 0)).Yields d ∧
      d.grid.cells = #[sentinel, 3, 5, sentinel] ∧
      ByteSink.TakesAll (Array.toList : Array UInt8 → Bytes) ∧
      ∃ sink' body records,
        deliver "-O2" .small d (#[] : Array UInt8) = (.ok (), sink') ∧
        sink'.toList = utf8 (comment "-O2" .small) ++ utf8 body ∧
        readTable body = header 2 :: records ∧
        ∀ r ∈ records, r.length = 5 ∧
          ∃ a b least passes, r = a :: b :: least :: passes ∧ ClockFields least passes := by
  have heval : ((RunConfig.mk 2 2 1 (.earlyExit 0)).run (SimulatedClock.bench .nothing).total .small
      (ByteCycle.ofList [1, 2, 3, 4]) (.scripted 5 0 [sentinel, 3, 5])).map (·.1.1) =
        some (.ok ⟨#[⟨1, 2, .small⟩, ⟨3, 4, .small⟩],
          ⟨#[sentinel, 3, 5, sentinel], #[5, 3], 2, 2, 2⟩, [.small]⟩) := by
    decide +kernel
  obtain ⟨⟨⟨r, source'⟩, s'⟩, hrun, rfl⟩ := Option.map_eq_some_iff.mp heval
  have hyields := RunConfig.Yields.run _ _ _ _ _ _ hrun
  obtain ⟨sink', body, records, hdeliver, hreceived, hread, -, -, -, hrecords⟩ :=
    deliver_schema hyields ByteSink.takesAll_array "-O2" .small #[]
  exact ⟨_, hyields, rfl, ByteSink.takesAll_array, sink', body, records, hdeliver, hreceived, hread,
    fun r hr => ⟨(hrecords r hr).1, (hrecords r hr).2.2⟩⟩

end TimingAudit.Report
