import TimingAudit.Proofs.Report.Schema
import TimingAudit.Proofs.Report.Sections

/-!
# Reading a report back

A report says all that there is to say of the samples of its class. Its reader takes off the comment,
cuts the rest into lines and these into fields, finds the number of passes in the header, and reads
in every record two signed numbers, a minimum and as many passes as the header has columns for. An
empty clock field stands for no measurement. What does not have this form is refused.

* `readSigned_toString`, `readClock_clockField` : single fields;
* `readRecord_record` : records;
* `decode_reportBytes` : reports, so that different samples never have the same report.
-/

namespace TimingAudit

namespace Text

/-- A signed 64-bit number in decimal digits. -/
def readSigned : List Char → Option Int64
  | '-' :: cs => do
    let n ← readDigits 10 cs
    if n ≤ 0x8000000000000000 then some (Int64.ofInt (-n)) else none
  | cs => do
    let n ← readDigits 10 cs
    if n < 0x8000000000000000 then some (Int64.ofInt n) else none

/-- The digits of a number are read back. -/
theorem readDigits_toString (n : Nat) : readDigits 10 (toString n).toList = some n := by
  have hread := digitsFrom_ten _ (fun _ => isDigit_of_mem_toString (n := n)) 0
  rw [toList_toString] at hread ⊢
  rw [Nat.ofDigitChars_ten_toDigits] at hread
  obtain ⟨c, cs, hcs⟩ := List.exists_cons_of_ne_nil (Nat.toDigits_ne_nil (b := 10) (n := n))
  rw [hcs] at hread ⊢
  exact hread

/-- **A signed number** is read back. -/
theorem readSigned_toString (a : Int64) : readSigned (toString a.toInt).toList = some a := by
  have hlow : -0x8000000000000000 ≤ a.toInt := a.le_toInt
  have hhigh : a.toInt < 0x8000000000000000 := a.toInt_lt
  have hvalue : Int64.ofInt a.toInt = a := a.ofInt_toInt
  cases h : a.toInt with
  | ofNat n =>
      rw [h] at hhigh hvalue
      have hn : n < 0x8000000000000000 := Int.ofNat_lt.mp hhigh
      have hread := readDigits_toString n
      show readSigned (toString n).toList = some a
      unfold readSigned
      split
      · rename_i cs hcs
        exact absurd (congrArg List.head? hcs) (head?_toString_ne n (by decide))
      · rw [hread, Option.bind_eq_bind, Option.bind_some, if_pos hn]
        exact congrArg some hvalue
  | negSucc n =>
      rw [h] at hlow hvalue
      have hn : n + 1 ≤ 0x8000000000000000 := by omega
      rw [toList_toString_negSucc, readSigned, readDigits_toString, Option.bind_eq_bind,
        Option.bind_some, if_pos hn]
      exact congrArg some hvalue

end Text

namespace Report

/-! ## Fields and records -/

/-- The ticks of a clock field, `sentinel` if it is empty. -/
def readClock (field : String) : Option UInt64 :=
  if field = "" then some sentinel else Text.readDecimal field.toList

/-- The sample of a record with a field for every pass. -/
def readRecord (k : InputClass) (iterations : Nat) : List String → Option Sample
  | a :: b :: least :: passes =>
    if passes.length = iterations then do
      let a ← Text.readSigned a.toList
      let b ← Text.readSigned b.toList
      let least ← readClock least
      let passes ← passes.mapM readClock
      some ⟨⟨a, b, k⟩, least, passes⟩
    else none
  | _ => none

/-- The number of passes that a header has columns for. -/
def readHeader (names : List String) : Option Nat :=
  if names = header (names.length - 3) then some (names.length - 3) else none

/-- **A clock field** is read back: only an unmeasured one is empty. -/
theorem readClock_clockField (clocks : UInt64) : readClock (clockField clocks) = some clocks := by
  unfold readClock
  by_cases h : clocks = sentinel
  · rw [if_pos (clockField_eq_empty_iff.mpr h), h]
  · have hne : clockField clocks ≠ "" := fun hempty => h (clockField_eq_empty_iff.mp hempty)
    rw [if_neg hne, clockField_of_ne_empty hne]
    exact Text.readDecimal_toString clocks

/-- What is read back one by one is read back as a whole. -/
theorem mapM_map_eq_some {α β : Type} {f : α → β} {g : β → Option α} (l : List α)
    (h : ∀ x ∈ l, g (f x) = some x) : (l.map f).mapM g = some l := by
  induction l with
  | nil => rfl
  | cons x l ih =>
      rw [List.map_cons, List.mapM_cons, h x List.mem_cons_self,
        ih fun y hy => h y (List.mem_cons_of_mem _ hy)]
      rfl

/-- **A record** is read back. -/
theorem readRecord_record (s : Sample) :
    readRecord s.input.kind s.passes.length (record s) = some s := by
  have hpasses : (s.passes.map clockField).mapM readClock = some s.passes :=
    mapM_map_eq_some s.passes fun clocks _ => readClock_clockField clocks
  have hrecord : record s = toString s.input.a.toInt :: toString s.input.b.toInt ::
      clockField s.minimum :: s.passes.map clockField := rfl
  rw [hrecord, readRecord, if_pos (List.length_map _), Text.readSigned_toString,
    Text.readSigned_toString, readClock_clockField, hpasses]
  rfl

/-- **A header** is read back. -/
theorem readHeader_header (iterations : Nat) : readHeader (header iterations) = some iterations := by
  have hlength : (header iterations).length - 3 = iterations := by
    rw [length_header, Nat.add_sub_cancel_left]
  rw [readHeader, hlength, if_pos rfl]

/-! ## Reports -/

/-- The fields of the lines behind the comment of a report. -/
def fields? (label : String) (k : InputClass) (bytes : Bytes) : Option (List (List String)) := do
  let rest ← bytes.dropPrefix? (utf8 (comment label k))
  let text ← String.fromUTF8? ⟨rest.toArray⟩
  some (readTable text)

/-- The number of passes and the samples of a report. -/
def decode (label : String) (k : InputClass) (bytes : Bytes) : Option (Nat × List Sample) := do
  match ← fields? label k bytes with
  | [] => none
  | names :: records =>
    let iterations ← readHeader names
    let samples ← records.mapM (readRecord k iterations)
    some (iterations, samples)

/-- The bytes of a text are those of no other. -/
theorem fromUTF8?_utf8 (s : String) : String.fromUTF8? ⟨(utf8 s).toArray⟩ = some s := by
  have hbytes : (⟨(utf8 s).toArray⟩ : ByteArray) = s.toByteArray := rfl
  rw [hbytes, String.fromUTF8?, dif_pos s.isValidUTF8]
  rfl

/-- The lines of a report are found behind its comment, whatever stands in the label. -/
theorem fields?_reportBytes (label : String) {k : InputClass} {d : Dataset} (h : Regular k d) :
    fields? label k (reportBytes label k d) = some (table k d) := by
  have hrest : (reportBytes label k d).dropPrefix? (utf8 (comment label k)) =
      some (utf8 (body k d)) := by
    rw [reportBytes_eq]
    exact List.dropPrefix?_append_of_beq _ (beq_self_eq_true _)
  simp only [fields?, hrest, fromUTF8?_utf8, Option.bind_eq_bind, Option.bind_some,
    readTable_body h]

/-- The report of a complete dataset is read back. -/
theorem decode_of_complete {d : Dataset} (hd : d.Complete) (label : String) (k : InputClass) :
    decode label k (reportBytes label k d) = some (d.iterations, d.samplesOf k) := by
  have hrecords : ((d.samplesOf k).map record).mapM (readRecord k d.iterations) =
      some (d.samplesOf k) := by
    refine mapM_map_eq_some _ fun s hs => ?_
    obtain ⟨hsample, hkind⟩ := List.mem_filter.mp hs
    have hread := readRecord_record s
    rwa [of_decide_eq_true hkind, (hd.sample hsample).1] at hread
  rw [decode, fields?_reportBytes label (hd.regular k), Option.bind_eq_bind, Option.bind_some]
  show (readHeader (header d.iterations) >>= _) = _
  rw [readHeader_header, Option.bind_eq_bind, Option.bind_some, hrecords]
  rfl

/-- **Decoding undoes encoding.** For every dataset that a run has returned, the reader finds in the
report of a class, under the label it was written with, the number of passes and exactly the samples
of the class, in order: their arguments, minima and passes. So reports of one class under one label
are different wherever the passes or the samples are. -/
theorem decode_reportBytes {config : RunConfig} {d : Dataset} (hd : config.Yields d) (label : String)
    (k : InputClass) :
    decode label k (reportBytes label k d) = some (d.iterations, d.samplesOf k) ∧
      ∀ {config' : RunConfig} {d' : Dataset}, config'.Yields d' →
        reportBytes label k d' = reportBytes label k d →
        d'.iterations = d.iterations ∧ d'.samplesOf k = d.samplesOf k := by
  have hread := decode_of_complete hd.complete.1 label k
  refine ⟨hread, ?_⟩
  intro config' d' hd' hbytes
  have hread' := decode_of_complete hd'.complete.1 label k
  rw [hbytes, hread, Option.some.injEq, Prod.mk.injEq] at hread'
  exact ⟨hread'.1.symm, hread'.2.symm⟩

/-- Two samples with the lowest and the highest argument, each left unmeasured by one of two passes,
under a label with a line feed; and the report of the same inputs without any pass. -/
theorem decode_reportBytes_unmeasured :
    ∃ d d', (RunConfig.mk 2 2 1 (.earlyExit 0)).Yields d ∧
      (RunConfig.mk 2 0 1 .exhaustive).Yields d' ∧
      decode "-O2\n1,2" .max64 (reportBytes "-O2\n1,2" .max64 d) =
        some (2, [⟨⟨Int64.minValue, Int64.maxValue, .max64⟩, 5, [sentinel, 5]⟩,
          ⟨⟨Int64.minValue, Int64.maxValue, .max64⟩, 3, [3, sentinel]⟩]) ∧
      reportBytes "-O2\n1,2" .max64 d' ≠ reportBytes "-O2\n1,2" .max64 d := by
  have heval : ((RunConfig.mk 2 2 1 (.earlyExit 0)).run (SimulatedClock.bench .nothing).total .max64
      (ByteCycle.ofList [255, 255, 255, 255, 0, 0, 0, 0, 0, 0, 0, 128])
      (.scripted 5 0 [sentinel, 3, 5])).map (·.1.1) =
        some (.ok ⟨#[⟨Int64.minValue, Int64.maxValue, .max64⟩,
          ⟨Int64.minValue, Int64.maxValue, .max64⟩],
          ⟨#[sentinel, 3, 5, sentinel], #[5, 3], 2, 2, 2⟩, [.max64]⟩) := by
    decide +kernel
  have heval' : ((RunConfig.mk 2 0 1 .exhaustive).run (SimulatedClock.bench .nothing).total .max64
      (ByteCycle.ofList [255, 255, 255, 255, 0, 0, 0, 0, 0, 0, 0, 128]) (.stepping 0 1)).map (·.1.1) =
        some (.ok ⟨#[⟨Int64.minValue, Int64.maxValue, .max64⟩,
          ⟨Int64.minValue, Int64.maxValue, .max64⟩],
          ⟨#[], #[sentinel, sentinel], 2, 0, 0⟩, [.max64]⟩) := by
    decide +kernel
  obtain ⟨⟨⟨r, source⟩, s⟩, hrun, rfl⟩ := Option.map_eq_some_iff.mp heval
  obtain ⟨⟨⟨r', source'⟩, s'⟩, hrun', rfl⟩ := Option.map_eq_some_iff.mp heval'
  have hyields := RunConfig.Yields.run _ _ _ _ _ _ hrun
  have hyields' := RunConfig.Yields.run _ _ _ _ _ _ hrun'
  obtain ⟨hread, hdiffer⟩ := decode_reportBytes hyields "-O2\n1,2" .max64
  refine ⟨_, _, hyields, hyields', hread, fun hbytes => ?_⟩
  exact absurd (hdiffer hyields' hbytes).1 (by decide)

end Report

end TimingAudit
