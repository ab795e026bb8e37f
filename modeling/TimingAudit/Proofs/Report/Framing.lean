import TimingAudit.CommandLine.Reader
import TimingAudit.Proofs.Report.Decoding
import TimingAudit.Proofs.ResultLog.Reading
import Mathlib.Data.List.SplitBy

/-!
# Cutting a log into its sections

What is drained from a log is one text, and only the lines that name the files tell where one report
ends and the next one begins. A reader cuts the text before every line that looks like one of them.
Headers and records cannot be mistaken for such a line, and the comment cannot either as long as it is
a single line. But the label in it is free text. A line feed in a label ends the comment early, and
what follows stands on lines of its own, where it may look like anything.

* `lines_append` : the lines of a text that goes on behind a line feed;
* `splitBy_eq_self_iff` : which sections are found again by cutting;
* `cut_drained_iff` : which labels leave the sections of a log intact.
-/

namespace TimingAudit

/-! ## Lines of a text -/

namespace Text

/-- The lines of a text. A line feed ends a line, and behind the last one there may be a line without
any. -/
def lines (text : String) : List String :=
  let pieces := text.toList.splitOn '\n'
  (if pieces.getLast? = some [] then pieces.dropLast else pieces).map String.ofList

theorem lines_empty : lines "" = [] := rfl

/-- Where a text is broken by line feeds, and then goes on behind another one. -/
theorem lines_append_lineFeed_append (text rest : String) :
    lines (text ++ "\n" ++ rest) = (text.toList.splitOn '\n').map String.ofList ++ lines rest := by
  have hlist : (text ++ "\n" ++ rest).toList = text.toList ++ '\n' :: rest.toList := by
    rw [String.toList_append, String.toList_append, List.append_assoc]
    rfl
  have hne : rest.toList.splitOn '\n' ≠ [] := List.splitOn_ne_nil _ _
  unfold lines
  simp only [hlist, List.splitOn_append_cons_self, List.getLast?_append_of_ne_nil _ hne,
    List.dropLast_append_of_ne_nil hne]
  split <;> rw [List.map_append]

theorem lines_append_lineFeed (text : String) :
    lines (text ++ "\n") = (text.toList.splitOn '\n').map String.ofList := by
  have h := lines_append_lineFeed_append text ""
  rwa [String.append_empty, lines_empty, List.append_nil] at h

/-- **The lines** of a text that goes on behind a line feed. -/
theorem lines_append (text rest : String) :
    lines (text ++ "\n" ++ rest) = lines (text ++ "\n") ++ lines rest := by
  rw [lines_append_lineFeed_append, lines_append_lineFeed]

/-- A text without line feeds is one line. -/
theorem lines_of_not_mem {text : String} (h : '\n' ∉ text.toList) : lines (text ++ "\n") = [text] := by
  rw [lines_append_lineFeed, List.splitOn_eq_singleton h, List.map_singleton, String.ofList_toList]

theorem not_mem_of_mem_splitOn (cs : List Char) : ∀ piece ∈ cs.splitOn '\n', '\n' ∉ piece := by
  induction cs with
  | nil => simp
  | cons c cs ih =>
      rw [List.splitOn_cons_eq_if_modifyHead]
      obtain ⟨first, rest, hsplit⟩ := List.exists_cons_of_ne_nil (List.splitOn_ne_nil '\n' cs)
      rw [hsplit] at ih ⊢
      split
      · exact List.forall_mem_cons.mpr ⟨List.not_mem_nil, ih⟩
      · rename_i hc
        obtain ⟨hfirst, hrest⟩ := List.forall_mem_cons.mp ih
        refine List.forall_mem_cons.mpr ⟨?_, hrest⟩
        rw [List.mem_cons, not_or]
        exact ⟨fun h => hc (beq_iff_eq.mpr h.symm), hfirst⟩

/-- No line has a line feed in it. -/
theorem not_mem_of_mem_lines {text line : String} (h : line ∈ lines text) : '\n' ∉ line.toList := by
  obtain ⟨piece, hpiece, rfl⟩ := List.mem_map.mp h
  rw [String.toList_ofList]
  apply not_mem_of_mem_splitOn text.toList
  split at hpiece
  · exact List.dropLast_subset _ hpiece
  · exact hpiece

end Text

namespace Report

/-! ## Cutting -/

/-- Whether a line looks like one that names a file. -/
def startsSection (line : String) : Bool := "# FILE: [".toList.isPrefixOf line.toList

/-- The sections of a text: it is cut before every line that looks like one that names a file. -/
def cut (text : String) : List (List String) :=
  (Text.lines text).splitBy fun _ next => !startsSection next

/-- A chain whose links only look ahead. -/
theorem isChain_ahead_iff {α : Type} {p : α → Bool} (a : α) (l : List α) :
    (a :: l).IsChain (fun _ next => p next = true) ↔ ∀ b ∈ l, p b = true := by
  induction l generalizing a with
  | nil => simp
  | cons b l ih => rw [List.isChain_cons_cons, ih, List.forall_mem_cons]

/-- Sections that each begin with a file line are found again by cutting exactly if no other line in
them looks like one. -/
theorem splitBy_eq_self_iff {parts : List (List String)}
    (hparts : ∀ part ∈ parts, ∃ first rest, part = first :: rest ∧ startsSection first = true) :
    (parts.flatten.splitBy fun _ next => !startsSection next) = parts ↔
      ∀ part ∈ parts, ∀ line ∈ part.tail, startsSection line = false := by
  have hne : [] ∉ parts := by
    intro hmem
    obtain ⟨_, _, himpossible, -⟩ := hparts _ hmem
    cases himpossible
  have hlinks : parts.IsChain fun part part' =>
      ∃ ha hb, (fun _ next => !startsSection next) (part.getLast ha) (part'.head hb) = false := by
    refine (List.pairwise_of_forall_mem_list fun part hpart part' hpart' => ?_).isChain
    obtain ⟨first, rest, rfl, -⟩ := hparts part hpart
    obtain ⟨first', rest', rfl, hfirst'⟩ := hparts part' hpart'
    exact ⟨List.cons_ne_nil _ _, List.cons_ne_nil _ _, by simp [hfirst']⟩
  rw [List.splitBy_eq_iff]
  simp only [hne, hlinks, not_false_eq_true, true_and, and_true]
  refine forall₂_congr fun part hpart => ?_
  obtain ⟨first, rest, rfl, -⟩ := hparts part hpart
  rw [isChain_ahead_iff]
  simp

/-! ## The lines of a section -/

/-- The line that names the file of a class. -/
def fileName (k : InputClass) : String := "# FILE: [" ++ k.resultFile ++ "]"

/-- The comment of a report, without the line feed behind it. -/
def heading (label : String) (k : InputClass) : String :=
  "# compile flags: [" ++ label ++ "], fuzz class: [" ++ k.name ++ "]"

/-- The header and the records of a class, a line each. -/
def tableLines (k : InputClass) (d : Dataset) : List String :=
  ",".intercalate (header d.iterations) ::
    (d.samplesOf k).map fun s => ",".intercalate (record s)

/-- The lines of a section whose comment is given by its lines. -/
def sectionLines (comment : List String) (k : InputClass) (d : Dataset) : List String :=
  fileName k :: (comment ++ tableLines k d)

/-- A closing bracket before a line feed. -/
theorem append_bracket_lineFeed (text : String) : text ++ "]\n" = text ++ "]" ++ "\n" := by
  have hend : "]\n" = "]" ++ "\n" := by decide
  rw [String.append_assoc, ← hend]

theorem fileLine_eq (k : InputClass) : fileLine k = fileName k ++ "\n" :=
  append_bracket_lineFeed _

theorem comment_eq (label : String) (k : InputClass) : comment label k = heading label k ++ "\n" :=
  append_bracket_lineFeed _

/-- A line feed in the comment of a report, other than the one behind it, comes from its label. -/
theorem lineFeed_mem_heading_iff {label : String} {k : InputClass} :
    '\n' ∈ (heading label k).toList ↔ '\n' ∈ label.toList := by
  have hname : '\n' ∉ k.name.toList := by cases k <;> decide
  unfold heading
  simp only [String.toList_append, List.mem_append]
  constructor
  · rintro ((((h | h) | h) | h) | h)
    · exact absurd h (by decide)
    · exact h
    · exact absurd h (by decide)
    · exact absurd h hname
    · exact absurd h (by decide)
  · intro h
    exact .inl (.inl (.inl (.inr h)))

/-- Lines of fields are the lines of their text. -/
theorem lines_join_append (rows : List (List String)) (h : ∀ r ∈ rows, ∀ f ∈ r, Unbroken f)
    (rest : String) :
    Text.lines (String.join (rows.map line) ++ rest) =
      rows.map (fun r => ",".intercalate r) ++ Text.lines rest := by
  induction rows with
  | nil =>
      rw [List.map_nil, String.join_nil, String.empty_append]
      rfl
  | cons r rows ih =>
      have hr : '\n' ∉ (",".intercalate r).toList := by
        rw [String.toList_intercalate]
        exact lineFeed_not_mem_intercalate r (h r List.mem_cons_self)
      rw [List.map_cons, String.join_cons, String.append_assoc, line, Text.lines_append,
        Text.lines_of_not_mem hr, ih fun r' hr' => h r' (List.mem_cons_of_mem _ hr'),
        List.singleton_append, List.map_cons, List.cons_append]

/-- **The lines of a section** in a log, whatever follows it. -/
theorem lines_section (label : String) {k : InputClass} {d : Dataset} (h : Regular k d)
    (rest : String) :
    Text.lines (fileLine k ++ text label k d ++ rest) =
      sectionLines (Text.lines (comment label k)) k d ++ Text.lines rest := by
  have hfile : '\n' ∉ (fileName k).toList := by cases k <;> decide
  have htable : (table k d).map (fun r => ",".intercalate r) = tableLines k d := by
    rw [table, tableLines, List.map_cons, List.map_map]
    rfl
  calc Text.lines (fileLine k ++ text label k d ++ rest)
      = Text.lines (fileName k ++ "\n" ++
          (heading label k ++ "\n" ++ (String.join ((table k d).map line) ++ rest))) := by
        rw [text, fileLine_eq, comment_eq, h.body_eq]
        simp only [String.append_assoc]
    _ = fileName k :: (Text.lines (comment label k) ++ (tableLines k d ++ Text.lines rest)) := by
        rw [Text.lines_append, Text.lines_of_not_mem hfile, Text.lines_append,
          lines_join_append _ (unbroken_of_mem_table k d), htable, comment_eq, List.singleton_append]
    _ = sectionLines (Text.lines (comment label k)) k d ++ Text.lines rest := by
        rw [sectionLines, List.cons_append, List.append_assoc]

/-! ## What looks like a file line -/

theorem toList_mark : "# FILE: [".toList = ['#', ' ', 'F', 'I', 'L', 'E', ':', ' ', '['] := by
  decide

theorem startsSection_fileName (k : InputClass) : startsSection (fileName k) = true := by
  unfold startsSection fileName
  rw [String.append_assoc, String.toList_append]
  exact List.isPrefixOf_iff_prefix.mpr (List.prefix_append _ _)

/-- A comment on one line does not look like a file line. -/
theorem startsSection_heading (label : String) (k : InputClass) :
    startsSection (heading label k) = false := by
  have hopening : "# compile flags: [".toList = '#' :: ' ' :: 'c' :: "ompile flags: [".toList := by
    decide
  unfold startsSection heading
  simp only [String.append_assoc]
  rw [String.toList_append, toList_mark, hopening]
  simp [List.isPrefixOf]

/-- A line of fields does not look like a file line, which begins with a hash. -/
theorem startsSection_fields {f : String} {fields : List String} (hne : f ≠ "")
    (hf : '#' ∉ f.toList) : startsSection (",".intercalate (f :: fields)) = false := by
  obtain ⟨c, cs, hcs⟩ : ∃ c cs, f.toList = c :: cs :=
    List.exists_cons_of_ne_nil fun h => hne (String.toList_eq_nil_iff.mp h)
  have hline : ∃ rest, (",".intercalate (f :: fields)).toList = c :: rest := by
    rw [String.toList_intercalate]
    cases fields with
    | nil => exact ⟨cs, by simpa using hcs⟩
    | cons f' fields =>
        rw [List.map_cons, List.map_cons, List.intercalate_cons_cons, hcs]
        exact ⟨_, rfl⟩
  obtain ⟨rest, hrest⟩ := hline
  have hc : '#' ≠ c := by
    rintro rfl
    exact hf (hcs ▸ List.mem_cons_self)
  unfold startsSection
  rw [toList_mark, hrest, List.isPrefixOf, beq_false_of_ne hc, Bool.false_and]

/-- Neither the header nor a record looks like a file line. -/
theorem startsSection_tableLines {k : InputClass} {d : Dataset} {line : String}
    (h : line ∈ tableLines k d) : startsSection line = false := by
  rcases List.mem_cons.mp h with rfl | h
  · exact startsSection_fields (by decide) (by decide)
  · obtain ⟨s, -, rfl⟩ := List.mem_map.mp h
    exact startsSection_fields (toString_int_ne_empty _) fun hmem =>
      absurd (numeral_toString_int _ _ hmem) (by decide)

/-! ## Logs of datasets -/

/-- Delivers the reports of datasets to a log, one dataset after another. -/
def allToLog (label : String) : List Dataset → ResultLog → Except Failure Unit × ResultLog
  | [], log => (.ok (), log)
  | d :: ds, log =>
    match toLog label d log with
    | (.error f, log) => (.error f, log)
    | (.ok (), log) => allToLog label ds log

/-- The reports of datasets, in the order in which they are delivered. -/
def reportsOf (ds : List Dataset) : List (InputClass × Dataset) :=
  ds.flatMap fun d => d.kinds.map fun k => (k, d)

/-- The text of reports in a log. -/
def stream (label : String) (reports : List (InputClass × Dataset)) : String :=
  String.join (reports.map fun report => fileLine report.1 ++ text label report.1 report.2)

theorem stream_cons (label : String) (report : InputClass × Dataset)
    (reports : List (InputClass × Dataset)) :
    stream label (report :: reports) =
      fileLine report.1 ++ text label report.1 report.2 ++ stream label reports := by
  rw [stream, List.map_cons, String.join_cons]
  rfl

/-- Every report is one of a dataset. -/
theorem regular_of_mem_reportsOf {ds : List Dataset} (h : ∀ d ∈ ds, ∀ k ∈ d.kinds, Regular k d) :
    ∀ report ∈ reportsOf ds, Regular report.1 report.2 := by
  intro report hreport
  obtain ⟨d, hd, hreport⟩ := List.mem_flatMap.mp hreport
  obtain ⟨k, hk, rfl⟩ := List.mem_map.mp hreport
  exact h d hd k hk

/-- Datasets are appended to a running log, section by section, if all their reports are accepted. -/
theorem allToLog_of_running (label : String) (ds : List Dataset) :
    ∀ {log : ResultLog}, log.Canonical → log.status = .running →
      (∀ d ∈ ds, ∀ k ∈ d.kinds, Regular k d) →
      allToLog label ds log = (.ok (), log.append (joined (ds.flatMap (sections label)))) := by
  induction ds with
  | nil =>
      intro log _ _ _
      rw [List.flatMap_nil, joined, List.flatMap_nil, ResultLog.append_nil]
      rfl
  | cons d ds ih =>
      intro log h hrunning hregular
      obtain ⟨hd, hds⟩ := List.forall_mem_cons.mp hregular
      rw [allToLog, toLog_of_running h hrunning label hd]
      show allToLog label ds _ = _
      rw [ih (h.append _) hrunning hds, h.append_append, List.flatMap_cons, joined_append]

/-- Datasets are delivered to a running log only if all their reports are accepted. -/
theorem regular_of_allToLog_eq_ok (label : String) (ds : List Dataset) :
    ∀ {log : ResultLog}, log.Canonical → log.status = .running →
      (allToLog label ds log).1 = .ok () → ∀ d ∈ ds, ∀ k ∈ d.kinds, Regular k d := by
  induction ds with
  | nil => exact fun _ _ _ d hd => absurd hd List.not_mem_nil
  | cons d ds ih =>
      intro log h hrunning hresult
      have hd : ∀ k ∈ d.kinds, Regular k d := by
        apply regular_of_deliverAll_eq_ok label d d.kinds h hrunning
        show (toLog label d log).1 = .ok ()
        rw [allToLog] at hresult
        split at hresult
        · cases hresult
        · rename_i hlog
          rw [hlog]
      rw [allToLog, toLog_of_running h hrunning label hd] at hresult
      exact List.forall_mem_cons.mpr ⟨hd, ih (h.append _) hrunning hresult⟩

/-- The bytes of reports in a log are those of their text. -/
theorem utf8_stream (label : String) (reports : List (InputClass × Dataset)) :
    utf8 (stream label reports) =
      joined (reports.map fun report => (report.1, reportBytes label report.1 report.2)) := by
  induction reports with
  | nil => rfl
  | cons report reports ih =>
      rw [stream_cons, List.map_cons, joined_cons, ← ih, ← utf8_text, ← utf8_append, ← utf8_append]

/-- **The text of a log** that some datasets were delivered to. -/
theorem drained_eq_stream (label : String) {ds : List Dataset}
    (hregular : ∀ d ∈ ds, ∀ k ∈ d.kinds, Regular k d) :
    ∃ log drained, allToLog label ds ResultLog.empty = (.ok (), log) ∧
      log.markDone.drain (#[] : Array UInt8) = (.ok drained.size, drained) ∧
      String.fromUTF8? ⟨drained⟩ = some (stream label (reportsOf ds)) := by
  have hparts : ds.flatMap (sections label) =
      (reportsOf ds).map fun report => (report.1, reportBytes label report.1 report.2) := by
    rw [reportsOf, List.map_flatMap]
    refine List.flatMap_congr fun d _ => ?_
    rw [sections, List.map_map]
    rfl
  have hlog := allToLog_of_running label ds ResultLog.canonical_empty rfl hregular
  rw [hparts, ← utf8_stream] at hlog
  have hcanonical :=
    (ResultLog.canonical_empty.append (utf8 (stream label (reportsOf ds)))).markDone
  obtain ⟨drained, hdrain, hreceived⟩ :=
    hcanonical.drain_of_takesAll rfl ByteSink.takesAll_array (#[] : Array UInt8)
  have hbytes : drained.toList = utf8 (stream label (reportsOf ds)) :=
    hreceived.trans (ResultLog.contents_append _ _)
  refine ⟨_, drained, hlog, ?_, ?_⟩
  · rw [hdrain, hcanonical.length, ← Array.length_toList, hreceived]
    rfl
  · rw [← fromUTF8?_utf8, ← hbytes]

/-- The lines of a log are those of its sections. -/
theorem lines_stream (label : String) (reports : List (InputClass × Dataset))
    (hregular : ∀ report ∈ reports, Regular report.1 report.2) :
    Text.lines (stream label reports) =
      (reports.map fun report =>
        sectionLines (Text.lines (comment label report.1)) report.1 report.2).flatten := by
  induction reports with
  | nil => rfl
  | cons report reports ih =>
      obtain ⟨hreport, hreports⟩ := List.forall_mem_cons.mp hregular
      rw [stream_cons, lines_section label hreport, ih hreports, List.map_cons, List.flatten_cons]

/-- The sections of a log are found again by cutting exactly if no line of a comment looks like a file
line. -/
theorem cut_stream_iff (label : String) {reports : List (InputClass × Dataset)}
    (hregular : ∀ report ∈ reports, Regular report.1 report.2) :
    cut (stream label reports) = (reports.map fun report =>
        sectionLines (Text.lines (comment label report.1)) report.1 report.2) ↔
      ∀ report ∈ reports, ∀ line ∈ Text.lines (comment label report.1),
        startsSection line = false := by
  unfold cut
  rw [lines_stream label reports hregular, splitBy_eq_self_iff, List.forall_mem_map]
  · refine forall₂_congr fun report _ => ?_
    rw [sectionLines, List.tail_cons, List.forall_mem_append]
    exact and_iff_left fun line hline => startsSection_tableLines hline
  · intro part hpart
    obtain ⟨report, -, rfl⟩ := List.mem_map.mp hpart
    exact ⟨_, _, rfl, startsSection_fileName report.1⟩

/-- A comment without line feeds is one line. -/
theorem lines_comment {label : String} (h : '\n' ∉ label.toList) (k : InputClass) :
    Text.lines (comment label k) = [heading label k] := by
  rw [comment_eq]
  exact Text.lines_of_not_mem fun hmem => h (lineFeed_mem_heading_iff.mp hmem)

/-- **Cutting a log into its sections.** Datasets are delivered to a new log, which succeeds exactly if
all records are as long as their headers, and always succeeds for datasets of runs. Then all bytes of
the log are drained and cut before every line that begins like one that names a file. The sections
come out as they were delivered, each with the lines of its comment wherever these are broken, exactly
if no line of a comment begins in this way. Every section has its file line, one comment line, a
header line and one line for each record, and nothing else, exactly if there is no line feed in the
label, or there are no sections at all. -/
theorem cut_drained_iff (label : String) (ds : List Dataset) :
    let outcome := allToLog label ds ResultLog.empty
    (outcome.1 = .ok () ↔ ∀ d ∈ ds, ∀ k ∈ d.kinds, Regular k d) ∧
    ((∀ d ∈ ds, ∃ config : RunConfig, config.Yields d) → outcome.1 = .ok ()) ∧
    (outcome.1 = .ok () → ∃ drained text,
      outcome.2.markDone.drain (#[] : Array UInt8) = (.ok drained.size, drained) ∧
      String.fromUTF8? ⟨drained⟩ = some text ∧
      (cut text = (reportsOf ds).map (fun report =>
          sectionLines (Text.lines (comment label report.1)) report.1 report.2) ↔
        ∀ report ∈ reportsOf ds, ∀ line ∈ Text.lines (comment label report.1),
          startsSection line = false) ∧
      (cut text = (reportsOf ds).map (fun report =>
          sectionLines [heading label report.1] report.1 report.2) ↔
        '\n' ∉ label.toList ∨ reportsOf ds = [])) := by
  intro outcome
  have hiff : outcome.1 = .ok () ↔ ∀ d ∈ ds, ∀ k ∈ d.kinds, Regular k d := by
    refine ⟨regular_of_allToLog_eq_ok label ds ResultLog.canonical_empty rfl, fun hregular => ?_⟩
    exact congrArg Prod.fst (allToLog_of_running label ds ResultLog.canonical_empty rfl hregular)
  refine ⟨hiff, ?_, ?_⟩
  · intro hyields
    refine hiff.mpr fun d hd k _ => ?_
    obtain ⟨config, hconfig⟩ := hyields d hd
    exact hconfig.complete.1.regular k
  intro hok
  have hregular := hiff.mp hok
  obtain ⟨log, drained, hlog, hdrain, htext⟩ := drained_eq_stream label hregular
  have hcut := cut_stream_iff label (regular_of_mem_reportsOf hregular)
  have houtcome : outcome.2 = log := congrArg Prod.snd hlog
  refine ⟨drained, _, by rw [houtcome, hdrain], htext, hcut, ?_⟩
  constructor
  · intro hsections
    by_contra hnot
    rw [not_or, not_not] at hnot
    obtain ⟨hfeed, hne⟩ := hnot
    obtain ⟨report, hreport⟩ := List.exists_mem_of_ne_nil _ hne
    -- The comment of a report would be a line of the text, with a line feed in it.
    have hflat := List.flatten_splitBy (fun _ next => !startsSection next)
      (Text.lines (stream label (reportsOf ds)))
    have hline : heading label report.1 ∈ Text.lines (stream label (reportsOf ds)) := by
      rw [← hflat]
      refine List.mem_flatten.mpr ⟨sectionLines [heading label report.1] report.1 report.2, ?_, ?_⟩
      · show _ ∈ cut (stream label (reportsOf ds))
        rw [hsections]
        exact List.mem_map_of_mem hreport
      · simp [sectionLines]
    exact Text.not_mem_of_mem_lines hline (lineFeed_mem_heading_iff.mpr hfeed)
  · rintro (hfeed | hnil)
    · simp only [lines_comment hfeed, List.forall_mem_singleton, startsSection_heading] at hcut
      exact hcut.mpr fun _ _ => trivial
    · rw [hnil]
      rfl

/-- A label that a command line can have, and a report of one record under it. The label has a line
feed in it and begins another section behind that: the log of the one report is cut into two
sections, and the second one names the file of another class. -/
theorem cut_drained_two_sections :
    let label := "O2\n# FILE: [result-zero.csv]"
    let d : Dataset := ⟨#[⟨fixedValue, fixedValue, .fixed⟩], Grid.blank 1 0, [.fixed]⟩
    ((CommandLine.options (["audit", "1", label, "fixed", "--buffered"].map
      Argument.ofString)).toOption.map Options.label) = some label ∧
    (RunConfig.mk 1 0 1 .exhaustive).Yields d ∧
    ∃ log drained text, allToLog label [d] ResultLog.empty = (.ok (), log) ∧
      log.markDone.drain (#[] : Array UInt8) = (.ok drained.size, drained) ∧
      String.fromUTF8? ⟨drained⟩ = some text ∧
      cut text =
        [["# FILE: [result-fixed.csv]", "# compile flags: [O2"],
          ["# FILE: [result-zero.csv]], fuzz class: [fixed]", "input_a,input_b,min_clock_measured",
            "305419896,305419896,"]] := by
  intro label d
  have heval : ((RunConfig.mk 1 0 1 .exhaustive).run (SimulatedClock.bench .nothing).total .fixed
      (ByteCycle.ofList []) (.stepping 0 1)).map (·.1.1) = some (.ok d) := by decide +kernel
  obtain ⟨⟨⟨r, source'⟩, s'⟩, hrun, rfl⟩ := Option.map_eq_some_iff.mp heval
  have hyields := RunConfig.Yields.run _ _ _ _ _ _ hrun
  have hregular : ∀ d' ∈ [d], ∀ k ∈ d'.kinds, Regular k d' :=
    List.forall_mem_singleton.mpr fun k _ => hyields.complete.1.regular k
  obtain ⟨log, drained, hlog, hdrain, htext⟩ := drained_eq_stream label hregular
  exact ⟨by decide +kernel, hyields, log, drained, _, hlog, hdrain, htext, by decide +kernel⟩

end Report

end TimingAudit
