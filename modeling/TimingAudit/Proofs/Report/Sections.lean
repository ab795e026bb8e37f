import TimingAudit.Proofs.Report.Delivery
import TimingAudit.Proofs.ResultLog.Calls

/-!
# The sections of a log

The reports of a dataset stand in a log one behind the other, each behind the line that names its
file. Buffers and blocks leave no trace in it: a running log takes the reports as if all of their bytes
were appended at once (`toLog_of_running`).
-/

namespace TimingAudit

theorem utf8_append (s s' : String) : utf8 (s ++ s') = utf8 s ++ utf8 s' := by
  simp [utf8]

/-- Bytes that are offered to a running log are appended. -/
theorem ResultLog.writeAll_of_running {log : ResultLog} (h : log.status = .running) (bytes : Bytes) :
    log.writeAll bytes = (.ok (), log.append bytes) := by
  unfold writeAll
  cases bytes with
  | nil =>
      rw [append_nil]
      rfl
  | cons b bs => exact write_of_running h _

namespace Report

/-! ## The bytes of a section -/

/-- The bytes of the report of a class: what is delivered to a sink that keeps everything. -/
def reportBytes (label : String) (k : InputClass) (d : Dataset) : Bytes :=
  (deliver label k d (#[] : Array UInt8)).2.toList

/-- The reports of a dataset, each beside its class. -/
def sections (label : String) (d : Dataset) : List (InputClass × Bytes) :=
  d.kinds.map fun k => (k, reportBytes label k d)

/-- The texts of the reports of a dataset, each beside its class. -/
def texts (label : String) (d : Dataset) : List (InputClass × String) :=
  d.kinds.map fun k => (k, text label k d)

/-- The bytes of sections in a log, each report behind its file line. -/
def joined (parts : List (InputClass × Bytes)) : Bytes :=
  parts.flatMap fun part => utf8 (fileLine part.1) ++ part.2

theorem joined_cons (part : InputClass × Bytes) (parts : List (InputClass × Bytes)) :
    joined (part :: parts) = utf8 (fileLine part.1) ++ part.2 ++ joined parts :=
  List.flatMap_cons

theorem joined_append (parts parts' : List (InputClass × Bytes)) :
    joined (parts ++ parts') = joined parts ++ joined parts' :=
  List.flatMap_append

/-- A report is its comment and the lines after it. -/
theorem reportBytes_eq (label : String) (k : InputClass) (d : Dataset) :
    reportBytes label k d = utf8 (comment label k) ++ utf8 (body k d) := by
  obtain ⟨received, hdeliver, hreceived⟩ :=
    deliver_of_takesAll ByteSink.takesAll_array label k d (#[] : Array UInt8)
  unfold reportBytes
  rw [hdeliver, hreceived]
  rfl

/-- A report is the text that is saved in a file. -/
theorem utf8_text (label : String) (k : InputClass) (d : Dataset) :
    utf8 (text label k d) = reportBytes label k d := by
  rw [reportBytes_eq]
  exact utf8_append _ _

theorem sections_eq_map_texts (label : String) (d : Dataset) :
    sections label d = (texts label d).map fun part => (part.1, utf8 part.2) := by
  unfold sections texts
  rw [List.map_map]
  exact List.map_congr_left fun k _ => congrArg _ (utf8_text label k d).symm

/-! ## Delivering to a running log -/

section Running

variable {log : ResultLog} (h : log.Canonical) (hrunning : log.status = .running)

include h hrunning

/-- Bytes that are passed on buffer by buffer are appended. -/
theorem passOn_of_running (ending : Except Failure Unit) (bytes : Bytes) :
    passOn ending bytes log = (ending, log.append bytes) := by
  have hpush : ∀ {log : ResultLog}, log.status = .running → ∀ bytes,
      ByteSink.push bytes log = (.ok (), log.append bytes) :=
    fun hlog bytes => ResultLog.writeAll_of_running hlog bytes
  fun_induction passOn ending bytes log with
  | case1 bytes log _ f hending => rw [hpush hrunning, hending]
  | case2 bytes log _ hending log' hpushed =>
      rw [hpush hrunning] at hpushed
      cases hpushed
      rw [hending]
  | case3 bytes log _ hending e log' hpushed =>
      rw [hpush hrunning] at hpushed
      cases hpushed
  | case4 bytes log _ log' hpushed ih =>
      rw [hpush hrunning] at hpushed
      cases hpushed
      rw [ih (h.append _) hrunning, h.append_append, List.take_append_drop]
  | case5 bytes log _ e log' hpushed =>
      rw [hpush hrunning] at hpushed
      cases hpushed

/-- A report is appended. -/
theorem deliver_of_running (label : String) (k : InputClass) (d : Dataset) :
    deliver label k d log = (verdict k d, log.append (reportBytes label k d)) := by
  have hcomment : ByteSink.push (utf8 (comment label k)) log =
      (.ok (), log.append (utf8 (comment label k))) :=
    ResultLog.writeAll_of_running hrunning _
  have hbody := passOn_of_running (h.append (utf8 (comment label k))) hrunning (verdict k d)
    (utf8 (body k d))
  rw [deliver, hcomment, reportBytes_eq, ← h.append_append]
  exact hbody

end Running

/-- The first of several reports is appended behind its file line, and the others follow if it is
accepted. -/
theorem deliverAll_cons_of_running {log : ResultLog} (h : log.Canonical)
    (hrunning : log.status = .running) (label : String) (d : Dataset) (k : InputClass)
    (ks : List InputClass) :
    deliverAll label d (k :: ks) log =
      match verdict k d with
      | .error f => (.error f, log.append (utf8 (fileLine k) ++ reportBytes label k d))
      | .ok () =>
        deliverAll label d ks (log.append (utf8 (fileLine k) ++ reportBytes label k d)) := by
  have hline := ResultLog.writeAll_of_running hrunning (utf8 (fileLine k))
  have hreport := deliver_of_running (h.append (utf8 (fileLine k))) hrunning label k d
  rw [h.append_append] at hreport
  simp only [deliverAll, hline, hreport]
  cases verdict k d <;> rfl

/-- The reports of the given classes are appended, each behind its file line. -/
theorem deliverAll_of_running (label : String) (d : Dataset) (ks : List InputClass) :
    ∀ {log : ResultLog}, log.Canonical → log.status = .running → (∀ k ∈ ks, Regular k d) →
      deliverAll label d ks log =
        (.ok (), log.append (joined (ks.map fun k => (k, reportBytes label k d)))) := by
  induction ks with
  | nil =>
      intro log _ _ _
      rw [List.map_nil, joined, List.flatMap_nil, ResultLog.append_nil]
      rfl
  | cons k ks ih =>
      intro log h hrunning hregular
      obtain ⟨hk, hks⟩ := List.forall_mem_cons.mp hregular
      rw [deliverAll_cons_of_running h hrunning, verdict_eq_ok_iff.mpr hk]
      simp only
      rw [ih (h.append _) hrunning hks, h.append_append, List.map_cons, joined_cons]

/-- **The reports of a dataset** are appended to a running log, section by section, if all of them are
accepted. -/
theorem toLog_of_running {log : ResultLog} (h : log.Canonical) (hrunning : log.status = .running)
    (label : String) {d : Dataset} (hregular : ∀ k ∈ d.kinds, Regular k d) :
    toLog label d log = (.ok (), log.append (joined (sections label d))) :=
  deliverAll_of_running label d d.kinds h hrunning hregular

/-- The reports of the given classes are delivered to a running log only if all of them are accepted. -/
theorem regular_of_deliverAll_eq_ok (label : String) (d : Dataset) (ks : List InputClass) :
    ∀ {log : ResultLog}, log.Canonical → log.status = .running →
      (deliverAll label d ks log).1 = .ok () → ∀ k ∈ ks, Regular k d := by
  induction ks with
  | nil => exact fun _ _ _ k hk => absurd hk List.not_mem_nil
  | cons k ks ih =>
      intro log h hrunning hresult
      rw [deliverAll_cons_of_running h hrunning] at hresult
      cases hverdict : verdict k d with
      | error f =>
          rw [hverdict] at hresult
          cases hresult
      | ok u =>
          rw [hverdict] at hresult
          exact List.forall_mem_cons.mpr
            ⟨verdict_eq_ok_iff.mp hverdict, ih (h.append _) hrunning hresult⟩

end Report

end TimingAudit
