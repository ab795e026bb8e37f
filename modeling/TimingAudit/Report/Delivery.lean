import TimingAudit.Report.Table
import TimingAudit.ResultLog

/-!
# Delivering reports

A report goes to a sink in two parts: the comment line at once, and the lines after it through a
buffer that is passed on whenever it is full and more is to follow, and at the end. A buffer that was
refused is offered once more when the delivery is given up. A refusal of the comment or of the last
buffer is a plain write failure, that of an earlier buffer a table failure. A record that is refused
itself gives up the delivery as well, and what becomes of the last buffer does not matter then.

The reports of a dataset go into a folder, one file per class, or into a result log, each behind a
line that names its file.
-/

namespace TimingAudit.Report

/-- The size of the buffer that lines pass through. -/
def bufferSize : Nat := 8192

section Sink

variable {ω : Type} [ByteSink ω]

/-- Passes bytes on, buffer by buffer, where it is known how the lines end that they are from. -/
def passOn (ending : Except Failure Unit) (bytes : Bytes) (sink : ω) : Except Failure Unit × ω :=
  if bytes.drop bufferSize = [] then
    match ending with
    | .error f => (.error f, (ByteSink.push bytes sink).2)
    | .ok () =>
      match ByteSink.push bytes sink with
      | (.ok (), sink) => (.ok (), sink)
      | (.error e, sink) => (.error (.write e), (ByteSink.push bytes sink).2)
  else
    match ByteSink.push (bytes.take bufferSize) sink with
    | (.ok (), sink) => passOn ending (bytes.drop bufferSize) sink
    | (.error e, sink) => (.error (.table e), (ByteSink.push (bytes.take bufferSize) sink).2)
termination_by bytes.length
decreasing_by
  rename_i _ h
  rw [List.drop_eq_nil_iff] at h
  rw [List.length_drop]
  exact Nat.sub_lt (Nat.lt_of_le_of_lt (Nat.zero_le _) (Nat.lt_of_not_le h)) (by decide)

/-- Delivers the report of a class to a sink. -/
def deliver (label : String) (k : InputClass) (d : Dataset) (sink : ω) : Except Failure Unit × ω :=
  match ByteSink.push (utf8 (comment label k)) sink with
  | (.error e, sink) => (.error (.write e), sink)
  | (.ok (), sink) => passOn (verdict k d) (utf8 (body k d)) sink

end Sink

/-- The line that names the file of a class in a log. -/
def fileLine (k : InputClass) : String := "# FILE: [" ++ k.resultFile ++ "]\n"

/-- Delivers the reports of the given classes to a log, each behind its file line. -/
def deliverAll (label : String) (d : Dataset) :
    List InputClass → ResultLog → Except Failure Unit × ResultLog
  | [], log => (.ok (), log)
  | k :: ks, log =>
    match log.writeAll (utf8 (fileLine k)) with
    | (.error e, log) => (.error (.write e), log)
    | (.ok (), log) =>
      match deliver label k d log with
      | (.error f, log) => (.error f, log)
      | (.ok (), log) => deliverAll label d ks log

/-- Delivers the reports of a dataset to a log. -/
def toLog (label : String) (d : Dataset) (log : ResultLog) : Except Failure Unit × ResultLog :=
  deliverAll label d d.kinds log

/-- The path of a file in a folder. -/
def pathIn (folder file : String) : String :=
  match folder.toList.getLast? with
  | none => file
  | some '/' => folder ++ file
  | some _ => folder ++ "/" ++ file

section Folder

variable {m : Type → Type} [Monad m]

/-- Saves the reports of the given classes in a folder, behind those already written. -/
def saveAll (save : String → String → m (Except WriteError Unit)) (folder label : String)
    (d : Dataset) : List InputClass → List String → m (Except Failure (List String))
  | [], written => pure (.ok written)
  | k :: ks, written => do
    match ← save (pathIn folder k.resultFile) (text label k d) with
    | .error e => pure (.error (.write e))
    | .ok () =>
      match verdict k d with
      | .error f => pure (.error f)
      | .ok () => saveAll save folder label d ks (written ++ [pathIn folder k.resultFile])

/-- Saves the reports of a dataset in a folder and returns the paths written. -/
def toFolder (save : String → String → m (Except WriteError Unit)) (folder label : String)
    (d : Dataset) : m (Except Failure (List String)) :=
  saveAll save folder label d d.kinds []

end Folder

end TimingAudit.Report
