import TimingAudit.Dataset

/-!
# The text of a report

A report holds the samples of one class: a comment line with a label and the class, a header, and one
record per sample. Fields are joined by commas and lines end in a single line feed. A sample that a
pass did not measure has an empty field there, and an empty minimum if no pass measured it. No field
holds a comma, a quote or a line feed, so none is ever quoted; the label stands in the comment line
as it is. A record that has not as many fields as the header is refused, and the report then ends
behind its fields.
-/

namespace TimingAudit.Report

/-- The first line of a report. -/
def comment (label : String) (k : InputClass) : String :=
  "# compile flags: [" ++ label ++ "], fuzz class: [" ++ k.name ++ "]\n"

/-- The field of a tick count, empty if there is no measurement. -/
def clockField (clocks : UInt64) : String :=
  if clocks = sentinel then "" else toString clocks.toNat

/-- The column names of a report with `iterations` passes. -/
def header (iterations : Nat) : List String :=
  ["input_a", "input_b", "min_clock_measured"] ++
    (List.range iterations).map fun i => "it" ++ toString (i + 1)

/-- The fields of a sample. -/
def record (s : Sample) : List String :=
  [toString s.input.a.toInt, toString s.input.b.toInt, clockField s.minimum] ++
    s.passes.map clockField

/-- A line of fields. -/
def line (fields : List String) : String := ",".intercalate fields ++ "\n"

/-- The header and the records of a class. -/
def table (k : InputClass) (d : Dataset) : List (List String) :=
  header d.iterations :: (d.samplesOf k).map record

/-- The text of rows with `width` fields each, and what is said of them. A row that has another number
of fields is written without the end of its line, and refused. -/
def written (width : Nat) : List (List String) → String × Except Failure Unit
  | [] => ("", .ok ())
  | fields :: rows =>
    if fields.length = width then
      let (text, verdict) := written width rows
      (line fields ++ text, verdict)
    else (",".intercalate fields, .error (.fieldCount width fields.length))

/-- The lines after the comment. -/
def body (k : InputClass) (d : Dataset) : String :=
  (written (header d.iterations).length (table k d)).1

/-- Whether all records have as many fields as the header. -/
def verdict (k : InputClass) (d : Dataset) : Except Failure Unit :=
  (written (header d.iterations).length (table k d)).2

/-- The whole report of a class. -/
def text (label : String) (k : InputClass) (d : Dataset) : String :=
  comment label k ++ body k d

end TimingAudit.Report
