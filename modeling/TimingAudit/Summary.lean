import TimingAudit.Dataset

/-!
# The summary of a run
-/

namespace TimingAudit

/-- What a finished run looked like. -/
structure Summary where
  samples : Nat := 0
  iterations : Nat := 0
  /-- The smallest and the largest minimum of the samples that were measured. -/
  clockRange : Option (UInt64 × UInt64) := none
  /-- The files that were written. -/
  outputs : List String := []
deriving DecidableEq

namespace Summary

/-- Widens a range so that it holds a tick count. -/
def widen : Option (UInt64 × UInt64) → UInt64 → Option (UInt64 × UInt64)
  | none, c => some (c, c)
  | some (lo, hi), c => some (min lo c, max hi c)

/-- The range of the tick counts that are measurements. -/
def rangeOf (minima : List UInt64) : Option (UInt64 × UInt64) :=
  (minima.filter (· ≠ sentinel)).foldl widen none

/-- The summary of a dataset whose reports were written to `outputs`. -/
def ofDataset (d : Dataset) (outputs : List String) : Summary where
  samples := d.size
  iterations := d.iterations
  clockRange := rangeOf d.grid.minima.toList
  outputs := outputs

/-- The text of a range of tick counts. -/
def rangeText : Option (UInt64 × UInt64) → String
  | none => "nothing measured"
  | some (lo, hi) =>
    "min clocks in [" ++ toString lo.toNat ++ ", " ++ toString hi.toNat ++ "]"

/-- The files written, as the end of a summary line. -/
def outputsText : List String → String
  | [] => ""
  | outputs => " -> " ++ ", ".intercalate outputs

/-- The summary in one line. -/
def text (s : Summary) : String :=
  "n == " ++ toString s.samples ++ ", iterations == " ++ toString s.iterations ++ ", " ++
    rangeText s.clockRange ++ outputsText s.outputs

end Summary

end TimingAudit
