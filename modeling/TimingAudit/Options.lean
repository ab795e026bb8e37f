import TimingAudit.Run

/-!
# Options of an audit
-/

namespace TimingAudit

/-- What to audit and where the results go.

With `mixed` all classes are audited in one run, in which every sample has a class of its own;
otherwise each class has its own run, in order. With `buffered` the results are kept in memory and
printed at the end, instead of being written to `outDir`. -/
structure Options where
  sampleCount : UInt64 := 0
  /-- A free text that every report carries. -/
  label : String := ""
  classes : ClassQueue := ClassQueue.empty
  iterations : UInt64 := Grid.defaultPasses
  repeats : UInt64 := Bench.defaultRepeats
  outDir : String := "."
  seed : Option UInt64 := none
  mixed : Bool := false
  /-- The tolerance of early exit, where it is asked for. -/
  earlyExit : Option UInt64 := none
  buffered : Bool := false
deriving DecidableEq

/-- The policy of a run with the given tolerance of early exit. -/
def Policy.ofTolerance : Option UInt64 → Policy
  | none => .exhaustive
  | some tolerance => .earlyExit tolerance

/-- The shape of the runs that the options ask for. -/
def Options.runConfig (o : Options) : RunConfig where
  sampleCount := o.sampleCount
  iterations := o.iterations
  repeats := o.repeats
  policy := Policy.ofTolerance o.earlyExit

end TimingAudit
