/-!
# A function worth auditing

The function that the command line audits. It returns early on a comparison of its arguments, so that
classes with ordered arguments show different tick counts.
-/

namespace TimingAudit

/-- The seed of an audit that names none, so that its inputs are the same every time. -/
def auditSeed : UInt64 := 0x6b6c816d

/-- One step of the slow branch. -/
def mix (b acc : Int64) : Int64 := (acc * b) ^^^ (acc >>> 3)

/-- Eight steps if the first argument is the smaller one, none otherwise. -/
def branching (a b : Int64) : Int64 :=
  if a < b then (Nat.repeat (mix b) 8 a) &&& 0xFF else 0

end TimingAudit
