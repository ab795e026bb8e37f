/-!
# The bench

A bench is what an audit measures on: a tick counter and the function under audit, called for its
effect only. It is written for every monad, so that the same audit runs on a real counter and on a
simulated one. A timing window is an opening read, a number of calls in a row and a closing read; its
length is the difference of the two reads modulo `2 ^ 64`.
-/

namespace TimingAudit

/-- A tick counter together with the function under audit. -/
structure Bench (m : Type → Type) where
  /-- Reads the counter before a window. -/
  opening : m UInt64
  /-- Reads the counter after a window. -/
  closing : m UInt64
  /-- Calls the function under audit. -/
  call : Int64 → Int64 → m Unit

namespace Bench

variable {m : Type → Type} [Monad m]

/-- The number of calls in a window, unless another one is asked for. -/
def defaultRepeats : UInt64 := 100

/-- Calls the function under audit `n` times in a row. -/
@[specialize] def calls (bench : Bench m) (a b : Int64) : Nat → m Unit
  | 0 => pure ()
  | n + 1 => do
    bench.call a b
    bench.calls a b n

/-- The ticks that pass while the function under audit is called `repeats` times. -/
@[specialize] def measure (bench : Bench m) (a b : Int64) (repeats : Nat) : m UInt64 := do
  let start ← bench.opening
  bench.calls a b repeats
  let stop ← bench.closing
  pure (stop - start)

end Bench

end TimingAudit
