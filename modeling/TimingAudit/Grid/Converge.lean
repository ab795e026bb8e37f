import TimingAudit.Bench
import TimingAudit.Draw
import TimingAudit.Grid.Basic

/-!
# Filling the grid

A pass goes through the samples in order and folds one timing window of each into the row of the pass.
Passes go on where earlier ones ended, and rows are added when the grid runs out of them.

Under early exit a sample that has been measured is left out of a pass while its minimum is within a
tolerance of the smallest minimum of all samples; its cell of that pass then stays empty. The
smallest minimum is kept up to date within a pass, so a fast window late in one pass can bring back
in the next pass a sample that was left out before.
-/

namespace TimingAudit

/-- Which samples a pass measures. -/
inductive Policy
  /-- Every sample in every pass. -/
  | exhaustive
  /-- Samples whose minimum exceeds the smallest one by more than the tolerance. -/
  | earlyExit (tolerance : UInt64)
deriving DecidableEq

/-- The sum of two words, or the largest word if the sum is larger. -/
def saturatingAdd (a b : UInt64) : UInt64 := UInt64.ofNat (min (a.toNat + b.toNat) (wordLimit - 1))

/-- Whether a sample with the minimum `current` is left out while `best` is the smallest minimum. -/
def Policy.skips : Policy → (current best : UInt64) → Bool
  | .exhaustive, _, _ => false
  | .earlyExit tolerance, current, best =>
    current != sentinel && decide (current ≤ saturatingAdd best tolerance)

namespace Grid

variable {m : Type → Type} [Monad m]

/-- The number of passes, unless another one is asked for. -/
def defaultPasses : UInt64 := 10

/-- Measures the inputs from column `col` on in the given row, `best` being the smallest minimum of
all samples so far. -/
@[specialize] def sweep (bench : Bench m) (policy : Policy) (repeats row : Nat) :
    List Input → (col : Nat) → (best : UInt64) → Grid → m (Except Failure Grid)
  | [], _, _, g => pure (.ok g)
  | x :: xs, col, best, g =>
    match g.minimum col with
    | .error f => pure (.error (.fault f))
    | .ok current =>
      if policy.skips current best then sweep bench policy repeats row xs (col + 1) best g
      else do
        let clocks ← bench.measure x.a x.b repeats
        match g.record row col clocks with
        | .error f => pure (.error (.fault f))
        | .ok g => sweep bench policy repeats row xs (col + 1) (min best clocks) g

/-- Runs `n` passes over the inputs, the first one in row `g.passes`. -/
@[specialize] def runPasses (bench : Bench m) (policy : Policy) (repeats : Nat)
    (inputs : List Input) : Nat → Grid → m (Except Failure Grid)
  | 0, g => pure (.ok g)
  | n + 1, g => do
    match ← sweep bench policy repeats g.passes inputs 0 g.best g with
    | .error f => pure (.error f)
    | .ok g => runPasses bench policy repeats inputs n { g with passes := g.passes + 1 }

/-- Makes room for `passes` more passes over `inputCount` inputs. -/
def prepare (g : Grid) (inputCount passes : Nat) : Except Failure Grid :=
  if inputCount ≠ g.sampleCount then .error (.sampleCountMismatch inputCount g.sampleCount)
  else if wordLimit ≤ g.passes + passes then .error (.fault .countOverflow)
  else g.addRows (g.passes + passes)

/-- Runs `passes` more passes over the inputs, with `repeats` calls in every timing window. Nothing is
measured unless there is one input per column and room for all passes. -/
@[specialize] def converge (bench : Bench m) (policy : Policy) (inputs : List Input)
    (passes repeats : Nat) (g : Grid) : m (Except Failure Grid) :=
  match g.prepare inputs.length passes with
  | .error f => pure (.error f)
  | .ok g => runPasses bench policy repeats inputs passes g

end Grid

end TimingAudit
