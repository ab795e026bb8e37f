import TimingAudit.Grid.Converge

/-!
# Datasets

The finished result of one run: the inputs and every measurement taken of them.
-/

namespace TimingAudit

/-- The inputs of a run, the grid of their measurements and the classes they were drawn from. -/
structure Dataset where
  inputs : Array Input
  grid : Grid
  /-- One class unless the run was mixed. -/
  kinds : List InputClass
deriving DecidableEq

/-- One input with its measurements. -/
structure Sample where
  input : Input
  /-- The smallest measurement, `sentinel` if there is none. -/
  minimum : UInt64
  /-- The measurement of every pass, in order. -/
  passes : List UInt64
deriving DecidableEq

namespace Dataset

/-- The number of samples. -/
def size (d : Dataset) : Nat := d.inputs.size

/-- The number of passes run. -/
def iterations (d : Dataset) : Nat := d.grid.passes

/-- The sample of the input in column `col`. -/
def sampleAt (d : Dataset) (col : Nat) (x : Input) : Sample where
  input := x
  minimum := d.grid.minima.getD col sentinel
  passes := (d.grid.columnCells col).take d.grid.passes

/-- All samples, in the order of the inputs. -/
def samples (d : Dataset) : List Sample :=
  d.inputs.toList.zipIdx.map fun (x, col) => d.sampleAt col x

/-- The samples whose input was drawn from a class. -/
def samplesOf (d : Dataset) (k : InputClass) : List Sample :=
  d.samples.filter fun s => s.input.kind = k

end Dataset

end TimingAudit
