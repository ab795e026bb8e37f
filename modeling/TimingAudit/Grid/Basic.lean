import TimingAudit.Failure

/-!
# The measurement grid

Tick counts by pass and sample: row `j` holds pass `j`, column `i` belongs to input `i`. The cells lie
row by row in one buffer, beside the running minimum of every column.

Noise on a busy machine can only make a computation look slower, never faster. So every cell keeps the
smallest value ever recorded in it, and the result of a sample is the minimum over all passes.
-/

namespace TimingAudit

/-- Marks a cell that holds no measurement. -/
def sentinel : UInt64 := 0xFFFFFFFFFFFFFFFF

/-- Tick counts by pass and sample, with the running minimum of every sample. -/
structure Grid where
  cells : Array UInt64
  minima : Array UInt64
  sampleCount : Nat
  rows : Nat
  /-- The number of passes run so far. -/
  passes : Nat
deriving DecidableEq

namespace Grid

/-- A grid of `rows` passes without any measurement. -/
def blank (sampleCount rows : Nat) : Grid where
  cells := Array.replicate (sampleCount * rows) sentinel
  minima := Array.replicate sampleCount sentinel
  sampleCount := sampleCount
  rows := rows
  passes := 0

/-- A blank grid, if there is room for its cells and its minima. -/
def allocate (sampleCount rows : Nat) : Except Failure Grid :=
  if wordLimit ≤ sampleCount * rows then .error (.allocation .cells (wordLimit - 1))
  else if ¬ Store.cells.Fits (sampleCount * rows) then
    .error (.allocation .cells (sampleCount * rows))
  else if ¬ Store.minima.Fits sampleCount then .error (.allocation .minima sampleCount)
  else .ok (blank sampleCount rows)

/-- The place of a cell in the buffer. -/
def place (g : Grid) (row col : Nat) : Nat := row * g.sampleCount + col

/-- The cell at a row and a column. -/
def get (g : Grid) (row col : Nat) : Except Fault UInt64 :=
  if g.sampleCount ≤ col then .error (.columnOutOfRange col)
  else if wordLimit ≤ g.place row col then .error .countOverflow
  else
    match g.cells[g.place row col]? with
    | none => .error .indexOutOfRange
    | some clocks => .ok clocks

/-- All cells of a row. -/
def row (g : Grid) (row : Nat) : Except Fault (List UInt64) :=
  if wordLimit ≤ g.place row g.sampleCount then .error .countOverflow
  else if g.cells.size < g.place row g.sampleCount then .error .indexOutOfRange
  else .ok (g.cells.extract (g.place row 0) (g.place row g.sampleCount)).toList

/-- The cells of the buffer at `col` and every `sampleCount` places after it. -/
def columnCells (g : Grid) (col : Nat) : List UInt64 :=
  (List.range ((g.cells.size + g.sampleCount - 1 - col) / g.sampleCount)).filterMap
    fun row => g.cells[g.place row col]?

/-- All cells of a column, in the order of the passes. -/
def column (g : Grid) (col : Nat) : Except Fault (List UInt64) :=
  if g.sampleCount ≤ col then .error (.columnOutOfRange col) else .ok (g.columnCells col)

/-- The smallest measurement of a sample, `sentinel` if it was never measured. -/
def minimum (g : Grid) (col : Nat) : Except Fault UInt64 :=
  match g.minima[col]? with
  | none => .error .indexOutOfRange
  | some clocks => .ok clocks

/-- The smallest measurement of all samples, `sentinel` if nothing was measured. -/
def best (g : Grid) : UInt64 := g.minima.foldl min sentinel

/-- Folds a measurement into a cell and into the minimum of its column. -/
def record (g : Grid) (row col : Nat) (clocks : UInt64) : Except Fault Grid :=
  match g.get row col with
  | .error f => .error f
  | .ok old =>
    match g.minimum col with
    | .error f => .error f
    | .ok least =>
      .ok { g with
        cells := g.cells.setIfInBounds (g.place row col) (min old clocks)
        minima := g.minima.setIfInBounds col (min least clocks) }

/-- Adds unmeasured rows until there are `rows` of them. The buffer has to fit as a whole, while a
failure counts the cells that were to be added. -/
def addRows (g : Grid) (rows : Nat) : Except Failure Grid :=
  if rows ≤ g.rows then .ok g
  else if wordLimit ≤ rows * g.sampleCount then .error (.allocation .cells (wordLimit - 1))
  else if rows * g.sampleCount < g.cells.size then .error (.fault .countOverflow)
  else
    let extra := rows * g.sampleCount - g.cells.size
    if Store.cells.Fits (rows * g.sampleCount) then
      .ok { g with cells := g.cells ++ Array.replicate extra sentinel, rows := rows }
    else .error (.allocation .cells extra)

end Grid

end TimingAudit
