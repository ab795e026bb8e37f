import TimingAudit.Bench

/-!
# A simulated bench

A clock that runs only when it is read or when the function under audit is called. Every read moves
it by a fixed step; a script may instead say by how much each closing read moves it before it is
taken. A call costs a number of ticks that depends on the two arguments alone.
-/

namespace TimingAudit

/-- The state of a simulated clock, with the numbers of reads and calls so far. -/
structure SimulatedClock where
  now : UInt64
  step : UInt64
  /-- Ticks added before each closing read, taken in turn. -/
  script : Option (List UInt64)
  closings : Nat
  reads : Nat
  calls : Nat
deriving DecidableEq

/-- How many ticks a call costs. -/
inductive CallCost
  | nothing
  | one
  /-- More if the first argument is the smaller one. -/
  | comparison
  /-- The number of bits in which the arguments differ. -/
  | differingBits
  /-- The low byte of the first argument. -/
  | lowByte
  /-- The difference of the arguments. -/
  | difference
deriving DecidableEq

/-- The number of one bits among the `n` lowest bits of a word. -/
def countOnes : Nat → UInt64 → UInt64
  | 0, _ => 0
  | n + 1, x => (x &&& (1 : UInt64)) + countOnes n (x >>> (1 : UInt64))

/-- The ticks of a call. -/
def CallCost.ticks : CallCost → Int64 → Int64 → UInt64
  | .nothing, _, _ => 0
  | .one, _, _ => 1
  | .comparison, a, b => if a < b then 8 else 1
  | .differingBits, a, b => countOnes 64 (a ^^^ b).toUInt64
  | .lowByte, a, _ => a.toUInt64 &&& 0xFF
  | .difference, a, b => a.toUInt64 - b.toUInt64

namespace SimulatedClock

/-- A clock that moves by `step` at every read. -/
def stepping (start step : UInt64) : SimulatedClock := ⟨start, step, none, 0, 0, 0⟩

/-- A clock whose closing reads follow a script. -/
def scripted (start step : UInt64) (script : List UInt64) : SimulatedClock :=
  ⟨start, step, some script, 0, 0, 0⟩

/-- The ticks that the script adds before the next closing read. -/
def scriptTicks (script : List UInt64) (closings : Nat) : UInt64 :=
  script.getD (closings % script.length) 0

/-- Takes an opening read. -/
def opening (c : SimulatedClock) : UInt64 × SimulatedClock :=
  (c.now, { c with now := c.now + c.step, reads := c.reads + 1 })

/-- Takes a closing read. -/
def closing (c : SimulatedClock) : UInt64 × SimulatedClock :=
  match c.script with
  | none => c.opening
  | some script =>
    let now := c.now + scriptTicks script c.closings
    (now, { c with now := now, closings := c.closings + 1, reads := c.reads + 1 })

/-- Lets a call take its ticks. -/
def call (c : SimulatedClock) (cost : UInt64) : SimulatedClock :=
  { c with now := c.now + cost, calls := c.calls + 1 }

/-- The bench of a simulated clock and a cost of calls. -/
def bench (cost : CallCost) : Bench (StateM SimulatedClock) where
  opening := fun c => c.opening
  closing := fun c => c.closing
  call a b := fun c => ((), c.call (cost.ticks a b))

end SimulatedClock

end TimingAudit
