import TimingAudit.Bench.Simulated
import TimingAudit.Console
import TimingAudit.Disk

/-!
# A simulated console

A host and a bench on one state: a simulated clock, a tree of files, what was printed, and a stop flag
that is raised during a chosen call of the function under audit. Without a result the console has gone
on for ever.
-/

namespace TimingAudit

/-- Everything that a console can touch. -/
structure World where
  clock : SimulatedClock
  disk : Disk
  output : Array UInt8
  error : Array UInt8
  stop : Bool
  /-- The number of the call during which a stop is asked for, zero for none. -/
  stopAt : Nat
deriving DecidableEq

namespace World

/-- A world in which nothing has happened yet. -/
def start (clock : SimulatedClock) (disk : Disk) (stopAt : Nat) : World :=
  ⟨clock, disk, #[], #[], false, stopAt⟩

/-- Prints on a channel. -/
def print (w : World) : Channel → Bytes → World
  | .output, bytes => { w with output := w.output ++ bytes }
  | .error, bytes => { w with error := w.error ++ bytes }

/-- Lets a call take its ticks, and raises the stop flag if this is the call for it. -/
def call (w : World) (cost : UInt64) : World :=
  { w with
    clock := w.clock.call cost
    stop := w.stop || decide (w.clock.calls + 1 = w.stopAt) }

/-- The host of a simulated world. -/
def host : Host (StateT World Option) where
  print channel bytes := fun w => some (.ok (), w.print channel bytes)
  save path text := fun w =>
    let (result, disk) := Disk.save path text w.disk
    some (result, { w with disk := disk })
  stopRequested := fun w => some (w.stop, w)
  clearStop := fun w => some ((), { w with stop := false })
  freshSource := pure (Keystream.ofSeed 0)

/-- The bench of a simulated world. -/
def bench (cost : CallCost) : Bench (StateT World Option) where
  opening := fun w =>
    let (ticks, clock) := w.clock.opening
    some (ticks, { w with clock := clock })
  closing := fun w =>
    let (ticks, clock) := w.clock.closing
    some (ticks, { w with clock := clock })
  call a b := fun w => some ((), w.call (cost.ticks a b))

end World

end TimingAudit
