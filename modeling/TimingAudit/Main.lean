import TimingAudit.Branching
import TimingAudit.Program

/-!
# The command line

Audits the branching function in the running process: standard streams, the files of the file system,
and the monotonic clock in nanoseconds as the counter.
-/

namespace TimingAudit

/-- A draw that never ends keeps the process waiting. -/
instance waitForEver : MonadLift Option IO where
  monadLift
    | some a => pure a
    | none => do
      repeat IO.sleep 1000
      throw (IO.userError "the wait has ended")

/-- The cause of a failed operation on a file. -/
def writeErrorOf : IO.Error → WriteError
  | .noFileOrDirectory .. => .notFound
  | .inappropriateType _ 20 _ => .notDirectory
  | .inappropriateType _ 21 _ => .isDirectory
  | .inappropriateType .. => .isDirectory
  | .invalidArgument _ 36 _ => .nameTooLong
  | e => .system (toString e)

/-- An operation with its failure as an answer. -/
def attempt (action : IO Unit) : IO (Except WriteError Unit) :=
  try
    action
    pure (.ok ())
  catch e => pure (.error (writeErrorOf e))

/-- The stream of a channel. -/
def streamOf : Channel → IO IO.FS.Stream
  | .output => IO.getStdout
  | .error => IO.getStderr

/-- Writes bytes on a channel at once. -/
def emit (channel : Channel) (bytes : Bytes) : IO Unit := do
  let stream ← streamOf channel
  stream.write ⟨bytes.toArray⟩
  stream.flush

/-- A key word of four bytes, the lowest first. -/
def keyWordOf (bytes : ByteArray) (i : Nat) : UInt32 :=
  let byte (j : Nat) : UInt32 := (bytes.data.getD (4 * i + j) 0).toUInt32
  byte 0 ||| (byte 1 <<< 8) ||| (byte 2 <<< 16) ||| (byte 3 <<< 24)

/-- The host of the running process. -/
def processHost (stop : IO.Ref Bool) : Host IO where
  print channel bytes := attempt (emit channel bytes)
  save path text := attempt (IO.FS.writeFile path text)
  stopRequested := stop.get
  clearStop := stop.set false
  freshSource := do
    let bytes ← IO.getRandomBytes 32
    pure (Keystream.ofKey (Vector.ofFn fun i : Fin 8 => keyWordOf bytes i))

/-- The bench of the running process. Results go to `last`, so that no call is left out. -/
def processBench (last : IO.Ref Int64) : Bench IO where
  opening := do pure (← IO.monoNanosNow).toUInt64
  closing := do pure (← IO.monoNanosNow).toUInt64
  call a b := last.set (branching a b)

end TimingAudit

open TimingAudit in
/-- Audits the branching function as the command line asks. -/
def main (args : List String) : IO UInt32 := do
  let stop ← IO.mkRef false
  let last ← IO.mkRef (0 : Int64)
  let program := toString (← IO.appPath)
  Program.run (processHost stop) (processBench last) (some auditSeed)
    ((program :: args).map Argument.ofString)
