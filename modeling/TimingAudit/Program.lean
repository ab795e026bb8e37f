import TimingAudit.CommandLine.Reader
import TimingAudit.Console

/-!
# The program

Reads its command line, carries it out on the console and answers with an exit code. Help and version
go to standard output with exit code zero, everything that stops the program goes to standard error
with exit code one, and a caller's breach ends it with a code of its own.
-/

namespace TimingAudit.Program

variable {m : Type → Type} [Monad m]

/-- The exit code of a failure. -/
def exitCode : Failure → UInt32
  | .fault _ => 101
  | _ => 1

/-- Prints a text, whatever becomes of it. -/
def say (host : Host m) (channel : Channel) (s : String) : m Unit := do
  let _ ← host.print channel (utf8 s)
  pure ()

/-- Ends with a failure. -/
def fail (host : Host m) (f : Failure) : m UInt32 := do
  say host .error ("error: " ++ f.message ++ "\n")
  pure (exitCode f)

/-- Ends with what is said about the command line. -/
def answer (host : Host m) (u : Usage) : m UInt32 :=
  match u with
  | .version program => do
    say host .output (Usage.versionText program ++ u.message)
    pure 0
  | .help _ => do
    say host .output u.message
    pure 0
  | _ => do
    say host .error (u.message ++ "\n")
    pure 1

/-- The options with a seed, if they have none of their own. -/
def withDefaultSeed (seed : Option UInt64) (o : Options) : Options :=
  { o with seed := o.seed.or seed }

/-- Carries out a command line, the name of the program first. -/
def run [MonadLiftT Option m] (host : Host m) (bench : Bench m) (defaultSeed : Option UInt64)
    (args : List Argument) : m UInt32 :=
  match CommandLine.options args with
  | .error (.usage u) => answer host u
  | .error (.failure f) => fail host f
  | .ok o => do
    match ← (Console.run host bench (withDefaultSeed defaultSeed o)).run with
    | .error f => fail host f
    | .ok () => pure 0

end TimingAudit.Program
