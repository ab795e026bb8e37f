import TimingAudit.Random.Keystream
import TimingAudit.Session

/-!
# The console

A session with its events printed as progress lines. Buffered results are printed on standard output
after the last progress line, and progress goes to standard error then.
-/

namespace TimingAudit

/-- Where text is printed. -/
inductive Channel
  | output
  | error
deriving DecidableEq

/-- What the program around a session provides. -/
structure Host (m : Type → Type) where
  print : Channel → Bytes → m (Except WriteError Unit)
  /-- Writes a file. -/
  save : String → String → m (Except WriteError Unit)
  /-- Whether a stop has been asked for. -/
  stopRequested : m Bool
  /-- Forgets that a stop was asked for. -/
  clearStop : m Unit
  /-- A random source that nobody can foresee. -/
  freshSource : m Keystream

namespace Console

/-- A text filled up with spaces to a width. -/
def padded (width : Nat) (s : String) : String :=
  s ++ String.ofList (List.replicate (width - s.length) ' ')

/-- The width of the names of all runs. -/
def nameWidth (o : Options) : Nat :=
  if o.mixed then (runName o.classes.distinct).length
  else o.classes.toList.foldl (fun width k => max width k.name.length) 0

/-- The progress text of an event. -/
def progress (width : Nat) : Event → String
  | .begin names =>
    "\nrunning " ++ toString names.length ++
      (if names.length = 1 then " fuzz run\n" else " fuzz runs\n")
  | .wait name => "fuzz " ++ padded width name ++ " ... "
  | .finished _ summary => ": " ++ summary.text ++ "\n"
  | .interrupted skipped =>
    "interrupted, skipping " ++ toString skipped ++ " queued run(s)\n"

/-- The text after the last run. -/
def farewell : String := "\noptifuzz runs complete\n\n"

variable {m : Type → Type} [Monad m]

/-- Prints on a channel. -/
def print (host : Host m) (channel : Channel) (bytes : Bytes) : m (Except Failure Unit) := do
  match ← host.print channel bytes with
  | .error e => pure (.error (.write e))
  | .ok () => pure (.ok ())

/-- The channel of progress lines. -/
def channelOf (o : Options) : Channel := if o.buffered then .error else .output

/-- The session of a console. -/
def session (host : Host m) (bench : Bench m) (o : Options) : Session m where
  bench := bench
  save := host.save
  stopRequested := host.stopRequested
  notify e := print host (channelOf o) (utf8 (progress (nameWidth o) e))

/-- Where the results of options go. -/
def sinkOf (o : Options) : Sink := if o.buffered then .log ResultLog.empty else .folder o.outDir

/-- Prints what a sink has kept. -/
def printKept (host : Host m) : Sink → m (Except Failure Unit)
  | .folder _ => pure (.ok ())
  | .log log =>
    match log.markDone.drain (#[] : Array UInt8) with
    | (.error f, _) => pure (.error f)
    | (.ok _, bytes) => print host .output bytes.toList

/-- The random source of a seed, or a fresh one. -/
def sourceOf (host : Host m) : Option UInt64 → m Keystream
  | none => host.freshSource
  | some seed => pure (Keystream.ofSeed seed)

/-- Carries out what the options ask for and prints the progress. -/
def run [MonadLiftT Option m] (host : Host m) (bench : Bench m) (o : Options) :
    ExceptT Failure m Unit := do
  ExceptT.lift host.clearStop
  let source ← ExceptT.lift (sourceOf host o.seed)
  let (result, _, sink) ← ExceptT.lift ((session host bench o).run o (source, sinkOf o))
  ExceptT.mk (pure result)
  ExceptT.mk (print host (channelOf o) (utf8 farewell))
  ExceptT.mk (printKept host sink)

end Console

end TimingAudit
