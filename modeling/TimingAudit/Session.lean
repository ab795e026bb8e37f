import TimingAudit.Options
import TimingAudit.Report.Delivery
import TimingAudit.Summary

/-!
# Sessions

A session carries out the runs that options ask for and delivers their results. It reports what it
does as events: first the names of all runs, then for every run that it is waited for and that it is
finished. A started run always finishes; between two runs the session looks whether it is to stop, and
then reports how many runs it leaves out. A mixed session is a single run under the joined names of
its classes and never looks. A session that fails leaves its random source and its sink as they are
then, with all that was delivered before.
-/

namespace TimingAudit

/-- What a session reports. -/
inductive Event
  | begin (names : List String)
  | wait (name : String)
  | finished (name : String) (summary : Summary)
  /-- A stop was asked for, and this many runs are left out. -/
  | interrupted (skipped : Nat)
deriving DecidableEq

/-- Where the results of a session go. -/
inductive Sink
  | folder (path : String)
  | log (log : ResultLog)
deriving DecidableEq

/-- The name of a run of the given classes. -/
def runName (kinds : List InputClass) : String := "+".intercalate (kinds.map InputClass.name)

/-- What a session works with. -/
structure Session (m : Type → Type) where
  bench : Bench m
  /-- Writes a file. -/
  save : String → String → m (Except WriteError Unit)
  /-- Whether the session is to stop. -/
  stopRequested : m Bool
  /-- Takes an event. -/
  notify : Event → m (Except Failure Unit)

namespace Session

/-- What a session does: it may fail, and it changes a random source and a sink. -/
abbrev Work (σ : Type) (m : Type → Type) := ExceptT Failure (StateT (σ × Sink) m)

variable {m : Type → Type} [Monad m] {σ : Type}

/-- Delivers a dataset and returns the paths written, beside the sink. -/
def deliver (s : Session m) (label : String) (d : Dataset) :
    Sink → m (Except Failure (List String) × Sink)
  | .folder path => do
    let result ← Report.toFolder s.save path label d
    pure (result, .folder path)
  | .log log =>
    let (result, log) := Report.toLog label d log
    pure (result.map fun _ => [], .log log)

/-- Reports an event. -/
def report (s : Session m) (e : Event) : Work σ m Unit := ExceptT.mk (StateT.lift (s.notify e))

/-- Looks whether the session is to stop. -/
def look (s : Session m) : Work σ m Bool := ExceptT.lift (StateT.lift s.stopRequested)

/-- Carries out a run. -/
def measure (run : σ → m (Except Failure Dataset × σ)) : Work σ m Dataset :=
  ExceptT.mk fun (source, sink) => do
    let (result, source) ← run source
    pure (result, (source, sink))

/-- Delivers a dataset to the sink. -/
def store (s : Session m) (label : String) (d : Dataset) : Work σ m (List String) :=
  ExceptT.mk fun (source, sink) => do
    let (result, sink) ← s.deliver label d sink
    pure (result, (source, sink))

/-- Carries out one run between its two events. -/
def runOne (s : Session m) (label name : String) (run : σ → m (Except Failure Dataset × σ)) :
    Work σ m Unit := do
  s.report (.wait name)
  let data ← measure run
  let outputs ← s.store label data
  s.report (.finished name (Summary.ofDataset data outputs))

variable [RandomSource σ]

/-- Carries out a run of every class in turn, until it is to stop. -/
def runQueue (s : Session m) (o : Options) : List InputClass → Work σ m Unit
  | [] => pure ()
  | k :: ks => do
    if ← s.look then s.report (.interrupted (ks.length + 1))
    else
      s.runOne o.label (runName [k]) (o.runConfig.run s.bench k)
      s.runQueue o ks

/-- Carries out the runs that the options ask for. -/
def run [MonadLiftT Option m] (s : Session m) (o : Options) : Work σ m Unit :=
  if o.mixed then do
    let kinds := o.classes.distinct
    s.report (.begin [runName kinds])
    s.runOne o.label (runName kinds) (o.runConfig.runMixed s.bench kinds)
  else do
    s.report (.begin (o.classes.toList.map fun k => runName [k]))
    s.runQueue o o.classes.toList

end Session

end TimingAudit
