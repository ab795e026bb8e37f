import TimingAudit.Dataset

/-!
# Runs

A run draws its inputs, allocates the grid and drives the passes. The random source is handed from
run to run: it has advanced by the inputs drawn also when the grid could not be allocated. A mixed run
whose draw never ends does not end either: what this means is left to the monad of its bench.
-/

namespace TimingAudit

/-- The shape of a run. -/
structure RunConfig where
  sampleCount : UInt64 := 0
  iterations : UInt64 := Grid.defaultPasses
  repeats : UInt64 := Bench.defaultRepeats
  policy : Policy := .exhaustive
deriving DecidableEq

namespace RunConfig

variable {σ : Type} [RandomSource σ] {m : Type → Type} [Monad m]

/-- Draws the inputs of a run of one class. -/
def drawInputs (config : RunConfig) (k : InputClass) : StateM σ (Except Failure (Array Input)) :=
  if Store.inputs.Fits config.sampleCount.toNat then do
    let drawn ← Draw.inputsOnto k config.sampleCount.toNat #[]
    pure (.ok drawn)
  else pure (.error (.allocation .inputs config.sampleCount.toNat))

/-- Draws the inputs of a mixed run. -/
def drawMixedInputs (config : RunConfig) (kinds : List InputClass) :
    StateT σ Option (Except Failure (Array Input)) :=
  if kinds.isEmpty then pure (.error .noClasses)
  else if Store.inputs.Fits config.sampleCount.toNat then
    Draw.mixedOnto kinds config.sampleCount.toNat #[]
  else pure (.error (.allocation .inputs config.sampleCount.toNat))

/-- Measures inputs that have been drawn. -/
@[specialize] def measureInputs (config : RunConfig) (bench : Bench m) (inputs : Array Input)
    (kinds : List InputClass) : m (Except Failure Dataset) :=
  match Grid.allocate inputs.size config.iterations.toNat with
  | .error f => pure (.error f)
  | .ok g => do
    match ← g.converge bench config.policy inputs.toList config.iterations.toNat
        config.repeats.toNat with
    | .error f => pure (.error f)
    | .ok g => pure (.ok ⟨inputs, g, kinds⟩)

/-- Measures what was drawn, unless drawing failed. -/
@[specialize] def measureDrawn (config : RunConfig) (bench : Bench m) (kinds : List InputClass) :
    Except Failure (Array Input) → m (Except Failure Dataset)
  | .error f => pure (.error f)
  | .ok inputs => config.measureInputs bench inputs kinds

/-- Audits with inputs of one class. -/
@[specialize] def run (config : RunConfig) (bench : Bench m) (k : InputClass) (source : σ) :
    m (Except Failure Dataset × σ) := do
  let (drawn, source) := config.drawInputs k source
  let result ← config.measureDrawn bench [k] drawn
  pure (result, source)

/-- Audits with inputs whose class is chosen for each sample. A class listed more than once still has
a single share. -/
@[specialize] def runMixed [MonadLiftT Option m] (config : RunConfig) (bench : Bench m)
    (kinds : List InputClass) (source : σ) : m (Except Failure Dataset × σ) := do
  let kinds := onceEach kinds
  let (drawn, source) ← liftM (config.drawMixedInputs kinds source)
  let result ← config.measureDrawn bench kinds drawn
  pure (result, source)

end RunConfig

end TimingAudit
