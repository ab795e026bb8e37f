import TimingAudit.Bench.Simulated
import TimingAudit.Proofs.Bench.Trace
import TimingAudit.Proofs.ClassQueue
import TimingAudit.Proofs.Outcome
import TimingAudit.Random.ByteCycle
import TimingAudit.Run

/-!
# Requests for runs

Runs are asked for one after another, and each one takes the random source that the one before it
has left. What a request draws is decided by the number of samples and the source alone: passes,
calls per window, policy and bench come into play only behind the draw, and the source has moved on
by then, also for a run that fails.

* `perform_eq` : a run draws first and measures then;
* `performAll_same_draws` : two configurations with the same number of samples draw the same inputs
  all along, whatever they measure on.
-/

namespace TimingAudit

/-- A run that is asked for. -/
inductive Request
  | single (k : InputClass)
  | mixed (kinds : List InputClass)
deriving DecidableEq

/-- The classes of the dataset that a request asks for. -/
def Request.kinds : Request → List InputClass
  | .single k => [k]
  | .mixed kinds => firstOccurrences kinds

namespace RunConfig

variable {σ : Type} [RandomSource σ] {m : Type → Type} [Monad m]

/-- Draws the inputs of a request. -/
def draw (config : RunConfig) (request : Request) :
    StateT σ Option (Except Failure (Array Input)) :=
  match request with
  | .single k => Draw.total (config.drawInputs k)
  | .mixed _ => config.drawMixedInputs request.kinds

/-- Measuring keeps the inputs and the classes. -/
theorem measureDrawn_keeps [LawfulMonad m] (config : RunConfig) (bench : Bench m)
    (kinds : List InputClass) (drawn : Except Failure (Array Input)) :
    Ensures (fun result => ∀ d, result = .ok d → drawn = .ok d.inputs ∧ d.kinds = kinds)
      (config.measureDrawn bench kinds drawn) := by
  cases drawn with
  | error f =>
      refine Ensures.pure fun d h => ?_
      cases h
  | ok inputs =>
      rw [measureDrawn, measureInputs]
      cases Grid.allocate inputs.size config.iterations.toNat with
      | error f =>
          refine Ensures.pure fun d h => ?_
          cases h
      | ok g =>
          refine Ensures.bind (ensures_true _) fun result _ => ?_
          cases result with
          | error f =>
              refine Ensures.pure fun d h => ?_
              cases h
          | ok g =>
              refine Ensures.pure fun d h => ?_
              cases h
              exact ⟨rfl, rfl⟩

variable [MonadLiftT Option m]

/-- Carries out a request. -/
def perform (config : RunConfig) (bench : Bench m) (request : Request) (source : σ) :
    m (Except Failure Dataset × σ) :=
  match request with
  | .single k => config.run bench k source
  | .mixed kinds => config.runMixed bench kinds source

/-- Carries out requests in turn. Every result stands beside the source that the run has left. -/
def performAll (config : RunConfig) (bench : Bench m) :
    List Request → σ → m (List (Except Failure Dataset × σ))
  | [], _ => pure []
  | request :: requests, source => do
    let outcome ← config.perform bench request source
    let outcomes ← config.performAll bench requests outcome.2
    pure (outcome :: outcomes)

/-- Only the number of samples is looked at for a draw. -/
theorem draw_congr {config₁ config₂ : RunConfig}
    (hcount : config₁.sampleCount = config₂.sampleCount) (request : Request) (source : σ) :
    config₁.draw request source = config₂.draw request source := by
  cases request with
  | single k => rw [draw, draw, drawInputs, drawInputs, hcount]
  | mixed kinds => rw [draw, draw, drawMixedInputs, drawMixedInputs, hcount]

section Lawful

variable [LawfulMonad m] [LawfulMonadLiftT Option m]

/-- A run draws its inputs, measures them and hands on the source that drawing has left. -/
theorem perform_eq (config : RunConfig) (bench : Bench m) (request : Request) (source : σ) :
    config.perform bench request source =
      liftM (config.draw request source) >>= fun drawn =>
        (fun result => (result, drawn.2)) <$>
          config.measureDrawn bench request.kinds drawn.1 := by
  cases request with
  | single k =>
      have hdraw : config.draw (.single k) source = some (config.drawInputs k source) := rfl
      rw [hdraw, liftM_some, pure_bind, map_eq_pure_bind]
      rfl
  | mixed kinds =>
      rw [perform, runMixed, onceEach_eq_firstOccurrences]
      simp only [map_eq_pure_bind]
      rfl

/-- What a run leaves and returns comes from its draw. -/
theorem perform_ensures (config : RunConfig) (bench : Bench m) (request : Request) (source : σ) :
    Ensures (fun outcome => ∃ drawn, config.draw request source = some (drawn, outcome.2) ∧
        ∀ d, outcome.1 = .ok d → drawn = .ok d.inputs ∧ d.kinds = request.kinds)
      (config.perform bench request source) := by
  rw [perform_eq]
  refine Ensures.bind (Ensures.liftM fun drawn hdrawn => hdrawn) fun drawn hdrawn => ?_
  exact (config.measureDrawn_keeps bench _ _).map fun result hresult => ⟨drawn.1, hdrawn, hresult⟩

end Lawful

/-! ## Two sequences of runs -/

/-- Two outcomes that leave the same source, with the same inputs and classes if both are datasets. -/
def SameDraw (o₁ o₂ : Except Failure Dataset × σ) : Prop :=
  o₁.2 = o₂.2 ∧ ∀ d₁ d₂, o₁.1 = .ok d₁ → o₂.1 = .ok d₂ → d₁.inputs = d₂.inputs ∧ d₁.kinds = d₂.kinds

variable {τ τ₁ τ₂ : Type}

/-- The first of several requests is carried out, and the others from the source that it leaves. -/
theorem performAll_cons_eq_some {config : RunConfig} {bench : Bench (StateT τ Option)}
    {request : Request} {requests : List Request} {source : σ} {s s' : τ}
    {outcomes : List (Except Failure Dataset × σ)}
    (h : config.performAll bench (request :: requests) source s = some (outcomes, s')) :
    ∃ outcome rest s₁, config.perform bench request source s = some (outcome, s₁) ∧
      config.performAll bench requests outcome.2 s₁ = some (rest, s') ∧
      outcomes = outcome :: rest := by
  obtain ⟨⟨outcome, s₁⟩, hfirst, hothers⟩ := Option.bind_eq_some_iff.mp h
  obtain ⟨⟨rest, s₂⟩, hrest, hpair⟩ := Option.bind_eq_some_iff.mp hothers
  cases hpair
  exact ⟨outcome, rest, s₁, hfirst, hrest, rfl⟩

/-- One request, carried out from the same source under two configurations. -/
theorem sameDraw_of_perform {config₁ config₂ : RunConfig}
    (hcount : config₁.sampleCount = config₂.sampleCount)
    {b₁ : Bench (StateT τ₁ Option)} {b₂ : Bench (StateT τ₂ Option)} {request : Request} {source : σ}
    {o₁ o₂ : Except Failure Dataset × σ} {s₁ s₁' : τ₁} {s₂ s₂' : τ₂}
    (h₁ : config₁.perform b₁ request source s₁ = some (o₁, s₁'))
    (h₂ : config₂.perform b₂ request source s₂ = some (o₂, s₂')) : SameDraw o₁ o₂ := by
  obtain ⟨drawn₁, hdraw₁, hdata₁⟩ := (config₁.perform_ensures b₁ request source).of_eq_some h₁
  obtain ⟨drawn₂, hdraw₂, hdata₂⟩ := (config₂.perform_ensures b₂ request source).of_eq_some h₂
  rw [draw_congr hcount, hdraw₂] at hdraw₁
  obtain ⟨rfl, hsource⟩ := Prod.mk.inj (Option.some.inj hdraw₁)
  refine ⟨hsource.symm, ?_⟩
  intro d₁ d₂ hd₁ hd₂
  obtain ⟨hinputs₁, hkinds₁⟩ := hdata₁ d₁ hd₁
  obtain ⟨hinputs₂, hkinds₂⟩ := hdata₂ d₂ hd₂
  exact ⟨Except.ok.inj (hinputs₁.symm.trans hinputs₂), hkinds₁.trans hkinds₂.symm⟩

/-- **Draws do not depend on measuring.** The same requests from the same source leave the same
source after every run, and wherever both runs return a dataset the two have the same inputs and
classes, if only the numbers of samples agree. Passes, calls per window, policy and bench may differ,
and so may which of the runs fail. -/
theorem performAll_same_draws {config₁ config₂ : RunConfig}
    (hcount : config₁.sampleCount = config₂.sampleCount)
    (b₁ : Bench (StateT τ₁ Option)) (b₂ : Bench (StateT τ₂ Option))
    (requests : List Request) (source : σ) {s₁ s₁' : τ₁} {s₂ s₂' : τ₂}
    {outcomes₁ outcomes₂ : List (Except Failure Dataset × σ)}
    (h₁ : config₁.performAll b₁ requests source s₁ = some (outcomes₁, s₁'))
    (h₂ : config₂.performAll b₂ requests source s₂ = some (outcomes₂, s₂')) :
    outcomes₁.length = requests.length ∧ List.Forall₂ SameDraw outcomes₁ outcomes₂ := by
  induction requests generalizing source s₁ s₂ outcomes₁ outcomes₂ with
  | nil =>
      cases h₁
      cases h₂
      exact ⟨rfl, .nil⟩
  | cons request requests ih =>
      obtain ⟨o₁, rest₁, t₁, hfirst₁, hrest₁, rfl⟩ := performAll_cons_eq_some h₁
      obtain ⟨o₂, rest₂, t₂, hfirst₂, hrest₂, rfl⟩ := performAll_cons_eq_some h₂
      have hsame := sameDraw_of_perform hcount hfirst₁ hfirst₂
      -- Both go on from one source, which is what the induction needs.
      rw [← hsame.1] at hrest₂
      obtain ⟨hlength, hrest⟩ := ih o₁.2 hrest₁ hrest₂
      exact ⟨congrArg (· + 1) hlength, .cons hsame hrest⟩

/-- A plain audit of two samples against one whose grid is too large, which fails twice and is still
at the same source, and against one with other passes, calls, policy and ticks, which finds the same
inputs. -/
theorem performAll_same_draws_too_large :
    ∃ o₁ s₁ o₂ s₂ o₃ s₃,
      (RunConfig.mk 2 1 1 .exhaustive).performAll (SimulatedClock.bench .nothing).total
          [.single .small, .mixed [.small, .fixed, .small]] (ByteCycle.ofList [1, 2, 3, 4, 5])
          (.stepping 0 1) = some (o₁, s₁) ∧
      (RunConfig.mk 2 4611686018427387904 1 .exhaustive).performAll
          (SimulatedClock.bench .one).total [.single .small, .mixed [.small, .fixed, .small]]
          (ByteCycle.ofList [1, 2, 3, 4, 5]) (.stepping 7 3) = some (o₂, s₂) ∧
      (RunConfig.mk 2 3 2 (.earlyExit 1)).performAll (SimulatedClock.bench .lowByte).total
          [.single .small, .mixed [.small, .fixed, .small]] (ByteCycle.ofList [1, 2, 3, 4, 5])
          (.scripted 9 0 [4, 8]) = some (o₃, s₃) ∧
      o₂.map Prod.fst = List.replicate 2 (.error (.allocation .cells 9223372036854775808)) ∧
      o₁.map (·.1.isOk) = [true, true] ∧ o₃.map (·.1.isOk) = [true, true] ∧
      List.Forall₂ SameDraw o₁ o₂ ∧ List.Forall₂ SameDraw o₁ o₃ := by
  have heval₁ : ((RunConfig.mk 2 1 1 .exhaustive).performAll (SimulatedClock.bench .nothing).total
      [.single .small, .mixed [.small, .fixed, .small]] (ByteCycle.ofList [1, 2, 3, 4, 5])
      (.stepping 0 1)).map (·.1.map (·.1.isOk)) = some [true, true] := by decide +kernel
  have heval₂ : ((RunConfig.mk 2 4611686018427387904 1 .exhaustive).performAll
      (SimulatedClock.bench .one).total [.single .small, .mixed [.small, .fixed, .small]]
      (ByteCycle.ofList [1, 2, 3, 4, 5]) (.stepping 7 3)).map (·.1.map Prod.fst) =
        some (List.replicate 2 (.error (.allocation .cells 9223372036854775808))) := by
    decide +kernel
  have heval₃ : ((RunConfig.mk 2 3 2 (.earlyExit 1)).performAll
      (SimulatedClock.bench .lowByte).total [.single .small, .mixed [.small, .fixed, .small]]
      (ByteCycle.ofList [1, 2, 3, 4, 5]) (.scripted 9 0 [4, 8])).map (·.1.map (·.1.isOk)) =
        some [true, true] := by decide +kernel
  obtain ⟨⟨o₁, s₁⟩, hrun₁, hok₁⟩ := Option.map_eq_some_iff.mp heval₁
  obtain ⟨⟨o₂, s₂⟩, hrun₂, herror⟩ := Option.map_eq_some_iff.mp heval₂
  obtain ⟨⟨o₃, s₃⟩, hrun₃, hok₃⟩ := Option.map_eq_some_iff.mp heval₃
  exact ⟨o₁, s₁, o₂, s₂, o₃, s₃, hrun₁, hrun₂, hrun₃, herror, hok₁, hok₃,
    (performAll_same_draws (by rfl) _ _ _ _ hrun₁ hrun₂).2,
    (performAll_same_draws (by rfl) _ _ _ _ hrun₁ hrun₃).2⟩

end RunConfig

end TimingAudit
