import TimingAudit.Proofs.Lockstep
import TimingAudit.Proofs.Run.Requests

/-!
# Sequences of calls by the rule

Runs that are asked for one after another, and calls for passes on one grid one after another, can
both do their passes by the rule and keep the ledger of every call. What they return is the same, and
each sequence is in lock step with itself on another bench if the windows of the two benches are.

* `performAll_eq_map_byRule`, `convergeAll_eq_map_byRule` : the rule changes nothing;
* `Lockstep.performAllByRule`, `Lockstep.convergeAllByRule` : two benches.
-/

namespace TimingAudit

variable {σ : Type} [RandomSource σ] {m m₁ m₂ : Type → Type} [Monad m] [Monad m₁] [Monad m₂]

/-! ## Runs -/

namespace RunConfig

/-- Measures what was drawn in passes by the rule. The ledger stands beside the dataset. -/
def measureByRule (config : RunConfig) (bench : Bench m) (kinds : List InputClass) :
    Except Failure (Array Input) → m (Except Failure (Dataset × Grid.Ledger))
  | .error f => pure (.error f)
  | .ok inputs =>
    match Grid.allocate inputs.size config.iterations.toNat with
    | .error f => pure (.error f)
    | .ok g =>
      Except.map (fun l => (⟨inputs, l.final, kinds⟩, l)) <$>
        g.ledger bench config.policy inputs.toList config.iterations.toNat config.repeats.toNat

/-- Carries out a request by the rule. -/
def performByRule [MonadLiftT Option m] (config : RunConfig) (bench : Bench m) (request : Request)
    (source : σ) : m (Except Failure (Dataset × Grid.Ledger) × σ) :=
  liftM (config.draw request source) >>= fun drawn =>
    (fun result => (result, drawn.2)) <$> config.measureByRule bench request.kinds drawn.1

/-- Carries out requests in turn by the rule. -/
def performAllByRule [MonadLiftT Option m] (config : RunConfig) (bench : Bench m) :
    List Request → σ → m (List (Except Failure (Dataset × Grid.Ledger) × σ))
  | [], _ => pure []
  | request :: requests, source => do
    let outcome ← config.performByRule bench request source
    let outcomes ← config.performAllByRule bench requests outcome.2
    pure (outcome :: outcomes)

/-- An outcome without its ledger. -/
def withoutLedger (outcome : Except Failure (Dataset × Grid.Ledger) × σ) :
    Except Failure Dataset × σ :=
  (outcome.1.map Prod.fst, outcome.2)

section Lawful

variable [LawfulMonad m]

/-- Measuring is the same by the rule. -/
theorem measureDrawn_eq_map_byRule (config : RunConfig) (bench : Bench m) (kinds : List InputClass)
    (drawn : Except Failure (Array Input)) :
    config.measureDrawn bench kinds drawn =
      Except.map Prod.fst <$> config.measureByRule bench kinds drawn := by
  cases drawn with
  | error f =>
      rw [measureDrawn, measureByRule, map_pure]
      rfl
  | ok inputs =>
      rw [measureDrawn, measureInputs, measureByRule]
      cases halloc : Grid.allocate inputs.size config.iterations.toNat with
      | error f =>
          simp only [map_pure]
          rfl
      | ok g =>
          have hg := Grid.wellFormed_of_allocate halloc
          simp only [Grid.converge_eq_map_ledger bench config.policy config.repeats.toNat hg]
          rw [bind_map_left, Functor.map_map, map_eq_pure_bind]
          congr 1
          funext result
          cases result <;> rfl

variable [MonadLiftT Option m] [LawfulMonadLiftT Option m]

/-- Runs are the same by the rule. -/
theorem perform_eq_map_byRule (config : RunConfig) (bench : Bench m) (request : Request)
    (source : σ) :
    config.perform bench request source =
      withoutLedger <$> config.performByRule bench request source := by
  rw [perform_eq, performByRule, map_bind]
  congr 1
  funext drawn
  rw [measureDrawn_eq_map_byRule, Functor.map_map, Functor.map_map]
  rfl

/-- Sequences of runs are the same by the rule. -/
theorem performAll_eq_map_byRule (config : RunConfig) (bench : Bench m) (requests : List Request) :
    ∀ source : σ, config.performAll bench requests source =
      List.map withoutLedger <$> config.performAllByRule bench requests source := by
  induction requests with
  | nil =>
      intro source
      rw [performAll, performAllByRule, map_pure, List.map_nil]
  | cons request requests ih =>
      intro source
      simp only [performAll, performAllByRule, perform_eq_map_byRule, ih, bind_map_left, map_bind,
        map_pure, List.map_cons]
      rfl

end Lawful

end RunConfig

/-! ## Calls for passes -/

namespace Grid

/-- A call that asks for passes. -/
structure PassCall where
  policy : Policy
  inputs : List Input
  passes : Nat
  repeats : Nat
deriving DecidableEq

/-- The grid behind a call that may have failed: a failed call leaves it as it was. -/
def behind (g : Grid) : Except Failure Grid → Grid
  | .ok g' => g'
  | .error _ => g

/-- Calls for passes in turn, each on the grid that the one before it has left. -/
def convergeAll (bench : Bench m) : List PassCall → Grid → m (List (Except Failure Grid))
  | [], _ => pure []
  | c :: cs, g => do
    let result ← g.converge bench c.policy c.inputs c.passes c.repeats
    let results ← convergeAll bench cs (g.behind result)
    pure (result :: results)

/-- Calls for passes in turn by the rule. -/
def convergeAllByRule (bench : Bench m) : List PassCall → Grid → m (List (Except Failure Ledger))
  | [], _ => pure []
  | c :: cs, g => do
    let result ← g.ledger bench c.policy c.inputs c.passes c.repeats
    let results ← convergeAllByRule bench cs (g.behind (result.map Ledger.final))
    pure (result :: results)

/-- Sequences of calls for passes are the same by the rule. -/
theorem convergeAll_eq_map_byRule [LawfulMonad m] (bench : Bench m) (cs : List PassCall) :
    ∀ {g : Grid}, g.WellFormed →
      convergeAll bench cs g =
        List.map (Except.map Ledger.final) <$> convergeAllByRule bench cs g := by
  induction cs with
  | nil =>
      intro g _
      rw [convergeAll, convergeAllByRule, map_pure, List.map_nil]
  | cons c cs ih =>
      intro g hg
      rw [convergeAll, convergeAllByRule]
      -- The other calls are on a well-formed grid again, whatever the first one returned.
      have hothers := (converge_ensures bench c.policy c.repeats hg c.inputs c.passes) _
        (fun result => convergeAll bench cs (g.behind result) >>= fun results =>
          pure (result :: results))
        (fun result => (List.map (Except.map Ledger.final) <$>
          convergeAllByRule bench cs (g.behind result)) >>= fun results =>
            pure (result :: results))
        (fun result hresult => by
          have hbehind : (g.behind result).WellFormed := by
            cases result with
            | error f => exact hg
            | ok g' => exact (hresult g' rfl).1
          rw [ih hbehind])
      rw [hothers, converge_eq_map_ledger bench c.policy c.repeats hg]
      simp only [bind_map_left, map_bind, map_pure, List.map_cons]

end Grid

/-! ## Two benches -/

namespace Lockstep

variable [LawfulMonad m₁] [LawfulMonad m₂] {L : Lockstep m₁ m₂}
variable {b₁ : Bench m₁} {b₂ : Bench m₂} (hwindows : L.Windows b₁ b₂)

include hwindows

/-- Measuring by the rule. -/
theorem measureByRule (config : RunConfig) (kinds : List InputClass)
    (drawn : Except Failure (Array Input)) :
    L.rel (config.measureByRule b₁ kinds drawn) (config.measureByRule b₂ kinds drawn) := by
  cases drawn with
  | error f => exact L.pure _
  | ok inputs =>
      rw [RunConfig.measureByRule, RunConfig.measureByRule]
      cases Grid.allocate inputs.size config.iterations.toNat with
      | error f => exact L.pure _
      | ok g => exact L.map _ (ledger hwindows config.policy _ inputs.toList _ g)

/-- Measuring what was drawn. -/
theorem measureDrawn (config : RunConfig) (kinds : List InputClass)
    (drawn : Except Failure (Array Input)) :
    L.rel (config.measureDrawn b₁ kinds drawn) (config.measureDrawn b₂ kinds drawn) := by
  rw [RunConfig.measureDrawn_eq_map_byRule, RunConfig.measureDrawn_eq_map_byRule]
  exact L.map _ (measureByRule hwindows config kinds drawn)

/-- Runs in turn by the rule. -/
theorem performAllByRule [MonadLiftT Option m₁] [MonadLiftT Option m₂] (hlifts : L.Lifts)
    (config : RunConfig) (requests : List Request) : ∀ source : σ,
    L.rel (config.performAllByRule b₁ requests source)
      (config.performAllByRule b₂ requests source) := by
  induction requests with
  | nil =>
      intro source
      exact L.pure []
  | cons request requests ih =>
      intro source
      apply L.bind
      · apply L.bind (hlifts (config.draw request source))
        intro drawn
        exact L.map _ (measureByRule hwindows config request.kinds _)
      intro outcome
      apply L.bind (ih outcome.2)
      intro outcomes
      exact L.pure (outcome :: outcomes)

/-- Calls for passes in turn by the rule. -/
theorem convergeAllByRule (cs : List Grid.PassCall) : ∀ g : Grid,
    L.rel (Grid.convergeAllByRule b₁ cs g) (Grid.convergeAllByRule b₂ cs g) := by
  induction cs with
  | nil =>
      intro g
      exact L.pure []
  | cons c cs ih =>
      intro g
      apply L.bind (ledger hwindows c.policy c.repeats c.inputs c.passes g)
      intro result
      apply L.bind (ih (g.behind (result.map Grid.Ledger.final)))
      intro results
      exact L.pure (result :: results)

end Lockstep

end TimingAudit
