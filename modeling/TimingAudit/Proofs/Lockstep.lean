import TimingAudit.Proofs.Grid.Ledger

/-!
# Two computations in lock step

An audit looks at its bench through the lengths of windows only. So two audits on two benches, even
in two monads, go through the same steps as long as their windows do. What "the same" means is left
open: a `Lockstep` is any relation between computations that holds of returned values and is kept by
doing one thing after another. Where a computation may go on for ever, it has to hold of that as well
(`Lifts`).

* `Lockstep.ledger` : passes by the rule are in lock step if the windows of the two benches are.
-/

namespace TimingAudit

/-- A relation between computations in two monads that is kept when they go on. -/
structure Lockstep (m₁ m₂ : Type → Type) [Monad m₁] [Monad m₂] where
  rel : {α : Type} → m₁ α → m₂ α → Prop
  pure : ∀ {α : Type} (a : α), rel (Pure.pure a) (Pure.pure a)
  bind : ∀ {α β : Type} {x₁ : m₁ α} {x₂ : m₂ α} {f₁ : α → m₁ β} {f₂ : α → m₂ β},
    rel x₁ x₂ → (∀ a, rel (f₁ a) (f₂ a)) → rel (x₁ >>= f₁) (x₂ >>= f₂)

namespace Lockstep

variable {m₁ m₂ : Type → Type} [Monad m₁] [Monad m₂] (L : Lockstep m₁ m₂)

/-- The windows of two benches are in lock step. -/
def Windows (b₁ : Bench m₁) (b₂ : Bench m₂) : Prop :=
  ∀ a b repeats, L.rel (b₁.measure a b repeats) (b₂.measure a b repeats)

/-- A value that there may not be is in lock step with itself. -/
def Lifts [MonadLiftT Option m₁] [MonadLiftT Option m₂] : Prop :=
  ∀ {α : Type} (x : Option α), L.rel (liftM x : m₁ α) (liftM x : m₂ α)

/-- This is so if it is where there is no value. -/
theorem lifts_of_none [MonadLiftT Option m₁] [MonadLiftT Option m₂] [LawfulMonadLiftT Option m₁]
    [LawfulMonadLiftT Option m₂]
    (hnone : ∀ α : Type, L.rel (liftM (none : Option α) : m₁ α) (liftM (none : Option α) : m₂ α)) :
    L.Lifts := by
  intro α x
  cases x with
  | none => exact hnone α
  | some a =>
      rw [liftM_some, liftM_some]
      exact L.pure a

/-- Windows are in lock step if all that they are made of is. -/
theorem windows_of_steps {b₁ : Bench m₁} {b₂ : Bench m₂} (hopening : L.rel b₁.opening b₂.opening)
    (hclosing : L.rel b₁.closing b₂.closing) (hcall : ∀ a b, L.rel (b₁.call a b) (b₂.call a b)) :
    L.Windows b₁ b₂ := by
  intro a b repeats
  have hcalls : ∀ n, L.rel (b₁.calls a b n) (b₂.calls a b n) := by
    intro n
    induction n with
    | zero => exact L.pure ()
    | succ n ih => exact L.bind (hcall a b) fun _ => ih
  apply L.bind hopening
  intro start
  apply L.bind (hcalls repeats)
  intro _
  apply L.bind hclosing
  intro stop
  exact L.pure (stop - start)

section Lawful

variable [LawfulMonad m₁] [LawfulMonad m₂]

/-- Values may be worked on after they were returned. -/
theorem map {α β : Type} (f : α → β) {x₁ : m₁ α} {x₂ : m₂ α} (h : L.rel x₁ x₂) :
    L.rel (f <$> x₁) (f <$> x₂) := by
  rw [map_eq_pure_bind, map_eq_pure_bind]
  exact L.bind h fun a => L.pure (f a)

variable {L} {b₁ : Bench m₁} {b₂ : Bench m₂} (hwindows : L.Windows b₁ b₂)
variable (policy : Policy) (repeats : Nat)

include hwindows

/-- A pass by the rule. -/
theorem ledgerRow {row : Nat} (xs : List Input) : ∀ (col : Nat) (g : Grid),
    L.rel (Grid.ledgerRow b₁ policy repeats row xs col g)
      (Grid.ledgerRow b₂ policy repeats row xs col g) := by
  induction xs with
  | nil =>
      intro col g
      exact L.pure []
  | cons x xs ih =>
      intro col g
      rw [Grid.ledgerRow, Grid.ledgerRow]
      by_cases homits : policy.Omits g col
      · rw [if_pos homits, if_pos homits]
        exact L.map _ (ih (col + 1) g)
      · rw [if_neg homits, if_neg homits]
        apply L.bind (hwindows x.a x.b repeats)
        intro clocks
        exact L.map _ (ih (col + 1) (g.recorded row col clocks))

/-- Several passes by the rule. -/
theorem ledgerPasses (inputs : List Input) (n : Nat) : ∀ g : Grid,
    L.rel (Grid.ledgerPasses b₁ policy repeats inputs n g)
      (Grid.ledgerPasses b₂ policy repeats inputs n g) := by
  induction n with
  | zero =>
      intro g
      exact L.pure []
  | succ n ih =>
      intro g
      rw [Grid.ledgerPasses, Grid.ledgerPasses]
      apply L.bind (ledgerRow hwindows policy repeats inputs 0 g)
      intro measured
      exact L.map _ (ih _)

/-- A call by the rule. -/
theorem ledger (inputs : List Input) (passes : Nat) (g : Grid) :
    L.rel (g.ledger b₁ policy inputs passes repeats) (g.ledger b₂ policy inputs passes repeats) := by
  cases hprep : g.prepare inputs.length passes with
  | error f =>
      rw [Grid.ledger_of_prepare_error b₁ policy repeats hprep,
        Grid.ledger_of_prepare_error b₂ policy repeats hprep]
      exact L.pure _
  | ok g₁ =>
      rw [Grid.ledger_of_prepare_ok b₁ policy repeats hprep,
        Grid.ledger_of_prepare_ok b₂ policy repeats hprep]
      exact L.map _ (ledgerPasses hwindows policy repeats inputs passes g₁)

end Lawful

/-! ## Benches that always answer -/

/-- The same values and the same states, without ever breaking off. -/
def total {σ : Type} : Lockstep (StateT σ Option) (StateM σ) where
  rel x₁ x₂ := ∀ s, x₁ s = some (x₂ s)
  pure _ := fun _ => rfl
  bind := by
    intro α β x₁ x₂ f₁ f₂ hx hf s
    show (x₁ s).bind _ = some (f₂ (x₂ s).1 (x₂ s).2)
    rw [hx s, ← hf]
    rfl

/-- The same values and the same states, beside a trace. -/
def untraced {σ τ : Type} : Lockstep (StateM (σ × τ)) (StateM σ) where
  rel x₁ x₂ := ∀ s t, (x₁ (s, t)).1 = (x₂ s).1 ∧ (x₁ (s, t)).2.1 = (x₂ s).2
  pure a := fun s t => ⟨rfl, rfl⟩
  bind := by
    intro α β x₁ x₂ f₁ f₂ hx hf s t
    obtain ⟨hvalue, hstate⟩ := hx s t
    rw [stateM_bind, stateM_bind, ← hvalue, ← hstate]
    exact hf _ _ _

/-- Writing a trace changes nothing else. -/
theorem untraced_windows {σ : Type} (bench : Bench (StateM σ)) :
    untraced.Windows bench.traced bench :=
  untraced.windows_of_steps (fun _ _ => ⟨rfl, rfl⟩) (fun _ _ => ⟨rfl, rfl⟩)
    fun _ _ _ _ => ⟨rfl, rfl⟩

end Lockstep

/-- Measuring on a bench that always answers is a window. -/
theorem Bench.measure_eq_window {σ : Type} (bench : Bench (StateM σ)) (a b : Int64) (repeats : Nat)
    (s : σ) :
    bench.measure a b repeats s =
      ((bench.window a b repeats s).stop - (bench.window a b repeats s).start,
        (bench.window a b repeats s).state) := by
  obtain ⟨hvalue, hstate⟩ := Lockstep.untraced_windows bench a b repeats s []
  rw [bench.measure_traced] at hvalue hstate
  exact Prod.ext hvalue.symm hstate.symm

end TimingAudit
