import TimingAudit.Proofs.Run.ByRule
import TimingAudit.Proofs.Session.Steps

/-!
# Sessions in lock step

Computations on a part of the state leave the rest alone (`beside`), and so does all that a session
does with a bench on a part of the state. More generally, a session looks at its bench, its files, its
flag and whoever takes its events through what they answer only, so two sessions are in lock step if
all these are.

* `Lockstep.session` : two sessions;
* `RunConfig.perform_beside` : runs on a part of the state.
-/

namespace TimingAudit

variable {σ τ ρ α β : Type}

/-! ## A part of the state -/

/-- A computation on the first part of the state. -/
def beside (x : StateT τ Option α) : StateT (τ × ρ) Option α := fun s =>
  (x s.1).map fun r => (r.1, (r.2, s.2))

/-- The second part of the state stays as it is. -/
theorem beside_eq_some_iff {x : StateT τ Option α} {t : τ} {rest : ρ} {a : α} {s : τ × ρ} :
    beside x (t, rest) = some (a, s) ↔ ∃ t', x t = some (a, t') ∧ s = (t', rest) := by
  unfold beside
  rw [Option.map_eq_some_iff]
  constructor
  · rintro ⟨⟨b, t'⟩, hx, hpair⟩
    cases hpair
    exact ⟨t', hx, rfl⟩
  · rintro ⟨t', hx, rfl⟩
    exact ⟨_, hx, rfl⟩

/-- The first part of the state and the value are those of the computation. -/
theorem map_beside (x : StateT τ Option α) (s : τ × ρ) :
    (beside x s).map (fun r => (r.1, r.2.1)) = x s.1 := by
  unfold beside
  rw [Option.map_map]
  exact Option.map_id'

/-- One computation after another. -/
theorem beside_bind (x : StateT τ Option α) (f : α → StateT τ Option β) :
    (beside (x >>= f) : StateT (τ × ρ) Option β) = beside x >>= fun a => beside (f a) := by
  funext s
  show ((x s.1).bind _).map _ = ((x s.1).map _).bind _
  cases x s.1 <;> rfl

/-- A bench on the first part of the state. -/
def Bench.beside (bench : Bench (StateT τ Option)) : Bench (StateT (τ × ρ) Option) where
  opening := TimingAudit.beside bench.opening
  closing := TimingAudit.beside bench.closing
  call a b := TimingAudit.beside (bench.call a b)

/-- The same values and the same changes of the first part of the state. -/
def Lockstep.beside (τ ρ : Type) : Lockstep (StateT (τ × ρ) Option) (StateT τ Option) where
  rel x₁ x₂ := x₁ = TimingAudit.beside x₂
  pure _ := rfl
  bind := by
    intro α β x₁ x₂ f₁ f₂ hx hf
    rw [hx, beside_bind, funext hf]

/-- There is no value beside other things either. -/
theorem Lockstep.beside_lifts (τ ρ : Type) : (Lockstep.beside τ ρ).Lifts := by
  apply (Lockstep.beside τ ρ).lifts_of_none
  intro α
  rfl

/-- The same values and the same changes of the first part of the state, whatever becomes of the
second. -/
def Lockstep.first (τ ρ : Type) : Lockstep (StateT (τ × ρ) Option) (StateT τ Option) where
  rel x₁ x₂ := ∀ s, (x₁ s).map (fun r => (r.1, r.2.1)) = x₂ s.1
  pure _ := fun _ => rfl
  bind := by
    intro α β x₁ x₂ f₁ f₂ hx hf s
    show ((x₁ s).bind _).map _ = (x₂ s.1).bind _
    rw [← hx s]
    cases x₁ s with
    | none => rfl
    | some r => exact hf r.1 r.2

/-- There is no value whatever becomes of the second part. -/
theorem Lockstep.first_lifts (τ ρ : Type) : (Lockstep.first τ ρ).Lifts := by
  apply (Lockstep.first τ ρ).lifts_of_none
  intro α s
  rfl

/-! ## Two sessions -/

namespace Lockstep

open Session (Work)

variable {m₁ m₂ : Type → Type} [Monad m₁] [Monad m₂]

/-- Two sessions whose parts are in lock step. -/
structure Sessions (L : Lockstep m₁ m₂) (s₁ : Session m₁) (s₂ : Session m₂) : Prop where
  windows : L.Windows s₁.bench s₂.bench
  save : ∀ path text, L.rel (s₁.save path text) (s₂.save path text)
  stopRequested : L.rel s₁.stopRequested s₂.stopRequested
  notify : ∀ e, L.rel (s₁.notify e) (s₂.notify e)

/-- What two sessions do is in lock step from any source and sink. -/
def Works (L : Lockstep m₁ m₂) (x₁ : Work σ m₁ α) (x₂ : Work σ m₂ α) : Prop :=
  ∀ st, L.rel (x₁ st) (x₂ st)

/-- One thing after another. -/
theorem Works.bind {L : Lockstep m₁ m₂} {x₁ : Work σ m₁ α} {x₂ : Work σ m₂ α}
    {f₁ : α → Work σ m₁ β} {f₂ : α → Work σ m₂ β} (hx : L.Works x₁ x₂)
    (hf : ∀ a, L.Works (f₁ a) (f₂ a)) : L.Works (x₁ >>= f₁) (x₂ >>= f₂) := by
  intro st
  apply L.bind (hx st)
  rintro ⟨e | a, st'⟩
  · exact L.pure _
  · exact hf a st'

section Files

variable {L : Lockstep m₁ m₂} {s₁ : Session m₁} {s₂ : Session m₂}
variable (hsave : ∀ path text, L.rel (s₁.save path text) (s₂.save path text))

include hsave

/-- Saving reports. -/
theorem saveAll (folder label : String) (d : Dataset) (ks : List InputClass) :
    ∀ written : List String,
      L.rel (Report.saveAll s₁.save folder label d ks written)
        (Report.saveAll s₂.save folder label d ks written) := by
  induction ks with
  | nil =>
      intro written
      exact L.pure _
  | cons k ks ih =>
      intro written
      apply L.bind (hsave _ _)
      rintro (e | ⟨⟩)
      · exact L.pure _
      · dsimp only
        split
        · exact L.pure _
        · exact ih _

/-- Delivering a dataset. -/
theorem deliver (label : String) (d : Dataset) (sink : Sink) :
    L.rel (s₁.deliver label d sink) (s₂.deliver label d sink) := by
  cases sink with
  | folder path =>
      apply L.bind (saveAll hsave path label d d.kinds [])
      intro result
      exact L.pure _
  | log log => exact L.pure _

end Files

section Steps

variable {L : Lockstep m₁ m₂} {s₁ : Session m₁} {s₂ : Session m₂} (h : L.Sessions s₁ s₂)

include h

/-- Reporting an event. -/
theorem report (e : Event) : L.Works (s₁.report e : Work σ m₁ Unit) (s₂.report e) := by
  intro st
  apply L.bind (h.notify e)
  intro answer
  exact L.pure _

/-- Looking at the flag. -/
theorem look : L.Works (s₁.look : Work σ m₁ Bool) s₂.look := by
  intro st
  apply L.bind
  · apply L.bind h.stopRequested
    intro stop
    exact L.pure _
  · intro shown
    exact L.pure _

/-- One run. -/
theorem runOne (label name : String) {run₁ : σ → m₁ (Except Failure Dataset × σ)}
    {run₂ : σ → m₂ (Except Failure Dataset × σ)}
    (hrun : ∀ source, L.rel (run₁ source) (run₂ source)) :
    L.Works (s₁.runOne label name run₁) (s₂.runOne label name run₂) := by
  apply (report h _).bind
  intro _
  have hmeasure : L.Works (Session.measure run₁) (Session.measure run₂) := by
    rintro ⟨source, sink⟩
    apply L.bind (hrun source)
    intro outcome
    exact L.pure _
  apply hmeasure.bind
  intro d
  have hstore : L.Works (s₁.store label d : Work σ m₁ (List String)) (s₂.store label d) := by
    rintro ⟨source, sink⟩
    apply L.bind (deliver h.save label d sink)
    intro outcome
    exact L.pure _
  apply hstore.bind
  intro outputs
  exact report h _

variable {perform₁ : Request → σ → m₁ (Except Failure Dataset × σ)}
variable {perform₂ : Request → σ → m₂ (Except Failure Dataset × σ)}
variable (hperform : ∀ request source, L.rel (perform₁ request source) (perform₂ request source))

include hperform

/-- A queue of runs. -/
theorem runQueueBy (o : Options) (ks : List InputClass) :
    L.Works (s₁.runQueueBy o perform₁ ks) (s₂.runQueueBy o perform₂ ks) := by
  induction ks with
  | nil =>
      intro st
      exact L.pure _
  | cons k ks ih =>
      apply (look h).bind
      rintro (_ | _)
      · apply (runOne h _ _ (hperform (.single k))).bind
        intro _
        exact ih
      · exact report h _

/-- Two sessions whose parts are in lock step, and whose requests are carried out in lock step. -/
theorem runBy (o : Options) : L.Works (s₁.runBy o perform₁) (s₂.runBy o perform₂) := by
  unfold Session.runBy
  by_cases hmixed : o.mixed
  · rw [if_pos hmixed, if_pos hmixed]
    apply (report h _).bind
    intro _
    exact runOne h _ _ (hperform (.mixed o.classes.distinct))
  · rw [if_neg hmixed, if_neg hmixed]
    apply (report h _).bind
    intro _
    exact runQueueBy h hperform o o.classes.toList

end Steps

variable [LawfulMonad m₁] [LawfulMonad m₂] [MonadLiftT Option m₁] [MonadLiftT Option m₂]
variable [LawfulMonadLiftT Option m₁] [LawfulMonadLiftT Option m₂] [RandomSource σ]
variable {L : Lockstep m₁ m₂} (hlifts : L.Lifts)

include hlifts

/-- Runs of two benches. -/
theorem perform {b₁ : Bench m₁} {b₂ : Bench m₂} (hwindows : L.Windows b₁ b₂) (config : RunConfig)
    (request : Request) (source : σ) :
    L.rel (config.perform b₁ request source) (config.perform b₂ request source) := by
  rw [RunConfig.perform_eq, RunConfig.perform_eq]
  apply L.bind (hlifts (config.draw request source))
  intro drawn
  exact L.map _ (measureDrawn hwindows config request.kinds drawn.1)

/-- **Two sessions** whose parts are in lock step are so as a whole. -/
theorem session {s₁ : Session m₁} {s₂ : Session m₂} (h : L.Sessions s₁ s₂) (o : Options) :
    L.Works (s₁.run o : Work σ m₁ Unit) (s₂.run o) := by
  rw [Session.run_eq_runBy, Session.run_eq_runBy]
  exact runBy h (perform hlifts h.windows o.runConfig) o

end Lockstep

/-- A run on a bench beside other things does not touch these. -/
theorem RunConfig.perform_beside [RandomSource σ] (config : RunConfig)
    (bench : Bench (StateT τ Option)) (request : Request) (source : σ) :
    config.perform bench.beside request source =
      (TimingAudit.beside (config.perform bench request source) :
        StateT (τ × ρ) Option (Except Failure Dataset × σ)) := by
  have hwindows : (Lockstep.beside τ ρ).Windows bench.beside bench :=
    (Lockstep.beside τ ρ).windows_of_steps rfl rfl fun _ _ => rfl
  exact Lockstep.perform (Lockstep.beside_lifts τ ρ) hwindows config request source

end TimingAudit
