import TimingAudit.Proofs.Run.Requests
import TimingAudit.Session
import Mathlib.Tactic.Common

/-!
# The steps of a session

What a session does on a state, taken apart into its steps, for every session: its bench, its files,
its flag and whoever takes its events may work on one state, may fail, and may break off. A run of a
class is either completed, in four steps, or fails at one of them.

Nothing is known to a session of how a request is carried out, so that sessions are written here for
any way to do so (`runBy`).

* `runOne_eq_some_iff` : one run;
* `runQueueBy_cons_eq_some_iff` : one class of a queue and the others behind it.
-/

namespace TimingAudit

variable {σ τ α β : Type}

/-! ## Computations that may fail -/

/-- One computation after another: the second one goes on from the value of the first. -/
theorem stateT_bind_of_eq_some {x : StateT τ Option α} {t t₁ : τ} {a : α} (hx : x t = some (a, t₁))
    (f : α → StateT τ Option β) : (x >>= f) t = f a t₁ := by
  show (x t).bind _ = _
  rw [hx]
  rfl

namespace Session

section Bind

variable {x : Work σ (StateT τ Option) α} {f : α → Work σ (StateT τ Option) β}
variable {st st₁ st' : σ × Sink} {t t₁ t' : τ}

/-- Behind a computation that does not fail, the next one goes on from what it has left. -/
theorem work_bind_of_ok {a : α} (hx : x st t = some ((.ok a, st₁), t₁)) :
    (x >>= f) st t = f a st₁ t₁ := by
  show (x st t).bind _ = _
  rw [hx]
  rfl

/-- Behind a computation that fails nothing happens, and what it has left stays. -/
theorem work_bind_of_error {e : Failure} (hx : x st t = some ((.error e, st'), t')) :
    (x >>= f) st t = some ((.error e, st'), t') := by
  show (x st t).bind _ = _
  rw [hx]
  rfl

/-- One computation after another: the first one fails, or the second one goes on from its value. -/
theorem work_bind_cases {result : Except Failure β}
    (h : (x >>= f) st t = some ((result, st'), t')) :
    (∃ e, x st t = some ((.error e, st'), t') ∧ result = .error e) ∨
      ∃ a st₁ t₁, x st t = some ((.ok a, st₁), t₁) ∧ f a st₁ t₁ = some ((result, st'), t') := by
  obtain ⟨⟨⟨first, st₁⟩, t₁⟩, hx, hf⟩ := Option.bind_eq_some_iff.mp h
  cases first with
  | error e =>
      cases hf
      exact .inl ⟨e, hx, rfl⟩
  | ok a => exact .inr ⟨a, st₁, t₁, hx, hf⟩

end Bind

/-! ## One run -/

/-- A run that is completed: it is announced, its inputs are drawn and measured, its dataset is
delivered, and its end is reported. -/
inductive Completes (s : Session (StateT τ Option)) (label name : String)
    (run : σ → StateT τ Option (Except Failure Dataset × σ)) (source : σ) (sink : Sink) (t : τ)
    (d : Dataset) (outputs : List String) (source' : σ) (sink' : Sink) (t' : τ) : Prop
  | intro {t₁ t₂ t₃ : τ}
      (announced : s.notify (.wait name) t = some (.ok (), t₁))
      (measured : run source t₁ = some ((.ok d, source'), t₂))
      (delivered : s.deliver label d sink t₂ = some ((.ok outputs, sink'), t₃))
      (reported : s.notify (.finished name (Summary.ofDataset d outputs)) t₃ = some (.ok (), t'))

/-- A run that fails, at one of its four steps, and what it leaves of the source and the sink. -/
inductive Fails (s : Session (StateT τ Option)) (label name : String)
    (run : σ → StateT τ Option (Except Failure Dataset × σ)) (source : σ) (sink : Sink) (t : τ)
    (f : Failure) : σ → Sink → τ → Prop
  | announcing {t' : τ}
      (announced : s.notify (.wait name) t = some (.error f, t')) :
      Fails s label name run source sink t f source sink t'
  | measuring {t₁ t' : τ} {source' : σ}
      (announced : s.notify (.wait name) t = some (.ok (), t₁))
      (measured : run source t₁ = some ((.error f, source'), t')) :
      Fails s label name run source sink t f source' sink t'
  | delivering {t₁ t₂ t' : τ} {source' : σ} {sink' : Sink} {d : Dataset}
      (announced : s.notify (.wait name) t = some (.ok (), t₁))
      (measured : run source t₁ = some ((.ok d, source'), t₂))
      (delivered : s.deliver label d sink t₂ = some ((.error f, sink'), t')) :
      Fails s label name run source sink t f source' sink' t'
  | reporting {t₁ t₂ t₃ t' : τ} {source' : σ} {sink' : Sink} {d : Dataset} {outputs : List String}
      (announced : s.notify (.wait name) t = some (.ok (), t₁))
      (measured : run source t₁ = some ((.ok d, source'), t₂))
      (delivered : s.deliver label d sink t₂ = some ((.ok outputs, sink'), t₃))
      (reported :
        s.notify (.finished name (Summary.ofDataset d outputs)) t₃ = some (.error f, t')) :
      Fails s label name run source sink t f source' sink' t'

variable {s : Session (StateT τ Option)} {label name : String}
variable {run : σ → StateT τ Option (Except Failure Dataset × σ)} {source source' : σ}
variable {sink sink' : Sink} {t t' : τ} {result : Except Failure Unit}

/-- An event touches neither the source nor the sink. -/
theorem report_eq_some_iff {e : Event} :
    s.report e (source, sink) t = some ((result, source', sink'), t') ↔
      s.notify e t = some (result, t') ∧ source' = source ∧ sink' = sink := by
  constructor
  · intro h
    obtain ⟨⟨answer, t₁⟩, hnotify, hpair⟩ := Option.bind_eq_some_iff.mp h
    cases hpair
    exact ⟨hnotify, rfl, rfl⟩
  · rintro ⟨hnotify, rfl, rfl⟩
    exact Option.bind_eq_some_iff.mpr ⟨_, hnotify, rfl⟩

/-- A look at the flag does not fail. -/
theorem look_eq_some_iff {shown : Except Failure Bool} :
    s.look (source, sink) t = some ((shown, source', sink'), t') ↔
      ∃ stop, s.stopRequested t = some (stop, t') ∧ shown = .ok stop ∧ source' = source ∧
        sink' = sink := by
  constructor
  · intro h
    obtain ⟨⟨⟨stop, _⟩, t₁⟩, hlook, hpair⟩ := Option.bind_eq_some_iff.mp h
    cases hpair
    obtain ⟨⟨stop', t₂⟩, hstop, hpair⟩ := Option.bind_eq_some_iff.mp hlook
    cases hpair
    exact ⟨stop, hstop, rfl, rfl, rfl⟩
  · rintro ⟨stop, hstop, rfl, rfl, rfl⟩
    apply Option.bind_eq_some_iff.mpr
    exact ⟨_, Option.bind_eq_some_iff.mpr ⟨_, hstop, rfl⟩, rfl⟩

/-- A run does not touch the sink. -/
theorem measure_eq_some_iff {measured : Except Failure Dataset} :
    measure run (source, sink) t = some ((measured, source', sink'), t') ↔
      run source t = some ((measured, source'), t') ∧ sink' = sink := by
  constructor
  · intro h
    obtain ⟨⟨⟨outcome, source₁⟩, t₁⟩, hrun, hpair⟩ := Option.bind_eq_some_iff.mp h
    cases hpair
    exact ⟨hrun, rfl⟩
  · rintro ⟨hrun, rfl⟩
    exact Option.bind_eq_some_iff.mpr ⟨_, hrun, rfl⟩

/-- A delivery does not touch the source. -/
theorem store_eq_some_iff {d : Dataset} {stored : Except Failure (List String)} :
    s.store label d (source, sink) t = some ((stored, source', sink'), t') ↔
      s.deliver label d sink t = some ((stored, sink'), t') ∧ source' = source := by
  constructor
  · intro h
    obtain ⟨⟨⟨outcome, sink₁⟩, t₁⟩, hdeliver, hpair⟩ := Option.bind_eq_some_iff.mp h
    cases hpair
    exact ⟨hdeliver, rfl⟩
  · rintro ⟨hdeliver, rfl⟩
    exact Option.bind_eq_some_iff.mpr ⟨_, hdeliver, rfl⟩

/-- **One run** is completed or fails. -/
theorem runOne_eq_some_iff :
    s.runOne label name run (source, sink) t = some ((result, source', sink'), t') ↔
      (∃ d outputs, s.Completes label name run source sink t d outputs source' sink' t' ∧
        result = .ok ()) ∨
      ∃ f, s.Fails label name run source sink t f source' sink' t' ∧ result = .error f := by
  unfold runOne
  constructor
  · intro h
    -- Each step fails, which names the case, or the next one goes on from what it has left.
    rcases work_bind_cases h with ⟨f, hwait, rfl⟩ | ⟨⟨⟩, ⟨_, _⟩, t₁, hwait, h₁⟩
    · obtain ⟨hwait', rfl, rfl⟩ := report_eq_some_iff.mp hwait
      exact .inr ⟨f, .announcing hwait', rfl⟩
    obtain ⟨hwait', rfl, rfl⟩ := report_eq_some_iff.mp hwait
    rcases work_bind_cases h₁ with
      ⟨f, hmeasure, rfl⟩ | ⟨d, ⟨source₁, _⟩, t₂, hmeasure, h₂⟩
    · obtain ⟨hmeasure', rfl⟩ := measure_eq_some_iff.mp hmeasure
      exact .inr ⟨f, .measuring hwait' hmeasure', rfl⟩
    obtain ⟨hmeasure', rfl⟩ := measure_eq_some_iff.mp hmeasure
    rcases work_bind_cases h₂ with
      ⟨f, hdeliver, rfl⟩ | ⟨outputs, ⟨_, sink₁⟩, t₃, hdeliver, hfinish⟩
    · obtain ⟨hdeliver', rfl⟩ := store_eq_some_iff.mp hdeliver
      exact .inr ⟨f, .delivering hwait' hmeasure' hdeliver', rfl⟩
    obtain ⟨hdeliver', rfl⟩ := store_eq_some_iff.mp hdeliver
    obtain ⟨hfinish', rfl, rfl⟩ := report_eq_some_iff.mp hfinish
    cases result with
    | error f => exact .inr ⟨f, .reporting hwait' hmeasure' hdeliver' hfinish', rfl⟩
    | ok u => exact .inl ⟨d, outputs, .intro hwait' hmeasure' hdeliver' hfinish', rfl⟩
  · have hreport : ∀ {e : Event} {r : Except Failure Unit} {source₁ : σ} {sink₁ : Sink} {u u' : τ},
        s.notify e u = some (r, u') →
          s.report e (source₁, sink₁) u = some ((r, source₁, sink₁), u') :=
      fun hnotify => report_eq_some_iff.mpr ⟨hnotify, rfl, rfl⟩
    have hmeasure : ∀ {r : Except Failure Dataset} {source₁ : σ} {u u' : τ},
        run source u = some ((r, source₁), u') →
          measure run (source, sink) u = some ((r, source₁, sink), u') :=
      fun hrun => measure_eq_some_iff.mpr ⟨hrun, rfl⟩
    have hstore : ∀ {d : Dataset} {r : Except Failure (List String)} {source₁ : σ} {sink₁ : Sink}
        {u u' : τ}, s.deliver label d sink u = some ((r, sink₁), u') →
          s.store label d (source₁, sink) u = some ((r, source₁, sink₁), u') :=
      fun hdeliver => store_eq_some_iff.mpr ⟨hdeliver, rfl⟩
    rintro (⟨d, outputs, hrun, rfl⟩ | ⟨f, hrun, rfl⟩)
    · obtain ⟨hwait, hrun, hdeliver, hfinish⟩ := hrun
      rw [work_bind_of_ok (hreport hwait), work_bind_of_ok (hmeasure hrun),
        work_bind_of_ok (hstore hdeliver)]
      exact hreport hfinish
    · cases hrun with
      | announcing hwait => exact work_bind_of_error (hreport hwait)
      | measuring hwait hrun =>
          rw [work_bind_of_ok (hreport hwait)]
          exact work_bind_of_error (hmeasure hrun)
      | delivering hwait hrun hdeliver =>
          rw [work_bind_of_ok (hreport hwait), work_bind_of_ok (hmeasure hrun)]
          exact work_bind_of_error (hstore hdeliver)
      | reporting hwait hrun hdeliver hfinish =>
          rw [work_bind_of_ok (hreport hwait), work_bind_of_ok (hmeasure hrun),
            work_bind_of_ok (hstore hdeliver)]
          exact hreport hfinish

/-! ## A queue of runs -/

/-- A run of one class goes by the name of the class. -/
theorem runName_singleton (k : InputClass) : runName [k] = k.name := by
  rw [runName, List.map_singleton, String.intercalate_singleton]

section By

variable {m : Type → Type} [Monad m]

/-- Carries out a run of every class in turn, until it is to stop, each as the given way to carry out
requests has it. -/
def runQueueBy (s : Session m) (o : Options)
    (perform : Request → σ → m (Except Failure Dataset × σ)) : List InputClass → Work σ m Unit
  | [] => pure ()
  | k :: ks => do
    if ← s.look then s.report (.interrupted (ks.length + 1))
    else
      s.runOne o.label (runName [k]) (perform (.single k))
      s.runQueueBy o perform ks

/-- Carries out the runs that the options ask for, as the given way to carry out requests has it. -/
def runBy (s : Session m) (o : Options) (perform : Request → σ → m (Except Failure Dataset × σ)) :
    Work σ m Unit :=
  if o.mixed then do
    let kinds := o.classes.distinct
    s.report (.begin [runName kinds])
    s.runOne o.label (runName kinds) (perform (.mixed kinds))
  else do
    s.report (.begin (o.classes.toList.map fun k => runName [k]))
    s.runQueueBy o perform o.classes.toList

variable [RandomSource σ] [MonadLiftT Option m]

/-- A queue of runs carries out its requests on the bench of the session. -/
theorem runQueue_eq_runQueueBy (s : Session m) (o : Options) (ks : List InputClass) :
    (s.runQueue o ks : Work σ m Unit) = s.runQueueBy o (o.runConfig.perform s.bench) ks := by
  induction ks with
  | nil => rfl
  | cons k ks ih =>
      rw [runQueue, runQueueBy, ih]
      rfl

/-- A session carries out its requests on its bench. -/
theorem run_eq_runBy (s : Session m) (o : Options) :
    (s.run o : Work σ m Unit) = s.runBy o (o.runConfig.perform s.bench) := by
  unfold Session.run runBy
  rw [runQueue_eq_runQueueBy]
  rfl

end By

section Queue

variable {o : Options} {k : InputClass} {ks : List InputClass}
variable {perform : Request → σ → StateT τ Option (Except Failure Dataset × σ)}

/-- **One class of a queue.** The flag is shown, and then the session stops, or the run of the class
fails, or it is completed and the other classes are next. -/
theorem runQueueBy_cons_eq_some_iff :
    s.runQueueBy o perform (k :: ks) (source, sink) t = some ((result, source', sink'), t') ↔
      (∃ t₁, s.stopRequested t = some (true, t₁) ∧
        s.notify (.interrupted (ks.length + 1)) t₁ = some (result, t') ∧
        source' = source ∧ sink' = sink) ∨
      (∃ t₁ f, s.stopRequested t = some (false, t₁) ∧
        s.Fails o.label k.name (perform (.single k)) source sink t₁ f source' sink' t' ∧
        result = .error f) ∨
      ∃ t₁ t₂ d outputs source₁ sink₁, s.stopRequested t = some (false, t₁) ∧
        s.Completes o.label k.name (perform (.single k)) source sink t₁ d outputs source₁ sink₁ t₂ ∧
        s.runQueueBy o perform ks (source₁, sink₁) t₂ = some ((result, source', sink'), t') := by
  rw [runQueueBy, runName_singleton]
  constructor
  · intro h
    rcases work_bind_cases h with ⟨f, hlook, -⟩ | ⟨stop, ⟨_, _⟩, t₁, hlook, hthen⟩
    · obtain ⟨_, -, himpossible, -⟩ := look_eq_some_iff.mp hlook
      cases himpossible
    obtain ⟨_, hshown, hstop, rfl, rfl⟩ := look_eq_some_iff.mp hlook
    cases hstop
    cases stop with
    | true => exact .inl ⟨t₁, hshown, report_eq_some_iff.mp hthen⟩
    | false =>
        refine .inr ?_
        rcases work_bind_cases hthen with
          ⟨f, hone, rfl⟩ | ⟨⟨⟩, ⟨source₁, sink₁⟩, t₂, hone, hrest⟩
        · rcases runOne_eq_some_iff.mp hone with ⟨_, _, -, himpossible⟩ | ⟨f', hfails, hresult⟩
          · cases himpossible
          · cases hresult
            exact .inl ⟨t₁, f, hshown, hfails, rfl⟩
        · rcases runOne_eq_some_iff.mp hone with ⟨d, outputs, hdone, -⟩ | ⟨f', -, himpossible⟩
          · exact .inr ⟨t₁, t₂, d, outputs, source₁, sink₁, hshown, hdone, hrest⟩
          · cases himpossible
  · have hlook : ∀ {stop : Bool} {u : τ}, s.stopRequested t = some (stop, u) →
        s.look (source, sink) t = some ((.ok stop, source, sink), u) :=
      fun hshown => look_eq_some_iff.mpr ⟨_, hshown, rfl, rfl, rfl⟩
    rintro (⟨t₁, hshown, hstopped⟩ | ⟨t₁, f, hshown, hfails, rfl⟩ |
      ⟨t₁, t₂, d, outputs, source₁, sink₁, hshown, hdone, hrest⟩)
    · rw [work_bind_of_ok (hlook hshown)]
      exact report_eq_some_iff.mpr hstopped
    · rw [work_bind_of_ok (hlook hshown)]
      exact work_bind_of_error (runOne_eq_some_iff.mpr (.inr ⟨f, hfails, rfl⟩))
    · rw [work_bind_of_ok (hlook hshown)]
      have hone := runOne_eq_some_iff.mpr (.inl ⟨d, outputs, hdone, rfl⟩)
      exact (work_bind_of_ok hone).trans hrest

variable [RandomSource σ]

/-- One class of a queue, on the bench of the session. -/
theorem runQueue_cons_eq_some_iff :
    s.runQueue o (k :: ks) (source, sink) t = some ((result, source', sink'), t') ↔
      (∃ t₁, s.stopRequested t = some (true, t₁) ∧
        s.notify (.interrupted (ks.length + 1)) t₁ = some (result, t') ∧
        source' = source ∧ sink' = sink) ∨
      (∃ t₁ f, s.stopRequested t = some (false, t₁) ∧
        s.Fails o.label k.name (o.runConfig.run s.bench k) source sink t₁ f source' sink' t' ∧
        result = .error f) ∨
      ∃ t₁ t₂ d outputs source₁ sink₁, s.stopRequested t = some (false, t₁) ∧
        s.Completes o.label k.name (o.runConfig.run s.bench k) source sink t₁ d outputs source₁
          sink₁ t₂ ∧
        s.runQueue o ks (source₁, sink₁) t₂ = some ((result, source', sink'), t') := by
  simp only [runQueue_eq_runQueueBy]
  exact runQueueBy_cons_eq_some_iff

end Queue

end Session

end TimingAudit
