import TimingAudit.Bench.Simulated
import TimingAudit.Proofs.Session.Lockstep
import TimingAudit.Proofs.Session.Steps
import TimingAudit.Random.ByteCycle

/-!
# The events of a session

A session reports the names of all runs first. Then the runs follow, each between two events of its
own, until all are done or the flag has been shown raised; in the latter case the last event says how
many runs are left out. The flag is looked at once before every run and at no other time, and never
in a mixed session. A session that fails breaks off its events where it is.

To say so of every session, the events that it reports and what its flag shows are written down beside
its state (`watched`).

* `Proceeds.of_runQueue` : the runs of a queue, and what is written down meanwhile;
* `run_events` : the events of whole sessions.
-/

namespace TimingAudit

variable {σ τ : Type}

/-- The events that a session has reported, and what its flag has shown. -/
structure Record where
  events : List Event := []
  shown : List Bool := []
deriving DecidableEq

namespace Record

/-- Writes down events. -/
def hear (record : Record) (es : List Event) : Record :=
  { record with events := record.events ++ es }

/-- Writes down what the flag shows. -/
def see (record : Record) (stop : Bool) : Record :=
  { record with shown := record.shown ++ [stop] }

theorem hear_hear (record : Record) (es es' : List Event) :
    (record.hear es).hear es' = record.hear (es ++ es') := by
  simp [hear]

end Record

namespace Session

/-- The session that also writes down the events it reports and what its flag shows. -/
def watched (s : Session (StateT τ Option)) : Session (StateT (τ × Record) Option) where
  bench := s.bench.beside
  save path text := beside (s.save path text)
  stopRequested := fun (t, record) =>
    (s.stopRequested t).map fun (stop, t) => (stop, (t, record.see stop))
  notify e := fun (t, record) =>
    (s.notify e t).map fun (answer, t) => (answer, (t, record.hear [e]))

/-! ## The protocol -/

/-- The events of a queue in which as many runs are finished as there are summaries: two for each of
them, and one more if runs are left out. -/
def queueEvents (ks : List InputClass) (summaries : List Summary) : List Event :=
  ((ks.zip summaries).flatMap fun run =>
      [.wait run.1.name, .finished run.1.name run.2]) ++
    if summaries.length < ks.length then [.interrupted (ks.length - summaries.length)] else []

/-- What the flag shows in a queue of `count` runs of which `finished` are finished: it is not raised
before any of these, and raised before the next one, if there is a next one. -/
def queueFlags (count finished : Nat) : List Bool :=
  List.replicate finished false ++ if finished < count then [true] else []

/-- The events of a whole session that is not mixed. -/
def trace (ks : List InputClass) (summaries : List Summary) : List Event :=
  .begin (ks.map InputClass.name) :: queueEvents ks summaries

/-- The events of a mixed session. -/
def mixedTrace (name : String) (summary : Summary) : List Event :=
  [.begin [name], .wait name, .finished name summary]

/-- With no run finished, the only event says that all are left out. -/
theorem queueEvents_cons_nil (k : InputClass) (ks : List InputClass) :
    queueEvents (k :: ks) [] = [.interrupted (ks.length + 1)] := by
  simp [queueEvents]

/-- The two events of a finished run stand before those of the runs behind it. -/
theorem queueEvents_cons_cons (k : InputClass) (ks : List InputClass) (summary : Summary)
    (summaries : List Summary) :
    queueEvents (k :: ks) (summary :: summaries) =
      [.wait k.name, .finished k.name summary] ++ queueEvents ks summaries := by
  simp [queueEvents]

/-- With no run finished, the flag is looked at once and is raised. -/
theorem queueFlags_succ_zero (count : Nat) : queueFlags (count + 1) 0 = [true] := by
  simp [queueFlags]

/-- The flag is not raised before a finished run. -/
theorem queueFlags_succ_succ (count finished : Nat) :
    queueFlags (count + 1) (finished + 1) = false :: queueFlags count finished := by
  simp [queueFlags, List.replicate_succ]

/-- As many runs are finished as the flag was shown not raised before it was raised. -/
theorem length_takeWhile_queueFlags (count finished : Nat) :
    ((queueFlags count finished).takeWhile (· = false)).length = finished := by
  unfold queueFlags
  rw [List.takeWhile_append_of_pos (by simp)]
  split <;> simp

/-! ## Runs one after another -/

/-- The runs of a queue that are completed one after another, until all are or the flag is shown
raised: each dataset with the paths it was written to. -/
inductive Proceeds [RandomSource σ] (s : Session (StateT τ Option)) (o : Options) :
    List InputClass → σ → Sink → τ → List (Dataset × List String) → σ → Sink → τ → Prop
  | all {source : σ} {sink : Sink} {t : τ} : Proceeds s o [] source sink t [] source sink t
  | stopped {k : InputClass} {ks : List InputClass} {source : σ} {sink : Sink} {t t₁ t' : τ}
      (shown : s.stopRequested t = some (true, t₁))
      (reported : s.notify (.interrupted (ks.length + 1)) t₁ = some (.ok (), t')) :
      Proceeds s o (k :: ks) source sink t [] source sink t'
  | next {k : InputClass} {ks : List InputClass} {source source₁ source' : σ}
      {sink sink₁ sink' : Sink} {t t₁ t₂ t' : τ} {d : Dataset} {outputs : List String}
      {runs : List (Dataset × List String)}
      (shown : s.stopRequested t = some (false, t₁))
      (completed : s.Completes o.label k.name (o.runConfig.run s.bench k) source sink t₁ d outputs
        source₁ sink₁ t₂)
      (rest : Proceeds s o ks source₁ sink₁ t₂ runs source' sink' t') :
      Proceeds s o (k :: ks) source sink t ((d, outputs) :: runs) source' sink' t'

/-- The summaries of runs. -/
def summariesOf (runs : List (Dataset × List String)) : List Summary :=
  runs.map fun run => Summary.ofDataset run.1 run.2

theorem summariesOf_cons (d : Dataset) (outputs : List String)
    (runs : List (Dataset × List String)) :
    summariesOf ((d, outputs) :: runs) = Summary.ofDataset d outputs :: summariesOf runs := rfl

/-! ## Watching the steps -/

section Watched

variable {s : Session (StateT τ Option)} {t : τ} {record : Record}

/-- What the flag shows is written down. -/
theorem watched_stopRequested_eq_some_iff {stop : Bool} {p : τ × Record} :
    s.watched.stopRequested (t, record) = some (stop, p) ↔
      ∃ t', s.stopRequested t = some (stop, t') ∧
        p = (t', record.see stop) := by
  show (s.stopRequested t).map _ = _ ↔ _
  rw [Option.map_eq_some_iff]
  constructor
  · rintro ⟨⟨stop', t'⟩, hshown, hpair⟩
    cases hpair
    exact ⟨t', hshown, rfl⟩
  · rintro ⟨t', hshown, rfl⟩
    exact ⟨_, hshown, rfl⟩

/-- An event is written down, whatever the answer to it. -/
theorem watched_notify_eq_some_iff {e : Event} {answer : Except Failure Unit} {p : τ × Record} :
    s.watched.notify e (t, record) = some (answer, p) ↔
      ∃ t', s.notify e t = some (answer, t') ∧
        p = (t', record.hear [e]) := by
  show (s.notify e t).map _ = _ ↔ _
  rw [Option.map_eq_some_iff]
  constructor
  · rintro ⟨⟨answer', t'⟩, hnotify, hpair⟩
    cases hpair
    exact ⟨t', hnotify, rfl⟩
  · rintro ⟨t', hnotify, rfl⟩
    exact ⟨_, hnotify, rfl⟩

/-- Delivering a dataset is not written down. -/
theorem watched_deliver (label : String) (d : Dataset) (sink : Sink) :
    s.watched.deliver label d sink = beside (s.deliver label d sink) := by
  have hsave : ∀ path text,
      (Lockstep.beside τ Record).rel (s.watched.save path text) (s.save path text) :=
    fun _ _ => rfl
  exact Lockstep.deliver hsave label d sink

variable {label name : String} {run : σ → StateT τ Option (Except Failure Dataset × σ)}
variable {source source' : σ} {sink sink' : Sink} {p : τ × Record}

/-- A completed run leaves two events. -/
theorem Completes.of_watched {d : Dataset} {outputs : List String}
    (h : s.watched.Completes label name (fun source => beside (run source)) source sink (t, record) d
      outputs source' sink' p) :
    ∃ t', s.Completes label name run source sink t d outputs source' sink' t' ∧
      p = (t', record.hear [.wait name, .finished name (Summary.ofDataset d outputs)]) := by
  obtain ⟨hwait, hmeasure, hdeliver, hfinish⟩ := h
  obtain ⟨t₁, hwait', rfl⟩ := watched_notify_eq_some_iff.mp hwait
  obtain ⟨t₂, hmeasure', rfl⟩ := beside_eq_some_iff.mp hmeasure
  rw [watched_deliver] at hdeliver
  obtain ⟨t₃, hdeliver', rfl⟩ := beside_eq_some_iff.mp hdeliver
  obtain ⟨t', hfinish', rfl⟩ := watched_notify_eq_some_iff.mp hfinish
  exact ⟨t', .intro hwait' hmeasure' hdeliver' hfinish', by rw [Record.hear_hear]; rfl⟩

/-- A run that fails leaves the first of two events, or both. -/
theorem Fails.of_watched {f : Failure}
    (h : s.watched.Fails label name (fun source => beside (run source)) source sink (t, record) f
      source' sink' p) :
    ∃ t' summary es, es <+: [.wait name, .finished name summary] ∧ p = (t', record.hear es) := by
  cases h with
  | announcing hwait =>
      obtain ⟨t', -, rfl⟩ := watched_notify_eq_some_iff.mp hwait
      exact ⟨t', {}, [.wait name], ⟨_, rfl⟩, rfl⟩
  | measuring hwait hmeasure =>
      obtain ⟨t₁, -, rfl⟩ := watched_notify_eq_some_iff.mp hwait
      obtain ⟨t', -, rfl⟩ := beside_eq_some_iff.mp hmeasure
      exact ⟨t', {}, [.wait name], ⟨_, rfl⟩, rfl⟩
  | delivering hwait hmeasure hdeliver =>
      obtain ⟨t₁, -, rfl⟩ := watched_notify_eq_some_iff.mp hwait
      obtain ⟨t₂, -, rfl⟩ := beside_eq_some_iff.mp hmeasure
      rw [watched_deliver] at hdeliver
      obtain ⟨t', -, rfl⟩ := beside_eq_some_iff.mp hdeliver
      exact ⟨t', {}, [.wait name], ⟨_, rfl⟩, rfl⟩
  | @reporting _ _ _ _ _ _ d outputs hwait hmeasure hdeliver hfinish =>
      obtain ⟨t₁, -, rfl⟩ := watched_notify_eq_some_iff.mp hwait
      obtain ⟨t₂, -, rfl⟩ := beside_eq_some_iff.mp hmeasure
      rw [watched_deliver] at hdeliver
      obtain ⟨t₃, -, rfl⟩ := beside_eq_some_iff.mp hdeliver
      obtain ⟨t', -, rfl⟩ := watched_notify_eq_some_iff.mp hfinish
      exact ⟨t', Summary.ofDataset d outputs, _, List.prefix_rfl, by rw [Record.hear_hear]; rfl⟩

end Watched

/-! ## Whole sessions -/

variable [RandomSource σ] {s : Session (StateT τ Option)} {o : Options}

/-- Watching a session changes nothing else. -/
theorem map_watched_run (s : Session (StateT τ Option)) (o : Options) (st : σ × Sink) (t : τ)
    (record : Record) :
    (s.watched.run o st (t, record)).map (fun r => (r.1, r.2.1)) = s.run o st t := by
  have hparts : (Lockstep.first τ Record).Sessions s.watched s := by
    constructor
    · apply (Lockstep.first τ Record).windows_of_steps
      · exact fun p => map_beside s.bench.opening p
      · exact fun p => map_beside s.bench.closing p
      · exact fun a b p => map_beside (s.bench.call a b) p
    · exact fun path text p => map_beside (s.save path text) p
    · rintro ⟨t, record⟩
      show ((s.stopRequested t).map _).map _ = _
      rw [Option.map_map]
      exact Option.map_id'
    · rintro e ⟨t, record⟩
      show ((s.notify e t).map _).map _ = _
      rw [Option.map_map]
      exact Option.map_id'
  exact Lockstep.session (Lockstep.first_lifts τ Record) hparts o st (t, record)

/-- What a watched session returns, the session does. -/
theorem run_of_watched {st : σ × Sink} {t t' : τ} {record record' : Record}
    {outcome : Except Failure Unit × (σ × Sink)}
    (h : s.watched.run o st (t, record) = some (outcome, (t', record'))) :
    s.run o st t = some (outcome, t') := by
  rw [← map_watched_run s o st t record, h]
  rfl

/-- No more runs are completed than there are classes. -/
theorem Proceeds.length_le {ks : List InputClass} {source source' : σ} {sink sink' : Sink} {t t' : τ}
    {runs : List (Dataset × List String)}
    (h : s.Proceeds o ks source sink t runs source' sink' t') : runs.length ≤ ks.length := by
  induction h with
  | all => exact Nat.le_refl _
  | stopped => exact Nat.zero_le _
  | next _ _ _ ih => exact Nat.succ_le_succ ih

/-- **The runs of a queue**, and what is written down meanwhile. If the session goes on to its end,
this is the protocol of the runs that were completed, and if it fails, it is the beginning of some
such protocol. -/
theorem Proceeds.of_runQueue (ks : List InputClass) : ∀ {source source' : σ} {sink sink' : Sink}
    {t : τ} {record : Record} {result : Except Failure Unit} {p : τ × Record},
    s.watched.runQueue o ks (source, sink) (t, record) = some ((result, source', sink'), p) →
    (∃ runs t', result = .ok () ∧
      s.Proceeds o ks source sink t runs source' sink' t' ∧
      p = (t', ⟨record.events ++ queueEvents ks (summariesOf runs),
        record.shown ++ queueFlags ks.length runs.length⟩)) ∨
    ∃ f summaries es flags t', result = .error f ∧ summaries.length ≤ ks.length ∧
      es <+: queueEvents ks summaries ∧ flags <+: queueFlags ks.length summaries.length ∧
      p = (t', ⟨record.events ++ es, record.shown ++ flags⟩) := by
  induction ks with
  | nil =>
      intro source source' sink sink' t record result p h
      cases h
      refine .inl ⟨[], t, rfl, .all, ?_⟩
      simp [queueEvents, queueFlags, summariesOf]
  | cons k ks ih =>
      intro source source' sink sink' t record result p h
      have hbench : o.runConfig.run s.watched.bench k =
          fun source : σ => beside (o.runConfig.run s.bench k source) :=
        funext fun source => o.runConfig.perform_beside s.bench (.single k) source
      rcases runQueue_cons_eq_some_iff.mp h with
        ⟨p₁, hshown, hnotify, rfl, rfl⟩ | ⟨p₁, f, hshown, hfails, rfl⟩ |
          ⟨p₁, p₂, d, outputs, source₁, sink₁, hshown, hcompletes, hrest⟩
      · -- The flag is raised. Whether its event is taken or not, it is the last one.
        obtain ⟨t₁, hshown', rfl⟩ := watched_stopRequested_eq_some_iff.mp hshown
        obtain ⟨t', hnotify', rfl⟩ := watched_notify_eq_some_iff.mp hnotify
        cases result with
        | error f =>
            refine .inr ⟨f, [], _, _, t', rfl, Nat.zero_le _, List.prefix_rfl, List.prefix_rfl, ?_⟩
            rw [queueEvents_cons_nil, List.length_cons, List.length_nil, queueFlags_succ_zero]
            rfl
        | ok u =>
            refine .inl ⟨[], t', rfl, .stopped hshown' hnotify', ?_⟩
            rw [List.length_cons, List.length_nil, queueFlags_succ_zero]
            exact congrArg (fun es => (t', Record.mk (record.events ++ es) _))
              (queueEvents_cons_nil k ks).symm
      · obtain ⟨t₁, hshown', rfl⟩ := watched_stopRequested_eq_some_iff.mp hshown
        rw [hbench] at hfails
        obtain ⟨t', summary, es, hes, rfl⟩ := hfails.of_watched
        refine .inr ⟨f, [summary], es, [false], t', rfl, Nat.succ_le_succ (Nat.zero_le _), ?_, ?_,
          rfl⟩
        · rw [queueEvents_cons_cons]
          exact hes.trans (List.prefix_append _ _)
        · rw [List.length_cons, List.length_singleton, queueFlags_succ_succ]
          exact ⟨_, rfl⟩
      · obtain ⟨t₁, hshown', rfl⟩ := watched_stopRequested_eq_some_iff.mp hshown
        rw [hbench] at hcompletes
        obtain ⟨t₂, hcompletes', rfl⟩ := hcompletes.of_watched
        rcases ih hrest with
          ⟨runs, t', rfl, hproceeds, rfl⟩ |
            ⟨f, summaries, es, flags, t', rfl, hlength, hes, hflags, rfl⟩
        · refine .inl ⟨(d, outputs) :: runs, t', rfl, .next hshown' hcompletes' hproceeds, ?_⟩
          rw [summariesOf_cons, queueEvents_cons_cons, List.length_cons, List.length_cons,
            queueFlags_succ_succ, ← List.append_assoc, List.append_cons record.shown]
          rfl
        · refine .inr ⟨f, Summary.ofDataset d outputs :: summaries,
            [.wait k.name, .finished k.name (Summary.ofDataset d outputs)] ++ es, false :: flags, t',
            rfl, Nat.succ_le_succ hlength, ?_, ?_, ?_⟩
          · rw [queueEvents_cons_cons]
            exact (List.prefix_append_right_inj _).mpr hes
          · rw [List.length_cons, List.length_cons, queueFlags_succ_succ]
            exact (List.prefix_cons_inj _).mpr hflags
          · rw [← List.append_assoc, List.append_cons record.shown]
            rfl

/-- **The events of a session.** Without `mixed`, a session that returns a result has reported the
names of all classes, two events for each of the runs that it has completed, and that it was to stop
if some are left out. Its runs are completed as long as the flag is not shown raised, and their
datasets are all that is measured and delivered. A mixed session is one run under the joined names,
and the flag is not looked at. A session that fails has reported the beginning of such events, and
nothing behind it. -/
theorem run_events {source source' : σ} {sink sink' : Sink} {t t' : τ}
    {result : Except Failure Unit}
    (hrun : s.run o (source, sink) t = some ((result, source', sink'), t')) :
    ∃ record,
    s.watched.run o (source, sink) (t, {}) = some ((result, source', sink'), (t', record)) ∧
    (o.mixed = false →
      (result = .ok () →
        ∃ runs t₁, runs.length ≤ o.classes.length ∧
          record.events = trace o.classes.toList (summariesOf runs) ∧
          record.shown = queueFlags o.classes.length runs.length ∧
          runs.length = (record.shown.takeWhile (· = false)).length ∧
          s.notify (.begin (o.classes.toList.map InputClass.name)) t = some (.ok (), t₁) ∧
          s.Proceeds o o.classes.toList source sink t₁ runs source' sink' t') ∧
      ∀ f, result = .error f →
        ∃ summaries, summaries.length ≤ o.classes.length ∧
          record.events <+: trace o.classes.toList summaries ∧
          record.shown <+: queueFlags o.classes.length summaries.length) ∧
    (o.mixed = true →
      record.shown = [] ∧
      (result = .ok () →
        ∃ d outputs t₁,
          record.events = mixedTrace (runName o.classes.distinct) (Summary.ofDataset d outputs) ∧
          s.notify (.begin [runName o.classes.distinct]) t = some (.ok (), t₁) ∧
          s.Completes o.label (runName o.classes.distinct)
            (o.runConfig.runMixed s.bench o.classes.distinct) source sink t₁ d outputs source' sink'
            t') ∧
      ∀ f, result = .error f →
        ∃ summary, record.events <+: mixedTrace (runName o.classes.distinct) summary) := by
  rw [← map_watched_run s o _ t {}] at hrun
  obtain ⟨⟨_, _, record⟩, h, hpair⟩ := Option.map_eq_some_iff.mp hrun
  cases hpair
  refine ⟨record, h, ?_⟩
  unfold Session.run at h
  constructor
  · intro hmixed
    rw [if_neg (by rw [hmixed]; decide)] at h
    have hnames : (o.classes.toList.map fun k => runName [k]) =
        o.classes.toList.map InputClass.name :=
      List.map_congr_left fun k _ => runName_singleton k
    rw [hnames] at h
    rcases work_bind_cases h with ⟨f, hbegin, rfl⟩ | ⟨⟨⟩, ⟨_, _⟩, p₁, hbegin, hqueue⟩
    · obtain ⟨hbegin', rfl, rfl⟩ := report_eq_some_iff.mp hbegin
      obtain ⟨t₁, -, hpair⟩ := watched_notify_eq_some_iff.mp hbegin'
      cases hpair
      refine ⟨nofun, fun _ _ => ⟨[], Nat.zero_le _, ⟨_, rfl⟩, ⟨_, rfl⟩⟩⟩
    · obtain ⟨hbegin', rfl, rfl⟩ := report_eq_some_iff.mp hbegin
      obtain ⟨t₁, hbegun, rfl⟩ := watched_notify_eq_some_iff.mp hbegin'
      rcases Proceeds.of_runQueue _ hqueue with
        ⟨runs, t₂, rfl, hproceeds, hpair⟩ |
          ⟨f, summaries, es, flags, t₂, rfl, hlength, hes, hflags, hpair⟩
      · cases hpair
        refine ⟨fun _ => ?_, nofun⟩
        exact ⟨runs, t₁, hproceeds.length_le, rfl, rfl, (length_takeWhile_queueFlags _ _).symm,
          hbegun, hproceeds⟩
      · cases hpair
        refine ⟨nofun, fun _ _ => ⟨summaries, hlength, ?_, hflags⟩⟩
        exact (List.prefix_cons_inj _).mpr hes
  · intro hmixed
    rw [if_pos hmixed] at h
    have hbench : o.runConfig.runMixed s.watched.bench o.classes.distinct =
        fun source : σ => beside (o.runConfig.runMixed s.bench o.classes.distinct source) :=
      funext fun source => o.runConfig.perform_beside s.bench (.mixed o.classes.distinct) source
    rcases work_bind_cases h with ⟨f, hbegin, rfl⟩ | ⟨⟨⟩, ⟨_, _⟩, p₁, hbegin, hone⟩
    · obtain ⟨hbegin', rfl, rfl⟩ := report_eq_some_iff.mp hbegin
      obtain ⟨t₁, -, hpair⟩ := watched_notify_eq_some_iff.mp hbegin'
      cases hpair
      exact ⟨rfl, nofun, fun _ _ => ⟨{}, _, rfl⟩⟩
    · obtain ⟨hbegin', rfl, rfl⟩ := report_eq_some_iff.mp hbegin
      obtain ⟨t₁, hbegun, rfl⟩ := watched_notify_eq_some_iff.mp hbegin'
      rcases runOne_eq_some_iff.mp hone with
        ⟨d, outputs, hcompletes, rfl⟩ | ⟨f, hfails, rfl⟩
      · rw [hbench] at hcompletes
        obtain ⟨t₂, hcompletes', hpair⟩ := hcompletes.of_watched
        cases hpair
        exact ⟨rfl, fun _ => ⟨d, outputs, t₁, rfl, hbegun, hcompletes'⟩, nofun⟩
      · rw [hbench] at hfails
        obtain ⟨t₂, summary, es, hes, hpair⟩ := hfails.of_watched
        cases hpair
        exact ⟨rfl, nofun, fun _ _ => ⟨summary, (List.prefix_cons_inj _).mpr hes⟩⟩

/-- A session whose flag shows given values in turn and whose events get given answers. Its files are
written somewhere else. -/
def scripted (bench : Bench (StateT τ Option)) (shown : Nat → Bool)
    (answer : Event → Except Failure Unit) : Session (StateT (τ × Nat) Option) where
  bench := bench.beside
  save _ _ := pure (.ok ())
  stopRequested := fun (t, loads) => some (shown loads, (t, loads + 1))
  notify e := pure (answer e)

/-- Three classes, and a flag that is raised when it is looked at for the third time: two runs are
completed. With the same flag, a session whose first run cannot be reported as finished fails, and
its last event is that one. -/
theorem run_events_of_third_look :
    let o : Options :=
      { sampleCount := 1, classes := ⟨[.small, .fixed, .small]⟩, iterations := 2, repeats := 1 }
    let s := scripted (SimulatedClock.bench .comparison).total (· = 2) fun _ => .ok ()
    let failing := scripted (SimulatedClock.bench .comparison).total (· = 2) fun
      | .finished _ _ => .error (.write .writerFull)
      | _ => .ok ()
    (∃ outcome t' record runs,
      s.watched.run o (ByteCycle.ofList [1, 2, 3], .folder "out") ((.stepping 0 1, 0), {}) =
        some ((.ok (), outcome), (t', record)) ∧
      record.shown = [false, false, true] ∧ runs.length = 2 ∧
      record.events = trace [.small, .fixed, .small] (summariesOf runs)) ∧
    ∃ outcome t' record summaries,
      failing.watched.run o (ByteCycle.ofList [1, 2, 3], .folder "out")
          ((.stepping 0 1, 0), {}) =
        some ((.error (.write .writerFull), outcome), (t', record)) ∧
      record.events.length = 3 ∧ record.events <+: trace [.small, .fixed, .small] summaries := by
  intro o s failing
  constructor
  · have heval : (s.watched.run o (ByteCycle.ofList [1, 2, 3], .folder "out")
        ((.stepping 0 1, 0), {})).map (fun r => (r.1.1, r.2.2.shown)) =
          some (.ok (), [false, false, true]) := by decide +kernel
    obtain ⟨⟨⟨result, source', sink'⟩, t', record⟩, hwatched, hpair⟩ :=
      Option.map_eq_some_iff.mp heval
    obtain ⟨rfl, hshown⟩ := Prod.mk.inj hpair
    obtain ⟨record', hwatched', hevents, -⟩ := run_events (run_of_watched hwatched)
    cases hwatched.symm.trans hwatched'
    obtain ⟨runs, -, -, hevents, -, hlength, -⟩ := (hevents rfl).1 rfl
    rw [show record.shown = _ from hshown] at hlength
    exact ⟨(source', sink'), t', record, runs, hwatched, hshown, hlength, hevents⟩
  · have heval : (failing.watched.run o (ByteCycle.ofList [1, 2, 3], .folder "out")
        ((.stepping 0 1, 0), {})).map (fun r => (r.1.1, r.2.2.events.length)) =
          some (.error (.write .writerFull), 3) := by decide +kernel
    obtain ⟨⟨⟨result, source', sink'⟩, t', record⟩, hwatched, hpair⟩ :=
      Option.map_eq_some_iff.mp heval
    obtain ⟨rfl, hlength⟩ := Prod.mk.inj hpair
    obtain ⟨record', hwatched', hevents, -⟩ := run_events (run_of_watched hwatched)
    cases hwatched.symm.trans hwatched'
    obtain ⟨summaries, -, hevents, -⟩ := (hevents rfl).2 _ rfl
    exact ⟨(source', sink'), t', record, summaries, hwatched, hlength, hevents⟩

end Session

end TimingAudit
