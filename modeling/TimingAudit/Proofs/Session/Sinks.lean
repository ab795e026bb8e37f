import TimingAudit.Bench.Simulated
import TimingAudit.Proofs.Disk
import TimingAudit.Proofs.Report.Sections
import TimingAudit.Proofs.ResultLog.Reading
import TimingAudit.Proofs.Session.Lockstep
import TimingAudit.Proofs.Session.Steps
import TimingAudit.Random.ByteCycle

/-!
# A folder and a log

The same session can deliver to a folder or to a log. Where neither files nor events touch the bench,
both go through the same runs: those of the requests that come before the flag is raised, until one
fails (`performUntilFailure`). The log then holds the reports of all finished runs one behind the
other, and in the folder the file of each class holds the last report of that class.

* `run_staged` : a session, for every sink that can store the datasets of its runs;
* `stores_log`, `stores_folder` : the two sinks;
* `sinks_agree` : both together.
-/

namespace TimingAudit

variable {σ τ ω : Type} [RandomSource σ]

/-! ## The runs of a session -/

/-- Carries out requests in turn until one fails: the datasets before that, how it ends, and the
source that is left. -/
def RunConfig.performUntilFailure {m : Type → Type} [Monad m] [MonadLiftT Option m]
    (config : RunConfig) (bench : Bench m) :
    List Request → σ → m (List Dataset × Except Failure Unit × σ)
  | [], source => pure ([], .ok (), source)
  | request :: requests, source => do
    match ← config.perform bench request source with
    | (.error f, source) => pure ([], .error f, source)
    | (.ok d, source) =>
      let (ds, ending) ← config.performUntilFailure bench requests source
      pure (d :: ds, ending)

/-- The first request fails, or its dataset is the first and the others are next. -/
theorem RunConfig.performUntilFailure_cons_eq_some {config : RunConfig}
    {bench : Bench (StateT τ Option)} {request : Request} {requests : List Request}
    {source source' : σ} {t t' : τ} {ds : List Dataset} {ending : Except Failure Unit}
    (h : config.performUntilFailure bench (request :: requests) source t =
      some ((ds, ending, source'), t')) :
    (∃ f, config.perform bench request source t = some ((.error f, source'), t') ∧
      ds = [] ∧ ending = .error f) ∨
    ∃ d source₁ t₁ ds₁, config.perform bench request source t = some ((.ok d, source₁), t₁) ∧
      config.performUntilFailure bench requests source₁ t₁ = some ((ds₁, ending, source'), t') ∧
      ds = d :: ds₁ := by
  obtain ⟨⟨⟨result, source₁⟩, t₁⟩, hperform, h⟩ := Option.bind_eq_some_iff.mp h
  cases result with
  | error f =>
      cases h
      exact .inl ⟨f, hperform, rfl, rfl⟩
  | ok d =>
      obtain ⟨⟨⟨ds₁, ending₁⟩, t₂⟩, hrest, hpair⟩ := Option.bind_eq_some_iff.mp h
      cases hpair
      exact .inr ⟨d, source₁, t₁, ds₁, hperform, hrest, rfl⟩

/-- All reports of the datasets before that are accepted. -/
theorem RunConfig.regular_of_performUntilFailure {config : RunConfig}
    {bench : Bench (StateT τ Option)} {source' : σ} {t' : τ} {ending : Except Failure Unit}
    (requests : List Request) : ∀ {source : σ} {t : τ} {ds : List Dataset},
      config.performUntilFailure bench requests source t = some ((ds, ending, source'), t') →
      ∀ d ∈ ds, ∀ k, Report.Regular k d := by
  induction requests with
  | nil =>
      intro source t ds h
      cases h
      exact nofun
  | cons request requests ih =>
      intro source t ds h
      rcases performUntilFailure_cons_eq_some h with
        ⟨f, -, rfl, -⟩ | ⟨d, source₁, t₁, ds₁, hperform, hrest, rfl⟩
      · exact nofun
      · have hyields : config.Yields d := by
          cases request with
          | single k => exact .run bench k source source₁ t t₁ hperform
          | mixed kinds => exact .runMixed bench kinds source source₁ t t₁ hperform
        exact List.forall_mem_cons.mpr ⟨hyields.complete.1.regular, ih hrest⟩

/-- The requests of a queue for a flag that has been looked at before: those before the look at which
it is raised. -/
def queueRequests (shown : Nat → Bool) (looks : Nat) (ks : List InputClass) : List Request :=
  ((ks.zipIdx looks).takeWhile fun run => shown run.2 = false).map fun run => .single run.1

/-- The requests of a session whose flag shows given values in turn. -/
def Options.requests (o : Options) (shown : Nat → Bool) : List Request :=
  if o.mixed then [.mixed o.classes.distinct] else queueRequests shown 0 o.classes.toList

theorem queueRequests_cons (shown : Nat → Bool) (looks : Nat) (k : InputClass)
    (ks : List InputClass) :
    queueRequests shown looks (k :: ks) =
      if shown looks then [] else .single k :: queueRequests shown (looks + 1) ks := by
  unfold queueRequests
  rw [List.zipIdx_cons, List.takeWhile_cons]
  cases shown looks <;> rfl

/-! ## Sessions whose bench is left alone -/

/-- What a session works on beside its bench: its files, how often its flag has been looked at, and
whoever takes its events. -/
structure Surroundings (ω : Type) where
  disk : Disk
  looks : Nat
  audience : ω

namespace Session

/-- A session whose flag shows given values in turn and whose events are always taken, on a bench
that neither of these touches, and files do not either. -/
def staged (bench : Bench (StateT τ Option)) (shown : Nat → Bool) (react : Event → ω → ω) :
    Session (StateT (τ × Surroundings ω) Option) where
  bench := bench.beside
  save path text := fun (t, around) =>
    let (answer, disk) := Disk.save path text around.disk
    some (answer, (t, { around with disk }))
  stopRequested := fun (t, around) =>
    some (shown around.looks, (t, { around with looks := around.looks + 1 }))
  notify e := fun (t, around) =>
    some (.ok (), (t, { around with audience := react e around.audience }))

variable {bench : Bench (StateT τ Option)} {shown : Nat → Bool} {react : Event → ω → ω}

/-- Datasets that are delivered one after another, with what becomes of the sink and the disk. -/
inductive Stores (s : Session (StateT (τ × Surroundings ω) Option)) (label : String) :
    Sink → Disk → List Dataset → Sink → Disk → Prop
  | nil {sink : Sink} {disk : Disk} : Stores s label sink disk [] sink disk
  | cons {sink sink₁ sink' : Sink} {disk disk₁ disk' : Disk} {d : Dataset} {ds : List Dataset}
      (first : ∀ t looks audience, ∃ outputs,
        s.deliver label d sink (t, ⟨disk, looks, audience⟩) =
          some ((.ok outputs, sink₁), (t, ⟨disk₁, looks, audience⟩)))
      (rest : Stores s label sink₁ disk₁ ds sink' disk') :
      Stores s label sink disk (d :: ds) sink' disk'

section Runs

variable {o : Options} {request : Request} {name : String} {source source' : σ} {t t' : τ}
variable {sink sink₁ : Sink} {disk disk₁ : Disk} {d : Dataset} {looks : Nat} {audience : ω}

/-- A request on the bench of the session is one on the bench alone. -/
theorem perform_staged {result : Except Failure Dataset}
    (h : o.runConfig.perform bench request source t = some ((result, source'), t'))
    (around : Surroundings ω) :
    o.runConfig.perform (staged bench shown react).bench request source (t, around) =
      some ((result, source'), (t', around)) := by
  show o.runConfig.perform bench.beside request source (t, around) = _
  rw [RunConfig.perform_beside]
  exact beside_eq_some_iff.mpr ⟨t', h, rfl⟩

/-- A run whose dataset can be stored is completed. -/
theorem completes_staged
    (h : o.runConfig.perform bench request source t = some ((.ok d, source'), t'))
    (hstored : ∀ t looks audience, ∃ outputs,
      (staged bench shown react).deliver o.label d sink (t, ⟨disk, looks, audience⟩) =
        some ((.ok outputs, sink₁), (t, ⟨disk₁, looks, audience⟩))) :
    ∃ outputs audience', (staged bench shown react).Completes o.label name
      (o.runConfig.perform (staged bench shown react).bench request) source sink
      (t, ⟨disk, looks, audience⟩) d outputs source' sink₁ (t', ⟨disk₁, looks, audience'⟩) := by
  obtain ⟨outputs, hdeliver⟩ := hstored t' looks (react (.wait name) audience)
  exact ⟨outputs, _, .intro rfl (perform_staged h _) hdeliver rfl⟩

/-- A run that fails changes neither files nor sink. -/
theorem fails_staged {f : Failure}
    (h : o.runConfig.perform bench request source t = some ((.error f, source'), t')) :
    ∃ audience', (staged bench shown react).Fails o.label name
      (o.runConfig.perform (staged bench shown react).bench request) source sink
      (t, ⟨disk, looks, audience⟩) f source' sink (t', ⟨disk, looks, audience'⟩) :=
  ⟨_, .measuring rfl (perform_staged h _)⟩

end Runs

section Whole

variable {o : Options} {ending : Except Failure Unit} {source' : σ} {t' : τ} {sink' : Sink}
variable {disk' : Disk}

/-- The runs of a queue, until the flag is raised or one of them fails. -/
theorem runQueue_staged (ks : List InputClass) : ∀ {source : σ} {sink : Sink} {t : τ} {disk : Disk}
    {looks : Nat} {audience : ω} {ds : List Dataset},
    o.runConfig.performUntilFailure bench (queueRequests shown looks ks) source t =
      some ((ds, ending, source'), t') →
    (staged bench shown react).Stores o.label sink disk ds sink' disk' →
    ∃ looks' audience',
      (staged bench shown react).runQueue o ks (source, sink) (t, ⟨disk, looks, audience⟩) =
        some ((ending, source', sink'), (t', ⟨disk', looks', audience'⟩)) := by
  induction ks with
  | nil =>
      intro source sink t disk looks audience ds h hstores
      cases h
      cases hstores
      exact ⟨looks, audience, rfl⟩
  | cons k ks ih =>
      intro source sink t disk looks audience ds h hstores
      -- Whether the first class is asked for at all is decided by what the flag shows now.
      rw [queueRequests_cons] at h
      have hlook : (staged bench shown react).stopRequested (t, ⟨disk, looks, audience⟩) =
          some (shown looks, (t, ⟨disk, looks + 1, audience⟩)) := rfl
      cases hshown : shown looks with
      | true =>
          rw [hshown] at h hlook
          cases h
          cases hstores
          exact ⟨looks + 1, _, runQueue_cons_eq_some_iff.mpr (.inl ⟨_, hlook, rfl, rfl, rfl⟩)⟩
      | false =>
          rw [hshown] at h hlook
          rcases RunConfig.performUntilFailure_cons_eq_some h with
            ⟨f, hperform, rfl, rfl⟩ | ⟨d, source₁, t₁, ds₁, hperform, hrest, rfl⟩
          · cases hstores
            obtain ⟨audience', hfails⟩ := fails_staged hperform
            exact ⟨looks + 1, audience',
              runQueue_cons_eq_some_iff.mpr (.inr (.inl ⟨_, f, hlook, hfails, rfl⟩))⟩
          · cases hstores with
            | cons hfirst hothers =>
                obtain ⟨outputs, audience₁, hcompletes⟩ := completes_staged hperform hfirst
                obtain ⟨looks', audience', hqueue⟩ := ih hrest hothers
                exact ⟨looks', audience', runQueue_cons_eq_some_iff.mpr
                  (.inr (.inr ⟨_, _, d, outputs, _, _, hlook, hcompletes, hqueue⟩))⟩

/-- **A session** whose sink can store the datasets of its runs stores these, and ends as they do. -/
theorem run_staged {source : σ} {sink : Sink} {t : τ} {disk : Disk} {ds : List Dataset}
    (h : o.runConfig.performUntilFailure bench (o.requests shown) source t =
      some ((ds, ending, source'), t'))
    (hstores : (staged bench shown react).Stores o.label sink disk ds sink' disk') (audience : ω) :
    ∃ looks' audience',
      (staged bench shown react).run o (source, sink) (t, ⟨disk, 0, audience⟩) =
        some ((ending, source', sink'), (t', ⟨disk', looks', audience'⟩)) := by
  unfold Session.run
  unfold Options.requests at h
  by_cases hmixed : o.mixed
  · rw [if_pos hmixed] at h ⊢
    -- One request, and nothing behind it.
    rcases RunConfig.performUntilFailure_cons_eq_some h with
      ⟨f, hperform, rfl, rfl⟩ | ⟨d, source₁, t₁, ds₁, hperform, hrest, rfl⟩
    · cases hstores
      obtain ⟨audience', hfails⟩ := fails_staged hperform
      exact ⟨0, audience', (work_bind_of_ok rfl).trans
        (runOne_eq_some_iff.mpr (.inr ⟨f, hfails, rfl⟩))⟩
    · cases hrest
      cases hstores with
      | cons hfirst hothers =>
          cases hothers
          obtain ⟨outputs, audience', hcompletes⟩ := completes_staged hperform hfirst
          exact ⟨0, audience', (work_bind_of_ok rfl).trans
            (runOne_eq_some_iff.mpr (.inl ⟨d, outputs, hcompletes, rfl⟩))⟩
  · rw [if_neg hmixed] at h ⊢
    obtain ⟨looks', audience', hqueue⟩ := runQueue_staged o.classes.toList h hstores
    exact ⟨looks', audience', (work_bind_of_ok rfl).trans hqueue⟩

end Whole

/-! ## The two sinks -/

/-- A running log takes all datasets whose reports are accepted, and files stay as they are. -/
theorem stores_log (label : String) (disk : Disk) (ds : List Dataset) :
    ∀ {log : ResultLog}, log.Canonical → log.status = .running →
      (∀ d ∈ ds, ∀ k, Report.Regular k d) →
      (staged bench shown react).Stores label (.log log) disk ds
        (.log (log.append (Report.joined (ds.flatMap (Report.sections label))))) disk := by
  induction ds with
  | nil =>
      intro log _ _ _
      rw [List.flatMap_nil, Report.joined, List.flatMap_nil, ResultLog.append_nil]
      exact .nil
  | cons d ds ih =>
      intro log h hrunning hregular
      obtain ⟨hd, hds⟩ := List.forall_mem_cons.mp hregular
      rw [List.flatMap_cons, Report.joined_append, ← h.append_append]
      refine .cons (fun t looks audience => ⟨[], ?_⟩) (ih (h.append _) hrunning hds)
      rw [deliver, Report.toLog_of_running h hrunning label fun k _ => hd k]
      rfl

section Folder

variable {folder label : String} {place : InputClass → Place}

/-- Reports that are accepted and can be saved are, each at its place. -/
theorem saveAll_staged {d : Dataset} (hregular : ∀ k, Report.Regular k d) {t : τ} {looks : Nat}
    {audience : ω} (ks : List InputClass) :
    ∀ (disk : Disk) (written : List String),
      (∀ k ∈ ks, disk.target (Report.pathIn folder k.resultFile) = .ok (place k)) →
      ∃ outputs, Report.saveAll (staged bench shown react).save folder label d ks written
          (t, ⟨disk, looks, audience⟩) =
        some (.ok outputs,
          (t, ⟨disk.putAll (ks.map fun k => (place k, Report.text label k d)), looks, audience⟩)) := by
  induction ks with
  | nil =>
      intro disk written _
      exact ⟨written, rfl⟩
  | cons k ks ih =>
      intro disk written h
      have hsave : (staged bench shown react).save (Report.pathIn folder k.resultFile)
          (Report.text label k d) (t, ⟨disk, looks, audience⟩) =
            some (.ok (), (t, ⟨disk.put (place k) (Report.text label k d), looks, audience⟩)) := by
        show some ((Disk.save _ _ disk).1, _) = _
        rw [Disk.save, h k List.mem_cons_self]
      -- The folders are the same as before, so the other files are still where they were.
      have hfolders : (disk.put (place k) (Report.text label k d)).folders = disk.folders := rfl
      obtain ⟨outputs, hrest⟩ := ih (disk.put (place k) (Report.text label k d))
        (written ++ [Report.pathIn folder k.resultFile])
        fun k' hk' => Disk.target_eq_ok_of_folders hfolders (h k' (List.mem_cons_of_mem _ hk'))
      refine ⟨outputs, ?_⟩
      rw [Report.saveAll, stateT_bind_of_eq_some hsave]
      simp only [Report.verdict_eq_ok_iff.mpr (hregular k)]
      exact hrest

/-- A folder whose files can be written takes all datasets whose reports are accepted. -/
theorem stores_folder (ds : List Dataset) : ∀ {disk : Disk},
    (∀ d ∈ ds, ∀ k, Report.Regular k d) →
    (∀ d ∈ ds, ∀ k ∈ d.kinds, disk.target (Report.pathIn folder k.resultFile) = .ok (place k)) →
    (staged bench shown react).Stores label (.folder folder) disk ds (.folder folder)
      (disk.putAll ((ds.flatMap (Report.texts label)).map fun part => (place part.1, part.2))) := by
  induction ds with
  | nil =>
      intro disk _ _
      exact .nil
  | cons d ds ih =>
      intro disk hregular h
      obtain ⟨hd, hds⟩ := List.forall_mem_cons.mp hregular
      rw [List.flatMap_cons, List.map_append, Disk.putAll_append]
      refine .cons (fun t looks audience => ?_) (ih hds fun d' hd' k hk =>
        Disk.target_eq_ok_of_folders (Disk.folders_putAll _ disk)
          (h d' (List.mem_cons_of_mem _ hd') k hk))
      obtain ⟨outputs, hsave⟩ := saveAll_staged hd d.kinds disk [] (h d List.mem_cons_self)
      refine ⟨outputs, ?_⟩
      rw [deliver, Report.toFolder, stateT_bind_of_eq_some hsave, Report.texts, List.map_map]
      rfl

end Folder

/-- Each class that has a section has a file that holds the bytes of the last one, and nothing else is
changed. -/
structure HoldsLast (place : InputClass → Place) (parts : List (InputClass × Bytes))
    (before after : Disk) : Prop where
  last : ∀ front k bytes rest, parts = front ++ (k, bytes) :: rest → (∀ part ∈ rest, part.1 ≠ k) →
    ∃ text, after.contents? (place k) = some text ∧ utf8 text = bytes
  others : ∀ p, (∀ part ∈ parts, place part.1 ≠ p) → after.contents? p = before.contents? p
  folders : after.folders = before.folders

/-- Files that were put at different places for different classes. -/
theorem holdsLast_putAll {place : InputClass → Place} {parts : List (InputClass × String)}
    (hplace : ∀ part ∈ parts, ∀ part' ∈ parts, place part.1 = place part'.1 → part.1 = part'.1)
    (disk : Disk) :
    HoldsLast place (parts.map fun part => (part.1, utf8 part.2)) disk
      (disk.putAll (parts.map fun part => (place part.1, part.2))) := by
  constructor
  · intro front k bytes rest hparts hrest
    -- The last section of a class comes from the last text that was put at its place.
    obtain ⟨front', rest', rfl, -, hrest'⟩ := List.map_eq_append_iff.mp hparts
    obtain ⟨⟨k', text⟩, rest'', rfl, hpair, rfl⟩ := List.map_eq_cons_iff.mp hrest'
    cases hpair
    refine ⟨text, ?_, rfl⟩
    rw [List.map_append, List.map_cons]
    apply Disk.contents?_putAll_of_last
    intro w hw hsame
    obtain ⟨part, hpart, rfl⟩ := List.mem_map.mp hw
    apply hrest _ (List.mem_map_of_mem hpart)
    exact hplace part (by simp [hpart]) (k', text) (by simp) hsame
  · intro p hp
    apply Disk.contents?_putAll_of_forall_ne
    intro w hw
    obtain ⟨part, hpart, rfl⟩ := List.mem_map.mp hw
    exact hp _ (List.mem_map_of_mem hpart)
  · exact Disk.folders_putAll _ disk

/-- **A folder and a log agree.** Let the runs that a session asks for return the given datasets one
after another, up to the end or to a run that fails. The session that delivers to a new log ends in
this way, and whether it has failed or not, its log is copied out as the reports of these datasets in
order, each behind its file line, and no file is touched. The session that delivers to a folder whose
files can be written ends in the same way and leaves the same clock and random source, and for each
class the last of these reports is in its file. -/
theorem sinks_agree {o : Options} {source source' : σ} {t t' : τ} {disk : Disk} {audience : ω}
    {ds : List Dataset} {ending : Except Failure Unit} {folder : String}
    {place : InputClass → Place}
    (hruns : o.runConfig.performUntilFailure bench (o.requests shown) source t =
      some ((ds, ending, source'), t'))
    (hsaves : ∀ d ∈ ds, ∀ k ∈ d.kinds,
      disk.target (Report.pathIn folder k.resultFile) = .ok (place k)) :
    let parts := ds.flatMap (Report.sections o.label)
    (∃ log looks' audience',
      (staged bench shown react).run o (source, .log ResultLog.empty) (t, ⟨disk, 0, audience⟩) =
        some ((ending, source', .log log), (t', ⟨disk, looks', audience'⟩)) ∧
      ∀ {υ : Type} [ByteSink υ] {received : υ → Bytes}, ByteSink.TakesAll received →
        ∀ output, ∃ output',
          log.markDone.drain output = (.ok (Report.joined parts).length, output') ∧
          received output' = received output ++ Report.joined parts) ∧
    ∃ disk' looks' audience',
      (staged bench shown react).run o (source, .folder folder) (t, ⟨disk, 0, audience⟩) =
        some ((ending, source', .folder folder), (t', ⟨disk', looks', audience'⟩)) ∧
      HoldsLast place parts disk disk' := by
  intro parts
  have hregular := RunConfig.regular_of_performUntilFailure _ hruns
  constructor
  · obtain ⟨looks', audience', hrun⟩ := run_staged hruns
      (stores_log o.label disk ds ResultLog.canonical_empty rfl hregular) audience
    refine ⟨_, looks', audience', hrun, ?_⟩
    intro υ _ received hreceived output
    have hlog := (ResultLog.canonical_empty.append (Report.joined parts)).markDone
    obtain ⟨output', hdrain, houtput⟩ := hlog.drain_of_takesAll rfl hreceived output
    have hcontents : (ResultLog.empty.append (Report.joined parts)).markDone.contents =
        Report.joined parts :=
      ResultLog.contents_append _ _
    rw [hlog.length, hcontents] at hdrain
    rw [hcontents] at houtput
    exact ⟨output', hdrain, houtput⟩
  · obtain ⟨looks', audience', hrun⟩ := run_staged hruns (stores_folder ds hregular hsaves)
      audience
    have hparts : parts =
        (ds.flatMap (Report.texts o.label)).map fun part => (part.1, utf8 part.2) := by
      rw [List.map_flatMap]
      exact List.flatMap_congr fun d _ => Report.sections_eq_map_texts o.label d
    refine ⟨_, looks', audience', hrun, ?_⟩
    rw [hparts]
    -- Two classes have two places, because both places go by the names of their files.
    have htarget : ∀ part ∈ ds.flatMap (Report.texts o.label),
        disk.target (Report.pathIn folder part.1.resultFile) = .ok (place part.1) := by
      intro part hpart
      obtain ⟨d, hd, hpart⟩ := List.mem_flatMap.mp hpart
      obtain ⟨k, hk, rfl⟩ := List.mem_map.mp hpart
      exact hsaves d hd k hk
    apply holdsLast_putAll
    intro part hpart part' hpart' hsame
    have htarget' := htarget part' hpart'
    rw [← hsame] at htarget'
    exact Disk.eq_of_target_resultFile (htarget part hpart) htarget'

/-- Four classes, one of them twice, and a flag that is raised before the last run. The log has three
sections, and the third of them is in the file of its class. With more samples than there is memory
for, the session fails and its log is empty. -/
theorem sinks_agree_of_repeated_class :
    let o : Options :=
      { sampleCount := 1, label := "-O2", classes := ⟨[.small, .fixed, .small, .zero]⟩
        iterations := 2, repeats := 1 }
    let disk : Disk := Disk.empty.makeFolder "out"
    let s := staged (SimulatedClock.bench .comparison).total (· = 3) fun _ (n : Nat) => n + 1
    ∃ first second third source' log t' around around',
      s.run o (ByteCycle.ofList [1, 2, 3], .log ResultLog.empty) (.stepping 0 1, ⟨disk, 0, 0⟩) =
        some ((.ok (), source', .log log), (t', around)) ∧
      (log.markDone.drain (#[] : Array UInt8)).2.toList =
        Report.joined [(.small, first), (.fixed, second), (.small, third)] ∧
      s.run o (ByteCycle.ofList [1, 2, 3], .folder "out") (.stepping 0 1, ⟨disk, 0, 0⟩) =
        some ((.ok (), source', .folder "out"), (t', around')) ∧
      (∃ text, around'.disk.contents? ⟨.up 0, ["out", "result-small.csv"]⟩ = some text ∧
        utf8 text = third) ∧
      ∃ source'' log' after,
        s.run { o with sampleCount := 384307168202282326 }
            (ByteCycle.ofList [1, 2, 3], .log ResultLog.empty) (.stepping 0 1, ⟨disk, 0, 0⟩) =
          some ((.error (.allocation .inputs 384307168202282326), source'', .log log'), after) ∧
        (log'.markDone.drain (#[] : Array UInt8)).2.toList = [] := by
  intro o disk s
  let place : InputClass → Place := fun k => ⟨.up 0, ["out", k.resultFile]⟩
  have heval : (o.runConfig.performUntilFailure (SimulatedClock.bench .comparison).total
      (o.requests (· = 3)) (ByteCycle.ofList [1, 2, 3]) (.stepping 0 1)).map
        (fun r => (r.1.1.map Dataset.kinds, r.1.2.1)) =
          some ([[.small], [.fixed], [.small]], .ok ()) := by decide +kernel
  obtain ⟨⟨⟨ds, ending, source'⟩, t'⟩, hruns, hpair⟩ := Option.map_eq_some_iff.mp heval
  obtain ⟨hkinds, rfl⟩ := Prod.mk.inj hpair
  obtain ⟨d₁, ds₁, rfl, hd₁, hds₁⟩ := List.map_eq_cons_iff.mp hkinds
  obtain ⟨d₂, ds₂, rfl, hd₂, hds₂⟩ := List.map_eq_cons_iff.mp hds₁
  obtain ⟨d₃, ds₃, rfl, hd₃, hds₃⟩ := List.map_eq_cons_iff.mp hds₂
  cases List.map_eq_nil_iff.mp hds₃
  have hsaves : ∀ d ∈ [d₁, d₂, d₃], ∀ k ∈ d.kinds,
      disk.target (Report.pathIn "out" k.resultFile) = .ok (place k) := by
    have htarget : ∀ k ∈ [InputClass.small, InputClass.fixed],
        disk.target (Report.pathIn "out" k.resultFile) = .ok (place k) := by decide +kernel
    intro d hd k hk
    apply htarget
    simp only [List.mem_cons, List.not_mem_nil, or_false] at hd
    rcases hd with rfl | rfl | rfl <;> simp_all
  obtain ⟨⟨log, looks, audience, hlog, hdrain⟩, disk', looks', audience', hfolder, hholds⟩ :=
    sinks_agree hruns hsaves
  have hparts : [d₁, d₂, d₃].flatMap (Report.sections o.label) =
      [(.small, Report.reportBytes o.label .small d₁),
        (.fixed, Report.reportBytes o.label .fixed d₂),
        (.small, Report.reportBytes o.label .small d₃)] := by
    simp [Report.sections, hd₁, hd₂, hd₃]
  obtain ⟨output', houtput, hreceived⟩ := hdrain ByteSink.takesAll_array #[]
  refine ⟨Report.reportBytes o.label .small d₁, Report.reportBytes o.label .fixed d₂,
    Report.reportBytes o.label .small d₃, source', log, t', _, _, hlog, ?_, hfolder, ?_, ?_⟩
  · rw [houtput, ← hparts]
    exact hreceived
  · exact hholds.last [_, _] .small _ [] hparts nofun
  · let o' : Options := { o with sampleCount := 384307168202282326 }
    have heval' : (o'.runConfig.performUntilFailure (SimulatedClock.bench .comparison).total
        (o'.requests (· = 3)) (ByteCycle.ofList [1, 2, 3]) (.stepping 0 1)).map
          (fun r => (r.1.1.map Dataset.kinds, r.1.2.1)) =
            some ([], .error (.allocation .inputs 384307168202282326)) := by decide +kernel
    obtain ⟨⟨⟨ds', ending', source''⟩, t''⟩, hruns', hpair'⟩ := Option.map_eq_some_iff.mp heval'
    obtain ⟨hnone, rfl⟩ := Prod.mk.inj hpair'
    cases List.map_eq_nil_iff.mp hnone
    have hsaves' : ∀ d ∈ ([] : List Dataset), ∀ k ∈ d.kinds,
        disk.target (Report.pathIn "out" k.resultFile) = .ok (place k) := nofun
    obtain ⟨⟨log', _, _, hlog', hdrain'⟩, -⟩ := sinks_agree hruns' hsaves'
    obtain ⟨output', houtput, hreceived⟩ := hdrain' ByteSink.takesAll_array #[]
    refine ⟨source'', log', _, hlog', ?_⟩
    rw [houtput]
    exact hreceived

end Session

end TimingAudit
