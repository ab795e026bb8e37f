import TimingAudit.Proofs.Run.Requests
import TimingAudit.Proofs.Session.Sinks

/-!
# What is kept of finished runs

Every finished run is reported with the paths of its files, so that the results can be looked up after
the session. A file goes by its class alone. Runs of one class in one session therefore share a file,
and what is in it in the end is the report of the last of them. The results of the earlier ones are
gone, although each of them was reported under this path.

* `bytesAt_save` : what a write changes among the files of a folder;
* `Leaves.of_runQueue` : the files and the events that the runs of a queue leave;
* `finished_kept_iff` : which sessions keep the results of all finished runs.
-/

namespace TimingAudit

variable {σ τ : Type}

/-! ## Files by path -/

namespace Disk

/-- The bytes of the file at a path. -/
def bytesAt (d : Disk) (path : String) : Option Bytes :=
  match d.target path with
  | .ok p => (d.contents? p).map utf8
  | .error _ => none

theorem bytesAt_of_target {d : Disk} {path : String} {p : Place} (h : d.target path = .ok p) :
    d.bytesAt path = (d.contents? p).map utf8 := by
  unfold bytesAt
  rw [h]

/-- A file that is written holds what was written, and the files of other classes in its folder hold
what they held. -/
theorem bytesAt_save {d d' : Disk} {folder text : String} {k : InputClass}
    (h : Disk.save (Report.pathIn folder k.resultFile) text d = (.ok (), d')) (k' : InputClass) :
    d'.bytesAt (Report.pathIn folder k'.resultFile) =
      if k' = k then some (utf8 text) else d.bytesAt (Report.pathIn folder k'.resultFile) := by
  unfold Disk.save at h
  cases htarget : d.target (Report.pathIn folder k.resultFile) with
  | error e =>
      rw [htarget] at h
      cases h
  | ok p =>
      rw [htarget] at h
      cases h
      have hfolders : (d.put p text).folders = d.folders := rfl
      by_cases hk : k' = k
      · rw [if_pos hk, hk, bytesAt_of_target (target_eq_ok_of_folders hfolders htarget),
          contents?_put_self]
        rfl
      · rw [if_neg hk]
        cases hother : d.target (Report.pathIn folder k'.resultFile) with
        | ok q =>
            have hne : q ≠ p := by
              rintro rfl
              exact hk (eq_of_target_resultFile hother htarget)
            rw [bytesAt_of_target hother,
              bytesAt_of_target (target_eq_ok_of_folders hfolders hother), contents?_put_of_ne d hne]
        | error e =>
            -- A path that leads nowhere still leads nowhere.
            unfold bytesAt
            rw [hother]
            cases hafter : (d.put p text).target (Report.pathIn folder k'.resultFile) with
            | ok q =>
                rw [target_eq_ok_of_folders hfolders.symm hafter] at hother
                cases hother
            | error e => rfl

end Disk

/-! ## The last report of a class -/

namespace Report

/-- What the file of a class holds after the reports of some datasets were saved, if it held `held`
before. -/
def lastReport (label : String) (k : InputClass) : List Dataset → Option Bytes → Option Bytes
  | [], held => held
  | d :: ds, held =>
    lastReport label k ds (if k ∈ d.kinds then some (reportBytes label k d) else held)

variable {label : String}

theorem lastReport_of_forall_not_mem {k : InputClass} {ds : List Dataset}
    (h : ∀ d ∈ ds, k ∉ d.kinds) (held : Option Bytes) : lastReport label k ds held = held := by
  induction ds with
  | nil => rfl
  | cons d ds ih =>
      rw [lastReport, if_neg (h d List.mem_cons_self)]
      exact ih fun d' hd' => h d' (List.mem_cons_of_mem _ hd')

/-- Nothing that comes after the last dataset of a class, and nothing before it, is in its file. -/
theorem lastReport_of_last {k : InputClass} {d : Dataset} {rest : List Dataset} (hk : k ∈ d.kinds)
    (hrest : ∀ d' ∈ rest, k ∉ d'.kinds) (front : List Dataset) :
    ∀ held, lastReport label k (front ++ d :: rest) held = some (reportBytes label k d) := by
  induction front with
  | nil =>
      intro held
      show lastReport label k rest _ = _
      rw [if_pos hk]
      exact lastReport_of_forall_not_mem hrest _
  | cons d' front ih =>
      intro held
      exact ih _

/-- Two datasets that can share the files of a folder: the reports of the classes that both have are
the same. -/
def Compatible (label : String) (d d' : Dataset) : Prop :=
  ∀ k ∈ d.kinds, k ∈ d'.kinds → reportBytes label k d = reportBytes label k d'

theorem compatible_of_disjoint {d d' : Dataset} (h : d.kinds.Disjoint d'.kinds) :
    Compatible label d d' := by
  intro k hk hk'
  exact (h hk hk').elim

/-- All reports of all datasets are still there exactly if any two of the datasets can share their
files. -/
theorem forall_lastReport_iff_pairwise (ds : List Dataset) : ∀ held : InputClass → Option Bytes,
    (∀ d ∈ ds, ∀ k ∈ d.kinds, lastReport label k ds (held k) = some (reportBytes label k d)) ↔
      ds.Pairwise (Compatible label) := by
  induction ds with
  | nil =>
      intro held
      exact iff_of_true nofun .nil
  | cons d ds ih =>
      intro held
      have hothers := ih fun k => if k ∈ d.kinds then some (reportBytes label k d) else held k
      rw [List.pairwise_cons]
      constructor
      · intro hkept
        refine ⟨?_, hothers.mp fun d' hd' => hkept d' (List.mem_cons_of_mem _ hd')⟩
        intro d' hd' k hk hk'
        exact Option.some.inj ((hkept d List.mem_cons_self k hk).symm.trans
          (hkept d' (List.mem_cons_of_mem _ hd') k hk'))
      · rintro ⟨hfirst, hpairwise⟩ d' hd' k hk
        have hkept := hothers.mpr hpairwise
        rcases List.mem_cons.mp hd' with rfl | hd'
        · -- The first report of a class is kept if no other one follows, or one that is the same.
          by_cases hagain : ∃ d'' ∈ ds, k ∈ d''.kinds
          · obtain ⟨d'', hd'', hk''⟩ := hagain
            rw [hfirst d'' hd'' k hk hk'']
            exact hkept d'' hd'' k hk''
          · exact lastReport_of_last hk (fun d'' hd'' hk'' => hagain ⟨d'', hd'', hk''⟩) [] _
        · exact hkept d' hd' k hk

end Report

/-! ## What runs leave -/

/-- A request that is carried out, and the others behind it. -/
theorem RunConfig.performUntilFailure_cons_of_ok [RandomSource σ] {config : RunConfig}
    {bench : Bench (StateT τ Option)} {request : Request} {requests : List Request}
    {source source₁ : σ} {t t₁ t' : τ} {d : Dataset} {ds : List Dataset}
    {ending : Except Failure Unit × σ}
    (hfirst : config.perform bench request source t = some ((.ok d, source₁), t₁))
    (hothers : config.performUntilFailure bench requests source₁ t₁ = some ((ds, ending), t')) :
    config.performUntilFailure bench (request :: requests) source t =
      some ((d :: ds, ending), t') := by
  rw [performUntilFailure, stateT_bind_of_eq_some hfirst]
  exact stateT_bind_of_eq_some hothers _

/-- The summaries of the runs that were reported as finished. -/
def Event.summaries (events : List Event) : List Summary :=
  events.filterMap fun
    | .finished _ summary => some summary
    | _ => none

theorem Event.summaries_append (es es' : List Event) :
    Event.summaries (es ++ es') = Event.summaries es ++ Event.summaries es' :=
  List.filterMap_append

namespace Session

/-- The paths of the reports of a dataset in a folder. -/
def outputsIn (folder : String) (d : Dataset) : List String :=
  d.kinds.map fun k => Report.pathIn folder k.resultFile

/-- What the runs of some datasets leave in a folder and among the events that were taken. -/
structure Leaves (folder label : String) (ds : List Dataset)
    (before after : Surroundings (List Event)) : Prop where
  files : ∀ k : InputClass, after.disk.bytesAt (Report.pathIn folder k.resultFile) =
    Report.lastReport label k ds (before.disk.bytesAt (Report.pathIn folder k.resultFile))
  summaries : Event.summaries after.audience = Event.summaries before.audience ++
    ds.map fun d => Summary.ofDataset d (outputsIn folder d)

namespace Leaves

variable {folder label : String} {before between after : Surroundings (List Event)}

/-- Nothing is left where files are as they were and no run is reported as finished. -/
theorem none (hdisk : after.disk = before.disk)
    (hevents : Event.summaries after.audience = Event.summaries before.audience) :
    Leaves folder label [] before after := by
  refine ⟨fun k => by rw [hdisk]; rfl, ?_⟩
  rw [hevents, List.map_nil, List.append_nil]

/-- The first run, and then the others. -/
theorem cons {d : Dataset} {ds : List Dataset} (hfirst : Leaves folder label [d] before between)
    (hothers : Leaves folder label ds between after) :
    Leaves folder label (d :: ds) before after := by
  refine ⟨?_, ?_⟩
  · intro k
    rw [hothers.files, hfirst.files]
    rfl
  · rw [hothers.summaries, hfirst.summaries, List.append_assoc]
    rfl

end Leaves

section Folder

variable {bench : Bench (StateT τ Option)} {shown : Nat → Bool}

/-- A session of which all events are kept in order. -/
def recorded (bench : Bench (StateT τ Option)) (shown : Nat → Bool) :
    Session (StateT (τ × Surroundings (List Event)) Option) :=
  staged bench shown fun e events => events ++ [e]

variable {folder label : String} {d : Dataset} {t : τ} {outputs : List String}
variable {after : τ × Surroundings (List Event)}

/-- Reports that were saved are in their files, and all other files of the folder are as they were. -/
theorem bytesAt_of_saveAll (ks : List InputClass) :
    ∀ {before : Surroundings (List Event)} {written : List String},
      Report.saveAll (recorded bench shown).save folder label d ks written (t, before) =
        some (.ok outputs, after) →
      outputs = written ++ ks.map (fun k => Report.pathIn folder k.resultFile) ∧
        ∃ disk, after = (t, { before with disk }) ∧
          ∀ k : InputClass, disk.bytesAt (Report.pathIn folder k.resultFile) =
            if k ∈ ks then some (Report.reportBytes label k d)
            else before.disk.bytesAt (Report.pathIn folder k.resultFile) := by
  induction ks with
  | nil =>
      intro before written h
      cases h
      exact ⟨(List.append_nil _).symm, _, rfl, fun k => rfl⟩
  | cons k₀ ks ih =>
      intro before written h
      cases hdisk : Disk.save (Report.pathIn folder k₀.resultFile) (Report.text label k₀ d)
        before.disk with
      | mk answer disk₁ =>
          have hsave : (recorded bench shown).save (Report.pathIn folder k₀.resultFile)
              (Report.text label k₀ d) (t, before) =
                some (answer, (t, { before with disk := disk₁ })) := by
            show some ((Disk.save _ _ before.disk).1,
              (t, { before with disk := (Disk.save _ _ before.disk).2 })) = _
            rw [hdisk]
          rw [Report.saveAll, stateT_bind_of_eq_some hsave] at h
          cases answer with
          | error e => cases h
          | ok u =>
              -- A report that is not accepted would have ended the delivery.
              have hrest : Report.saveAll (recorded bench shown).save folder label d ks
                  (written ++ [Report.pathIn folder k₀.resultFile])
                  (t, { before with disk := disk₁ }) = some (.ok outputs, after) := by
                cases hverdict : Report.verdict k₀ d with
                | error f =>
                    simp only [hverdict] at h
                    cases h
                | ok u => simpa only [hverdict] using h
              obtain ⟨houtputs, disk, rfl, hfiles⟩ := ih hrest
              refine ⟨by rw [houtputs, List.append_assoc]; rfl, disk, rfl, ?_⟩
              intro k
              rw [hfiles k]
              by_cases hlater : k ∈ ks
              · rw [if_pos hlater, if_pos (List.mem_cons_of_mem _ hlater)]
              · rw [if_neg hlater]
                show disk₁.bytesAt _ = _
                rw [Disk.bytesAt_save hdisk k]
                by_cases hk : k = k₀
                · rw [if_pos hk, if_pos (hk ▸ List.mem_cons_self), hk, Report.utf8_text]
                · rw [if_neg hk, if_neg (List.not_mem_cons_of_ne_of_not_mem hk hlater)]

/-- A run that is completed leaves its reports and a summary with their paths. -/
theorem Leaves.of_completes [RandomSource σ] {config : RunConfig} (request : Request)
    {name : String} {source source' : σ} {sink' : Sink} {before : Surroundings (List Event)}
    (h : (recorded bench shown).Completes label name
      (config.perform (recorded bench shown).bench request) source (.folder folder) (t, before) d
      outputs source' sink' after) :
    sink' = .folder folder ∧ ∃ t' around,
      config.perform bench request source t = some ((.ok d, source'), t') ∧
        after = (t', around) ∧ around.looks = before.looks ∧
        Leaves folder label [d] before around := by
  obtain ⟨hwait, hmeasure, hdeliver, hfinish⟩ := h
  cases hwait
  rw [show (recorded bench shown).bench = bench.beside from rfl, RunConfig.perform_beside] at hmeasure
  obtain ⟨t', hperform, rfl⟩ := beside_eq_some_iff.mp hmeasure
  obtain ⟨⟨saved, p⟩, hsaved, hdeliver⟩ := Option.bind_eq_some_iff.mp hdeliver
  cases saved with
  | error f => cases hdeliver
  | ok paths =>
      cases hdeliver
      obtain ⟨houtputs, disk, rfl, hfiles⟩ := bytesAt_of_saveAll d.kinds hsaved
      cases hfinish
      refine ⟨rfl, t', _, hperform, rfl, rfl, hfiles, ?_⟩
      rw [Event.summaries_append, Event.summaries_append, houtputs, List.append_assoc]
      rfl

/-- **The runs of a queue** that ends well leave the last report of every class in its file, and a
summary of every run among the events. -/
theorem Leaves.of_runQueue [RandomSource σ] {o : Options} {source' : σ} {sink' : Sink}
    (ks : List InputClass) : ∀ {source : σ} {t : τ} {before : Surroundings (List Event)},
    (recorded bench shown).runQueue o ks (source, .folder folder) (t, before) =
      some ((.ok (), source', sink'), after) →
    ∃ ds t' around,
      o.runConfig.performUntilFailure bench (queueRequests shown before.looks ks) source t =
        some ((ds, .ok (), source'), t') ∧
      after = (t', around) ∧ Leaves folder o.label ds before around := by
  induction ks with
  | nil =>
      intro source t before h
      cases h
      exact ⟨[], t, before, rfl, rfl, .none rfl rfl⟩
  | cons k ks ih =>
      intro source t before h
      rw [queueRequests_cons]
      rcases runQueue_cons_eq_some_iff.mp h with
        ⟨p, hshown, hnotify, rfl, rfl⟩ | ⟨p, f, hshown, -, himpossible⟩ |
          ⟨p, p', d, outputs, source₁, sink₁, hshown, hcompletes, hrest⟩
      · -- The flag is raised, and what is reported then is no finished run.
        obtain ⟨hraised, rfl⟩ := Prod.mk.inj (Option.some.inj hshown)
        cases hnotify
        rw [show shown before.looks = true from hraised]
        refine ⟨[], t, _, rfl, rfl, .none rfl ?_⟩
        rw [Event.summaries_append]
        exact List.append_nil _
      · cases himpossible
      · obtain ⟨hlowered, rfl⟩ := Prod.mk.inj (Option.some.inj hshown)
        rw [show shown before.looks = false from hlowered]
        obtain ⟨rfl, t₁, between, hperform, rfl, hlooks, hfirst⟩ :=
          Leaves.of_completes (.single k) hcompletes
        obtain ⟨ds, t', around, hruns, rfl, hothers⟩ := ih hrest
        rw [hlooks] at hruns
        refine ⟨d :: ds, t', around, ?_, rfl, Leaves.cons ⟨hfirst.files, hfirst.summaries⟩ hothers⟩
        exact RunConfig.performUntilFailure_cons_of_ok hperform hruns

/-- **A session** that ends well leaves what its runs leave. -/
theorem Leaves.of_run [RandomSource σ] {o : Options} {source source' : σ} {sink' : Sink}
    {disk : Disk}
    (h : (recorded bench shown).run o (source, .folder folder) (t, ⟨disk, 0, []⟩) =
      some ((.ok (), source', sink'), after)) :
    ∃ ds t' around,
      o.runConfig.performUntilFailure bench (o.requests shown) source t =
        some ((ds, .ok (), source'), t') ∧
      after = (t', around) ∧ Leaves folder o.label ds ⟨disk, 0, []⟩ around := by
  unfold Session.run at h
  unfold Options.requests
  by_cases hmixed : o.mixed
  · rw [if_pos hmixed] at h ⊢
    rcases work_bind_cases h with ⟨f, -, himpossible⟩ | ⟨⟨⟩, ⟨_, _⟩, p, hbegin, hone⟩
    · cases himpossible
    cases hbegin
    rcases runOne_eq_some_iff.mp hone with ⟨d, outputs, hcompletes, -⟩ | ⟨f, -, himpossible⟩
    · obtain ⟨-, t', around, hperform, rfl, -, hleaves⟩ :=
        Leaves.of_completes (.mixed o.classes.distinct) hcompletes
      exact ⟨[d], t', around, RunConfig.performUntilFailure_cons_of_ok hperform rfl, rfl,
        hleaves.files, hleaves.summaries⟩
    · cases himpossible
  · rw [if_neg hmixed] at h ⊢
    rcases work_bind_cases h with ⟨f, -, himpossible⟩ | ⟨⟨⟩, ⟨_, _⟩, p, hbegin, hqueue⟩
    · cases himpossible
    cases hbegin
    obtain ⟨ds, t', around, hruns, rfl, hleaves⟩ := Leaves.of_runQueue _ hqueue
    exact ⟨ds, t', around, hruns, rfl, hleaves.files, hleaves.summaries⟩

end Folder

/-! ## Sessions without repeated classes -/

/-- Requests that are carried out to the end return datasets of their classes. -/
theorem kinds_of_performUntilFailure [RandomSource σ] {config : RunConfig}
    {bench : Bench (StateT τ Option)} {source' : σ} {t' : τ} (requests : List Request) :
    ∀ {source : σ} {t : τ} {ds : List Dataset},
      config.performUntilFailure bench requests source t = some ((ds, .ok (), source'), t') →
      ds.map Dataset.kinds = requests.map Request.kinds := by
  induction requests with
  | nil =>
      intro source t ds h
      cases h
      rfl
  | cons request requests ih =>
      intro source t ds h
      rcases RunConfig.performUntilFailure_cons_eq_some h with
        ⟨_, _, _, himpossible⟩ | ⟨d, source₁, t₁, ds₁, hperform, hrest, rfl⟩
      · cases himpossible
      · obtain ⟨_, -, hdata⟩ := (config.perform_ensures bench request source).of_eq_some hperform
        rw [List.map_cons, List.map_cons, ih hrest, (hdata d rfl).2]

/-- A mixed session has one request, and the requests of a queue without repeated classes have no
class in common. -/
theorem pairwise_requests {o : Options} (h : o.mixed ∨ o.classes.toList.Nodup)
    (shown : Nat → Bool) :
    ((o.requests shown).map Request.kinds).Pairwise List.Disjoint := by
  unfold Options.requests
  by_cases hmixed : o.mixed
  · rw [if_pos hmixed]
    exact List.pairwise_singleton _ _
  · rw [if_neg hmixed]
    have hnodup := h.resolve_left hmixed
    have hsublist : ((o.classes.toList.zipIdx.takeWhile fun run => shown run.2 = false).map
        Prod.fst).Sublist o.classes.toList := by
      nth_rewrite 2 [← List.zipIdx_map_fst 0 o.classes.toList]
      exact (List.takeWhile_sublist _).map Prod.fst
    have hkinds : (queueRequests shown 0 o.classes.toList).map Request.kinds =
        ((o.classes.toList.zipIdx.takeWhile fun run => shown run.2 = false).map Prod.fst).map
          fun k => [k] := by
      rw [queueRequests, List.map_map, List.map_map]
      rfl
    rw [hkinds, List.pairwise_map]
    exact (hnodup.sublist hsublist).imp fun hne => by simpa using hne.symm

/-! ## Kept and lost -/

/-- The file of a class in a folder holds the report of the class. -/
def Keeps (disk : Disk) (folder label : String) (d : Dataset) (k : InputClass) : Prop :=
  disk.bytesAt (Report.pathIn folder k.resultFile) = some (Report.reportBytes label k d)

section Kept

variable [RandomSource σ] {bench : Bench (StateT τ Option)} {shown : Nat → Bool}

/-- **What is kept of finished runs.** A session that delivers to its folder has ended well. Then its
runs have returned datasets, and each of these was reported as finished, in order, with the paths of
its reports. For the last run of a class its report is at its path. All reports of all finished runs
are at their paths exactly if no two of these runs have different reports of one class; this is so in
a mixed session, and where no class is listed twice. -/
theorem finished_kept_iff {o : Options} {source source' : σ} {sink' : Sink} {t t' : τ}
    {disk disk' : Disk} {looks : Nat} {events : List Event}
    (hrun : (recorded bench shown).run o (source, .folder o.outDir) (t, ⟨disk, 0, []⟩) =
      some ((.ok (), source', sink'), (t', ⟨disk', looks, events⟩))) :
    let kept := Keeps disk' o.outDir o.label
    ∃ ds, o.runConfig.performUntilFailure bench (o.requests shown) source t =
        some ((ds, .ok (), source'), t') ∧
      Event.summaries events = ds.map (fun d => Summary.ofDataset d (outputsIn o.outDir d)) ∧
      (∀ front d rest, ds = front ++ d :: rest →
        ∀ k ∈ d.kinds, (∀ d' ∈ rest, k ∉ d'.kinds) → kept d k) ∧
      ((∀ d ∈ ds, ∀ k ∈ d.kinds, kept d k) ↔ ds.Pairwise (Report.Compatible o.label)) ∧
      (o.mixed ∨ o.classes.toList.Nodup → ∀ d ∈ ds, ∀ k ∈ d.kinds, kept d k) := by
  intro kept
  obtain ⟨ds, _, _, hruns, hafter, hleaves⟩ := Leaves.of_run hrun
  cases hafter
  have hiff : (∀ d ∈ ds, ∀ k ∈ d.kinds, kept d k) ↔ ds.Pairwise (Report.Compatible o.label) := by
    rw [← Report.forall_lastReport_iff_pairwise ds fun k =>
      disk.bytesAt (Report.pathIn o.outDir k.resultFile)]
    simp only [kept, Keeps, hleaves.files]
  refine ⟨ds, hruns, hleaves.summaries, ?_, hiff, ?_⟩
  · rintro front d rest rfl k hk hrest
    exact (hleaves.files k).trans (Report.lastReport_of_last hk hrest front _)
  · intro hdistinct
    rw [hiff]
    have hdisjoint := pairwise_requests hdistinct shown
    rw [← kinds_of_performUntilFailure _ hruns, List.pairwise_map] at hdisjoint
    exact hdisjoint.imp Report.compatible_of_disjoint

end Kept

/-- Three classes and a flag that is raised before the last run: both finished runs are kept. -/
theorem finished_kept_iff_two_classes :
    let o : Options :=
      { sampleCount := 1, label := "-O2", classes := ⟨[.small, .fixed, .zero]⟩
        iterations := 2, repeats := 1, outDir := "out" }
    let disk : Disk := Disk.empty.makeFolder "out"
    let bench := (SimulatedClock.bench .comparison).total
    ∃ source' t' around ds,
      (recorded bench (· = 2)).run o (ByteCycle.ofList [1, 2, 3], .folder "out")
          (.stepping 0 1, ⟨disk, 0, []⟩) =
        some ((.ok (), source', .folder "out"), (t', around)) ∧
      o.runConfig.performUntilFailure bench [.single .small, .single .fixed]
          (ByteCycle.ofList [1, 2, 3]) (.stepping 0 1) =
        some ((ds, .ok (), source'), t') ∧
      ∀ d ∈ ds, ∀ k ∈ d.kinds, Keeps around.disk "out" "-O2" d k := by
  intro o disk bench
  have heval : ((recorded bench (· = 2)).run o (ByteCycle.ofList [1, 2, 3], .folder "out")
      (.stepping 0 1, ⟨disk, 0, []⟩)).map (fun r => (r.1.1, r.1.2.2)) =
        some (.ok (), .folder "out") := by decide +kernel
  obtain ⟨⟨⟨result, source', sink'⟩, t', disk', looks, events⟩, hrun, hpair⟩ :=
    Option.map_eq_some_iff.mp heval
  obtain ⟨rfl, rfl⟩ := Prod.mk.inj hpair
  obtain ⟨ds, hruns, -, -, -, hkept⟩ := finished_kept_iff hrun
  exact ⟨source', t', _, ds, hrun, hruns, hkept (.inr (by decide))⟩

/-- One class that is listed twice. The two runs have different reports and are reported under the
same path, and the report of the first one is nowhere in the end. -/
theorem repeated_class_overwritten :
    let o : Options :=
      { sampleCount := 1, label := "O2", classes := ⟨[.small, .small]⟩, iterations := 0 }
    let bench := (SimulatedClock.bench .nothing).total
    let heading :=
      "# compile flags: [O2], fuzz class: [small]\n" ++ "input_a,input_b,min_clock_measured\n"
    let first := heading ++ "1,2,\n"
    let second := heading ++ "3,1,\n"
    (o.runConfig.performUntilFailure bench (o.requests fun _ => false) (ByteCycle.ofList [1, 2, 3])
        (.stepping 0 1)).map (fun r => r.1.1.map (Report.text o.label .small)) =
      some [first, second] ∧
    ((recorded bench fun _ => false).run o (ByteCycle.ofList [1, 2, 3], .folder o.outDir)
        (.stepping 0 1, ⟨Disk.empty, 0, []⟩)).map (fun r => (r.1.1.isOk,
          (Event.summaries r.2.2.audience).map Summary.outputs,
          r.2.2.disk.bytesAt "./result-small.csv")) =
      some (true, [["./result-small.csv"], ["./result-small.csv"]], some (utf8 second)) ∧
    first ≠ second := by
  decide +kernel

end Session

end TimingAudit
