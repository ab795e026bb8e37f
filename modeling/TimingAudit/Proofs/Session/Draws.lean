import TimingAudit.Bench.Simulated
import TimingAudit.Proofs.Draw.Consumption
import TimingAudit.Proofs.Session.Events

/-!
# What a session draws

The runs of a session share one random source: a run draws its inputs from where the run before it has
left the source. Whatever the bench, the files, the flag and the events of a session do, its runs
therefore have the inputs that are drawn for their classes in turn. What they do decides only how far
the session comes.

To say so also of sessions that fail, the datasets that a session measures are written down beside its
state (`runKeeping`), as its events are elsewhere.

* `Measures.of_run` : the datasets of every session that is not mixed;
* `draws_cost_by_class` : the cost of draws, and sessions with and without the class `fixed`.
-/

namespace TimingAudit

variable {σ τ : Type}

/-- The inputs of a run of one class, and the source that it leaves. -/
theorem RunConfig.inputsOnto_of_perform [RandomSource σ] {config : RunConfig}
    {bench : Bench (StateT τ Option)} {k : InputClass} {source source' : σ} {t t' : τ} {d : Dataset}
    (h : config.perform bench (.single k) source t = some ((.ok d, source'), t')) :
    d.kinds = [k] ∧
      Draw.inputsOnto k config.sampleCount.toNat #[] source = (d.inputs, source') := by
  obtain ⟨drawn, hdraw, hdata⟩ := (config.perform_ensures bench (.single k) source).of_eq_some h
  obtain ⟨rfl, hkinds⟩ := hdata d rfl
  refine ⟨hkinds, ?_⟩
  have hdrawn : config.drawInputs k source = (.ok d.inputs, source') := Option.some.inj hdraw
  rw [drawInputs] at hdrawn
  by_cases hroom : Store.inputs.Fits config.sampleCount.toNat
  · rw [if_pos hroom] at hdrawn
    obtain ⟨hinputs, hsource⟩ := Prod.mk.inj hdrawn
    exact Prod.ext (Except.ok.inj hinputs) hsource
  · rw [if_neg hroom] at hdrawn
    cases hdrawn

namespace Session

/-! ## Datasets beside the state -/

/-- A run that also writes down its dataset, if it has one, behind those before. -/
def kept (run : StateT τ Option (Except Failure Dataset × σ)) :
    StateT (τ × List Dataset) Option (Except Failure Dataset × σ) := fun (t, ds) =>
  (run t).map fun (outcome, t) => (outcome, (t, ds ++ outcome.1.toOption.toList))

/-- The session beside the datasets of its runs, which are not its own affair. -/
def keeping (s : Session (StateT τ Option)) : Session (StateT (τ × List Dataset) Option) where
  bench := s.bench.beside
  save path text := beside (s.save path text)
  stopRequested := beside s.stopRequested
  notify e := beside (s.notify e)

/-- Carries out the runs that the options ask for, and writes down their datasets. -/
def runKeeping [RandomSource σ] (s : Session (StateT τ Option)) (o : Options) :
    Work σ (StateT (τ × List Dataset) Option) Unit :=
  s.keeping.runBy o fun request source => kept (o.runConfig.perform s.bench request source)

variable {s : Session (StateT τ Option)} {t : τ} {ds : List Dataset}

theorem kept_eq_some_iff {run : StateT τ Option (Except Failure Dataset × σ)}
    {outcome : Except Failure Dataset × σ} {p : τ × List Dataset} :
    kept run (t, ds) = some (outcome, p) ↔
      ∃ t', run t = some (outcome, t') ∧ p = (t', ds ++ outcome.1.toOption.toList) := by
  show (run t).map _ = _ ↔ _
  rw [Option.map_eq_some_iff]
  constructor
  · rintro ⟨⟨outcome', t'⟩, hrun, hpair⟩
    cases hpair
    exact ⟨t', hrun, rfl⟩
  · rintro ⟨t', hrun, rfl⟩
    exact ⟨_, hrun, rfl⟩

/-- Writing down datasets changes nothing else. -/
theorem map_runKeeping [RandomSource σ] (s : Session (StateT τ Option)) (o : Options)
    (st : σ × Sink) (t : τ) (ds : List Dataset) :
    (s.runKeeping o st (t, ds)).map (fun r => (r.1, r.2.1)) = s.run o st t := by
  have hparts : (Lockstep.first τ (List Dataset)).Sessions s.keeping s := by
    constructor
    · apply (Lockstep.first τ (List Dataset)).windows_of_steps
      · exact fun p => map_beside s.bench.opening p
      · exact fun p => map_beside s.bench.closing p
      · exact fun a b p => map_beside (s.bench.call a b) p
    · exact fun path text p => map_beside (s.save path text) p
    · exact fun p => map_beside s.stopRequested p
    · exact fun e p => map_beside (s.notify e) p
  have hperform : ∀ (request : Request) (source : σ),
      (Lockstep.first τ (List Dataset)).rel (kept (o.runConfig.perform s.bench request source))
        (o.runConfig.perform s.bench request source) := by
    rintro request source ⟨t, ds⟩
    show ((o.runConfig.perform s.bench request source t).map _).map _ = _
    rw [Option.map_map]
    exact Option.map_id'
  rw [run_eq_runBy]
  exact Lockstep.runBy hparts hperform o st (t, ds)

/-! ## One run -/

/-- Delivering a dataset does not touch those that were written down. -/
theorem keeping_deliver (label : String) (d : Dataset) (sink : Sink) :
    s.keeping.deliver label d sink = beside (s.deliver label d sink) := by
  have hsave : ∀ path text,
      (Lockstep.beside τ (List Dataset)).rel (s.keeping.save path text) (s.save path text) :=
    fun _ _ => rfl
  exact Lockstep.deliver hsave label d sink

section One

variable {label name : String} {run : σ → StateT τ Option (Except Failure Dataset × σ)}
variable {source source' : σ} {sink sink' : Sink} {p : τ × List Dataset}

/-- A completed run has one dataset. -/
theorem Completes.of_keeping {d : Dataset} {outputs : List String}
    (h : s.keeping.Completes label name (fun source => kept (run source)) source sink (t, ds) d
      outputs source' sink' p) :
    ∃ t₁ t₂ t', run source t₁ = some ((.ok d, source'), t₂) ∧ p = (t', ds ++ [d]) := by
  obtain ⟨hwait, hmeasure, hdeliver, hfinish⟩ := h
  obtain ⟨t₁, -, rfl⟩ := beside_eq_some_iff.mp hwait
  obtain ⟨t₂, hrun, rfl⟩ := kept_eq_some_iff.mp hmeasure
  rw [keeping_deliver] at hdeliver
  obtain ⟨t₃, -, rfl⟩ := beside_eq_some_iff.mp hdeliver
  obtain ⟨t', -, rfl⟩ := beside_eq_some_iff.mp hfinish
  exact ⟨t₁, t₂, t', hrun, rfl⟩

/-- A run that fails has no dataset, or one that could not be delivered or reported. -/
theorem Fails.of_keeping {f : Failure}
    (h : s.keeping.Fails label name (fun source => kept (run source)) source sink (t, ds) f
      source' sink' p) :
    ∃ t' new, p = (t', ds ++ new) ∧
      (new = [] ∨ ∃ d t₁ t₂, run source t₁ = some ((.ok d, source'), t₂) ∧ new = [d]) := by
  cases h with
  | announcing hwait =>
      obtain ⟨t', -, rfl⟩ := beside_eq_some_iff.mp hwait
      exact ⟨t', [], by rw [List.append_nil], .inl rfl⟩
  | measuring hwait hmeasure =>
      obtain ⟨t₁, -, rfl⟩ := beside_eq_some_iff.mp hwait
      obtain ⟨t', -, rfl⟩ := kept_eq_some_iff.mp hmeasure
      exact ⟨t', [], rfl, .inl rfl⟩
  | delivering hwait hmeasure hdeliver =>
      obtain ⟨t₁, -, rfl⟩ := beside_eq_some_iff.mp hwait
      obtain ⟨t₂, hrun, rfl⟩ := kept_eq_some_iff.mp hmeasure
      rw [keeping_deliver] at hdeliver
      obtain ⟨t', -, rfl⟩ := beside_eq_some_iff.mp hdeliver
      exact ⟨t', _, rfl, .inr ⟨_, t₁, t₂, hrun, rfl⟩⟩
  | reporting hwait hmeasure hdeliver hfinish =>
      obtain ⟨t₁, -, rfl⟩ := beside_eq_some_iff.mp hwait
      obtain ⟨t₂, hrun, rfl⟩ := kept_eq_some_iff.mp hmeasure
      rw [keeping_deliver] at hdeliver
      obtain ⟨t₃, -, rfl⟩ := beside_eq_some_iff.mp hdeliver
      obtain ⟨t', -, rfl⟩ := beside_eq_some_iff.mp hfinish
      exact ⟨t', _, rfl, .inr ⟨_, t₁, t₂, hrun, rfl⟩⟩

end One

/-! ## A queue of runs -/

/-- The flag of the session is never shown raised. -/
def NeverStops (s : Session (StateT τ Option)) : Prop :=
  ∀ t stop t', s.stopRequested t = some (stop, t') → stop = false

/-- The classes and the inputs of a dataset. -/
def drawnOf (d : Dataset) : List InputClass × Array Input := (d.kinds, d.inputs)

/-- The runs of classes in turn, as they show in the datasets. -/
def drawnInTurn [RandomSource σ] (count : Nat) (ks : List InputClass) (source : σ) :
    List (List InputClass × Array Input) :=
  (Draw.inTurn count ks source).map fun run => ([run.1], run.2)

variable [RandomSource σ] {o : Options}

/-- The first run in turn is one that has returned a dataset, and the others go on from the source that
it has left. -/
theorem drawnInTurn_of_perform {k : InputClass} {source source' : σ} {t' : τ} {d : Dataset}
    (h : o.runConfig.perform s.bench (.single k) source t = some ((.ok d, source'), t'))
    (ks : List InputClass) :
    drawnInTurn o.sampleCount.toNat (k :: ks) source =
      drawnOf d :: drawnInTurn o.sampleCount.toNat ks source' := by
  obtain ⟨hkinds, hinputs⟩ := RunConfig.inputsOnto_of_perform h
  have hinputs' : Draw.inputsOnto k o.sampleCount.toNat #[] source = (d.inputs, source') := hinputs
  rw [drawnInTurn, Draw.inTurn, hinputs', drawnOf, hkinds]
  rfl

/-- **The runs of a queue** have the inputs that are drawn for their classes in turn, up to the run at
which the session ends. -/
theorem drawn_of_runQueueBy (ks : List InputClass) : ∀ {source source' : σ} {sink sink' : Sink}
    {t : τ} {ds : List Dataset} {result : Except Failure Unit} {p : τ × List Dataset},
    s.keeping.runQueueBy o
        (fun request source => kept (o.runConfig.perform s.bench request source)) ks (source, sink)
        (t, ds) = some ((result, source', sink'), p) →
    ∃ t' new, p = (t', ds ++ new) ∧
      new.map drawnOf <+: drawnInTurn o.sampleCount.toNat ks source ∧
      (result.isOk → s.NeverStops → new.length = ks.length) := by
  induction ks with
  | nil =>
      intro source source' sink sink' t ds result p h
      cases h
      exact ⟨t, [], by rw [List.append_nil], List.nil_prefix, fun _ _ => rfl⟩
  | cons k ks ih =>
      intro source source' sink sink' t ds result p h
      rcases runQueueBy_cons_eq_some_iff.mp h with
        ⟨p₁, hshown, hnotify, rfl, rfl⟩ | ⟨p₁, f, hshown, hfails, rfl⟩ |
          ⟨p₁, p₂, d, outputs, source₁, sink₁, hshown, hcompletes, hrest⟩
      · obtain ⟨t₁, hraised, rfl⟩ := beside_eq_some_iff.mp hshown
        obtain ⟨t', -, rfl⟩ := beside_eq_some_iff.mp hnotify
        refine ⟨t', [], by rw [List.append_nil], List.nil_prefix, fun _ hnever => ?_⟩
        cases hnever _ _ _ hraised
      · obtain ⟨t₁, -, rfl⟩ := beside_eq_some_iff.mp hshown
        obtain ⟨t', new, rfl, hnew⟩ := hfails.of_keeping
        refine ⟨t', new, rfl, ?_, nofun⟩
        rcases hnew with rfl | ⟨d, t₂, t₃, hrun, rfl⟩
        · exact List.nil_prefix
        · rw [drawnInTurn_of_perform hrun]
          exact ⟨_, rfl⟩
      · obtain ⟨t₁, -, rfl⟩ := beside_eq_some_iff.mp hshown
        obtain ⟨t₂, t₃, t₄, hrun, rfl⟩ := hcompletes.of_keeping
        -- The other classes go on from the source that this one has left.
        obtain ⟨t', new, rfl, hnew, hall⟩ := ih hrest
        refine ⟨t', d :: new, by rw [← List.append_cons], ?_, ?_⟩
        · rw [drawnInTurn_of_perform hrun, List.map_cons]
          exact (List.prefix_cons_inj _).mpr hnew
        · intro hok hnever
          rw [List.length_cons, List.length_cons, hall hok hnever]

/-! ## Whole sessions -/

/-- The datasets `ds` that a session has measured when it ended: as many as it came to, with the inputs
that are drawn for its classes in turn, and one for every class unless it failed or was stopped. -/
structure Measures (s : Session (StateT τ Option)) (o : Options) (source : σ) (sink : Sink) (t : τ)
    (outcome : Except Failure Unit × (σ × Sink)) (t' : τ) (ds : List Dataset) : Prop where
  kept : s.runKeeping o (source, sink) (t, []) = some (outcome, (t', ds))
  drawn : ds.map drawnOf <+: drawnInTurn o.sampleCount.toNat o.classes.toList source
  all : outcome.1.isOk → s.NeverStops → ds.length = o.classes.length

/-- **Every session that is not mixed** has measured datasets in this way. -/
theorem Measures.of_run {source : σ} {sink : Sink} {t' : τ}
    {outcome : Except Failure Unit × (σ × Sink)} (hmixed : o.mixed = false)
    (h : s.run o (source, sink) t = some (outcome, t')) :
    ∃ ds, s.Measures o source sink t outcome t' ds := by
  rw [← map_runKeeping s o _ t []] at h
  obtain ⟨⟨⟨result, source', sink'⟩, t', ds⟩, hkept, hpair⟩ := Option.map_eq_some_iff.mp h
  cases hpair
  suffices hds : ds.map drawnOf <+: drawnInTurn o.sampleCount.toNat o.classes.toList source ∧
      (result.isOk → s.NeverStops → ds.length = o.classes.length) from ⟨ds, hkept, hds.1, hds.2⟩
  rw [runKeeping, runBy, if_neg (by rw [hmixed]; decide)] at hkept
  rcases work_bind_cases hkept with ⟨f, hbegin, rfl⟩ | ⟨⟨⟩, ⟨_, _⟩, p, hbegin, hqueue⟩
  · obtain ⟨hbegin', -⟩ := report_eq_some_iff.mp hbegin
    obtain ⟨t₁, -, hpair⟩ := beside_eq_some_iff.mp hbegin'
    cases hpair
    exact ⟨List.nil_prefix, nofun⟩
  · obtain ⟨hbegin', rfl, rfl⟩ := report_eq_some_iff.mp hbegin
    obtain ⟨t₁, -, rfl⟩ := beside_eq_some_iff.mp hbegin'
    obtain ⟨t₂, new, hpair, hdrawn, hall⟩ := drawn_of_runQueueBy _ hqueue
    cases hpair
    exact ⟨hdrawn, hall⟩

/-! ## Without the class `fixed` -/

/-- The inputs of all runs but those of the class `fixed`. -/
def inputsOfOthers (runs : List (List InputClass × Array Input)) : List (Array Input) :=
  (runs.filter fun run => run.1 ≠ [.fixed]).map Prod.snd

/-- Runs of the class `fixed` can be left out of a list of classes. -/
theorem inputsOfOthers_drawnInTurn (count : Nat) (ks : List InputClass) (source : Keystream) :
    inputsOfOthers (drawnInTurn count ks source) =
      (drawnInTurn count (ks.filter (· ≠ .fixed)) source).map Prod.snd := by
  rw [inputsOfOthers, drawnInTurn, drawnInTurn, ← Draw.filter_inTurn, List.filter_map]
  congr 3
  funext run
  simp

theorem inputsOfOthers_prefix {runs runs' : List (List InputClass × Array Input)}
    (h : runs <+: runs') : inputsOfOthers runs <+: inputsOfOthers runs' :=
  (h.filter _).map _

theorem length_drawnInTurn (count : Nat) (ks : List InputClass) : ∀ source : σ,
    (drawnInTurn count ks source).length = ks.length := by
  induction ks with
  | nil =>
      intro source
      rfl
  | cons k ks ih =>
      intro source
      exact congrArg (· + 1) (ih _)

/-- The datasets of a session, seen as the inputs of their runs. -/
theorem inputsOfOthers_map_drawnOf (ds : List Dataset) :
    inputsOfOthers (ds.map drawnOf) =
      (ds.filter fun d => d.kinds ≠ [.fixed]).map Dataset.inputs := by
  rw [inputsOfOthers, List.filter_map, List.map_map]
  rfl

/-- A session that has measured all its runs has the inputs that are drawn in turn. -/
theorem Measures.drawn_eq {source : σ} {sink : Sink} {t' : τ}
    {outcome : Except Failure Unit × (σ × Sink)} (h : s.Measures o source sink t outcome t' ds)
    (hlength : ds.length = o.classes.length) :
    ds.map drawnOf = drawnInTurn o.sampleCount.toNat o.classes.toList source := by
  apply h.drawn.eq_of_length
  rw [List.length_map, length_drawnInTurn]
  exact hlength

/-- **Draws cost what their class costs, and draws that cost nothing can be left out.** From every
position of a keystream, that of a new seed for instance, calls that draw take as many words as their
classes cost together: the key is kept and the position is as many words further on. So whatever is
drawn next is the same after any calls of the same cost.

Two sessions that are not mixed start with such a source, and the second one has the classes of the
first one without `fixed`. Number of samples apart, their options may differ, and so may all that they
work with. Then the inputs of the runs of the other classes are the same in both, in order, as far as
both sessions come, and altogether if both have measured all their runs. -/
theorem draws_cost_by_class (source : Keystream) :
    (∀ calls, (Draw.drawAll calls source).2 = source.advance (Draw.totalWords calls) ∧
      (Draw.drawAll calls source).2.key = source.key ∧
      (Draw.drawAll calls source).2.position = source.position + Draw.totalWords calls) ∧
    (∀ calls₁ calls₂, Draw.totalWords calls₁ = Draw.totalWords calls₂ →
      ∀ {α : Type} (next : StateM Keystream α),
        next (Draw.drawAll calls₁ source).2 = next (Draw.drawAll calls₂ source).2) ∧
    ∀ {τ₁ τ₂ : Type} {s₁ : Session (StateT τ₁ Option)} {s₂ : Session (StateT τ₂ Option)}
      {o₁ o₂ : Options} {sink₁ sink₂ : Sink} {t₁ t₁' : τ₁} {t₂ t₂' : τ₂}
      {outcome₁ outcome₂ : Except Failure Unit × (Keystream × Sink)},
      o₁.mixed = false → o₂.mixed = false → o₂.sampleCount = o₁.sampleCount →
      o₂.classes.toList = o₁.classes.toList.filter (· ≠ .fixed) →
      s₁.run o₁ (source, sink₁) t₁ = some (outcome₁, t₁') →
      s₂.run o₂ (source, sink₂) t₂ = some (outcome₂, t₂') →
      ∃ ds₁ ds₂, s₁.Measures o₁ source sink₁ t₁ outcome₁ t₁' ds₁ ∧
        s₂.Measures o₂ source sink₂ t₂ outcome₂ t₂' ds₂ ∧
        let others := (ds₁.filter fun d => d.kinds ≠ [.fixed]).map Dataset.inputs
        let alone := ds₂.map Dataset.inputs
        (others <+: alone ∨ alone <+: others) ∧
          (ds₁.length = o₁.classes.length → ds₂.length = o₂.classes.length → others = alone) := by
  have htakes : ∀ calls, (Draw.drawAll calls source).2 = source.advance (Draw.totalWords calls) :=
    fun calls => Draw.takes_drawAll calls source
  refine ⟨fun calls => ⟨htakes calls, ?_, ?_⟩, ?_, ?_⟩
  · rw [htakes calls]
    rfl
  · rw [htakes calls]
    rfl
  · intro calls₁ calls₂ htotal α next
    rw [htakes, htakes, htotal]
  · intro τ₁ τ₂ s₁ s₂ o₁ o₂ sink₁ sink₂ t₁ t₁' t₂ t₂' outcome₁ outcome₂ hmixed₁ hmixed₂ hcount
      hclasses hrun₁ hrun₂
    obtain ⟨ds₁, hds₁⟩ := Measures.of_run hmixed₁ hrun₁
    obtain ⟨ds₂, hds₂⟩ := Measures.of_run hmixed₂ hrun₂
    refine ⟨ds₁, ds₂, hds₁, hds₂, ?_⟩
    intro others alone
    -- Both are the beginnings of one list, the inputs that are drawn in turn for the other classes.
    have hothers : others = inputsOfOthers (ds₁.map drawnOf) :=
      (inputsOfOthers_map_drawnOf ds₁).symm
    have halone : alone = (ds₂.map drawnOf).map Prod.snd := by
      rw [List.map_map]
      rfl
    have hturn : inputsOfOthers (drawnInTurn o₁.sampleCount.toNat o₁.classes.toList source) =
        (drawnInTurn o₂.sampleCount.toNat o₂.classes.toList source).map Prod.snd := by
      rw [inputsOfOthers_drawnInTurn, hcount, hclasses]
    rw [hothers, halone]
    constructor
    · apply List.prefix_or_prefix_of_prefix
      · exact inputsOfOthers_prefix hds₁.drawn
      · rw [hturn]
        exact hds₂.drawn.map _
    · intro hlength₁ hlength₂
      rw [hds₁.drawn_eq hlength₁, hds₂.drawn_eq hlength₂, hturn]

/-- Five classes of a seed against the three of them that are not `fixed`, on another clock, with other
passes and into another folder. Before that, four words in one draw against four words in three. -/
theorem draws_cost_by_class_five_runs :
    let source := Keystream.ofSeed 7
    let o₁ : Options :=
      { sampleCount := 2, classes := ⟨[.uniform, .fixed, .small, .fixed, .equal]⟩, iterations := 1
        repeats := 1 }
    let o₂ : Options :=
      { sampleCount := 2, classes := ⟨[.uniform, .small, .equal]⟩, iterations := 2, repeats := 3
        earlyExit := some 4 }
    let s₁ := scripted (SimulatedClock.bench .nothing).total (fun _ => false) fun _ => .ok ()
    let s₂ := scripted (SimulatedClock.bench .one).total (fun _ => false) fun _ => .ok ()
    Draw.drawAll [.pair .max64] (Draw.drawAll [.pair .uniform] source).2 =
      Draw.drawAll [.pair .max64]
        (Draw.drawAll [.input .equal, .pair .fixed, .pair .small] source).2 ∧
    (Draw.drawAll [.input .equal, .pair .fixed, .pair .small] source).2.position = 4 ∧
    ∃ outcome₁ outcome₂ t₁ t₂ ds₁ ds₂,
      s₁.runKeeping o₁ (source, .folder "first") ((.stepping 0 1, 0), []) =
        some (outcome₁, (t₁, ds₁)) ∧
      s₂.runKeeping o₂ (source, .folder "second") ((.stepping 9 2, 0), []) =
        some (outcome₂, (t₂, ds₂)) ∧
      ds₁.length = 5 ∧ ds₂.length = 3 ∧
      (ds₁.filter fun d => d.kinds ≠ [.fixed]).map Dataset.inputs = ds₂.map Dataset.inputs := by
  intro source o₁ o₂ s₁ s₂
  obtain ⟨hcost, hsame, hsessions⟩ := draws_cost_by_class source
  refine ⟨hsame _ _ rfl _, (hcost _).2.2, ?_⟩
  have heval₁ : (s₁.run o₁ (source, .folder "first") (.stepping 0 1, 0)).map (·.1.1.isOk) =
      some true := by decide +kernel
  have heval₂ : (s₂.run o₂ (source, .folder "second") (.stepping 9 2, 0)).map (·.1.1.isOk) =
      some true := by decide +kernel
  obtain ⟨⟨outcome₁, t₁⟩, hrun₁, hok₁⟩ := Option.map_eq_some_iff.mp heval₁
  obtain ⟨⟨outcome₂, t₂⟩, hrun₂, hok₂⟩ := Option.map_eq_some_iff.mp heval₂
  obtain ⟨ds₁, ds₂, hds₁, hds₂, -, hinputs⟩ :=
    @hsessions _ _ s₁ s₂ o₁ o₂ _ _ _ _ _ _ _ _ rfl rfl rfl rfl hrun₁ hrun₂
  have hlength₁ := hds₁.all hok₁ (by rintro t stop t' ⟨⟩; rfl)
  have hlength₂ := hds₂.all hok₂ (by rintro t stop t' ⟨⟩; rfl)
  exact ⟨outcome₁, outcome₂, t₁, t₂, ds₁, ds₂, hds₁.kept, hds₂.kept, hlength₁, hlength₂,
    hinputs hlength₁ hlength₂⟩

end Session

end TimingAudit
