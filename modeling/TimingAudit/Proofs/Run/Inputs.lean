import TimingAudit.Proofs.ClassQueue
import TimingAudit.Proofs.Draw
import TimingAudit.Proofs.Run.Requests

/-!
# The inputs of a run

A run that has room for its inputs, and a class to draw them from, draws as many as it has samples. Each
of them is tagged with a class that was asked for and belongs to it.

* `draw_succeeds` : the inputs of a request;
* `draw_isSome_iff` : which requests come to an end of drawing;
* `draws_exactly_the_class` : every class draws the pairs that belong to it and no others, and so do
  the runs.
-/

namespace TimingAudit

/-- Only a mixed run of no classes at all has none to draw from. -/
theorem Request.kinds_eq_nil_iff {request : Request} : request.kinds = [] ↔ request = .mixed [] := by
  cases request with
  | single k => exact iff_of_false (List.cons_ne_nil _ _) nofun
  | mixed kinds => rw [Request.kinds, firstOccurrences_eq_nil_iff, Request.mixed.injEq]

namespace RunConfig

variable {σ : Type} [RandomSource σ]

/-- The draw of a mixed run that has a class and room. -/
theorem draw_mixed_of_room {config : RunConfig} {kinds : List InputClass} (hne : kinds ≠ [])
    (hroom : Store.inputs.Fits config.sampleCount.toNat) (source : σ) :
    config.draw (.mixed kinds) source =
      Draw.mixedOnto (firstOccurrences kinds) config.sampleCount.toNat #[] source := by
  have hne' : (Request.mixed kinds).kinds ≠ [] := mt firstOccurrences_eq_nil_iff.mp hne
  rw [draw, drawMixedInputs, if_neg (by simpa using hne'), if_pos hroom]
  rfl

/-- The inputs of a request, if there is room for them and a class to draw from. -/
theorem draw_succeeds {config : RunConfig} {request : Request} (hclass : request ≠ .mixed [])
    (hroom : Store.inputs.Fits config.sampleCount.toNat) :
    Succeeds (fun xs => xs.size = config.sampleCount.toNat ∧
        ∀ x ∈ xs, x.kind ∈ request.kinds ∧ x.Admitted)
      (config.draw request : StateT σ Option (Except Failure (Array Input))) := by
  have hnone : ∀ {P : Input → Prop}, ∀ x ∈ (#[] : Array Input), P x := by simp
  refine Ensures.of_forall_eq_some fun source drawn source' h => ?_
  cases request with
  | single k =>
      rw [draw, drawInputs, if_pos hroom] at h
      cases h
      obtain ⟨hsize, hxs⟩ := (Draw.inputsOnto_ensures k _ #[] hnone).of_stateM source
      refine ⟨_, rfl, hsize.trans (Nat.zero_add _), fun x hx => ?_⟩
      exact ⟨List.mem_singleton.mpr (hxs x hx).1, (hxs x hx).2⟩
  | mixed kinds =>
      have hne : kinds ≠ [] := fun heq => hclass (congrArg Request.mixed heq)
      rw [draw_mixed_of_room hne hroom] at h
      exact (Draw.mixedOnto_succeeds (mt firstOccurrences_eq_nil_iff.mp hne) _).of_eq_some h

/-- A mixed run of no classes draws nothing. -/
theorem draw_of_noClasses (config : RunConfig) (source : σ) :
    config.draw (.mixed []) source = some (.error .noClasses, source) := rfl

/-- Without room for the inputs none is drawn. -/
theorem draw_of_no_room {config : RunConfig} {request : Request} (hclass : request ≠ .mixed [])
    (hroom : ¬ Store.inputs.Fits config.sampleCount.toNat) (source : σ) :
    config.draw request source =
      some (.error (.allocation .inputs config.sampleCount.toNat), source) := by
  cases request with
  | single k =>
      rw [draw, drawInputs, if_neg hroom]
      rfl
  | mixed kinds =>
      have hne : (Request.mixed kinds).kinds ≠ [] := fun h => hclass (Request.kinds_eq_nil_iff.mp h)
      rw [draw, drawMixedInputs, if_neg (by simpa using hne), if_neg hroom]
      rfl

/-- Inputs that were drawn are as many as there are samples, each of a class that was asked for. -/
theorem inputs_of_draw {config : RunConfig} {request : Request} {source source' : σ}
    {xs : Array Input} (h : config.draw request source = some (.ok xs, source')) :
    xs.size = config.sampleCount.toNat ∧ ∀ x ∈ xs, x.kind ∈ request.kinds ∧ x.Admitted := by
  by_cases hclass : request = .mixed []
  · subst hclass
    cases h
  · by_cases hroom : Store.inputs.Fits config.sampleCount.toNat
    · obtain ⟨xs', hdrawn, hxs⟩ := (draw_succeeds hclass hroom).of_eq_some h
      cases hdrawn
      exact hxs
    · rw [draw_of_no_room hclass hroom] at h
      cases h

/-- The inputs of a dataset that a request has led to. -/
theorem inputs_of_perform {τ : Type} {config : RunConfig} {bench : Bench (StateT τ Option)}
    (request : Request) {source source' : σ} {s s' : τ} {d : Dataset}
    (h : config.perform bench request source s = some ((.ok d, source'), s')) :
    d.kinds = request.kinds ∧ d.inputs.size = config.sampleCount.toNat ∧
      ∀ x ∈ d.inputs, x.kind ∈ request.kinds ∧ x.Admitted := by
  obtain ⟨drawn, hdraw, hdata⟩ := (config.perform_ensures bench request source).of_eq_some h
  obtain ⟨rfl, hkinds⟩ := hdata d rfl
  exact ⟨hkinds, inputs_of_draw hdraw⟩

/-- **Every class draws exactly its pairs.** On every random source a class draws a pair that belongs
to it, and for every pair that belongs to it there is a stream of bytes from which it is drawn. So a
dataset of a run has as many inputs as the run has samples, all tagged with the class of the run, or
with one of its classes if it was mixed, and all belonging to the class of their tag. -/
theorem draws_exactly_the_class {τ : Type} (config : RunConfig) (bench : Bench (StateT τ Option))
    (source : σ) (s : τ) :
    (∀ k : InputClass, k.Admits (Draw.pair k source).1) ∧
    (∀ (k : InputClass) (p : Int64 × Int64), k.Admits p →
      ∃ bytes, bytes ≠ [] ∧ (Draw.pair k (ByteCycle.ofList bytes)).1 = p) ∧
    (∀ (k : InputClass) (d : Dataset) (source' : σ) (s' : τ),
      config.run bench k source s = some ((.ok d, source'), s') →
      d.inputs.size = config.sampleCount.toNat ∧
        ∀ x ∈ d.inputs, x.kind = k ∧ k.Admits (x.a, x.b)) ∧
    ∀ (kinds : List InputClass) (d : Dataset) (source' : σ) (s' : τ),
      config.runMixed bench kinds source s = some ((.ok d, source'), s') →
      d.inputs.size = config.sampleCount.toNat ∧
        ∀ x ∈ d.inputs, x.kind ∈ kinds ∧ x.kind.Admits (x.a, x.b) := by
  refine ⟨fun k => (Draw.pair_ensures k).of_stateM source, ?_, ?_, ?_⟩
  · intro k p hp
    obtain ⟨bytes, hbytes⟩ := Draw.exists_reads_pair hp
    -- One more byte, which is not read, for the class that reads none.
    obtain ⟨hahead, -⟩ := (ByteCycle.ahead_ofList (bytes ++ [0])).of_append
    exact ⟨bytes ++ [0], by simp, congrArg Prod.fst (hbytes _ hahead)⟩
  · intro k d source' s' hrun
    obtain ⟨-, hsize, hinputs⟩ := inputs_of_perform (.single k) hrun
    refine ⟨hsize, fun x hx => ?_⟩
    obtain ⟨hkind, hadmitted⟩ := hinputs x hx
    obtain rfl : x.kind = k := List.mem_singleton.mp hkind
    exact ⟨rfl, hadmitted⟩
  · intro kinds d source' s' hrun
    obtain ⟨-, hsize, hinputs⟩ := inputs_of_perform (.mixed kinds) hrun
    refine ⟨hsize, fun x hx => ?_⟩
    obtain ⟨hkind, hadmitted⟩ := hinputs x hx
    exact ⟨mem_firstOccurrences.mp hkind, hadmitted⟩

/-- A run of one class and a mixed one with a repeated class, in which the coin leaves the first side
free, and a pair of a class that compares its sides as signed numbers. -/
theorem draws_exactly_the_class_three_samples :
    (∃ d source' s',
      (RunConfig.mk 1 1 1 .exhaustive).run (SimulatedClock.bench .nothing).total .small
        (ByteCycle.ofList [7, 255]) (.stepping 0 1) = some ((.ok d, source'), s') ∧
      d.inputs.size = 1 ∧ ∀ x ∈ d.inputs, x.kind = .small ∧ InputClass.small.Admits (x.a, x.b)) ∧
    (∃ d source' s',
      (RunConfig.mk 3 1 1 .exhaustive).runMixed (SimulatedClock.bench .nothing).total
        [.max64, .small, .max64] (ByteCycle.ofList [0, 0, 0, 0, 255, 255, 255, 255, 0, 0, 0, 0, 0, 0, 0,
          128, 0, 0, 0, 128, 7, 255]) (.stepping 0 1) = some ((.ok d, source'), s') ∧
      d.inputs = #[⟨Int64.minValue, Int64.maxValue, .max64⟩, ⟨7, 255, .small⟩,
        ⟨Int64.minValue, Int64.maxValue, .max64⟩] ∧
      d.inputs.size = 3 ∧
        ∀ x ∈ d.inputs, x.kind ∈ [.max64, .small, .max64] ∧ x.kind.Admits (x.a, x.b)) ∧
    InputClass.yltx.Admits (0, -1) ∧
      ∃ bytes, bytes ≠ [] ∧ (Draw.pair .yltx (ByteCycle.ofList bytes)).1 = (0, -1) := by
  have hsingle : ((RunConfig.mk 1 1 1 .exhaustive).run (SimulatedClock.bench .nothing).total .small
      (ByteCycle.ofList [7, 255]) (.stepping 0 1)).map (·.1.1) =
        some (.ok ⟨#[⟨7, 255, .small⟩], ⟨#[1], #[1], 1, 1, 1⟩, [.small]⟩) := by decide +kernel
  have hmixed : ((RunConfig.mk 3 1 1 .exhaustive).runMixed (SimulatedClock.bench .nothing).total
      [.max64, .small, .max64] (ByteCycle.ofList [0, 0, 0, 0, 255, 255, 255, 255, 0, 0, 0, 0, 0, 0, 0,
        128, 0, 0, 0, 128, 7, 255]) (.stepping 0 1)).map (·.1.1) =
        some (.ok ⟨#[⟨Int64.minValue, Int64.maxValue, .max64⟩, ⟨7, 255, .small⟩,
          ⟨Int64.minValue, Int64.maxValue, .max64⟩], ⟨#[1, 1, 1], #[1, 1, 1], 3, 1, 1⟩,
            [.max64, .small]⟩) := by decide +kernel
  obtain ⟨⟨⟨r₁, source₁⟩, s₁⟩, hrun₁, rfl⟩ := Option.map_eq_some_iff.mp hsingle
  obtain ⟨⟨⟨r₂, source₂⟩, s₂⟩, hrun₂, rfl⟩ := Option.map_eq_some_iff.mp hmixed
  obtain ⟨hsize₁, hinputs₁⟩ := (draws_exactly_the_class _ _ _ _).2.2.1 _ _ _ _ hrun₁
  obtain ⟨-, hpairs, -, hall⟩ := draws_exactly_the_class (RunConfig.mk 3 1 1 .exhaustive)
    (SimulatedClock.bench .nothing).total (ByteCycle.ofList [0, 0, 0, 0, 255, 255, 255, 255, 0, 0, 0,
      0, 0, 0, 0, 128, 0, 0, 0, 128, 7, 255]) (.stepping 0 1)
  obtain ⟨hsize₂, hinputs₂⟩ := hall _ _ _ _ hrun₂
  have hpair : InputClass.yltx.Admits (0, -1) := show (-1 : Int64) ≤ 0 by decide
  exact ⟨⟨_, _, _, hrun₁, hsize₁, hinputs₁⟩, ⟨_, _, _, hrun₂, rfl, hsize₂, hinputs₂⟩, hpair,
    hpairs _ _ hpair⟩

end RunConfig

end TimingAudit
