import TimingAudit.Proofs.Grid.Reachable
import TimingAudit.Proofs.Run.ByRule

/-!
# A counter that started elsewhere

Windows are differences modulo `2 ^ 64`, so it does not matter where the counter started, nor whether
it turns over inside a window. Two executions are compared here whose readings are a constant number
of ticks apart: read for read, as far as both go. Early exit makes what comes next depend on what was
measured, so that the two have to be followed side by side: `Shifted` is what is kept, as a
`Lockstep` between computations that write a trace.

* `shifted_windows` : windows cancel the constant;
* `same_outcomes_of_offset` : sequences of runs, and sequences of calls on one grid.
-/

namespace TimingAudit

namespace Bench

/-! ## Later readings -/

/-- The same action with its reading `d` ticks later. -/
def Action.later (d : UInt64) : Action → Action
  | .opened ticks => .opened (ticks + d)
  | .called a b => .called a b
  | .closed ticks => .closed (ticks + d)

/-- Later readings do not change the calls. -/
theorem Action.calls_later (d : UInt64) (trace : List Action) :
    calls (trace.map (later d)) = calls trace := by
  rw [calls, calls, List.filterMap_map]
  congr 1
  funext action
  cases action <;> rfl

/-- Later readings are as many. -/
theorem Action.length_readings_later (d : UInt64) (trace : List Action) :
    (readings (trace.map (later d))).length = (readings trace).length := by
  have hreadings : readings (trace.map (later d)) = (readings trace).map (· + d) := by
    rw [readings, readings, List.filterMap_map, List.map_filterMap]
    congr 1
    funext action
    cases action <;> rfl
  rw [hreadings, List.length_map]

/-- A later window. -/
theorem map_later_windowTrace (d : UInt64) (a b : Int64) (repeats : Nat) (start stop : UInt64) :
    (windowTrace a b repeats start stop).map (Action.later d) =
      windowTrace a b repeats (start + d) (stop + d) := by
  simp [windowTrace, Action.later]

/-- Read for read, as far as both go, the second readings are `d` ticks later. -/
def Offset (d : UInt64) (readings₁ readings₂ : List UInt64) : Prop :=
  ∀ r ∈ readings₁.zip readings₂, r.2 = r.1 + d

instance (d : UInt64) (readings₁ readings₂ : List UInt64) :
    Decidable (Offset d readings₁ readings₂) :=
  -- The instance for lists by name, as one that goes through all words may be found before it.
  List.decidableBAll _ _

/-- The first readings of both. -/
theorem Offset.left {d : UInt64} {r₁ r₂ q₁ q₂ : List UInt64} (h : Offset d (r₁ ++ q₁) (r₂ ++ q₂)) :
    Offset d r₁ r₂ := by
  intro r hr
  obtain ⟨k, hk⟩ := List.mem_iff_getElem?.mp hr
  obtain ⟨hk₁, hk₂⟩ := List.getElem?_zip_eq_some.mp hk
  apply h r
  apply List.mem_of_getElem? (i := k)
  rw [List.getElem?_zip_eq_some, List.getElem?_append_left (List.getElem?_eq_some_iff.mp hk₁).1,
    List.getElem?_append_left (List.getElem?_eq_some_iff.mp hk₂).1]
  exact ⟨hk₁, hk₂⟩

/-- The last readings of both, behind as many others. -/
theorem Offset.right {d : UInt64} {r₁ r₂ q₁ q₂ : List UInt64} (hlength : r₁.length = r₂.length)
    (h : Offset d (r₁ ++ q₁) (r₂ ++ q₂)) : Offset d q₁ q₂ := by
  intro r hr
  apply h r
  rw [List.zip_append hlength]
  exact List.mem_append_right _ hr

end Bench

open Bench (Action Offset)

/-! ## Two executions side by side -/

variable {τ τ₁ τ₂ α β : Type}

/-- A computation that writes behind the trace and changes nothing of it. -/
def Extends (x : StateT (τ × List Action) Option α) : Prop :=
  ∀ ⦃s t a s' t'⦄, x (s, t) = some (a, (s', t')) → ∃ u, t' = t ++ u

/-- Two computations that return the same, and write the same actions with later readings, whenever
both return and the readings that they write are `d` ticks apart. -/
structure Shifted (d : UInt64) (x₁ : StateT (τ₁ × List Action) Option α)
    (x₂ : StateT (τ₂ × List Action) Option α) : Prop where
  extends₁ : Extends x₁
  extends₂ : Extends x₂
  agree : ∀ {s₁ t₁ u₁ a₁ s₁' s₂ t₂ u₂ a₂ s₂'},
    x₁ (s₁, t₁) = some (a₁, (s₁', t₁ ++ u₁)) → x₂ (s₂, t₂) = some (a₂, (s₂', t₂ ++ u₂)) →
    Offset d (Action.readings u₁) (Action.readings u₂) → a₁ = a₂ ∧ u₂ = u₁.map (Action.later d)

/-- Returning a value writes nothing. -/
theorem extends_pure (a : α) : Extends (pure a : StateT (τ × List Action) Option α) := by
  intro s t a' s' t' h
  cases h
  exact ⟨[], (List.append_nil t).symm⟩

/-- What is written by one computation after another stands in that order. -/
theorem Extends.bind_eq_some {x : StateT (τ × List Action) Option α}
    {f : α → StateT (τ × List Action) Option β} (hx : Extends x) (hf : ∀ a, Extends (f a))
    {s s' : τ} {t t' : List Action} {b : β} (h : (x >>= f) (s, t) = some (b, (s', t'))) :
    ∃ a s₁ u v, x (s, t) = some (a, (s₁, t ++ u)) ∧
      f a (s₁, t ++ u) = some (b, (s', (t ++ u) ++ v)) ∧ t' = t ++ (u ++ v) := by
  obtain ⟨⟨a, s₁, t₁⟩, hfirst, hsecond⟩ := Option.bind_eq_some_iff.mp h
  obtain ⟨u, rfl⟩ := hx hfirst
  obtain ⟨v, rfl⟩ := hf a hsecond
  exact ⟨a, s₁, u, v, hfirst, hsecond, List.append_assoc t u v⟩

/-- One computation after another. -/
theorem Extends.bind {x : StateT (τ × List Action) Option α}
    {f : α → StateT (τ × List Action) Option β} (hx : Extends x) (hf : ∀ a, Extends (f a)) :
    Extends (x >>= f) := by
  intro s t b s' t' h
  obtain ⟨a, s₁, u, v, -, -, ht'⟩ := hx.bind_eq_some hf h
  exact ⟨u ++ v, ht'⟩

/-- **Side by side.** Computations with later readings go on as such: the first parts agree, so that
they have read the counter equally often and the second parts begin with the same value. -/
def Lockstep.shifted (d : UInt64) (τ₁ τ₂ : Type) :
    Lockstep (StateT (τ₁ × List Action) Option) (StateT (τ₂ × List Action) Option) where
  rel := Shifted d
  pure a := by
    refine ⟨extends_pure a, extends_pure a, ?_⟩
    intro s₁ t₁ u₁ a₁ s₁' s₂ t₂ u₂ a₂ s₂' h₁ h₂ _
    obtain ⟨rfl, -, ht₁⟩ : a = a₁ ∧ s₁ = s₁' ∧ t₁ = t₁ ++ u₁ := by simpa using Option.some.inj h₁
    obtain ⟨rfl, -, ht₂⟩ : a = a₂ ∧ s₂ = s₂' ∧ t₂ = t₂ ++ u₂ := by simpa using Option.some.inj h₂
    rw [List.self_eq_append_right.mp ht₁, List.self_eq_append_right.mp ht₂]
    exact ⟨rfl, rfl⟩
  bind := by
    intro α β x₁ x₂ f₁ f₂ hx hf
    refine ⟨hx.extends₁.bind fun a => (hf a).extends₁, hx.extends₂.bind fun a => (hf a).extends₂, ?_⟩
    intro s₁ t₁ w₁ b₁ s₁' s₂ t₂ w₂ b₂ s₂' h₁ h₂ hoffset
    obtain ⟨a₁, r₁, u₁, v₁, hfirst₁, hsecond₁, htrace₁⟩ :=
      hx.extends₁.bind_eq_some (fun a => (hf a).extends₁) h₁
    obtain ⟨a₂, r₂, u₂, v₂, hfirst₂, hsecond₂, htrace₂⟩ :=
      hx.extends₂.bind_eq_some (fun a => (hf a).extends₂) h₂
    obtain rfl := List.append_cancel_left htrace₁
    obtain rfl := List.append_cancel_left htrace₂
    rw [Action.readings_append, Action.readings_append] at hoffset
    obtain ⟨rfl, rfl⟩ := hx.agree hfirst₁ hfirst₂ hoffset.left
    have hlength := Action.length_readings_later d u₁
    obtain ⟨rfl, rfl⟩ := (hf a₁).agree hsecond₁ hsecond₂ (hoffset.right hlength.symm)
    exact ⟨rfl, List.map_append.symm⟩

/-- Where there is no value nothing is written. -/
theorem shifted_lifts (d : UInt64) (τ₁ τ₂ : Type) : (Lockstep.shifted d τ₁ τ₂).Lifts := by
  apply Lockstep.lifts_of_none
  intro α
  refine ⟨?_, ?_, ?_⟩
  · intro s t a s' t' h
    cases h
  · intro s t a s' t' h
    cases h
  · intro s₁ t₁ u₁ a₁ s₁' s₂ t₂ u₂ a₂ s₂' h₁
    cases h₁

/-- **A constant cancels in a window,** also if the counter turns over inside it. -/
theorem shifted_windows (d : UInt64) (b₁ : Bench (StateT τ₁ Option)) (b₂ : Bench (StateT τ₂ Option)) :
    (Lockstep.shifted d τ₁ τ₂).Windows b₁.traced b₂.traced := by
  intro a b repeats
  refine ⟨?_, ?_, ?_⟩
  · intro s t clocks s' t' h
    obtain ⟨start, stop, -, ht'⟩ := Bench.measure_traced_eq_some h
    exact ⟨_, ht'⟩
  · intro s t clocks s' t' h
    obtain ⟨start, stop, -, ht'⟩ := Bench.measure_traced_eq_some h
    exact ⟨_, ht'⟩
  · intro s₁ t₁ u₁ clocks₁ s₁' s₂ t₂ u₂ clocks₂ s₂' h₁ h₂ hoffset
    obtain ⟨start₁, stop₁, rfl, htrace₁⟩ := Bench.measure_traced_eq_some h₁
    obtain ⟨start₂, stop₂, rfl, htrace₂⟩ := Bench.measure_traced_eq_some h₂
    obtain rfl := List.append_cancel_left htrace₁
    obtain rfl := List.append_cancel_left htrace₂
    rw [Bench.readings_windowTrace, Bench.readings_windowTrace] at hoffset
    have hstart : start₂ = start₁ + d := hoffset (start₁, start₂) (by simp)
    have hstop : stop₂ = stop₁ + d := hoffset (stop₁, stop₂) (by simp)
    rw [hstart, hstop, Bench.map_later_windowTrace]
    exact ⟨by grind, rfl⟩

/-- Two executions from an empty trace, of computations whose values are worked on at the end. -/
theorem Shifted.map_agree {d : UInt64} {y₁ : StateT (τ₁ × List Action) Option α}
    {y₂ : StateT (τ₂ × List Action) Option α} (h : Shifted d y₁ y₂) (f : α → β)
    {s₁ s₁' : τ₁} {s₂ s₂' : τ₂} {t₁ t₂ : List Action} {o₁ o₂ : β}
    (h₁ : (f <$> y₁) (s₁, []) = some (o₁, (s₁', t₁)))
    (h₂ : (f <$> y₂) (s₂, []) = some (o₂, (s₂', t₂)))
    (hoffset : Offset d (Action.readings t₁) (Action.readings t₂)) :
    o₁ = o₂ ∧ t₂ = t₁.map (Action.later d) ∧ Action.calls t₂ = Action.calls t₁ ∧
      ∃ l, y₁ (s₁, []) = some (l, (s₁', t₁)) ∧ y₂ (s₂, []) = some (l, (s₂', t₂)) ∧ o₁ = f l := by
  rw [stateT_map] at h₁ h₂
  obtain ⟨⟨l₁, q₁⟩, hy₁, hpair₁⟩ := Option.map_eq_some_iff.mp h₁
  obtain ⟨⟨l₂, q₂⟩, hy₂, hpair₂⟩ := Option.map_eq_some_iff.mp h₂
  cases hpair₁
  cases hpair₂
  obtain ⟨rfl, rfl⟩ := h.agree hy₁ hy₂ hoffset
  exact ⟨rfl, rfl, Action.calls_later d t₁, l₁, hy₁, hy₂, rfl⟩

/-- **It does not matter where the counter started.** Two executions of the same requests from the
same source, or of the same calls on the same grid, on benches whose readings are `d` ticks apart
modulo `2 ^ 64`: they return the same, call the function under audit with the same arguments in the
same order, read the counter at the same points, and leave out the same samples, as their ledgers
are the same. -/
theorem same_outcomes_of_offset (d : UInt64) (b₁ : Bench (StateT τ₁ Option))
    (b₂ : Bench (StateT τ₂ Option)) {s₁ s₁' : τ₁} {s₂ s₂' : τ₂} {t₁ t₂ : List Action}
    (hoffset : Offset d (Action.readings t₁) (Action.readings t₂)) :
    (∀ {σ : Type} [RandomSource σ] (config : RunConfig) (requests : List Request) (source : σ)
        {o₁ o₂},
      config.performAll b₁.traced requests source (s₁, []) = some (o₁, (s₁', t₁)) →
      config.performAll b₂.traced requests source (s₂, []) = some (o₂, (s₂', t₂)) →
      o₁ = o₂ ∧ t₂ = t₁.map (Action.later d) ∧ Action.calls t₂ = Action.calls t₁ ∧
        ∃ l, config.performAllByRule b₁.traced requests source (s₁, []) = some (l, (s₁', t₁)) ∧
          config.performAllByRule b₂.traced requests source (s₂, []) = some (l, (s₂', t₂)) ∧
          o₁ = l.map RunConfig.withoutLedger) ∧
    (∀ {g : Grid}, g.Reachable → ∀ (cs : List Grid.PassCall) {o₁ o₂},
      Grid.convergeAll b₁.traced cs g (s₁, []) = some (o₁, (s₁', t₁)) →
      Grid.convergeAll b₂.traced cs g (s₂, []) = some (o₂, (s₂', t₂)) →
      o₁ = o₂ ∧ t₂ = t₁.map (Action.later d) ∧ Action.calls t₂ = Action.calls t₁ ∧
        ∃ l, Grid.convergeAllByRule b₁.traced cs g (s₁, []) = some (l, (s₁', t₁)) ∧
          Grid.convergeAllByRule b₂.traced cs g (s₂, []) = some (l, (s₂', t₂)) ∧
          o₁ = l.map (Except.map Grid.Ledger.final)) := by
  have hwindows := shifted_windows d b₁ b₂
  constructor
  · intro σ _ config requests source o₁ o₂ h₁ h₂
    have hshifted := Lockstep.performAllByRule hwindows (shifted_lifts d τ₁ τ₂) config requests source
    rw [RunConfig.performAll_eq_map_byRule] at h₁ h₂
    exact Shifted.map_agree hshifted _ h₁ h₂ hoffset
  · intro g hg cs o₁ o₂ h₁ h₂
    have hshifted := Lockstep.convergeAllByRule hwindows cs g
    rw [Grid.convergeAll_eq_map_byRule _ cs hg.wellFormed] at h₁ h₂
    exact Shifted.map_agree hshifted _ h₁ h₂ hoffset

/-- A counter that starts at 5 and one that starts 8 ticks before that, so that it turns over inside
the first window. Early exit leaves samples out, and one of the calls on the grid fails. -/
theorem same_outcomes_of_offset_turning_over :
    (∃ o s₁ s₂ t₁ t₂,
      (RunConfig.mk 2 2 1 (.earlyExit 0)).performAll (SimulatedClock.bench .comparison).total.traced
          [.single .small, .mixed [.small, .fixed]] (ByteCycle.ofList [1, 2, 4, 3, 5])
          (.stepping 5 3, []) = some (o, (s₁, t₁)) ∧
      (RunConfig.mk 2 2 1 (.earlyExit 0)).performAll (SimulatedClock.bench .comparison).total.traced
          [.single .small, .mixed [.small, .fixed]] (ByteCycle.ofList [1, 2, 4, 3, 5])
          (.stepping 18446744073709551613 3, []) = some (o, (s₂, t₂)) ∧
      (Action.readings t₂).take 2 = [18446744073709551613, 8] ∧
      Action.calls t₂ = Action.calls t₁) ∧
    (∃ o s₁ s₂ t₁ t₂,
      Grid.convergeAll (SimulatedClock.bench .comparison).total.traced
          [⟨.earlyExit 0, [⟨1, 2, .uniform⟩, ⟨2, 1, .uniform⟩], 2, 1⟩,
            ⟨.exhaustive, [⟨1, 2, .uniform⟩], 1, 1⟩] (Grid.blank 2 1)
          (.stepping 5 3, []) = some (o, (s₁, t₁)) ∧
      Grid.convergeAll (SimulatedClock.bench .comparison).total.traced
          [⟨.earlyExit 0, [⟨1, 2, .uniform⟩, ⟨2, 1, .uniform⟩], 2, 1⟩,
            ⟨.exhaustive, [⟨1, 2, .uniform⟩], 1, 1⟩] (Grid.blank 2 1)
          (.stepping 18446744073709551613 3, []) = some (o, (s₂, t₂)) ∧
      o.map Except.isOk = [true, false] ∧
      Action.calls t₂ = Action.calls t₁) := by
  constructor
  · have heval₁ : ((RunConfig.mk 2 2 1 (.earlyExit 0)).performAll
        (SimulatedClock.bench .comparison).total.traced
        [.single .small, .mixed [.small, .fixed]] (ByteCycle.ofList [1, 2, 4, 3, 5])
        (.stepping 5 3, [])).map (Action.readings ·.2.2) =
          some [5, 16, 19, 23, 26, 37, 40, 51, 54, 58, 61, 72] := by decide +kernel
    have heval₂ : ((RunConfig.mk 2 2 1 (.earlyExit 0)).performAll
        (SimulatedClock.bench .comparison).total.traced
        [.single .small, .mixed [.small, .fixed]] (ByteCycle.ofList [1, 2, 4, 3, 5])
        (.stepping 18446744073709551613 3, [])).map (Action.readings ·.2.2) =
          some [18446744073709551613, 8, 11, 15, 18, 29, 32, 43, 46, 50, 53, 64] := by
      decide +kernel
    obtain ⟨⟨o₁, s₁, t₁⟩, hrun₁, hread₁⟩ := Option.map_eq_some_iff.mp heval₁
    obtain ⟨⟨o₂, s₂, t₂⟩, hrun₂, hread₂⟩ := Option.map_eq_some_iff.mp heval₂
    have hoffset : Offset 18446744073709551608 (Action.readings t₁) (Action.readings t₂) := by
      rw [hread₁, hread₂]
      decide
    obtain ⟨rfl, -, hcalls, -⟩ :=
      (same_outcomes_of_offset _ _ _ hoffset).1 _ _ _ hrun₁ hrun₂
    exact ⟨o₁, s₁, s₂, t₁, t₂, hrun₁, hrun₂, by rw [hread₂]; rfl, hcalls⟩
  · have heval₁ : (Grid.convergeAll (SimulatedClock.bench .comparison).total.traced
        [⟨.earlyExit 0, [⟨1, 2, .uniform⟩, ⟨2, 1, .uniform⟩], 2, 1⟩,
          ⟨.exhaustive, [⟨1, 2, .uniform⟩], 1, 1⟩] (Grid.blank 2 1) (.stepping 5 3, [])).map
          (fun r => (r.1.map Except.isOk, Action.readings r.2.2)) =
            some ([true, false], [5, 16, 19, 23, 26, 37]) := by decide +kernel
    have heval₂ : (Grid.convergeAll (SimulatedClock.bench .comparison).total.traced
        [⟨.earlyExit 0, [⟨1, 2, .uniform⟩, ⟨2, 1, .uniform⟩], 2, 1⟩,
          ⟨.exhaustive, [⟨1, 2, .uniform⟩], 1, 1⟩] (Grid.blank 2 1)
        (.stepping 18446744073709551613 3, [])).map (Action.readings ·.2.2) =
          some [18446744073709551613, 8, 11, 15, 18, 29] := by decide +kernel
    obtain ⟨⟨o₁, s₁, t₁⟩, hrun₁, hpair₁⟩ := Option.map_eq_some_iff.mp heval₁
    obtain ⟨hok, hread₁⟩ := Prod.mk.inj hpair₁
    obtain ⟨⟨o₂, s₂, t₂⟩, hrun₂, hread₂⟩ := Option.map_eq_some_iff.mp heval₂
    have hoffset : Offset 18446744073709551608 (Action.readings t₁) (Action.readings t₂) := by
      rw [hread₁, hread₂]
      decide
    have hreach : (Grid.blank 2 1).Reachable := ⟨2, 1, Grid.blank 2 1, [], by decide, rfl⟩
    obtain ⟨rfl, -, hcalls, -⟩ :=
      (same_outcomes_of_offset _ _ _ hoffset).2 hreach _ hrun₁ hrun₂
    exact ⟨o₁, s₁, s₂, t₁, t₂, hrun₁, hrun₂, hok, hcalls⟩

end TimingAudit
