import TimingAudit.Bench
import Mathlib.Logic.Function.Iterate
import Mathlib.Tactic.Common

/-!
# Traces of a bench

What is done with a bench on a state can be written down beside its state: every read of the counter
with the ticks it showed, and every call of the function under audit with its arguments, in order.

On a bench that always answers, a window is two readings and a state behind it (`window`), and
measuring returns the difference of the two and leaves the trace of that window (`measure_traced`).
On a bench that may break off the same is said of a measurement that was returned
(`measure_traced_eq_some`).
-/

namespace TimingAudit.Bench

/-- Something done with a bench. -/
inductive Action
  /-- A window is opened at this reading. -/
  | opened (ticks : UInt64)
  /-- The function under audit is called. -/
  | called (a b : Int64)
  /-- A window is closed at this reading. -/
  | closed (ticks : UInt64)
deriving DecidableEq

/-- The calls of a trace, with their arguments. -/
def Action.calls (trace : List Action) : List (Int64 × Int64) :=
  trace.filterMap fun
    | .called a b => some (a, b)
    | _ => none

/-- The readings of a trace. -/
def Action.readings (trace : List Action) : List UInt64 :=
  trace.filterMap fun
    | .opened ticks => some ticks
    | .closed ticks => some ticks
    | .called _ _ => none

variable {n : Type → Type} [Monad n] {σ : Type}

/-- The bench that also writes down what is done with it, behind what has been done before. -/
def traced (bench : Bench (StateT σ n)) : Bench (StateT (σ × List Action) n) where
  opening := fun (s, trace) => do
    let (ticks, s) ← bench.opening s
    pure (ticks, (s, trace ++ [.opened ticks]))
  closing := fun (s, trace) => do
    let (ticks, s) ← bench.closing s
    pure (ticks, (s, trace ++ [.closed ticks]))
  call a b := fun (s, trace) => do
    let (_, s) ← bench.call a b s
    pure ((), (s, trace ++ [.called a b]))

/-- A bench that always answers, as one that may break off. -/
def total (bench : Bench (StateM σ)) : Bench (StateT σ Option) where
  opening := fun s => some (bench.opening s)
  closing := fun s => some (bench.closing s)
  call a b := fun s => some (bench.call a b s)

/-! ## The parts of a trace -/

namespace Action

@[simp] theorem calls_append (t t' : List Action) : calls (t ++ t') = calls t ++ calls t' := by
  simp [calls]

@[simp] theorem readings_append (t t' : List Action) :
    readings (t ++ t') = readings t ++ readings t' := by
  simp [readings]

end Action

/-- What one window leaves in a trace. -/
def windowTrace (a b : Int64) (repeats : Nat) (start stop : UInt64) : List Action :=
  .opened start :: (List.replicate repeats (.called a b) ++ [.closed stop])

/-- The calls of a window are all alike. -/
@[simp] theorem calls_windowTrace (a b : Int64) (repeats : Nat) (start stop : UInt64) :
    Action.calls (windowTrace a b repeats start stop) = List.replicate repeats (a, b) := by
  have hcalls : Action.calls (List.replicate repeats (.called a b)) =
      List.replicate repeats (a, b) :=
    List.filterMap_replicate_of_some rfl
  have hopened : ∀ t, Action.calls (.opened start :: t) = Action.calls t := fun t => rfl
  rw [windowTrace, hopened, Action.calls_append, hcalls]
  exact List.append_nil _

/-- A window reads the counter twice. -/
@[simp] theorem readings_windowTrace (a b : Int64) (repeats : Nat) (start stop : UInt64) :
    Action.readings (windowTrace a b repeats start stop) = [start, stop] := by
  have hcalls : Action.readings (List.replicate repeats (.called a b)) = [] :=
    List.filterMap_replicate_of_none rfl
  have hopened : ∀ t, Action.readings (.opened start :: t) = start :: Action.readings t :=
    fun t => rfl
  rw [windowTrace, hopened, Action.readings_append, hcalls]
  rfl

/-! ## Windows of a bench that always answers -/

/-- A timing window: its two readings, and the state that it leaves. -/
structure Window (σ : Type) where
  start : UInt64
  stop : UInt64
  state : σ

/-- The state after `count` calls in a row. -/
def calledTimes (bench : Bench (StateM σ)) (a b : Int64) (count : Nat) (s : σ) : σ :=
  (fun s => (bench.call a b s).2)^[count] s

/-- The window of an argument pair that is opened in a state: an opening read, `repeats` calls and a
closing read. -/
def window (bench : Bench (StateM σ)) (a b : Int64) (repeats : Nat) (s : σ) : Window σ :=
  let opened := bench.opening s
  let closed := bench.closing (bench.calledTimes a b repeats opened.2)
  ⟨opened.1, closed.1, closed.2⟩

/-- Calls in a row leave one entry each in a trace. -/
theorem calls_traced (bench : Bench (StateM σ)) (a b : Int64) (count : Nat) (s : σ)
    (trace : List Action) :
    bench.traced.calls a b count (s, trace) =
      ((), (bench.calledTimes a b count s, trace ++ List.replicate count (.called a b))) := by
  induction count generalizing s trace with
  | zero =>
      rw [List.replicate_zero, List.append_nil]
      rfl
  | succ count ih =>
      have hcall : bench.traced.calls a b (count + 1) (s, trace) =
          bench.traced.calls a b count ((bench.call a b s).2, trace ++ [.called a b]) := rfl
      rw [hcall, ih, List.append_assoc, List.replicate_succ]
      rfl

/-- Measuring returns the length of the window, and leaves its trace. -/
theorem measure_traced (bench : Bench (StateM σ)) (a b : Int64) (repeats : Nat) (s : σ)
    (trace : List Action) :
    bench.traced.measure a b repeats (s, trace) =
      let w := bench.window a b repeats s
      (w.stop - w.start, (w.state, trace ++ windowTrace a b repeats w.start w.stop)) := by
  have hcalls := bench.calls_traced a b repeats (bench.opening s).2
    (trace ++ [.opened (bench.opening s).1])
  have hmeasure : bench.traced.measure a b repeats (s, trace) =
      let called := bench.traced.calls a b repeats
        ((bench.opening s).2, trace ++ [.opened (bench.opening s).1])
      let closed := bench.closing called.2.1
      (closed.1 - (bench.opening s).1, (closed.2, called.2.2 ++ [.closed closed.1])) := rfl
  rw [hmeasure, hcalls]
  simp [window, windowTrace]

/-! ## Windows of a bench that may break off -/

/-- Calls in a row leave one entry each in a trace. -/
theorem calls_traced_eq_some {bench : Bench (StateT σ Option)} {a b : Int64} {count : Nat}
    {s s' : σ} {trace trace' : List Action} {u : Unit}
    (h : bench.traced.calls a b count (s, trace) = some (u, (s', trace'))) :
    trace' = trace ++ List.replicate count (.called a b) := by
  induction count generalizing s trace with
  | zero =>
      cases h
      rw [List.replicate_zero, List.append_nil]
  | succ count ih =>
      obtain ⟨⟨_, s₁, trace₁⟩, hcall, hcalls⟩ := Option.bind_eq_some_iff.mp h
      obtain ⟨_, _, hpair⟩ := Option.bind_eq_some_iff.mp hcall
      cases hpair
      rw [ih hcalls, List.append_assoc, List.replicate_succ]
      rfl

/-- Measuring returns the length of a window, and leaves its trace. -/
theorem measure_traced_eq_some {bench : Bench (StateT σ Option)} {a b : Int64} {repeats : Nat}
    {s s' : σ} {trace trace' : List Action} {clocks : UInt64}
    (h : bench.traced.measure a b repeats (s, trace) = some (clocks, (s', trace'))) :
    ∃ start stop, clocks = stop - start ∧
      trace' = trace ++ windowTrace a b repeats start stop := by
  obtain ⟨⟨start, s₁, trace₁⟩, hopening, hrest⟩ := Option.bind_eq_some_iff.mp h
  obtain ⟨_, _, hpair⟩ := Option.bind_eq_some_iff.mp hopening
  cases hpair
  obtain ⟨⟨_, s₂, trace₂⟩, hcalls, hrest⟩ := Option.bind_eq_some_iff.mp hrest
  obtain ⟨⟨stop, s₃, trace₃⟩, hclosing, hlength⟩ := Option.bind_eq_some_iff.mp hrest
  obtain ⟨_, _, hpair⟩ := Option.bind_eq_some_iff.mp hclosing
  cases hpair
  cases hlength
  refine ⟨_, _, rfl, ?_⟩
  rw [calls_traced_eq_some hcalls]
  simp [windowTrace]

end TimingAudit.Bench
