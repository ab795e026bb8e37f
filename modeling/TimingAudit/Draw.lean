import TimingAudit.ClassQueue
import TimingAudit.Random.Source

/-!
# Drawing inputs

The rule of every input class, as a computation on a random source. A mixed draw first chooses one of
several classes, with equal shares, and then follows its rule. The choice may go on for ever, and then
there is no result.
-/

namespace TimingAudit

/-- An argument pair, tagged with the class it was drawn from. -/
structure Input where
  a : Int64
  b : Int64
  kind : InputClass
deriving DecidableEq

namespace Draw

variable {σ : Type} [RandomSource σ]

/-- A random signed 64-bit value. -/
def value64 : StateM σ Int64 := fun s =>
  let (w, s) := RandomSource.word64 s
  (w.toInt64, s)

/-- A random byte as a value. -/
def value8 : StateM σ Int64 := fun s =>
  let (w, s) := RandomSource.byte s
  (w.toUInt64.toInt64, s)

/-- A fair coin. -/
def coin : StateM σ Bool := fun s =>
  let (w, s) := RandomSource.word32 s
  (decide (0x7FFFFFFF < w), s)

/-- One side is `fixed`; a coin says which one, and the other side is random. -/
def oneSideFixed (fixed : Int64) : StateM σ (Int64 × Int64) := do
  let left ← coin
  let v ← value64
  pure (if left then (v, fixed) else (fixed, v))

/-- Two random values, the first one drawn standing first. -/
def valuePair : StateM σ (Int64 × Int64) := do
  let a ← value64
  let b ← value64
  pure (a, b)

/-- Draws an argument pair by the rule of a class. -/
def pair : InputClass → StateM σ (Int64 × Int64)
  | .uniform => valuePair
  | .equal => do
    let a ← value64
    pure (a, a)
  | .max64 => oneSideFixed Int64.maxValue
  | .umax64 => oneSideFixed (-1)
  | .zero => oneSideFixed 0
  | .xzero => do
    let b ← value64
    pure (0, b)
  | .yzero => do
    let a ← value64
    pure (a, 0)
  | .xlty => do
    let (a, b) ← valuePair
    pure (if b < a then (b, a) else (a, b))
  | .yltx => do
    let (a, b) ← valuePair
    pure (if a < b then (b, a) else (a, b))
  | .small => do
    let a ← value8
    let b ← value8
    pure (a, b)
  | .fixed => pure (fixedValue, fixedValue)

/-- Draws an input of a class. -/
def input (k : InputClass) : StateM σ Input := do
  let (a, b) ← pair k
  pure ⟨a, b, k⟩

/-- A draw that always ends, as one that may not. -/
def total {α : Type} (draw : StateM σ α) : StateT σ Option α := fun s => some (draw s)

/-- Chooses one of the classes. -/
def choice (kinds : List InputClass) : StateT σ Option (Option InputClass) := fun s =>
  match kinds with
  | [] => some (none, s)
  | k :: ks => do
    let (i, s) ← RandomSource.choose (k :: ks).length s
    some (some ((k :: ks).getD i k), s)

/-- Draws an input of a class chosen among `kinds`, in which repeated classes count as often as they
occur. -/
def mixed (kinds : List InputClass) : StateT σ Option (Except Failure Input) := do
  match ← choice kinds with
  | none => pure (.error .noClasses)
  | some k =>
    let x ← total (input k)
    pure (.ok x)

/-- Draws `n` inputs of a class behind those already drawn. -/
def inputsOnto (k : InputClass) : Nat → Array Input → StateM σ (Array Input)
  | 0, drawn => pure drawn
  | n + 1, drawn => do
    let x ← input k
    inputsOnto k n (drawn.push x)

/-- Draws `n` mixed inputs behind those already drawn. -/
def mixedOnto (kinds : List InputClass) :
    Nat → Array Input → StateT σ Option (Except Failure (Array Input))
  | 0, drawn => pure (.ok drawn)
  | n + 1, drawn => do
    match ← mixed kinds with
    | .error f => pure (.error f)
    | .ok x => mixedOnto kinds n (drawn.push x)

end Draw

end TimingAudit
