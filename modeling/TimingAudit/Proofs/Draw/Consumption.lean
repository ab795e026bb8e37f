import TimingAudit.Draw
import TimingAudit.Proofs.Outcome
import TimingAudit.Random.Keystream

/-!
# How many words a draw takes

The seeded source is a stream of words, and a draw takes words from its front. How many of them it
takes is decided by the class alone. A coin says on which side a value stands, and not whether it is
drawn, and two values change places only when both have been drawn; so neither a coin nor a
comparison shows in the number of words. The class `fixed` takes none at all.

What the next draws return therefore depends on the draws before them through the sum of their costs
only, and draws that cost nothing may be left out.

* `takes_pair`, `takes_inputsOnto` : the cost of a class, and of many inputs of it;
* `takes_drawAll` : the cost of any calls in a row;
* `filter_inTurn` : the inputs of a list of classes without the class `fixed`.
-/

namespace TimingAudit

/-- The number of words that a pair of the class costs. -/
def InputClass.words : InputClass → Nat
  | .uniform | .xlty | .yltx => 4
  | .max64 | .umax64 | .zero => 3
  | .equal | .xzero | .yzero | .small => 2
  | .fixed => 0

theorem Keystream.advance_advance (s : Keystream) (n n' : Nat) :
    (s.advance n).advance n' = s.advance (n + n') := by
  simp [advance, Nat.add_assoc]

namespace Draw

/-! ## The cost of a class -/

section Takes

variable {α β : Type}

/-- Whatever it returns, the draw takes `n` words. -/
def Takes (n : Nat) (x : StateM Keystream α) : Prop := ∀ s, (x s).2 = s.advance n

theorem Takes.pure (a : α) : Takes 0 (Pure.pure a) := by
  intro s
  rfl

/-- One draw after another: the second one must cost the same whatever the first one returns. -/
theorem Takes.bind {n n' : Nat} {x : StateM Keystream α} {f : α → StateM Keystream β}
    (hx : Takes n x) (hf : ∀ a, Takes n' (f a)) : Takes (n + n') (x >>= f) := by
  intro s
  rw [stateM_bind, hf, hx, Keystream.advance_advance]

/-- What is returned may be worked on for free. -/
theorem Takes.map {n : Nat} {x : StateM Keystream α} (f : α → β) (hx : Takes n x) :
    Takes n (x >>= fun a => Pure.pure (f a)) :=
  hx.bind fun a => Takes.pure (f a)

end Takes

theorem takes_value64 : Takes 2 value64 := by
  intro s
  rfl

theorem takes_value8 : Takes 1 value8 := by
  intro s
  rfl

theorem takes_coin : Takes 1 coin := by
  intro s
  rfl

/-- Both sides of the coin lead to one value more. -/
theorem takes_oneSideFixed (fixed : Int64) : Takes 3 (oneSideFixed fixed) :=
  takes_coin.bind fun left => takes_value64.map fun v => if left then (v, fixed) else (fixed, v)

theorem takes_valuePair : Takes 4 valuePair :=
  takes_value64.bind fun a => takes_value64.map fun b => (a, b)

/-- **The cost of a class**, whatever pair is drawn. -/
theorem takes_pair (k : InputClass) : Takes k.words (pair k) := by
  cases k with
  | uniform => exact takes_valuePair
  | equal => exact takes_value64.map fun a => (a, a)
  | max64 => exact takes_oneSideFixed _
  | umax64 => exact takes_oneSideFixed _
  | zero => exact takes_oneSideFixed _
  | xzero => exact takes_value64.map fun b => (0, b)
  | yzero => exact takes_value64.map fun a => (a, 0)
  -- Both values have been drawn when they are compared.
  | xlty => exact takes_valuePair.map fun p => if p.2 < p.1 then (p.2, p.1) else (p.1, p.2)
  | yltx => exact takes_valuePair.map fun p => if p.1 < p.2 then (p.2, p.1) else (p.1, p.2)
  | small => exact takes_value8.bind fun a => takes_value8.map fun b => (a, b)
  | fixed => exact Takes.pure _

/-- A tag costs nothing. -/
theorem takes_input (k : InputClass) : Takes k.words (input k) :=
  (takes_pair k).map fun p => Input.mk p.1 p.2 k

/-- Many inputs of a class. -/
theorem takes_inputsOnto (k : InputClass) (n : Nat) :
    ∀ drawn : Array Input, Takes (n * k.words) (inputsOnto k n drawn) := by
  induction n with
  | zero =>
      intro drawn
      rw [Nat.zero_mul]
      exact Takes.pure drawn
  | succ n ih =>
      intro drawn
      rw [Nat.succ_mul, Nat.add_comm]
      exact (takes_input k).bind fun x => ih (drawn.push x)

/-! ## Calls in a row -/

/-- A call that draws: a pair of a class, or a pair with its tag. -/
inductive Call
  | pair (k : InputClass)
  | input (k : InputClass)

/-- The number of words that a call costs. -/
def Call.words : Call → Nat
  | .pair k => k.words
  | .input k => k.words

section Calls

variable {σ : Type} [RandomSource σ]

/-- Carries out a call. -/
def Call.draw : Call → StateM σ ((Int64 × Int64) ⊕ Input)
  | .pair k => Draw.pair k >>= fun p => pure (.inl p)
  | .input k => Draw.input k >>= fun x => pure (.inr x)

/-- Carries out calls one after another. -/
def drawAll : List Call → StateM σ (List ((Int64 × Int64) ⊕ Input))
  | [] => pure []
  | call :: calls => do
    let result ← call.draw
    let results ← drawAll calls
    pure (result :: results)

end Calls

/-- The number of words that calls cost together. -/
def totalWords : List Call → Nat
  | [] => 0
  | call :: calls => call.words + totalWords calls

/-- **One call** takes the words that it costs. -/
theorem Call.takes_draw (call : Call) : Takes call.words call.draw := by
  cases call with
  | pair k => exact (takes_pair k).map Sum.inl
  | input k => exact (takes_input k).map Sum.inr

/-- **Calls in a row** take the words that they cost together. -/
theorem takes_drawAll (calls : List Call) : Takes (totalWords calls) (drawAll calls) := by
  induction calls with
  | nil => exact Takes.pure []
  | cons call calls ih =>
      exact call.takes_draw.bind fun result => ih.map fun results => result :: results

/-! ## Classes in turn -/

/-- The classes of a list, each with the inputs that are drawn for it, `count` of them, from the
source that the class before it has left. -/
def inTurn {σ : Type} [RandomSource σ] (count : Nat) :
    List InputClass → σ → List (InputClass × Array Input)
  | [], _ => []
  | k :: ks, s =>
    let drawn := inputsOnto k count #[] s
    (k, drawn.1) :: inTurn count ks drawn.2

/-- A class that costs nothing leaves the source as it is. -/
theorem source_inputsOnto_fixed (count : Nat) (s : Keystream) :
    (inputsOnto .fixed count #[] s).2 = s :=
  takes_inputsOnto .fixed count #[] s

/-- **Without the class `fixed`** the inputs of all other classes are the same. -/
theorem filter_inTurn (count : Nat) (ks : List InputClass) (s : Keystream) :
    (inTurn count ks s).filter (fun run => run.1 ≠ .fixed) =
      inTurn count (ks.filter (· ≠ .fixed)) s := by
  induction ks generalizing s with
  | nil => rfl
  | cons k ks ih =>
      by_cases hk : k = .fixed
      · subst hk
        rw [inTurn, List.filter_cons_of_neg (by simp), List.filter_cons_of_neg (by simp), ih,
          source_inputsOnto_fixed]
      · rw [inTurn, List.filter_cons_of_pos (by simpa using hk),
          List.filter_cons_of_pos (by simpa using hk), ih, inTurn]

end Draw

end TimingAudit
