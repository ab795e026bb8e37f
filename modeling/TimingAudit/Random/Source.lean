/-!
# Random sources

A random source answers draws of a byte, a 32-bit word and a 64-bit word. What a draw costs is the
source's own affair. An index below `n` is chosen by rejection: a word is accepted if the low half
of its product with `n` falls into a zone that gives every index the same number of words. Words are
drawn until one is accepted, so on a source that never shows such a word the choice does not end. There
are finitely many words, so after some draws a source has shown all that it will ever show, and then
this can be told.
-/

namespace TimingAudit

/-- The `i`-th of the words that are drawn one after another. -/
def RandomSource.wordAt {σ : Type} (word32 : σ → UInt32 × σ) : Nat → σ → UInt32
  | 0, s => (word32 s).1
  | i + 1, s => wordAt word32 i (word32 s).2

/-- A state from which random bytes and words can be drawn. -/
class RandomSource (σ : Type) where
  /-- Draws one byte. -/
  byte : σ → UInt8 × σ
  /-- Draws a 32-bit word. -/
  word32 : σ → UInt32 × σ
  /-- Draws a 64-bit word. -/
  word64 : σ → UInt64 × σ
  /-- A number of 32-bit draws. -/
  period : σ → Nat
  /-- Within its period the source has shown every word that it will ever show. -/
  shown_within_period : ∀ s i, ∃ j < period s,
    RandomSource.wordAt word32 j s = RandomSource.wordAt word32 i s

namespace RandomSource

/-- The number of 32-bit words. -/
def wordCount32 : Nat := 0x100000000

/-- The number of leading zero bits of `n` as a 32-bit word. -/
def leadingZeros32 (n : Nat) : Nat := if n = 0 then 32 else 31 - n.log2

/-- The largest low half that is accepted when choosing among `n`. -/
def zone (n : Nat) : Nat := n <<< leadingZeros32 n - 1

/-- Whether a word decides a choice among `n`. -/
def Accepts (n : Nat) (v : UInt32) : Prop := v.toNat * n % wordCount32 ≤ zone n

instance (n : Nat) (v : UInt32) : Decidable (Accepts n v) :=
  inferInstanceAs (Decidable (_ ≤ _))

/-- The index that a word stands for in a choice among `n`. -/
def indexOf (n : Nat) (v : UInt32) : Nat := v.toNat * n / wordCount32

/-- A word stands for an index in range. -/
theorem indexOf_lt {n : Nat} (hn : 0 < n) (v : UInt32) : indexOf n v < n := by
  unfold indexOf
  rw [Nat.div_lt_iff_lt_mul (by decide)]
  rw [Nat.mul_comm n]
  exact Nat.mul_lt_mul_of_pos_right v.toNat_lt hn

variable {σ : Type} [RandomSource σ]

/-- Draws words until one is accepted, `limit` of them at most. -/
def chooseWithin (n : Nat) : Nat → σ → Option (Nat × σ)
  | 0, _ => none
  | limit + 1, s =>
    let (v, s) := word32 s
    if Accepts n v then some (indexOf n v, s) else chooseWithin n limit s

/-- Chooses an index below `n`: draws words until one is accepted. There is no result if this does not
end, which is so if no word of a whole period is accepted. -/
def choose (n : Nat) (s : σ) : Option (Nat × σ) := chooseWithin n (period s) s

theorem chooseWithin_succ (n limit : Nat) (s : σ) :
    chooseWithin n (limit + 1) s =
      if Accepts n (word32 s).1 then some (indexOf n (word32 s).1, (word32 s).2)
      else chooseWithin n limit (word32 s).2 := rfl

/-- Nothing is chosen if all words up to the limit are rejected. -/
theorem chooseWithin_eq_none_iff {n limit : Nat} {s : σ} :
    chooseWithin n limit s = none ↔ ∀ i < limit, ¬ Accepts n (wordAt word32 i s) := by
  induction limit generalizing s with
  | zero => exact iff_of_true rfl nofun
  | succ limit ih =>
    rw [chooseWithin_succ]
    by_cases hv : Accepts n (word32 s).1
    · rw [if_pos hv]
      exact iff_of_false nofun fun h => h 0 (Nat.succ_pos _) hv
    · rw [if_neg hv, ih]
      constructor
      · intro h i hi
        cases i with
        | zero => exact hv
        | succ i => exact h i (Nat.lt_of_succ_lt_succ hi)
      · intro h i hi
        exact h (i + 1) (Nat.succ_lt_succ hi)

/-- **A choice that does not end** is one for which no word is ever accepted. -/
theorem choose_eq_none_iff {n : Nat} {s : σ} :
    choose n s = none ↔ ∀ i, ¬ Accepts n (wordAt word32 i s) := by
  rw [choose, chooseWithin_eq_none_iff]
  constructor
  · intro h i
    obtain ⟨j, hj, hword⟩ := shown_within_period s i
    rw [← hword]
    exact h j hj
  · intro h i _
    exact h i

end RandomSource

end TimingAudit
