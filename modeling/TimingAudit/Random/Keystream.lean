import TimingAudit.Random.ChaCha
import TimingAudit.Random.Source

/-!
# The seeded random source

The words of the ChaCha20 blocks of one key, read from the start. The key is either given or spread
out from a 64-bit seed by a linear congruential generator with permuted output. Every draw takes
whole words: one for a byte or a 32-bit word, two for a 64-bit word.
-/

namespace TimingAudit

/-- A position in the words of a key. -/
structure Keystream where
  key : ChaCha.Key
  position : Nat

namespace Keystream

/-- One step of the generator that spreads a seed. -/
def spread (state : UInt64) : UInt64 := state * 6364136223846793005 + 11634580027462260723

/-- Rotates a word to the right. -/
def rotateRight (x : UInt32) (n : UInt32) : UInt32 := (x >>> n) ||| (x <<< (32 - n))

/-- The key word that a state of the spreading generator stands for. -/
def keyWord (state : UInt64) : UInt32 :=
  rotateRight (((state >>> 18) ^^^ state) >>> 27).toUInt32 (state >>> 59).toUInt32

/-- The key of a seed. -/
def keyOfSeed (seed : UInt64) : ChaCha.Key :=
  let s0 := spread seed
  let s1 := spread s0
  let s2 := spread s1
  let s3 := spread s2
  let s4 := spread s3
  let s5 := spread s4
  let s6 := spread s5
  let s7 := spread s6
  #v[keyWord s0, keyWord s1, keyWord s2, keyWord s3, keyWord s4, keyWord s5, keyWord s6, keyWord s7]

/-- The words of a key, from the start. -/
def ofKey (key : ChaCha.Key) : Keystream := ⟨key, 0⟩

/-- The words of a seed, from the start. -/
def ofSeed (seed : UInt64) : Keystream := ofKey (keyOfSeed seed)

/-- The next word. -/
def current (s : Keystream) : UInt32 := ChaCha.word s.key s.position

/-- The stream after `n` more words. -/
def advance (s : Keystream) (n : Nat) : Keystream := { s with position := s.position + n }

/-- The next two words, the first one in the low half. -/
def current64 (s : Keystream) : UInt64 :=
  s.current.toUInt64 ||| ((s.advance 1).current.toUInt64 <<< 32)

/-- The next word, and the stream behind it. -/
def nextWord (s : Keystream) : UInt32 × Keystream := (s.current, s.advance 1)

/-- The words of a stream are at the positions one after another. -/
theorem wordAt_nextWord (i : Nat) (s : Keystream) :
    RandomSource.wordAt nextWord i s = ChaCha.word s.key (s.position + i) := by
  induction i generalizing s with
  | zero => rfl
  | succ i ih =>
    have hposition : s.position + (i + 1) = s.position + 1 + i := by omega
    rw [hposition]
    exact ih (s.advance 1)

/-- The words come round after `2 ^ 64` blocks of sixteen. -/
instance : RandomSource Keystream where
  byte s := (s.current.toUInt8, s.advance 1)
  word32 := nextWord
  word64 s := (s.current64, s.advance 2)
  period _ := 0x100000000000000000
  shown_within_period s i := by
    refine ⟨i % 0x100000000000000000, Nat.mod_lt _ (by decide), ?_⟩
    rw [wordAt_nextWord, wordAt_nextWord, ← ChaCha.word_mod, Nat.add_mod_mod, ChaCha.word_mod]

end Keystream

end TimingAudit
