import TimingAudit.Random.Source

/-!
# A random source of given bytes

A fixed list of bytes that is read again and again. Words take the next bytes, the lowest first. With
a chosen list every sequence of draws can be brought about.
-/

namespace TimingAudit

/-- A position in a list of bytes that repeats for ever. -/
structure ByteCycle where
  bytes : Array UInt8
  position : Nat

namespace ByteCycle

/-- The byte `i` places ahead, zero if there are no bytes at all. -/
def peek (s : ByteCycle) (i : Nat) : UInt8 :=
  s.bytes.getD ((s.position + i) % s.bytes.size) 0

/-- The cycle `n` bytes further on. -/
def advance (s : ByteCycle) (n : Nat) : ByteCycle := { s with position := s.position + n }

/-- The number whose `n` lowest bytes are the next ones, the lowest first. -/
def littleEndian (s : ByteCycle) : Nat → Nat
  | 0 => 0
  | n + 1 => s.littleEndian n + (s.peek n).toNat <<< (8 * n)

/-- The cycle from the start of its bytes. -/
def ofList (bytes : List UInt8) : ByteCycle := ⟨bytes.toArray, 0⟩

/-- The next four bytes as a word, and the cycle behind them. -/
def nextWord (s : ByteCycle) : UInt32 × ByteCycle := ((s.littleEndian 4).toUInt32, s.advance 4)

/-- The words of a cycle take four bytes each. -/
theorem wordAt_nextWord (i : Nat) (s : ByteCycle) :
    RandomSource.wordAt nextWord i s = ((s.advance (4 * i)).littleEndian 4).toUInt32 := by
  induction i generalizing s with
  | zero => rfl
  | succ i ih =>
    have hadvance : (s.advance 4).advance (4 * i) = s.advance (4 * (i + 1)) := by
      unfold advance
      rw [Nat.add_assoc, Nat.mul_succ, Nat.add_comm 4]
    rw [← hadvance, ← ih (s.advance 4)]
    rfl

/-- What comes next repeats with the number of bytes, or at once if there are none. -/
theorem littleEndian_advance_mod (s : ByteCycle) (i n : Nat) :
    (s.advance (4 * (i % max s.bytes.size 1))).littleEndian n =
      (s.advance (4 * i)).littleEndian n := by
  have hpeek : ∀ j, (s.advance (4 * (i % max s.bytes.size 1))).peek j =
      (s.advance (4 * i)).peek j := by
    intro j
    unfold peek advance
    rcases Nat.eq_zero_or_pos s.bytes.size with hsize | hsize
    · have hnone : ∀ p, s.bytes.getD p 0 = 0 := by
        intro p
        rw [Array.getD, dif_neg (by omega)]
      exact (hnone _).trans (hnone _).symm
    · rw [Nat.max_eq_left hsize]
      congr 1
      show (s.position + 4 * (i % s.bytes.size) + j) % s.bytes.size =
        (s.position + 4 * i + j) % s.bytes.size
      simp only [Nat.add_mod, Nat.mul_mod, Nat.mod_mod]
  induction n with
  | zero => rfl
  | succ n ih => rw [littleEndian, littleEndian, ih, hpeek]

/-- Positions repeat modulo the number of bytes. -/
instance : RandomSource ByteCycle where
  byte s := (s.peek 0, s.advance 1)
  word32 := nextWord
  word64 s := ((s.littleEndian 8).toUInt64, s.advance 8)
  period s := max s.bytes.size 1
  shown_within_period s i := by
    refine ⟨i % max s.bytes.size 1, Nat.mod_lt _ (by omega), ?_⟩
    rw [wordAt_nextWord, wordAt_nextWord, littleEndian_advance_mod]

end ByteCycle

end TimingAudit
