/-!
# The ChaCha20 block function

Sixteen 32-bit words, twenty rounds of quarter rounds on columns and diagonals, and the sum with the
starting state. The block counter has 64 bits and the last two words are zero.
-/

namespace TimingAudit.ChaCha

/-- The sixteen words that the rounds work on. -/
abbrev State := Vector UInt32 16

/-- The eight key words. -/
abbrev Key := Vector UInt32 8

/-- Rotates a word to the left. -/
def rotateLeft (x : UInt32) (n : UInt32) : UInt32 := (x <<< n) ||| (x >>> (32 - n))

/-- Mixes four words of the state. -/
def quarterRound (v : State) (a b c d : Fin 16) : State :=
  let v := v.set a (v[a] + v[b])
  let v := v.set d (rotateLeft (v[d] ^^^ v[a]) 16)
  let v := v.set c (v[c] + v[d])
  let v := v.set b (rotateLeft (v[b] ^^^ v[c]) 12)
  let v := v.set a (v[a] + v[b])
  let v := v.set d (rotateLeft (v[d] ^^^ v[a]) 8)
  let v := v.set c (v[c] + v[d])
  v.set b (rotateLeft (v[b] ^^^ v[c]) 7)

/-- One round on the columns and one on the diagonals. -/
def doubleRound (v : State) : State :=
  let v := quarterRound v 0 4 8 12
  let v := quarterRound v 1 5 9 13
  let v := quarterRound v 2 6 10 14
  let v := quarterRound v 3 7 11 15
  let v := quarterRound v 0 5 10 15
  let v := quarterRound v 1 6 11 12
  let v := quarterRound v 2 7 8 13
  quarterRound v 3 4 9 14

/-- `n` double rounds. -/
def doubleRounds : Nat → State → State
  | 0, v => v
  | n + 1, v => doubleRounds n (doubleRound v)

/-- The starting state of the block with the given number: the words of "expand 32-byte k", the key,
and the block number in two words. -/
def start (key : Key) (number : Nat) : State :=
  #v[0x61707865, 0x3320646e, 0x79622d32, 0x6b206574,
    key[0], key[1], key[2], key[3], key[4], key[5], key[6], key[7],
    number.toUInt32, (number / 0x100000000).toUInt32, 0, 0]

/-- The block with the given number. -/
def block (key : Key) (number : Nat) : State :=
  let v := start key number
  Vector.zipWith (· + ·) (doubleRounds 10 v) v

/-- The word at a position of the concatenated blocks. -/
def word (key : Key) (position : Nat) : UInt32 :=
  (block key (position / 16))[position % 16]

/-- The block number is a 64-bit word: it comes round after `2 ^ 64` blocks. -/
theorem start_mod (key : Key) (number : Nat) :
    start key (number % 0x10000000000000000) = start key number := by
  have hlow : (number % 0x10000000000000000).toUInt32 = number.toUInt32 := by
    rw [← UInt32.toNat_inj, UInt32.toNat_ofNat', UInt32.toNat_ofNat']
    omega
  have hhigh : (number % 0x10000000000000000 / 0x100000000).toUInt32 =
      (number / 0x100000000).toUInt32 := by
    rw [← UInt32.toNat_inj, UInt32.toNat_ofNat', UInt32.toNat_ofNat']
    omega
  rw [start, start, hlow, hhigh]

/-- Words come round with the blocks, of which each has sixteen. -/
theorem word_mod (key : Key) (position : Nat) :
    word key (position % 0x100000000000000000) = word key position := by
  have hnumber : position % 0x100000000000000000 / 16 = position / 16 % 0x10000000000000000 := by
    omega
  have hplace : position % 0x100000000000000000 % 16 = position % 16 := by omega
  unfold word
  simp only [hnumber, hplace, block, start_mod]

end TimingAudit.ChaCha
