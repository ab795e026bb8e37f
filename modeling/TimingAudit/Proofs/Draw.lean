import TimingAudit.Proofs.Draw.Choice
import TimingAudit.Proofs.Outcome
import TimingAudit.Random.ByteCycle
import Mathlib.Tactic.Common

/-!
# The pairs that a class draws

Every class stands for a set of argument pairs, which is said here without any drawing (`Admits`). The
rule of a class keeps to its set on every random source, and it leaves nothing of the set out: bytes
can be chosen for which it returns any given pair of it. Words are made of their bytes, the lowest
first, so the bytes that a pair needs are those of its two values, behind a coin where there is one.

* `pair_ensures` : what is drawn belongs to the class;
* `exists_reads_pair` : whatever belongs to the class can be drawn;
* `inputsOnto_ensures`, `mixedOnto_succeeds` : many draws in a row.
-/

namespace TimingAudit

/-- The argument pairs that belong to a class. -/
def InputClass.Admits : InputClass → Int64 × Int64 → Prop
  | .uniform, _ => True
  | .equal, (a, b) => a = b
  | .max64, (a, b) => a = 0x7FFFFFFFFFFFFFFF ∨ b = 0x7FFFFFFFFFFFFFFF
  | .umax64, (a, b) => a = -1 ∨ b = -1
  | .zero, (a, b) => a = 0 ∨ b = 0
  | .xzero, (a, _) => a = 0
  | .yzero, (_, b) => b = 0
  | .xlty, (a, b) => a ≤ b
  | .yltx, (a, b) => b ≤ a
  | .small, (a, b) => (0 ≤ a ∧ a ≤ 255) ∧ 0 ≤ b ∧ b ≤ 255
  | .fixed, (a, b) => a = 0x12345678 ∧ b = 0x12345678

/-- An input whose pair belongs to the class that it is tagged with. -/
def Input.Admitted (x : Input) : Prop := x.kind.Admits (x.a, x.b)

/-! ## Bytes and words -/

namespace ByteCycle

/-- The bytes that come next. -/
def Ahead (s : ByteCycle) (bytes : List UInt8) : Prop :=
  ∀ i < bytes.length, bytes[i]? = some (s.peek i)

/-- The `n` lowest bytes of a number, the lowest first. -/
def lowBytes (v n : Nat) : List UInt8 := (List.range n).map fun i => (v >>> (8 * i)).toUInt8

theorem peek_advance (s : ByteCycle) (n i : Nat) : (s.advance n).peek i = s.peek (n + i) := by
  show s.bytes.getD ((s.position + n + i) % s.bytes.size) 0 = _
  rw [Nat.add_assoc]
  rfl

theorem advance_advance (s : ByteCycle) (n n' : Nat) :
    (s.advance n).advance n' = s.advance (n + n') := by
  simp [advance, Nat.add_assoc]

/-- The bytes of a list come next at its start. -/
theorem ahead_ofList (bytes : List UInt8) : (ofList bytes).Ahead bytes := by
  intro i hi
  show bytes[i]? = some (bytes.toArray.getD ((0 + i) % bytes.toArray.size) 0)
  rw [List.size_toArray, Nat.zero_add, Nat.mod_eq_of_lt hi, Array.getD_eq_getD_getElem?,
    List.getElem?_toArray, List.getElem?_eq_getElem hi, Option.getD_some]

/-- Bytes that come next, and bytes that come next behind them. -/
theorem Ahead.of_append {s : ByteCycle} {bytes bytes' : List UInt8} (h : s.Ahead (bytes ++ bytes')) :
    s.Ahead bytes ∧ (s.advance bytes.length).Ahead bytes' := by
  constructor
  · intro i hi
    have hbyte := h i (by rw [List.length_append]; omega)
    rwa [List.getElem?_append_left hi] at hbyte
  · intro i hi
    have hbyte := h (bytes.length + i) (by rw [List.length_append]; omega)
    rwa [List.getElem?_append_right (by omega), Nat.add_sub_cancel_left, ← peek_advance] at hbyte

theorem length_lowBytes (v n : Nat) : (lowBytes v n).length = n := by
  simp [lowBytes]

/-- A byte of a number that comes next. -/
theorem Ahead.peek_lowBytes {s : ByteCycle} {v n : Nat} (h : s.Ahead (lowBytes v n)) {i : Nat}
    (hi : i < n) : s.peek i = (v >>> (8 * i)).toUInt8 := by
  have hbyte := h i (by rw [length_lowBytes]; exact hi)
  simpa [lowBytes, List.getElem?_range hi, eq_comm] using hbyte

/-- **A number from its bytes.** The bytes read so far make up the number but for what lies above
them. -/
theorem littleEndian_add_shiftLeft {s : ByteCycle} {v : Nat} (n : Nat)
    (h : ∀ i < n, s.peek i = (v >>> (8 * i)).toUInt8) :
    s.littleEndian n + (v >>> (8 * n)) <<< (8 * n) = v := by
  induction n with
  | zero => rw [littleEndian, Nat.mul_zero, Nat.shiftRight_zero, Nat.shiftLeft_zero, Nat.zero_add]
  | succ n ih =>
      have hlow := ih fun i hi => h i (Nat.lt_succ_of_lt hi)
      have hbyte : (s.peek n).toNat = (v >>> (8 * n)) % 256 := by
        rw [h n (Nat.lt_succ_self n)]
        exact UInt8.toNat_ofNat'
      -- What lies above `n` bytes is the next byte and what lies above that one.
      have hbits : 8 * (n + 1) = 8 * n + 8 := Nat.mul_succ 8 n
      have habove : v >>> (8 * n) = v >>> (8 * (n + 1)) * 256 + (s.peek n).toNat := by
        have hdiv : v >>> (8 * (n + 1)) = v >>> (8 * n) / 256 := by
          rw [hbits, Nat.shiftRight_add]
          exact Nat.shiftRight_eq_div_pow _ 8
        omega
      have hshift : (v >>> (8 * (n + 1))) <<< (8 * (n + 1)) =
          (v >>> (8 * (n + 1)) * 256) <<< (8 * n) := by
        rw [hbits, Nat.add_comm (8 * n) 8, Nat.shiftLeft_add]
        exact congrArg (· <<< (8 * n)) (Nat.shiftLeft_eq _ 8)
      calc s.littleEndian (n + 1) + (v >>> (8 * (n + 1))) <<< (8 * (n + 1))
          = s.littleEndian n + (v >>> (8 * (n + 1)) * 256 + (s.peek n).toNat) <<< (8 * n) := by
            rw [hshift, littleEndian]
            simp only [Nat.shiftLeft_eq, Nat.add_mul]
            omega
        _ = v := by rw [← habove, hlow]

/-- A number with no more bytes than come next is read from these. -/
theorem littleEndian_of_ahead {s : ByteCycle} {v n : Nat} (h : s.Ahead (lowBytes v n))
    (hv : v >>> (8 * n) = 0) : s.littleEndian n = v := by
  have hsum := littleEndian_add_shiftLeft n fun i hi => h.peek_lowBytes hi
  rwa [hv, Nat.zero_shiftLeft, Nat.add_zero] at hsum

end ByteCycle

namespace Draw

section Reads

variable {α β : Type}

/-- Wherever the given bytes come next, the draw returns `a` and takes just these bytes. -/
def Reads (x : StateM ByteCycle α) (bytes : List UInt8) (a : α) : Prop :=
  ∀ s : ByteCycle, s.Ahead bytes → x s = (a, s.advance bytes.length)

theorem Reads.pure (a : α) : Reads (Pure.pure a) [] a := by
  intro s _
  rfl

/-- One draw after another takes the bytes of both. -/
theorem Reads.bind {x : StateM ByteCycle α} {f : α → StateM ByteCycle β} {bytes bytes' : List UInt8}
    {a : α} {b : β} (hx : Reads x bytes a) (hf : Reads (f a) bytes' b) :
    Reads (x >>= f) (bytes ++ bytes') b := by
  intro s hs
  obtain ⟨hfirst, hrest⟩ := hs.of_append
  rw [stateM_bind, hx s hfirst, hf _ hrest, ByteCycle.advance_advance, List.length_append]

/-- What is returned may be worked on. -/
theorem Reads.map {x : StateM ByteCycle α} {bytes : List UInt8} {a : α} (f : α → β)
    (hx : Reads x bytes a) : Reads (x >>= fun a => Pure.pure (f a)) bytes (f a) := by
  have h : Reads (x >>= fun a => Pure.pure (f a)) (bytes ++ []) (f a) := hx.bind (Reads.pure (f a))
  rwa [List.append_nil] at h

/-- Every value can be drawn. -/
theorem reads_value64 (v : Int64) :
    Reads value64 (ByteCycle.lowBytes v.toUInt64.toNat 8) v := by
  intro s hs
  have hword : s.littleEndian 8 = v.toUInt64.toNat := by
    refine ByteCycle.littleEndian_of_ahead hs ?_
    rw [Nat.shiftRight_eq_div_pow]
    exact Nat.div_eq_of_lt v.toUInt64.toNat_lt
  show ((s.littleEndian 8).toUInt64.toInt64, s.advance 8) = _
  rw [hword, ByteCycle.length_lowBytes]
  simp

/-- Every byte can be drawn. -/
theorem reads_value8 (b : UInt8) : Reads value8 [b] b.toUInt64.toInt64 := by
  intro s hs
  have hbyte : b = s.peek 0 := by simpa using hs 0 (by simp)
  rw [hbyte]
  rfl

/-- Both sides of the coin can come up. -/
theorem reads_coin (left : Bool) :
    Reads coin (ByteCycle.lowBytes (if left then 0xFFFFFFFF else 0) 4) left := by
  intro s hs
  have hword : s.littleEndian 4 = if left then 0xFFFFFFFF else 0 := by
    refine ByteCycle.littleEndian_of_ahead hs ?_
    cases left <;> rfl
  show (decide ((0x7FFFFFFF : UInt32) < (s.littleEndian 4).toUInt32), s.advance 4) = _
  rw [hword, ByteCycle.length_lowBytes]
  cases left <;> rfl

/-- Either side can be the fixed one, beside any value. -/
theorem reads_oneSideFixed (fixed v : Int64) (left : Bool) :
    ∃ bytes, Reads (oneSideFixed fixed) bytes (if left then (v, fixed) else (fixed, v)) :=
  ⟨_, (reads_coin left).bind ((reads_value64 v).map fun v => if left then (v, fixed) else (fixed, v))⟩

/-- Every pair of values can be drawn. -/
theorem reads_valuePair (a b : Int64) : ∃ bytes, Reads valuePair bytes (a, b) :=
  ⟨_, (reads_value64 a).bind ((reads_value64 b).map fun b => (a, b))⟩

end Reads

/-! ## The set of a class -/

/-- The values of a byte are those from 0 to 255. -/
theorem exists_byte_iff {a : Int64} :
    (∃ b : UInt8, b.toUInt64.toInt64 = a) ↔ 0 ≤ a ∧ a ≤ 255 := by
  have hvalue : ∀ b : UInt8, b.toUInt64.toInt64.toInt = b.toNat := by
    intro b
    have hlt := b.toNat_lt
    show b.toUInt64.toBitVec.toInt = _
    rw [BitVec.toInt_eq_toNat_of_lt (by simp; omega)]
    simp
  rw [Int64.le_iff_toInt_le, Int64.le_iff_toInt_le]
  show _ ↔ 0 ≤ a.toInt ∧ a.toInt ≤ 255
  constructor
  · rintro ⟨b, rfl⟩
    have hlt := b.toNat_lt
    rw [hvalue]
    omega
  · rintro ⟨hlow, hhigh⟩
    refine ⟨UInt8.ofNat a.toInt.toNat, ?_⟩
    rw [← Int64.toInt_inj, hvalue, UInt8.toNat_ofNat_of_lt' (by rw [UInt8.size]; omega)]
    exact Int.toNat_of_nonneg hlow

/-- **Whatever belongs to a class can be drawn**: bytes can be found for it. -/
theorem exists_reads_pair {k : InputClass} {a b : Int64} (h : k.Admits (a, b)) :
    ∃ bytes, Reads (pair k) bytes (a, b) := by
  -- A side that has to be a given value is fixed, and the coin then leaves the other one free.
  have hside : ∀ fixed : Int64, a = fixed ∨ b = fixed →
      ∃ bytes, Reads (oneSideFixed fixed) bytes (a, b) := by
    rintro fixed (rfl | rfl)
    · exact reads_oneSideFixed a b false
    · exact reads_oneSideFixed b a true
  cases k with
  | uniform => exact reads_valuePair a b
  | equal =>
      obtain rfl : a = b := h
      exact ⟨_, (reads_value64 a).map fun a => (a, a)⟩
  | max64 => exact hside _ h
  | umax64 => exact hside _ h
  | zero => exact hside _ h
  | xzero =>
      obtain rfl : a = 0 := h
      exact ⟨_, (reads_value64 b).map fun b => (0, b)⟩
  | yzero =>
      obtain rfl : b = 0 := h
      exact ⟨_, (reads_value64 a).map fun a => (a, 0)⟩
  | xlty =>
      obtain ⟨bytes, hbytes⟩ := reads_valuePair a b
      have hpair := hbytes.map fun p => if p.2 < p.1 then (p.2, p.1) else (p.1, p.2)
      rw [if_neg (Int64.not_lt.mpr h)] at hpair
      exact ⟨bytes, hpair⟩
  | yltx =>
      obtain ⟨bytes, hbytes⟩ := reads_valuePair a b
      have hpair := hbytes.map fun p => if p.1 < p.2 then (p.2, p.1) else (p.1, p.2)
      rw [if_neg (Int64.not_lt.mpr h)] at hpair
      exact ⟨bytes, hpair⟩
  | small =>
      obtain ⟨x, rfl⟩ := exists_byte_iff.mpr h.1
      obtain ⟨y, rfl⟩ := exists_byte_iff.mpr h.2
      exact ⟨_, (reads_value8 x).bind ((reads_value8 y).map fun b => (_, b))⟩
  | fixed =>
      obtain ⟨rfl, rfl⟩ : a = 0x12345678 ∧ b = 0x12345678 := h
      exact ⟨[], Reads.pure _⟩

section Ensures

variable {σ : Type} [RandomSource σ]

/-- A random byte has the value of a byte. -/
theorem value8_ensures : Ensures (fun a => 0 ≤ a ∧ a ≤ 255) (value8 : StateM σ Int64) :=
  Ensures.of_forall fun _ => exists_byte_iff.mp ⟨_, rfl⟩

/-- One of the two sides is the fixed value. -/
theorem oneSideFixed_ensures (fixed : Int64) :
    Ensures (fun p => p.1 = fixed ∨ p.2 = fixed) (oneSideFixed fixed : StateM σ _) := by
  refine Ensures.bind (ensures_true _) fun left _ => ?_
  refine Ensures.bind (ensures_true _) fun v _ => Ensures.pure ?_
  cases left with
  | false => exact .inl rfl
  | true => exact .inr rfl

/-- **What is drawn belongs to the class**, on every random source. -/
theorem pair_ensures (k : InputClass) : Ensures k.Admits (pair k : StateM σ _) := by
  cases k with
  | uniform => exact (ensures_true _).imp fun _ _ => trivial
  | equal => exact Ensures.bind (ensures_true _) fun a _ => Ensures.pure rfl
  | max64 => exact oneSideFixed_ensures _
  | umax64 => exact oneSideFixed_ensures _
  | zero => exact oneSideFixed_ensures _
  | xzero => exact Ensures.bind (ensures_true _) fun b _ => Ensures.pure rfl
  | yzero => exact Ensures.bind (ensures_true _) fun a _ => Ensures.pure rfl
  | xlty =>
      refine Ensures.bind (ensures_true _) fun p _ => Ensures.pure ?_
      by_cases h : p.2 < p.1
      · rw [if_pos h]
        exact Int64.le_of_lt h
      · rw [if_neg h]
        exact Int64.not_lt.mp h
  | yltx =>
      refine Ensures.bind (ensures_true _) fun p _ => Ensures.pure ?_
      by_cases h : p.1 < p.2
      · rw [if_pos h]
        exact Int64.le_of_lt h
      · rw [if_neg h]
        exact Int64.not_lt.mp h
  | small =>
      refine Ensures.bind value8_ensures fun a ha => ?_
      exact Ensures.bind value8_ensures fun b hb => Ensures.pure ⟨ha, hb⟩
  | fixed => exact Ensures.pure ⟨rfl, rfl⟩

/-! ## Many draws -/

/-- An input is tagged with the class it is drawn from. -/
theorem input_ensures (k : InputClass) :
    Ensures (fun x => x.kind = k ∧ x.Admitted) (input k : StateM σ Input) :=
  Ensures.bind (pair_ensures k) fun _ hp => Ensures.pure ⟨rfl, hp⟩

/-- An input that a word has decided for is tagged with one of the classes. -/
theorem Selected.admitted {kinds : List InputClass} {s s' : σ} {x : Input}
    (h : Selected kinds s x s') : x.kind ∈ kinds ∧ x.Admitted := by
  cases h with
  | @of_word s₁ v k hword hclass hinput =>
      have hx := (input_ensures k).of_stateM s₁
      rw [hinput] at hx
      obtain ⟨hkind, hadmitted⟩ := hx
      refine ⟨?_, hadmitted⟩
      rw [hkind]
      exact List.mem_of_getElem? hclass.2

/-- So are inputs that are drawn one after another. -/
theorem SelectedInTurn.admitted {kinds : List InputClass} {s s' : σ} {xs : List Input}
    (h : SelectedInTurn kinds s xs s') : ∀ x ∈ xs, x.kind ∈ kinds ∧ x.Admitted := by
  induction h with
  | nil s => exact fun x hx => absurd hx List.not_mem_nil
  | cons hx hxs ih => exact List.forall_mem_cons.mpr ⟨hx.admitted, ih⟩

/-- As many inputs are drawn as are asked for, all of the class. -/
theorem inputsOnto_ensures (k : InputClass) (n : Nat) : ∀ drawn : Array Input,
    (∀ x ∈ drawn, x.kind = k ∧ x.Admitted) →
    Ensures (fun xs => xs.size = drawn.size + n ∧ ∀ x ∈ xs, x.kind = k ∧ x.Admitted)
      (inputsOnto k n drawn : StateM σ (Array Input)) := by
  induction n with
  | zero =>
      intro drawn hdrawn
      exact Ensures.pure ⟨rfl, hdrawn⟩
  | succ n ih =>
      intro drawn hdrawn
      refine Ensures.bind (input_ensures k) fun x hx => ?_
      have hpush : ∀ y ∈ drawn.push x, y.kind = k ∧ y.Admitted :=
        Array.forall_mem_push.mpr ⟨hx, hdrawn⟩
      refine (ih (drawn.push x) hpush).imp fun xs hxs => ⟨?_, hxs.2⟩
      rw [hxs.1, Array.size_push]
      omega

/-- As many mixed inputs are drawn as are asked for, each of one of the classes. -/
theorem mixedOnto_succeeds {kinds : List InputClass} (hne : kinds ≠ []) (n : Nat) :
    Succeeds (fun xs => xs.size = n ∧ ∀ x ∈ xs, x.kind ∈ kinds ∧ x.Admitted)
      (mixedOnto kinds n #[] : StateT σ Option (Except Failure (Array Input))) := by
  refine Ensures.of_forall_eq_some fun s drawn s' h => ?_
  obtain ⟨xs, hlength, hturn, rfl⟩ := (mixedOnto_eq_some_iff hne).mp h
  refine ⟨_, rfl, ?_, ?_⟩
  · simpa using hlength
  · simpa using hturn.admitted

end Ensures

end Draw

end TimingAudit
