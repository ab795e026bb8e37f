import TimingAudit.Text.Number
import Mathlib.Data.Nat.Digits.Defs
import Mathlib.Tactic.IntervalCases
import Mathlib.Tactic.Ring

/-!
# Numerals

Which texts are numbers, and which ones, said without reading them: a numeral is an optional plus sign
and one or more digits, and its value is the sum of its digits times the powers of the radix
(`IsNumeral`). The reader accepts exactly the numerals below two to the power 64 and returns their
values, so there may be any number of zeros in front.

* `digitIn_eq_some_iff` : digits;
* `readUnsigned_eq_some_iff` : numerals;
* `readWord_eq_some_iff`, `readSeed_eq_some_iff` : words.
-/

namespace TimingAudit.Text

/-! ## Digits -/

/-- The digits up to fifteen with small letters, by their values. -/
def smallDigits : List Char := "0123456789abcdef".toList

/-- The digits up to fifteen with capital letters, by their values. -/
def capitalDigits : List Char := "0123456789ABCDEF".toList

/-- `c` is the digit of the given radix with the value `v`. -/
def IsDigit (radix : Nat) (c : Char) (v : Nat) : Prop :=
  v < radix ∧ (smallDigits[v]? = some c ∨ capitalDigits[v]? = some c)

instance (radix : Nat) (c : Char) (v : Nat) : Decidable (IsDigit radix c v) :=
  inferInstanceAs (Decidable (_ ∧ _))

/-- A character is known by its distance from another one. -/
theorem eq_ofNat_of_sub {c d : Char} {k v : Nat} (hd : d ≤ c) (hv : c.toNat - d.toNat + k = v) :
    c = Char.ofNat (v + d.toNat - k) := by
  have hle : d.toNat ≤ c.toNat := hd
  have hnat : c.toNat = v + d.toNat - k := by omega
  rw [← hnat, Char.ofNat_toNat]

/-- The value of a digit below sixteen. -/
theorem digitValue_eq_some_iff {c : Char} {v : Nat} (hv : v < 16) :
    digitValue c = some v ↔ smallDigits[v]? = some c ∨ capitalDigits[v]? = some c := by
  constructor
  · intro h
    unfold digitValue at h
    -- Each of the three ranges of digits begins at a known character.
    split at h
    · rename_i hc
      have hlt : v < 10 := by
        have hupper : c.toNat ≤ 57 := hc.2
        have hvalue : c.toNat - 48 = v := Option.some.inj h
        omega
      obtain rfl := eq_ofNat_of_sub (k := 0) hc.1 (Option.some.inj h)
      interval_cases v <;> decide
    · split at h
      · rename_i hc
        have hge : 10 ≤ v := by
          have hvalue : c.toNat - 97 + 10 = v := Option.some.inj h
          omega
        obtain rfl := eq_ofNat_of_sub hc.1 (Option.some.inj h)
        interval_cases v <;> decide
      · split at h
        · rename_i hc
          have hge : 10 ≤ v := by
            have hvalue : c.toNat - 65 + 10 = v := Option.some.inj h
            omega
          obtain rfl := eq_ofNat_of_sub hc.1 (Option.some.inj h)
          interval_cases v <;> decide
        · cases h
  · intro h
    interval_cases v <;> rcases h with h | h <;> cases h <;> decide

/-- **The digits of a radix** up to sixteen. -/
theorem digitIn_eq_some_iff {radix : Nat} (hradix : radix ≤ 16) {c : Char} {v : Nat} :
    digitIn radix c = some v ↔ IsDigit radix c v := by
  rw [digitIn, Option.filter_eq_some_iff, decide_eq_true_eq, IsDigit, and_comm]
  refine and_congr_right fun hv => ?_
  exact digitValue_eq_some_iff (Nat.lt_of_lt_of_le hv hradix)

/-! ## Numerals -/

/-- The text `cs` is a numeral of the given radix with the value `n`. -/
def IsNumeral (radix : Nat) (cs : List Char) (n : Nat) : Prop :=
  ∃ digits values, (cs = digits ∨ cs = '+' :: digits) ∧ digits ≠ [] ∧
    List.Forall₂ (IsDigit radix) digits values ∧ Nat.ofDigits radix values.reverse = n

/-- One more digit behind the number `acc`, and all digits behind that one. -/
theorem ofDigits_reverse_cons (radix acc v : Nat) (values : List Nat) :
    Nat.ofDigits radix ((v :: values).reverse ++ [acc]) =
      Nat.ofDigits radix (values.reverse ++ [acc * radix + v]) := by
  rw [List.reverse_cons, List.append_assoc, List.singleton_append, Nat.ofDigits_append,
    Nat.ofDigits_append, Nat.ofDigits_cons, Nat.ofDigits_singleton, Nat.ofDigits_singleton]
  ring

/-- Digits that continue a number. The number goes along as one more digit in front of all others. -/
theorem digitsFrom_eq_some_iff {radix : Nat} (hradix : radix ≤ 16) {cs : List Char} {n : Nat} :
    ∀ {acc}, digitsFrom radix acc cs = some n ↔
      ∃ values, List.Forall₂ (IsDigit radix) cs values ∧
        Nat.ofDigits radix (values.reverse ++ [acc]) = n := by
  induction cs with
  | nil =>
      intro acc
      rw [digitsFrom, Option.some.injEq]
      constructor
      · rintro rfl
        exact ⟨[], .nil, Nat.ofDigits_singleton⟩
      · rintro ⟨values, hvalues, rfl⟩
        cases hvalues
        exact (Nat.ofDigits_singleton).symm
  | cons c cs ih =>
      intro acc
      rw [digitsFrom]
      constructor
      · intro h
        split at h
        · cases h
        · rename_i v hv
          obtain ⟨values, hvalues, rfl⟩ := ih.mp h
          exact ⟨v :: values, .cons ((digitIn_eq_some_iff hradix).mp hv) hvalues,
            ofDigits_reverse_cons ..⟩
      · rintro ⟨_, hvalues, rfl⟩
        cases hvalues with
        | cons hv hrest =>
            rw [(digitIn_eq_some_iff hradix).mpr hv]
            exact ih.mpr ⟨_, hrest, (ofDigits_reverse_cons ..).symm⟩

/-- One or more digits. -/
theorem readDigits_eq_some_iff {radix : Nat} (hradix : radix ≤ 16) {cs : List Char} {n : Nat} :
    readDigits radix cs = some n ↔
      cs ≠ [] ∧ ∃ values, List.Forall₂ (IsDigit radix) cs values ∧
        Nat.ofDigits radix values.reverse = n := by
  cases cs with
  | nil => exact iff_of_false nofun fun h => h.1 rfl
  | cons c cs =>
      have hzero : ∀ values, Nat.ofDigits radix (values ++ [0]) = Nat.ofDigits radix values := by
        intro values
        rw [Nat.ofDigits_append, Nat.ofDigits_singleton, Nat.mul_zero, Nat.add_zero]
      show digitsFrom radix 0 (c :: cs) = some n ↔ _
      rw [digitsFrom_eq_some_iff hradix, and_iff_right (List.cons_ne_nil c cs)]
      simp only [hzero]

/-- A plus sign is no digit. -/
theorem not_isDigit_plus {radix : Nat} (hradix : radix ≤ 16) {v : Nat} : ¬ IsDigit radix '+' v := by
  rw [← digitIn_eq_some_iff hradix]
  intro h
  cases h

/-- **Numerals** are what is read as numbers. -/
theorem readUnsigned_eq_some_iff {radix : Nat} (hradix : radix ≤ 16) {cs : List Char} {n : Nat} :
    readUnsigned radix cs = some n ↔ IsNumeral radix cs n := by
  unfold readUnsigned
  split
  · rename_i cs
    rw [readDigits_eq_some_iff hradix]
    constructor
    · rintro ⟨hne, values, hvalues, hn⟩
      exact ⟨cs, values, .inr rfl, hne, hvalues, hn⟩
    · rintro ⟨digits, values, rfl | hsign, hne, hvalues, hn⟩
      · cases hvalues with
        | cons hplus _ => exact absurd hplus (not_isDigit_plus hradix)
      · obtain rfl := (List.cons.inj hsign).2
        exact ⟨hne, values, hvalues, hn⟩
  · rename_i hsign
    rw [readDigits_eq_some_iff hradix]
    constructor
    · rintro ⟨hne, values, hvalues, hn⟩
      exact ⟨cs, values, .inl rfl, hne, hvalues, hn⟩
    · rintro ⟨digits, values, rfl | rfl, hne, hvalues, hn⟩
      · exact ⟨hne, values, hvalues, hn⟩
      · exact absurd rfl (hsign digits)

/-! ## Words -/

/-- **Numerals that fit a word** are read as the word of their value. -/
theorem readWord_eq_some_iff {radix : Nat} (hradix : radix ≤ 16) {cs : List Char} {w : UInt64} :
    readWord radix cs = some w ↔ IsNumeral radix cs w.toNat := by
  rw [← readUnsigned_eq_some_iff hradix, readWord]
  cases readUnsigned radix cs with
  | none => simp only [reduceCtorEq]
  | some n =>
      simp only [Option.some.injEq]
      constructor
      · intro h
        split at h
        · rename_i hn
          rw [← Option.some.inj h, UInt64.toNat_ofNat_of_lt' hn]
        · cases h
      · rintro rfl
        rw [if_pos w.toNat_lt, UInt64.ofNat_toNat]

/-- The text `cs` is a number in decimal digits, or in hexadecimal digits behind `0x` or `0X`. -/
def IsSeed (cs : List Char) (n : Nat) : Prop :=
  IsNumeral 10 cs n ∨ ∃ digits, (cs = '0' :: 'x' :: digits ∨ cs = '0' :: 'X' :: digits) ∧
    IsNumeral 16 digits n

/-- A text with a mark is no decimal numeral. -/
theorem not_isNumeral_of_mark {c : Char} (hc : digitIn 10 c = none) {cs : List Char} {n : Nat} :
    ¬ IsNumeral 10 ('0' :: c :: cs) n := by
  rw [← readUnsigned_eq_some_iff (by decide)]
  intro h
  have hread : digitsFrom 10 0 ('0' :: c :: cs) = some n := h
  rw [digitsFrom, show digitIn 10 '0' = some 0 from rfl] at hread
  simp only [digitsFrom, hc, reduceCtorEq] at hread

/-- **Seeds** are read with or without a mark. -/
theorem readSeed_eq_some_iff {cs : List Char} {w : UInt64} :
    readSeed cs = some w ↔ IsSeed cs w.toNat := by
  unfold readSeed
  split
  · rename_i cs
    rw [readWord_eq_some_iff (by decide), IsSeed, or_iff_right (not_isNumeral_of_mark (by decide))]
    simp
  · rename_i cs
    rw [readWord_eq_some_iff (by decide), IsSeed, or_iff_right (not_isNumeral_of_mark (by decide))]
    simp
  · rename_i hsmall hcapital
    rw [readDecimal, readWord_eq_some_iff (by decide), IsSeed, or_iff_left]
    rintro ⟨digits, rfl | rfl, -⟩
    · exact hsmall digits rfl
    · exact hcapital digits rfl

end TimingAudit.Text
