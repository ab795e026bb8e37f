import TimingAudit.ClassQueue
import TimingAudit.Text.Number
import Mathlib.Tactic.Common

/-!
# Numbers and words read back

A word of 64 bits that is written in decimal digits is read back as it was, also where hexadecimal
digits would be taken. Words with blanks between them are taken apart again, for any words that are
not empty and have no blank in them, and so is a list of classes by their names.

* `readDecimal_toString`, `readSeed_toString` : numbers;
* `words_intercalate` : words;
* `ClassQueue.parse_intercalate` : classes.
-/

namespace TimingAudit

namespace Text

/-! ## Numbers -/

/-- The value of a decimal digit. -/
theorem digitIn_ten {c : Char} (h : c.isDigit) : digitIn 10 c = some (c.toNat - '0'.toNat) := by
  have hrange : '0' ≤ c ∧ c ≤ '9' := by
    simpa [Char.isDigit, Char.le_def] using h
  have hupper : c.toNat ≤ '9'.toNat := hrange.2
  have hsmall : c.toNat - '0'.toNat < 10 := by
    have hzero : '0'.toNat = 48 := rfl
    have hnine : '9'.toNat = 57 := rfl
    omega
  rw [digitIn, digitValue, if_pos hrange, Option.filter_some, if_pos (decide_eq_true hsmall)]

/-- Decimal digits are always a number. -/
theorem digitsFrom_ten (cs : List Char) (h : ∀ c ∈ cs, c.isDigit) :
    ∀ acc, digitsFrom 10 acc cs = some (Nat.ofDigitChars 10 cs acc) := by
  induction cs with
  | nil =>
      intro acc
      rw [digitsFrom, Nat.ofDigitChars_nil]
  | cons c cs ih =>
      intro acc
      simp only [digitsFrom, digitIn_ten (h c List.mem_cons_self)]
      rw [ih (fun c' hc' => h c' (List.mem_cons_of_mem _ hc')), Nat.ofDigitChars_cons, Nat.mul_comm]

/-- One or more decimal digits need no sign. -/
theorem readUnsigned_ten {cs : List Char} (hne : cs ≠ []) (h : ∀ c ∈ cs, c.isDigit) :
    readUnsigned 10 cs = some (Nat.ofDigitChars 10 cs 0) := by
  unfold readUnsigned
  split
  · exact absurd (h '+' List.mem_cons_self) (by decide)
  · cases cs with
    | nil => exact absurd rfl hne
    | cons c cs => exact digitsFrom_ten (c :: cs) h 0

/-- The digits of a number. -/
theorem toList_toString (n : Nat) : (toString n).toList = Nat.toDigits 10 n := Nat.toList_repr

/-- A number is written in digits. -/
theorem isDigit_of_mem_toString {n : Nat} {c : Char} (h : c ∈ (toString n).toList) :
    c.isDigit := by
  rw [toList_toString] at h
  exact Nat.isDigit_of_mem_toDigits (by decide) (by decide) h

/-- A negative number is written with a minus sign. -/
theorem toList_toString_negSucc (n : Nat) :
    (toString (Int.negSucc n)).toList = '-' :: (toString (n + 1)).toList := by
  show ("-" ++ toString (n + 1)).toList = _
  rw [String.toList_append]
  rfl

/-- A number begins with a digit. -/
theorem head?_toString_ne (n : Nat) {c : Char} (hc : c.isDigit = false) :
    (toString n).toList.head? ≠ some c := by
  intro h
  have hdigit := isDigit_of_mem_toString (List.mem_of_mem_head? h)
  rw [hc] at hdigit
  cases hdigit

/-- **A word in decimal digits** is read back. -/
theorem readDecimal_toString (n : UInt64) : readDecimal (toString n.toNat).toList = some n := by
  have hne : (toString n.toNat).toList ≠ [] := by
    rw [toList_toString]
    exact Nat.toDigits_ne_nil
  have hvalue : Nat.ofDigitChars 10 (toString n.toNat).toList 0 = n.toNat := by
    rw [toList_toString, Nat.ofDigitChars_ten_toDigits]
  have hread := readUnsigned_ten hne fun _ => isDigit_of_mem_toString
  rw [readDecimal, readWord, hread, hvalue]
  simp only [if_pos n.toNat_lt]
  rw [UInt64.ofNat_toNat]

/-- **A seed in decimal digits** is read back: no hexadecimal mark can be in it. -/
theorem readSeed_toString (n : UInt64) : readSeed (toString n.toNat).toList = some n := by
  have hdigits : ∀ c ∈ (toString n.toNat).toList, c.isDigit := fun _ => isDigit_of_mem_toString
  rw [← readDecimal_toString n]
  unfold readSeed
  split
  · rename_i h
    rw [h] at hdigits
    exact absurd (hdigits 'x' (by simp)) (by decide)
  · rename_i h
    rw [h] at hdigits
    exact absurd (hdigits 'X' (by simp)) (by decide)
  · rfl

/-! ## Words -/

/-- Characters of a word join the word that has been begun. -/
theorem wordsFrom_append {w : List Char} (h : ∀ c ∈ w, isBlank c = false) (rest : List Char) :
    ∀ current, current ≠ [] →
      wordsFrom current (w ++ rest) = wordsFrom (w.reverse ++ current) rest := by
  induction w with
  | nil =>
      intro current _
      rfl
  | cons c w ih =>
      intro current hcurrent
      obtain ⟨d, ds, rfl⟩ := List.exists_cons_of_ne_nil hcurrent
      have hc : isBlank c = false := h c List.mem_cons_self
      have hnext : wordsFrom (d :: ds) (c :: (w ++ rest)) =
          wordsFrom (c :: d :: ds) (w ++ rest) := by
        rw [wordsFrom, hc]
        rfl
      rw [List.cons_append, hnext, ih (fun c' hc' => h c' (List.mem_cons_of_mem _ hc')) _ (by simp),
        List.reverse_cons, List.append_assoc]
      rfl

/-- A text without blanks is one word. -/
def IsWord (w : List Char) : Prop := w ≠ [] ∧ ∀ c ∈ w, isBlank c = false

/-- A word is read whole before what comes next. -/
theorem IsWord.wordsFrom_append {w : List Char} (h : IsWord w) (rest : List Char) :
    wordsFrom [] (w ++ rest) = wordsFrom w.reverse rest := by
  obtain ⟨c, w, rfl⟩ := List.exists_cons_of_ne_nil h.1
  have hc : isBlank c = false := h.2 c List.mem_cons_self
  have hfirst : wordsFrom [] (c :: (w ++ rest)) = wordsFrom [c] (w ++ rest) := by
    rw [wordsFrom, hc]
    rfl
  rw [List.cons_append, hfirst,
    Text.wordsFrom_append (fun c' hc' => h.2 c' (List.mem_cons_of_mem _ hc')) rest _ (by simp),
    List.reverse_cons]

/-- The last word of a text. -/
theorem IsWord.wordsFrom_self {w : List Char} (h : IsWord w) : wordsFrom [] w = [w] := by
  have hread := h.wordsFrom_append []
  rw [List.append_nil] at hread
  obtain ⟨c, cs, hcs⟩ := List.exists_cons_of_ne_nil (List.reverse_ne_nil_iff.mpr h.1)
  rw [hread, hcs, wordsFrom, ← hcs, List.reverse_reverse]
  exact nofun

/-- A word with a blank behind it. -/
theorem IsWord.wordsFrom_blank {w : List Char} (h : IsWord w) {c : Char} (hc : isBlank c)
    (rest : List Char) : wordsFrom [] (w ++ c :: rest) = w :: wordsFrom [] rest := by
  obtain ⟨d, ds, hds⟩ := List.exists_cons_of_ne_nil (List.reverse_ne_nil_iff.mpr h.1)
  rw [h.wordsFrom_append, hds, wordsFrom, if_pos hc, ← hds, List.reverse_reverse]

/-- **Words with single spaces between them** are read back. -/
theorem words_intercalate (names : List String) (h : ∀ s ∈ names, IsWord s.toList) :
    words (" ".intercalate names) = names := by
  -- Each word is read up to the space behind it, and the last one up to the end.
  have hread : wordsFrom [] (" ".intercalate names).toList = names.map String.toList := by
    induction names with
    | nil => rfl
    | cons s names ih =>
        have hs : IsWord s.toList := h s List.mem_cons_self
        have hnames := ih fun s' hs' => h s' (List.mem_cons_of_mem _ hs')
        cases names with
        | nil =>
            rw [String.intercalate_singleton, hs.wordsFrom_self]
            rfl
        | cons s' names =>
            rw [String.intercalate_cons_cons, String.toList_append, String.toList_append,
              List.append_assoc]
            show wordsFrom [] (s.toList ++ ' ' :: (" ".intercalate (s' :: names)).toList) = _
            rw [hs.wordsFrom_blank (by decide), hnames]
            rfl
  rw [words, hread, List.map_map]
  exact (List.map_congr_left fun s _ => String.ofList_toList).trans (List.map_id _)

end Text

/-! ## Classes -/

/-- The name of a class is a word. -/
theorem InputClass.isWord_name (k : InputClass) : Text.IsWord k.name.toList := by
  have hall : k.name.toList.all (fun c => !Text.isBlank c) = true := by cases k <;> decide
  refine ⟨by cases k <;> decide, fun c hc => ?_⟩
  simpa using List.all_eq_true.mp hall c hc

/-- Names of classes with spaces between them do not begin with a dash. -/
theorem InputClass.head?_intercalate_name (ks : List InputClass) :
    (" ".intercalate (ks.map InputClass.name)).toList.head? ≠ some '-' := by
  cases ks with
  | nil => decide
  | cons k ks =>
      obtain ⟨rest, hrest⟩ : ∃ rest,
          (" ".intercalate ((k :: ks).map InputClass.name)).toList = k.name.toList ++ rest := by
        cases ks with
        | nil => exact ⟨[], by simp [String.intercalate_singleton]⟩
        | cons k' ks =>
            rw [List.map_cons, List.map_cons, String.intercalate_cons_cons, String.toList_append,
              String.toList_append, List.append_assoc]
            exact ⟨_, rfl⟩
      have hname : k.name.toList.head? ≠ some '-' := by cases k <;> decide
      obtain ⟨c, cs, hcs⟩ := List.exists_cons_of_ne_nil k.isWord_name.1
      rw [hcs] at hrest hname
      rw [hrest]
      exact hname

/-- Names of classes name these. -/
theorem ClassQueue.classesOfNames_map_name (ks : List InputClass) :
    classesOfNames (ks.map InputClass.name) = .ok ks := by
  induction ks with
  | nil => rfl
  | cons k ks ih => simp only [List.map_cons, classesOfNames, InputClass.ofName?_name, ih]

/-- **A list of classes** by their names is read back. -/
theorem ClassQueue.parse_intercalate (ks : List InputClass) :
    parse (" ".intercalate (ks.map InputClass.name)) = .ok ⟨ks⟩ := by
  have hwords : ∀ s ∈ ks.map InputClass.name, Text.IsWord s.toList := by
    intro s hs
    obtain ⟨k, -, rfl⟩ := List.mem_map.mp hs
    exact k.isWord_name
  rw [parse, Text.words_intercalate _ hwords, classesOfNames_map_name]
  rfl

end TimingAudit
