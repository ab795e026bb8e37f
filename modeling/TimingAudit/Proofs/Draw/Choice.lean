import TimingAudit.Draw
import Mathlib.Data.Fintype.Order
import Mathlib.Tactic.Common

/-!
# The word that decides a choice

A choice takes words from its source until one is accepted, and that word decides it (`Decides`). So a
choice has one result, or none at all on a source that never shows a word that is accepted; and a mixed
draw has a result exactly if its choice has one. That a source has a period is no restriction, since
there are finitely many words.

* `exists_period` : every way to draw words has a period;
* `choose_eq_some_iff` : the result of a choice is that of the word that decides it;
* `mixed_eq_some_iff`, `mixed_eq_none_iff` : a mixed draw that ends, and one that does not;
* `mixedOnto_eq_some_iff` : mixed draws one after another.
-/

namespace TimingAudit

namespace RandomSource

/-- **Every way to draw words has a period**, after which no word is shown for the first time. -/
theorem exists_period {σ : Type} (word32 : σ → UInt32 × σ) (s : σ) :
    ∃ period, ∀ i, ∃ j < period, wordAt word32 j s = wordAt word32 i s := by
  have hwords : Finite UInt32 := Finite.of_injective UInt32.toFin fun _ _ => UInt32.toFin_inj.mp
  -- Every word that is shown has a place at which it is, and one of these places is the last.
  choose place hplace using fun w : Set.range fun i => wordAt word32 i s => w.2
  obtain ⟨last, hlast⟩ := Finite.bddAbove_range place
  refine ⟨last + 1, fun i => ⟨place ⟨_, i, rfl⟩, ?_, hplace _⟩⟩
  exact Nat.lt_succ_of_le (hlast ⟨_, rfl⟩)

variable {σ : Type} [RandomSource σ] {n : Nat}

/-- From the state `s` on, words are passed over until `v` is accepted, which leaves the state `s'`. -/
inductive Decides (n : Nat) : σ → UInt32 → σ → Prop
  | accepted {s s' : σ} {v : UInt32} (hword : word32 s = (v, s')) (hv : Accepts n v) :
      Decides n s v s'
  | passed {s s₁ s' : σ} {w v : UInt32} (hword : word32 s = (w, s₁)) (hw : ¬ Accepts n w)
      (hrest : Decides n s₁ v s') : Decides n s v s'

theorem Decides.accepts {s s' : σ} {v : UInt32} (h : Decides n s v s') : Accepts n v := by
  induction h with
  | accepted hword hv => exact hv
  | passed hword hw hrest ih => exact ih

/-- The word that decides a choice is one of the words of the source. -/
theorem Decides.exists_wordAt {s s' : σ} {v : UInt32} (h : Decides n s v s') :
    ∃ i, wordAt word32 i s = v := by
  induction h with
  | accepted hword hv => exact ⟨0, congrArg Prod.fst hword⟩
  | @passed s s₁ s' w v hword hw hrest ih =>
      obtain ⟨i, hi⟩ := ih
      refine ⟨i + 1, ?_⟩
      show wordAt word32 i (word32 s).2 = v
      rw [hword]
      exact hi

/-- **At most one word decides a choice**: the first one that is accepted. -/
theorem Decides.unique {s s₁ s₂ : σ} {v₁ v₂ : UInt32} (h₁ : Decides n s v₁ s₁)
    (h₂ : Decides n s v₂ s₂) : v₁ = v₂ ∧ s₁ = s₂ := by
  induction h₁ with
  | accepted hword hv =>
      cases h₂ with
      | accepted hword₂ hv₂ => exact Prod.mk.inj (hword.symm.trans hword₂)
      | passed hword₂ hw₂ hrest₂ =>
          obtain ⟨rfl, -⟩ := Prod.mk.inj (hword.symm.trans hword₂)
          exact absurd hv hw₂
  | passed hword hw hrest ih =>
      cases h₂ with
      | accepted hword₂ hv₂ =>
          obtain ⟨rfl, -⟩ := Prod.mk.inj (hword.symm.trans hword₂)
          exact absurd hv₂ hw
      | passed hword₂ hw₂ hrest₂ =>
          obtain ⟨-, rfl⟩ := Prod.mk.inj (hword.symm.trans hword₂)
          exact ih hrest₂

/-- What is chosen within a limit is chosen by a word that decides. -/
theorem decides_of_chooseWithin {limit i : Nat} {s s' : σ}
    (h : chooseWithin n limit s = some (i, s')) : ∃ v, Decides n s v s' ∧ indexOf n v = i := by
  induction limit generalizing s with
  | zero => cases h
  | succ limit ih =>
      rw [chooseWithin_succ] at h
      by_cases hv : Accepts n (word32 s).1
      · rw [if_pos hv] at h
        cases h
        exact ⟨_, .accepted rfl hv, rfl⟩
      · rw [if_neg hv] at h
        obtain ⟨v, hdecides, hindex⟩ := ih h
        exact ⟨v, .passed rfl hv hdecides, hindex⟩

/-- **A choice is decided by the first word that is accepted.** -/
theorem choose_eq_some_iff {i : Nat} {s s' : σ} :
    choose n s = some (i, s') ↔ ∃ v, Decides n s v s' ∧ indexOf n v = i := by
  constructor
  · exact decides_of_chooseWithin
  · rintro ⟨v, hdecides, rfl⟩
    cases hchoose : choose n s with
    | none =>
        obtain ⟨i, hword⟩ := hdecides.exists_wordAt
        exact absurd (hword ▸ hdecides.accepts) (choose_eq_none_iff.mp hchoose i)
    | some chosen =>
        obtain ⟨v', hdecides', hindex⟩ := decides_of_chooseWithin hchoose
        obtain ⟨rfl, hstate⟩ := hdecides.unique hdecides'
        rw [hindex, hstate]

end RandomSource

namespace Draw

open RandomSource

variable {σ : Type} [RandomSource σ] {kinds : List InputClass}

/-- The word is accepted in a draw among `kinds`, and decides for the class `k`. -/
def Selects (kinds : List InputClass) (v : UInt32) (k : InputClass) : Prop :=
  Accepts kinds.length v ∧ kinds[indexOf kinds.length v]? = some k

/-- The input `x` is drawn from a class that a word of the source has decided for. -/
inductive Selected (kinds : List InputClass) (s : σ) (x : Input) (s' : σ) : Prop
  | of_word {s₁ : σ} {v : UInt32} {k : InputClass} (hword : Decides kinds.length s v s₁)
      (hclass : Selects kinds v k) (hinput : input k s₁ = (x, s'))

/-- Inputs that are drawn one after another, each from a class that a word has decided for. -/
inductive SelectedInTurn (kinds : List InputClass) : σ → List Input → σ → Prop
  | nil (s : σ) : SelectedInTurn kinds s [] s
  | cons {s s₁ s' : σ} {x : Input} {xs : List Input} (hx : Selected kinds s x s₁)
      (hxs : SelectedInTurn kinds s₁ xs s') : SelectedInTurn kinds s (x :: xs) s'

/-- A class is chosen by the word that decides for it. -/
theorem choice_eq_some_iff (hne : kinds ≠ []) {chosen : Option InputClass} {s s' : σ} :
    choice kinds s = some (chosen, s') ↔
      ∃ v k, Decides kinds.length s v s' ∧ Selects kinds v k ∧ chosen = some k := by
  obtain ⟨k, ks, rfl⟩ := List.exists_cons_of_ne_nil hne
  have hclass : ∀ v, (k :: ks)[indexOf (k :: ks).length v]? =
      some ((k :: ks).getD (indexOf (k :: ks).length v) k) := by
    intro v
    have hindex := indexOf_lt (List.length_pos_iff.mpr hne) v
    rw [List.getD_eq_getElem?_getD, List.getElem?_eq_getElem hindex, Option.getD_some]
  constructor
  · intro h
    obtain ⟨⟨i, s₁⟩, hchoose, hpair⟩ := Option.bind_eq_some_iff.mp h
    cases hpair
    obtain ⟨v, hdecides, rfl⟩ := choose_eq_some_iff.mp hchoose
    exact ⟨v, _, hdecides, ⟨hdecides.accepts, hclass v⟩, rfl⟩
  · rintro ⟨v, k', hdecides, ⟨-, hk'⟩, rfl⟩
    rw [hclass v] at hk'
    have hchoose := choose_eq_some_iff.mpr ⟨v, hdecides, rfl⟩
    rw [← hk']
    exact Option.bind_eq_some_iff.mpr ⟨_, hchoose, rfl⟩

/-- **A mixed draw that ends** has drawn an input from the class that a word has decided for. -/
theorem mixed_eq_some_iff (hne : kinds ≠ []) {drawn : Except Failure Input} {s s' : σ} :
    mixed kinds s = some (drawn, s') ↔ ∃ x, drawn = .ok x ∧ Selected kinds s x s' := by
  constructor
  · intro h
    obtain ⟨⟨chosen, s₁⟩, hchoice, hinput⟩ := Option.bind_eq_some_iff.mp h
    obtain ⟨v, k, hdecides, hselects, rfl⟩ := (choice_eq_some_iff hne).mp hchoice
    cases hinput
    exact ⟨_, rfl, .of_word hdecides hselects rfl⟩
  · rintro ⟨x, rfl, hx⟩
    cases hx with
    | @of_word s₁ v k hdecides hselects hinput =>
        have hchoice := (choice_eq_some_iff hne).mpr ⟨v, k, hdecides, hselects, rfl⟩
        refine Option.bind_eq_some_iff.mpr ⟨_, hchoice, ?_⟩
        show some (Except.ok (input k s₁).1, (input k s₁).2) = _
        rw [hinput]

/-- **A mixed draw that does not end** is one whose source never shows a word that is accepted. -/
theorem mixed_eq_none_iff (hne : kinds ≠ []) {s : σ} :
    mixed kinds s = none ↔ ∀ i, ¬ Accepts kinds.length (wordAt word32 i s) := by
  rw [← choose_eq_none_iff, Option.eq_none_iff_forall_ne_some, Option.eq_none_iff_forall_ne_some]
  constructor
  · rintro h ⟨i, s₁⟩ hchoose
    obtain ⟨v, hdecides, rfl⟩ := choose_eq_some_iff.mp hchoose
    have hindex := indexOf_lt (List.length_pos_iff.mpr hne) v
    exact h _ ((mixed_eq_some_iff hne).mpr
      ⟨_, rfl, .of_word hdecides ⟨hdecides.accepts, List.getElem?_eq_getElem hindex⟩ rfl⟩)
  · rintro h ⟨drawn, s'⟩ hmixed
    obtain ⟨x, -, ⟨hdecides, -, -⟩⟩ := (mixed_eq_some_iff hne).mp hmixed
    exact h _ (choose_eq_some_iff.mpr ⟨_, hdecides, rfl⟩)

/-- **Mixed draws in a row** end exactly if all of them do, each behind the one before it. -/
theorem mixedOnto_eq_some_iff (hne : kinds ≠ []) {n : Nat} {onto : Array Input}
    {drawn : Except Failure (Array Input)} {s s' : σ} :
    mixedOnto kinds n onto s = some (drawn, s') ↔
      ∃ xs : List Input, xs.length = n ∧ SelectedInTurn kinds s xs s' ∧ drawn = .ok (onto ++ xs) := by
  induction n generalizing onto s with
  | zero =>
      constructor
      · intro h
        cases h
        exact ⟨[], rfl, .nil _, by rw [Array.appendList_nil]⟩
      · rintro ⟨xs, hlength, hturn, rfl⟩
        obtain rfl := List.eq_nil_of_length_eq_zero hlength
        cases hturn
        rw [Array.appendList_nil]
        rfl
  | succ n ih =>
      constructor
      · intro h
        obtain ⟨⟨first, s₁⟩, hmixed, hrest⟩ := Option.bind_eq_some_iff.mp h
        obtain ⟨x, rfl, hx⟩ := (mixed_eq_some_iff hne).mp hmixed
        obtain ⟨xs, hlength, hturn, rfl⟩ := ih.mp hrest
        exact ⟨x :: xs, congrArg (· + 1) hlength, .cons hx hturn, by rw [Array.appendList_cons]⟩
      · rintro ⟨xs, hlength, hturn, rfl⟩
        cases hturn with
        | nil => cases hlength
        | @cons s s₁ s' x xs hx hxs =>
            refine Option.bind_eq_some_iff.mpr ⟨_, (mixed_eq_some_iff hne).mpr ⟨x, rfl, hx⟩, ?_⟩
            exact ih.mpr ⟨xs, Nat.succ.inj hlength, hxs, by rw [Array.appendList_cons]⟩

end Draw

end TimingAudit
