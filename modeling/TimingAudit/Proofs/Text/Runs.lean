import TimingAudit.Proofs.Text
import Mathlib.Data.List.Sort
import Mathlib.Data.List.TakeWhile

/-!
# Words as maximal runs

The words of a text are read in one pass. What they are can be said of the text itself: a word
stands at a place, has no blank in it, and neither begins behind nor ends before a character that
could still join it (`RunAt`). There is one list of all words with their places, from left to right
(`IsRuns`), and the pass over the text returns it without the places.

* `wordsFrom_append_blank` : a blank cuts a text in two;
* `IsRuns.map_snd` : the words are the maximal runs;
* `isTokens_iff` : the same for the words as texts.
-/

namespace TimingAudit.Text

/-! ## Reading across a blank -/

/-- A blank in front belongs to no word. -/
theorem wordsFrom_blank {c : Char} (hc : isBlank c) (cs : List Char) :
    wordsFrom [] (c :: cs) = wordsFrom [] cs := by
  rw [wordsFrom, if_pos hc]

/-- **A blank cuts a text in two**: what was read before it has no part in what comes after it. -/
theorem wordsFrom_append_blank {c : Char} (hc : isBlank c) (us cs : List Char) :
    ∀ current, wordsFrom current (cs ++ c :: us) = wordsFrom current cs ++ wordsFrom [] us := by
  induction cs with
  | nil =>
      intro current
      cases current with
      | nil => exact wordsFrom_blank hc us
      | cons d ds =>
          simp only [List.nil_append, wordsFrom, if_pos hc, List.singleton_append]
  | cons b cs ih =>
      intro current
      cases current with
      | nil =>
          rw [List.cons_append, wordsFrom, wordsFrom]
          split
          · exact ih []
          · exact ih [b]
      | cons d ds =>
          rw [List.cons_append, wordsFrom, wordsFrom]
          split
          · rw [ih, List.cons_append]
          · exact ih (b :: d :: ds)

/-- Blanks in front belong to no word. -/
theorem wordsFrom_blanks {bs : List Char} (hbs : ∀ c ∈ bs, isBlank c) (cs : List Char) :
    wordsFrom [] (bs ++ cs) = wordsFrom [] cs := by
  induction bs with
  | nil => rfl
  | cons b bs ih =>
      rw [List.cons_append, wordsFrom_blank (hbs b List.mem_cons_self),
        ih fun c hc => hbs c (List.mem_cons_of_mem _ hc)]

/-- A text of blanks has no words. -/
theorem wordsFrom_of_blanks {bs : List Char} (hbs : ∀ c ∈ bs, isBlank c) : wordsFrom [] bs = [] := by
  rw [← List.append_nil bs, wordsFrom_blanks hbs]
  rfl

/-- A word is complete before a blank and at the end of the text. -/
theorem IsWord.wordsFrom_cut {w : List Char} (h : IsWord w) {cs : List Char}
    (hcs : ∀ c ∈ cs.head?, isBlank c) : wordsFrom [] (w ++ cs) = w :: wordsFrom [] cs := by
  cases cs with
  | nil =>
      rw [List.append_nil, h.wordsFrom_self]
      rfl
  | cons c cs =>
      have hc : isBlank c := hcs c rfl
      rw [h.wordsFrom_blank hc, Text.wordsFrom_blank hc]

/-! ## Taking a text apart -/

/-- What is left of a text behind its leading characters that are not blank is empty or begins with a
blank. -/
theorem isBlank_of_mem_head?_dropWhile (cs : List Char) :
    ∀ c ∈ (cs.dropWhile fun c => !isBlank c).head?, isBlank c := by
  intro c hc
  have hnot := List.head?_dropWhile_not (fun c => !isBlank c) cs
  rw [Option.mem_def.mp hc] at hnot
  simpa using hnot

/-- **Induction over a text**: it is empty, or it begins with a blank, or it begins with a word that
is complete. -/
@[elab_as_elim] theorem text_induction {P : List Char → Prop} (nil : P [])
    (blank : ∀ c cs, isBlank c → P cs → P (c :: cs))
    (word : ∀ w cs, IsWord w → (∀ c ∈ cs.head?, isBlank c) → P cs → P (w ++ cs)) :
    ∀ cs, P cs := by
  intro cs
  induction hn : cs.length using Nat.strong_induction_on generalizing cs with
  | _ n ih =>
      subst hn
      cases cs with
      | nil => exact nil
      | cons c cs =>
          by_cases hc : isBlank c
          · exact blank c cs hc (ih cs.length (by simp) cs rfl)
          · -- The word goes up to the next blank.
            have hletter : (!isBlank c) = true := by simpa using hc
            have hword : IsWord (c :: cs.takeWhile fun c => !isBlank c) := by
              refine ⟨List.cons_ne_nil _ _, fun b hb => ?_⟩
              rcases List.mem_cons.mp hb with rfl | hb
              · simpa using hc
              · simpa using List.mem_takeWhile_imp hb
            have hshort : (cs.dropWhile fun c => !isBlank c).length < (c :: cs).length :=
              Nat.lt_succ_of_le (List.dropWhile_suffix _).length_le
            have hrest := word _ _ hword (isBlank_of_mem_head?_dropWhile cs) (ih _ hshort _ rfl)
            rwa [List.cons_append, List.takeWhile_append_dropWhile] at hrest

/-! ## Maximal runs -/

/-- The word `w` stands in `cs` at place `i`, and no character next to it could join it. -/
def RunAt (cs : List Char) (i : Nat) (w : List Char) : Prop :=
  ∃ before after, cs = before ++ (w ++ after) ∧ before.length = i ∧ IsWord w ∧
    (∀ c ∈ before.getLast?, isBlank c) ∧ ∀ c ∈ after.head?, isBlank c

/-- The words of `cs` with their places, from left to right. -/
structure IsRuns (cs : List Char) (runs : List (Nat × List Char)) : Prop where
  mem_iff : ∀ i w, (i, w) ∈ runs ↔ RunAt cs i w
  ordered : runs.Pairwise fun r r' => r.1 < r'.1

/-- **There is one such list**: the places leave no choice. -/
theorem IsRuns.eq {cs : List Char} {runs runs' : List (Nat × List Char)} (h : IsRuns cs runs)
    (h' : IsRuns cs runs') : runs = runs' := by
  have : Std.Irrefl fun r r' : Nat × List Char => r.1 < r'.1 := ⟨fun r => Nat.lt_irrefl r.1⟩
  have : Std.Antisymm fun r r' : Nat × List Char => r.1 < r'.1 :=
    ⟨fun _ _ hlt hgt => absurd hlt (Nat.lt_asymm hgt)⟩
  refine h.ordered.eq_of_mem_iff h'.ordered fun r => ?_
  exact (h.mem_iff r.1 r.2).trans (h'.mem_iff r.1 r.2).symm

/-- A run does not begin in front of a text that begins with a blank. -/
theorem IsWord.append_ne {w : List Char} (h : IsWord w) {cs : List Char}
    (hcs : ∀ c ∈ cs.head?, isBlank c) (after : List Char) : w ++ after ≠ cs := by
  rintro rfl
  obtain ⟨c, w, rfl⟩ := List.exists_cons_of_ne_nil h.1
  have hc := hcs c rfl
  rw [h.2 c List.mem_cons_self] at hc
  cases hc

/-- Two complete words in front of the same text are the same. -/
theorem IsWord.eq_of_append_eq {w u cs after : List Char} (hw : IsWord w) (hu : IsWord u)
    (hafter : ∀ c ∈ after.head?, isBlank c) (hcs : ∀ c ∈ cs.head?, isBlank c)
    (h : w ++ after = u ++ cs) : w = u := by
  have hread := congrArg (wordsFrom []) h
  rw [hw.wordsFrom_cut hafter, hu.wordsFrom_cut hcs] at hread
  exact (List.cons.inj hread).1

/-- An empty text has no runs. -/
theorem not_runAt_nil {i : Nat} {w : List Char} : ¬ RunAt [] i w := by
  rintro ⟨before, after, hcs, -, hw, -⟩
  have hempty := (List.append_eq_nil_iff.mp hcs.symm).2
  exact hw.1 (List.append_eq_nil_iff.mp hempty).1

/-- Behind a blank every run stands one place later. -/
theorem runAt_blank_iff {c : Char} (hc : isBlank c) {cs w : List Char} {i : Nat} :
    RunAt (c :: cs) i w ↔ ∃ j, j + 1 = i ∧ RunAt cs j w := by
  constructor
  · rintro ⟨before, after, hcs, rfl, hw, hbefore, hafter⟩
    cases before with
    | nil =>
        have hhead : ∀ b ∈ (c :: cs).head?, isBlank b := by
          rintro b ⟨⟩
          exact hc
        exact absurd hcs.symm (hw.append_ne hhead after)
    | cons b before =>
        obtain ⟨rfl, rfl⟩ := List.cons.inj hcs
        refine ⟨before.length, rfl, before, after, rfl, rfl, hw, ?_, hafter⟩
        intro d hd
        refine hbefore d ?_
        rw [Option.mem_def] at hd ⊢
        rw [List.getLast?_cons, hd, Option.getD_some]
  · rintro ⟨_, rfl, before, after, rfl, rfl, hw, hbefore, hafter⟩
    refine ⟨c :: before, after, rfl, rfl, hw, ?_, hafter⟩
    intro d hd
    rw [Option.mem_def, List.getLast?_cons, Option.some.injEq] at hd
    cases hlast : before.getLast? with
    | none =>
        rw [hlast, Option.getD_none] at hd
        exact hd ▸ hc
    | some e =>
        rw [hlast, Option.getD_some] at hd
        exact hbefore d (hd ▸ hlast)

/-- The first run is the word in front, and the others stand behind it. -/
theorem runAt_word_iff {u cs : List Char} (hu : IsWord u) (hcs : ∀ c ∈ cs.head?, isBlank c)
    {i : Nat} {w : List Char} :
    RunAt (u ++ cs) i w ↔ (i = 0 ∧ w = u) ∨ ∃ j, j + u.length = i ∧ RunAt cs j w := by
  constructor
  · rintro ⟨before, after, heq, rfl, hw, hbefore, hafter⟩
    rcases List.append_eq_append_iff.mp heq with ⟨gap, rfl, hgap⟩ | ⟨inside, hinside, hrest⟩
    · -- The run begins behind the first word; not right behind it, where the blank is.
      have hne : gap ≠ [] := by
        rintro rfl
        exact hw.append_ne hcs after hgap.symm
      refine .inr ⟨gap.length, ?_, gap, after, hgap, rfl, hw, ?_, hafter⟩
      · rw [List.length_append, Nat.add_comm]
      · intro c hc
        exact hbefore c (by rw [List.getLast?_append_of_ne_nil _ hne]; exact hc)
    · -- It begins inside of the first word, where nothing before it is blank.
      cases hlast : before.getLast? with
      | none =>
          obtain rfl := List.getLast?_eq_none_iff.mp hlast
          exact .inl ⟨rfl, hw.eq_of_append_eq hu hafter hcs heq.symm⟩
      | some c =>
          have hmem : c ∈ u := by
            rw [hinside]
            exact List.mem_append_left _ (List.mem_of_getLast? hlast)
          have hblank := hbefore c hlast
          rw [hu.2 c hmem] at hblank
          cases hblank
  · rintro (⟨rfl, rfl⟩ | ⟨_, rfl, before, after, rfl, rfl, hw, hbefore, hafter⟩)
    · exact ⟨[], cs, rfl, rfl, hu, nofun, hcs⟩
    · have hne : before ≠ [] := by
        rintro rfl
        exact hw.append_ne hcs after rfl
      refine ⟨u ++ before, after, (List.append_assoc ..).symm, ?_, hw, ?_, hafter⟩
      · rw [List.length_append, Nat.add_comm]
      · intro c hc
        rw [List.getLast?_append_of_ne_nil _ hne] at hc
        exact hbefore c hc

/-- The runs of a text behind `n` more characters. -/
def shifted (n : Nat) (runs : List (Nat × List Char)) : List (Nat × List Char) :=
  runs.map fun r => (r.1 + n, r.2)

theorem mem_shifted {n i : Nat} {w : List Char} {runs : List (Nat × List Char)} :
    (i, w) ∈ shifted n runs ↔ ∃ j, j + n = i ∧ (j, w) ∈ runs := by
  simp only [shifted, List.mem_map, Prod.mk.injEq, Prod.exists]
  constructor
  · rintro ⟨j, _, hmem, hj, rfl⟩
    exact ⟨j, hj, hmem⟩
  · rintro ⟨j, hj, hmem⟩
    exact ⟨j, w, hmem, hj, rfl⟩

theorem pairwise_shifted {n : Nat} {runs : List (Nat × List Char)}
    (h : runs.Pairwise fun r r' => r.1 < r'.1) :
    (shifted n runs).Pairwise fun r r' => r.1 < r'.1 :=
  h.map _ fun _ _ hlt => Nat.add_lt_add_right hlt n

theorem map_snd_shifted (n : Nat) (runs : List (Nat × List Char)) :
    (shifted n runs).map Prod.snd = runs.map Prod.snd := by
  rw [shifted, List.map_map]
  rfl

/-- The runs of a text, and the words that are read in it. -/
theorem exists_isRuns (cs : List Char) :
    ∃ runs, IsRuns cs runs ∧ runs.map Prod.snd = wordsFrom [] cs := by
  induction cs using text_induction with
  | nil => exact ⟨[], ⟨fun i w => iff_of_false List.not_mem_nil not_runAt_nil, .nil⟩, rfl⟩
  | blank c cs hc ih =>
      obtain ⟨runs, hruns, hwords⟩ := ih
      refine ⟨shifted 1 runs, ⟨fun i w => ?_, pairwise_shifted hruns.ordered⟩, ?_⟩
      · simp only [mem_shifted, runAt_blank_iff hc, hruns.mem_iff]
      · rw [map_snd_shifted, hwords, wordsFrom_blank hc]
  | word u cs hu hcs ih =>
      obtain ⟨runs, hruns, hwords⟩ := ih
      refine ⟨(0, u) :: shifted u.length runs, ⟨fun i w => ?_, ?_⟩, ?_⟩
      · simp only [List.mem_cons, Prod.mk.injEq, mem_shifted, runAt_word_iff hu hcs, hruns.mem_iff]
      · refine List.pairwise_cons.mpr ⟨?_, pairwise_shifted hruns.ordered⟩
        rintro ⟨i, w⟩ hmem
        obtain ⟨j, rfl, -⟩ := mem_shifted.mp hmem
        exact Nat.add_pos_right j (List.length_pos_of_ne_nil hu.1)
      · rw [List.map_cons, map_snd_shifted, hwords, hu.wordsFrom_cut hcs]

/-- **The words of a text are its maximal runs** of characters that are not blank. -/
theorem IsRuns.map_snd {cs : List Char} {runs : List (Nat × List Char)} (h : IsRuns cs runs) :
    runs.map Prod.snd = wordsFrom [] cs := by
  obtain ⟨runs', hruns', hwords⟩ := exists_isRuns cs
  rw [h.eq hruns', hwords]

/-! ## Words as texts -/

/-- `tokens` are the maximal runs of characters of `s` that are not blank, from left to right. -/
def IsTokens (s : String) (tokens : List String) : Prop :=
  ∃ runs, IsRuns s.toList runs ∧ tokens = runs.map fun r => String.ofList r.2

/-- The maximal runs of a text are the words that are read in it. -/
theorem isTokens_iff {s : String} {tokens : List String} : IsTokens s tokens ↔ tokens = words s := by
  have hwords : ∀ {runs}, IsRuns s.toList runs →
      (runs.map fun r => String.ofList r.2) = words s := by
    intro runs hruns
    rw [words, ← hruns.map_snd, List.map_map]
    rfl
  constructor
  · rintro ⟨runs, hruns, rfl⟩
    exact hwords hruns
  · rintro rfl
    obtain ⟨runs, hruns, -⟩ := exists_isRuns s.toList
    exact ⟨runs, hruns, (hwords hruns).symm⟩

/-- A text of blanks, or none at all. -/
def AllBlank (s : String) : Prop := ∀ c ∈ s.toList, isBlank c

instance (s : String) : Decidable (AllBlank s) := List.decidableBAll _ _

/-- **A blank cuts a text in two.** -/
theorem words_append_blank {c : Char} (hc : isBlank c) (s u : String) :
    words (s ++ String.singleton c ++ u) = words s ++ words u := by
  have hchars : (s ++ String.singleton c ++ u).toList = s.toList ++ c :: u.toList := by
    simp [String.toList_append]
  rw [words, words, words, hchars, wordsFrom_append_blank hc, List.map_append]

end TimingAudit.Text
