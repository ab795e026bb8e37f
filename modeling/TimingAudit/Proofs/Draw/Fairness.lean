import TimingAudit.Proofs.Run.Inputs
import Mathlib.Order.Interval.Set.Nat

/-!
# Equal shares in a mixed draw

A mixed draw takes words from its source until one is accepted, and the index that this word stands for
decides the class. Words stand for indices in order, but the number of words is in general no multiple
of the number of indices, so without rejection some indices would have one word more than others. The
zone of acceptance evens this out: for every index it keeps a run of consecutive words, as many as a
power of two, whatever the place at which the words of the index begin.

* `accepts_and_indexOf_iff` : the words of an index are consecutive;
* `ncard_accepts_indexOf_mem` : every index has the same number of words;
* `mixed_selects_fairly` : the number of words that decide for a class.
-/

namespace TimingAudit

namespace RandomSource

/-! ## The words of an index -/

/-- The first word that stands for an index and is accepted: the smallest one whose product with `n`
reaches the index. -/
def firstWord (n i : Nat) : Nat := (i * wordCount32 + (n - 1)) / n

section Words

variable {n : Nat} (hpos : 0 < n) (hlt : n < wordCount32)

include hpos hlt

/-- The zone of acceptance takes at least half of the words, and not more than all. -/
theorem zone_bounds :
    2147483648 ≤ n * 2 ^ leadingZeros32 n ∧ n * 2 ^ leadingZeros32 n ≤ wordCount32 := by
  have hlow : 2 ^ n.log2 ≤ n := Nat.log2_self_le (Nat.ne_of_gt hpos)
  have hhigh : n < 2 ^ (n.log2 + 1) := Nat.lt_log2_self
  have hlog : n.log2 ≤ 31 := by
    apply Nat.le_of_lt_succ
    exact (Nat.log2_lt (Nat.ne_of_gt hpos)).mpr hlt
  have hzeros : leadingZeros32 n = 31 - n.log2 := if_neg (Nat.ne_of_gt hpos)
  rw [hzeros]
  constructor
  · calc 2147483648
        = 2 ^ n.log2 * 2 ^ (31 - n.log2) := by
          rw [← Nat.pow_add, Nat.add_sub_cancel' hlog]
      _ ≤ n * 2 ^ (31 - n.log2) := Nat.mul_le_mul_right _ hlow
  · calc n * 2 ^ (31 - n.log2)
        ≤ 2 ^ (n.log2 + 1) * 2 ^ (31 - n.log2) := Nat.mul_le_mul_right _ (Nat.le_of_lt hhigh)
      _ = wordCount32 := by
          have hsum : n.log2 + 1 + (31 - n.log2) = 32 := by omega
          rw [← Nat.pow_add, hsum]
          rfl

/-- **The words of an index** that are accepted are consecutive, and their number does not depend on
the index. -/
theorem accepts_and_indexOf_iff {i : Nat} {v : UInt32} :
    Accepts n v ∧ indexOf n v = i ↔
      firstWord n i ≤ v.toNat ∧ v.toNat < firstWord n i + 2 ^ leadingZeros32 n := by
  obtain ⟨hhalf, hall⟩ := zone_bounds hpos hlt
  -- A word belongs to the index if its product falls into the zone behind a multiple of all words.
  have hzone : Accepts n v ∧ indexOf n v = i ↔
      i * wordCount32 ≤ v.toNat * n ∧
        v.toNat * n < i * wordCount32 + n * 2 ^ leadingZeros32 n := by
    unfold Accepts indexOf zone
    rw [Nat.shiftLeft_eq]
    generalize n * 2 ^ leadingZeros32 n = size at *
    generalize v.toNat * n = product
    rw [wordCount32] at *
    omega
  have hreach : ∀ start, (start + (n - 1)) / n ≤ v.toNat ↔ start ≤ v.toNat * n := by
    intro start
    rw [Nat.div_le_iff_le_mul_add_pred hpos, Nat.mul_comm n]
    omega
  have hend : (i * wordCount32 + n * 2 ^ leadingZeros32 n + (n - 1)) / n =
      firstWord n i + 2 ^ leadingZeros32 n := by
    rw [firstWord, Nat.add_right_comm, Nat.add_mul_div_left _ _ hpos]
  rw [hzone, ← hreach, ← Nat.not_le, ← hreach, hend, Nat.not_le, firstWord]

/-- The words of an index in range are words. -/
theorem firstWord_add_le {i : Nat} (hi : i < n) :
    firstWord n i + 2 ^ leadingZeros32 n ≤ wordCount32 := by
  obtain ⟨-, hall⟩ := zone_bounds hpos hlt
  have hrow : i * wordCount32 + wordCount32 ≤ n * wordCount32 := by
    rw [← Nat.succ_mul]
    exact Nat.mul_le_mul_right _ hi
  rw [firstWord, ← Nat.add_mul_div_left _ _ hpos, Nat.div_le_iff_le_mul_add_pred hpos]
  omega

/-- **Every index has the same number of words.** -/
theorem ncard_accepts_indexOf_mem {indices : Set Nat} (hindices : ∀ i ∈ indices, i < n) :
    Set.ncard {v | Accepts n v ∧ indexOf n v ∈ indices} =
      indices.ncard * 2 ^ leadingZeros32 n := by
  -- A word is given by its index and by its place among the words of that index.
  have hbij : Set.BijOn (fun v => (indexOf n v, v.toNat - firstWord n (indexOf n v)))
      {v | Accepts n v ∧ indexOf n v ∈ indices} (indices ×ˢ Set.Iio (2 ^ leadingZeros32 n)) := by
    refine ⟨?_, ?_, ?_⟩
    · rintro v ⟨haccepts, hmem⟩
      obtain ⟨hfirst, hlast⟩ := (accepts_and_indexOf_iff hpos hlt).mp ⟨haccepts, rfl⟩
      refine ⟨hmem, ?_⟩
      show v.toNat - firstWord n (indexOf n v) < _
      omega
    · rintro v ⟨haccepts, -⟩ v' ⟨haccepts', -⟩ heq
      obtain ⟨hindex, hplace⟩ := Prod.mk.inj heq
      have hfirst := ((accepts_and_indexOf_iff hpos hlt).mp ⟨haccepts, rfl⟩).1
      have hfirst' := ((accepts_and_indexOf_iff hpos hlt).mp ⟨haccepts', rfl⟩).1
      rw [hindex] at hfirst hplace
      exact UInt32.toNat_inj.mp (by omega)
    · rintro ⟨i, place⟩ ⟨hi, hplace⟩
      have hplace' : place < 2 ^ leadingZeros32 n := hplace
      have hend := firstWord_add_le hpos hlt (hindices i hi)
      have hword : (UInt32.ofNat (firstWord n i + place)).toNat = firstWord n i + place :=
        UInt32.toNat_ofNat_of_lt' (Nat.lt_of_lt_of_le (Nat.add_lt_add_left hplace' _) hend)
      have hrun : Accepts n (UInt32.ofNat (firstWord n i + place)) ∧
          indexOf n (UInt32.ofNat (firstWord n i + place)) = i := by
        rw [accepts_and_indexOf_iff hpos hlt, hword]
        omega
      obtain ⟨haccepts, hindex⟩ := hrun
      refine ⟨UInt32.ofNat (firstWord n i + place), ⟨haccepts, by rwa [hindex]⟩, ?_⟩
      simp only [hindex, hword, Nat.add_sub_cancel_left]
  rw [hbij.ncard_eq, Set.ncard_prod, Set.ncard_Iio_nat]

/-- At least half of all words are accepted. -/
theorem half_le_ncard_accepts : 2147483648 ≤ Set.ncard {v | Accepts n v} := by
  have hset : {v | Accepts n v} = {v | Accepts n v ∧ indexOf n v ∈ Set.Iio n} := by
    ext v
    exact (and_iff_left (indexOf_lt hpos v)).symm
  have hall : ∀ i ∈ Set.Iio n, i < n := fun i hi => hi
  rw [hset, ncard_accepts_indexOf_mem hpos hlt hall, Set.ncard_Iio_nat]
  exact (zone_bounds hpos hlt).1

end Words

end RandomSource

namespace Draw

open RandomSource

/-! ## The words of a class -/

/-- The places of a class in a list. -/
def places (kinds : List InputClass) (k : InputClass) : Set Nat := {i | kinds[i]? = some k}

theorem lt_of_mem_places {kinds : List InputClass} {k : InputClass} {i : Nat}
    (h : i ∈ places kinds k) : i < kinds.length :=
  (List.getElem?_eq_some_iff.mp h).1

/-- A class has as many places in a list as it occurs there. -/
theorem ncard_places (kinds : List InputClass) (k : InputClass) :
    (places kinds k).ncard = kinds.count k := by
  induction kinds with
  | nil => simp [places]
  | cons k' kinds ih =>
      -- The places behind the head are those of the tail, one further on.
      have htail : (Nat.succ '' places kinds k).ncard = kinds.count k := by
        rw [Set.ncard_image_of_injective _ Nat.succ_injective, ih]
      by_cases hk : k' = k
      · have hplaces : places (k' :: kinds) k = insert 0 (Nat.succ '' places kinds k) := by
          ext i
          cases i <;> simp [places, hk]
        have hfinite : (places kinds k).Finite :=
          (Set.finite_lt_nat kinds.length).subset fun i hi => lt_of_mem_places hi
        rw [hplaces, Set.ncard_insert_of_notMem (by simp) (hfinite.image _), htail, hk,
          List.count_cons_self]
      · have hplaces : places (k' :: kinds) k = Nat.succ '' places kinds k := by
          ext i
          cases i <;> simp [places, hk]
        rw [hplaces, htail, List.count_cons_of_ne hk]

/-- **The number of words that decide for a class.** -/
theorem ncard_selects {kinds : List InputClass} (hne : kinds ≠ [])
    (hlt : kinds.length < wordCount32) (k : InputClass) :
    Set.ncard {v | Selects kinds v k} = kinds.count k * 2 ^ leadingZeros32 kinds.length := by
  rw [← ncard_places]
  exact ncard_accepts_indexOf_mem (List.length_pos_iff.mpr hne) hlt fun i => lt_of_mem_places

/-- In a list without repeats all classes have the same number of words. -/
theorem ncard_selects_of_nodup {kinds : List InputClass} (hnodup : kinds.Nodup) {k : InputClass}
    (hk : k ∈ kinds) : Set.ncard {v | Selects kinds v k} = 2 ^ leadingZeros32 kinds.length := by
  have hlength : kinds.length ≤ InputClass.all.length :=
    (List.subperm_of_subset hnodup fun k _ => InputClass.mem_all k).length_le
  have hlt : kinds.length < wordCount32 := Nat.lt_of_le_of_lt hlength (by decide)
  rw [ncard_selects (List.ne_nil_of_mem hk) hlt, List.count_eq_one_of_mem hnodup hk, Nat.one_mul]

end Draw

namespace RunConfig

open RandomSource Draw

/-- The inputs of a mixed run are drawn in turn, each from a class that a word has decided for. -/
theorem selectedInTurn_of_runMixed {σ τ : Type} [RandomSource σ] {config : RunConfig}
    {bench : Bench (StateT τ Option)} {kinds : List InputClass} (hne : kinds ≠ [])
    {source source' : σ} {s s' : τ} {d : Dataset}
    (h : config.runMixed bench kinds source s = some ((.ok d, source'), s')) :
    SelectedInTurn (firstOccurrences kinds) source d.inputs.toList source' := by
  obtain ⟨drawn, hdraw, hdata⟩ :=
    (config.perform_ensures bench (.mixed kinds) source).of_eq_some h
  obtain ⟨rfl, -⟩ := hdata d rfl
  have hroom : Store.inputs.Fits config.sampleCount.toNat := by
    by_contra hroom
    rw [draw_of_no_room (fun heq => hne (Request.mixed.inj heq)) hroom] at hdraw
    cases hdraw
  rw [draw_mixed_of_room hne hroom] at hdraw
  obtain ⟨xs, -, hturn, hxs⟩ :=
    (mixedOnto_eq_some_iff (mt firstOccurrences_eq_nil_iff.mp hne)).mp hdraw
  have hlist : d.inputs.toList = xs := by
    rw [Except.ok.inj hxs, Array.toList_appendList, List.nil_append]
  rw [hlist]
  exact hturn

/-- **Class selection is exactly fair.** In a draw among fewer than `2 ^ 32` places, a class has as many
words as it has places, times a power of two that depends on the number of places alone. At least half
of all words are accepted, and all indices are in range. A draw takes the class of the first word that
is accepted, and goes on for ever exactly if its source never shows one. A mixed run draws its inputs in
this way from the first occurrences of its classes, and there all of them have the same number of
words. -/
theorem mixed_selects_fairly (kinds : List InputClass) (hne : kinds ≠ []) :
    (kinds.length < 2 ^ 32 →
      (∀ k, Set.ncard {v | Selects kinds v k} = kinds.count k * 2 ^ leadingZeros32 kinds.length) ∧
      2 ^ 32 ≤ 2 * Set.ncard {v | Accepts kinds.length v} ∧
      (∀ v, indexOf kinds.length v < kinds.length) ∧
      ∀ {σ : Type} [RandomSource σ] (s : σ),
        (∀ i s', choose kinds.length s = some (i, s') → i < kinds.length) ∧
        (∀ drawn s', mixed kinds s = some (drawn, s') ↔
          ∃ x, drawn = .ok x ∧ Selected kinds s x s') ∧
        (mixed kinds s = none ↔ ∀ i, ¬ Accepts kinds.length (wordAt word32 i s))) ∧
    (∀ k ∈ kinds, Set.ncard {v | Selects (firstOccurrences kinds) v k} =
      2 ^ leadingZeros32 (firstOccurrences kinds).length) ∧
    ∀ {σ τ : Type} [RandomSource σ] (config : RunConfig) (bench : Bench (StateT τ Option))
      (source source' : σ) (s s' : τ) (d : Dataset),
      config.runMixed bench kinds source s = some ((.ok d, source'), s') →
      SelectedInTurn (firstOccurrences kinds) source d.inputs.toList source' := by
  have hpos : 0 < kinds.length := List.length_pos_iff.mpr hne
  refine ⟨?_, ?_, ?_⟩
  · intro hlt
    refine ⟨ncard_selects hne hlt, ?_, indexOf_lt hpos, ?_⟩
    · have hhalf := half_le_ncard_accepts hpos hlt
      omega
    · intro σ _ s
      refine ⟨?_, fun drawn s' => mixed_eq_some_iff hne, mixed_eq_none_iff hne⟩
      intro i s' hchoose
      obtain ⟨v, -, rfl⟩ := choose_eq_some_iff.mp hchoose
      exact indexOf_lt hpos v
  · intro k hk
    exact ncard_selects_of_nodup (isFirsts_firstOccurrences kinds).nodup (mem_firstOccurrences.mpr hk)
  · intro σ τ _ config bench source source' s s' d hrun
    exact selectedInTurn_of_runMixed hne hrun

/-- Two classes, one of which is listed twice. In a draw among the three places it has twice as many
words as the other; the first word of one source is passed over, and the second one decides for the
other class, while a source of a single word that is not accepted has none to decide by. A mixed run
gives both classes the same number of words, and draws its two inputs by the words of its source. -/
theorem mixed_selects_fairly_repeated :
    Set.ncard {v | Selects [.small, .fixed, .small] v .small} = 2 * 2 ^ 30 ∧
    Set.ncard {v | Selects [.small, .fixed, .small] v .fixed} = 1 * 2 ^ 30 ∧
    (∃ x s', mixed [.small, .fixed, .small] (ByteCycle.ofList [0, 0, 0, 64, 0, 0, 0, 128, 7, 255]) =
        some (.ok x, s') ∧ x.kind = .fixed ∧
      Selected [.small, .fixed, .small] (ByteCycle.ofList [0, 0, 0, 64, 0, 0, 0, 128, 7, 255]) x s') ∧
    (mixed [.small, .fixed, .small] (ByteCycle.ofList [255, 255, 255, 255]) = none ∧
      ∀ i, ¬ Accepts 3 (wordAt word32 i (ByteCycle.ofList [255, 255, 255, 255]))) ∧
    Set.ncard {v | Selects [.small, .fixed] v .small} = 2 ^ 30 ∧
    Set.ncard {v | Selects [.small, .fixed] v .fixed} = 2 ^ 30 ∧
    ∃ d source' s',
      (RunConfig.mk 2 1 1 .exhaustive).runMixed (SimulatedClock.bench .nothing).total
        [.small, .fixed, .small] (ByteCycle.ofList [0, 0, 0, 128, 0, 0, 0, 0, 7, 255])
        (.stepping 0 1) = some ((.ok d, source'), s') ∧
      SelectedInTurn [.small, .fixed] (ByteCycle.ofList [0, 0, 0, 128, 0, 0, 0, 0, 7, 255])
        d.inputs.toList source' := by
  obtain ⟨hplaces, hclasses, hruns⟩ :=
    mixed_selects_fairly [.small, .fixed, .small] (List.cons_ne_nil _ _)
  obtain ⟨hwords, -, -, hdraws⟩ := hplaces (by decide)
  refine ⟨hwords .small, hwords .fixed, ?_, ?_, hclasses .small (by decide),
    hclasses .fixed (by decide), ?_⟩
  · have heval : (mixed [.small, .fixed, .small]
        (ByteCycle.ofList [0, 0, 0, 64, 0, 0, 0, 128, 7, 255])).map Prod.fst =
          some (.ok ⟨fixedValue, fixedValue, .fixed⟩) := by decide +kernel
    obtain ⟨⟨drawn, s'⟩, hmixed, rfl⟩ := Option.map_eq_some_iff.mp heval
    obtain ⟨x, hx, hselected⟩ := ((hdraws _).2.1 _ _).mp hmixed
    cases hx
    exact ⟨_, s', hmixed, rfl, hselected⟩
  · have heval : (mixed [.small, .fixed, .small] (ByteCycle.ofList [255, 255, 255, 255])).isNone := by
      decide +kernel
    have hmixed := Option.isNone_iff_eq_none.mp heval
    exact ⟨hmixed, (hdraws _).2.2.mp hmixed⟩
  · have heval : ((RunConfig.mk 2 1 1 .exhaustive).runMixed (SimulatedClock.bench .nothing).total
        [.small, .fixed, .small] (ByteCycle.ofList [0, 0, 0, 128, 0, 0, 0, 0, 7, 255])
        (.stepping 0 1)).map (·.1.1) =
          some (.ok ⟨#[⟨fixedValue, fixedValue, .fixed⟩, ⟨7, 255, .small⟩],
            ⟨#[1, 1], #[1, 1], 2, 1, 1⟩, [.small, .fixed]⟩) := by decide +kernel
    obtain ⟨⟨⟨r, source'⟩, s'⟩, hrun, rfl⟩ := Option.map_eq_some_iff.mp heval
    exact ⟨_, _, _, hrun, hruns _ _ _ _ _ _ _ hrun⟩

end RunConfig

end TimingAudit
