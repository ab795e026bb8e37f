import TimingAudit.Proofs.Text.Runs

/-!
# The grammar of class lists

A text lists classes if every word in it is the name of one, and then it stands for these classes, in
order and with their repeats; otherwise the first word that is no name is reported. Words are the
maximal runs of the text (`Text.IsTokens`), so any blanks may stand between, before and behind them.

* `classesOfNames_eq_ok_iff`, `classesOfNames_eq_error_iff` : names;
* `words_listing` : classes with blanks between them;
* `parse_grammar` : texts.
-/

namespace TimingAudit

namespace InputClass

/-- A text that is the name of a class, letter case included. -/
def IsName (t : String) : Prop := ∃ k : InputClass, k.name = t

/-- The class with a given name is the one that has it. -/
theorem ofName?_eq_some_iff {t : String} {k : InputClass} : ofName? t = some k ↔ k.name = t := by
  constructor
  · intro h
    rw [ofName?] at h
    have hname := List.find?_some h
    exact eq_of_beq hname
  · rintro rfl
    exact ofName?_name k

theorem ofName?_eq_none_iff {t : String} : ofName? t = none ↔ ¬ IsName t := by
  simp only [Option.eq_none_iff_forall_ne_some, IsName, not_exists, ne_eq, ofName?_eq_some_iff]

instance (t : String) : Decidable (IsName t) :=
  decidable_of_iff ((ofName? t).isSome = true) <| by
    simp only [Option.isSome_iff_exists, ofName?_eq_some_iff, IsName]

end InputClass

namespace ClassQueue

/-! ## Names -/

/-- `t` is the first of the texts that is no name of a class. -/
def IsFirstUnknown (tokens : List String) (t : String) : Prop :=
  ∃ before after, tokens = before ++ t :: after ∧ (∀ t' ∈ before, InputClass.IsName t') ∧
    ¬ InputClass.IsName t

theorem not_isFirstUnknown_nil {t : String} : ¬ IsFirstUnknown [] t := by
  rintro ⟨before, after, h, -⟩
  exact List.append_ne_nil_of_right_ne_nil before (List.cons_ne_nil t after) h.symm

/-- The first text decides, if it is no name. -/
theorem isFirstUnknown_cons_of_not {s : String} (hs : ¬ InputClass.IsName s) {names : List String}
    {t : String} : IsFirstUnknown (s :: names) t ↔ t = s := by
  constructor
  · rintro ⟨before, after, h, hbefore, -⟩
    cases before with
    | nil => exact (List.cons.inj h).1.symm
    | cons s' before =>
        obtain rfl := (List.cons.inj h).1
        exact absurd (hbefore s List.mem_cons_self) hs
  · rintro rfl
    exact ⟨[], names, rfl, nofun, hs⟩

/-- A name in front does not matter. -/
theorem isFirstUnknown_cons {s : String} (hs : InputClass.IsName s) {names : List String}
    {t : String} : IsFirstUnknown (s :: names) t ↔ IsFirstUnknown names t := by
  constructor
  · rintro ⟨before, after, h, hbefore, ht⟩
    cases before with
    | nil =>
        obtain rfl := (List.cons.inj h).1
        exact absurd hs ht
    | cons s' before =>
        exact ⟨before, after, (List.cons.inj h).2,
          fun t' ht' => hbefore t' (List.mem_cons_of_mem _ ht'), ht⟩
  · rintro ⟨before, after, rfl, hbefore, ht⟩
    exact ⟨s :: before, after, rfl, List.forall_mem_cons.mpr ⟨hs, hbefore⟩, ht⟩

/-- **The classes with given names** are those that have them. -/
theorem classesOfNames_eq_ok_iff {names : List String} {ks : List InputClass} :
    classesOfNames names = .ok ks ↔ ks.map InputClass.name = names := by
  constructor
  · induction names generalizing ks with
    | nil =>
        rintro ⟨⟩
        rfl
    | cons s names ih =>
        intro h
        rw [classesOfNames] at h
        split at h
        · cases h
        · rename_i k hk
          split at h
          · cases h
          · rename_i ks' hks'
            obtain rfl := Except.ok.inj h
            rw [List.map_cons, ih hks', InputClass.ofName?_eq_some_iff.mp hk]
  · rintro rfl
    exact classesOfNames_map_name ks

/-- **Names are refused** for the first one that is no name of a class. -/
theorem classesOfNames_eq_error_iff {names : List String} {f : Failure} :
    classesOfNames names = .error f ↔ ∃ t, IsFirstUnknown names t ∧ f = .unknownClass t := by
  induction names with
  | nil =>
      rw [classesOfNames]
      simp only [not_isFirstUnknown_nil, false_and, exists_false, reduceCtorEq]
  | cons s names ih =>
      rw [classesOfNames]
      split
      · rename_i hs
        simp only [isFirstUnknown_cons_of_not (InputClass.ofName?_eq_none_iff.mp hs),
          exists_eq_left, Except.error.injEq]
        exact eq_comm
      · rename_i k hk
        simp only [isFirstUnknown_cons ⟨k, InputClass.ofName?_eq_some_iff.mp hk⟩, ← ih]
        cases classesOfNames names with
        | error f' => exact Iff.rfl
        | ok ks => simp only [reduceCtorEq]

/-- A list of classes is read from a text if its words are their names. -/
theorem parse_eq_ok_iff {s : String} {q : ClassQueue} :
    parse s = .ok q ↔ q.toList.map InputClass.name = Text.words s := by
  rw [← classesOfNames_eq_ok_iff, parse]
  cases classesOfNames (Text.words s) with
  | error f => simp only [Except.map, reduceCtorEq]
  | ok ks =>
      constructor
      · rintro ⟨⟩
        rfl
      · rintro ⟨⟩
        rfl

/-- A text is refused for its first word that is no name. -/
theorem parse_eq_error_iff {s : String} {f : Failure} :
    parse s = .error f ↔ ∃ t, IsFirstUnknown (Text.words s) t ∧ f = .unknownClass t := by
  rw [← classesOfNames_eq_error_iff, parse]
  cases classesOfNames (Text.words s) with
  | error f' => simp only [Except.map, Except.error.injEq]
  | ok ks => simp only [Except.map, reduceCtorEq]

/-- A text is accepted if all of its words are names. -/
theorem exists_parse_eq_ok_iff {s : String} :
    (∃ q, parse s = .ok q) ↔ ∀ t ∈ Text.words s, InputClass.IsName t := by
  constructor
  · rintro ⟨q, hq⟩ t ht
    rw [← parse_eq_ok_iff.mp hq] at ht
    obtain ⟨k, -, hk⟩ := List.mem_map.mp ht
    exact ⟨k, hk⟩
  · intro h
    cases hparse : parse s with
    | ok q => exact ⟨q, rfl⟩
    | error f =>
        obtain ⟨t, ⟨before, after, hwords, -, ht⟩, -⟩ := parse_eq_error_iff.mp hparse
        refine absurd (h t ?_) ht
        rw [hwords]
        exact List.mem_append_right _ List.mem_cons_self

/-! ## Classes with blanks between them -/

/-- The names of classes, each behind a text of its own, and one more text behind all of them. -/
def listing (trailing : String) : List (String × InputClass) → String
  | [] => trailing
  | (gap, k) :: parts => gap ++ k.name ++ listing trailing parts

/-- The texts around the names are blank, and none is missing between two names. -/
structure Separated (trailing : String) (parts : List (String × InputClass)) : Prop where
  blank : ∀ p ∈ parts, Text.AllBlank p.1
  gap : ∀ p ∈ parts.tail, p.1 ≠ ""
  trailing : Text.AllBlank trailing

theorem Separated.tail {trailing : String} {p : String × InputClass}
    {parts : List (String × InputClass)} (h : Separated trailing (p :: parts)) :
    Separated trailing parts where
  blank p' hp' := h.blank p' (List.mem_cons_of_mem _ hp')
  gap p' hp' := h.gap p' (List.mem_of_mem_tail hp')
  trailing := h.trailing

/-- A name is followed by a blank, if by anything. -/
theorem Separated.isBlank_head? {trailing : String} {p : String × InputClass}
    {parts : List (String × InputClass)} (h : Separated trailing (p :: parts)) :
    ∀ c ∈ (listing trailing parts).toList.head?, Text.isBlank c := by
  intro c hc
  cases parts with
  | nil => exact h.trailing c (List.mem_of_mem_head? hc)
  | cons p' parts =>
      have hne : p'.1.toList ≠ [] := fun hnil =>
        h.gap p' List.mem_cons_self (String.toList_eq_nil_iff.mp hnil)
      rw [listing, String.toList_append, String.toList_append, List.append_assoc,
        List.head?_append_of_ne_nil _ hne] at hc
      exact h.blank p' (List.mem_cons_of_mem _ List.mem_cons_self) c (List.mem_of_mem_head? hc)

/-- **Names with blanks around them** are the words of the text. -/
theorem words_listing {trailing : String} {parts : List (String × InputClass)}
    (h : Separated trailing parts) :
    Text.words (listing trailing parts) = parts.map fun p => p.2.name := by
  induction parts with
  | nil =>
      rw [listing, Text.words, Text.wordsFrom_of_blanks h.trailing]
      rfl
  | cons p parts ih =>
      have hread : Text.wordsFrom [] (listing trailing (p :: parts)).toList =
          p.2.name.toList :: Text.wordsFrom [] (listing trailing parts).toList := by
        rw [listing, String.toList_append, String.toList_append, List.append_assoc,
          Text.wordsFrom_blanks (h.blank p List.mem_cons_self),
          p.2.isWord_name.wordsFrom_cut h.isBlank_head?]
      rw [Text.words, hread, List.map_cons, List.map_cons, String.ofList_toList, ← ih h.tail,
        Text.words]

/-! ## Texts -/

/-- **The grammar of class lists.** The words of a text are its maximal runs without blanks. It is
accepted exactly if all of them are names of classes, and then read as these classes in order;
otherwise the first word that is no name is reported. So classes with any blanks around their names
are read back, and what stands on both sides of a blank is read one after the other. -/
theorem parse_grammar :
    (∀ s, (∃! tokens, Text.IsTokens s tokens) ∧
      ∀ tokens, Text.IsTokens s tokens →
        ((∃ q, parse s = .ok q) ↔ ∀ t ∈ tokens, InputClass.IsName t) ∧
        (∀ q, parse s = .ok q ↔ q.toList.map InputClass.name = tokens) ∧
        ∀ f, parse s = .error f ↔ ∃ t, IsFirstUnknown tokens t ∧ f = .unknownClass t) ∧
    (∀ trailing parts, Separated trailing parts →
      parse (listing trailing parts) = .ok ⟨parts.map Prod.snd⟩) ∧
    ∀ s u c, Text.isBlank c → ∀ q q', parse s = .ok q → parse u = .ok q' →
      parse (s ++ String.singleton c ++ u) = .ok ⟨q.toList ++ q'.toList⟩ := by
  refine ⟨fun s => ⟨?_, ?_⟩, ?_, ?_⟩
  · simp only [Text.isTokens_iff]
    exact existsUnique_eq
  · intro tokens htokens
    obtain rfl := Text.isTokens_iff.mp htokens
    exact ⟨exists_parse_eq_ok_iff, fun q => parse_eq_ok_iff, fun f => parse_eq_error_iff⟩
  · intro trailing parts h
    rw [parse_eq_ok_iff, words_listing h, List.map_map]
    rfl
  · intro s u c hc q q' hq hq'
    rw [parse_eq_ok_iff] at hq hq' ⊢
    rw [Text.words_append_blank hc, List.map_append, hq, hq']

/-- Names that end in other names, behind blanks of several kinds. The sixth word differs from a name
in one letter and is reported; without it and what follows the text is read. -/
theorem parse_grammar_letter_case :
    parse "\t umax64\u0085max64 xzero \n zero zero　Zero yzero nothing" =
      .error (.unknownClass "Zero") ∧
    parse "\t umax64\u0085max64 xzero \n zero zero　" =
      .ok ⟨[.umax64, .max64, .xzero, .zero, .zero]⟩ ∧
    parse "\t umax64\u0085max64 xzero \n zero zero　\nyzero" =
      .ok ⟨[.umax64, .max64, .xzero, .zero, .zero, .yzero]⟩ := by
  have hread : parse "\t umax64\u0085max64 xzero \n zero zero　" =
      .ok ⟨[.umax64, .max64, .xzero, .zero, .zero]⟩ := by
    refine parse_grammar.2.1 "　" [("\t ", .umax64), ("\u0085", .max64), (" ", .xzero),
      (" \n ", .zero), (" ", .zero)] ⟨?_, by decide, by decide⟩
    decide
  refine ⟨?_, hread, ?_⟩
  · refine (((parse_grammar.1 _).2 ["umax64", "max64", "xzero", "zero", "zero", "Zero", "yzero",
      "nothing"] (Text.isTokens_iff.mpr (by decide))).2.2 _).mpr ⟨"Zero", ?_, rfl⟩
    exact ⟨["umax64", "max64", "xzero", "zero", "zero"], ["yzero", "nothing"], rfl, by decide,
      by decide⟩
  · exact parse_grammar.2.2 _ "yzero" '\n' (by decide) _ ⟨[.yzero]⟩ hread (by decide)

end ClassQueue

end TimingAudit
