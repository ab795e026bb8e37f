import TimingAudit.Proofs.CommandLine.Items
import TimingAudit.Proofs.Text
import Mathlib.Data.List.Nodup

/-!
# Options written and read back

Options are written as their three positional arguments and as tokens for everything else that they
set. The two halves of the way back meet at `Written`: a reading in which exactly what was written
stands, once each, in any order. Reading the arguments gives such a reading, and such a reading stands
for the options.

* `written_of_perm` : tokens in any order;
* `Written.complaint?_eq_none`, `Written.options_eq` : what such a reading stands for;
* `options_written` : command lines.
-/

namespace TimingAudit

namespace Options

/-- The text of the value that is set for an option, if there is one. -/
def valueText (o : Options) : ValueOption → Option String
  | .iterations => some (toString o.iterations.toNat)
  | .repeats => some (toString o.repeats.toNat)
  | .outDir => some o.outDir
  | .seed => o.seed.map fun n => toString n.toNat
  | .earlyExit => o.earlyExit.map fun n => toString n.toNat

/-- Whether a switch is set. -/
def switched (o : Options) : Switch → Bool
  | .mixed => o.mixed
  | .buffered => o.buffered

/-- The tokens for all that is set. -/
def tokens (o : Options) : List CommandLine.Token :=
  ValueOption.all.filterMap (fun v => (o.valueText v).map (.value v)) ++
    (Switch.all.filter o.switched).map .switch

/-- The positional arguments: the sample count, the label, and the classes with single spaces between
them. -/
def positionals (o : Options) : List Argument :=
  [.ofString (toString o.sampleCount.toNat), .ofString o.label,
    .ofString (" ".intercalate (o.classes.toList.map InputClass.name))]

end Options

namespace CommandLine

/-! ## What was written -/

/-- What was written of the options, each option and each switch once. -/
structure Written (o : Options) (r : Reading) : Prop where
  positionals : r.positionals = o.positionals
  mem_values : ∀ v a,
    (v, a) ∈ r.values ↔ ∃ text, o.valueText v = some text ∧ a = some (.ofString text)
  nodup_values : (r.values.map Prod.fst).Nodup
  mem_switches : ∀ s, s ∈ r.switches ↔ o.switched s
  nodup_switches : r.switches.Nodup

/-- The options that are written. -/
theorem filterMap_value?_tokens (o : Options) :
    o.tokens.filterMap Token.value? =
      ValueOption.all.filterMap fun v =>
        (o.valueText v).map fun text => (v, some (.ofString text)) := by
  have hswitches :
      ((Switch.all.filter o.switched).map Token.switch).filterMap Token.value? = [] := by
    rw [List.filterMap_map]
    exact List.filterMap_eq_nil_iff.mpr fun s _ => rfl
  rw [Options.tokens, List.filterMap_append, hswitches, List.append_nil, List.filterMap_filterMap]
  congr 1
  funext v
  cases o.valueText v <;> rfl

/-- The switches that are written. -/
theorem filterMap_switch?_tokens (o : Options) :
    o.tokens.filterMap Token.switch? = Switch.all.filter o.switched := by
  have hvalues : (ValueOption.all.filterMap fun v => (o.valueText v).map (Token.value v)).filterMap
      Token.switch? = [] := by
    rw [List.filterMap_filterMap]
    exact List.filterMap_eq_nil_iff.mpr fun v _ => by cases o.valueText v <;> rfl
  rw [Options.tokens, List.filterMap_append, hvalues, List.nil_append, List.filterMap_map]
  exact List.filterMap_some

/-- Tokens may be written in any order. -/
theorem written_of_perm {o : Options} {tokens : List Token} (h : tokens.Perm o.tokens) :
    Written o (Reading.extend {} tokens o.positionals) := by
  have hvalues := h.filterMap Token.value?
  have hswitches := h.filterMap Token.switch?
  rw [filterMap_value?_tokens] at hvalues
  rw [filterMap_switch?_tokens] at hswitches
  constructor
  · rfl
  · intro v a
    show (v, a) ∈ [] ++ tokens.filterMap Token.value? ↔ _
    rw [List.nil_append, hvalues.mem_iff, List.mem_filterMap]
    constructor
    · rintro ⟨v', -, hv'⟩
      obtain ⟨text, htext, hpair⟩ := Option.map_eq_some_iff.mp hv'
      cases hpair
      exact ⟨text, htext, rfl⟩
    · rintro ⟨text, htext, rfl⟩
      exact ⟨v, by cases v <;> decide, by rw [htext]; rfl⟩
  · show (([] ++ tokens.filterMap Token.value?).map Prod.fst).Nodup
    rw [List.nil_append, (hvalues.map Prod.fst).nodup_iff, List.map_filterMap]
    -- Each entry goes by the option that it was made from.
    refine List.Nodup.filterMap (fun v v' w hv hv' => ?_) (by decide)
    cases htext : o.valueText v <;> cases htext' : o.valueText v' <;> simp_all
  · intro s
    show s ∈ [] ++ tokens.filterMap Token.switch? ↔ _
    rw [List.nil_append, hswitches.mem_iff, List.mem_filter]
    exact and_iff_right (by cases s <;> decide)
  · show ([] ++ tokens.filterMap Token.switch?).Nodup
    rw [List.nil_append, hswitches.nodup_iff]
    exact List.Nodup.filter _ (by decide)

/-- Where no key stands twice, each is found once at most. -/
theorem length_filter_le_one {α κ : Type} [DecidableEq κ] {key : α → κ} {l : List α}
    (h : (l.map key).Nodup) (k : κ) : (l.filter fun x => key x = k).length ≤ 1 := by
  have hcount := List.nodup_iff_count_le_one.mp h k
  rw [List.count, List.countP_map, List.countP_eq_length_filter] at hcount
  simpa [Function.comp_def, beq_eq_decide] using hcount

namespace Written

variable {o : Options} {r : Reading} (h : Written o r)

include h

/-- The value of an option is the one that was written. -/
theorem value?_eq (v : ValueOption) : r.value? v = (o.valueText v).map Argument.ofString := by
  unfold Reading.value?
  -- All entries of an option have the same value, so it does not matter which one is found.
  cases hfind : r.values.find? fun x => x.1 = v with
  | none =>
      cases htext : o.valueText v with
      | none => rfl
      | some text =>
          have hmem := (h.mem_values v _).mpr ⟨text, htext, rfl⟩
          have hkey := List.find?_eq_none.mp hfind _ hmem
          simp at hkey
  | some x =>
      obtain ⟨v', a⟩ := x
      have hkey : v' = v := by simpa using List.find?_some hfind
      obtain ⟨text, htext, rfl⟩ := (h.mem_values v' a).mp (List.mem_of_find?_eq_some hfind)
      rw [← hkey, htext]
      rfl

/-- No option lacks its value. -/
theorem emptyOption?_eq_none : emptyOption? r = none := by
  rw [emptyOption?, Option.map_eq_none_iff, List.find?_eq_none]
  rintro ⟨v, a⟩ hmem
  have hmem' := List.mem_reverse.mp hmem
  obtain ⟨text, -, rfl⟩ := (h.mem_values v a).mp hmem'
  have hvalue : r.hasValue v = true := List.any_eq_true.mpr ⟨_, hmem', by simp⟩
  rw [hvalue]
  decide

/-- Nothing was given twice. -/
theorem repeated?_eq_none : repeated? r = none := by
  have hoption : (ValueOption.all.find? fun v =>
      1 < (r.values.filter fun x => x.1 = v).length) = none := by
    rw [List.find?_eq_none]
    intro v _
    simpa using length_filter_le_one h.nodup_values v
  have hswitch : (Switch.all.find? fun s => 1 < (r.switches.filter (· = s)).length) = none := by
    have hnodup : (r.switches.map id).Nodup := by
      rw [List.map_id]
      exact h.nodup_switches
    rw [List.find?_eq_none]
    intro s _
    simpa using length_filter_le_one hnodup s
  rw [repeated?, hoption, hswitch]
  rfl

/-- **Nothing is wrong** with what was written. -/
theorem complaint?_eq_none : complaint? r = none := by
  have hmissing : missingItems r = [] := by
    rw [missingItems, h.positionals]
    rfl
  rw [complaint?, if_neg (by simp [hmissing]), h.emptyOption?_eq_none]
  exact h.repeated?_eq_none

end Written

/-! ## Values -/

theorem textOf_ofString (s : String) : textOf (Argument.ofString s) = .ok s := by
  rw [textOf, Argument.text?_ofString]

theorem numberOf_of_eq_some {item : NumberItem} {reader : List Char → Option UInt64} {s : String}
    {n : UInt64} (h : reader s.toList = some n) : numberOf item reader s = .ok n := by
  rw [numberOf, h]

/-- A number that may be written is read back. -/
theorem numberOf?_toString (item : NumberItem) {reader : List Char → Option UInt64}
    (hreader : ∀ n : UInt64, reader (toString n.toNat).toList = some n) (number : Option UInt64) :
    numberOf? item reader ((number.map fun n => toString n.toNat).map Argument.ofString) =
      .ok number := by
  cases number with
  | none => rfl
  | some n =>
      show (textOf (Argument.ofString (toString n.toNat)) >>= _) = _
      rw [textOf_ofString]
      show (numberOf item reader (toString n.toNat) >>= _) = _
      rw [numberOf_of_eq_some (hreader n)]
      rfl

/-- **What was written stands for the options.** -/
theorem Written.options_eq {o : Options} {r : Reading} (h : Written o r) : r.options = .ok o := by
  have hcountText : textOr "" r.positionals[0]? = .ok (toString o.sampleCount.toNat) := by
    rw [h.positionals]
    exact textOf_ofString _
  have hcount : numberOf .count Text.readDecimal (toString o.sampleCount.toNat) =
      .ok o.sampleCount :=
    numberOf_of_eq_some (Text.readDecimal_toString o.sampleCount)
  have hlabel : textOr "" r.positionals[1]? = .ok o.label := by
    rw [h.positionals]
    exact textOf_ofString _
  have hclassesText : textOr defaultClasses r.positionals[2]? =
      .ok (" ".intercalate (o.classes.toList.map InputClass.name)) := by
    rw [h.positionals]
    exact textOf_ofString _
  have hclasses := ClassQueue.parse_intercalate o.classes.toList
  have hiterations : numberOf? .iterations Text.readDecimal (r.value? .iterations) =
      .ok (some o.iterations) := by
    rw [h.value?_eq]
    exact numberOf?_toString _ Text.readDecimal_toString (some o.iterations)
  have hrepeats : numberOf? .repeats Text.readDecimal (r.value? .repeats) =
      .ok (some o.repeats) := by
    rw [h.value?_eq]
    exact numberOf?_toString _ Text.readDecimal_toString (some o.repeats)
  have hearlyExit : numberOf? .earlyExit Text.readDecimal (r.value? .earlyExit) =
      .ok o.earlyExit := by
    rw [h.value?_eq]
    exact numberOf?_toString _ Text.readDecimal_toString o.earlyExit
  have hseed : numberOf? .seed Text.readSeed (r.value? .seed) = .ok o.seed := by
    rw [h.value?_eq]
    exact numberOf?_toString _ Text.readSeed_toString o.seed
  have houtDir : textOr "." (r.value? .outDir) = .ok o.outDir := by
    rw [h.value?_eq]
    exact textOf_ofString o.outDir
  have hswitch : ∀ s, r.switches.contains s = o.switched s := by
    intro s
    rw [Bool.eq_iff_iff, List.contains_iff_mem]
    exact h.mem_switches s
  simp only [Reading.options, hcountText, hcount, hlabel, hclassesText, hclasses, hiterations,
    hrepeats, hearlyExit, hseed, houtDir, hswitch, bind, Except.bind, pure, Except.pure, Option.getD_some]
  rfl

/-! ## Command lines -/

/-- A command line that is read as what was written stands for the options. -/
theorem options_of_written {o : Options} {r : Reading} (h : Written o r) {args : List Argument}
    (hread : readFrom (programName args) none args.tail {} = .ok r) : options args = .ok o := by
  have hread' : read args = .ok r := by
    rw [read, hread]
    simp only [h.complaint?_eq_none]
  rw [options, hread']
  simp only [h.options_eq]

/-- Tokens of options whose folder does not begin with an equals sign are read as they were
written. -/
theorem faithful_of_mem_tokens {o : Options} (ho : o.outDir.toList.head? ≠ some '=') {token : Token}
    (h : token ∈ o.tokens) : token.Faithful := by
  have hnumber : ∀ n : UInt64, (toString n.toNat).toList.head? ≠ some '=' := fun n =>
    Text.head?_toString_ne n.toNat (by decide)
  rcases List.mem_append.mp h with hvalue | hswitch
  · obtain ⟨v, -, hv⟩ := List.mem_filterMap.mp hvalue
    obtain ⟨text, htext, rfl⟩ := Option.map_eq_some_iff.mp hv
    show text.toList.head? ≠ some '='
    cases v with
    | iterations =>
        cases htext
        exact hnumber o.iterations
    | repeats =>
        cases htext
        exact hnumber o.repeats
    | outDir =>
        cases htext
        exact ho
    | seed =>
        obtain ⟨n, -, rfl⟩ := Option.map_eq_some_iff.mp htext
        exact hnumber n
    | earlyExit =>
        obtain ⟨n, -, rfl⟩ := Option.map_eq_some_iff.mp htext
        exact hnumber n
  · obtain ⟨s, -, rfl⟩ := List.mem_map.mp hswitch
    trivial

/-- Sample count and classes never look like options. -/
theorem shape_of_mem_positionals {o : Options}
    (ho : o.label.toList.head? ≠ some '-' ∨ o.label = "-") {a : Argument} (h : a ∈ o.positionals) :
    shape a = .plain := by
  simp only [Options.positionals, List.mem_cons, List.not_mem_nil, or_false] at h
  rcases h with rfl | rfl | rfl
  · exact shape_ofString_eq_plain_iff.mpr (.inl (Text.head?_toString_ne _ (by decide)))
  · exact shape_ofString_eq_plain_iff.mpr ho
  · exact shape_ofString_eq_plain_iff.mpr (.inl (InputClass.head?_intercalate_name _))

/-- **Options are read back.** The tokens may stand in any order before a separator and the positional
arguments, or anywhere among these if the label does not look like an option. -/
theorem options_written (o : Options) (ho : o.outDir.toList.head? ≠ some '=') (program : Argument) :
    (∀ tokens : List Token, tokens.Perm o.tokens →
      options (program :: (tokens.map Token.argument ++ .ofString "--" :: o.positionals)) = .ok o) ∧
    (o.label.toList.head? ≠ some '-' ∨ o.label = "-" →
      ∀ items : List (Token ⊕ Argument), (items.filterMap Sum.getLeft?).Perm o.tokens →
        items.filterMap Sum.getRight? = o.positionals →
          options (program :: items.map itemArgument) = .ok o) := by
  constructor
  · intro tokens hperm
    apply options_of_written (written_of_perm hperm)
    have hfaithful : ∀ token ∈ tokens, token.Faithful := fun token htoken =>
      faithful_of_mem_tokens ho (hperm.mem_iff.mp htoken)
    have hroom : (Reading.extend {} tokens []).positionals.length + o.positionals.length ≤ 3 :=
      Nat.le_refl 3
    show readFrom _ none (tokens.map Token.argument ++ .ofString "--" :: o.positionals) {} = _
    rw [readFrom_tokens _ hfaithful _ (by decide), readFrom_separator _ _ hroom,
      Reading.extend_extend, List.append_nil]
    rfl
  · intro hlabel items hperm hpositionals
    apply options_of_written (written_of_perm hperm)
    have hfaithful : ∀ token ∈ items.filterMap Sum.getLeft?, token.Faithful := fun token htoken =>
      faithful_of_mem_tokens ho (hperm.mem_iff.mp htoken)
    have hplain : ∀ a ∈ items.filterMap Sum.getRight?, shape a = .plain := by
      rw [hpositionals]
      exact fun a => shape_of_mem_positionals hlabel
    have hroom : ({} : Reading).positionals.length + (items.filterMap Sum.getRight?).length ≤ 3 := by
      rw [hpositionals]
      exact Nat.le_refl 3
    have hread := readFrom_items (programName (program :: items.map itemArgument)) items hfaithful
      hplain hroom []
    rw [List.append_nil, hpositionals] at hread
    exact hread

/-- A label that looks like an option behind a separator, and a single dash as a label among the
options, before an empty list of classes. -/
theorem options_written_dashes :
    let o : Options :=
      { sampleCount := 12, label := "--mixed=", classes := ⟨[.small, .zero, .small]⟩, outDir := "a=b"
        seed := some 0, mixed := true, earlyExit := some 5 }
    let o' : Options := { o with label := "-", classes := ClassQueue.empty, outDir := "" }
    options (["audit", "--mixed", "--early-exit=5", "--seed=0", "--out-dir=a=b", "--repeats=100",
      "--iterations=10", "--", "12", "--mixed=", "small zero small"].map Argument.ofString) = .ok o ∧
    options (["audit", "--out-dir=", "12", "--mixed", "--early-exit=5", "-", "--repeats=100",
      "--seed=0", "", "--iterations=10"].map Argument.ofString) = .ok o' := by
  intro o o'
  constructor
  · have hperm : o.tokens.reverse.Perm o.tokens := List.reverse_perm _
    have hargs : .ofString "audit" :: (o.tokens.reverse.map Token.argument ++
        .ofString "--" :: o.positionals) =
          ["audit", "--mixed", "--early-exit=5", "--seed=0", "--out-dir=a=b", "--repeats=100",
            "--iterations=10", "--", "12", "--mixed=", "small zero small"].map
              Argument.ofString := by
      decide
    rw [← hargs]
    exact (options_written o (by decide) (.ofString "audit")).1 _ hperm
  · let items : List (Token ⊕ Argument) :=
      [.inl (.value .outDir ""), .inr (.ofString "12"), .inl (.switch .mixed),
        .inl (.value .earlyExit "5"), .inr (.ofString "-"), .inl (.value .repeats "100"),
        .inl (.value .seed "0"), .inr (.ofString ""), .inl (.value .iterations "10")]
    have hperm : (items.filterMap Sum.getLeft?).Perm o'.tokens := by decide
    have hargs : .ofString "audit" :: items.map itemArgument =
        ["audit", "--out-dir=", "12", "--mixed", "--early-exit=5", "-", "--repeats=100", "--seed=0",
          "", "--iterations=10"].map Argument.ofString := by
      decide
    rw [← hargs]
    exact (options_written o' (by decide) (.ofString "audit")).2 (by decide) items hperm (by decide)

end CommandLine

end TimingAudit
