import TimingAudit.Proofs.ClassQueue.Grammar
import TimingAudit.Proofs.CommandLine.RoundTrip
import TimingAudit.Proofs.Text.Numeral

/-!
# The values of a command line

Once a command line is read, its values are looked at. Six items are checked, in a fixed order: five
numbers and the list of classes. Each item has texts that it accepts (`Item.Valid`) and a failure for
any other text (`Item.Refuses`), both said without reading them. All six accepted give options, with
the numbers that the texts spell; otherwise the first refused item decides what is reported.

* `NumberItem.reader_eq_some_iff` : what one number spells;
* `Reading.refusal_options` : the checks one after another;
* `options_values` : command lines.
-/

namespace TimingAudit

/-! ## Numbers -/

namespace NumberItem

/-- The option that holds the number. The sample count is positional. -/
def option? : NumberItem → Option ValueOption
  | count => none
  | iterations => some .iterations
  | repeats => some .repeats
  | earlyExit => some .earlyExit
  | seed => some .seed

/-- The text `s` spells the number `n`, a 64-bit word. Only a seed may be hexadecimal. -/
def Spells : NumberItem → String → Nat → Prop
  | seed, s, n => Text.IsSeed s.toList n ∧ n < wordLimit
  | _, s, n => Text.IsNumeral 10 s.toList n ∧ n < wordLimit

/-- How the number is read. -/
def reader : NumberItem → List Char → Option UInt64
  | seed => Text.readSeed
  | _ => Text.readDecimal

/-- **A number is read** as what its text spells. -/
theorem reader_eq_some_iff {i : NumberItem} {s : String} {w : UInt64} :
    i.reader s.toList = some w ↔ i.Spells s w.toNat := by
  have hword : w.toNat < wordLimit := w.toNat_lt
  cases i with
  | seed => exact Text.readSeed_eq_some_iff.trans (and_iff_left hword).symm
  | _ => exact (Text.readWord_eq_some_iff (by decide)).trans (and_iff_left hword).symm

theorem Spells.lt {i : NumberItem} {s : String} {n : Nat} (h : i.Spells s n) : n < wordLimit := by
  cases i <;> exact h.2

/-- The word of a number that is spelled. -/
theorem Spells.exists_reader {i : NumberItem} {s : String} {n : Nat} (h : i.Spells s n) :
    ∃ w, i.reader s.toList = some w ∧ w.toNat = n := by
  have hword : (UInt64.ofNat n).toNat = n := UInt64.toNat_ofNat_of_lt' h.lt
  refine ⟨UInt64.ofNat n, ?_, hword⟩
  rw [reader_eq_some_iff, hword]
  exact h

end NumberItem

/-- The number that is set for an item, if it is set. -/
def Options.number? (o : Options) : NumberItem → Option UInt64
  | .count => some o.sampleCount
  | .iterations => some o.iterations
  | .repeats => some o.repeats
  | .earlyExit => o.earlyExit
  | .seed => o.seed

namespace CommandLine

/-! ## Items -/

/-- What is checked on a command line. -/
inductive Item
  | number (i : NumberItem)
  | classes
deriving DecidableEq

namespace Item

/-- The items in the order in which they are checked. -/
def inOrder : List Item :=
  [number .count, classes, number .iterations, number .repeats, number .earlyExit, number .seed]

theorem mem_inOrder (item : Item) : item ∈ inOrder := by
  cases item with
  | number i => cases i <;> decide
  | classes => decide

/-- The texts that an item accepts: a number has to be spelled, and all maximal runs of a list of
classes have to be names. -/
def Valid : Item → String → Prop
  | number i, s => ∃ n, i.Spells s n
  | classes, s => ∃ tokens, Text.IsTokens s tokens ∧ ∀ t ∈ tokens, InputClass.IsName t

/-- The failure for a text that an item does not accept. -/
def Refuses : Item → String → Failure → Prop
  | number i, s, f => (¬ ∃ n, i.Spells s n) ∧ f = .invalidNumber i s
  | classes, s, f => ∃ tokens, Text.IsTokens s tokens ∧
      ∃ t, ClassQueue.IsFirstUnknown tokens t ∧ f = .unknownClass t

end Item

/-! ## Failures -/

/-- Why there is no value, if there is none. -/
def refusal {α : Type} : Except Failure α → Option Failure
  | .error f => some f
  | .ok _ => none

section Refusal

variable {α β : Type} {x : Except Failure α} {f : α → Except Failure β} {first next : Option Failure}

theorem refusal_eq_some_iff {e : Failure} : refusal x = some e ↔ x = .error e := by
  cases x with
  | error e' => simp only [refusal, Option.some.injEq, Except.error.injEq]
  | ok a => simp only [refusal, reduceCtorEq]

theorem refusal_eq_none_iff : refusal x = none ↔ ∃ a, x = .ok a := by
  cases x with
  | error e => simp only [refusal, reduceCtorEq, exists_false]
  | ok a => exact iff_of_true rfl ⟨a, rfl⟩

/-- Of two computations the first one that fails decides. -/
theorem refusal_bind (hx : refusal x = first) (hf : ∀ a, refusal (f a) = next) :
    refusal (x >>= f) = first.or next := by
  subst hx
  cases x with
  | error e => rfl
  | ok a => exact hf a

/-- A computation that succeeds does not decide. -/
theorem refusal_ok_bind {a : α} (hx : x = .ok a) (hf : refusal (f a) = next) :
    refusal (x >>= f) = next := by
  subst hx
  exact hf

/-- Nothing fails in what is done with a value. -/
theorem refusal_map (g : α → β) : refusal (x.map g) = refusal x := by
  cases x <;> rfl

/-- What succeeds after a first computation succeeds after a value of it. -/
theorem exists_of_bind_eq_ok {b : β} (h : x >>= f = .ok b) : ∃ a, x = .ok a ∧ f a = .ok b := by
  cases x with
  | error e => cases h
  | ok a => exact ⟨a, rfl, h⟩

end Refusal

namespace Item

/-- What is said about the text of an item, if it is not accepted. -/
def verdict : Item → String → Option Failure
  | number i, s => refusal (numberOf i i.reader s)
  | classes, s => refusal (ClassQueue.parse s)

/-- Texts are accepted as their item says. -/
theorem verdict_eq_none_iff {item : Item} {s : String} : item.verdict s = none ↔ item.Valid s := by
  cases item with
  | number i =>
      rw [verdict, refusal_eq_none_iff]
      constructor
      · rintro ⟨w, hw⟩
        rw [numberOf] at hw
        split at hw
        · cases hw
        · rename_i hread
          exact ⟨_, NumberItem.reader_eq_some_iff.mp hread⟩
      · rintro ⟨n, hn⟩
        obtain ⟨w, hread, -⟩ := hn.exists_reader
        exact ⟨w, numberOf_of_eq_some hread⟩
  | classes =>
      rw [verdict, refusal_eq_none_iff, ClassQueue.exists_parse_eq_ok_iff]
      simp only [Valid, Text.isTokens_iff, exists_eq_left]

/-- Other texts are refused as their item says. -/
theorem verdict_eq_some_iff {item : Item} {s : String} {f : Failure} :
    item.verdict s = some f ↔ item.Refuses s f := by
  cases item with
  | number i =>
      show _ ↔ ¬ (number i).Valid s ∧ _
      rw [← verdict_eq_none_iff, verdict, numberOf]
      split
      · simp only [refusal, Option.some.injEq, reduceCtorEq, not_false_eq_true, true_and]
        exact eq_comm
      · simp only [refusal, reduceCtorEq, not_true_eq_false, false_and]
  | classes =>
      rw [verdict, refusal_eq_some_iff, ClassQueue.parse_eq_error_iff]
      simp only [Refuses, Text.isTokens_iff, exists_eq_left]

end Item

/-! ## What is given -/

namespace Reading

/-- All values are text. -/
structure AllText (r : Reading) : Prop where
  positionals : ∀ a ∈ r.positionals, (Argument.text? a).isSome
  values : ∀ v a, (v, some a) ∈ r.values → (Argument.text? a).isSome

/-- The argument `a` is given for an item. -/
def Holds (r : Reading) : Item → Argument → Prop
  | .number i, a =>
    match i.option? with
    | none => r.positionals[0]? = some a
    | some v => (v, some a) ∈ r.values
  | .classes, a => r.positionals[2]? = some a

/-- The text `s` is given for an item. -/
def Gives (r : Reading) (item : Item) (s : String) : Prop :=
  ∃ a, r.Holds item a ∧ Argument.text? a = some s

/-- The failure `f` is that of the first item with a text that it does not accept. -/
def IsFirstRefusal (r : Reading) (f : Failure) : Prop :=
  ∃ before item after s, Item.inOrder = before ++ item :: after ∧
    (∀ item' ∈ before, ∀ s', r.Gives item' s' → item'.Valid s') ∧
    r.Gives item s ∧ item.Refuses s f

/-- The argument that is found for an item. -/
def argument? (r : Reading) : Item → Option Argument
  | .number i =>
    match i.option? with
    | none => r.positionals[0]?
    | some v => r.value? v
  | .classes => r.positionals[2]?

/-- What is said about an item, if its text is not accepted. -/
def verdict (r : Reading) (item : Item) : Option Failure :=
  ((r.argument? item).bind Argument.text?).bind item.verdict

variable {r : Reading}

/-- An option that was not repeated has the value that it was given with. -/
theorem value?_eq_some_iff (h : repeated? r = none) {v : ValueOption} {a : Argument} :
    r.value? v = some a ↔ (v, some a) ∈ r.values := by
  have honce : (r.values.filter fun x => x.1 = v).length ≤ 1 := by
    rw [repeated?] at h
    split at h
    · cases h
    · rename_i hnone
      have hv := List.find?_eq_none.mp hnone v (by cases v <;> decide)
      simpa using hv
  rw [Reading.value?, Option.bind_eq_some_iff]
  constructor
  · rintro ⟨⟨v', _⟩, hfind, rfl⟩
    have hkey : v' = v := by simpa using List.find?_some hfind
    exact hkey ▸ List.mem_of_find?_eq_some hfind
  · intro hmem
    -- The entry that is found and the one that is there are the same one.
    have hkept : (v, some a) ∈ r.values.filter fun x => x.1 = v :=
      List.mem_filter.mpr ⟨hmem, decide_eq_true rfl⟩
    obtain ⟨x, hx⟩ := List.length_eq_one_iff.mp
      (Nat.le_antisymm honce (List.length_pos_of_mem hkept))
    rw [hx] at hkept
    obtain rfl := List.mem_singleton.mp hkept
    refine ⟨(v, some a), ?_, rfl⟩
    rw [← List.head?_filter, hx]
    rfl

/-- What is given for an item is found. -/
theorem holds_iff (h : repeated? r = none) {item : Item} {a : Argument} :
    r.Holds item a ↔ r.argument? item = some a := by
  cases item with
  | number i =>
      cases i with
      | count => exact Iff.rfl
      | _ => exact (value?_eq_some_iff h).symm
  | classes => exact Iff.rfl

/-- A text is given for an item if it is found. -/
theorem gives_iff (h : repeated? r = none) {item : Item} {s : String} :
    r.Gives item s ↔ (r.argument? item).bind Argument.text? = some s := by
  simp only [Gives, holds_iff h, Option.bind_eq_some_iff]

theorem verdict_eq_none_iff (h : repeated? r = none) {item : Item} :
    r.verdict item = none ↔ ∀ s, r.Gives item s → item.Valid s := by
  simp only [verdict, Option.bind_eq_none_iff, ← gives_iff h, Item.verdict_eq_none_iff]

theorem verdict_eq_some_iff (h : repeated? r = none) {item : Item} {f : Failure} :
    r.verdict item = some f ↔ ∃ s, r.Gives item s ∧ item.Refuses s f := by
  simp only [verdict, Option.bind_eq_some_iff, ← gives_iff h, Item.verdict_eq_some_iff]

/-- The first of two positional arguments or more is there. -/
theorem exists_count (hlength : 2 ≤ r.positionals.length) : ∃ a, r.positionals[0]? = some a :=
  ⟨_, List.getElem?_eq_getElem (by omega)⟩

/-- The first refused item, as it is found. -/
theorem isFirstRefusal_iff (h : repeated? r = none) {f : Failure} :
    r.IsFirstRefusal f ↔ Item.inOrder.findSome? r.verdict = some f := by
  rw [List.findSome?_eq_some_iff]
  simp only [verdict_eq_some_iff h, verdict_eq_none_iff h]
  constructor
  · rintro ⟨before, item, after, s, horder, hbefore, hgives, hrefuses⟩
    exact ⟨before, item, after, horder, ⟨s, hgives, hrefuses⟩, hbefore⟩
  · rintro ⟨before, item, after, horder, ⟨s, hgives, hrefuses⟩, hbefore⟩
    exact ⟨before, item, after, s, horder, hbefore, hgives, hrefuses⟩

/-- All values that are found are text. -/
theorem AllText.isSome (htext : r.AllText) (h : repeated? r = none) {item : Item} {a : Argument}
    (ha : r.argument? item = some a) : (Argument.text? a).isSome := by
  cases item with
  | number i =>
      cases i with
      | count => exact htext.positionals a (List.mem_of_getElem? ha)
      | _ => exact htext.values _ a ((value?_eq_some_iff h).mp ha)
  | classes => exact htext.positionals a (List.mem_of_getElem? ha)

/-! ## The checks one after another -/

/-- A text that is wanted as such is there. -/
theorem exists_textOr (default : String) {a? : Option Argument}
    (h : ∀ a ∈ a?, (Argument.text? a).isSome) : ∃ s, textOr default a? = .ok s := by
  cases a? with
  | none => exact ⟨default, rfl⟩
  | some a =>
      obtain ⟨s, hs⟩ := Option.isSome_iff_exists.mp (h a rfl)
      exact ⟨s, by rw [textOr, textOf, hs]⟩

/-- The text of a value that is there. -/
theorem text?_of_textOr {default : String} {a : Argument} {s : String}
    (h : textOr default (some a) = .ok s) : Argument.text? a = some s := by
  rw [textOr, textOf] at h
  split at h
  · cases h
  · rename_i hs
    rw [hs, Except.ok.inj h]

/-- A number that may be given, where it is given. -/
theorem numberOf?_of_text {i : NumberItem} {reader : List Char → Option UInt64} {a : Argument}
    {s : String} (h : Argument.text? a = some s) :
    numberOf? i reader (some a) = (numberOf i reader s).map some := by
  have htext : textOf a = .ok s := by rw [textOf, h]
  rw [numberOf?, htext]
  show (numberOf i reader s >>= fun n => pure (some n)) = _
  cases numberOf i reader s <;> rfl

/-- A number that may be given is checked if it is. -/
theorem refusal_numberOf? {i : NumberItem} {a? : Option Argument}
    (h : ∀ a ∈ a?, (Argument.text? a).isSome) :
    refusal (numberOf? i i.reader a?) = (a?.bind Argument.text?).bind (Item.number i).verdict := by
  cases a? with
  | none => rfl
  | some a =>
      obtain ⟨s, hs⟩ := Option.isSome_iff_exists.mp (h a rfl)
      rw [numberOf?_of_text hs, refusal_map, Option.bind_some, hs]
      rfl

/-- Classes that are not given need no check. -/
theorem refusal_parse {a? : Option Argument} {s : String} (h : textOr defaultClasses a? = .ok s) :
    refusal (ClassQueue.parse s) = (a?.bind Argument.text?).bind Item.classes.verdict := by
  cases a? with
  | none =>
      obtain rfl := Except.ok.inj h
      decide
  | some a =>
      rw [Option.bind_some, text?_of_textOr h]
      rfl

/-- The first verdict on a list of items. -/
theorem findSome?_verdict_cons (r : Reading) (item : Item) (items : List Item) :
    (item :: items).findSome? r.verdict = (r.verdict item).or (items.findSome? r.verdict) := by
  rw [List.findSome?_cons]
  cases r.verdict item <;> rfl

/-- **The items are checked in order**, and the first one that is refused decides. -/
theorem refusal_options (hlength : 2 ≤ r.positionals.length) (hrepeated : repeated? r = none)
    (htext : r.AllText) : refusal r.options = Item.inOrder.findSome? r.verdict := by
  have hpositional : ∀ k, ∀ a ∈ r.positionals[k]?, (Argument.text? a).isSome :=
    fun k a ha => htext.positionals a (List.mem_of_getElem? ha)
  have hfolder : ∀ a ∈ r.value? .outDir, (Argument.text? a).isSome :=
    fun a ha => htext.values _ a ((value?_eq_some_iff hrepeated).mp ha)
  have hnumber : ∀ i, refusal (numberOf? i i.reader (r.argument? (.number i))) =
      r.verdict (.number i) :=
    fun i => refusal_numberOf? fun a ha => htext.isSome hrepeated ha
  obtain ⟨a, ha⟩ := exists_count hlength
  obtain ⟨countText, hcountText⟩ := exists_textOr "" (hpositional 0)
  have hcount : refusal (numberOf .count Text.readDecimal countText) =
      r.verdict (.number .count) := by
    rw [ha] at hcountText
    show _ = (r.positionals[0]?.bind Argument.text?).bind (Item.number .count).verdict
    rw [ha, Option.bind_some, text?_of_textOr hcountText]
    rfl
  obtain ⟨label, hlabel⟩ := exists_textOr "" (hpositional 1)
  obtain ⟨classesText, hclassesText⟩ := exists_textOr defaultClasses (hpositional 2)
  obtain ⟨outDir, houtDir⟩ := exists_textOr ({} : Options).outDir hfolder
  -- The steps of the reader and the items of the list go side by side.
  simp only [Item.inOrder, findSome?_verdict_cons]
  refine refusal_ok_bind hcountText ?_
  refine refusal_bind hcount fun sampleCount => ?_
  refine refusal_ok_bind hlabel ?_
  refine refusal_ok_bind hclassesText ?_
  refine refusal_bind (refusal_parse hclassesText) fun classes => ?_
  refine refusal_bind (hnumber .iterations) fun iterations => ?_
  refine refusal_bind (hnumber .repeats) fun repeats => ?_
  refine refusal_bind (hnumber .earlyExit) fun earlyExit => ?_
  refine refusal_bind (hnumber .seed) fun seed => ?_
  exact refusal_ok_bind houtDir rfl

/-- **The numbers that are set** are those that are read, and the default where none is given. -/
theorem number?_of_options {o : Options} (ho : r.options = .ok o) (hlength : 2 ≤ r.positionals.length)
    (i : NumberItem) :
    ∃ number, numberOf? i i.reader (r.argument? (.number i)) = .ok number ∧
      o.number? i = number.or (({} : Options).number? i) := by
  obtain ⟨a, ha⟩ := exists_count hlength
  obtain ⟨countText, hcountText, ho⟩ := exists_of_bind_eq_ok ho
  obtain ⟨sampleCount, hcount, ho⟩ := exists_of_bind_eq_ok ho
  obtain ⟨label, -, ho⟩ := exists_of_bind_eq_ok ho
  obtain ⟨classesText, -, ho⟩ := exists_of_bind_eq_ok ho
  obtain ⟨classes, -, ho⟩ := exists_of_bind_eq_ok ho
  obtain ⟨iterations, hiterations, ho⟩ := exists_of_bind_eq_ok ho
  obtain ⟨repeats, hrepeats, ho⟩ := exists_of_bind_eq_ok ho
  obtain ⟨earlyExit, hearlyExit, ho⟩ := exists_of_bind_eq_ok ho
  obtain ⟨seed, hseed, ho⟩ := exists_of_bind_eq_ok ho
  obtain ⟨outDir, -, ho⟩ := exists_of_bind_eq_ok ho
  obtain rfl := Except.ok.inj ho
  cases i with
  | count =>
      refine ⟨some sampleCount, ?_, rfl⟩
      rw [ha] at hcountText
      show numberOf? .count Text.readDecimal r.positionals[0]? = _
      rw [ha, numberOf?_of_text (text?_of_textOr hcountText), hcount]
      rfl
  | iterations =>
      refine ⟨iterations, hiterations, ?_⟩
      cases iterations <;> rfl
  | repeats =>
      refine ⟨repeats, hrepeats, ?_⟩
      cases repeats <;> rfl
  | earlyExit =>
      refine ⟨earlyExit, hearlyExit, ?_⟩
      cases earlyExit <;> rfl
  | seed =>
      refine ⟨seed, hseed, ?_⟩
      cases seed <;> rfl

/-- A number that is given is set to what its text spells. -/
theorem number?_of_gives {o : Options} (ho : r.options = .ok o) (hlength : 2 ≤ r.positionals.length)
    (hrepeated : repeated? r = none) {i : NumberItem} {s : String} (hs : r.Gives (.number i) s)
    {n : Nat} (hn : i.Spells s n) : ∃ w, o.number? i = some w ∧ w.toNat = n := by
  obtain ⟨number, hnumber, hset⟩ := number?_of_options ho hlength i
  obtain ⟨a, ha, hs⟩ := hs
  obtain ⟨w, hw, hwn⟩ := hn.exists_reader
  rw [(holds_iff hrepeated).mp ha, numberOf?_of_text hs, numberOf_of_eq_some hw] at hnumber
  obtain rfl := Except.ok.inj hnumber
  exact ⟨w, hset, hwn⟩

/-- A number that is not given keeps its default. -/
theorem number?_of_not_gives {o : Options} (ho : r.options = .ok o)
    (hlength : 2 ≤ r.positionals.length) (hrepeated : repeated? r = none) (htext : r.AllText)
    {i : NumberItem} (hnone : ¬ ∃ s, r.Gives (.number i) s) :
    o.number? i = ({} : Options).number? i := by
  obtain ⟨number, hnumber, hset⟩ := number?_of_options ho hlength i
  cases ha : r.argument? (.number i) with
  | none =>
      rw [ha] at hnumber
      obtain rfl := Except.ok.inj hnumber
      exact hset
  | some a =>
      obtain ⟨s, hs⟩ := Option.isSome_iff_exists.mp (htext.isSome hrepeated ha)
      exact absurd ⟨s, a, (holds_iff hrepeated).mpr ha, hs⟩ hnone

end Reading

/-! ## Command lines -/

/-- What a command line needs to be read at all: sample count and label are there, and nothing is
repeated. -/
theorem of_read_eq_ok {args : List Argument} {r : Reading} (h : read args = .ok r) :
    2 ≤ r.positionals.length ∧ repeated? r = none := by
  have hcomplaint : complaint? r = none := by
    rw [read] at h
    split at h
    · cases h
    · split at h
      · cases h
      · rename_i hnone
        exact Except.ok.inj h ▸ hnone
  rw [complaint?] at hcomplaint
  split at hcomplaint
  · cases hcomplaint
  · rename_i hmissing
    split at hcomplaint
    · cases hcomplaint
    · have hdrop : missingItems r = [] := not_not.mp hmissing
      exact ⟨List.drop_eq_nil_iff.mp hdrop, hcomplaint⟩

/-- A command line leads to the options that its reading stands for. -/
theorem options_eq_ok_iff {args : List Argument} {r : Reading} (h : read args = .ok r) {o : Options} :
    options args = .ok o ↔ r.options = .ok o := by
  simp only [options, h]
  cases r.options with
  | error f => simp only [reduceCtorEq]
  | ok o' => simp only [Except.ok.injEq]

/-- A command line fails as its reading does. -/
theorem options_eq_error_iff {args : List Argument} {r : Reading} (h : read args = .ok r)
    {e : Rejection} : options args = .error e ↔ ∃ f, e = .failure f ∧ r.options = .error f := by
  simp only [options, h]
  cases r.options with
  | error f => simp only [Except.error.injEq, exists_eq_right', eq_comm]
  | ok o => simp only [reduceCtorEq, and_false, exists_false]

/-- **The values of a command line are checked exactly and in order.** Where a command line is read
and all of its values are text, it leads to options exactly if every text that is given is accepted
by its item. The numbers of the options are then those that are spelled, or the defaults. Otherwise
the first item that is refused decides, and a number is reported with its text and under the name
that it is given by. -/
theorem options_values {args : List Argument} {r : Reading} (hread : read args = .ok r)
    (htext : r.AllText) :
    (∃ s, r.Gives (.number .count) s) ∧
    ((∃ o, options args = .ok o) ↔ ∀ item s, r.Gives item s → item.Valid s) ∧
    (∀ o, options args = .ok o → ∀ i,
      (∀ s n, r.Gives (.number i) s → i.Spells s n → ∃ w, o.number? i = some w ∧ w.toNat = n) ∧
      ((¬ ∃ s, r.Gives (.number i) s) → o.number? i = ({} : Options).number? i)) ∧
    (∀ e, options args = .error e ↔ ∃ f, e = .failure f ∧ r.IsFirstRefusal f) ∧
    ∀ i : NumberItem, i.label = (i.option?.map fun v => "--" ++ v.name).getD "COUNT" := by
  obtain ⟨hlength, hrepeated⟩ := of_read_eq_ok hread
  have hrefusal := Reading.refusal_options hlength hrepeated htext
  refine ⟨?_, ?_, ?_, ?_, ?_⟩
  · obtain ⟨a, ha⟩ := Reading.exists_count hlength
    obtain ⟨s, hs⟩ := Option.isSome_iff_exists.mp (htext.positionals a (List.mem_of_getElem? ha))
    exact ⟨s, a, ha, hs⟩
  · simp only [options_eq_ok_iff hread, ← refusal_eq_none_iff, hrefusal, List.findSome?_eq_none_iff,
      Reading.verdict_eq_none_iff hrepeated, Item.mem_inOrder, forall_const]
  · intro o ho i
    have ho' := (options_eq_ok_iff hread).mp ho
    exact ⟨fun s n hs hn => Reading.number?_of_gives ho' hlength hrepeated hs hn,
      fun hnone => Reading.number?_of_not_gives ho' hlength hrepeated htext hnone⟩
  · intro e
    simp only [options_eq_error_iff hread, ← refusal_eq_some_iff, hrefusal,
      Reading.isFirstRefusal_iff hrepeated]
  · intro i
    cases i <;> decide

/-- A sample count with sign and leading zeros and a hexadecimal seed. On the second line the list of
classes is refused although a number is wrong as well, because that number comes later. -/
theorem options_values_hexadecimal_seed :
    (∃ o, options (["optifuzz", "--seed=0X+fF", "+0007", "label", "zero"].map .ofString) = .ok o ∧
      (∃ w, o.number? .count = some w ∧ w.toNat = 7) ∧
      (∃ w, o.number? .seed = some w ∧ w.toNat = 255) ∧
      o.number? .repeats = ({} : Options).number? .repeats) ∧
    options (["optifuzz", "1", "label", "zero Zero", "--repeats=18446744073709551616"].map
      .ofString) = .error (.failure (.unknownClass "Zero")) := by
  constructor
  · have hread : read (["optifuzz", "--seed=0X+fF", "+0007", "label", "zero"].map .ofString) =
        .ok { positionals := ["+0007", "label", "zero"].map .ofString,
              values := [(.seed, some (.ofString "0X+fF"))] } := by decide
    have hvalues := (options_values hread ⟨by decide, by simp [Argument.text?_ofString]⟩).2.2.1
      { sampleCount := 7, label := "label", classes := ⟨[.zero]⟩, seed := some 255 } (by decide)
    refine ⟨_, by decide, ?_, ?_, (hvalues .repeats).2 ?_⟩
    · refine (hvalues .count).1 "+0007" 7 ⟨_, rfl, Argument.text?_ofString _⟩ ⟨?_, by decide⟩
      exact ⟨['0', '0', '0', '7'], [0, 0, 0, 7], .inr (by decide), by decide, by decide, by decide⟩
    · refine (hvalues .seed).1 "0X+fF" 255 ⟨_, List.mem_cons_self, Argument.text?_ofString _⟩
        ⟨.inr ⟨['+', 'f', 'F'], .inr (by decide), ?_⟩, by decide⟩
      exact ⟨['f', 'F'], [15, 15], .inr rfl, by decide, by decide, by decide⟩
    · rintro ⟨s, a, ha, -⟩
      simp [Reading.Holds, NumberItem.option?] at ha
  · have hread : read (["optifuzz", "1", "label", "zero Zero",
        "--repeats=18446744073709551616"].map .ofString) =
        .ok { positionals := ["1", "label", "zero Zero"].map .ofString,
              values := [(.repeats, some (.ofString "18446744073709551616"))] } := by decide
    refine ((options_values hread ⟨by decide, by simp [Argument.text?_ofString]⟩).2.2.2.1 _).mpr
      ⟨_, rfl, [.number .count], .classes, Item.inOrder.drop 2, "zero Zero", by decide, ?_,
        ⟨_, rfl, Argument.text?_ofString _⟩, ?_⟩
    · intro item hitem s hs
      obtain rfl := List.mem_singleton.mp hitem
      obtain ⟨_, ⟨⟩, hs⟩ := hs
      obtain rfl := Option.some.inj ((Argument.text?_ofString "1").symm.trans hs)
      exact ⟨1, ⟨['1'], [1], .inl (by decide), by decide, by decide, by decide⟩, by decide⟩
    · exact ⟨["zero", "Zero"], Text.isTokens_iff.mpr (by decide), "Zero",
        ⟨["zero"], [], rfl, by decide, by decide⟩, rfl⟩

end CommandLine

end TimingAudit
