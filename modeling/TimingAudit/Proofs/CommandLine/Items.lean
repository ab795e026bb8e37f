import TimingAudit.CommandLine.Reader
import Mathlib.Data.List.TakeWhile
import Mathlib.Tactic.Common

/-!
# Reading one item after another

What is written on a command line is a sequence of items: options with their values attached, switches,
and positional arguments. Each of them is read on its own, whatever stands before and behind it, so a
whole sequence adds its options in order and its positional arguments in order, however the two are
mixed.

* `readFrom_token`, `readFrom_plain` : one item;
* `readFrom_items` : a sequence of items.
-/

namespace TimingAudit.CommandLine

/-- An option with its value attached, or a switch. -/
inductive Token
  | value (v : ValueOption) (text : String)
  | switch (s : Switch)
deriving DecidableEq

namespace Token

/-- The argument that a token is written as. -/
def argument : Token → Argument
  | value v text => .ofString ("--" ++ v.name ++ "=" ++ text)
  | switch s => .ofString ("--" ++ s.name)

/-- Only a value that does not begin with an equals sign is read as it was written. -/
def Faithful : Token → Prop
  | value _ text => text.toList.head? ≠ some '='
  | switch _ => True

/-- The option of a token with its value. -/
def value? : Token → Option (ValueOption × Option Argument)
  | value v text => some (v, some (.ofString text))
  | switch _ => none

/-- The switch of a token. -/
def switch? : Token → Option Switch
  | value _ _ => none
  | switch s => some s

end Token

/-- The argument that a token or a positional argument is written as. -/
def itemArgument : Token ⊕ Argument → Argument := Sum.elim Token.argument id

/-- Adds tokens and positional arguments. -/
def Reading.extend (r : Reading) (tokens : List Token) (positionals : List Argument) : Reading where
  positionals := r.positionals ++ positionals
  values := r.values ++ tokens.filterMap Token.value?
  switches := r.switches ++ tokens.filterMap Token.switch?

theorem Reading.extend_nil (r : Reading) : r.extend [] [] = r := by
  simp [extend]

theorem Reading.extend_extend (r : Reading) (tokens tokens' : List Token)
    (positionals positionals' : List Argument) :
    (r.extend tokens positionals).extend tokens' positionals' =
      r.extend (tokens ++ tokens') (positionals ++ positionals') := by
  simp [extend]

/-! ## What items look like -/

/-- An argument is plain if it has no dash in front, or nothing else. -/
theorem shape_eq_plain_iff {a : Argument} :
    shape a = .plain ↔ a.head? ≠ some (.char '-') ∨ a = [.char '-'] := by
  unfold shape
  split
  · simp
  · simp
  · simp
  · rename_i hseparator hlong hcluster
    refine iff_of_true rfl ?_
    rcases a with _ | ⟨g, _ | ⟨g', gs⟩⟩
    · exact .inl nofun
    · by_cases hg : g = .char '-'
      · exact .inr (by rw [hg])
      · exact .inl fun h => hg (Option.some.inj h)
    · exact .inl fun h => hcluster g' gs (by rw [Option.some.inj h])

theorem shape_ofString_eq_plain_iff {s : String} :
    shape (Argument.ofString s) = .plain ↔ s.toList.head? ≠ some '-' ∨ s = "-" := by
  rw [shape_eq_plain_iff, Argument.ofString, ← String.toList_inj]
  rcases s.toList with _ | ⟨c, cs⟩
  · simp
  · simp

/-- The glyphs of a name: none is an equals sign, and the first one is no dash. -/
structure IsName (gs : List Glyph) : Prop where
  ne_nil : gs ≠ []
  head : ∀ g ∈ gs.head?, isDash g = false
  equals : ∀ g ∈ gs, isEquals g = false

theorem isName_valueOption (v : ValueOption) : IsName (Argument.ofString v.name) := by
  constructor
  · cases v <;> decide
  · cases v <;> decide
  · cases v <;> decide

theorem isName_switch (s : Switch) : IsName (Argument.ofString s.name) := by
  constructor
  · cases s <;> decide
  · cases s <;> decide
  · cases s <;> decide

/-- The name of an option reaches from its dashes to its equals sign. -/
theorem IsName.takeWhile_eq {name : List Glyph} (h : IsName name) (rest : List Glyph)
    (hrest : ∀ g ∈ rest.head?, isEquals g = true) :
    ((name ++ rest).dropWhile isDash).takeWhile (fun g => !isEquals g) = name := by
  obtain ⟨g, gs, rfl⟩ := List.exists_cons_of_ne_nil h.ne_nil
  have hdash : isDash g = false := h.head g rfl
  have hend : rest.takeWhile (fun g => !isEquals g) = [] := by
    cases rest with
    | nil => rfl
    | cons g' rest => rw [List.takeWhile_cons, hrest g' rfl]; rfl
  rw [List.cons_append, List.dropWhile_cons_of_neg (by simp [hdash]), ← List.cons_append,
    List.takeWhile_append_of_pos (fun g hg => by simp [h.equals g hg]), hend, List.append_nil]

/-- A value is attached with an equals sign, and begins behind all of these. -/
theorem IsName.attachedValue_eq {name : List Glyph} (h : IsName name) {value : List Glyph}
    (hvalue : ∀ g ∈ value.head?, isEquals g = false) :
    attachedValue (name ++ .char '=' :: value) = some value := by
  have hequals : (name ++ .char '=' :: value).dropWhile (fun g => !isEquals g) =
      .char '=' :: value := by
    rw [List.dropWhile_append_of_pos (fun g hg => by simp [h.equals g hg])]
    rfl
  have hbegin : value.dropWhile isEquals = value := by
    cases value with
    | nil => rfl
    | cons g gs => rw [List.dropWhile_cons_of_neg (by simp [hvalue g rfl])]
  rw [attachedValue, hequals]
  exact congrArg some hbegin

/-- A name alone has no value attached. -/
theorem IsName.attachedValue_eq_none {name : List Glyph} (h : IsName name) :
    attachedValue name = none := by
  have hequals : name.dropWhile (fun g => !isEquals g) = [] := by
    rw [List.dropWhile_eq_nil_iff]
    intro g hg
    rw [h.equals g hg]
    rfl
  rw [attachedValue, hequals]

/-- Two dashes and more. -/
theorem shape_dashes {gs : List Glyph} (h : gs ≠ []) :
    shape (.char '-' :: .char '-' :: gs) =
      .long ((gs.dropWhile isDash).takeWhile fun g => !isEquals g) (attachedValue gs) := by
  obtain ⟨g, gs, rfl⟩ := List.exists_cons_of_ne_nil h
  rfl

/-- An option with a value. -/
theorem shape_value {v : ValueOption} {text : String} (h : (Token.value v text).Faithful) :
    shape (Token.value v text).argument =
      .long (Argument.ofString v.name) (some (Argument.ofString text)) := by
  have hname := isName_valueOption v
  have hvalue : ∀ g ∈ (Argument.ofString text).head?, isEquals g = false := by
    intro g hg
    rw [Argument.ofString, List.head?_map] at hg
    obtain ⟨c, hc, rfl⟩ := Option.map_eq_some_iff.mp hg
    have hne : c ≠ '=' := fun hc' => h (hc' ▸ hc)
    simp [isEquals, hne]
  have hargument : (Token.value v text).argument = .char '-' :: .char '-' ::
      (Argument.ofString v.name ++ .char '=' :: Argument.ofString text) := by
    simp [Token.argument, Argument.ofString]
  rw [hargument, shape_dashes (by simp), hname.attachedValue_eq hvalue, hname.takeWhile_eq]
  intro g hg
  cases hg
  rfl

/-- A switch. -/
theorem shape_switch (s : Switch) :
    shape (Token.switch s).argument = .long (Argument.ofString s.name) none := by
  have hname := isName_switch s
  have hargument : (Token.switch s).argument =
      .char '-' :: .char '-' :: Argument.ofString s.name := by
    simp [Token.argument, Argument.ofString]
  have htake := hname.takeWhile_eq [] (by simp)
  rw [List.append_nil] at htake
  rw [hargument, shape_dashes hname.ne_nil, hname.attachedValue_eq_none, htake]

/-! ## Reading items -/

/-- What the name of an option asks for. -/
theorem longName?_valueOption (v : ValueOption) :
    (Argument.text? (Argument.ofString v.name)).bind longName? = some (.value v) := by
  rw [Argument.text?_ofString]
  cases v <;> decide

/-- What the name of a switch asks for. -/
theorem longName?_switch (s : Switch) :
    (Argument.text? (Argument.ofString s.name)).bind longName? = some (.switch s) := by
  rw [Argument.text?_ofString]
  cases s <;> decide

variable (program : String)

/-- An option with its value, or a switch, is read on its own. -/
theorem readFrom_token {token : Token} (h : token.Faithful) (rest : List Argument) (r : Reading) :
    readFrom program none (token.argument :: rest) r =
      readFrom program none rest (r.extend [token] []) := by
  cases token with
  | value v text =>
      have hadded : r.extend [.value v text] [] = r.addValue v (some (Argument.ofString text)) := by
        simp [Reading.extend, Reading.addValue, Token.value?, Token.switch?]
      rw [hadded]
      conv => lhs; unfold readFrom
      simp only [shape_value h, longName?_valueOption, Reading.settle]
  | switch s =>
      have hadded : r.extend [.switch s] [] = r.addSwitch s := by
        simp [Reading.extend, Reading.addSwitch, Token.value?, Token.switch?]
      rw [hadded]
      conv => lhs; unfold readFrom
      simp only [shape_switch, longName?_switch, Reading.settle]

/-- There is room for three positional arguments. -/
theorem addPositional_of_room {r : Reading} (hroom : r.positionals.length < 3) (a : Argument) :
    r.addPositional a = .ok (r.extend [] [a]) := by
  rw [Reading.addPositional, if_pos hroom]
  simp [Reading.extend]

/-- A plain argument is positional where no option wants a value. -/
theorem readFrom_plain {a : Argument} (h : shape a = .plain) {r : Reading}
    (hroom : r.positionals.length < 3) (rest : List Argument) :
    readFrom program none (a :: rest) r = readFrom program none rest (r.extend [] [a]) := by
  conv => lhs; unfold readFrom
  simp only [h, addPositional_of_room hroom]

/-- **A sequence of items** is read item by item. -/
theorem readFrom_items (items : List (Token ⊕ Argument)) : ∀ {r : Reading},
    (∀ token ∈ items.filterMap Sum.getLeft?, token.Faithful) →
    (∀ a ∈ items.filterMap Sum.getRight?, shape a = .plain) →
    r.positionals.length + (items.filterMap Sum.getRight?).length ≤ 3 → ∀ rest : List Argument,
    readFrom program none (items.map itemArgument ++ rest) r =
      readFrom program none rest
        (r.extend (items.filterMap Sum.getLeft?) (items.filterMap Sum.getRight?)) := by
  induction items with
  | nil =>
      intro r _ _ _ rest
      rw [List.filterMap_nil, List.filterMap_nil, Reading.extend_nil]
      rfl
  | cons item items ih =>
      intro r hfaithful hplain hroom rest
      cases item with
      | inl token =>
          have hleft : (Sum.inl token :: items).filterMap Sum.getLeft? =
            token :: items.filterMap Sum.getLeft? := rfl
          have hright : (Sum.inl token :: items).filterMap Sum.getRight? =
            items.filterMap Sum.getRight? := rfl
          rw [hleft] at hfaithful ⊢
          rw [hright] at hplain hroom ⊢
          show readFrom program none (token.argument :: (items.map itemArgument ++ rest)) r = _
          rw [readFrom_token program (hfaithful token List.mem_cons_self),
            ih (fun t ht => hfaithful t (List.mem_cons_of_mem _ ht)) hplain
              (by simpa [Reading.extend] using hroom),
            Reading.extend_extend]
          rfl
      | inr a =>
          have hleft : (Sum.inr a :: items).filterMap Sum.getLeft? =
            items.filterMap Sum.getLeft? := rfl
          have hright : (Sum.inr a :: items).filterMap Sum.getRight? =
            a :: items.filterMap Sum.getRight? := rfl
          rw [hleft] at hfaithful ⊢
          rw [hright] at hplain hroom ⊢
          rw [List.length_cons] at hroom
          show readFrom program none (a :: (items.map itemArgument ++ rest)) r = _
          -- A positional argument takes one of the three places.
          rw [readFrom_plain program (hplain a List.mem_cons_self) (by omega),
            ih hfaithful (fun b hb => hplain b (List.mem_cons_of_mem _ hb))
              (by simp [Reading.extend]; omega),
            Reading.extend_extend]
          rfl

/-- Tokens alone. -/
theorem readFrom_tokens {tokens : List Token} (h : ∀ token ∈ tokens, token.Faithful)
    (rest : List Argument) {r : Reading} (hroom : r.positionals.length ≤ 3) :
    readFrom program none (tokens.map Token.argument ++ rest) r =
      readFrom program none rest (r.extend tokens []) := by
  have hleft : (tokens.map Sum.inl : List (Token ⊕ Argument)).filterMap Sum.getLeft? = tokens := by
    rw [List.filterMap_map]
    exact List.filterMap_some
  have hright : (tokens.map Sum.inl : List (Token ⊕ Argument)).filterMap Sum.getRight? = [] := by
    rw [List.filterMap_map]
    exact List.filterMap_eq_nil_iff.mpr fun _ _ => rfl
  have hread := readFrom_items program (tokens.map Sum.inl) (by rwa [hleft]) (by simp [hright])
    (by rwa [hright]) rest
  rwa [hleft, hright, List.map_map] at hread

/-- Behind a separator everything is positional. -/
theorem readFrom_separator (as : List Argument) {r : Reading}
    (hroom : r.positionals.length + as.length ≤ 3) :
    readFrom program none (.ofString "--" :: as) r = .ok (r.extend [] as) := by
  have hread : readFrom program none (.ofString "--" :: as) r = readPositionals as r := by
    have hshape : shape (.ofString "--") = .separator := by decide
    conv => lhs; unfold readFrom
    simp only [hshape, Reading.settle]
  rw [hread]
  clear hread
  induction as generalizing r with
  | nil =>
      rw [Reading.extend_nil]
      rfl
  | cons a as ih =>
      rw [List.length_cons] at hroom
      rw [readPositionals, addPositional_of_room (by omega)]
      show readPositionals as (r.extend [] [a]) = _
      rw [ih (by simp [Reading.extend]; omega), Reading.extend_extend]
      rfl

end TimingAudit.CommandLine
