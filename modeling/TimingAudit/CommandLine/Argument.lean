import TimingAudit.ByteSink

/-!
# Command-line arguments

An argument is a run of bytes that is text as a rule. It is kept as a list of glyphs: characters, and
pieces of bytes that are not UTF-8, each as long as it could still have become a character. Where an
argument is shown, such a piece stands as one replacement character.
-/

namespace TimingAudit

/-- A character, or bytes that do not form one. -/
inductive Glyph
  | char (c : Char)
  | stray (bytes : Bytes)
deriving DecidableEq

namespace Glyph

/-- The character of a glyph, if it is one. -/
def char? : Glyph → Option Char
  | char c => some c
  | stray _ => none

/-- The character that stands for a glyph where it is shown. -/
def shown : Glyph → Char
  | char c => c
  | stray _ => '�'

/-- What a byte that begins a longer character says: the number of bytes after it, its part of the
code point, and the range of the byte after it. -/
def leadOf (b : Nat) : Option (Nat × Nat × Nat × Nat) :=
  if 0xC2 ≤ b ∧ b ≤ 0xDF then some (1, b % 32, 0x80, 0xBF)
  else if b = 0xE0 then some (2, b % 16, 0xA0, 0xBF)
  else if b = 0xED then some (2, b % 16, 0x80, 0x9F)
  else if 0xE1 ≤ b ∧ b ≤ 0xEF then some (2, b % 16, 0x80, 0xBF)
  else if b = 0xF0 then some (3, b % 8, 0x90, 0xBF)
  else if 0xF1 ≤ b ∧ b ≤ 0xF3 then some (3, b % 8, 0x80, 0xBF)
  else if b = 0xF4 then some (3, b % 8, 0x80, 0x8F)
  else none

/-- Reads `n` bytes that continue a code point, the first one between `lo` and `hi`. Returns the code
point, if it is complete, and the number of bytes read. -/
def continueFrom : (n lo hi code taken : Nat) → Bytes → Option Nat × Nat
  | 0, _, _, code, taken, _ => (some code, taken)
  | _ + 1, _, _, _, taken, [] => (none, taken)
  | n + 1, lo, hi, code, taken, b :: bs =>
    if lo ≤ b.toNat ∧ b.toNat ≤ hi then
      continueFrom n 0x80 0xBF (code * 64 + b.toNat % 64) (taken + 1) bs
    else (none, taken)

/-- The glyph that begins with a byte, and the number of bytes it takes after that one. -/
def first (b : UInt8) (bs : Bytes) : Glyph × Nat :=
  if b.toNat < 0x80 then (char (Char.ofNat b.toNat), 0)
  else
    match leadOf b.toNat with
    | none => (stray [b], 0)
    | some (n, code, lo, hi) =>
      match continueFrom n lo hi code 0 bs with
      | (some code, taken) => (char (Char.ofNat code), taken)
      | (none, taken) => (stray (b :: bs.take taken), taken)

/-- The glyphs of a run of bytes. -/
def decode : Bytes → List Glyph
  | [] => []
  | b :: bs => (first b bs).1 :: decode (bs.drop (first b bs).2)
termination_by bytes => bytes.length
decreasing_by
  rw [List.length_drop, List.length_cons]
  exact Nat.lt_succ_of_le (Nat.sub_le _ _)

end Glyph

/-- A command-line argument. -/
abbrev Argument := List Glyph

namespace Argument

/-- The argument with a given text. -/
def ofString (s : String) : Argument := s.toList.map Glyph.char

/-- The argument with given bytes. -/
def ofBytes (bytes : Bytes) : Argument := Glyph.decode bytes

/-- The characters of an argument, if all of it is text. -/
def chars? : Argument → Option (List Char)
  | [] => some []
  | g :: gs =>
    match g.char?, chars? gs with
    | some c, some cs => some (c :: cs)
    | _, _ => none

/-- The text of an argument, if all of it is text. -/
def text? (a : Argument) : Option String := (chars? a).map String.ofList

/-- The text that stands for an argument where it is shown. -/
def shown (a : Argument) : String := String.ofList (a.map Glyph.shown)

/-- Glyphs that are all characters are read as these characters. -/
theorem chars?_map_char (cs : List Char) : chars? (cs.map Glyph.char) = some cs := by
  induction cs with
  | nil => rfl
  | cons c cs ih => simp only [List.map_cons, chars?, Glyph.char?, ih]

/-- The argument that is made of a text is read as the text. -/
theorem text?_ofString (s : String) : text? (ofString s) = some s := by
  rw [text?, ofString, chars?_map_char, Option.map_some, String.ofList_toList]

end Argument

end TimingAudit
