/-!
# Blank characters and words

A character is blank if it has the Unicode property White_Space. The words of a text are its maximal
runs of characters that are not blank.
-/

namespace TimingAudit.Text

/-- The code points with the property White_Space, as inclusive ranges. -/
def blankRanges : List (Nat × Nat) :=
  [(0x09, 0x0D), (0x20, 0x20), (0x85, 0x85), (0xA0, 0xA0), (0x1680, 0x1680), (0x2000, 0x200A),
    (0x2028, 0x2029), (0x202F, 0x202F), (0x205F, 0x205F), (0x3000, 0x3000)]

/-- Whether a character separates words. -/
def isBlank (c : Char) : Bool :=
  blankRanges.any fun r => r.1 ≤ c.toNat && c.toNat ≤ r.2

/-- The words of `cs`, the first of them beginning with `current`, read in reverse. -/
def wordsFrom : List Char → List Char → List (List Char)
  | [], [] => []
  | current, [] => [current.reverse]
  | [], c :: cs => if isBlank c then wordsFrom [] cs else wordsFrom [c] cs
  | d :: ds, c :: cs =>
    if isBlank c then (d :: ds).reverse :: wordsFrom [] cs else wordsFrom (c :: d :: ds) cs

/-- The maximal runs of characters of `s` that are not blank, in order. -/
def words (s : String) : List String :=
  (wordsFrom [] s.toList).map String.ofList

end TimingAudit.Text
