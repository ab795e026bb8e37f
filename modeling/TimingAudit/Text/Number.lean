/-!
# Numbers in text

An unsigned number is written as an optional single plus sign and one or more digits of its radix;
leading zeros are free. A word is such a number below `2 ^ 64`.
-/

namespace TimingAudit.Text

/-- The value of a digit, letters of either case standing for ten and above. -/
def digitValue (c : Char) : Option Nat :=
  if '0' ≤ c ∧ c ≤ '9' then some (c.toNat - '0'.toNat)
  else if 'a' ≤ c ∧ c ≤ 'z' then some (c.toNat - 'a'.toNat + 10)
  else if 'A' ≤ c ∧ c ≤ 'Z' then some (c.toNat - 'A'.toNat + 10)
  else none

/-- The value of a digit of the given radix. -/
def digitIn (radix : Nat) (c : Char) : Option Nat :=
  (digitValue c).filter (· < radix)

/-- The value of `cs` read as digits that continue the number `acc`. -/
def digitsFrom (radix : Nat) : Nat → List Char → Option Nat
  | acc, [] => some acc
  | acc, c :: cs =>
    match digitIn radix c with
    | none => none
    | some d => digitsFrom radix (acc * radix + d) cs

/-- One or more digits. -/
def readDigits (radix : Nat) : List Char → Option Nat
  | [] => none
  | cs => digitsFrom radix 0 cs

/-- Digits after an optional plus sign. -/
def readUnsigned (radix : Nat) : List Char → Option Nat
  | '+' :: cs => readDigits radix cs
  | cs => readDigits radix cs

/-- An unsigned number that fits a 64-bit word. -/
def readWord (radix : Nat) (cs : List Char) : Option UInt64 :=
  match readUnsigned radix cs with
  | none => none
  | some n => if n < 0x10000000000000000 then some (UInt64.ofNat n) else none

/-- A word in decimal digits. -/
def readDecimal (cs : List Char) : Option UInt64 := readWord 10 cs

/-- A word in decimal digits, or in hexadecimal digits after `0x` or `0X`. -/
def readSeed : List Char → Option UInt64
  | '0' :: 'x' :: cs => readWord 16 cs
  | '0' :: 'X' :: cs => readWord 16 cs
  | cs => readDecimal cs

end TimingAudit.Text
