/-!
# Input classes

An input class is a named rule for drawing the two arguments of the function under audit, chosen to
stress one kind of code path. This file holds the eleven classes, their names and the name of the
result file of each. Names are matched exactly, letter case included.
-/

namespace TimingAudit

/-- A named rule for drawing an argument pair. -/
inductive InputClass
  /-- Both values uniformly random. -/
  | uniform
  /-- A random value paired with itself. -/
  | equal
  /-- One side is the largest signed value, the other random. -/
  | max64
  /-- One side has all bits set, the other is random. -/
  | umax64
  /-- One side is zero, the other random. -/
  | zero
  /-- The first value is zero, the second random. -/
  | xzero
  /-- The second value is zero, the first random. -/
  | yzero
  /-- Both random, the smaller one first. -/
  | xlty
  /-- Both random, the larger one first. -/
  | yltx
  /-- Both values a single random byte. -/
  | small
  /-- Both values are `fixedValue`. -/
  | fixed
deriving DecidableEq

/-- Both arguments of the class `fixed`. -/
def fixedValue : Int64 := 0x12345678

namespace InputClass

/-- Every class, in the order in which classes are listed. -/
def all : List InputClass :=
  [uniform, equal, max64, umax64, zero, xzero, yzero, xlty, yltx, small, fixed]

/-- The name under which a class is requested and reported. -/
def name : InputClass → String
  | uniform => "uniform"
  | equal => "equal"
  | max64 => "max64"
  | umax64 => "umax64"
  | zero => "zero"
  | xzero => "xzero"
  | yzero => "yzero"
  | xlty => "xlty"
  | yltx => "yltx"
  | small => "small"
  | fixed => "fixed"

/-- The class with a given name. -/
def ofName? (s : String) : Option InputClass :=
  all.find? fun k => k.name == s

/-- The place of a class in `all`. -/
def index (k : InputClass) : Nat := all.idxOf k

/-- The name of the file that holds the results of a class. -/
def resultFile (k : InputClass) : String := "result-" ++ k.name ++ ".csv"

theorem mem_all (k : InputClass) : k ∈ all := by
  cases k <;> decide

/-- A class is found under its own name. -/
theorem ofName?_name (k : InputClass) : ofName? k.name = some k := by
  cases k <;> decide

end InputClass

end TimingAudit
