/-!
# Failures

Everything that can stop an audit, as causes: the wording of each stands in one function. A `Fault`
is a breach of what a caller owes (an index out of range, a count that leaves the 64-bit words); all
other failures are ordinary outcomes. Memory is asked for in advance, element by element size, so
that a request that no address space can hold is a failure and not a crash.
-/

namespace TimingAudit

/-- Counts and indices are 64-bit words: they stay below this bound, two to the power 64. -/
def wordLimit : Nat := 0x10000000000000000

/-- The largest number of bytes that one allocation may have: that of a signed 64-bit word. -/
def allocationLimit : Nat := 0x7FFFFFFFFFFFFFFF

/-- A breach of what the caller of an operation owes. -/
inductive Fault
  /-- A column that the grid does not have. -/
  | columnOutOfRange (col : Nat)
  /-- Any other index outside of its store. -/
  | indexOutOfRange
  /-- A count that leaves the 64-bit words. -/
  | countOverflow
  /-- An argument value that is not text. -/
  | notText
deriving DecidableEq

/-- The message of a fault, where it has one. -/
def Fault.message? : Fault → Option String
  | .columnOutOfRange col => some ("column " ++ toString col ++ " out of range")
  | _ => none

/-- What memory is asked for. -/
inductive Store
  | cells
  | minima
  | inputs
deriving DecidableEq

namespace Store

/-- How a store is called in messages. -/
def label : Store → String
  | cells => "measurement cells"
  | minima => "running minima"
  | inputs => "inputs"

/-- The bytes that one element takes. -/
def elementSize : Store → Nat
  | cells => 8
  | minima => 8
  | inputs => 24

/-- Whether `count` elements can be allocated at all. -/
def Fits (s : Store) (count : Nat) : Prop := count * s.elementSize ≤ allocationLimit

instance (s : Store) (count : Nat) : Decidable (s.Fits count) :=
  inferInstanceAs (Decidable (_ ≤ _))

end Store

/-- Why bytes could not be written. -/
inductive WriteError
  | notFound
  | notDirectory
  | isDirectory
  | nameTooLong
  /-- A path with a zero in it, where the operating system would take it to end. -/
  | zeroInName
  | logClosed
  | writerFull
  /-- Any other answer of the operating system, in its words. -/
  | system (text : String)
deriving DecidableEq

/-- The wording of a write error. -/
def WriteError.message : WriteError → String
  | .notFound => "No such file or directory (os error 2)"
  | .notDirectory => "Not a directory (os error 20)"
  | .isDirectory => "Is a directory (os error 21)"
  | .nameTooLong => "File name too long (os error 36)"
  | .zeroInName => "file name contained an unexpected NUL byte"
  | .logClosed => "result log is closed"
  | .writerFull => "writer is full"
  | .system text => text

/-- The items of a command line that hold a number. -/
inductive NumberItem
  | count
  | iterations
  | repeats
  | earlyExit
  | seed
deriving DecidableEq

/-- How a number item is called in messages. -/
def NumberItem.label : NumberItem → String
  | .count => "COUNT"
  | .iterations => "--iterations"
  | .repeats => "--repeats"
  | .earlyExit => "--early-exit"
  | .seed => "--seed"

/-- Everything that can stop an audit before it is complete. -/
inductive Failure
  /-- A class name that names no class. -/
  | unknownClass (name : String)
  /-- A mixed run without any class. -/
  | noClasses
  /-- A text that is not the number its item wants. -/
  | invalidNumber (item : NumberItem) (text : String)
  /-- Inputs and grid disagree on the number of samples. -/
  | sampleCountMismatch (inputs columns : Nat)
  /-- A store that cannot be allocated, with the number of elements asked for. -/
  | allocation (store : Store) (count : Nat)
  /-- Bytes that could not be written. -/
  | write (cause : WriteError)
  /-- Bytes of a table that could not be passed on while more were to follow. -/
  | table (cause : WriteError)
  /-- A record of a table that has not as many fields as its header. -/
  | fieldCount (expected found : Nat)
  /-- A caller's breach. -/
  | fault (f : Fault)
deriving DecidableEq

/-- The wording of a failure. -/
def Failure.message : Failure → String
  | .unknownClass name => "unknown fuzz class '" ++ name ++ "'"
  | .noClasses => "a mixed run needs at least one fuzz class"
  | .invalidNumber item text => "invalid value '" ++ text ++ "' for " ++ item.label
  | .sampleCountMismatch inputs columns =>
    toString inputs ++ " inputs given for a grid of " ++ toString columns ++ " samples"
  | .allocation store count => "could not allocate " ++ toString count ++ " " ++ store.label
  | .write cause => "I/O error: " ++ cause.message
  | .table cause => "CSV error: " ++ cause.message
  | .fieldCount expected found =>
    "CSV error: CSV error: found record with " ++ toString found ++
      " fields, but the previous record has " ++ toString expected ++ " fields"
  | .fault f => f.message?.getD "broken precondition"

end TimingAudit
