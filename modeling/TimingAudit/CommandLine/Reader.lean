import TimingAudit.CommandLine.Argument
import TimingAudit.CommandLine.Usage
import TimingAudit.Options
import TimingAudit.Text.Number
import TimingAudit.Text.Pieces

/-!
# Reading a command line

Arguments are read from left to right. After the first `--` everything is positional. `--name` and
`--name=value` are options by their exact names, and dashes beyond the second one do not count; an
option without a value of its own takes the next argument, unless that one looks like an option. Any
other argument with a dash in front is a cluster of one-letter switches. What is left is positional:
the sample count, the label and the classes.

An unknown argument and a request for help or the version end the reading at once. After it come
missing arguments, options without a value and repeated ones, and only then the values themselves, in
a fixed order.
-/

namespace TimingAudit

/-- Why a command line is not carried out. -/
inductive Rejection
  | usage (u : Usage)
  | failure (f : Failure)
deriving DecidableEq

namespace CommandLine

/-- What an argument looks like. -/
inductive Shape
  /-- Two dashes and nothing else. -/
  | separator
  /-- Two dashes or more and a name, with the value behind an equals sign. -/
  | long (name : List Glyph) (value : Option Argument)
  /-- One dash and at least one more glyph. -/
  | cluster (first : Glyph)
  | plain
deriving DecidableEq

/-- Whether a glyph is a dash. -/
def isDash (g : Glyph) : Bool := g = .char '-'

/-- Whether a glyph is the equals sign. -/
def isEquals (g : Glyph) : Bool := g = .char '='

/-- The value behind the first equals sign, without further equals signs in front. -/
def attachedValue (gs : List Glyph) : Option Argument :=
  match gs.dropWhile (fun g => !isEquals g) with
  | [] => none
  | _ :: value => some (value.dropWhile isEquals)

/-- What an argument looks like. The name of an option starts behind all of its dashes. -/
def shape : Argument → Shape
  | [.char '-', .char '-'] => .separator
  | .char '-' :: .char '-' :: gs =>
    .long ((gs.dropWhile isDash).takeWhile fun g => !isEquals g) (attachedValue gs)
  | .char '-' :: g :: _ => .cluster g
  | _ => .plain

/-- What the name behind two dashes asks for. -/
inductive LongName
  | value (o : ValueOption)
  | switch (s : Switch)
  | help
  | version
deriving DecidableEq

/-- What a name asks for, if it is known. -/
def longName? (name : String) : Option LongName :=
  match ValueOption.all.find? fun o => o.name == name with
  | some o => some (.value o)
  | none =>
    match Switch.all.find? fun s => s.name == name with
    | some s => some (.switch s)
    | none =>
      if name = "help" then some .help
      else if name = "version" then some .version
      else none

/-- What has been read so far. -/
structure Reading where
  /-- The positional arguments, in order. -/
  positionals : List Argument := []
  /-- Every occurrence of an option with its value, if it has one. -/
  values : List (ValueOption × Option Argument) := []
  /-- Every occurrence of a switch. -/
  switches : List Switch := []
deriving DecidableEq

namespace Reading

/-- Adds an occurrence of an option. -/
def addValue (r : Reading) (o : ValueOption) (value : Option Argument) : Reading :=
  { r with values := r.values ++ [(o, value)] }

/-- Adds an option that still wanted its value, as given without one. -/
def settle (r : Reading) : Option ValueOption → Reading
  | none => r
  | some o => r.addValue o none

/-- Adds an occurrence of a switch. -/
def addSwitch (r : Reading) (s : Switch) : Reading :=
  { r with switches := r.switches ++ [s] }

/-- Adds a positional argument, of which there are three at most. -/
def addPositional (r : Reading) (a : Argument) : Except Rejection Reading :=
  if r.positionals.length < 3 then .ok { r with positionals := r.positionals ++ [a] }
  else .error (.usage (.unknownArgument a.shown))

end Reading

/-- Reads arguments that are all positional. -/
def readPositionals : List Argument → Reading → Except Rejection Reading
  | [], r => .ok r
  | a :: rest, r =>
    match r.addPositional a with
    | .error e => .error e
    | .ok r => readPositionals rest r

/-- What is said about an unknown name behind two dashes, before the given arguments. The message
wants all of them to be text. -/
def unknownName (name : List Glyph) (rest : List Argument) : Rejection :=
  match Argument.text? name, rest.all fun a => (Argument.text? a).isSome with
  | some text, true => .usage (.unknownArgument ("--" ++ text))
  | _, _ => .failure (.fault .notText)

/-- What a cluster asks for: its first letter decides. -/
def clusterUsage (program : String) (first : Glyph) : Usage :=
  if first = .char 'h' then .help program
  else if first = .char 'V' then .version program
  else .unknownArgument (String.ofList ['-', first.shown])

/-- Reads arguments from left to right. `pending` is an option that still wants its value. -/
def readFrom (program : String) :
    Option ValueOption → List Argument → Reading → Except Rejection Reading
  | pending, [], r => .ok (r.settle pending)
  | pending, a :: rest, r =>
    match shape a, pending with
    | .plain, some o => readFrom program none rest (r.addValue o (some a))
    | .plain, none =>
      match r.addPositional a with
      | .error e => .error e
      | .ok r => readFrom program none rest r
    | .separator, _ => readPositionals rest (r.settle pending)
    | .cluster g, _ => .error (.usage (clusterUsage program g))
    | .long name value, _ =>
      match (Argument.text? name).bind longName? with
      | none => .error (unknownName name rest)
      | some .help => .error (.usage (.help program))
      | some .version => .error (.usage (.version program))
      | some (.switch s) => readFrom program none rest ((r.settle pending).addSwitch s)
      | some (.value o) =>
        match value with
        | some v => readFrom program none rest ((r.settle pending).addValue o (some v))
        | none => readFrom program (some o) rest (r.settle pending)

/-- The last name of a path, if it is text. The names before it may be anything. -/
def lastName? (path : Argument) : Option String :=
  match ((Text.pieces (.char '/') path).filter fun s => s ≠ [] ∧ s ≠ [.char '.']).getLast? with
  | none => none
  | some name => if name = [.char '.', .char '.'] then none else Argument.text? name

/-- The name of the program in usage line and title, from the first argument. -/
def programName : List Argument → String
  | [] => "optifuzz"
  | a :: _ => (lastName? a).getD "optifuzz"

/-- The required arguments that are not there. -/
def missingItems (r : Reading) : List RequiredItem :=
  [RequiredItem.count, RequiredItem.label].drop r.positionals.length

/-- Whether an option has a value in one of its occurrences. -/
def Reading.hasValue (r : Reading) (o : ValueOption) : Bool :=
  r.values.any fun v => v.1 = o ∧ v.2.isSome

/-- The last option that was given without any value: the one that still wanted it at the end, if
there is such a one. -/
def emptyOption? (r : Reading) : Option ValueOption :=
  (r.values.reverse.find? fun v => !r.hasValue v.1).map Prod.fst

/-- An option or a switch that was given more than once. -/
def repeated? (r : Reading) : Option Usage :=
  match ValueOption.all.find? fun o => 1 < (r.values.filter fun v => v.1 = o).length with
  | some o => some (.repeatedOption o)
  | none =>
    (Switch.all.find? fun s => 1 < (r.switches.filter (· = s)).length).map .repeatedSwitch

/-- What is wrong with a command line as a whole. -/
def complaint? (r : Reading) : Option Usage :=
  if missingItems r ≠ [] then some (.missing (missingItems r))
  else
    match emptyOption? r with
    | some o => some (.emptyValue o)
    | none => repeated? r

/-- Reads a command line, the name of the program first. -/
def read (args : List Argument) : Except Rejection Reading :=
  match readFrom (programName args) none args.tail {} with
  | .error e => .error e
  | .ok r =>
    match complaint? r with
    | some u => .error (.usage u)
    | none => .ok r

/-- The value of an option, if it was given. -/
def Reading.value? (r : Reading) (o : ValueOption) : Option Argument :=
  (r.values.find? fun v => v.1 = o).bind Prod.snd

/-- The text of a value. -/
def textOf (a : Argument) : Except Failure String :=
  match Argument.text? a with
  | none => .error (.fault .notText)
  | some s => .ok s

/-- The text of a value, or a given text if there is no value. -/
def textOr (default : String) : Option Argument → Except Failure String
  | none => .ok default
  | some a => textOf a

/-- A number read from a text. -/
def numberOf (item : NumberItem) (reader : List Char → Option UInt64) (s : String) :
    Except Failure UInt64 :=
  match reader s.toList with
  | none => .error (.invalidNumber item s)
  | some n => .ok n

/-- A number read from a value, if there is one. -/
def numberOf? (item : NumberItem) (reader : List Char → Option UInt64) :
    Option Argument → Except Failure (Option UInt64)
  | none => .ok none
  | some a => do
    let s ← textOf a
    let n ← numberOf item reader s
    pure (some n)

/-- The classes that are run when none are given. -/
def defaultClasses : String := "uniform equal zero max64 umax64"

/-- The options that a reading stands for. The values are looked at in the order in which they are
bound here, and the first one that is wrong decides. -/
def Reading.options (r : Reading) : Except Failure Options := do
  let defaults : Options := {}
  let countText ← textOr "" r.positionals[0]?
  let sampleCount ← numberOf .count Text.readDecimal countText
  let label ← textOr "" r.positionals[1]?
  let classesText ← textOr defaultClasses r.positionals[2]?
  let classes ← ClassQueue.parse classesText
  let iterations ← numberOf? .iterations Text.readDecimal (r.value? .iterations)
  let repeats ← numberOf? .repeats Text.readDecimal (r.value? .repeats)
  let earlyExit ← numberOf? .earlyExit Text.readDecimal (r.value? .earlyExit)
  let seed ← numberOf? .seed Text.readSeed (r.value? .seed)
  let outDir ← textOr defaults.outDir (r.value? .outDir)
  pure {
    sampleCount := sampleCount
    label := label
    classes := classes
    iterations := iterations.getD defaults.iterations
    repeats := repeats.getD defaults.repeats
    outDir := outDir
    seed := seed
    mixed := r.switches.contains .mixed
    earlyExit := earlyExit
    buffered := r.switches.contains .buffered }

/-- The options of a command line, the name of the program first. -/
def options (args : List Argument) : Except Rejection Options :=
  match read args with
  | .error e => .error e
  | .ok r =>
    match r.options with
    | .error f => .error (.failure f)
    | .ok o => .ok o

end CommandLine

end TimingAudit
