/-!
# Usage

What a command line may hold, and what is said about one that cannot be read: the words for every
mistake, the help text and the version line.
-/

namespace TimingAudit

/-- The options that take a value. -/
inductive ValueOption
  | iterations
  | repeats
  | outDir
  | seed
  | earlyExit
deriving DecidableEq

namespace ValueOption

/-- All options that take a value. -/
def all : List ValueOption := [iterations, repeats, outDir, seed, earlyExit]

/-- The name behind the two dashes. -/
def name : ValueOption → String
  | iterations => "iterations"
  | repeats => "repeats"
  | outDir => "out-dir"
  | seed => "seed"
  | earlyExit => "early-exit"

/-- How the value of an option is called. -/
def valueName : ValueOption → String
  | iterations => "N"
  | repeats => "N"
  | outDir => "DIR"
  | seed => "SEED"
  | earlyExit => "TOL"

/-- The option with its value, as messages show it. -/
def shown (o : ValueOption) : String := "--" ++ o.name ++ " <" ++ o.valueName ++ ">"

end ValueOption

/-- The options that are either given or not. -/
inductive Switch
  | mixed
  | buffered
deriving DecidableEq

namespace Switch

/-- All switches. -/
def all : List Switch := [mixed, buffered]

/-- The name behind the two dashes. -/
def name : Switch → String
  | mixed => "mixed"
  | buffered => "buffered"

/-- The switch as messages show it. -/
def shown (s : Switch) : String := "--" ++ s.name

end Switch

/-- The arguments that have to be there. -/
inductive RequiredItem
  | count
  | label
deriving DecidableEq

/-- A required argument as messages show it. -/
def RequiredItem.shown : RequiredItem → String
  | .count => "<COUNT>"
  | .label => "<FLAG>"

/-- Why a command line leads to no options. -/
inductive Usage
  /-- Nothing that can be given, as it is shown. -/
  | unknownArgument (shown : String)
  /-- An option without its value. -/
  | emptyValue (o : ValueOption)
  /-- An option given more than once. -/
  | repeatedOption (o : ValueOption)
  /-- A switch given more than once. -/
  | repeatedSwitch (s : Switch)
  /-- Required arguments that are not there. -/
  | missing (items : List RequiredItem)
  /-- The help text is asked for, under the given name of the program. -/
  | help (program : String)
  /-- The version is asked for, under the given name of the program. -/
  | version (program : String)
deriving DecidableEq

namespace Usage

/-- The title of help and version. A name of the program with spaces in it stands there itself, with
dashes for them. -/
def title (program : String) : String :=
  if program.toList.contains ' ' then
    String.ofList (program.toList.map fun c => if c = ' ' then '-' else c)
  else "optifuzz"

/-- The help text of the program with the given name. -/
def helpText (program : String) : String :=
  title program ++ " \n" ++
  "Times a two-argument function over adversarial input classes\n" ++
  "\n" ++
  "USAGE:\n" ++
  "    " ++ program ++ " [FLAGS] [OPTIONS] <COUNT> <FLAG> [CLASSES]\n" ++
  "\n" ++
  "FLAGS:\n" ++
  "        --buffered    Collect results in memory and print them to stdout when done\n" ++
  "    -h, --help        Prints help information\n" ++
  "        --mixed       Draw every sample from a random one of CLASSES in a single run\n" ++
  "    -V, --version     Prints version information\n" ++
  "\n" ++
  "OPTIONS:\n" ++
  "        --early-exit <TOL>    Stop re-measuring samples within TOL clocks of the fastest one\n" ++
  "        --iterations <N>      Number of passes over all inputs (default: 10)\n" ++
  "        --out-dir <DIR>       Directory the result CSV files are written to (default: .)\n" ++
  "        --repeats <N>         Calls of the target per timing window (default: 100)\n" ++
  "        --seed <SEED>         Seeds the input generator, decimal or 0x-prefixed hex\n" ++
  "\n" ++
  "ARGS:\n" ++
  "    <COUNT>      Number of input pairs to draw for every fuzz class\n" ++
  "    <FLAG>       Label recorded in the output, e.g. the compile flags of the target\n" ++
  "    <CLASSES>    Whitespace-separated fuzz classes, run in order (default: \"uniform equal zero max64 umax64\")\n"

/-- The version line of the program with the given name, without its end. -/
def versionText (program : String) : String := title program ++ " "

/-- The words for an option or a switch given more than once. -/
def repeatedText (shown : String) : String :=
  "error: The argument '" ++ shown ++
    "' was provided more than once, but cannot be used multiple times"

/-- What is said about a command line. -/
def message : Usage → String
  | unknownArgument shown =>
    "error: Found argument '" ++ shown ++
      "' which wasn't expected, or isn't valid in this context"
  | emptyValue o =>
    "error: The argument '" ++ o.shown ++ "' requires a value but none was supplied"
  | repeatedOption o => repeatedText o.shown
  | repeatedSwitch s => repeatedText s.shown
  | missing items =>
    "error: The following required arguments were not provided:" ++
      String.join (items.map fun i => "\n    " ++ i.shown)
  | help program => helpText program
  | version _ => "\n"

/-- Whether what is said was asked for, and is no error. -/
def isAnswer : Usage → Bool
  | help _ => true
  | version _ => true
  | _ => false

end Usage

end TimingAudit
