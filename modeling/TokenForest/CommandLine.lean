import TokenForest.Report
import TokenForest.TokenFile

/-!
# The command line

One batch over a token file: the words of the command line are read as options, the files are read and the report is
written. What a run does is computed from the words and the tree of files alone.
-/

namespace TokenForest

namespace CommandLine

/-! ## Words -/

/-- The options. -/
inductive Flag where
  | help
  | tokens
  | config
  | reportOut
  | deadlineMs
  | noMinimize
  | json
  | verbose
  deriving DecidableEq, Repr

/-- The long names of the options. -/
def longNames : List (String × Flag) := [
  ("--help", .help),
  ("--tokens", .tokens),
  ("--config", .config),
  ("--report-out", .reportOut),
  ("--deadline-ms", .deadlineMs),
  ("--no-minimize", .noMinimize),
  ("--json", .json),
  ("--verbose", .verbose)]

/-- The option with a letter as its name. -/
def letter? (c : Char) : Option Flag :=
  if c = 'v' then some .verbose else if c = 'h' then some .help else none

/-- The option is followed by a value. -/
def Flag.takesValue : Flag → Bool
  | tokens => true
  | config => true
  | reportOut => true
  | deadlineMs => true
  | _ => false

/-- A word of the command line: an option with the value that is written in the same word, a value, the end of the options,
an option that does not exist, one that is written wrongly, or one whose short form is ambiguous. -/
inductive Word where
  | option (flag : Flag) (value : Option String)
  | value (text : String)
  | endOfOptions
  | unknown
  | broken
  | ambiguous
  deriving DecidableEq, Repr

/-- A minus and a number: digits, or a point with digits after it. -/
def isNegativeNumber (cs : List Char) : Bool :=
  match cs with
  | '-' :: rest =>
    LexemeShape.isDigits rest || (match rest.dropWhile Text.isDecimalDigit with
      | '.' :: fraction => LexemeShape.isDigits fraction
      | _ => false)
  | _ => false

/-- The part before the first equals sign and the part after it, if there is one. -/
def splitEquals (cs : List Char) : List Char × Option String :=
  let name := cs.takeWhile (· ≠ '=')
  match cs.dropWhile (· ≠ '=') with
  | [] => (name, none)
  | _ :: value => (name, some (String.ofList value))

/-- The options whose long name starts with a text. -/
def startingWith (name : List Char) : List Flag :=
  (longNames.filter (fun e => name.isPrefixOf e.1.toList)).map (·.2)

/-- A word that names no option: a value when it is a negative number or holds a blank. -/
def unnamed (word : String) (cs : List Char) : Word :=
  if isNegativeNumber cs || cs.contains ' ' then .value word else .unknown

/-- A word with two dashes: a long name or the start of one, perhaps with a value. -/
def longWord (word : String) (cs : List Char) : Word :=
  let (name, value) := splitEquals cs
  match longNames.lookup (String.ofList name) with
  | some flag => .option flag value
  | none =>
    match startingWith name with
    | [] => unnamed word cs
    | [flag] => .option flag value
    | _ => .ambiguous

/-- A word with one dash: letters that are options, up to the first one that is none. What follows them is left over; a
value or another dash behind a letter makes the whole word wrong. -/
def shortWord (word : String) (cs : List Char) : List Word :=
  let letters := (cs.drop 1).takeWhile (fun c => (letter? c).isSome)
  let flags := letters.filterMap letter?
  match letters, cs.drop (letters.length + 1) with
  | [], _ => [if cs.length = 1 then .value word else unnamed word cs]
  | _, [] => flags.map (.option · none)
  | _, c :: _ => if c = '=' ∨ c = '-' then [.broken] else flags.map (.option · none) ++ [.unknown]

/-- A word in front of the end of the options. -/
def wordOf (word : String) : List Word :=
  match word.toList with
  | '-' :: '-' :: rest => [longWord word ('-' :: '-' :: rest)]
  | '-' :: rest => shortWord word ('-' :: rest)
  | _ => [.value word]

/-- The words of a command line; behind two bare dashes everything is a value. -/
def wordsOf : List String → List Word
  | [] => []
  | word :: rest => if word = "--" then .endOfOptions :: rest.map .value else wordOf word ++ wordsOf rest

/-! ## Options -/

/-- What the command line asks for. -/
structure Options where
  tokens : Option Path
  config : Option Path
  reportOut : Path
  deadlineMs : Option Binary64
  minimize : Bool
  fullReport : Bool
  deriving DecidableEq

namespace Options

/-- What an empty command line asks for. -/
def initial : Options := ⟨none, none, .ofText "artifacts/bridge_report.json", none, true, false⟩

end Options

/-- The options after one more flag, or `none` when its value does not read as what it has to be. -/
def setValue (o : Options) (flag : Flag) (value : String) : Option Options :=
  match flag with
  | .tokens => some { o with tokens := some (.ofText value) }
  | .config => some { o with config := some (.ofText value) }
  | .reportOut => some { o with reportOut := .ofText value }
  | .deadlineMs => (Numeral.readDecimal? value).map (fun x => { o with deadlineMs := some x })
  | _ => none

/-- The options after a flag without a value. -/
def setFlag (o : Options) (flag : Flag) : Options :=
  match flag with
  | .noMinimize => { o with minimize := false }
  | .json => { o with fullReport := true }
  | _ => o

/-- What a command line comes to: a run, a page of help, or a complaint about its use. -/
inductive Request where
  | run (options : Options)
  | help
  | usage
  deriving DecidableEq

/-- The words with each value that belongs to the option in front of it joined to that option. -/
def joinValues : List Word → List Word
  | [] => []
  | .option flag none :: .value text :: rest =>
    if flag.takesValue then .option flag (some text) :: joinValues rest
    else .option flag none :: .value text :: joinValues rest
  | word :: rest => word :: joinValues rest

/-- The options after one option with its value, if it takes one; none when the two do not go together. -/
def setOption? (o : Options) (flag : Flag) (value : Option String) : Option Options :=
  match value with
  | some text => if flag.takesValue then setValue o flag text else none
  | none => if flag.takesValue then none else some (setFlag o flag)

/-- Reads words as options from some options on; `extra` says that a word was left over. -/
def request (o : Options) (extra : Bool) : List Word → Request
  | [] => if extra || o.tokens.isNone then .usage else .run o
  | .value _ :: rest => request o true rest
  | .endOfOptions :: rest => request o true rest
  | .unknown :: rest => request o true rest
  | .broken :: _ => .usage
  | .ambiguous :: _ => .usage
  | .option flag value :: rest =>
    if flag = .help ∧ value = none then .help
    else match setOption? o flag value with
      | some o => request o extra rest
      | none => .usage

/-- What a command line comes to. A short form that fits several options is refused before anything else is done. -/
def parse (args : List String) : Request :=
  let words := wordsOf args
  if words.contains .ambiguous then .usage else request .initial false (joinValues words)

/-! ## Running -/

/-- What a run leaves behind: the exit code, the document that is printed, the report with its path, what was wrong with
the input, and the files. -/
structure Outcome where
  exitCode : Nat
  printed : Option Json
  report : Option (Path × String)
  complaint : Option String
  files : FileTree

namespace Outcome

/-- Only an exit code. -/
def silent (files : FileTree) (exitCode : Nat) : Outcome := ⟨exitCode, none, none, none, files⟩

/-- The input was refused. -/
def refused (files : FileTree) (fault : Fault) : Outcome := ⟨2, none, none, some fault.message, files⟩

end Outcome

/-- The configuration that the options name, or the default one. -/
def configOf (files : FileTree) (o : Options) : Except Fault Config :=
  match o.config with
  | none => .ok .default
  | some path => do
    let bytes ← (files.read path).mapError .files
    (ConfigFile.read path.text bytes).mapError .config

/-- The batch that the options ask for. -/
def batchOf (files : FileTree) (o : Options) (tokens : Path) : Except Fault Batch := do
  let config ← configOf files o
  let bytes ← (files.read tokens).mapError .files
  let records ← TokenFile.read tokens.text bytes
  Batch.run records config .default .standard (.ofBudget o.deadlineMs) o.minimize

/-- The summary of a batch. -/
def summary (b : Batch) (reportOut : Path) : Json :=
  .obj [
    ("run_id", .str (Batch.runName b.survey.decisions)),
    ("status_counts", Report.statusCountsJson b.survey.decisions),
    ("node_count", .int b.forest.count),
    ("manual_review", .int b.manualReview.length),
    ("intent_mismatches", .int b.mismatches.length),
    ("report_out", .str reportOut.text)]

/-- Writes the report of a batch into a directory that is made where it is missing, and prints the report or its
summary. -/
def deliver (files : FileTree) (o : Options) (b : Batch) : Except Fault Outcome := do
  let report := Report.batchJson b
  let files ← (files.ensureDirectories o.reportOut.parent).mapError .files
  let text ← (Json.fileText .prettyFile report).mapError .write
  let files ← (files.write o.reportOut text.toUTF8).mapError .files
  return ⟨0, some (if o.fullReport then report else summary b o.reportOut), some (o.reportOut, text), none, files⟩

/-- The fault is one of the input and ends the run in good order. -/
def isInputFault : Fault → Bool
  | .config _ => true
  | .grid fault => fault.reason?.isSome
  | .recordLine _ _ _ => true
  | _ => false

/-- Runs the options: a fault of the configuration or of the stream gives the exit code 2 and no report. -/
def runOptions (files : FileTree) (o : Options) (tokens : Path) : Except Fault Outcome :=
  match batchOf files o tokens with
  | .ok b => deliver files o b
  | .error fault => if isInputFault fault then .ok (.refused files fault) else .error fault

/-- Runs a command line over some files. -/
def run (files : FileTree) (args : List String) : Except Fault Outcome :=
  match parse args with
  | .help => .ok (.silent files 0)
  | .usage => .ok (.silent files 2)
  | .run o =>
    match o.tokens with
    | some tokens => runOptions files o tokens
    | none => .ok (.silent files 2)

/-- The command line asks for a run over a token file with these bytes, and the configuration is there. -/
def Starts (files : FileTree) (args : List String) (path : Path) (bytes : ByteArray) : Prop :=
  ∃ o config, parse args = .run o ∧ o.tokens = some path ∧ configOf files o = .ok config ∧ files.read path = .ok bytes

end CommandLine

end TokenForest
