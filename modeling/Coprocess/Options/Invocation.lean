import Coprocess.Flow
import Coprocess.Options.Scan
import Coprocess.Record
import Coprocess.Wrap

/-!
# Invocations

* `Command`: a run of a program as a stage, or a request for completions;
* `Invocation`: a command and the options that hold for the whole tool;
* `Invocation.parse`: the invocation that a command line spells.
-/

namespace Coprocess

/-- What a tool does with its input. -/
inductive Tool
  | documents (flow : Flow)
  | fold (options : WrapOptions) (flow : Flow)
  | cache (key : CacheKey) (flow : Flow)
  | pool (inputs : List Bytes) (workers : Option Nat) (compress : Bool) (framing : Framing)
      (flow : Flow)

/-- A command of the tool. -/
inductive Command
  | run (tool : Tool) (argv : List Bytes)
  | completions (shell : Bytes)

/-- What a command line asks for. -/
structure Invocation where
  verbose : Nat
  quiet : Bool
  logFormat : Option LogFormat
  logFile : Option Bytes
  noColor : Bool
  command : Command

namespace Invocation

/-- The words `true` and `false` as the environment spells them. -/
def switch? (text : String) : Option Bool :=
  if text = "true" then some true else if text = "false" then some false else none

/-- Whether colours are off on a level: by an option there, else by the environment, which may not
hold other words. -/
def noColorOf (s : Scan) (environment : Option String) : Except UsageError (Option Bool) :=
  if s.has .noColor then .ok (some true)
  else match environment with
    | none => .ok none
    | some text =>
      match switch? text with
      | some b => .ok (some b)
      | none => .error (.invalidValue "--no-color" text ["true", "false"])

/-- Completes a level after its last word. -/
def closeLevel (s : Scan) (environment : Option String) :
    Except UsageError (Scan × Option Bool) := do
  let s ← s.settle
  let noColor ← noColorOf s environment
  return (s, noColor)

/-- A level may not ask for more and for less to be said. The option that is given first is
refused. -/
def checkConflict (s : Scan) : Except UsageError Unit :=
  if s.has .quiet ∧ s.has .verbose then
    match s.given.find? fun (key, _) => key = .quiet ∨ key = .verbose with
    | some (.quiet, _) => .error (.argumentConflict "--quiet" "--verbose...")
    | _ => .error (.argumentConflict "--verbose..." "--quiet")
  else .ok ()

/-- The number that an option was given. -/
def numberOf? (s : Scan) (key : OptionKey) : Option Nat :=
  (s.values key).head?.bind fun w => match Utf8.decode w with
    | .ok text => Decimal.word? text
    | .error _ => none

/-- The text that an option was given. -/
def textOf? (s : Scan) (key : OptionKey) : Option (List Char) :=
  (s.values key).head?.map Utf8.lossy

/-- Flow control as given. -/
def flowOf (s : Scan) : Flow :=
  { flushEvery := (numberOf? s .flushEvery).getD 4096, capacity := numberOf? s .queueCapacity }

/-- The key of a cache as given. -/
def cacheKeyOf (s : Scan) : CacheKey :=
  { selection := (textOf? s .keyFields).bind fun text => (FieldSelection.parse text).toOption
    separator := ((s.values .separator).head?.bind (·.head?)).getD 9 }

/-- How lines are to be wrapped. -/
def wrapOptionsOf (s : Scan) : WrapOptions :=
  let default : WrapOptions := {}
  { width := (numberOf? s .width).getD default.width
    delimiters := (textOf? s .delimiters).getD default.delimiters
    keepDelimiters := !s.has .stripDelimiters }

/-- What a command does according to its options. -/
def commandOf (s : Scan) (argv : List Bytes) : CommandName → Command
  | .wrapDoc => .run (.documents (flowOf s)) argv
  | .wrapFold => .run (.fold (wrapOptionsOf s) (flowOf s)) argv
  | .wrapCache => .run (.cache (cacheKeyOf s) (flowOf s)) argv
  | .wrapPool =>
    let framing := if (s.values .framing).head? = some (Bytes.ofString "lines") then Framing.lines
      else .warc
    .run (.pool (s.values .inputs) (numberOf? s .workers) (s.has .compress) framing (flowOf s)) argv
  | .completions => .completions ((s.values .shell).headD [])

/-- Reads the words of a command: its options, whether colours are off, and the command. -/
def parseCommand (name : CommandName) (rest : List Bytes) (environment : Option String) :
    Except UsageError (Scan × Option Bool × Command) := do
  let (s, stop) ← Scan.words (Level.ofCommand name) rest {}
  let (s, noColor) ← closeLevel s environment
  checkConflict s
  let argv := match stop with
    | .program words => words
    | _ => []
  if name = .completions ∧ !s.has .shell then
    throw (.missingRequiredArgument Scan.shellSpec.title)
  if name ≠ .completions ∧ argv.isEmpty then throw (.missingRequiredArgument "<COMMAND>...")
  return (s, noColor, commandOf s argv name)

/-- How often more was asked for; the count ends at 255. -/
def verbosity (s : Scan) : Nat := min 255 (s.count .verbose)

/-- The invocation that options on both levels make: the inner level wins where both give one. -/
def combine (outer inner : Scan) (noColor : Bool) (command : Command) : Invocation :=
  let logWord (key : OptionKey) : Option Bytes :=
    (inner.values key).head?.or (outer.values key).head?
  { verbose := if inner.has .verbose then verbosity inner else verbosity outer
    quiet := inner.has .quiet || outer.has .quiet
    logFormat := (logWord .logFormat).bind fun w => LogFormat.parse? (Utf8.lossyString w)
    logFile := logWord .logFile
    noColor
    command }

/-- Why a command line is refused, and in the words of which command. -/
structure Refusal where
  error : UsageError
  command : Option CommandName := none

/-- The invocation that a command line spells. `environment` is the value of the variable that turns
colours off. The words of the command are judged before the options in front of it. -/
def parse (args : List Bytes) (environment : Option String) : Except Refusal Invocation := do
  let (outer, stop) ← (Scan.words Level.root args {}).mapError (⟨·, none⟩)
  match stop with
  | .command name rest =>
    let (inner, innerColor, command) ←
      (parseCommand name rest environment).mapError (⟨·, some name⟩)
    let (outer, outerColor) ← (closeLevel outer environment).mapError (⟨·, none⟩)
    (checkConflict outer).mapError (⟨·, none⟩)
    let noColor := inner.has .noColor || outer.has .noColor ||
      (innerColor.or outerColor).getD false
    return combine outer inner noColor command
  | _ =>
    let (outer, noColor) ← (closeLevel outer environment).mapError (⟨·, none⟩)
    if outer.given.isEmpty ∧ noColor.isNone then throw ⟨.displayHelpOnMissing, none⟩
    throw ⟨.missingSubcommand, none⟩

end Invocation

end Coprocess
