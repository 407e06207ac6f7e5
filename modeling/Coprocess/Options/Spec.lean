import Coprocess.Field
import Coprocess.Log.Config

/-!
# Options

* `UsageError`: why a command line is refused, or what it asks for instead of a run;
* `OptionKey`: the options and operands;
* `OptionSpec`, `Level`: how they are spelled, and which belong to the tool itself and to each of
  its commands;
* `OptionKey.check`: which values an option takes.
-/

namespace Coprocess

/-- Why a command line is no invocation. Options and operands are named as messages name them. -/
inductive UsageError
  | unknownArgument (word : String)
  /-- A value that is none of those that are possible; an empty one is missing. -/
  | invalidValue (option value : String) (possible : List String)
  | valueValidation (option value cause : String)
  | missingRequiredArgument (operand : String)
  /-- An option that may not follow another, or itself. -/
  | argumentConflict (option other : String)
  | invalidSubcommand (word : String)
  | missingSubcommand
  | invalidUtf8
  | tooManyValues (option value : String)
  | displayHelp
  | displayVersion
  /-- Nothing at all was given. -/
  | displayHelpOnMissing
  deriving DecidableEq

/-- An option, or an operand with values of its own. -/
inductive OptionKey
  | verbose | quiet | logFormat | logFile | noColor | help | version
  | flushEvery | queueCapacity
  | width | delimiters | stripDelimiters
  | keyFields | separator
  | inputs | workers | compress | framing
  | shell
  deriving DecidableEq

/-- What an option does when it is given. -/
inductive OptionKind
  /-- Counts. -/
  | count
  /-- Holds from then on; a second time is a conflict. -/
  | flag
  /-- Takes one value; a second time is a conflict. -/
  | value
  /-- Takes values up to the next option, and more each time. -/
  | values
  /-- Ends the reading of the command line. -/
  | stop (outcome : UsageError)
  deriving DecidableEq

/-- How an option is spelled. -/
structure OptionSpec where
  key : OptionKey
  kind : OptionKind
  short : Option Char
  /-- Empty for an operand. -/
  long : String
  /-- What stands for a value in messages. -/
  placeholder : String := ""

/-- How messages name an option. -/
def OptionSpec.title (o : OptionSpec) : String :=
  let name := if o.long.isEmpty then "" else "--" ++ o.long
  match o.kind with
  | .count => name ++ "..."
  | .flag => name
  | .stop _ => name
  | .value => (if name.isEmpty then "" else name ++ " ") ++ "<" ++ o.placeholder ++ ">"
  | .values => name ++ " <" ++ o.placeholder ++ ">..."

/-- What follows the options of a command. -/
inductive Operands
  /-- A command of the tool. -/
  | command
  /-- The name of a shell. -/
  | shell
  /-- A program and its arguments, which may look like options. -/
  | program
  deriving DecidableEq

/-- The options and operands of the tool itself or of one of its commands. -/
structure Level where
  options : List OptionSpec
  operands : Operands

/-- The commands of the tool. -/
inductive CommandName
  | wrapDoc | wrapFold | wrapCache | wrapPool | completions
  deriving DecidableEq

namespace CommandName

/-- Every command. -/
def all : List CommandName := [wrapDoc, wrapFold, wrapCache, wrapPool, completions]

/-- The word for a command. -/
def word : CommandName → String
  | wrapDoc => "wrap-doc"
  | wrapFold => "wrap-fold"
  | wrapCache => "wrap-cache"
  | wrapPool => "wrap-pool"
  | completions => "completions"

/-- The command for a word. -/
def ofWord? (w : Bytes) : Option CommandName := all.find? fun c => Bytes.ofString c.word = w

end CommandName

/-- The word that asks for help on the tool or a command. -/
def helpWord : Bytes := Bytes.ofString "help"

namespace Level

/-- The options that may stand before and after the word for the command. -/
def globals : List OptionSpec :=
  [⟨.verbose, .count, some 'v', "verbose", ""⟩, ⟨.quiet, .flag, some 'q', "quiet", ""⟩,
    ⟨.logFormat, .value, none, "log-format", "FORMAT"⟩,
    ⟨.logFile, .value, none, "log-file", "PATH"⟩, ⟨.noColor, .flag, none, "no-color", ""⟩,
    ⟨.help, .stop .displayHelp, some 'h', "help", ""⟩]

/-- Flow control of what is counted in `unit`. -/
def flow (unit : String) : List OptionSpec :=
  [⟨.flushEvery, .value, none, "flush-every", "FLUSH_EVERY"⟩,
    ⟨.queueCapacity, .value, none, "queue-capacity", unit⟩]

/-- The tool itself. -/
def root : Level :=
  ⟨⟨.version, .stop .displayVersion, some 'V', "version", ""⟩ :: globals, .command⟩

/-- A command of the tool. -/
def ofCommand : CommandName → Level
  | .wrapDoc => ⟨flow "UNITS" ++ globals, .program⟩
  | .wrapFold =>
    ⟨[⟨.width, .value, some 'w', "width", "WIDTH"⟩,
        ⟨.delimiters, .value, some 'd', "delimiters", "DELIMITERS"⟩,
        ⟨.stripDelimiters, .flag, some 's', "strip-delimiters", ""⟩] ++ flow "UNITS" ++ globals,
      .program⟩
  | .wrapCache =>
    ⟨[⟨.keyFields, .value, some 'k', "key", "FIELDS"⟩,
        ⟨.separator, .value, some 't', "separator", "SEPARATOR"⟩] ++ flow "UNITS" ++ globals,
      .program⟩
  | .wrapPool =>
    ⟨[⟨.inputs, .values, some 'i', "inputs", "FILE"⟩,
        ⟨.workers, .value, some 'j', "workers", "WORKERS"⟩,
        ⟨.compress, .flag, some 'z', "compress", ""⟩,
        ⟨.framing, .value, none, "framing", "FRAMING"⟩] ++ flow "RECORDS" ++ globals,
      .program⟩
  | .completions => ⟨globals, .shell⟩

/-- The option with a letter. -/
def short? (l : Level) (c : Char) : Option OptionSpec := l.options.find? (·.short = some c)

/-- The option with a name. -/
def long? (l : Level) (name : Bytes) : Option OptionSpec :=
  l.options.find? fun o => Bytes.ofString o.long = name

end Level

/-- The shells for which completions can be asked. -/
def shellNames : List String := ["bash", "elvish", "fish", "powershell", "zsh"]

/-- The words for the framings of records. -/
def framingNames : List String := ["warc", "lines"]

/-- Why an option does not take a value. -/
inductive ValueFault
  | notText
  /-- It is none of some words, or it is empty. -/
  | notAmong (words : List String)
  | refused (cause : String)

/-- The error that a bad value of an option is. -/
def ValueFault.toUsage (o : OptionSpec) (value : Bytes) : ValueFault → UsageError
  | notText => .invalidUtf8
  | notAmong words => .invalidValue o.title (Utf8.lossyString value) words
  | refused cause => .valueValidation o.title (Utf8.lossyString value) cause

namespace OptionKey

/-- The words that an option takes, if they can be listed. -/
def words : OptionKey → List String
  | framing => framingNames
  | shell => shellNames
  | _ => []

/-- Judges a text as the value of an option. -/
def checkText (key : OptionKey) (text : List Char) : Except ValueFault Unit :=
  match key with
  | width | flushEvery | queueCapacity | workers =>
    match Decimal.parse text with
    | .ok _ => .ok ()
    | .error fault => .error (.refused fault.note)
  | keyFields =>
    match FieldSelection.parse text with
    | .ok _ => .ok ()
    | .error misuse => .error (.refused (Failure.invalidArgument misuse).message)
  | logFormat =>
    let text := String.ofList text
    if (LogFormat.parse? text).isSome then .ok () else .error (.refused (LogFormat.unknown text))
  | separator =>
    if (Utf8.encode text).length = 1 then .ok ()
    else .error
      (.refused ("separator must be a single byte, got '" ++ String.ofList text ++ "'"))
  | _ => .ok ()

/-- Judges the value of an option. Paths and words need not be text. -/
def check (key : OptionKey) (w : Bytes) : Except ValueFault Unit :=
  match key with
  | logFile | inputs => if w.isEmpty then .error (.notAmong []) else .ok ()
  | framing | shell =>
    if key.words.any fun x => Bytes.ofString x = w then .ok () else .error (.notAmong key.words)
  | _ =>
    match Utf8.decode w with
    | .error _ => .error .notText
    | .ok text => key.checkText text

end OptionKey

end Coprocess
