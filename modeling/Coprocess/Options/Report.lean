import Coprocess.Options.Invocation
import Coprocess.Text.Similarity

/-!
# Reports on command lines

* `UsageError.message`: what is wrong, in a line;
* `UsageError.details`: the lines beneath it, with what would be possible;
* `Refusal.report`: the whole report.
-/

namespace Coprocess

/-- The name of the tool. -/
def toolName : String := "captive"

/-- Words between brackets, after what they are. -/
def listed (what : String) (words : List String) : String :=
  if words.isEmpty then "" else "\n  [" ++ what ++ ": " ++ ", ".intercalate words ++ "]"

/-- The words at the place of a command. -/
def commandWords : List String := CommandName.all.map CommandName.word ++ ["help"]

namespace UsageError

/-- What is wrong with a command line. -/
def message : UsageError → String
  | unknownArgument word => "unexpected argument '" ++ word ++ "' found"
  | invalidValue option value _ =>
    if value.isEmpty then "a value is required for '" ++ option ++ "' but none was supplied"
    else "invalid value '" ++ value ++ "' for '" ++ option ++ "'"
  | valueValidation option value cause =>
    "invalid value '" ++ value ++ "' for '" ++ option ++ "': " ++ cause
  | missingRequiredArgument _ => "the following required arguments were not provided:"
  | argumentConflict option other =>
    "the argument '" ++ option ++ "' cannot be used " ++
      (if option = other then "multiple times" else "with '" ++ other ++ "'")
  | invalidSubcommand word => "unrecognized subcommand '" ++ word ++ "'"
  | missingSubcommand => "'" ++ toolName ++ "' requires a subcommand but one was not provided"
  | invalidUtf8 => "invalid UTF-8 was detected in one or more arguments"
  | tooManyValues option value =>
    "unexpected value '" ++ value ++ "' for '" ++ option ++ "' found; no more were expected"
  | displayHelp => ""
  | displayVersion => ""
  | displayHelpOnMissing => ""

/-- What would be possible. A word that is like the given one is proposed. -/
def details : UsageError → String
  | invalidValue _ value possible =>
    let tip := match Text.mostSimilar? value possible with
      | some word => "\n\n  tip: a similar value exists: '" ++ word ++ "'"
      | none => ""
    listed "possible values" possible ++ tip
  | missingRequiredArgument operand => "\n  " ++ operand
  | missingSubcommand => listed "subcommands" commandWords
  | _ => ""

/-- A report shows how the tool is used, unless only a value is wrong. -/
def showsUsage : UsageError → Bool
  | invalidValue .. => false
  | valueValidation .. => false
  | _ => true

end UsageError

/-- How a command is used; the tool itself without one. -/
def usageLine (command : Option CommandName) : String :=
  "Usage: " ++ toolName ++ match command with
    | none => " [OPTIONS] <COMMAND>"
    | some .completions => " completions [OPTIONS] <SHELL>"
    | some name => " " ++ name.word ++ " [OPTIONS] <COMMAND>..."

/-- What is reported of a command line that is refused. -/
def Invocation.Refusal.report (r : Refusal) : String :=
  let usage := if r.error.showsUsage then "\n\n" ++ usageLine r.command else ""
  "error: " ++ r.error.message ++ r.error.details ++ usage ++
    "\n\nFor more information, try '--help'.\n"

end Coprocess
