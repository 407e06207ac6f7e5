import Coprocess.Bytes

/-!
# Diagnostics

* `LogFormat`, `LogLevel`;
* `LogConfig`: what is logged and where, `LogConfig.ofVerbosity` and `LogConfig.withEnvironment`.
-/

namespace Coprocess

/-- How diagnostics are written. -/
inductive LogFormat
  | pretty
  | compact
  | json
  deriving DecidableEq

namespace LogFormat

/-- The name of a format. -/
def name : LogFormat → String
  | pretty => "pretty"
  | compact => "compact"
  | json => "json"

/-- The format with a name, in letters of either case. -/
def parse? (text : String) : Option LogFormat :=
  match text.toLower with
  | "pretty" => some pretty
  | "full" => some pretty
  | "compact" => some compact
  | "json" => some json
  | _ => none

/-- What is said of a name that no format has. -/
def unknown (text : String) : String :=
  "Unknown log format: '" ++ text ++ "'. Valid options: pretty, compact, json"

end LogFormat

/-- How severe a diagnostic is. -/
inductive LogLevel
  | error
  | warn
  | info
  | debug
  | trace
  deriving DecidableEq

namespace LogLevel

/-- Every level, the most severe first. -/
def all : List LogLevel := [error, warn, info, debug, trace]

/-- The name of a level in capitals. -/
def name : LogLevel → String
  | error => "ERROR"
  | warn => "WARN"
  | info => "INFO"
  | debug => "DEBUG"
  | trace => "TRACE"

/-- The filter that lets a level and all that are more severe pass. -/
def filter (l : LogLevel) : String := l.name.toLower

end LogLevel

/-- What is logged and where. -/
structure LogConfig where
  level : LogLevel := .warn
  format : LogFormat := .pretty
  /-- The path of a file that gets the diagnostics as well. -/
  file : Option Bytes := none
  /-- A filter that stands in for the level. -/
  filter : Option String := none
  threadNames : Bool := true

namespace LogConfig

/-- The configuration for a number of requests to say more, or the request to be quiet. An explicit
wish becomes a filter, so that the environment does not replace it. -/
def ofVerbosity (verbose : Nat) (quiet : Bool) : LogConfig :=
  let level : Option LogLevel :=
    if quiet then some .error
    else match verbose with
      | 0 => none
      | 1 => some .info
      | 2 => some .debug
      | _ => some .trace
  match level with
  | none => {}
  | some level => { level, filter := some level.filter }

/-- Fills what is not set from environment variables. -/
def withEnvironment (c : LogConfig) (get : String → Option String) : LogConfig :=
  let filter := c.filter.or ((get "CAPTIVE_LOG").or (get "RUST_LOG"))
  let format := (get "CAPTIVE_LOG_FORMAT").bind LogFormat.parse?
  let file := c.file.or ((get "CAPTIVE_LOG_FILE").map Bytes.ofString)
  { c with filter, format := format.getD c.format, file }

end LogConfig

end Coprocess
