import Coprocess.Coloring
import Coprocess.Log.Filter
import Coprocess.Options.Report
import Coprocess.Pipeline.Run
import Coprocess.Pool.Run

/-!
# Carrying out an invocation

* `Surroundings`: what an invocation finds; `Ended`: what it leaves;
* `Complaint`: a failure with the contexts in which it arose;
* `openLog`: the log file;
* `needs`: what a command line has read; `execute`: the whole run for a command line.
-/

namespace Coprocess

/-- What an invocation finds. -/
structure Surroundings where
  tree : FileTree
  /-- The standard input. -/
  input : Bytes
  /-- The variables of the environment. -/
  lookup : String → Option String
  /-- How many workers a pool has if nothing is said. -/
  workers : Nat := 1

/-- What an invocation leaves. -/
structure Ended where
  code : Nat
  output : Bytes := []
  errors : Bytes := []
  tree : FileTree

/-- A failure with the contexts in which it arose, the outermost first. -/
structure Complaint where
  causes : List String

namespace Complaint

/-- The complaint of a failure. -/
def ofFailure (f : Failure) : Complaint := ⟨f.message :: f.source?.toList⟩

/-- The complaint of an error of the system. -/
def ofErrno (e : Errno) : Complaint := ⟨[e.describe]⟩

/-- A complaint in a context. -/
def within (context : String) (c : Complaint) : Complaint := ⟨context :: c.causes⟩

/-- The lines that report a complaint. -/
def text (colored : Bool) (c : Complaint) : String :=
  match c.causes with
  | [] => ""
  | first :: rest =>
    paint "1" "0" (paint "31" "39" "error") ++ ": " ++ first ++ "\n" ++
      String.join (rest.map fun cause =>
        "  " ++ paint "33" "39" "caused by" ++ ": " ++ cause ++ "\n")
where
  /-- A text between two codes for a terminal. -/
  paint (start stop text : String) : String :=
    if colored then "\x1b[" ++ start ++ "m" ++ text ++ "\x1b[" ++ stop ++ "m" else text

end Complaint

/-! ## The log file -/

/-- A path without the slashes at its end and single dots there. -/
def trimPath (path : List Bytes) : List Bytes :=
  (path.reverse.dropWhile fun c => c.isEmpty || c = Bytes.ofString ".").reverse

/-- The directory and the name of the log file at a path. A path that names no file stands for a
file with a name of its own in its parent directory. -/
def logPlace (path : Bytes) : Bytes × Bytes :=
  let rooted := path.head? = some FileTree.slash
  let parts := trimPath (FileTree.components [] path)
  let directory := [FileTree.slash].intercalate parts.dropLast
  let directory := if directory.isEmpty then
      if rooted && !parts.isEmpty then [FileTree.slash] else Bytes.ofString "."
    else directory
  match parts.getLast? with
  | some name => (directory, if name = Bytes.ofString ".." then standard else name)
  | none => (directory, standard)
where
  /-- The name of a log file for which no name is given. -/
  standard : Bytes := Bytes.ofString "captive.log"

/-- The name of a log file as text. -/
def logName (name : Bytes) : Bytes := Utf8.encode (Utf8.lossy name)

/-- The wording of an error with its cause. -/
def logComplaint (context : String) (e : Errno) : Complaint :=
  ⟨[context ++ ": " ++ e.describe, e.describe]⟩

/-- Opens the log file at a path. When that fails, its directory is made first. -/
def openLog (t : FileTree) (path : Bytes) : Except Complaint FileTree :=
  let (directory, name) := logPlace path
  let result : Except Complaint FileTree := match t.create directory (logName name) with
    | .ok t => .ok t
    | .error _ =>
      match t.makeDirectories directory with
      | .error e => .error (logComplaint "failed to create log directory" e)
      | .ok t => (t.create directory (logName name)).mapError
        (logComplaint "failed to create initial log file")
  result.mapError (Complaint.within ("failed to open log file " ++ Utf8.lossyString path))

/-- The paths that lead to the log file and to the directories above it. -/
def logPaths (path : Bytes) : List Bytes :=
  let (directory, name) := logPlace path
  let parts := FileTree.components [] directory
  let above := (List.range parts.length).map fun n =>
    [FileTree.slash].intercalate (parts.take (n + 1))
  above.filter (!·.isEmpty) ++ [directory ++ [FileTree.slash] ++ logName name]

/-- How an invocation logs. -/
def logConfigOf (i : Invocation) (lookup : String → Option String) : LogConfig :=
  let c := (LogConfig.ofVerbosity i.verbose i.quiet).withEnvironment lookup
  { c with format := i.logFormat.getD c.format, file := i.logFile.or c.file }

/-- What is said of a filter that is none. -/
def filterWarning (filter : String) : String :=
  "Warning: Invalid log filter '" ++ filter ++ "', using default\n"

/-- What a configuration gives occasion to say; `none` when its filter cannot be taken apart. -/
def warningOf (c : LogConfig) : Option String :=
  match c.filter with
  | none => some ""
  | some filter =>
    match LogFilter.check filter with
    | .ok _ => some ""
    | .error .malformed => some (filterWarning filter)
    | .error .split => none

/-- The code of a run that breaks off. -/
def brokenCode : Nat := 101

/-! ## Runs -/

/-- What a run of a child comes to: the exit code and what was written. -/
structure Performance where
  result : Except Complaint Nat
  output : Bytes := []
  warned : Bytes := []

/-- A run that fails before it starts. -/
def Performance.failed (c : Complaint) : Performance := { result := .error c }

/-- The context of the failures of a run. -/
def runContext (argv : List Bytes) : String := "while running " ++ commandText argv

/-- Runs a pipeline from the standard input to the standard output. -/
def performPipeline (s : Surroundings) (argv : List Bytes) (kind : Source.Kind)
    (format : Sink.Format) (flow : Flow) : Option Performance :=
  match kind.validate, checkPipeline argv flow with
  | .error misuse, _ => some (.failed (.ofFailure (.invalidArgument misuse)))
  | _, .error misuse => some (.failed (.ofFailure (.invalidArgument misuse)))
  | .ok (), .ok () => do
    let run ← runPipeline s.tree argv { kind, input := s.input } { format } flow
    let result := match run.result with
      | .ok report => .ok report.exit.shellExitCode.toNat
      | .error failure => .error ((Complaint.ofFailure failure).within (runContext argv))
    return ⟨result, run.sink.outlet.written, run.warned⟩

/-- The inputs of a pool; without paths that is the standard input. -/
def poolInputs (s : Surroundings) (paths : List Bytes) : Except Complaint (List Supply) :=
  if paths.isEmpty then .ok [Gzip.openInput [s.input]]
  else paths.mapM fun path =>
    match s.tree.read path with
    | .ok (.ok content) => .ok (Gzip.openInput [content])
    | .ok (.error e) => .ok { bytes := [], fault := some (.os e), lasting := some (.os e) }
    | .error e =>
      .error ((Complaint.ofErrno e).within ("failed to open " ++ Utf8.lossyString path))

/-- Runs a pool to the standard output. -/
def performPool (s : Surroundings) (argv paths : List Bytes) (settings : PoolSettings) :
    Option Performance :=
  match checkPool s.tree argv settings with
  | .error failure => some (.failed (.ofFailure failure))
  | .ok child =>
    match poolInputs s paths with
    | .error complaint => some (.failed complaint)
    | .ok inputs => do
      let run ← runPool child settings inputs {}
      let result := match run.result with
        | .ok _ => .ok 0
        | .error failure => .error ((Complaint.ofFailure failure).within (runContext argv))
      return ⟨result, run.outlet.written, run.warned⟩

/-- The words that a completion for a shell offers. -/
def completions (shell : Bytes) : Bytes :=
  let words := " ".intercalate commandWords
  Bytes.ofString ("# " ++ Utf8.lossyString shell ++ ": " ++ words ++ "\n")

/-- Carries out a command. -/
def perform (s : Surroundings) : Command → Option Performance
  | .completions shell => some { result := .ok 0, output := completions shell }
  | .run tool argv =>
    match tool with
    | .documents flow => performPipeline s argv .document .document flow
    | .fold options flow => performPipeline s argv (.fold options) .line flow
    | .cache key flow => performPipeline s argv (.cache key) .line flow
    | .pool inputs workers compress framing flow =>
      performPool s argv inputs
        { workers := workers.getD s.workers, compress, framing, flow }

/-! ## The whole run -/

/-- The name of the tool and its version. -/
def versionText : String := toolName ++ " 0.1.0\n"

/-- A short help. -/
def helpText : String := usageLine none ++ "\n" ++ listed "commands" commandWords ++ "\n"

/-- What a command line that is no invocation gets: a code, output and diagnostics. -/
def usageAnswer (r : Invocation.Refusal) : Nat × String × String :=
  match r.error with
  | .displayHelp => (0, helpText, "")
  | .displayVersion => (0, versionText, "")
  | .displayHelpOnMissing => (2, "", helpText)
  | _ => (2, "", r.report)

/-- The variables of the environment that a run heeds. -/
def heededNames : List String :=
  ["CAPTIVE_LOG", "RUST_LOG", "CAPTIVE_LOG_FORMAT", "CAPTIVE_LOG_FILE", "NO_COLOR", "FORCE_COLOR",
    "CLICOLOR_FORCE", "IGNORE_IS_TERMINAL", "TERM", "COLORTERM", "TERM_PROGRAM", "CLICOLOR", "CI"]

/-- Whether a command reads the standard input. -/
def Command.readsInput : Command → Bool
  | .completions _ => false
  | .run (.pool inputs ..) _ => inputs.isEmpty
  | .run .. => true

/-- The paths that a command and its child are given. -/
def Command.paths : Command → List Bytes
  | .completions _ => []
  | .run (.pool inputs ..) argv => inputs ++ argv.tail
  | .run _ argv => argv.tail

/-- Whether a command line has the standard input read, and the paths that its run may open. -/
def needs (args : List Bytes) (lookup : String → Option String) : Bool × List Bytes :=
  match Invocation.parse args (lookup "NO_COLOR") with
  | .error _ => (false, [])
  | .ok i =>
    (i.command.readsInput,
      i.command.paths ++ ((logConfigOf i lookup).file.map logPaths).getD [])

/-- Carries out a command line. `none` stands for a run that does not end. -/
def execute (args : List Bytes) (s : Surroundings) : Option Ended :=
  match Invocation.parse args (s.lookup "NO_COLOR") with
  | .error refusal =>
    let (code, output, errors) := usageAnswer refusal
    some ⟨code, Bytes.ofString output, Bytes.ofString errors, s.tree⟩
  | .ok i => do
    let colored := !i.noColor && isColored s.lookup
    let config := logConfigOf i s.lookup
    let some warning := warningOf config | return { code := brokenCode, tree := s.tree }
    let opened := match config.file with
      | some path => openLog s.tree path
      | none => .ok s.tree
    match opened with
    | .error complaint =>
      return ⟨1, [], Bytes.ofString (warning ++ complaint.text colored), s.tree⟩
    | .ok tree =>
      let p ← perform { s with tree } i.command
      let (code, complaint) : Nat × String := match p.result with
        | .ok code => (code, "")
        | .error complaint => (1, complaint.text colored)
      let errors := Bytes.ofString warning ++ p.warned ++ Bytes.ofString complaint
      return ⟨code, p.output, errors, tree⟩

end Coprocess
