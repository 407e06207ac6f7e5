import Coprocess.FileTree
import Coprocess.Program.Process
import Coprocess.Program.Shell.Builtin
import Coprocess.Program.Shell.Expansion

/-!
# The state of a shell

* `Stream`, `Files`: what is open;
* `Task`: what is still to be done;
* `Shell`: a shell that runs;
* `Shell.put`, `Shell.complain`, `Shell.exitWith`, `Shell.deliver`;
* `Shell.jump`, `Shell.comeBack`: leaving loops and functions;
* `Shell.redirect`: redirections.
-/

namespace Coprocess.Program.Shell

/-- What an open file is. -/
inductive Stream
  | input
  | output
  | errors
  /-- Takes everything and holds nothing. -/
  | void
  /-- Bytes on the way from one part of a script to another. -/
  | buffer (number : Nat)
  deriving DecidableEq

/-- The open files by their numbers. -/
abbrev Files := List (Nat × Stream)

/-- The files after one was opened or closed. -/
def Files.set (files : Files) (number : Nat) (stream : Option Stream) : Files :=
  let others := List.filter (·.1 ≠ number) files
  match stream with
  | some stream => (number, stream) :: others
  | none => others

/-- The stream with a number. -/
def Files.get? (files : Files) (number : Nat) : Option Stream := List.lookup number files

/-- The files at the start. -/
def Files.standard : Files := [(0, .input), (1, .output), (2, .errors)]

/-- What is still to be done. -/
inductive Task
  | run (s : Statement)
  | ifSucceeded (s : Statement)
  | ifFailed (s : Statement)
  | negate
  | branch (yes no : Statement)
  /-- The test of a loop has run; `last` is the exit code of its last round. -/
  | decide (inverted : Bool) (test body : Statement) (last : Nat)
  /-- The body of a loop has run. -/
  | again (inverted : Bool) (test body : Statement)
  | each (name : List Char) (left : List (List Char)) (body : Statement)
  /-- A redirected statement is over. -/
  | restore (files : Files)
  /-- A function is over; its caller had these parameters and these values of its variables. -/
  | returned (parameters : List (List Char)) (saved : List (List Char × Option (List Char)))
  /-- A command is over whose failure may end the script. -/
  | checkpoint
  /-- What ran in the background is over. -/
  | launched
  /-- An interlude is over; the exit code is what it was before. -/
  | settle (status : Nat)
  /-- Ends the script, or the part that has an environment of its own. -/
  | quit (code : Nat)
  /-- A part with an environment of its own is over. -/
  | leave (env : Environment) (files : Files)
  /-- Runs a statement in an environment of its own with these files. -/
  | enter (files : Files) (s : Statement)
  /-- Closes the output for good when no file leads there any more. -/
  | releaseOutput
  /-- What is in a buffer completes a statement. -/
  | complete (buffer : Nat) (fill : List Char → Statement)

/-- A small program in the foreground. -/
structure Job where
  process : Process
  files : Files
  /-- The program has taken the place of the shell. -/
  replacing : Bool := false
  /-- Its exit code if it cannot read or write. -/
  trouble : Nat := 1

/-- A line that is being read into variables. -/
structure Reading where
  names : List (List Char)
  raw : Bool
  separators : List Char
  text : List Char := []

end Shell

open Shell

/-- A shell that runs. -/
structure Shell where
  tasks : List Task := []
  env : Environment := {}
  files : Files := Files.standard
  buffers : List (Nat × Array UInt8) := []
  /-- The number of the next buffer. -/
  fresh : Nat := 0
  job : Option Job := none
  reading : Option Reading := none
  /-- Nobody reads what the shell wrote itself. -/
  broken : Bool := false
  /-- Signals that came while a program ran in the foreground, the latest first. -/
  received : List Signal := []
  /-- The programs that can be started. -/
  tree : FileTree

namespace Shell

/-- What is in a buffer. -/
def buffer (s : Shell) (number : Nat) : Array UInt8 := (s.buffers.lookup number).getD #[]

/-- Changes what is in a buffer. -/
def setBuffer (s : Shell) (number : Nat) (content : Array UInt8) : Shell :=
  { s with buffers := (number, content) :: s.buffers.filter (·.1 ≠ number) }

/-- Goes on after a command with an exit code. -/
def finish (s : Shell) (status : Nat) : Shell := { s with env := { s.env with status } }

/-- Writes into a stream. -/
def put (s : Shell) (stream : Option Stream) (data : Bytes) (next broken : Shell → Shell) :
    Act Shell :=
  match stream with
  | some .output => .write data (next s) (broken s)
  | some .errors => .warn data (next s)
  | some (.buffer n) => .go (next (s.setBuffer n (s.buffer n ++ data)))
  | _ => .go (next s)

/-- Writes a diagnostic of the shell and goes on. -/
def complain (s : Shell) (files : Files) (message : String) (next : Shell → Shell) : Act Shell :=
  let text := String.ofList s.env.name ++ ": 1: " ++ message ++ "\n"
  s.put (files.get? 2) (bytesOf text.toList) next next

/-- Drops tasks up to the end of the part that has an environment of its own. -/
def unwind (s : Shell) : Option Shell :=
  match s.tasks.dropWhile fun
    | .leave .. => false
    | _ => true with
  | [] => none
  | tasks => some { s with tasks }

/-- Runs what is to be done at a signal, or at the end of the script, and comes back. -/
def interlude (s : Shell) (action : List Char) (then' : List Task) : Shell :=
  match Statement.parse? action with
  | some statement => { s with tasks := .run statement :: .settle s.env.status :: then' }
  | none => { s with tasks := then' }

/-- Ends the script, or the part that has an environment of its own, with a code. What is to be done
at its end is done before. -/
def exitWith (s : Shell) (code : Nat) : Act Shell :=
  match s.env.traps.lookup 0 with
  | some action =>
    let env := { s.env with traps := s.env.traps.filter (·.1 ≠ 0), status := code }
    let tasks := (s.unwind.map (·.tasks)).getD []
    .go ({ s with env }.interlude action (.quit code :: tasks))
  | none =>
    match s.unwind with
    | some s => .go (s.finish code)
    | none => .exit (code % 256)

/-- Ends the script, or the part that has an environment of its own, after a diagnostic. -/
def abort (s : Shell) (message : String) (code : Nat) : Act Shell :=
  s.complain s.files message fun s => { s.finish code with tasks := .quit code :: s.tasks }

/-- Takes a signal: it does what was asked for, nothing, or ends the shell. -/
def deliver (s : Shell) (signal : Signal) : Act Shell :=
  match if signal = .kill then none else s.env.traps.lookup signal.number with
  | some [] => .go s
  | some action => .go (s.interlude action s.tasks)
  | none => if isHarmless signal then .go s else .raise signal

/-- A signal does nothing. -/
def ignores (s : Shell) (signal : Signal) : Bool := s.env.traps.lookup signal.number = some []

/-- What is left of an environment in a part that has its own: only what is ignored stays so. -/
def inherited (env : Environment) : Environment :=
  { env with traps := env.traps.filter fun (_, action) => action.isEmpty, background := [] }

/-! ## Loops and functions -/

/-- Leaves loops: drops tasks up to the `count`-th loop, and that one as well unless `keep`. `none`
when there is no loop to leave. -/
def leaveLoops (keep : Bool) : Nat → List Task → Files → Option (List Task × Files)
  | _, [], _ => none
  | count, task :: rest, files =>
    let loop : Option Task := match task with
      | .again .. => some task
      | .each .. => some task
      | .decide inverted test body _ => some (.again inverted test body)
      | _ => none
    match task, loop with
    | .leave .., _ => none
    | .returned .., _ => none
    | .restore files, _ => leaveLoops keep count rest files
    | _, none => leaveLoops keep count rest files
    | _, some loop =>
      let here := (if keep then loop :: rest else rest, files)
      if count ≤ 1 then some here else (leaveLoops keep (count - 1) rest files).or (some here)

/-- Leaves or continues a loop. -/
def jump (s : Shell) (keep : Bool) (args : List (List Char)) : Shell :=
  let count := ((args.head?.bind signed?).getD 1).toNat
  match leaveLoops keep (max 1 count) s.tasks s.files with
  | some (tasks, files) => { s.finish 0 with tasks, files }
  | none => s.finish 0

/-- The environment of the caller of a function. -/
def calledFrom (env : Environment) (parameters : List (List Char))
    (saved : List (List Char × Option (List Char))) : Environment :=
  let bindings := saved.foldl (fun (vars : Bindings) (name, value) =>
    match value with
    | some value => vars.set name value
    | none => List.filter (·.1 ≠ name) vars) env.bindings
  { env with parameters, bindings }

/-- Leaves a function: the tasks of its caller, and the files and the environment there. -/
def leaveFunction (env : Environment) :
    List Task → Files → Option (List Task × Files × Environment)
  | [], _ => none
  | .leave .. :: _, _ => none
  | .restore files :: rest, _ => leaveFunction env rest files
  | .returned parameters saved :: rest, files => some (rest, files, calledFrom env parameters saved)
  | _ :: rest, files => leaveFunction env rest files

/-- Leaves a function, or ends the script, with a code. -/
def comeBack (s : Shell) (code : Nat) : Act Shell :=
  match leaveFunction s.env s.tasks s.files with
  | some (tasks, files, env) => .go ({ s with tasks, files, env }.finish code)
  | none => s.exitWith code

/-- Gives variables of a function values of their own. `none` outside of functions. -/
def shelter (env : Environment) (names : List (List Char)) : List Task → Option (List Task)
  | [] => none
  | .leave .. :: _ => none
  | .returned parameters saved :: rest =>
    let new := names.filter fun name => !saved.any (·.1 = name)
    let sheltered := new.map fun name => (name, List.lookup name env.bindings)
    some (.returned parameters (sheltered ++ saved) :: rest)
  | task :: rest => (shelter env names rest).map (task :: ·)

/-- The exit code decides what is done next, so that a failure is no reason to end the script. -/
def isTested (tasks : List Task) : Bool :=
  tasks.any fun
    | .ifSucceeded _ => true
    | .ifFailed _ => true
    | .negate => true
    | .branch .. => true
    | .decide .. => true
    | _ => false

/-! ## Files -/

/-- The stream that a path opens, or a message. -/
def openPath (files : Files) (opening : Opening) (path : List Char) : Except String Stream :=
  let open' (number : Nat) (verb : String) : Except String Stream :=
    match files.get? number with
    | some stream => .ok stream
    | none => .error ("cannot " ++ verb ++ " " ++ String.ofList path ++ ": No such file")
  match String.ofList path with
  | "/dev/null" => .ok .void
  | "/dev/stdin" => open' 0 "open"
  | "/dev/stdout" => open' 1 "create"
  | "/dev/stderr" => open' 2 "create"
  | text =>
    if opening = .reading then .error ("cannot open " ++ text ++ ": No such file") else .ok .void

/-- The files after some redirections. -/
def redirect (s : Shell) (files : Files) : List Redirection → Except String (Files × Shell)
  | [] => .ok (files, s)
  | .file number opening path :: rest => do
    let (path, env) ← s.env.single path
    redirect { s with env } (files.set number (some (← openPath files opening path))) rest
  | .duplicate number other :: rest => do
    let (other, env) ← s.env.single other
    let s := { s with env }
    if other = ['-'] then redirect s (files.set number none) rest
    else match readDecimal other with
      | some (n, []) =>
        match files.get? n with
        | some stream => redirect s (files.set number (some stream)) rest
        | none => .error (String.ofList other ++ ": Bad file descriptor")
      | _ => .error "Bad fd number"
  | .text number content :: rest => do
    let (content, env) ← s.env.single content
    let n := s.fresh
    let s := { s with env, fresh := n + 1 }
    redirect (s.setBuffer n (bytesOf content).toArray) (files.set number (some (.buffer n))) rest

/-- Some file leads to a stream. -/
def holds (s : Shell) (stream : Stream) : Bool := s.files.any (·.2 = stream)

/-- Closes the input for good when no file leads there any more; the output is next. -/
def release (s : Shell) : Act Shell :=
  let next := { s with tasks := .releaseOutput :: s.tasks }
  if s.holds .input then .go next else .closeInput next

end Shell

end Coprocess.Program
