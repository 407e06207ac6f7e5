import Coprocess.Program.Shell.Command

/-!
# The shell

The shell runs the statements of a script one after the other.

* `Shell.begin`, `Shell.perform`: beginning a statement, and carrying out a task;
* `Shell.act`: what the shell does next; `Shell.heed`: what a signal changes;
* `Shell.start`.
-/

namespace Coprocess.Program

open Shell

namespace Shell

/-! ## Statements -/

/-- The environment after assignments. -/
def assign (env : Environment) : List (List Char × Phrase) → Except String Environment
  | [] => .ok env
  | (name, w) :: rest => do
    let (value, env) ← env.single w
    assign { env with bindings := env.bindings.set name value } rest

/-- Some part of an assignment was the output of a script. -/
def hasCapture (assignments : List (List Char × Phrase)) : Bool :=
  assignments.any fun (_, w) => w.any fun
    | .captured .. => true
    | _ => false

/-- Calls a function. -/
def call (s : Shell) (files : Files) (body : Statement) (args : List (List Char)) : Shell :=
  { s with
    files
    env := { s.env with parameters := args, status := 0 }
    tasks := .run body :: .returned s.env.parameters [] :: .restore s.files :: s.tasks }

/-- Runs a command by its name. `plain` tells that its files are those of the shell. -/
def command (s : Shell) (files : Files) (separators : List Char) (plain : Bool)
    (name : List Char) (args : List (List Char)) : Act Shell :=
  let (direct, name, args) : Bool × List Char × List (List Char) :=
    match String.ofList name, args with
    | "command", ('-' :: _) :: _ => (false, name, args)
    | "command", next :: rest => (true, next, rest)
    | _, _ => (false, name, args)
  let word := String.ofList name
  match if direct then none else s.env.functions.lookup name with
  | some body => .go (s.call files body args)
  | none =>
    if word = "exec" then
      match args with
      | [] => release { (s.finish 0) with files }
      | program :: args => s.external files program args true true
    else if word = "read" ∧ !plain then
      -- The line is read from the redirected input.
      { s with files, tasks := .restore s.files :: s.tasks }.builtin files separators word args
    else if builtinNames.contains word then s.builtin files separators word args
    else s.external files name args false s.tasks.isEmpty

/-- Runs a simple statement whose words need no further output. -/
def simple (s : Shell) (assignments : List (List Char × Phrase)) (words : List Phrase)
    (changes : List Redirection) : Act Shell :=
  let expanded : Except String (List (List Char) × Environment × Environment) := do
    let (fields, env) ← s.env.fields words
    return (fields, env, ← assign env assignments)
  match expanded with
  | .error message => s.abort message 2
  | .ok (fields, env, assigned) =>
    match { s with env }.redirect s.files changes with
    | .error message => s.complain s.files message (·.finish 2)
    | .ok (files, s) =>
      match fields with
      | [] =>
        let status := if hasCapture assignments then s.env.status else 0
        .go { s with env := { assigned with status } }
      | name :: args => s.command files assigned.separators changes.isEmpty name args

/-- The body of the first case that fits a text. -/
def chooseCase (env : Environment) (text : List Char) :
    List (List Phrase × Statement) → Except String (Option Statement)
  | [] => .ok none
  | (patterns, body) :: rest => do
    if ← patterns.anyM fun p => do return (← env.glob p).1.accepts text then return some body
    chooseCase env text rest

/-- Begins a statement. -/
def begin (s : Shell) (statement : Statement) : Act Shell :=
  let push (tasks : List Task) : Act Shell := .go { s with tasks := tasks ++ s.tasks }
  let guarded : List Task := if s.env.fragile then [.checkpoint] else []
  match pendingStatement? statement with
  | some (script, fill) => s.substitute script fill s.tasks
  | none =>
    match statement with
    | .nothing => .go s
    | .simple assignments words changes =>
      { s with tasks := guarded ++ s.tasks }.simple assignments words changes
    | .sequence a b => push [.run a, .run b]
    | .andThen a b => push [.run a, .ifSucceeded b]
    | .orElse a b => push [.run a, .ifFailed b]
    | .negation a => push [.run a, .negate]
    | .conditional test yes no => push [.run test, .branch yes no]
    | .loop inverted test body => push [.run test, .decide inverted test body 0]
    | .forEach name words body =>
      match words with
      | none => .go { s.finish 0 with tasks := .each name s.env.parameters body :: s.tasks }
      | some words =>
        match s.env.fields words with
        | .ok (fields, env) =>
          .go { s with env := { env with status := 0 }, tasks := .each name fields body :: s.tasks }
        | .error message => s.abort message 2
    | .choice subject cases =>
      let chosen : Except String (Option Statement × Environment) := do
        let (text, env) ← s.env.single subject
        return (← chooseCase env text cases, env)
      match chosen with
      | .ok (body, env) =>
        .go { s with
          env := { env with status := 0 }
          tasks := (body.map Task.run).toList ++ s.tasks }
      | .error message => s.abort message 2
    | .subshell a => push (.enter s.files a :: guarded)
    | .redirected a changes =>
      match s.redirect s.files changes with
      | .ok (files, s') =>
        .go { s' with files, tasks := .run a :: .restore s.files :: s.tasks }
      | .error message => s.complain s.files message (·.finish 2)
    | .pipeline a b =>
      let n := s.fresh
      .go { s with
        fresh := n + 1
        tasks := .enter (s.files.set 1 (some (.buffer n))) a ::
          .enter (s.files.set 0 (some (.buffer n))) b :: guarded ++ s.tasks }
    | .background a => push [.enter (s.files.set 0 (some .void)) a, .launched]
    | .definition name body =>
      let functions := (name, body) :: s.env.functions.filter (·.1 ≠ name)
      .go { s with env := { s.env with functions, status := 0 } }

/-- Carries out a task; the tasks after it are those of `s`. -/
def perform (s : Shell) (task : Task) : Act Shell :=
  let push (task : Task) : Act Shell := .go { s with tasks := task :: s.tasks }
  let succeeded : Bool := s.env.status = 0
  match task with
  | .run statement => s.begin statement
  | .ifSucceeded b => if succeeded then push (.run b) else .go s
  | .ifFailed b => if succeeded then .go s else push (.run b)
  | .negate => .go (s.finish (if succeeded then 1 else 0))
  | .branch yes no =>
    match if succeeded then yes else no with
    | .nothing => .go (s.finish 0)
    | next => push (.run next)
  | .decide inverted test body last =>
    if succeeded != inverted then
      .go { s with tasks := .run body :: .again inverted test body :: s.tasks }
    else .go (s.finish last)
  | .again inverted test body =>
    .go { s with tasks := .run test :: .decide inverted test body s.env.status :: s.tasks }
  | .each _ [] _ => .go s
  | .each name (value :: left) body =>
    .go { s with
      env := { s.env with bindings := s.env.bindings.set name value }
      tasks := .run body :: .each name left body :: s.tasks }
  | .restore files => .go { s with files }
  | .returned parameters saved => .go { s with env := calledFrom s.env parameters saved }
  | .checkpoint =>
    if succeeded || isTested s.tasks then .go s else s.exitWith s.env.status
  | .launched =>
    let env := { s.env with background := s.env.status :: s.env.background, status := 0 }
    .go { s with env }
  | .settle status => .go (s.finish status)
  | .quit code => s.exitWith code
  | .leave env files =>
    match s.env.traps.lookup 0 with
    | some action =>
      let traps := s.env.traps.filter (·.1 ≠ 0)
      .go ({ s with env := { s.env with traps } }.interlude action (.leave env files :: s.tasks))
    | none => .go { s with env := { env with status := s.env.status }, files }
  | .enter files statement =>
    .go { s with
      files
      env := inherited s.env
      tasks := .run statement :: .leave s.env s.files :: s.tasks }
  | .releaseOutput => if s.holds .output then .go s else .closeOutput s
  | .complete n fill =>
    let text := withoutLastLines (charsOf ((s.buffer n).toList.filter (· ≠ 0)))
    push (.run (fill text))

/-- What a shell does next. -/
def act (s : Shell) : Act Shell :=
  if s.broken then
    let s := { s with broken := false }
    (s.finish (if s.ignores .pipe then 1 else 141)).deliver .pipe
  else match s.job, s.reading with
    | some job, _ => s.actJob job
    | none, some r => s.actReading r
    | none, none =>
      match s.received.reverse, s.tasks with
      | signal :: rest, _ => { s with received := rest.reverse }.deliver signal
      | [], [] => s.exitWith (s.env.status % 256)
      | [], task :: tasks => { s with tasks }.perform task

/-- The shell after a signal; `none` if the signal ends it. -/
def heed (s : Shell) (signal : Signal) : Option Shell :=
  if signal = .kill then none
  else match s.env.traps.lookup signal.number with
    | some [] => some s
    | some _ =>
      if (s.job.map (·.replacing)).getD false then none
      else some { s with received := signal :: s.received }
    | none => if isHarmless signal then some s else none

/-- The variables at the start. -/
def startVariables : Bindings :=
  [("LC_ALL".toList, ['C']), ("OPTIND".toList, ['1']),
    ("PATH".toList, "/usr/local/sbin:/usr/local/bin:/usr/sbin:/usr/bin:/sbin:/bin".toList)]

/-- A shell that writes a diagnostic and ends with code 2. -/
def refused (tree : FileTree) (message : String) : Shell :=
  let script := "printf '%s\\n' \"$0: 0: $1\" >&2; exit 2".toList
  { tree
    env := { name := ['s', 'h'], parameters := [message.toList] }
    tasks := ((Statement.parse? script).map Task.run).toList }

/-- The shell for some arguments: a script after an option, its name and its parameters. -/
def start (tree : FileTree) (args : List Bytes) : Shell :=
  let (letters, rest) := optionLetters (args.map charsOf)
  if !letters.contains 'c' then refused tree "no script"
  else match rest with
    | [] => refused tree "-c requires an argument"
    | script :: names =>
      match Statement.parse? script with
      | none => refused tree "Syntax error"
      | some statement =>
        { tree
          env := {
            bindings := startVariables
            name := names.headD ['s', 'h']
            parameters := names.tail }
          tasks := [.run statement] }

end Shell

end Coprocess.Program
