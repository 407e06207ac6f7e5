import Coprocess.Program.Shell.State

/-!
# Commands of a shell

A small program that a command starts runs in the foreground, on the files of the shell.

* `Shell.substitute`: running a script for its output;
* `Shell.external`, `Shell.actJob`: small programs;
* `Shell.actReading`: reading a line into variables;
* `Shell.builtin`: the commands that the shell carries out itself.
-/

namespace Coprocess.Program

open Shell

namespace Shell

/-! ## Substitutions -/

/-- The first script in a phrase whose output belongs there, and the phrase with the output. -/
def pending? : Phrase → Option (List Char × (List Char → Phrase))
  | [] => none
  | .substitution script quoted :: rest => some (script, fun text => .captured text quoted :: rest)
  | .parameter name use argument quoted :: rest =>
    match pending? argument with
    | some (script, fill) =>
      some (script, fun text => .parameter name use (fill text) quoted :: rest)
    | none => (pending? rest).map fun (script, fill) =>
      (script, fun text => .parameter name use argument quoted :: fill text)
  | segment :: rest => (pending? rest).map fun (script, fill) =>
    (script, fun text => segment :: fill text)

/-- The same for a list of phrases. -/
def pendingIn? : List Phrase → Option (List Char × (List Char → List Phrase))
  | [] => none
  | w :: rest =>
    match pending? w with
    | some (script, fill) => some (script, fun text => fill text :: rest)
    | none => (pendingIn? rest).map fun (script, fill) => (script, fun text => w :: fill text)

/-- The same for assignments. -/
def pendingAssigned? :
    List (List Char × Phrase) → Option (List Char × (List Char → List (List Char × Phrase)))
  | [] => none
  | (name, w) :: rest =>
    match pending? w with
    | some (script, fill) => some (script, fun text => (name, fill text) :: rest)
    | none => (pendingAssigned? rest).map fun (script, fill) =>
      (script, fun text => (name, w) :: fill text)

/-- The same for redirections. -/
def pendingRedirected? :
    List Redirection → Option (List Char × (List Char → List Redirection))
  | [] => none
  | r :: rest =>
    let phrase (w : Phrase) (make : Phrase → Redirection) :=
      (pending? w).map fun (script, fill) => (script, fun text => make (fill text) :: rest)
    let first := match r with
      | .file number opening path => phrase path (.file number opening)
      | .duplicate number other => phrase other (.duplicate number)
      | .text number content => phrase content (.text number)
    first.or ((pendingRedirected? rest).map fun (script, fill) =>
      (script, fun text => r :: fill text))

/-- The first script whose output a statement needs before it can run, and the statement with it. -/
def pendingStatement? : Statement → Option (List Char × (List Char → Statement))
  | .simple assignments words changes =>
    match pendingAssigned? assignments with
    | some (script, fill) => some (script, fun text => .simple (fill text) words changes)
    | none =>
      match pendingIn? words with
      | some (script, fill) => some (script, fun text => .simple assignments (fill text) changes)
      | none => (pendingRedirected? changes).map fun (script, fill) =>
        (script, fun text => .simple assignments words (fill text))
  | .redirected a changes => (pendingRedirected? changes).map fun (script, fill) =>
    (script, fun text => .redirected a (fill text))
  | .forEach name (some words) body => (pendingIn? words).map fun (script, fill) =>
    (script, fun text => .forEach name (some (fill text)) body)
  | .choice subject cases => (pending? subject).map fun (script, fill) =>
    (script, fun text => .choice (fill text) cases)
  | _ => none

/-- A text without the line feeds at its end. -/
def withoutLastLines (text : List Char) : List Char :=
  (text.reverse.dropWhile (· = '\n')).reverse

/-- Runs a script for its output, which then completes a statement. -/
def substitute (s : Shell) (script : List Char) (fill : List Char → Statement)
    (rest : List Task) : Act Shell :=
  match Statement.parse? script with
  | none => s.abort "Syntax error" 2
  | some statement =>
    let n := s.fresh
    let files := s.files.set 1 (some (.buffer n))
    .go { s with
      fresh := n + 1
      tasks := .enter files statement :: .complete n fill :: rest }

/-! ## Programs -/

/-- Starts a small program in the foreground. -/
def launch (s : Shell) (files : Files) (process : Process) (trouble : Nat) (replacing : Bool) :
    Act Shell :=
  .go { s with job := some { process, files, trouble, replacing } }

/-- Runs a script in an environment of its own, as a shell of its own would. -/
def nested (s : Shell) (files : Files) (args : List (List Char)) (replacing : Bool) : Act Shell :=
  match args with
  | ['-', 'c'] :: script :: names =>
    match Statement.parse? script with
    | none => s.complain files "Syntax error" (·.finish 2)
    | some statement =>
      let env : Environment := {
        bindings := s.env.bindings.filter fun (name, _) => name ≠ "IFS".toList
        parameters := names.tail
        name := names.headD ['s', 'h'] }
      let after := if replacing then s.tasks.dropWhile fun
          | .leave .. => false
          | _ => true
        else s.tasks
      let env := { env with traps := (inherited s.env).traps }
      .go { s with env, files, tasks := .run statement :: .leave s.env s.files :: after }
  | _ => s.complain files "Can't open script" (·.finish 2)

/-- Runs a program by its name, which takes the place of the shell if `exec`. `tail` tells that
nothing is left to do after it. -/
def external (s : Shell) (files : Files) (name : List Char) (args : List (List Char))
    (exec tail : Bool) : Act Shell :=
  let refuse (reason : String) (code : Nat) : Act Shell :=
    s.complain files (String.ofList name ++ ": " ++ reason) fun s =>
      if exec then { s.finish code with tasks := .quit code :: s.tasks } else s.finish code
  let s := if exec then
      { s with env := { s.env with traps := s.env.traps.filter fun (_, action) => action.isEmpty } }
    else s
  let replacing := exec || (tail && s.env.traps.isEmpty)
  match s.tree.search (bytesOf name) with
  | .error .noEntry => refuse "not found" 127
  | .error _ => refuse "Permission denied" 126
  | .ok "sh" => s.nested files args replacing
  | .ok program =>
    match Process.start? program (args.map bytesOf) with
    | some process => s.launch files process (Process.troubleCode program) replacing
    | none => refuse "not found" 127

/-- The number of bytes up to the first line feed, with it. -/
def lineSize (content : Array UInt8) : Nat :=
  match content.findIdx? (· = lf) with
  | some i => i + 1
  | none => content.size

/-- What the shell does while a small program runs in the foreground. -/
def actJob (s : Shell) (job : Job) : Act Shell :=
  let on (s : Shell) (process : Process) : Shell := { s with job := some { job with process } }
  let ended (s : Shell) (status : Nat) : Shell := { (s.finish status) with job := none }
  let leave (s : Shell) (status : Nat) : Act Shell :=
    if job.replacing then (ended s status).exitWith status else .go (ended s status)
  let input (most : Nat) (next : Option Bytes → Process) : Act Shell :=
    match job.files.get? 0 with
    | none => leave s job.trouble
    | some .input => .read most fun data => on s (next data)
    | some (.buffer n) =>
      let content := s.buffer n
      if content.isEmpty then .go (on s (next none))
      else .go (on (s.setBuffer n (content.extract most content.size))
        (next (some (content.extract 0 most).toList)))
    | _ => .go (on s (next none))
  match job.process.act with
  | .read most next => input most next
  | .readLine next =>
    match job.files.get? 0 with
    | some .input => .readLine fun data => on s (next data)
    | some (.buffer n) => input (lineSize (s.buffer n)) next
    | _ => input 1 next
  | .write data next unread =>
    if (job.files.get? 1).isNone && !data.isEmpty then leave s job.trouble
    else s.put (job.files.get? 1) data (on · next) (on · unread)
  | .warn data next => s.put (job.files.get? 2) data (on · next) (on · next)
  | .go next => .go (on s next)
  | .closeInput next => .go (on s next)
  | .closeOutput next => .go (on s next)
  | .pause milliseconds next => .pause milliseconds (on s next)
  | .exit code => leave s code
  | .raise signal =>
    if s.ignores signal then leave s job.trouble
    else if job.replacing && s.unwind.isNone then .raise signal
    else leave s (128 + signal.number)

/-! ## Reading lines -/

/-- Assigns a line to the variables that it was read for. -/
def assignLine (s : Shell) (r : Reading) (ended : Bool) : Shell :=
  let values := assignRead r.separators r.names.length (unescapeLine r.raw r.text)
  let bindings := (r.names.zip values).foldl
    (fun (vars : Bindings) (name, value) => vars.set name value) s.env.bindings
  { (s.finish (if ended then 1 else 0)) with
    env := { s.env with bindings, status := if ended then 1 else 0 }
    reading := none }

/-- A line goes on after a line feed that a backslash hides. -/
def continues (raw : Bool) (text : List Char) : Bool :=
  !raw && (text.reverse.takeWhile (· = '\\')).length % 2 = 1

/-- Takes a piece of the line that is being read. -/
def takePiece (s : Shell) (r : Reading) : Option Bytes → Shell
  | none => s.assignLine r true
  | some data =>
    let text := r.text ++ (charsOf data).filter (· ≠ '\x00')
    if text.getLast? = some '\n' then
      if continues r.raw text.dropLast then { s with reading := some { r with text } }
      else s.assignLine { r with text := text.dropLast } false
    else { s with reading := some { r with text } }

/-- What the shell does while it reads a line. -/
def actReading (s : Shell) (r : Reading) : Act Shell :=
  match s.files.get? 0 with
  | some .input => .readLine fun data => s.takePiece r data
  | some (.buffer n) =>
    let content := s.buffer n
    if content.isEmpty then .go (s.assignLine r true)
    else
      let size := lineSize content
      .go ((s.setBuffer n (content.extract size content.size)).takePiece r
        (some (content.extract 0 size).toList))
  | _ => .go (s.assignLine r true)

/-! ## Commands of the shell itself -/

/-- The option letters in front of arguments, and the arguments. -/
def optionLetters (args : List (List Char)) : List Char × List (List Char) :=
  match args with
  | ['-', '-'] :: rest => ([], rest)
  | ('-' :: c :: letters) :: rest =>
    let (more, rest) := optionLetters rest
    (c :: letters ++ more, rest)
  | _ => ([], args)

/-- Sets variables that are spelled with their values. -/
def declare (s : Shell) (args : List (List Char)) : Shell :=
  let bindings := args.foldl (fun (vars : Bindings) arg =>
    let name := arg.takeWhile (· ≠ '=')
    match arg.drop name.length with
    | _ :: value => vars.set name value
    | [] => vars) s.env.bindings
  { s with env := { s.env with bindings, status := 0 } }

/-- Sends a signal. -/
def kill (s : Shell) (files : Files) (args : List (List Char)) : Act Shell :=
  let complaint (message : String) (code : Nat) : Act Shell :=
    s.complain files ("kill: " ++ message) (·.finish code)
  match args with
  | [['-', 'l'], number] =>
    let code := ((readDecimal number).map (·.1)).getD 0
    match Signal.ofNumber? (if 128 < code then code - 128 else code) with
    | some signal => s.put (files.get? 1) (bytesOf ((signalName signal).toList ++ ['\n']))
        (·.finish 0) ({ · with broken := true })
    | none => complaint "invalid signal number or exit status" 2
  | _ =>
    match signalOf? args with
    | none => complaint "invalid signal number or name" 2
    | some (_, []) => complaint "Usage: kill [-s sigspec | -signum | -sigspec] [pid | job]..." 2
    | some (signal, targets) =>
      if targets.all (· = processNumber) then
        match signal with
        | some signal => (s.finish 0).deliver signal
        | none => .go (s.finish 0)
      else if targets.all fun t => t.all Char.isDigit then complaint "No such process" 1
      else complaint "Illegal number" 2

/-- Ends the script with the code that arguments give. -/
def exitCommand (s : Shell) (name : String) (args : List (List Char))
    (leave : Shell → Nat → Act Shell) : Act Shell :=
  match args with
  | [] => leave s s.env.status
  | arg :: _ =>
    match readDecimal arg with
    | some (n, []) => leave s (n % 256)
    | _ => s.abort (name ++ ": Illegal number: " ++ String.ofList arg) 2

/-- The environment after an option was switched. -/
def switch (env : Environment) (on : Bool) (option : String) : Environment :=
  match option with
  | "e" => { env with fragile := on }
  | "errexit" => { env with fragile := on }
  | "u" => { env with strict := on }
  | "nounset" => { env with strict := on }
  | _ => env

/-- The environment after options were switched and parameters were set. -/
def setOptions (env : Environment) : List (List Char) → Environment
  | [] => env
  | ['-', '-'] :: parameters => { env with parameters }
  | ['-', 'o'] :: name :: rest => setOptions (switch env true (String.ofList name)) rest
  | ['+', 'o'] :: name :: rest => setOptions (switch env false (String.ofList name)) rest
  | ('-' :: c :: letters) :: rest =>
    setOptions ((c :: letters).foldl (fun env c => switch env true (String.ofList [c])) env) rest
  | ('+' :: c :: letters) :: rest =>
    setOptions ((c :: letters).foldl (fun env c => switch env false (String.ofList [c])) env) rest
  | parameters => { env with parameters }

/-- The number of a signal for which something can be asked; 0 stands for the end of the script. -/
def occasion? (text : List Char) : Option Nat :=
  match text with
  | ['0'] => some 0
  | ['E', 'X', 'I', 'T'] => some 0
  | _ => (signalNamed? text).map (·.number)

/-- Asks for something to be done at signals. -/
def trap (s : Shell) (files : Files) (args : List (List Char)) : Act Shell :=
  let forget (occasions : List Nat) : List (Nat × List Char) :=
    s.env.traps.filter fun (n, _) => !occasions.contains n
  let keep (traps : List (Nat × List Char)) : Act Shell :=
    .go { s with env := { s.env with traps, status := 0 } }
  match (if args.length ≤ 1 then args else args.tail).mapM occasion?, args with
  | none, _ => s.complain files "trap: bad trap" (·.finish 1)
  | some occasions, action :: _ :: _ =>
    if action = ['-'] then keep (forget occasions)
    else keep (occasions.map (·, action) ++ forget occasions)
  | some occasions, _ => keep (forget occasions)

/-- The names of the commands that the shell carries out itself. -/
def builtinNames : List String :=
  [":", "true", "false", "exit", "return", "echo", "printf", "test", "[", "read", "kill", "break",
    "continue", "shift", "set", "export", "readonly", "local", "unset", "trap", "umask", "ulimit",
    "cd", "wait", "eval", "command", "exec"]

/-- Where a command is found, as it is shown. -/
def whereabouts? (s : Shell) (name : List Char) : Option (List Char) :=
  if builtinNames.contains (String.ofList name) || s.env.functions.any (·.1 = name) then some name
  else match s.tree.search (bytesOf name) with
    | .ok _ => some (if name.contains '/' then name else "/usr/bin/".toList ++ name)
    | .error _ => none

/-- Carries out a command of the shell itself. -/
def builtin (s : Shell) (files : Files) (separators : List Char) (name : String)
    (args : List (List Char)) : Act Shell :=
  let put (text : List Char) (status : Nat) : Act Shell :=
    if (files.get? 1).isNone && !text.isEmpty then
      s.complain files (name ++ ": I/O error") (·.finish 1)
    else s.put (files.get? 1) (bytesOf text) (·.finish status) ({ · with broken := true })
  let condition (args : List (List Char)) : Act Shell :=
    match Condition.holds? s.tree args with
    | some b => .go (s.finish (if b then 0 else 1))
    | none => s.complain files (name ++ ": unexpected operator") (·.finish 2)
  match name with
  | "false" => .go (s.finish 1)
  | "exit" => s.exitCommand name args exitWith
  | "return" => s.exitCommand name args comeBack
  | "echo" => put (echo args) 0
  | "printf" =>
    let (given, operands) := match args with
      | ['-', '-'] :: rest => (none, rest)
      | ('-' :: c :: _) :: _ => (some c, [])
      | _ => (none, args)
    match given, operands.map bytesOf with
    | some c, _ => s.complain files ("printf: Illegal option -" ++ String.ofList [c]) (·.finish 2)
    | none, [] => s.complain files "printf: usage: printf format [arg ...]" (·.finish 2)
    | none, format :: values =>
      let (text, outcome) := Format.apply .shell format values
      put (charsOf text) (match outcome with
        | .clean => 0
        | .doubtful => 1
        | .failed => 2)
  | "test" => condition args
  | "[" =>
    if args.getLast? = some [']'] then condition args.dropLast
    else s.complain files "[: missing ]" (·.finish 2)
  | "read" =>
    let (letters, names) := optionLetters args
    if names.isEmpty then s.complain files "read: arg count" (·.finish 2)
    else .go { s with reading := some { names, raw := letters.contains 'r', separators } }
  | "kill" => s.kill files args
  | "break" => .go (s.jump false args)
  | "continue" => .go (s.jump true args)
  | "shift" =>
    let n := ((args.head?.bind signed?).getD 1).toNat
    if s.env.parameters.length < n then s.abort "shift: can't shift that many" 2
    else .go { s with env := { s.env with parameters := s.env.parameters.drop n, status := 0 } }
  | "set" => .go { s with env := { setOptions s.env args with status := 0 } }
  | "unset" =>
    let (letters, names) := optionLetters args
    if letters.contains 'f' then
      let functions := s.env.functions.filter fun (name, _) => !names.contains name
      .go { s with env := { s.env with functions, status := 0 } }
    else
      let bindings := s.env.bindings.filter fun (name, _) => !names.contains name
      .go { s with env := { s.env with bindings, status := 0 } }
  | "eval" =>
    match Statement.parse? ([' '].intercalate args) with
    | some statement => .go { s.finish 0 with tasks := .run statement :: s.tasks }
    | none => s.abort "Syntax error" 2
  | "export" => .go (s.declare args)
  | "readonly" => .go (s.declare args)
  | "local" =>
    match shelter s.env (args.map (·.takeWhile (· ≠ '='))) s.tasks with
    | some tasks => .go ({ s with tasks }.declare args)
    | none => s.abort "local: not in a function" 2
  | "trap" => s.trap files args
  | "wait" =>
    let count := s.env.background.length
    match args with
    | [] => .go (s.finish 0)
    | number :: _ =>
      match (List.range count).find? fun i => backgroundNumber i = number with
      | some i => .go (s.finish ((s.env.background[count - 1 - i]?).getD 0))
      | none => .go (s.finish 127)
  | "command" =>
    match args with
    | ['-', 'v'] :: name :: _ =>
      match s.whereabouts? name with
      | some text => put (text ++ ['\n']) 0
      | none => .go (s.finish 127)
    | _ => .go (s.finish 0)
  | _ => .go (s.finish 0)

end Shell

end Coprocess.Program
