import Coprocess.FileTree
import Coprocess.Program.Format
import Coprocess.Signal

/-!
# Commands of the shell itself

* `Condition.holds?`: what conditions say of their arguments;
* `echo`: the text that is written for arguments;
* `signalOf?`: the signal that arguments ask to send, and the numbers of the processes;
* `assignRead`: what becomes of a line that is read into variables.
-/

namespace Coprocess.Program.Shell

namespace Condition

/-- The arguments of a condition. -/
abbrev Arguments := List (List Char)

/-- Compares two arguments. -/
def compare? (operator : String) (a b : List Char) : Option Bool :=
  let numbers (test : Int → Int → Bool) : Option Bool := do return test (← signed? a) (← signed? b)
  match operator with
  | "=" => some (a = b)
  | "==" => some (a = b)
  | "!=" => some (a ≠ b)
  | "<" => some (String.ofList a < String.ofList b)
  | ">" => some (String.ofList b < String.ofList a)
  | "-eq" => numbers (· = ·)
  | "-ne" => numbers (· ≠ ·)
  | "-lt" => numbers (· < ·)
  | "-le" => numbers (· ≤ ·)
  | "-gt" => numbers (· > ·)
  | "-ge" => numbers (· ≥ ·)
  | _ => none

/-- The operators between two arguments. -/
def operators : List String :=
  ["=", "==", "!=", "<", ">", "-eq", "-ne", "-lt", "-le", "-gt", "-ge"]

/-- Tests one argument. Nothing is a terminal. -/
def test? (tree : FileTree) (operator : String) (a : List Char) : Option Bool :=
  let node : Option Node := (tree.resolve (bytesOf a)).toOption.map (·.2)
  let isDirectory : Bool := match node with
    | some .directory => true
    | _ => false
  let isProgram : Bool := match node with
    | some (.program _) => true
    | _ => false
  match operator with
  | "-n" => some !a.isEmpty
  | "-z" => some a.isEmpty
  | "-e" => some node.isSome
  | "-r" => some node.isSome
  | "-w" => some node.isSome
  | "-s" => some node.isSome
  | "-f" => some (node.isSome && !isDirectory)
  | "-d" => some isDirectory
  | "-x" => some (isDirectory || isProgram)
  | _ =>
    match operator.toList with
    | ['-', c] => if "bcghkLpStu".toList.contains c then some false else none
    | _ => none

/-- What is read next. -/
inductive Goal
  | either
  | both
  | single

/-- Reads a condition: whether it holds, and the arguments behind it. -/
def read (tree : FileTree) : Nat → Goal → Arguments → Option (Bool × Arguments)
  | 0, _, _ => none
  | fuel + 1, .either, args => do
    let (a, rest) ← read tree fuel .both args
    match rest with
    | ['-', 'o'] :: rest =>
      let (b, rest) ← read tree fuel .either rest
      return (a || b, rest)
    | _ => return (a, rest)
  | fuel + 1, .both, args => do
    let (a, rest) ← read tree fuel .single args
    match rest with
    | ['-', 'a'] :: rest =>
      let (b, rest) ← read tree fuel .both rest
      return (a && b, rest)
    | _ => return (a, rest)
  | fuel + 1, .single, args =>
    match args with
    | [] => none
    | [a] => some (!a.isEmpty, [])
    | a :: o :: b :: rest =>
      if operators.contains (String.ofList o) then do
        return (← compare? (String.ofList o) a b, rest)
      else prefixed tree fuel a (o :: b :: rest)
    | a :: rest => prefixed tree fuel a rest
where
  /-- Reads what starts with an operator. -/
  prefixed (tree : FileTree) (fuel : Nat) (a : List Char) (rest : Arguments) :
      Option (Bool × Arguments) :=
    if a = ['!'] then do
      let (b, rest) ← read tree fuel .single rest
      return (!b, rest)
    else if a = ['('] then do
      let (b, rest) ← read tree fuel .either rest
      match rest with
      | [')'] :: rest => return (b, rest)
      | _ => none
    else
      match test? tree (String.ofList a) (rest.headD []) with
      | some b => some (b, rest.tail)
      | none => some (!a.isEmpty, rest)

/-- What a condition says; `none` when it is malformed. -/
def holds? (tree : FileTree) (args : Arguments) : Option Bool :=
  match args with
  | [] => some false
  | _ =>
    match read tree (4 * args.length + 4) .either args with
    | some (b, []) => some b
    | _ => none

end Condition

/-- The text that is written for arguments. -/
def echo (args : List (List Char)) : List Char :=
  let (newline, args) := match args with
    | ['-', 'n'] :: rest => (false, rest)
    | _ => (true, args)
  let text := [' '].intercalate args
  let (text, stopped) := (Format.argumentParts .shell (text.length + 1) text).foldl
    (fun (s, stopped) part =>
      match part with
      | .text t => if stopped then (s, stopped) else (s ++ t.toArray, stopped)
      | _ => (s, true)) (#[], false)
  text.toList ++ if newline && !stopped then ['\n'] else []

/-- The name of a signal in the shell: without the first three letters, its place among the
real-time signals from the nearer end, or only its number. -/
def signalName (s : Signal) : String :=
  let after (name sign : String) (n : Nat) : String :=
    if n = 0 then name else name ++ sign ++ toString n
  if s.number = 16 then toString s.number
  else match s.named? with
    | some s => String.ofList (s.name.toList.drop 3)
    | none =>
      if s.number < 34 then toString s.number
      else if s.number < 50 then after "RTMIN" "+" (s.number - 34)
      else after "RTMAX" "-" (64 - s.number)

/-- The signal with a number or a name. -/
def signalNamed? (text : List Char) : Option Signal :=
  match readDecimal text with
  | some (n, []) => Signal.ofNumber? n
  | _ =>
    let name := String.ofList (text.map Char.toUpper)
    ((List.range 65).filterMap Signal.ofNumber?).find? (signalName · = name)

/-- The signal that arguments ask to send, if it is one, and the processes that get it. -/
def signalOf? (args : List (List Char)) : Option (Option Signal × List (List Char)) :=
  let named (text : List Char) : Option (Option Signal) :=
    if text = ['0'] then some none else (signalNamed? text).map some
  match args with
  | ['-', 's'] :: name :: rest => (named name).map (·, rest)
  | ['-', '-'] :: rest => some (some .term, rest)
  | ('-' :: name) :: rest => (named name).map (·, rest)
  | rest => some (some .term, rest)

/-- A signal that does nothing to a process that has not asked for it. -/
def isHarmless (s : Signal) : Bool := [17, 18, 23, 28].contains s.number

/-- The characters of a line with whether a backslash stood before them; raw lines have no
backslashes of this kind. -/
def unescapeLine (raw : Bool) : List Char → List (Char × Bool)
  | '\\' :: c :: rest =>
    if raw then ('\\', false) :: unescapeLine raw (c :: rest)
    else if c = '\n' then unescapeLine raw rest
    else (c, true) :: unescapeLine raw rest
  | c :: rest => (c, false) :: unescapeLine raw rest
  | [] => []

/-- The values of `count` variables for a line: fields between separators, and all the rest for the
last variable. -/
def assignRead (separators : List Char) : Nat → List (Char × Bool) → List (List Char)
  | 0, _ => []
  | count + 1, text =>
    let separates (p : Char × Bool) : Bool := !p.2 && separators.contains p.1
    let blank (p : Char × Bool) : Bool := separates p && p.1.isWhitespace
    let text := text.dropWhile blank
    if count = 0 then
      let kept := (text.reverse.dropWhile blank).reverse
      -- One separator at the end belongs to the last field only if others precede it.
      let body := kept.dropLast
      let kept := match kept.getLast? with
        | some p => if separates p && !body.any separates then body else kept
        | none => kept
      [kept.map (·.1)]
    else
      let field := text.takeWhile fun p => !separates p
      let rest := (text.drop field.length).dropWhile blank
      let rest := match rest with
        | p :: more => if separates p then more else rest
        | [] => []
      field.map (·.1) :: assignRead separators count rest

end Coprocess.Program.Shell
