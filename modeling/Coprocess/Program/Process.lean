import Coprocess.Program.Arrangement
import Coprocess.Program.Copying
import Coprocess.Program.Editor
import Coprocess.Program.Format
import Coprocess.Program.Selection
import Coprocess.Program.Transliteration

/-!
# Processes of small programs

* `Utility`: a program that reads its input; `Utility.feed`, `Utility.close`;
* `Process`: a small program that runs, and `Process.act`, what it does next;
* `Process.start?`: the process for a name and arguments.
-/

namespace Coprocess.Program

/-- A program that turns its input into output. -/
inductive Utility
  | copy
  | mark (c : Copying)
  | transliterate (t : Transliteration)
  | edit (e : Editor)
  | beginning (b : Beginning)
  | search (s : Search)
  | sort (o : Sorting) (held : Array UInt8)
  | reverse (r : Reversal) (held : Array UInt8)
  | number (n : Numbering)
  | count (c : Counting)

namespace Utility

/-- How many bytes are read at a time. -/
def chunk : Utility → Nat
  | copy => 131072
  | mark _ => 131072
  | edit _ => 4096
  | beginning b => b.chunk
  | _ => 65536

/-- The input is read line by line. -/
def readsLines : Utility → Bool
  | edit e => e.script.unbuffered
  | _ => false

/-- Takes a piece of the input. -/
def feed (s : Bytes) : Utility → Reply Utility
  | copy => ⟨copy, s, none⟩
  | mark c => (c.feed s).map mark
  | transliterate t => (t.feed s).map transliterate
  | edit e => (e.feed s).map edit
  | beginning b => (b.feed s).map beginning
  | search g => (g.feed s).map search
  | sort o held => ⟨sort o (held ++ s), [], none⟩
  | reverse r held => ⟨reverse r (held ++ s), [], none⟩
  | number n => (n.feed s).map number
  | count c => (c.feed s).map count

/-- The last output and the exit code, at the end of the input. -/
def close : Utility → Bytes × Nat
  | copy => ([], 0)
  | mark c => (c.close, 0)
  | transliterate _ => ([], 0)
  | edit e => e.close
  | beginning b => (b.close, 0)
  | search g => g.close
  | sort o held => o.apply held.toList
  | reverse r held => (r.apply held.toList, 0)
  | number n => (n.close, 0)
  | count c => (c.close, 0)

end Utility

/-- A small program that runs. -/
inductive Process
  | reading (u : Utility)
  | writing (output : Bytes) (next : Process)
  | warning (message : Bytes) (next : Process)
  | sleeping (milliseconds : Nat) (next : Process)
  | ending (code : Nat)
  /-- Nobody reads the output. -/
  | broken

namespace Process

/-- What a process does next. -/
def act : Process → Act Process
  | reading u =>
    let next : Option Bytes → Process := fun
      | some s =>
        let r := u.feed s
        writing r.output (r.done.elim (reading r.state) ending)
      | none =>
        let (output, code) := u.close
        writing output (ending code)
    if u.readsLines then .readLine next else .read u.chunk next
  | writing output next => .write output next broken
  | warning message next => .warn message next
  | sleeping milliseconds next => .pause milliseconds next
  | ending code => .exit code
  | broken => .raise .pipe

/-- A process that fails at once. -/
def refused (name complaint : String) (code : Nat) : Process :=
  warning (Bytes.ofString (name ++ ": " ++ complaint ++ "\n")) (ending code)

/-- A process that starts to read, unless it does not understand its arguments. -/
def orRefused (name : String) (code : Nat) : Option Utility → Process
  | some u => reading u
  | none => refused name "invalid arguments" code

/-- The milliseconds that a text spells in seconds, or with a letter in greater units. -/
def milliseconds? (text : List Char) : Option Nat :=
  let (whole, rest) := (readDecimal text).getD (0, text)
  let (fraction, rest) : List Char × List Char := match rest with
    | '.' :: rest => (rest.takeWhile Char.isDigit, rest.dropWhile Char.isDigit)
    | _ => ([], rest)
  let thousandths := ((readDecimal ((fraction ++ ['0', '0', '0']).take 3)).getD (0, [])).1
  let n := whole * 1000 + thousandths
  if text.head?.all fun c => !c.isDigit && c ≠ '.' then none
  else match rest with
    | [] => some n
    | ['s'] => some n
    | ['m'] => some (n * 60)
    | ['h'] => some (n * 3600)
    | ['d'] => some (n * 86400)
    | _ => none

/-- The process that sleeps as long as its arguments say. -/
def sleep (args : List Bytes) : Process :=
  match args.mapM fun a => milliseconds? (charsOf a) with
  | some (n :: more) => sleeping (more.foldl (· + ·) n) (ending 0)
  | _ => refused "sleep" "invalid time interval" 1

/-- The process that writes its arguments in a format. -/
def printf (args : List Bytes) : Process :=
  let args := if args.head? = some (Bytes.ofString "--") then args.tail else args
  match args with
  | [] => refused "printf" "missing operand" 1
  | format :: args =>
    let (output, outcome) := Format.apply .program format args
    writing output (ending (match outcome with
      | .clean => 0
      | _ => 1))

/-- The process that copies its input. -/
def cat (args : List Bytes) : Process :=
  orRefused "cat" 1 ((Copying.ofArguments? args).map fun c => if c.isPlain then .copy else .mark c)

/-- The process that keeps the beginning of its input; nothing is read for an empty one. -/
def head (args : List Bytes) : Process :=
  match Beginning.ofArguments? args with
  | some (b, named) =>
    let rest := if b.isDone then ending 0 else reading (.beginning b)
    if named then writing (Bytes.ofString "==> standard input <==\n") rest else rest
  | none => refused "head" "invalid arguments" 1

/-- The process that edits its input. -/
def sed (args : List Bytes) : Process :=
  match Editor.ofArguments args with
  | .ok e => reading (.edit e)
  | .error code => refused "sed" "invalid arguments" code

/-- The process for a name and arguments. -/
def start? (name : String) (args : List Bytes) : Option Process :=
  match name with
  | "cat" => some (cat args)
  | "tr" => some (orRefused name 1 ((Transliteration.ofArguments? args).map .transliterate))
  | "sed" => some (sed args)
  | "head" => some (head args)
  | "wc" => some (orRefused name 1 ((Counting.ofArguments? args).map .count))
  | "sort" => some (orRefused name 2 ((Sorting.ofArguments? args).map fun o => .sort o #[]))
  | "tac" => some (orRefused name 1 ((Reversal.ofArguments? args).map fun r => .reverse r #[]))
  | "nl" => some (orRefused name 1 ((Numbering.ofArguments? args).map .number))
  | "grep" => some (orRefused name 2 ((Search.ofArguments? args).map .search))
  | "printf" => some (printf args)
  | "true" => some (ending 0)
  | "false" => some (ending 1)
  | "sleep" => some (sleep args)
  | _ => none

/-- The exit code of a program that cannot read or write. -/
def troubleCode (name : String) : Nat :=
  match name with
  | "sort" => 2
  | "grep" => 2
  | "sed" => 4
  | _ => 1

/-- A process that reads its input. -/
def reads : Process → Bool
  | reading _ => true
  | writing _ next => next.reads
  | _ => false

end Process

end Coprocess.Program
