import Coprocess.Failure
import Coprocess.Program

/-!
# Launching a child

* `launch`: the child for a command line, or why it cannot be started;
* `commandText`: a command line as it is shown.
-/

namespace Coprocess

/-- The most bytes in an argument, and the most in all of them. -/
def argumentLimit : Nat := 131071

/-- The most bytes in all arguments. -/
def argumentsLimit : Nat := 2 * 1024 * 1024

/-- Where the first zero byte of an argument stands, in the first argument that has one. -/
def zeroByte? (argv : List Bytes) : Option Nat := argv.findSome? fun a => a.findIdx? (· = 0)

/-- The child for a command line, ready to run. Its name may not be empty, no argument may hold a
zero byte, and the program has to be found. -/
def launch (tree : FileTree) (argv : List Bytes) : Except Failure (Child Program) :=
  match argv with
  | [] => .error (.invalidArgument .emptyCommandLine)
  | name :: args =>
    let program := Utf8.lossyString name
    let refuse (cause : IoError) : Except Failure (Child Program) := .error (.launch program cause)
    match zeroByte? argv with
    | some position => refuse (.nulByte position)
    | none =>
      match tree.search name with
      | .error e => refuse (.os e)
      | .ok found =>
        if argv.any (argumentLimit < ·.length) ∨
            argumentsLimit < argv.foldl (· + ·.length + 9) 0 then refuse (.os .tooBig)
        else match Program.start? tree found args with
          | some state => .ok { state }
          | none => refuse (.os .noExec)

/-- A command line as it is shown. -/
def commandText (argv : List Bytes) : String := " ".intercalate (argv.map Utf8.lossyString)

end Coprocess
