import Coprocess.Program.Shell.Machine

/-!
# Programs

* `Program`: a program that runs; `Program.act`, what it does next, and `Program.heed`, what a
  signal changes;
* `Program.start?`: the program for a name and arguments.
-/

namespace Coprocess

/-- A program that runs. -/
inductive Program
  | small (p : Program.Process)
  | shell (s : Program.Shell)

namespace Program

/-- What a program does next. -/
def act : Program → Act Program
  | small p => p.act.map small
  | shell s => s.act.map shell

/-- The program after a signal; `none` if the signal ends it. -/
def heed (p : Program) (signal : Signal) : Option Program :=
  match p with
  | small p => if Shell.isHarmless signal then some (small p) else none
  | shell s => (s.heed signal).map shell

/-- The program for a name and arguments. -/
def start? (tree : FileTree) (name : String) (args : List Bytes) : Option Program :=
  if name = "sh" then some (shell (Shell.start tree args))
  else (Process.start? name args).map small

end Program

end Coprocess
