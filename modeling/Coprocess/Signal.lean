/-!
# Signals

* `Signal`: a signal by its number from 1 to 64;
* `NamedSignal`: a signal from 1 to 31, which has a name; the others are real-time signals;
* `Signal.named?`, `NamedSignal.name`, `NamedSignal.ofNumber?`.
-/

namespace Coprocess

/-- A signal. -/
structure Signal where
  number : Nat
  pos : 1 ≤ number := by decide
  le : number ≤ 64 := by decide
  deriving DecidableEq

/-- A signal with a name. -/
structure NamedSignal extends Signal where
  named : number ≤ 31 := by decide
  deriving DecidableEq

namespace Signal

/-- The signal with a number. -/
def ofNumber? (n : Nat) : Option Signal :=
  if h : 1 ≤ n ∧ n ≤ 64 then some ⟨n, h.1, h.2⟩ else none

/-- The signal as one with a name. -/
def named? (s : Signal) : Option NamedSignal :=
  if h : s.number ≤ 31 then some ⟨s, h⟩ else none

/-- The signal that ends a process at once. -/
def kill : Signal := ⟨9, by decide, by decide⟩

/-- The signal of a write that nobody can read. -/
def pipe : Signal := ⟨13, by decide, by decide⟩

/-- The signal that asks a process to end. -/
def term : Signal := ⟨15, by decide, by decide⟩

end Signal

namespace NamedSignal

instance : Coe NamedSignal Signal := ⟨toSignal⟩

/-- The names of the signals from number 1 on. -/
def names : List String :=
  ["SIGHUP", "SIGINT", "SIGQUIT", "SIGILL", "SIGTRAP", "SIGABRT", "SIGBUS", "SIGFPE", "SIGKILL",
    "SIGUSR1", "SIGSEGV", "SIGUSR2", "SIGPIPE", "SIGALRM", "SIGTERM", "SIGSTKFLT", "SIGCHLD",
    "SIGCONT", "SIGSTOP", "SIGTSTP", "SIGTTIN", "SIGTTOU", "SIGURG", "SIGXCPU", "SIGXFSZ",
    "SIGVTALRM", "SIGPROF", "SIGWINCH", "SIGIO", "SIGPWR", "SIGSYS"]

/-- The name of a signal. -/
def name (s : NamedSignal) : String := names.getD (s.number - 1) ""

/-- The signal with a number, if it has a name. -/
def ofNumber? (n : Int) : Option NamedSignal := (Signal.ofNumber? n.toNat).bind Signal.named?

/-- The signal that ends a process at once. -/
def kill : NamedSignal := ⟨.kill, by decide⟩

/-- The signal that asks a process to end. -/
def term : NamedSignal := ⟨.term, by decide⟩

end NamedSignal

end Coprocess
