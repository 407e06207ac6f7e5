import Coprocess.Pipe
import Coprocess.Termination

/-!
# Children

A child is a machine that reads its standard input, writes its standard output and ends.

* `Act`: what a machine does next;
* `Child`: a machine that runs, and `Child.step`, its next step on its two pipes;
* `Child.kill`; `Child.status`, what is answered to who waits for it;
* `Habitat`: a child with its pipes and the time; `Habitat.advance`, `Habitat.settle`.
-/

namespace Coprocess

/-- What a machine with the states `σ` does next. -/
inductive Act (σ : Type)
  /-- Reads up to `most` bytes; `none` at the end of the input. -/
  | read (most : Nat) (next : Option Bytes → σ)
  /-- Reads what is there, but nothing behind a line feed. -/
  | readLine (next : Option Bytes → σ)
  /-- Writes some bytes; goes on at `broken` when nobody can read them. -/
  | write (data : Bytes) (next broken : σ)
  /-- Writes a diagnostic. -/
  | warn (data : Bytes) (next : σ)
  /-- Goes on without doing anything outside. -/
  | go (next : σ)
  | closeInput (next : σ)
  | closeOutput (next : σ)
  /-- Sleeps for some milliseconds. -/
  | pause (milliseconds : Nat) (next : σ)
  | exit (code : Nat)
  /-- A signal ends the machine. -/
  | raise (signal : Signal)

/-- What a machine does next, seen as a part of a larger machine. -/
def Act.map {σ τ : Type} (f : σ → τ) : Act σ → Act τ
  | read most next => read most (f ∘ next)
  | readLine next => readLine (f ∘ next)
  | write data next broken => write data (f next) (f broken)
  | warn data next => warn data (f next)
  | go next => go (f next)
  | closeInput next => closeInput (f next)
  | closeOutput next => closeOutput (f next)
  | pause milliseconds next => pause milliseconds (f next)
  | exit code => exit code
  | raise signal => raise signal

/-- A machine that runs, or has ended. -/
structure Child (σ : Type) where
  state : σ
  /-- How many bytes of the current write are in the pipe. -/
  sent : Nat := 0
  /-- When it wakes up. -/
  wakeAt : Nat := 0
  ended : Option ProcessEnd := none
  /-- The diagnostics written so far. -/
  warned : Array UInt8 := #[]

namespace Child

variable {σ : Type}

/-- Ends a child; its ends of the pipes are closed. -/
def finish (c : Child σ) (ending : ProcessEnd) (input output : Pipe) : Child σ × Pipe × Pipe :=
  ({ c with ended := some ending }, input.closeReader, output.closeWriter)

/-- Ends a child by a signal, unless it has ended already. -/
def kill (c : Child σ) (signal : Signal) (input output : Pipe) : Child σ × Pipe × Pipe :=
  if c.ended.isSome then (c, input, output)
  else c.finish (.signaled signal false) input output

/-- What waiting for a child answers at the moment. -/
def status (c : Child σ) : Except Errno WaitStatus :=
  match c.ended with
  | some ending => ending.status
  | none => .ok .stillAlive

/-- Goes on at a state. -/
def goTo (c : Child σ) (state : σ) : Child σ := { c with state, sent := 0 }

/-- Reads up to `most` bytes and goes on with them. -/
def stepRead (c : Child σ) (most : Nat) (next : Option Bytes → σ) (input output : Pipe) :
    Option (Child σ × Pipe × Pipe) :=
  if !input.readable then some (c.goTo (next none), input, output)
  else match input.read most with
    | .data bytes input => some (c.goTo (next (some bytes)), input, output)
    | .ended => some (c.goTo (next none), input, output)
    | .empty => none

/-- The next step of a child at the time `now`, or `none` while it is blocked and after its end. -/
def step (act : σ → Act σ) (now : Nat) (c : Child σ) (input output : Pipe) :
    Option (Child σ × Pipe × Pipe) :=
  if c.ended.isSome || now < c.wakeAt then none
  else match act c.state with
    | .read most next => c.stepRead most next input output
    | .readLine next => c.stepRead input.lineLength next input output
    | .write data next broken =>
      let rest := data.drop c.sent
      if rest.isEmpty then some (c.goTo next, input, output)
      else if !output.writable then some (c.goTo broken, input, output)
      else match output.write rest with
        | .moved count output => some ({ c with sent := c.sent + count }, input, output)
        | .full => none
        | .broken => some (c.goTo broken, input, output)
    | .warn data next => some ({ c.goTo next with warned := c.warned ++ data }, input, output)
    | .go next => some (c.goTo next, input, output)
    | .closeInput next => some (c.goTo next, input.closeReader, output)
    | .closeOutput next => some (c.goTo next, input, output.closeWriter)
    | .pause milliseconds next =>
      some ({ c.goTo next with wakeAt := now + milliseconds }, input, output)
    | .exit code => some (c.finish (.exited code) input output)
    | .raise signal => some (c.finish (.signaled signal false) input output)

/-- When a child that sleeps wakes up. -/
def nextWake? (now : Nat) (c : Child σ) : Option Nat :=
  if c.ended.isNone && now < c.wakeAt then some c.wakeAt else none

/-- More steps than any run takes. -/
def stepLimit : Nat := 100000000

end Child

/-- A child with its pipes and the time. -/
structure Habitat (σ : Type) where
  child : Child σ
  input : Pipe := {}
  output : Pipe := {}
  now : Nat := 0
  /-- The child was waited for, and the system knows it no more. -/
  reaped : Bool := false

namespace Habitat

variable {σ : Type}

/-- The next step of the child; while it sleeps, time passes. `none` while it is blocked and after
its end. -/
def advance (act : σ → Act σ) (h : Habitat σ) : Option (Habitat σ) :=
  match h.child.step act h.now h.input h.output with
  | some (child, input, output) => some { h with child, input, output }
  | none => (h.child.nextWake? h.now).map fun now => { h with now }

/-- Runs a child for at most so many steps or until it is blocked or has ended. -/
def settle (act : σ → Act σ) : Nat → Habitat σ → Habitat σ
  | 0, h => h
  | fuel + 1, h =>
    match h.advance act with
    | some h => settle act fuel h
    | none => h

end Habitat

end Coprocess
