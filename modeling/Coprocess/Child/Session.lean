import Coprocess.Child
import Coprocess.Child.Handle
import Coprocess.Pipe.Reader
import Coprocess.Pipe.Writer

/-!
# Sessions

The owner of a child writes to it, reads from it and waits for it. The child runs while its owner
waits.

* `Session`: a child and what its owner holds of it;
* `Session.await`: an attempt that is repeated while the child runs;
* `Session.call`, `Session.close`, `Session.readLine`, `Session.readAll`, `Session.pending`;
* `Session.wait`, `Session.tryWait`, `Session.kill`, `Session.terminate`.
-/

namespace Coprocess

/-- A child and what its owner holds of it. -/
structure Session (σ : Type) where
  habitat : Habitat σ
  handle : Handle := {}
  /-- The end of the child's input, once it is taken. -/
  writer : Option Writer := none
  inputTaken : Bool := false
  reader : Option LineReader := none
  outputTaken : Bool := false

namespace Session

variable {σ : Type} {α : Type}

/-- Takes the end of the child's input; only once. -/
def takeInput (s : Session σ) : Bool × Session σ :=
  if s.inputTaken then (false, s) else (true, { s with inputTaken := true, writer := some {} })

/-- Takes the end of the child's output; only once. -/
def takeOutput (s : Session σ) : Bool × Session σ :=
  if s.outputTaken then (false, s) else (true, { s with outputTaken := true, reader := some {} })

/-- What an attempt comes to. -/
inductive Attempt (α : Type)
  | done (a : α)
  /-- It went a part of the way. -/
  | again
  /-- The child has to do something first. -/
  | blocked

/-- Repeats an attempt, letting the child take a step where it is blocked, until it has a result.
`none` when it never has one. -/
def await (act : σ → Act σ) (attempt : Session σ → Attempt α × Session σ) :
    Nat → Session σ → Option (α × Session σ)
  | 0, _ => none
  | fuel + 1, s =>
    match attempt s with
    | (.done a, s) => some (a, s)
    | (.again, s) => await act attempt fuel s
    | (.blocked, s) =>
      match s.habitat.advance act with
      | some habitat => await act attempt fuel { s with habitat }
      | none => none

/-- Moves on the call of the writer that is under way; the result is its failure, if any. -/
def moveCall (s : Session σ) : Attempt (Option IoError) × Session σ :=
  match s.writer with
  | none => (.done none, s)
  | some w =>
    let (outcome, w, input) := w.complete s.habitat.input
    let s := { s with writer := some w, habitat := { s.habitat with input } }
    match outcome with
    | .done => (.done none, s)
    | .blocked => (.blocked, s)
    | .failed fault => (.done (some fault), s)

/-- Begins a call of the writer and waits for its end. -/
def call (act : σ → Act σ) (s : Session σ) (begin : Writer → Writer) :
    Option (Option IoError × Session σ) :=
  { s with writer := s.writer.map begin }.await act moveCall Child.stepLimit

/-- Runs calls one after the other, up to one that fails. -/
def calls (act : σ → Act σ) (s : Session σ) :
    List (Writer → Writer) → Option (Option IoError × Session σ)
  | [] => some (none, s)
  | begin :: rest => do
    match ← s.call act begin with
    | (none, s) => calls act s rest
    | (some fault, s) => return (some fault, s)

/-- Flushes what was written and closes the child's input. -/
def close (act : σ → Act σ) (s : Session σ) : Option (Option IoError × Session σ) := do
  let (fault, s) ← s.call act Writer.flush
  let input := s.habitat.input.closeWriter
  return (fault, { s with writer := none, habitat := { s.habitat with input } })

/-- Moves on the line that is being read; the result is the line, or that there is none. -/
def moveLine (s : Session σ) : Attempt (Option Bytes) × Session σ :=
  match s.reader with
  | none => (.done none, s)
  | some r =>
    let held (r : LineReader) (output : Pipe) : Session σ :=
      { s with reader := some r, habitat := { s.habitat with output } }
    match r.readLine s.habitat.output with
    | .line line r output => (.done (some line), held r output)
    | .ended r output => (.done none, held r output)
    | .partly r output => (.again, held r output)
    | .blocked => (.blocked, s)

/-- Looks whether the child has more output. -/
def movePending (s : Session σ) : Attempt Bool × Session σ :=
  match s.reader with
  | none => (.done false, s)
  | some r =>
    match r.fill s.habitat.output with
    | .known more r output =>
      (.done more, { s with reader := some r, habitat := { s.habitat with output } })
    | .blocked => (.blocked, s)

/-- Reads a line of the child. -/
def readLine (act : σ → Act σ) (s : Session σ) : Option (Option Bytes × Session σ) :=
  s.await act moveLine Child.stepLimit

/-- Waits until the child has output or has closed it. -/
def pending (act : σ → Act σ) (s : Session σ) : Option (Bool × Session σ) :=
  s.await act movePending Child.stepLimit

/-- Reads all output of the child after the bytes `read`. -/
def readAll (act : σ → Act σ) (read : Array UInt8) :
    Nat → Session σ → Option (Bytes × Session σ)
  | 0, _ => none
  | fuel + 1, s => do
    let (more, s) ← s.pending act
    if more then
      let part := (s.reader.map (·.buffer)).getD []
      readAll act (read ++ part) fuel { s with reader := some {} }
    else return (read.toList, s)

/-! ## The end of the child -/

/-- The system around a child. A signal ends the child, unless the child heeds it and goes on. The
system does not know a child that was waited for. -/
def host (act : σ → Act σ) (heed : σ → Signal → Option σ) : Host (Habitat σ) where
  wait block h :=
    if h.reaped then (.error .noChild, h)
    else
      let h := if block then h.settle act Child.stepLimit else h
      (h.child.status, { h with reaped := h.child.ended.isSome })
  signal s h :=
    if h.reaped then (.error .noProcess, h)
    else match heed h.child.state s with
      | some state => (.ok (), { h with child := { h.child with state } })
      | none =>
        let (child, input, output) := h.child.kill s h.input h.output
        (.ok (), { h with child, input, output })
  pause milliseconds h := { h with now := h.now + milliseconds }

/-- Keeps what an operation on the handle leaves. -/
def keep {α : Type} (s : Session σ) (r : α × Handle × Habitat σ) : α × Session σ :=
  (r.1, { s with handle := r.2.1, habitat := r.2.2 })

/-- Waits for the end of the child; `none` if it does not end. -/
def wait (act : σ → Act σ) (heed : σ → Signal → Option σ) (s : Session σ) :
    Option (Except Errno Termination) × Session σ :=
  s.keep (s.handle.wait (host act heed) 1 s.habitat)

/-- Looks whether the child is gone. -/
def tryWait (act : σ → Act σ) (heed : σ → Signal → Option σ) (s : Session σ) :
    Except Errno (Option Termination) × Session σ :=
  s.keep (s.handle.tryWait (host act heed) s.habitat)

/-- Ends the child and waits for it; `none` if it does not end. -/
def kill (act : σ → Act σ) (heed : σ → Signal → Option σ) (s : Session σ) :
    Option (Except Errno Termination) × Session σ :=
  s.keep (s.handle.kill (host act heed) 1 s.habitat)

/-- Asks the child to end. -/
def terminate (act : σ → Act σ) (heed : σ → Signal → Option σ) (s : Session σ) :
    Except Errno Unit × Session σ :=
  let (answer, habitat) := s.handle.terminate (host act heed) s.habitat
  (answer, { s with habitat })

end Session

end Coprocess
