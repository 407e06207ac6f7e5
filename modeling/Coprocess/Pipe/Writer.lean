import Coprocess.Failure
import Coprocess.Pipe

/-!
# Buffered writing

A writer holds up to 64 KiB before they go into its pipe. Bytes that fit are held; if they do not
fit, what is held is flushed first, and then bytes that would fill a buffer of their own go straight
into the pipe. Bytes that exactly fill the buffer are held.

* `Writer`: the bytes held and the call that is under way;
* `Writer.write`, `Writer.flush`: begin a call;
* `Writer.step`: moves a call on as far as the pipe allows;
* `Writer.complete`: runs a call to its end.
-/

namespace Coprocess

/-- What a call of a writer still has to do. -/
inductive Writer.Call
  | idle
  /-- What is held has to leave. -/
  | flushing
  /-- What is held has to leave before `data` are placed. -/
  | makingRoom (data : Bytes)
  /-- These bytes go straight into the pipe. -/
  | sending (data : Bytes)

/-- A writer with the bytes that it holds and the call under way. -/
structure Writer where
  held : Array UInt8 := #[]
  call : Writer.Call := .idle

namespace Writer

/-- How many bytes a writer holds at most. -/
def capacity : Nat := 65536

/-- Holds some bytes. -/
def hold (w : Writer) (data : Bytes) : Writer := { w with held := w.held ++ data, call := .idle }

/-- Holds bytes that fit, or sends them by themselves. -/
def place (w : Writer) (data : Bytes) : Writer :=
  if capacity ≤ data.length then { w with call := .sending data } else w.hold data

/-- Begins to write some bytes. -/
def write (w : Writer) (data : Bytes) : Writer :=
  let spare := capacity - w.held.size
  if data.length < spare then w.hold data
  else if spare < data.length then { w with call := .makingRoom data }
  else w.place data

/-- Begins to push out what is held. -/
def flush (w : Writer) : Writer := { w with call := .flushing }

/-- No call is under way. -/
def isIdle (w : Writer) : Bool :=
  match w.call with
  | .idle => true
  | _ => false

/-- What becomes of a call. -/
inductive Progress
  | moved (w : Writer) (p : Pipe)
  /-- The pipe is full. -/
  | blocked
  /-- The call failed; the writer keeps what is held. -/
  | broken (w : Writer)

/-- Moves a call on. -/
def step (w : Writer) (p : Pipe) : Progress :=
  match w.call with
  | .idle => .moved w p
  | .sending data =>
    if data.isEmpty then .moved { w with call := .idle } p
    else match p.write data with
      | .moved count p => .moved { w with call := .sending (data.drop count) } p
      | .full => .blocked
      | .broken => .broken { w with call := .idle }
  | call =>
    if w.held.isEmpty then
      match call with
      | .makingRoom data => .moved ({ w with call := .idle }.place data) p
      | _ => .moved { w with call := .idle } p
    else match p.write (w.held.extract 0 p.room).toList with
      | .moved count p => .moved { w with held := w.held.extract count w.held.size } p
      | .full => .blocked
      | .broken => .broken { w with call := .idle }

/-- How many steps a call takes at most when every step moves a byte. -/
def work (w : Writer) : Nat :=
  match w.call with
  | .idle => 0
  | .flushing => w.held.size + 1
  | .makingRoom data => w.held.size + data.length + 2
  | .sending data => data.length + 1

/-- How a call ends when nobody reads meanwhile. -/
inductive Outcome
  | done
  | blocked
  | failed (fault : IoError)

/-- Runs a call until it is done, blocked or broken. -/
def complete (w : Writer) (p : Pipe) : Outcome × Writer × Pipe :=
  go w.work w p
where
  /-- At most `fuel` steps of a call. -/
  go : Nat → Writer → Pipe → Outcome × Writer × Pipe
    | 0, w, p => (.done, w, p)
    | fuel + 1, w, p =>
      if w.isIdle then (.done, w, p)
      else match w.step p with
        | .moved w p => go fuel w p
        | .blocked => (.blocked, w, p)
        | .broken w => (.failed (.os .pipe), w, p)

end Writer

end Coprocess
