import Coprocess.Child
import Coprocess.Gzip.Member
import Coprocess.Pipe.Writer
import Coprocess.Pipeline.Supervision
import Coprocess.Pool.Channel
import Coprocess.Record
import Coprocess.Sink

/-!
# Workers

A worker is a child with a forwarder, which writes records into it, and a drain, which reads records
out of it. A forwarder flushes what it has written before it waits for a record, and after a number
of records.

* `Forwarder`, `Forwarder.step`;
* `Drain`, `Drain.step`;
* `Worker`.
-/

namespace Coprocess

/-! ## Forwarders -/

/-- What a forwarder does once no call of its writer is under way. -/
inductive Forwarder.Phase
  /-- Takes a record if one waits. -/
  | taking
  /-- Waits for a record. -/
  | awaiting
  /-- Counts a record that was written. -/
  | counting
  /-- Closes the child's input. -/
  | closing
  /-- Goes away after a failure. -/
  | abandoning (failure : Failure)
  | returned (result : Except Failure Nat)

/-- The state of a forwarder. -/
structure Forwarder where
  /-- How many records are written between flushes. -/
  flushEvery : Nat
  writer : Writer := {}
  /-- The records forwarded so far. -/
  fed : Nat := 0
  /-- The records written since the last flush. -/
  pending : Nat := 0
  phase : Forwarder.Phase := .taking

namespace Forwarder

/-- The result of a forwarder that has returned. -/
def result? (f : Forwarder) : Option (Except Failure Nat) :=
  match f.phase with
  | .returned result => some result
  | _ => none

/-- Leaves the channel and the pipe with a result. -/
def leave (f : Forwarder) (result : Except Failure Nat) (c : Channel Bytes) (p : Pipe) :
    Forwarder × Channel Bytes × Pipe :=
  ({ f with phase := .returned result }, c.dropReceiver, p.closeWriter)

/-- Moves on the call of the writer that is under way. -/
def stepWriter (f : Forwarder) (c : Channel Bytes) (p : Pipe) :
    Option (Forwarder × Channel Bytes × Pipe) :=
  match f.writer.step p with
  | .moved writer p => some ({ f with writer }, c, p)
  | .blocked => none
  | .broken writer =>
    match f.phase with
    | .abandoning failure => some ({ f with writer }.leave (.error failure) c p)
    | _ => some ({ f with writer := writer.flush, phase := .abandoning (.io (.os .pipe)) }, c, p)

/-- Takes a record; `whenEmpty` says what to do while none waits. -/
def take (f : Forwarder) (c : Channel Bytes) (p : Pipe)
    (whenEmpty : Option (Forwarder × Channel Bytes × Pipe)) :
    Option (Forwarder × Channel Bytes × Pipe) :=
  match c.receive with
  | .item record c =>
    some ({ f with phase := .counting, writer := f.writer.write record }, c, p)
  | .empty => whenEmpty
  | .disconnected => some ({ f with phase := .closing, writer := f.writer.flush }, c, p)

/-- The next step of a forwarder, or `none` while it is blocked and after it has returned. -/
def step (f : Forwarder) (c : Channel Bytes) (p : Pipe) :
    Option (Forwarder × Channel Bytes × Pipe) :=
  if !f.writer.isIdle then f.stepWriter c p
  else match f.phase with
    | .taking =>
      let f' := { f with phase := .awaiting, pending := 0, writer := f.writer.flush }
      f.take c p (some (f', c, p))
    | .awaiting => f.take c p none
    | .counting =>
      let f := { f with phase := .taking, fed := f.fed + 1, pending := f.pending + 1 }
      if f.flushEvery ≤ f.pending then
        some ({ f with pending := 0, writer := f.writer.flush }, c, p)
      else some (f, c, p)
    | .closing => some (f.leave (.ok f.fed) c p)
    | .abandoning failure => some (f.leave (.error failure) c p)
    | .returned _ => none

end Forwarder

/-! ## Drains -/

/-- The state of a drain. -/
structure Drain where
  framing : Framing
  /-- Each record is written as a compressed member. -/
  compress : Bool
  /-- The bytes of the child that are in no record yet. -/
  held : Bytes := []
  /-- The child will write nothing more. -/
  ended : Bool := false
  /-- The records written so far. -/
  emitted : Nat := 0
  result? : Option (Except Failure Nat) := none

namespace Drain

/-- The most bytes taken from the pipe at a time. -/
def capacity : Nat := 65536

/-- What is there of the child's output. Beyond it a read has to be tried again, unless the child
has ended. -/
def supply (d : Drain) : Supply :=
  let more : Option IoError := if d.ended then none else some (.os .again)
  ⟨d.held, more, more⟩

/-- Leaves the pipe with a result. -/
def leave (d : Drain) (result : Except Failure Nat) (p : Pipe) (o : Outlet) :
    Drain × Pipe × Outlet :=
  ({ d with result? := some result }, p.closeReader, o)

/-- Writes a record. -/
def emit (d : Drain) (record : Bytes) (p : Pipe) (o : Outlet) : Drain × Pipe × Outlet :=
  match o.write (if d.compress then Gzip.compress record else record) with
  | (some fault, o) => d.leave (.error (.io fault)) p o
  | (none, o) => ({ d with emitted := d.emitted + 1 }, p, o)

/-- Takes more of the child's output. -/
def fill (d : Drain) (p : Pipe) (o : Outlet) : Option (Drain × Pipe × Outlet) :=
  match p.read capacity with
  | .data bytes p => some ({ d with held := d.held ++ bytes }, p, o)
  | .ended => some ({ d with ended := true }, p, o)
  | .empty => none

/-- The next step of a drain, or `none` while it is blocked and after it has returned. -/
def step (d : Drain) (p : Pipe) (o : Outlet) : Option (Drain × Pipe × Outlet) :=
  if d.result?.isSome then none
  else match RecordReader.next ⟨d.supply, d.framing, d.emitted⟩ with
    | (.record record, reader) => some ({ d with held := reader.supply.bytes }.emit record p o)
    | (.ended, _) => some (d.leave (.ok d.emitted) p o)
    | (.overflow, _) => some (d.leave (.error (.threadPanicked Stage.workerReader.name)) p o)
    | (.failed failure, _) =>
      match failure, d.ended with
      | .io (.os .again), false => d.fill p o
      | _, _ => some (d.leave (.error failure) p o)

end Drain

/-! ## Workers -/

/-- A child with its forwarder and its drain. -/
structure Worker (σ : Type) where
  forwarder : Forwarder
  child : Child σ
  drain : Drain
  /-- From the forwarder to the child. -/
  input : Pipe := {}
  /-- From the child to the drain. -/
  output : Pipe := {}

end Coprocess
