import Coprocess.Pipe.Writer
import Coprocess.Queue
import Coprocess.Source

/-!
# The feeder

A feeder takes parcels from a source. It puts each descriptor into the queue before any of the lines
of its unit can reach the child, flushes what it has written before it waits for room in the queue,
and after a number of units that had lines. At the end of the input it flushes, queues the end
marker and closes the child's input. When it fails it pushes out what it has written, as far as
that is possible, and goes away without an end marker.

* `Feeder`, `Feeder.Phase`;
* `Feeder.step`: the next step, or `none` while it is blocked and after it has returned;
* `Feeder.Drained`, `Feeder.runAlone`: a feeder whose pipe and queue are drained all the time.
-/

namespace Coprocess

/-- What a feeder does once no call of its writer is under way. -/
inductive Feeder.Phase
  /-- Asks the source for the next parcel. -/
  | fetching
  /-- Queues the descriptor if there is room. -/
  | offering (parcel : Parcel)
  /-- Waits for room in the queue. -/
  | awaiting (parcel : Parcel)
  /-- Writes the lines of a unit whose descriptor is queued. -/
  | writing (payload : Bytes)
  /-- Counts a unit that was written. -/
  | counting
  /-- Queues the end marker. -/
  | ending
  /-- Closes the child's input. -/
  | closing
  /-- Goes away after a failure. -/
  | abandoning (failure : Failure)
  | returned (result : Except Failure Nat)

/-- The state of a feeder. -/
structure Feeder where
  source : Source
  /-- How many units with lines are written between flushes. -/
  flushEvery : Nat
  writer : Writer := {}
  /-- The units fed so far. -/
  fed : Nat := 0
  /-- The units written since the last flush of this kind. -/
  pending : Nat := 0
  phase : Feeder.Phase := .fetching

namespace Feeder

/-- A feeder at its start; it flushes after each unit at least. -/
def new (source : Source) (flushEvery : Nat) : Feeder := { source, flushEvery := max 1 flushEvery }

/-- The result of a feeder that has returned. -/
def result? (f : Feeder) : Option (Except Failure Nat) :=
  match f.phase with
  | .returned result => some result
  | _ => none

/-- Begins to go away after a failure. -/
def abandon (f : Feeder) (failure : Failure) : Feeder :=
  { f with phase := .abandoning failure, writer := f.writer.flush }

/-- Leaves the queue and the pipe with a result. -/
def leave (f : Feeder) (result : Except Failure Nat) (q : Queue Descriptor) (p : Pipe) :
    Feeder × Queue Descriptor × Pipe :=
  ({ f with phase := .returned result }, q.dropProducer, p.closeWriter)

/-- Moves on the call of the writer that is under way. -/
def stepWriter (f : Feeder) (q : Queue Descriptor) (p : Pipe) :
    Option (Feeder × Queue Descriptor × Pipe) :=
  match f.writer.step p with
  | .moved writer p => some ({ f with writer }, q, p)
  | .blocked => none
  | .broken writer =>
    match f.phase with
    | .abandoning failure => some ({ f with writer }.leave (.error failure) q p)
    | _ => some ({ f with writer }.abandon (.io (.os .pipe)), q, p)

/-- Puts a descriptor into the queue; `whenFull` says what to do without room. -/
def publish (f : Feeder) (parcel : Parcel) (q : Queue Descriptor) (p : Pipe)
    (whenFull : Option (Feeder × Queue Descriptor × Pipe)) :
    Option (Feeder × Queue Descriptor × Pipe) :=
  match q.send (.item parcel.descriptor) with
  | .accepted q => some ({ f with phase := .writing parcel.payload }, q, p)
  | .full => whenFull
  | .closed => some (f.abandon .queueClosed, q, p)

/-- The next step of a feeder whose writer is idle. -/
def stepPhase (f : Feeder) (q : Queue Descriptor) (p : Pipe) :
    Option (Feeder × Queue Descriptor × Pipe) :=
  match f.phase with
  | .fetching =>
    match f.source.next with
    | none => some ({ f with phase := .ending, writer := f.writer.flush }, q, p)
    | some (.error failure, source) => some ({ f with source }.abandon failure, q, p)
    | some (.ok parcel, source) =>
      some ({ f with source, fed := f.fed + 1, phase := .offering parcel }, q, p)
  | .offering parcel =>
    f.publish parcel q p
      (some ({ f with phase := .awaiting parcel, writer := f.writer.flush }, q, p))
  | .awaiting parcel => f.publish parcel q p none
  | .writing payload =>
    if payload.isEmpty then some ({ f with phase := .fetching }, q, p)
    else some ({ f with phase := .counting, writer := f.writer.write payload }, q, p)
  | .counting =>
    if f.flushEvery ≤ f.pending + 1 then
      some ({ f with phase := .fetching, pending := 0, writer := f.writer.flush }, q, p)
    else some ({ f with phase := .fetching, pending := f.pending + 1 }, q, p)
  | .ending =>
    match q.send .finished with
    | .accepted q =>
      some ({ f with phase := .closing, writer := f.writer.flush }, q.dropProducer, p)
    | .full => none
    | .closed => some (f.abandon .queueClosed, q.dropProducer, p)
  | .closing => some (f.leave (.ok f.fed) q p)
  | .abandoning failure => some (f.leave (.error failure) q p)
  | .returned _ => none

/-- The next step of a feeder. -/
def step (f : Feeder) (q : Queue Descriptor) (p : Pipe) :
    Option (Feeder × Queue Descriptor × Pipe) :=
  if f.writer.isIdle then f.stepPhase q p else f.stepWriter q p

/-! ## A feeder on its own -/

/-- A feeder and all that came out of its pipe and its queue. -/
structure Drained where
  feeder : Feeder
  queue : Queue Descriptor
  pipe : Pipe
  sent : Array UInt8 := #[]
  queued : Array Descriptor := #[]
  endSeen : Bool := false

/-- Takes out what the pipe and the queue hold. -/
def Drained.drain (d : Drained) : Drained :=
  let d := match d.pipe.read d.pipe.capacity with
    | .data bytes pipe => { d with sent := d.sent ++ bytes, pipe }
    | _ => d
  if !d.queue.consuming then d
  else match d.queue.receive with
    | .message (.item descriptor) queue =>
      { d with queued := d.queued.push descriptor, queue }
    | .message .finished queue => { d with endSeen := true, queue }
    | _ => d

/-- Runs a feeder for at most `fuel` steps. What comes out of the pipe and the queue is taken out
whenever the feeder is blocked, and at the end. -/
def runDrained : Nat → Drained → Drained
  | 0, d => d
  | fuel + 1, d =>
    match d.feeder.step d.queue d.pipe with
    | some (feeder, queue, pipe) => runDrained fuel { d with feeder, queue, pipe }.drain
    | none => if d.feeder.result?.isSome then d.drain else runDrained fuel d.drain

/-- A number of steps that suffices for a source: a line makes a bounded number of steps, and a few
for every 64 KiB that it is turned into. -/
def stepBound (source : Source) : Nat := 64 * (source.input.length + 2)

/-- Runs a feeder on a queue and a pipe that are drained. -/
def runAlone (source : Source) (flushEvery : Nat) (queue : Queue Descriptor) (pipe : Pipe) :
    Drained :=
  runDrained (stepBound source) { feeder := new source flushEvery, queue, pipe }

end Feeder

end Coprocess
