import Coprocess.Descriptor
import Coprocess.Pipe.Reader
import Coprocess.Queue
import Coprocess.Sink

/-!
# The collector

A collector takes descriptors from the queue, reads as many lines of the child as each asks for, and
writes the unit. It finds a child that stops too early when a line is missing. It finds a child
that writes too much when there is output while the queue is seen empty before and after, or
after the end marker.

* `Collector`, `Collector.Phase`;
* `Collector.step`: the next step, or `none` while it is blocked and after it has returned.
-/

namespace Coprocess

/-- What a collector does next. -/
inductive Collector.Phase
  /-- Takes the next descriptor. -/
  | consuming
  /-- Reads the missing lines; those read are held newest first. -/
  | gathering (descriptor : Descriptor) (missing : Nat) (lines : List Bytes)
  /-- Looks whether the queue is empty. -/
  | watching
  /-- The queue was seen empty: looks for output. -/
  | peeking
  /-- There is output: looks at the queue again. -/
  | confirming
  /-- The end marker was taken: looks for output. -/
  | closing
  | returned (result : Except Failure Nat)

/-- The state of a collector. -/
structure Collector where
  reader : LineReader := {}
  sink : Sink
  slots : Slots := {}
  /-- The number of the unit at hand, counted from 1. -/
  unit : Nat := 0
  phase : Collector.Phase := .consuming

namespace Collector

/-- The result of a collector that has returned. -/
def result? (c : Collector) : Option (Except Failure Nat) :=
  match c.phase with
  | .returned result => some result
  | _ => none

/-- Leaves the queue and the pipe with a result. -/
def leave (c : Collector) (result : Except Failure Nat) (q : Queue Descriptor) (p : Pipe) :
    Collector × Queue Descriptor × Pipe :=
  ({ c with phase := .returned result }, q.dropConsumer, p.closeReader)

/-- Writes the unit that consists of these lines. -/
def deliver (c : Collector) (descriptor : Descriptor) (lines : List Bytes)
    (q : Queue Descriptor) (p : Pipe) : Collector × Queue Descriptor × Pipe :=
  let (unit, slots) := descriptor.assemble lines c.slots
  match c.sink.writeUnit unit with
  | (some failure, sink) => { c with slots, sink }.leave (.error failure) q p
  | (none, sink) => ({ c with slots, sink, phase := .watching }, q, p)

/-- Looks for output and goes on with what it finds. -/
def peek (c : Collector) (p : Pipe)
    (found : Bool → Collector → Pipe → Collector × Queue Descriptor × Pipe) :
    Option (Collector × Queue Descriptor × Pipe) :=
  match c.reader.fill p with
  | .known more reader p => some (found more { c with reader } p)
  | .blocked => none

/-- The next step of a collector. -/
def step (c : Collector) (q : Queue Descriptor) (p : Pipe) :
    Option (Collector × Queue Descriptor × Pipe) :=
  match c.phase with
  | .consuming =>
    match q.receive with
    | .message (.item descriptor) q =>
      let missing := descriptor.expected c.slots
      some ({ c with unit := c.unit + 1, phase := .gathering descriptor missing [] }, q, p)
    | .message .finished q => some ({ c with phase := .closing }, q, p)
    | .empty => none
    | .closed => some (c.leave (.error .queueClosed) q p)
  | .gathering descriptor 0 lines => some (c.deliver descriptor lines.reverse q p)
  | .gathering descriptor (missing + 1) lines =>
    match c.reader.readLine p with
    | .line line reader p =>
      some ({ c with reader, phase := .gathering descriptor missing (line :: lines) }, q, p)
    | .partly reader p => some ({ c with reader }, q, p)
    | .ended reader p => some ({ c with reader }.leave (.error (.underProduction c.unit)) q p)
    | .blocked => none
  | .watching =>
    some ({ c with phase := if q.waiting.isEmpty then .peeking else .consuming }, q, p)
  | .peeking =>
    c.peek p fun more c p => ({ c with phase := if more then .confirming else .consuming }, q, p)
  | .confirming =>
    if q.waiting.isEmpty then some (c.leave (.error (.overProduction (c.unit + 1))) q p)
    else some ({ c with phase := .consuming }, q, p)
  | .closing =>
    c.peek p fun more c p =>
      if more then c.leave (.error (.overProduction (c.unit + 1))) q p
      else match c.sink.finish with
        | (some failure, sink) => { c with sink }.leave (.error failure) q p
        | (none, sink) => { c with sink }.leave (.ok c.unit) q p
  | .returned _ => none

/-! ## A collector on its own -/

/-- What becomes of the producer after the descriptors. -/
inductive Ending
  | finished
  | dropped
  | kept

/-- A queue in which descriptors wait. -/
def queueOf (units : List Descriptor) (ending : Ending) : Queue Descriptor :=
  let messages := units.map Message.item ++ match ending with
    | .finished => [.finished]
    | _ => []
  let producing := match ending with
    | .kept => true
    | _ => false
  { waiting := ⟨messages, []⟩, producing }

/-- Runs a collector for at most `fuel` steps or until it is blocked. -/
def run : Nat → Collector → Queue Descriptor → Pipe → Collector
  | 0, c, _, _ => c
  | fuel + 1, c, q, p =>
    match c.step q p with
    | some (c, q, p) => run fuel c q p
    | none => c

/-- Runs a collector on descriptors that are all queued and on the whole output of a child. Each
unit takes a bounded number of steps, and each line one more; a line takes another for every
buffer that it fills. -/
def runAlone (c : Collector) (units : List Descriptor) (ending : Ending) (output : Bytes) :
    Collector :=
  c.run (8 * (units.length + output.length + 2)) (queueOf units ending)
    { bytes := output.toArray, writable := false }

end Collector

end Coprocess
