import Coprocess.Flow
import Coprocess.Launch
import Coprocess.Pipeline.Schedule
import Coprocess.Pool.Intake
import Coprocess.Pool.Reaper
import Coprocess.Pool.Worker

/-!
# Pools

A pool shares the records of its inputs among several children of one command line. The order of
records of different children is that of the steps taken.

* `Pool`: the intakes, the workers, the reaper and what is between them;
* `Pool.stepOf`: the next step of one of them;
* `runPool`: the whole run over some inputs.
-/

namespace Coprocess

/-- The state of a pool. -/
structure Pool (σ : Type) where
  /-- The owner may still add inputs, and holds a sender of the channel for them. -/
  isOpen : Bool := true
  channel : Channel Bytes
  intakes : List Intake
  workers : List (Worker σ)
  reaper : Reaper
  outlet : Outlet

/-- Those who take steps in a pool, by their numbers. -/
inductive PoolActor
  /-- Lets the channel go once all inputs are added. -/
  | owner
  | intake (number : Nat)
  | forwarder (worker : Nat)
  | child (worker : Nat)
  | drain (worker : Nat)
  | reaper

namespace Pool

variable {σ : Type}

/-- What looking for the child of a worker comes to. -/
def status (p : Pool σ) (worker : Nat) : Except Errno (Option Termination) :=
  match p.workers[worker]? with
  | some w => w.child.status.map WaitStatus.termination?
  | none => .ok none

/-- The report of a stage with a result, if there is one. -/
def reportOf (stage : Stage) (result? : Option (Except Failure Nat)) : Option Report :=
  result?.map fun result => ⟨stage, result⟩

/-- The failure that is reported for a fault of the reaper. The number of a failed child says
nothing outside the pool. -/
def failureOf : Reaper.Fault → Failure
  | .child _ reason => .childExit none reason
  | .system errno => .system errno

/-- What the reaper reports. -/
def reaperReport? (r : Reaper) : Option Report :=
  reportOf .reaper (r.result?.map fun result => result.mapError failureOf)

/-- The next step of an actor, and its report if it returns with it; `none` while it is blocked and
after its end. -/
def stepOf (act : σ → Act σ) (now : Nat) (p : Pool σ) :
    PoolActor → Option (Pool σ × Option Report)
  | .owner =>
    if p.isOpen then some ({ p with isOpen := false, channel := p.channel.dropSender }, none)
    else none
  | .intake n => do
    let (i, channel) ← (← p.intakes[n]?).step p.channel
    return ({ p with channel, intakes := p.intakes.set n i }, reportOf .input i.result?)
  | .forwarder n => do
    let w ← p.workers[n]?
    let (forwarder, channel, input) ← w.forwarder.step p.channel w.input
    return ({ p with channel, workers := p.workers.set n { w with forwarder, input } },
      reportOf .workerFeeder forwarder.result?)
  | .child n => do
    let w ← p.workers[n]?
    let (child, input, output) ← w.child.step act now w.input w.output
    return ({ p with workers := p.workers.set n { w with child, input, output } }, none)
  | .drain n => do
    let w ← p.workers[n]?
    let (drain, output, outlet) ← w.drain.step w.output p.outlet
    return ({ p with outlet, workers := p.workers.set n { w with drain, output } },
      reportOf .workerReader drain.result?)
  | .reaper => do
    let reaper ← p.reaper.step now p.status
    return ({ p with reaper }, reaperReport? reaper)

/-- All who take steps, those first that are to go first. -/
def actors (p : Pool σ) : List PoolActor :=
  let workers := List.range p.workers.length
  [.owner] ++ (List.range p.intakes.length).map .intake ++ workers.map .forwarder ++
    workers.map .drain ++ workers.map .child ++ [.reaper]

/-- The step of the first actor that can take one. -/
def advance (act : σ → Act σ) (now : Nat) (p : Pool σ) : Option (Pool σ × Option Report) :=
  p.actors.findSome? (p.stepOf act now)

/-- When a child wakes up, or the reaper does and finds a child that has ended. -/
def nextWake? (now : Nat) (p : Pool σ) : Option Nat :=
  let gone (n : Nat) : Bool := (p.workers[n]?.bind (·.child.ended)).isSome
  let reaper := if p.reaper.held.any gone then p.reaper.wakeAt else none
  (p.workers.filterMap (·.child.nextWake? now) ++ reaper.toList).min?

/-- The stages of a pool. -/
def stages (act : σ → Act σ) : Stages (Pool σ) := ⟨advance act, nextWake?⟩

end Pool

/-- How a pool works. -/
structure PoolSettings where
  workers : Nat
  /-- Each record is written as a compressed member. -/
  compress : Bool := false
  framing : Framing := .warc
  flow : Flow := {}

namespace PoolSettings

/-- Refuses a pool without workers, or without flushes. -/
def check (s : PoolSettings) : Except Misuse Unit :=
  if s.workers = 0 then .error .noWorkers else s.flow.check

/-- How many records may wait: two for each worker if nothing else is said, and one at least. -/
def capacity (s : PoolSettings) : Nat := max 1 (s.flow.capacity.getD (s.workers * 2))

/-- The workers at their start, and all inputs that will be added. -/
def start {σ : Type} (s : PoolSettings) (child : Child σ) (inputs : List Supply)
    (outlet : Outlet) : Pool σ where
  channel := { capacity := s.capacity, senders := inputs.length + 1, receivers := s.workers }
  intakes := inputs.map fun supply => { reader := { supply, framing := s.framing } }
  workers := List.replicate s.workers {
    forwarder := { flushEvery := s.flow.flushEvery }
    child
    drain := { framing := s.framing, compress := s.compress } }
  reaper := { held := List.range s.workers }
  outlet

/-- How many stages report. -/
def stages (s : PoolSettings) (inputs : List Supply) : Nat := 2 * s.workers + 1 + inputs.length

end PoolSettings

/-- What a successful run comes to. -/
structure PoolReport where
  workers : Nat
  recordsIn : Nat
  recordsOut : Nat

/-- The end of a run: the output is flushed when no stage has failed. -/
def PoolSettings.join (s : PoolSettings) (outcome : Schedule.Outcome) (outlet : Outlet) :
    Except Failure PoolReport × Outlet :=
  match outcome with
  | .error failure => (.error failure, outlet)
  | .ok counts =>
    match outlet.flush with
    | (some fault, outlet) => (.error (.io fault), outlet)
    | (none, outlet) =>
      (.ok ⟨s.workers, countOf counts .input, countOf counts .workerReader⟩, outlet)

/-- What is left of a run that has ended. -/
structure PoolRun where
  result : Except Failure PoolReport
  outlet : Outlet
  /-- The diagnostics of the children. -/
  warned : Bytes := []

/-- The child of a pool, or why the pool does not start. -/
def checkPool (tree : FileTree) (argv : List Bytes) (settings : PoolSettings) :
    Except Failure (Child Program) :=
  match settings.check with
  | .error misuse => .error (.invalidArgument misuse)
  | .ok () => launch tree argv

/-- Runs a pool whose child is found over some inputs. `none` stands for a run that does not end. -/
def runPool (child : Child Program) (settings : PoolSettings) (inputs : List Supply)
    (outlet : Outlet) : Option PoolRun := do
  let (outcome, s) ← Schedule.run (Pool.stages Program.act) Child.stepLimit
    { state := settings.start child inputs outlet, awaited := settings.stages inputs }
  let (result, outlet) := settings.join outcome s.state.outlet
  return { result, outlet, warned := s.state.workers.flatMap (·.child.warned.toList) }

end Coprocess
