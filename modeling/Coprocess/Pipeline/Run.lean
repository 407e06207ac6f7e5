import Coprocess.Flow
import Coprocess.Launch
import Coprocess.Pipeline.Collector
import Coprocess.Pipeline.Feeder
import Coprocess.Pipeline.Schedule

/-!
# Pipelines

A pipeline feeds the units of a source to a child and collects what the child makes of them.

* `Pipeline`: a feeder, a child and a collector, and the queue and the pipes between them;
* `Pipeline.start`: all three at their start;
* `Pipeline.stepOf`: the next step of one of the three;
* `runPipeline`: the whole run of a command line over a source.
-/

namespace Coprocess

/-- A feeder, a child and a collector. -/
structure Pipeline (σ : Type) where
  feeder : Feeder
  child : Child σ
  collector : Collector
  queue : Queue Descriptor := {}
  /-- From the feeder to the child. -/
  input : Pipe := {}
  /-- From the child to the collector. -/
  output : Pipe := {}

/-- Those who take steps in a pipeline. -/
inductive Actor
  | feeder
  | child
  | collector

namespace Pipeline

variable {σ : Type}

/-- A pipeline at its start. -/
def start (source : Source) (flow : Flow) (child : Child σ) (sink : Sink) (input output : Pipe) :
    Pipeline σ where
  feeder := Feeder.new source flow.flushEvery
  child
  collector := { sink }
  queue := Queue.new flow.capacity
  input
  output

/-- The next step of an actor, or `none` while it is blocked and after its end. -/
def stepOf (act : σ → Act σ) (now : Nat) (p : Pipeline σ) : Actor → Option (Pipeline σ)
  | .feeder => (p.feeder.step p.queue p.input).map fun (feeder, queue, input) =>
    { p with feeder, queue, input }
  | .child => (p.child.step act now p.input p.output).map fun (child, input, output) =>
    { p with child, input, output }
  | .collector => (p.collector.step p.queue p.output).map fun (collector, queue, output) =>
    { p with collector, queue, output }

/-- The report of an actor that has returned. -/
def report? (p : Pipeline σ) : Actor → Option Report
  | .feeder => p.feeder.result?.map fun result => ⟨.feeder, result⟩
  | .child => none
  | .collector => p.collector.result?.map fun result => ⟨.reader, result⟩

/-- The step of the first actor that can take one: the collector, then the feeder, then the child.
An actor that has returned takes no step, so each reports once. -/
def advance (act : σ → Act σ) (now : Nat) (p : Pipeline σ) :
    Option (Pipeline σ × Option Report) :=
  [Actor.collector, .feeder, .child].findSome? fun actor =>
    (p.stepOf act now actor).map fun p => (p, p.report? actor)

/-- The stages of a pipeline. -/
def stages (act : σ → Act σ) : Stages (Pipeline σ) :=
  ⟨advance act, fun now p => p.child.nextWake? now⟩

end Pipeline

/-- What a successful run comes to. -/
structure PipelineReport where
  fed : Nat
  emitted : Nat
  exit : Termination

/-- What is left of a run that has ended. -/
structure PipelineRun where
  result : Except Failure PipelineReport
  sink : Sink
  /-- The diagnostics of the child. -/
  warned : Bytes := []

/-- A command line and flow control that a pipeline accepts. -/
def checkPipeline (argv : List Bytes) (flow : Flow) : Except Misuse Unit :=
  if argv.isEmpty then .error .noCommand else flow.check

/-- Runs a command line over a source. `none` stands for a run that does not end. -/
def runPipeline (tree : FileTree) (argv : List Bytes) (source : Source) (sink : Sink)
    (flow : Flow) : Option PipelineRun :=
  match checkPipeline argv flow with
  | .error misuse => some ⟨.error (.invalidArgument misuse), sink, []⟩
  | .ok () =>
    match launch tree argv with
    | .error failure => some ⟨.error failure, sink, []⟩
    | .ok child => do
      let (outcome, s) ← Schedule.run (Pipeline.stages Program.act) Child.stepLimit
        { state := Pipeline.start source flow child sink {} {}, awaited := 2 }
      let p := s.state
      let sink := p.collector.sink
      match outcome with
      | .error failure => return ⟨.error failure, sink, p.child.warned.toList⟩
      | .ok counts =>
        let rest := Habitat.settle Program.act Child.stepLimit
          { child := p.child, input := p.input, output := p.output, now := s.now }
        let warned := rest.child.warned.toList
        match rest.child.status with
        | .error errno => return ⟨.error (.system errno), sink, warned⟩
        | .ok status =>
          let exit ← status.termination?
          return ⟨.ok ⟨countOf counts .feeder, countOf counts .reader, exit⟩, sink, warned⟩

end Coprocess
