import Coprocess.Failure

/-!
# Supervision

Every stage of a run reports once. The first failure that is no symptom of another one ends the
run at once. A broken pipe or a closed queue is held back, because the stage that caused it is
still to report; a closed queue says the least.

* `Stage`, `Report`;
* `Watch`: what is known of a run, `Watch.note` and `Watch.conclude`;
* `supervise`: the outcome of a sequence of reports.
-/

namespace Coprocess

/-- A stage of a run. -/
inductive Stage
  | feeder
  | reader
  | input
  | workerFeeder
  | workerReader
  | reaper
  deriving DecidableEq

/-- The name of a stage. -/
def Stage.name : Stage → String
  | feeder => "feeder"
  | reader => "reader"
  | input => "input"
  | workerFeeder => "worker-feeder"
  | workerReader => "worker-reader"
  | reaper => "reaper"

/-- The last word of a stage: a count, or why it failed. -/
structure Report where
  stage : Stage
  result : Except Failure Nat

/-- A failure that is usually a symptom of one elsewhere. -/
def Failure.isSecondary : Failure → Bool
  | .queueClosed => true
  | failure => failure.isBrokenPipe

/-- The counts reported so far, in the order of arrival, and the failure held back. -/
structure Watch where
  done : List (Stage × Nat) := []
  deferred : Option Failure := none

namespace Watch

/-- The failure to hold back when another secondary one arrives. -/
def hold (held : Option Failure) (failure : Failure) : Failure :=
  match held with
  | none => failure
  | some .queueClosed => failure
  | some held => held

/-- Takes a report into account, or fails with it. -/
def note (w : Watch) (r : Report) : Except Failure Watch :=
  match r.result with
  | .ok count => .ok { w with done := w.done ++ [(r.stage, count)] }
  | .error failure =>
    if failure.isSecondary then
      .ok ⟨w.done ++ [(r.stage, 0)], some (hold w.deferred failure)⟩
    else .error failure

/-- The outcome when no further report is awaited. -/
def conclude (w : Watch) : Except Failure (List (Stage × Nat)) :=
  match w.deferred with
  | some failure => .error failure
  | none => .ok w.done

end Watch

/-- The outcome of the reports of a run. -/
def supervise (reports : List Report) : Except Failure (List (Stage × Nat)) := do
  let w ← reports.foldlM Watch.note {}
  w.conclude

/-- The sum of the counts that stages of one kind reported. -/
def countOf (done : List (Stage × Nat)) (stage : Stage) : Nat :=
  (done.filter (·.1 = stage)).foldl (· + ·.2) 0

/-- How long the supervisor waits for further reports once it holds a failure back. -/
def graceMilliseconds : Nat := 5000

end Coprocess
