import Coprocess.Pipeline.Supervision

/-!
# Schedules

The stages of a run and their children take steps. A supervisor collects the reports of the stages
until all have reported, one fails for good, or none comes for a while after a failure was held
back. When no step is possible, time passes.

* `Schedule`: a run under way;
* `Schedule.run`: the outcome of a run.
-/

namespace Coprocess

/-- What stages with the common state `σ` do. -/
structure Stages (σ : Type) where
  /-- The next step at a time, and the report of a stage that returns with it. -/
  step : Nat → σ → Option (σ × Option Report)
  /-- When something happens by itself. -/
  nextWake? : Nat → σ → Option Nat

/-- A run under way. -/
structure Schedule (σ : Type) where
  state : σ
  /-- The milliseconds since the start. -/
  now : Nat := 0
  watch : Watch := {}
  /-- How many stages are still to report. -/
  awaited : Nat
  /-- How long the supervisor waits for the next report. -/
  deadline : Option Nat := none

namespace Schedule

variable {σ : Type}

/-- Takes a report into account. -/
def note (s : Schedule σ) (r : Report) : Except Failure (Schedule σ) := do
  let watch ← s.watch.note r
  let deadline := if watch.deferred.isSome then some (s.now + graceMilliseconds) else none
  return { s with watch, awaited := s.awaited - 1, deadline }

/-- The outcome of a run: the counts that the stages reported, or a failure. -/
abbrev Outcome := Except Failure (List (Stage × Nat))

/-- Runs stages for at most so many steps; `none` when that is not enough or nothing can happen any
more. -/
def run (stages : Stages σ) : Nat → Schedule σ → Option (Outcome × Schedule σ)
  | 0, _ => none
  | fuel + 1, s =>
    if s.awaited = 0 then some (s.watch.conclude, s)
    else match stages.step s.now s.state with
      | some (state, none) => run stages fuel { s with state }
      | some (state, some report) =>
        let s := { s with state }
        match s.note report with
        | .error failure => some (.error failure, s)
        | .ok s => run stages fuel s
      | none =>
        match stages.nextWake? s.now s.state, s.deadline with
        | some later, some deadline =>
          if deadline ≤ later then some (s.watch.conclude, { s with now := deadline })
          else run stages fuel { s with now := later }
        | some later, none => run stages fuel { s with now := later }
        | none, some deadline => some (s.watch.conclude, { s with now := deadline })
        | none, none => none

end Schedule

end Coprocess
