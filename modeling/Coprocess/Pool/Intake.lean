import Coprocess.Pipeline.Supervision
import Coprocess.Pool.Channel
import Coprocess.Record

/-!
# Intake of records

An intake reads an input record by record and sends the records to the workers.

* `Intake`, `Intake.step`.
-/

namespace Coprocess

/-- What an intake does next. -/
inductive Intake.Phase
  | reading
  | sending (record : Bytes)
  | returned (result : Except Failure Nat)

/-- The state of an intake. -/
structure Intake where
  reader : RecordReader
  /-- The records sent so far. -/
  sent : Nat := 0
  phase : Intake.Phase := .reading

namespace Intake

/-- The result of an intake that has returned. -/
def result? (i : Intake) : Option (Except Failure Nat) :=
  match i.phase with
  | .returned result => some result
  | _ => none

/-- Leaves the channel with a result. -/
def leave (i : Intake) (result : Except Failure Nat) (c : Channel Bytes) :
    Intake × Channel Bytes :=
  ({ i with phase := .returned result }, c.dropSender)

/-- The next step of an intake, or `none` while it is blocked and after it has returned. -/
def step (i : Intake) (c : Channel Bytes) : Option (Intake × Channel Bytes) :=
  match i.phase with
  | .reading =>
    match i.reader.next with
    | (.record record, reader) => some ({ i with reader, phase := .sending record }, c)
    | (.ended, _) => some (i.leave (.ok i.sent) c)
    | (.failed failure, _) => some (i.leave (.error failure) c)
    | (.overflow, _) => some (i.leave (.error (.threadPanicked Stage.input.name)) c)
  | .sending record =>
    match c.send record with
    | .accepted c => some ({ i with sent := i.sent + 1, phase := .reading }, c)
    | .full => none
    | .closed => some (i.leave (.error .queueClosed) c)
  | .returned _ => none

end Intake

end Coprocess
