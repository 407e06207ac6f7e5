import Coprocess.Errno
import Coprocess.Signal

/-!
# How a child ends

* `ProcessEnd`: how a process has ended;
* `Termination`: why a child is gone, and the exit statuses that report it;
* `WaitStatus`, `WaitStatus.termination?`: what waiting for a child answers, and whether the child
  is gone then;
* `ProcessEnd.status`: the answer for a process that has ended; there is none for a signal without a
  name.
-/

namespace Coprocess

/-- How a process has ended. -/
inductive ProcessEnd
  | exited (code : Int)
  | signaled (signal : Signal) (coreDumped : Bool)
  deriving DecidableEq

/-- Why a child is gone. -/
inductive Termination
  | exited (code : Int)
  | signaled (signal : NamedSignal) (coreDumped : Bool)
  | unknown
  deriving DecidableEq

namespace Termination

/-- A child that exits with code 0 succeeds. -/
def isSuccess : Termination → Bool
  | exited code => code = 0
  | _ => false

theorem isSuccess_iff {reason : Termination} : reason.isSuccess = true ↔ reason = .exited 0 := by
  cases reason with
  | exited code => simp [isSuccess]
  | signaled | unknown => simp [isSuccess]

/-- The status of a child that did not exit by itself; no exit code has this value. -/
def abnormalExitCode : Int := 256

/-- The exit code of a child, or `abnormalExitCode`. -/
def exitCode : Termination → Int
  | exited code => code
  | _ => abnormalExitCode

/-- The exit code with which a wrapper reports the child: 128 and the signal's number for a child
that a signal ended. -/
def shellExitCode : Termination → Int
  | exited code => code
  | signaled signal _ => 128 + signal.number
  | unknown => 1

/-- The wording of a termination. -/
def describe : Termination → String
  | exited code => "exited with code " ++ toString code
  | signaled signal true =>
    "terminated abnormally by signal " ++ signal.name ++ " (core dumped)"
  | signaled signal false => "terminated abnormally by signal " ++ signal.name
  | unknown => "terminated for an unknown reason"

end Termination

/-- What waiting for a child answers. -/
inductive WaitStatus
  | exited (code : Int)
  | signaled (signal : NamedSignal) (coreDumped : Bool)
  | stopped (signal : NamedSignal)
  | continued
  | stillAlive

/-- The end of a child that is gone. -/
def WaitStatus.termination? : WaitStatus → Option Termination
  | exited code => some (.exited code)
  | signaled signal coreDumped => some (.signaled signal coreDumped)
  | _ => none

/-- What waiting for a process answers that has ended. A signal without a name cannot be told: the
call fails, although the process is waited for then and gone. -/
def ProcessEnd.status : ProcessEnd → Except Errno WaitStatus
  | exited code => .ok (.exited code)
  | signaled signal coreDumped =>
    match signal.named? with
    | some signal => .ok (.signaled signal coreDumped)
    | none => .error .invalid

end Coprocess
