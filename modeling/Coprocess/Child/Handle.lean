import Coprocess.Termination

/-!
# Handles of children

A handle remembers why its child ended. Once it knows, it asks the system nothing about the child
any more, because the number of a child that was waited for may belong to another one.

* `Host`: the system as it is seen through one child;
* `Handle.wait`, `Handle.tryWait`, `Handle.terminate`, `Handle.kill`, `Handle.drop`.
-/

namespace Coprocess

/-- A system with a child, whose states are `ω`. Its calls succeed or fail. -/
structure Host (ω : Type) where
  /-- Waits for a change of the child, or looks whether there is one. -/
  wait : Bool → ω → Except Errno WaitStatus × ω
  signal : NamedSignal → ω → Except Errno Unit × ω
  /-- Lets some milliseconds pass. -/
  pause : Nat → ω → ω

/-- What is known of a child. -/
structure Handle where
  reaped : Option Termination := none

namespace Handle

variable {ω : Type}

/-- Waits until the child is gone, over at most so many changes and interruptions; `none` if it is
not gone by then. -/
def waitUntilGone (host : Host ω) : Nat → ω → Option (Except Errno Termination) × ω
  | 0, w => (none, w)
  | fuel + 1, w =>
    match host.wait true w with
    | (.ok status, w) =>
      match status.termination? with
      | some reason => (some (.ok reason), w)
      | none => waitUntilGone host fuel w
    | (.error .interrupted, w) => waitUntilGone host fuel w
    | (.error e, w) => (some (.error e), w)

/-- Waits for the end of the child. -/
def wait (host : Host ω) (fuel : Nat) (h : Handle) (w : ω) :
    Option (Except Errno Termination) × Handle × ω :=
  match h.reaped with
  | some reason => (some (.ok reason), h, w)
  | none =>
    match waitUntilGone host fuel w with
    | (some (.ok reason), w) => (some (.ok reason), ⟨some reason⟩, w)
    | (answer, w) => (answer, h, w)

/-- Looks whether the child is gone. -/
def tryWait (host : Host ω) (h : Handle) (w : ω) :
    Except Errno (Option Termination) × Handle × ω :=
  match h.reaped with
  | some reason => (.ok (some reason), h, w)
  | none =>
    match host.wait false w with
    | (.ok status, w) => (.ok status.termination?, ⟨status.termination?⟩, w)
    | (.error e, w) => (.error e, h, w)

/-- Asks the child to end. -/
def terminate (host : Host ω) (h : Handle) (w : ω) : Except Errno Unit × ω :=
  if h.reaped.isSome then (.ok (), w) else host.signal .term w

/-- Ends the child and waits for it. -/
def kill (host : Host ω) (fuel : Nat) (h : Handle) (w : ω) :
    Option (Except Errno Termination) × Handle × ω :=
  if h.reaped.isSome then h.wait host fuel w
  else
    match host.signal .kill w with
    | (.ok (), w) => h.wait host fuel w
    | (.error e, w) => (some (.error e), h, w)

/-- How long a child that was asked to end gets before it is ended. -/
def graceMilliseconds : Nat := 10

/-- Looks whether the child is gone, and ends it if it is not. -/
def reapOrKill (host : Host ω) (fuel : Nat) (h : Handle) (w : ω) : Handle × ω :=
  match h.tryWait host w with
  | (.ok (some _), h, w) => (h, w)
  | (_, h, w) =>
    let (_, h, w) := h.kill host fuel w
    (h, w)

/-- Gives up the handle: no child that is not waited for stays behind. -/
def drop (host : Host ω) (fuel : Nat) (h : Handle) (w : ω) : Handle × ω :=
  if h.reaped.isSome then (h, w)
  else h.reapOrKill host fuel (host.pause graceMilliseconds (h.terminate host w).2)

end Handle

end Coprocess
