import Coprocess.Termination

/-!
# The reaper

The reaper waits for all children. In each pass it looks at every child that it still holds, and it
sleeps after a pass in which none had ended. The first child that failed, or whose end cannot be
told, ends its work.

* `Reaper.Fault`: why a reaper gives up;
* `Reaper`, `Reaper.step`.
-/

namespace Coprocess

/-- Why a reaper gives up. -/
inductive Reaper.Fault
  /-- A child failed. -/
  | child (number : Nat) (reason : Termination)
  /-- Looking for a child failed. -/
  | system (errno : Errno)

/-- The state of a reaper. -/
structure Reaper where
  /-- The numbers of the children that were not seen to end. -/
  held : List Nat
  /-- How many children were seen to succeed. -/
  reaped : Nat := 0
  /-- Where in the list the pass is. -/
  index : Nat := 0
  /-- A child was reaped in this pass. -/
  progressed : Bool := false
  /-- When the next pass begins, for a reaper that sleeps. -/
  wakeAt : Option Nat := none
  /-- The number of children that succeeded, or why there is none. -/
  result? : Option (Except Reaper.Fault Nat) := none

namespace Reaper

/-- How long a reaper sleeps. -/
def pauseMilliseconds : Nat := 10

/-- A list without the item at a place, where the last item is put. -/
def swapRemove (l : List Nat) (place : Nat) : List Nat :=
  match l.getLast? with
  | some last => (l.set place last).dropLast
  | none => l

/-- Looks at the child at hand. -/
def look (r : Reaper) (child : Nat) (answer : Except Errno (Option Termination)) : Reaper :=
  match answer with
  | .ok none => { r with index := r.index + 1 }
  | .ok (some reason) =>
    if reason.isSuccess then
      { r with held := swapRemove r.held r.index, reaped := r.reaped + 1, progressed := true }
    else { r with result? := some (.error (.child child reason)) }
  | .error errno => { r with result? := some (.error (.system errno)) }

/-- Begins a pass. -/
def beginPass (r : Reaper) : Reaper := { r with index := 0, progressed := false, wakeAt := none }

/-- The next step of a reaper, where `status` is what looking for a child comes to; `none` while it
sleeps and after it has returned. -/
def step (r : Reaper) (now : Nat) (status : Nat → Except Errno (Option Termination)) :
    Option Reaper :=
  if r.result?.isSome then none
  else match r.wakeAt with
    | some t => if now < t then none else some r.beginPass
    | none =>
      match r.held[r.index]? with
      | some child => some (r.look child (status child))
      | none =>
        if r.held.isEmpty then some { r with result? := some (.ok r.reaped) }
        else if r.progressed then some r.beginPass
        else some { r with wakeAt := some (now + pauseMilliseconds) }

end Reaper

end Coprocess
