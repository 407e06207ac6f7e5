import Coprocess.Failure

/-!
# Sinks for units

* `Outlet`: where output goes, and `Outlet.written`, the bytes that went there; it may have a limit
  that no write may exceed, and it counts how often it was flushed;
* `Sink`: writes units to an outlet, as lines or as base64 documents.
-/

namespace Coprocess

/-- The output so far. A write beyond `limit` bytes fails as a whole. -/
structure Outlet where
  /-- What each write has added, the latest first. -/
  pieces : List Bytes := []
  limit : Option Nat := none
  flushFails : Bool := false
  /-- How often it was flushed. -/
  flushes : Nat := 0

namespace Outlet

/-- All that was written. -/
def written (o : Outlet) : Bytes := o.pieces.reverse.flatten

/-- Writes some bytes, or none of them when they exceed the limit. -/
def write (o : Outlet) (data : Bytes) : Option IoError × Outlet :=
  if data.isEmpty then (none, o)
  else if o.limit.any (· < o.written.length + data.length) then (some (.os .pipe), o)
  else (none, { o with pieces := data :: o.pieces })

/-- Pushes out what was written. -/
def flush (o : Outlet) : Option IoError × Outlet :=
  (if o.flushFails then some (.os .pipe) else none, { o with flushes := o.flushes + 1 })

end Outlet

/-- How units are written. -/
inductive Sink.Format
  /-- Each unit and a line feed. -/
  | line
  /-- Each unit in base64 on a line of its own. -/
  | document

/-- A writer of units. -/
structure Sink where
  format : Sink.Format := .line
  outlet : Outlet := {}

namespace Sink

/-- Writes a unit. -/
def writeUnit (s : Sink) (unit : Bytes) : Option Failure × Sink :=
  match s.format with
  | .document =>
    let (fault, outlet) := s.outlet.write (Base64.encode unit ++ [lf])
    (fault.map .io, { s with outlet })
  | .line =>
    match s.outlet.write unit with
    | (some fault, outlet) => (some (.io fault), { s with outlet })
    | (none, outlet) =>
      let (fault, outlet) := outlet.write [lf]
      (fault.map .io, { s with outlet })

/-- Flushes after the last unit. -/
def finish (s : Sink) : Option Failure × Sink :=
  let (fault, outlet) := s.outlet.flush
  (fault.map .io, { s with outlet })

end Sink

end Coprocess
