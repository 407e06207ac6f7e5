import Coprocess.Bytes

/-!
# Pipes

A bounded stream of bytes between a write end and a read end.

* `Pipe.write`: as many bytes as fit, or broken when the read end is closed;
* `Pipe.read`: the bytes that are there, or the end when the write end is closed.
-/

namespace Coprocess

/-- The bytes under way and the ends that are open. -/
structure Pipe where
  bytes : Array UInt8 := #[]
  capacity : Nat := 65536
  writable : Bool := true
  readable : Bool := true

namespace Pipe

/-- How many bytes fit. -/
def room (p : Pipe) : Nat := p.capacity - p.bytes.size

/-- What becomes of bytes that are written. -/
inductive Wrote
  /-- The first `count` bytes are under way. -/
  | moved (count : Nat) (p : Pipe)
  | full
  /-- Nobody can read them. -/
  | broken

/-- Writes as many bytes as fit. -/
def write (p : Pipe) (data : Bytes) : Wrote :=
  if !p.readable then .broken
  else if p.room = 0 then .full
  else
    let part := data.take p.room
    .moved part.length { p with bytes := p.bytes ++ part }

/-- What a read gets. -/
inductive Read
  | data (bytes : Bytes) (p : Pipe)
  /-- Nothing is under way yet. -/
  | empty
  /-- Nothing is under way, and nobody can write. -/
  | ended

/-- Reads up to `most` bytes. -/
def read (p : Pipe) (most : Nat) : Read :=
  if p.bytes.isEmpty then if p.writable then .empty else .ended
  else
    .data (p.bytes.extract 0 most).toList { p with bytes := p.bytes.extract most p.bytes.size }

/-- How many bytes there are up to and including the first line feed. -/
def lineLength (p : Pipe) : Nat :=
  match p.bytes.findIdx? (· = lf) with
  | some i => i + 1
  | none => p.bytes.size

/-- The write end is closed. -/
def closeWriter (p : Pipe) : Pipe := { p with writable := false }

/-- The read end is closed. -/
def closeReader (p : Pipe) : Pipe := { p with readable := false }

end Pipe

end Coprocess
