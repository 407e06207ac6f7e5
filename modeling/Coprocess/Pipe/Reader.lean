import Coprocess.Pipe

/-!
# Buffered reading of lines

A reader takes up to 64 KiB from its pipe at a time, and only when it holds no unread bytes.

* `LineReader`: the unread bytes and the line that is being read;
* `LineReader.fill`: looks whether there is more to read, without reading it;
* `LineReader.readLine`: the next line, or nothing at the end; an unterminated last line counts.
-/

namespace Coprocess

/-- The unread bytes of a reader, and those of a line that is not complete yet. -/
structure LineReader where
  buffer : Bytes := []
  line : Bytes := []

namespace LineReader

/-- The most bytes taken from the pipe at a time. -/
def capacity : Nat := 65536

/-- What a look at the input finds. -/
inductive Pending
  /-- There are unread bytes, or there are none and none will come. -/
  | known (more : Bool) (r : LineReader) (p : Pipe)
  /-- Nothing is there yet. -/
  | blocked

/-- Fills the buffer if it is empty and tells whether it holds anything then. -/
def fill (r : LineReader) (p : Pipe) : Pending :=
  if r.buffer.isEmpty then
    match p.read capacity with
    | .data bytes p => .known true { r with buffer := bytes } p
    | .empty => .blocked
    | .ended => .known false r p
  else .known true r p

/-- What reading a line comes to. -/
inductive LineRead
  | line (line : Bytes) (r : LineReader) (p : Pipe)
  | ended (r : LineReader) (p : Pipe)
  /-- A part of the line was read. -/
  | partly (r : LineReader) (p : Pipe)
  | blocked

/-- Moves on the line that is being read. -/
def readLine (r : LineReader) (p : Pipe) : LineRead :=
  match r.fill p with
  | .blocked => .blocked
  | .known false r p =>
    if r.line.isEmpty then .ended r p else .line r.line { r with line := [] } p
  | .known true r p =>
    match r.buffer.dropWhile (· ≠ lf) with
    | [] => .partly ⟨[], r.line ++ r.buffer⟩ p
    | _ :: rest => .line (r.line ++ r.buffer.takeWhile (· ≠ lf)) ⟨rest, []⟩ p

end LineReader

end Coprocess
