import Coprocess.Program.Arguments
import Coprocess.Program.Filter

/-!
# Copying with marks

* `Copying`: what is added to the input; `Copying.feed`, `Copying.close`;
* `Copying.ofArguments?`.
-/

namespace Coprocess.Program

/-- What is added to the input, and the place in it. -/
structure Copying where
  numbers : Bool := false
  /-- Empty lines get no number. -/
  sparesEmpty : Bool := false
  /-- Of empty lines in a row only the first is kept. -/
  squeezes : Bool := false
  marksEnds : Bool := false
  marksTabs : Bool := false
  /-- Bytes that are not printable are spelled out. -/
  spells : Bool := false
  /-- The next number. -/
  next : Nat := 1
  /-- The next byte is the first of its line. -/
  fresh : Bool := true
  /-- How many empty lines precede. -/
  blanks : Nat := 0
  /-- A carriage return is held back until it is known whether it ends a line. -/
  heldCr : Bool := false

namespace Copying

/-- The number of a line in its column. -/
def label (n : Nat) : Bytes :=
  let digits := (toString n).toList
  bytesOf (List.replicate (6 - digits.length) ' ' ++ digits ++ ['\t'])

/-- A byte as it is written. -/
def shown (c : Copying) (b : UInt8) : Bytes :=
  let caret (b : UInt8) : Bytes := [94, b]
  if b = 9 then if c.marksTabs then caret 73 else [9]
  else if !c.spells then [b]
  else
    let low (b : UInt8) : Bytes :=
      if b < 32 then caret (b + 64) else if b = 127 then caret 63 else [b]
    if b < 128 then low b else bytesOf ['M', '-'] ++ low (b - 128)

/-- The end of a line, as it is written behind what the line holds. -/
def lineEnd (c : Copying) : Bytes := (if c.marksEnds then [36] else []) ++ [lf]

/-- Takes a byte: what is written, and the state after it. -/
def byte (c : Copying) (b : UInt8) : Bytes × Copying :=
  let held : Bytes := if c.heldCr then (if b = lf then [94, 77] else [cr]) else []
  let c := { c with heldCr := false }
  if b = lf ∧ c.fresh then
    if c.squeezes ∧ 0 < c.blanks then ([], c)
    else if c.numbers ∧ !c.sparesEmpty then
      (label c.next ++ c.lineEnd, { c with next := c.next + 1, blanks := c.blanks + 1 })
    else (c.lineEnd, { c with blanks := c.blanks + 1 })
  else if b = lf then (held ++ c.lineEnd, { c with fresh := true, blanks := 0 })
  else
    let (front, c) := if c.fresh ∧ c.numbers then (label c.next, { c with next := c.next + 1 })
      else ([], c)
    let c := { c with fresh := false, blanks := 0 }
    if b = cr ∧ c.marksEnds ∧ !c.spells then (held ++ front, { c with heldCr := true })
    else (held ++ front ++ c.shown b, c)

/-- Takes some bytes after the pieces `written`, which are held last first. -/
def onto (c : Copying) (written : List Bytes) : Bytes → List Bytes × Copying
  | [] => (written, c)
  | b :: rest =>
    let (piece, c) := c.byte b
    onto c (piece :: written) rest

/-- Takes a piece of the input. -/
def feed (c : Copying) (s : Bytes) : Reply Copying :=
  let (written, c) := c.onto [] s
  ⟨c, written.reverse.flatten, none⟩

/-- The last output. -/
def close (c : Copying) : Bytes := if c.heldCr then [cr] else []

/-- Nothing is added to the input. -/
def isPlain (c : Copying) : Bool :=
  !(c.numbers || c.squeezes || c.marksEnds || c.marksTabs || c.spells)

/-- The options of this program. -/
def choices : List Choice :=
  [⟨'A', "show-all", false⟩, ⟨'b', "number-nonblank", false⟩, ⟨'e', "", false⟩,
    ⟨'E', "show-ends", false⟩, ⟨'n', "number", false⟩, ⟨'s', "squeeze-blank", false⟩,
    ⟨'t', "", false⟩, ⟨'T', "show-tabs", false⟩, ⟨'u', "", false⟩,
    ⟨'v', "show-nonprinting", false⟩]

/-- What an option adds. -/
def add (c : Copying) : Char → Copying
  | 'A' => { c with spells := true, marksEnds := true, marksTabs := true }
  | 'b' => { c with numbers := true, sparesEmpty := true }
  | 'e' => { c with spells := true, marksEnds := true }
  | 'E' => { c with marksEnds := true }
  | 'n' => { c with numbers := true }
  | 's' => { c with squeezes := true }
  | 't' => { c with spells := true, marksTabs := true }
  | 'T' => { c with marksTabs := true }
  | 'v' => { c with spells := true }
  | _ => c

/-- What some arguments ask for. -/
def ofArguments? (args : List Bytes) : Option Copying := do
  let given ← Arguments.scan? choices true args
  if !given.readsInput then none
  return given.options.foldl (fun c (letter, _) => c.add letter) {}

end Copying

end Coprocess.Program
