import Coprocess.Failure

/-!
# Input that may fail

* `Supply`: the bytes that can be read, and what reading comes to after them;
* `Supply.cutLine`, `Supply.take`: reading up to a line feed, and reading a number of bytes.
-/

namespace Coprocess

/-- The unread bytes of an input and how it ends. -/
structure Supply where
  bytes : Bytes
  /-- What the first read after the bytes fails with. -/
  fault : Option IoError := none
  /-- What every read after that fails with; without it the input is at its end. -/
  lasting : Option IoError := none

namespace Supply

/-- A read after the last byte: the end, or an error. -/
def exhaust (s : Supply) : Except IoError Unit × Supply :=
  match s.fault with
  | some e => (.error e, { s with bytes := [], fault := none })
  | none => (match s.lasting with
    | some e => .error e
    | none => .ok (), { s with bytes := [] })

/-- Reads up to and including a line feed, or to the end. What was read before an error is lost. -/
def cutLine (s : Supply) : Except IoError Bytes × Supply :=
  match Coprocess.cutLine s.bytes with
  | (line, rest) =>
    if line.getLast? = some lf then (.ok line, { s with bytes := rest })
    else match s.exhaust with
      | (.error e, s) => (.error e, s)
      | (.ok _, s) => (.ok line, s)

/-- Reads `n` bytes; `none` when the input ends before. -/
def take (s : Supply) (n : Nat) : Except IoError (Option Bytes) × Supply :=
  let part := s.bytes.take n
  if part.length = n then (.ok (some part), { s with bytes := s.bytes.drop n })
  else match s.exhaust with
    | (.error e, s) => (.error e, s)
    | (.ok _, s) => (.ok none, s)

/-- Everything up to the end, or the error that comes before it. -/
def readAll (s : Supply) : Except IoError Bytes :=
  match s.exhaust.1 with
  | .error e => .error e
  | .ok _ => .ok s.bytes

end Supply

end Coprocess
