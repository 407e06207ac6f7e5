import Coprocess.Descriptor
import Coprocess.Field
import Coprocess.Wrap

/-!
# Sources of units

A source reads its input line by line and makes one parcel of each line, or finds it malformed. A
malformed line is consumed like any other.

* `Source.Kind`: base64 documents, wrapped lines, or lines with a cache;
* `Source.describe`: the parcel of one line;
* `Source.next`: the result for the next line, and the source after it.
-/

namespace Coprocess

/-- What the lines of a source are. -/
inductive Source.Kind
  /-- Each line is a document in base64. -/
  | document
  /-- Each line is wrapped. -/
  | fold (options : WrapOptions)
  /-- Each line is sent unless one with the same key was sent before. -/
  | cache (key : CacheKey)

/-- The unread input of a source, the number of lines read, and the keys of the lines sent, in order
of first appearance; the place of a key is the number of its slot. -/
structure Source where
  kind : Source.Kind
  input : Bytes
  read : Nat := 0
  keys : List Bytes := []

namespace Source

/-- Refuses options without meaning. -/
def Kind.validate : Kind → Except Misuse Unit
  | fold options => options.validate
  | _ => .ok ()

/-- The number of lines that a cache sent to the child. -/
def misses? (s : Source) : Option Nat :=
  match s.kind with
  | .cache _ => some s.keys.length
  | _ => none

/-- The parcel of a line of text that is wrapped. -/
def foldParcel (options : WrapOptions) (text : List Char) : Parcel :=
  let pieces := wrap options text
  ⟨.wrapped (pieces.map fun p => Utf8.encode p.delimiter),
    pieces.flatMap fun p => Utf8.encode p.text ++ [lf]⟩

/-- The parcel of the line that is unit number `unit`, and the keys after it. -/
def describe (kind : Kind) (keys : List Bytes) (unit : Nat) (line : Bytes) :
    Except Failure Parcel × List Bytes :=
  match kind with
  | .document =>
    match Base64.decode line with
    | .ok document => (.ok (describeDocument document), keys)
    | .error fault => (.error (.malformed unit (.base64 fault)), keys)
  | .fold options =>
    match Utf8.decode line with
    | .ok text => (.ok (foldParcel options text), keys)
    | .error fault => (.error (.malformed unit (.utf8 fault)), keys)
  | .cache key =>
    match keys.idxOf? (key.of line) with
    | some slot => (.ok ⟨.cached slot, []⟩, keys)
    | none => (.ok ⟨.cached keys.length, line ++ [lf]⟩, keys ++ [key.of line])

/-- The result for the next line and the source after it; `none` at the end of the input. -/
def next (s : Source) : Option (Except Failure Parcel × Source) :=
  match nextLine? s.input with
  | none => none
  | some (line, rest) =>
    let (result, keys) := describe s.kind s.keys (s.read + 1) line
    some (result, { s with input := rest, read := s.read + 1, keys })

theorem next_input_lt {s s' : Source} {r : Except Failure Parcel} (h : s.next = some (r, s')) :
    s'.input.length < s.input.length := by
  unfold next at h
  split at h
  · simp at h
  · rename_i line rest hl
    simp only [Option.some.injEq, Prod.mk.injEq] at h
    rw [← h.2]
    exact nextLine?_length_lt hl

end Source

end Coprocess
