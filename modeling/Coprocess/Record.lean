import Coprocess.Supply
import Coprocess.Text.Blank
import Coprocess.Text.Decimal

/-!
# Records

A record is a line, or a WARC record: the version line, headers of which one gives the length of the
content, an empty line, the content, and two line breaks.

* `Framing`: which of the two;
* `RecordReader`: the input and the number of records read;
* `RecordReader.next`: the next record, the end, or what is wrong.
-/

namespace Coprocess

/-- How records are told apart. -/
inductive Framing
  | warc
  | lines
  deriving DecidableEq

/-- An input that is read record by record. -/
structure RecordReader where
  supply : Supply
  framing : Framing
  /-- The records read so far. -/
  count : Nat := 0

/-- What reading a record comes to. -/
inductive RecordRead
  | record (bytes : Bytes)
  | ended
  | failed (failure : Failure)
  /-- The record announces more bytes than can ever be held. -/
  | overflow

namespace Record

/-- A line without its line feed, and then without a carriage return that ends it. -/
def headerLine (line : Bytes) : Bytes :=
  let line := chomp line
  if line.getLast? = some cr then line.dropLast else line

/-- The version line of a record. -/
def versionLine : Bytes := Bytes.ofString "WARC/1.0"

/-- The name of the header with the length, in lower case, and its colon. -/
def lengthName : Bytes := Bytes.ofString "content-length:"

/-- What closes a record. -/
def recordEnd : Bytes := [cr, lf, cr, lf]

/-- The lower case of an ASCII letter; other bytes as they are. -/
def lower (b : UInt8) : UInt8 := if 65 ≤ b ∧ b ≤ 90 then b + 32 else b

/-- The value of the header with the length, for a line that is this header. -/
def lengthValue? (line : Bytes) : Option Bytes :=
  if (line.take lengthName.length).map lower = lengthName then some (line.drop lengthName.length)
  else none

/-- The length that the value of the header stands for. -/
def parseLength (value : Bytes) : Option Nat :=
  match Utf8.decode value with
  | .ok text => Decimal.word? (Text.trim text)
  | .error _ => none

/-- The most bytes that a record may have. -/
def sizeLimit : Nat := UInt64.size / 2 - 1

/-- What reading the headers of a record comes to: the bytes read and the length, or a failure. -/
inductive Headers
  | complete (head : Array UInt8) (length : Nat) (s : Supply)
  | failed (failure : Failure) (s : Supply)

/-- Reads headers after `head` up to the empty line. `length` is the length found so far. -/
def readHeaders (unit : Nat) : Nat → Array UInt8 → Option Nat → Supply → Headers
  | 0, _, _, s => .failed (.malformed unit .endInHeader) s
  | fuel + 1, head, length, s =>
    match s.cutLine with
    | (.error e, s) => .failed (.io e) s
    | (.ok [], s) => .failed (.malformed unit .endInHeader) s
    | (.ok raw, s) =>
      let line := headerLine raw
      let head := head ++ raw
      if line.isEmpty then
        match length with
        | some n => .complete head n s
        | none => .failed (.malformed unit .noLength) s
      else match lengthValue? line with
        | none => readHeaders unit fuel head length s
        | some value =>
          if length.isSome then .failed (.malformed unit .twoLengths) s
          else match parseLength value with
            | some n => readHeaders unit fuel head (some n) s
            | none => .failed (.malformed unit (.badLength line)) s

/-- An error that means that the input ended too early. -/
def endsEarly : IoError → Bool
  | .unexpectedEnd => true
  | .incompleteData => true
  | _ => false

/-- Reads the content of a record after its headers, and what closes it. -/
def readContent (unit : Nat) (head : Array UInt8) (length : Nat) (s : Supply) :
    RecordRead × Supply :=
  if sizeLimit < head.size + length + recordEnd.length then (.overflow, s)
  else
    let short := RecordRead.failed (.malformed unit (.endInContent length))
    match s.take (length + recordEnd.length) with
    | (.error e, s) => (if endsEarly e then short else .failed (.io e), s)
    | (.ok none, s) => (short, s)
    | (.ok (some content), s) =>
      if content.drop length = recordEnd then (.record (head ++ content).toList, s)
      else (.failed (.malformed unit .missingRecordEnd), s)

/-- Reads a WARC record that is unit number `unit`. -/
def readWarc (unit : Nat) (s : Supply) : RecordRead × Supply :=
  match s.cutLine with
  | (.error e, s) => (.failed (.io e), s)
  | (.ok [], s) => (.ended, s)
  | (.ok first, s) =>
    if headerLine first ≠ versionLine then
      (.failed (.malformed unit (.version (headerLine first))), s)
    else match readHeaders unit (s.bytes.length + 1) first.toArray none s with
      | .failed failure s => (.failed failure, s)
      | .complete head length s => readContent unit head length s

/-- Reads a line; the last one gets a line feed if it has none. -/
def readLine (s : Supply) : RecordRead × Supply :=
  match s.cutLine with
  | (.error e, s) => (.failed (.io e), s)
  | (.ok [], s) => (.ended, s)
  | (.ok line, s) =>
    (.record (if line.getLast? = some lf then line else line ++ [lf]), s)

end Record

namespace RecordReader

/-- Reads the next record. -/
def next (r : RecordReader) : RecordRead × RecordReader :=
  let (read, supply) := match r.framing with
    | .warc => Record.readWarc (r.count + 1) r.supply
    | .lines => Record.readLine r.supply
  let count := match read with
    | .record _ => r.count + 1
    | _ => r.count
  (read, { r with supply, count })

end RecordReader

end Coprocess
