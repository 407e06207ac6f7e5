import Coprocess.Failure
import Coprocess.Text.Decimal

/-!
# Field selection

A line consists of fields between separators. A field list such as `1-3,9,12-` selects some of
them; fields are numbered from 1.

* `FieldRange`: fields counted from 0, up to a last one or to the end of the line;
* `FieldSelection`: ranges in increasing order that neither overlap nor touch, and
  `FieldSelection.parse`, which sorts and joins the parts of a list;
* `FieldSelection.select`: the selected parts of a line;
* `CacheKey`: the fields that identify a line, and `CacheKey.of`, the bytes that stand for them.
-/

namespace Coprocess

/-- The fields from `start` up to but not including `stop`, counted from 0; to the end of the line
when there is no `stop`. -/
structure FieldRange where
  start : Nat
  stop : Option Nat
  deriving DecidableEq

/-- Ranges in increasing order with a gap between neighbours. -/
structure FieldSelection where
  ranges : List FieldRange
  deriving DecidableEq

/-! ## Field lists -/

/-- The pieces of a text between the characters `c`. -/
def splitAt (c : Char) (text : List Char) : List (List Char) :=
  text.foldr (fun d pieces => if d = c then [] :: pieces else
    match pieces with
    | [] => [[d]]
    | piece :: rest => (d :: piece) :: rest) [[]]

namespace FieldRange

/-- A number in a part of a field list. -/
def number (text : List Char) : Except FieldFault Nat :=
  match Decimal.word? text with
  | some n => .ok n
  | none => .error .notANumber

/-- A number of a field, counted from 0. -/
def index (text : List Char) : Except FieldFault Nat := do
  match ← number text with
  | 0 => throw .zero
  | n + 1 => return n

/-- The range that one part of a field list stands for. -/
def parsePart (part : List Char) : Except FieldFault FieldRange := do
  match part.dropWhile (· ≠ '-') with
  | [] =>
    let field ← index part
    return ⟨field, some (field + 1)⟩
  | _ :: upper =>
    let lower := part.takeWhile (· ≠ '-')
    let start ← if lower.isEmpty then pure 0 else index lower
    if upper.isEmpty then return ⟨start, none⟩
    let stop ← number upper
    if stop ≤ start then throw .emptyRange
    return ⟨start, some stop⟩

/-- Joins ranges in increasing order, of which `last` is the first, where they touch; `none` when
two overlap. -/
def join (last : FieldRange) : List FieldRange → Option (List FieldRange)
  | [] => some [last]
  | r :: rs =>
    match last.stop with
    | none => none
    | some stop =>
      if stop = r.start then join ⟨last.start, r.stop⟩ rs
      else if stop < r.start then (last :: ·) <$> join r rs
      else none

end FieldRange

namespace FieldSelection

/-- The selection that a field list stands for. -/
def parse (list : List Char) : Except Misuse FieldSelection := do
  let parts ← (splitAt ',' list).mapM fun part =>
    (FieldRange.parsePart part).mapError (Misuse.field part)
  match parts.mergeSort fun a b => a.start ≤ b.start with
  | [] => return ⟨[]⟩
  | first :: rest =>
    match first.join rest with
    | some ranges => return ⟨ranges⟩
    | none => throw (.overlappingFields list)

/-! ## Slicing a line -/

/-- What follows the first field and its separator, unless that is nothing. -/
def dropField (separator : UInt8) (s : Bytes) : Option Bytes :=
  match s.dropWhile (· ≠ separator) with
  | _ :: b :: rest => some (b :: rest)
  | _ => none

/-- What follows the first `n` fields, unless that is nothing. -/
def skipFields (separator : UInt8) : Nat → Bytes → Option Bytes
  | 0, s => some s
  | n + 1, s => (dropField separator s).bind (skipFields separator n)

/-- The slices for the ranges, of a line whose field number `index` starts at `s`. -/
def slices (separator : UInt8) (index : Nat) (s : Bytes) : List FieldRange → List Bytes
  | [] => []
  | r :: rs =>
    match skipFields separator (r.start - index) s with
    | none => []
    | some s =>
      match r.stop with
      | none => [s]
      | some stop =>
        match skipFields separator (stop - r.start) s with
        | none => [s]
        | some rest =>
          s.take (s.length - rest.length - 1) :: slices separator stop rest rs

/-- The selected parts of a line, with the separators inside them. A range past the last field has
no part; neither has an empty field that ends the line, unless a selected field stands before it. -/
def select (selection : FieldSelection) (line : Bytes) (separator : UInt8) : List Bytes :=
  slices separator 0 line selection.ranges

end FieldSelection

/-! ## Keys -/

/-- The fields that identify a line; the whole line without a selection. -/
structure CacheKey where
  selection : Option FieldSelection := none
  separator : UInt8 := 9

/-- The bytes that identify a line: each selected part after its length in eight bytes, so that no
part can be taken for another. -/
def CacheKey.of (key : CacheKey) (line : Bytes) : Bytes :=
  match key.selection with
  | none => line
  | some selection =>
    (selection.select line key.separator).flatMap fun part => littleEndian 8 part.length ++ part

end Coprocess
