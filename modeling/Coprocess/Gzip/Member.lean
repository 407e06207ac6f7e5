import Coprocess.Gzip.Crc32
import Coprocess.Gzip.Inflate
import Coprocess.Supply

/-!
# Gzip members

A compressed stream is a sequence of members. Each has a header, deflate data, and a trailer with
the check sum and the length of the data.

* `compress`: some bytes as one member, whose data are stored;
* `Header.skip`: what follows a header, or what is wrong with it;
* `decompress`: the data of all members, and how reading them ends;
* `openInput`: an input that is decompressed if it starts as a member does.
-/

namespace Coprocess.Gzip

/-- The two bytes with which a member starts. -/
def magic : Bytes := [0x1F, 0x8B]

/-! ## Writing -/

/-- The header of a member that is written. -/
def plainHeader : Bytes := magic ++ [8, 0, 0, 0, 0, 0, 0, 0xFF]

/-- The most bytes in a stored block. -/
def blockSize : Nat := 65535

/-- One stored block. -/
def storedBlock (last : Bool) (s : Bytes) : Bytes :=
  [if last then 1 else 0] ++ littleEndian 2 s.length ++ littleEndian 2 (65535 - s.length) ++ s

/-- Bytes in stored blocks, the last of which is marked. -/
def storedBlocks (s : Bytes) : Bytes :=
  if _h : s.length ≤ blockSize then storedBlock true s
  else storedBlock false (s.take blockSize) ++ storedBlocks (s.drop blockSize)
termination_by s.length
decreasing_by
  simp only [List.length_drop, blockSize] at *
  omega

/-- The check sum of the data and their length. -/
def trailer (s : Bytes) : Bytes := littleEndian 4 (crc32 s).toNat ++ littleEndian 4 s.length

/-- Some bytes as one member. -/
def compress (s : Bytes) : Bytes := plainHeader ++ storedBlocks s ++ trailer s

/-! ## Reading -/

namespace Header

/-- The most bytes in a text of a header. -/
def textSize : Nat := 65535

/-- What follows a text that a zero byte ends. -/
def skipText (s : Bytes) : Except IoError Bytes :=
  if textSize < (s.takeWhile (· ≠ 0)).length then .error .longHeaderText
  else match s.dropWhile (· ≠ 0) with
    | [] => .error .unexpectedEnd
    | _ :: rest => .ok rest

/-- What follows extra data after their length. -/
def skipExtra : Bytes → Except IoError Bytes
  | a :: b :: s =>
    let n := ofLittleEndian [a, b]
    if s.length < n then .error .unexpectedEnd else .ok (s.drop n)
  | _ => .error .unexpectedEnd

/-- What follows the check sum of the header `whole`, which it ends. -/
def skipCheck (whole s : Bytes) : Except IoError Bytes :=
  match s with
  | a :: b :: rest =>
    let sum := (crc32 (whole.take (whole.length - s.length))).toNat % 65536
    if sum = ofLittleEndian [a, b] then .ok rest else .error .badChecksum
  | _ => .error .unexpectedEnd

/-- What follows the header with which `s` starts. The first ten bytes are judged once they are
there. -/
def skip (s : Bytes) : Except IoError Bytes := do
  if s.length < 10 then throw .unexpectedEnd
  let flags := (s.getD 3 0).toNat
  if s.take 2 ≠ magic ∨ s.getD 2 0 ≠ 8 ∨ 32 ≤ flags then throw .badMemberHeader
  let has (flag : Nat) : Bool := flags / flag % 2 = 1
  let mut rest := s.drop 10
  if has 4 then rest ← skipExtra rest
  if has 8 then rest ← skipText rest
  if has 16 then rest ← skipText rest
  if has 2 then rest ← skipCheck s rest
  return rest

end Header

/-! ### Reads of the input and of the data

Both are done in steps. Data decompressed in the step that finds them corrupt are lost. A step ends
where a read of the input ends and where a window is full; the next window belongs to the same step
if the one before it is less than a read of the data asks for. -/

/-- How many bytes the first read of the input gets, and a read of the data asks for. -/
def readSize : Nat := 8192

/-- How many bytes a later read of the input gets, and are decompressed in a step at most. -/
def window : Nat := 32768

/-- The sizes of the reads that get `n` bytes. -/
def laterReads (n : Nat) : List Nat := List.replicate (n / window) window ++ [n % window]

/-- How many bytes of an input that arrives in chunks are left after each read. -/
def leftAfterReads : List Bytes → List Nat
  | [] => []
  | first :: rest =>
    let sizes := laterReads (first.length - readSize) ++ rest.flatMap (laterReads ·.length)
    sizes.foldr (fun n left => (n + left.headD 0) :: left) [0]

/-- How much is decompressed from starts of corrupt data, in order, that do not show it yet. -/
def sizeBefore (s : Bytes) (size : Nat) : List Nat → Nat
  | [] => size
  | n :: ends =>
    match inflate (s.take n) with
    | (out, .error .truncated) => sizeBefore s out.size ends
    | _ => size

/-- How many bytes of corrupt data are read when `total` bytes are decompressed before the fault and
`start` of them before the last read of the input. -/
def keptSize (start total : Nat) : Nat :=
  let next := (start / window + 1) * window
  let last := (total - 1) / window * window
  if total ≤ next then start
  else if last = next ∧ next - start < readSize then start
  else last

/-- Reads a member after its header: the data, and what follows the trailer or how reading ends.
`left` tells how many bytes are left after each read of the input. -/
def readBody (left : List Nat) (s : Bytes) : Array UInt8 × (Bytes ⊕ Supply) :=
  match inflate s with
  | (out, .error .truncated) => (out, .inr ⟨[], none, some .incompleteData⟩)
  | (out, .error .corrupt) =>
    let ends := (left.filter (· < s.length)).map (s.length - ·)
    let kept := keptSize (sizeBefore s 0 ends) out.size
    (out.extract 0 kept, .inr ⟨[], none, some .corruptData⟩)
  | (out, .ok rest) =>
    if rest.length < 8 then (out, .inr ⟨[], none, some .unexpectedEnd⟩)
    else if rest.take 8 ≠ trailer out.toList then (out, .inr ⟨[], some .badChecksum, none⟩)
    else (out, .inl (rest.drop 8))

/-- The data of the members in `s` after the data `out`. -/
def membersFrom (left : List Nat) : Nat → Array UInt8 → Bytes → Supply
  | 0, out, _ => ⟨out.toList, none, none⟩
  | fuel + 1, out, s =>
    if s.isEmpty then ⟨out.toList, none, none⟩
    else match Header.skip s with
      | .error e => ⟨out.toList, none, some e⟩
      | .ok body =>
        match readBody left body with
        | (data, .inr ending) => { ending with bytes := (out ++ data).toList }
        | (data, .inl rest) => membersFrom left fuel (out ++ data) rest

/-- The data of all members in an input that arrives in chunks, and how reading them ends. A bad
first header is reported once, and then the input is at its end. -/
def decompressChunks (chunks : List Bytes) : Supply :=
  let s := chunks.flatten
  match Header.skip s with
  | .error e => ⟨[], some e, none⟩
  | .ok _ => membersFrom (leftAfterReads chunks) (s.length + 1) #[] s

/-- The data of all members, and how reading them ends. -/
def decompress (s : Bytes) : Supply := decompressChunks [s]

/-- Input that arrives in chunks. It is decompressed if the first chunk starts as a member does. -/
def openInput (chunks : List Bytes) : Supply :=
  if (chunks.headD []).take 2 = magic then decompressChunks chunks
  else ⟨chunks.flatten, none, none⟩

end Coprocess.Gzip
