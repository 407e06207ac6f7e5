import Coprocess.Bytes

/-!
# Inflating

The deflate format: blocks that are stored, or compressed with prefix codes that are fixed or sent
along. A compressed block consists of literal bytes and of matches, which repeat bytes already
written; bytes before the first one count as zero.

* `Bits`: unread bits, from the lowest bit of the first byte on;
* `PrefixCode`: a canonical prefix code, `PrefixCode.ofLengths` and `PrefixCode.decode`;
* `inflate`: the bytes that a deflate stream stands for, and what follows it or why it ends.
-/

namespace Coprocess.Gzip

/-- Why a deflate stream cannot be read on. -/
inductive InflateFault
  | truncated
  | corrupt
  deriving DecidableEq

/-! ## Bits -/

/-- Unread bytes, of the first of which `used` bits have been read. -/
structure Bits where
  rest : Bytes
  used : Nat := 0

namespace Bits

/-- The next bit. -/
def bit (s : Bits) : Except InflateFault (Nat × Bits) :=
  match s.rest with
  | [] => .error .truncated
  | b :: rest =>
    let value := b.toNat >>> s.used % 2
    .ok (value, if s.used = 7 then ⟨rest, 0⟩ else { s with used := s.used + 1 })

/-- A number of `n` bits, lowest first. -/
def number : Nat → Bits → Except InflateFault (Nat × Bits)
  | 0, s => .ok (0, s)
  | n + 1, s => do
    let (low, s) ← s.bit
    let (high, s) ← number n s
    return (low + 2 * high, s)

/-- The bytes after the one that was begun. -/
def align (s : Bits) : Bytes := if s.used = 0 then s.rest else s.rest.tail

/-- How many bits are left. -/
def left (s : Bits) : Nat := 8 * s.rest.length - s.used

end Bits

/-! ## Prefix codes -/

/-- A canonical prefix code: how many codes of each length from 1 to 15 there are, and the symbols
in the order of their codes. -/
structure PrefixCode where
  counts : List Nat
  symbols : Array Nat

namespace PrefixCode

/-- The code in which symbol `i` has a code of the `i`-th length; 0 stands for none. -/
def ofLengths (lengths : List Nat) : PrefixCode :=
  { counts := (List.range 15).map fun i => lengths.count (i + 1)
    symbols := ((List.range 15).flatMap fun i =>
      (lengths.zipIdx.filter (·.1 = i + 1)).map (·.2)).toArray }

/-- Every sequence of bits starts with a code, and no code continues another. -/
def isComplete (c : PrefixCode) : Bool :=
  c.counts.foldl (fun (total : Nat) count => 2 * (total + count)) 0 = UInt16.size

/-- Reads one symbol of a complete code. `code` holds the bits read so far, `first` the first code
of that length, and `index` the place of its symbol. -/
def decodeFrom (symbols : Array Nat) (code first index : Nat) (s : Bits) :
    List Nat → Except InflateFault (Nat × Bits)
  | [] => .error .corrupt
  | count :: counts => do
    let (b, s) ← s.bit
    let code := code + b
    if code < first + count then
      return (symbols.getD (index + (code - first)) 0, s)
    decodeFrom symbols (2 * code) (2 * (first + count)) (index + count) s counts

/-- How many bits are looked up at once. -/
def lookupWidth : Nat := 10

/-- Reads the only symbol of a code, which is written as zeros, of which `read` have been read and
the last argument tells how many are missing. A one in their place is no code, but from the bits
that are not looked up at once it stands for symbol 0. -/
def decodeOnly (symbol read : Nat) (s : Bits) : Nat → Except InflateFault (Nat × Bits)
  | 0 => .ok (symbol, s)
  | missing + 1 => do
    let (b, s) ← s.bit
    if b = 0 then decodeOnly symbol (read + 1) s missing
    else if read < lookupWidth then throw .corrupt
    else return (0, s)

/-- Reads one symbol. A code without symbols fails at the first bit. -/
def decode (c : PrefixCode) (s : Bits) : Except InflateFault (Nat × Bits) :=
  match c.symbols[0]? with
  | none => do
    discard s.bit
    throw .corrupt
  | some symbol =>
    if c.symbols.size = 1 then decodeOnly symbol 0 s (c.counts.findIdx (· ≠ 0) + 1)
    else decodeFrom c.symbols 0 0 0 s c.counts

end PrefixCode

/-! ## Blocks -/

/-- What was written, and the bits after it or why there are none. -/
abbrev Written := Array UInt8 × Except InflateFault Bits

/-- The least length of a match and its number of extra bits, for the symbols from 257 on. -/
def lengthCodes : List (Nat × Nat) :=
  [(3, 0), (4, 0), (5, 0), (6, 0), (7, 0), (8, 0), (9, 0), (10, 0), (11, 1), (13, 1), (15, 1),
    (17, 1), (19, 2), (23, 2), (27, 2), (31, 2), (35, 3), (43, 3), (51, 3), (59, 3), (67, 4),
    (83, 4), (99, 4), (115, 4), (131, 5), (163, 5), (195, 5), (227, 5), (258, 0)]

/-- The least distance of a match and its number of extra bits. -/
def distanceCodes : List (Nat × Nat) :=
  [(1, 0), (2, 0), (3, 0), (4, 0), (5, 1), (7, 1), (9, 2), (13, 2), (17, 3), (25, 3), (33, 4),
    (49, 4), (65, 5), (97, 5), (129, 6), (193, 6), (257, 7), (385, 7), (513, 8), (769, 8),
    (1025, 9), (1537, 9), (2049, 10), (3073, 10), (4097, 11), (6145, 11), (8193, 12), (12289, 12),
    (16385, 13), (24577, 13)]

/-- A length or a distance: its symbol has been read. -/
def extended (codes : List (Nat × Nat)) (symbol : Nat) (s : Bits) :
    Except InflateFault (Nat × Bits) := do
  match codes[symbol]? with
  | none => throw .corrupt
  | some (least, extra) =>
    let (n, s) ← s.number extra
    return (least + n, s)

/-- Repeats `length` bytes from `distance` bytes back. -/
def repeatMatch (out : Array UInt8) (distance : Nat) (length : Nat) : Array UInt8 :=
  length.fold (fun _ _ out =>
    out.push (if distance ≤ out.size then out.getD (out.size - distance) 0 else 0)) out

/-- The symbols of a compressed block. -/
def inflateSymbols (literals distances : PrefixCode) : Nat → Array UInt8 → Bits → Written
  | 0, out, _ => (out, .error .corrupt)
  | fuel + 1, out, s =>
    match literals.decode s with
    | .error e => (out, .error e)
    | .ok (symbol, s) =>
      if symbol < 256 then inflateSymbols literals distances fuel (out.push (.ofNat symbol)) s
      else if symbol = 256 then (out, .ok s)
      else
        let found : Except InflateFault (Nat × Nat × Bits) := do
          let (length, s) ← extended lengthCodes (symbol - 257) s
          let (code, s) ← distances.decode s
          let (distance, s) ← extended distanceCodes code s
          return (length, distance, s)
        match found with
        | .error e => (out, .error e)
        | .ok (length, distance, s) =>
          inflateSymbols literals distances fuel (repeatMatch out distance length) s

/-- The fixed code for literals and lengths. -/
def fixedLiterals : PrefixCode :=
  PrefixCode.ofLengths (List.replicate 144 8 ++ List.replicate 112 9 ++ List.replicate 24 7 ++
    List.replicate 8 8)

/-- The fixed code for distances. -/
def fixedDistances : PrefixCode := PrefixCode.ofLengths (List.replicate 32 5)

/-- The order in which the lengths of the codes for code lengths are sent. -/
def lengthOrder : List Nat := [16, 17, 18, 0, 8, 7, 9, 6, 10, 5, 11, 4, 12, 3, 13, 2, 14, 1, 15]

/-- `n` numbers of three bits. -/
def tripleBits : Nat → Bits → Except InflateFault (List Nat × Bits)
  | 0, s => .ok ([], s)
  | n + 1, s => do
    let (a, s) ← s.number 3
    let (rest, s) ← tripleBits n s
    return (a :: rest, s)

/-- Code lengths, of which `wanted` are still missing; those read are held newest first. -/
def codeLengths (code : PrefixCode) : Nat → Nat → List Nat → Bits →
    Except InflateFault (List Nat × Bits)
  | 0, _, _, _ => .error .corrupt
  | fuel + 1, wanted, read, s => do
    if wanted = 0 then return (read.reverse, s)
    let (symbol, s) ← code.decode s
    if symbol < 16 then codeLengths code fuel (wanted - 1) (symbol :: read) s
    else
      let (value, least, extra) ←
        if symbol = 16 then match read with
          | last :: _ => pure (last, 3, 2)
          | [] => throw .corrupt
        else if symbol = 17 then pure (0, 3, 3)
        else pure (0, 11, 7)
      let (n, s) ← s.number extra
      if wanted < least + n then throw .corrupt
      codeLengths code fuel (wanted - (least + n)) (List.replicate (least + n) value ++ read) s

/-- The code for code lengths, which has to be complete. -/
def lengthCode (count : Nat) (s : Bits) : Except InflateFault (PrefixCode × Bits) := do
  let (sizes, s) ← tripleBits count s
  let sizeOf (symbol : Nat) : Nat := ((lengthOrder.zip sizes).lookup symbol).getD 0
  let code := PrefixCode.ofLengths ((List.range 19).map sizeOf)
  if !code.isComplete then throw .corrupt
  return (code, s)

/-- A code for literals or distances. It is complete or has at most one symbol. -/
def dataCode (lengths : List Nat) : Except InflateFault PrefixCode :=
  let code := PrefixCode.ofLengths lengths
  if code.isComplete ∨ code.symbols.size ≤ 1 then .ok code else .error .corrupt

/-- The codes that are sent along with a block. How many lengths there are is judged before any of
them is read. -/
def sentCodes (s : Bits) : Except InflateFault (PrefixCode × PrefixCode × Bits) := do
  let (a, s) ← s.number 5
  let (b, s) ← s.number 5
  let (c, s) ← s.number 4
  let literalCount := a + 257
  let distanceCount := b + 1
  if 286 < literalCount ∨ 30 < distanceCount then throw .corrupt
  let (code, s) ← lengthCode (c + 4) s
  let total := literalCount + distanceCount
  let (lengths, s) ← codeLengths code (total + 1) total [] s
  let literals ← dataCode (lengths.take literalCount)
  let distances ← dataCode (lengths.drop literalCount)
  return (literals, distances, s)

/-- A stored block: its length, the complement of the length, and its bytes. -/
def inflateStored (out : Array UInt8) (s : Bits) : Written :=
  match s.align with
  | a :: b :: c :: d :: rest =>
    let length := ofLittleEndian [a, b]
    if length + ofLittleEndian [c, d] ≠ 65535 then (out, .error .corrupt)
    else if rest.length < length then (out ++ rest, .error .truncated)
    else (out ++ rest.take length, .ok ⟨rest.drop length, 0⟩)
  | _ => (out, .error .truncated)

/-- A block of the given kind. -/
def inflateBlock (kind : Nat) (out : Array UInt8) (s : Bits) : Written :=
  match kind with
  | 0 => inflateStored out s
  | 1 => inflateSymbols fixedLiterals fixedDistances (s.left + 1) out s
  | 2 =>
    match sentCodes s with
    | .ok (literals, distances, s) => inflateSymbols literals distances (s.left + 1) out s
    | .error e => (out, .error e)
  | _ => (out, .error .corrupt)

/-- Blocks up to the last one. -/
def inflateBlocks : Nat → Array UInt8 → Bits → Written
  | 0, out, _ => (out, .error .corrupt)
  | fuel + 1, out, s =>
    let head : Except InflateFault (Nat × Nat × Bits) := do
      let (last, s) ← s.bit
      let (kind, s) ← s.number 2
      return (last, kind, s)
    match head with
    | .error e => (out, .error e)
    | .ok (last, kind, s) =>
      match inflateBlock kind out s with
      | (out, .error e) => (out, .error e)
      | (out, .ok s) => if last = 1 then (out, .ok s) else inflateBlocks fuel out s

/-- The bytes that a deflate stream stands for, and what follows it or why it cannot be read on. -/
def inflate (s : Bytes) : Array UInt8 × Except InflateFault Bytes :=
  let (out, rest) := inflateBlocks (8 * s.length + 1) #[] ⟨s, 0⟩
  (out, rest.map Bits.align)

end Coprocess.Gzip
