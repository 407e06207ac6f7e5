import Coprocess.Bytes

/-!
# UTF-8

Bytes are cut from the left into characters and faulty pieces. A faulty piece is the longest start
of a character that the bytes hold, at least one byte; it is *truncated* when the input ends in it.

* `encodeChar`, `encode`: the bytes of a character and of a text;
* `Piece`, `pieces`: the cut;
* `decode`: the text, or where the first faulty piece stands;
* `lossy`: the text with U+FFFD for every faulty piece.
-/

namespace Coprocess.Utf8

/-- The bytes of a character. -/
def encodeChar (c : Char) : Bytes :=
  let v := c.toNat
  if v < 0x80 then [.ofNat v]
  else if v < 0x800 then [.ofNat (0xC0 + v / 64), .ofNat (0x80 + v % 64)]
  else if v < 0x10000 then
    [.ofNat (0xE0 + v / 4096), .ofNat (0x80 + v / 64 % 64), .ofNat (0x80 + v % 64)]
  else
    [.ofNat (0xF0 + v / 262144), .ofNat (0x80 + v / 4096 % 64), .ofNat (0x80 + v / 64 % 64),
      .ofNat (0x80 + v % 64)]

/-- The number of bytes of a character. -/
def width (c : Char) : Nat := (encodeChar c).length

/-- The bytes of a text. -/
def encode (text : List Char) : Bytes := text.flatMap encodeChar

/-! ## Cutting bytes into characters -/

/-- A character, or bytes that are none. -/
inductive Piece
  | char (c : Char)
  /-- The start of a character that the next byte does not continue. -/
  | invalid (bytes : Bytes)
  /-- The start of a character that the end of the input cuts off. -/
  | truncated (bytes : Bytes)

/-- The number of bytes of a piece. -/
def Piece.size : Piece → Nat
  | .char c => width c
  | .invalid s => s.length
  | .truncated s => s.length

/-- How many bytes follow a lead byte, and the range in which the first of them lies. -/
def followers (lead : UInt8) : Option (Nat × UInt8 × UInt8) :=
  if lead < 0x80 then some (0, 0x80, 0xBF)
  else if lead < 0xC2 then none
  else if lead < 0xE0 then some (1, 0x80, 0xBF)
  else if lead = 0xE0 then some (2, 0xA0, 0xBF)
  else if lead = 0xED then some (2, 0x80, 0x9F)
  else if lead < 0xF0 then some (2, 0x80, 0xBF)
  else if lead = 0xF0 then some (3, 0x90, 0xBF)
  else if lead < 0xF4 then some (3, 0x80, 0xBF)
  else if lead = 0xF4 then some (3, 0x80, 0x8F)
  else none

/-- Up to `n` continuation bytes, the first of them from `lo` to `hi`, and what follows them. -/
def takeFollowers : Nat → UInt8 → UInt8 → Bytes → Bytes × Bytes
  | 0, _, _, s => ([], s)
  | _ + 1, _, _, [] => ([], [])
  | n + 1, lo, hi, b :: s =>
    if lo ≤ b ∧ b ≤ hi then
      let (taken, rest) := takeFollowers n 0x80 0xBF s
      (b :: taken, rest)
    else ([], b :: s)

/-- The number that a lead byte and its continuation bytes stand for. -/
def codePoint (lead : UInt8) (tail : Bytes) : Nat :=
  let top := match tail.length with
    | 0 => lead.toNat
    | 1 => lead.toNat - 0xC0
    | 2 => lead.toNat - 0xE0
    | _ => lead.toNat - 0xF0
  tail.foldl (fun v b => v * 64 + (b.toNat - 0x80)) top

/-- The piece that starts with `lead`, and what follows it. -/
def cutPiece (lead : UInt8) (s : Bytes) : Piece × Bytes :=
  match followers lead with
  | none => (.invalid [lead], s)
  | some (n, lo, hi) =>
    let (tail, rest) := takeFollowers n lo hi s
    if tail.length = n then (.char (Char.ofNat (codePoint lead tail)), rest)
    else if rest.isEmpty then (.truncated (lead :: tail), rest)
    else (.invalid (lead :: tail), rest)

theorem takeFollowers_append (n : Nat) (lo hi : UInt8) (s : Bytes) :
    (takeFollowers n lo hi s).1 ++ (takeFollowers n lo hi s).2 = s := by
  induction n generalizing lo hi s with
  | zero => rfl
  | succ n ih =>
    cases s with
    | nil => rfl
    | cons b s => by_cases h : lo ≤ b ∧ b ≤ hi <;> simp [takeFollowers, h, ih]

theorem cutPiece_length_le (lead : UInt8) (s : Bytes) :
    (cutPiece lead s).2.length ≤ s.length := by
  unfold cutPiece
  split
  · simp
  · rename_i n lo hi _
    have h := congrArg List.length (takeFollowers_append n lo hi s)
    simp only [List.length_append] at h
    simp only
    split
    · simp only; omega
    · split <;> simp only <;> omega

/-- The pieces of `s` after those in `cut`, which are held newest first. -/
def piecesOnto (cut : List Piece) : Bytes → List Piece
  | [] => cut.reverse
  | b :: s => piecesOnto ((cutPiece b s).1 :: cut) (cutPiece b s).2
termination_by s => s.length
decreasing_by
  have := cutPiece_length_le b s
  simp only [List.length_cons]
  omega

/-- Bytes as characters and faulty pieces, in order. -/
def pieces (s : Bytes) : List Piece := piecesOnto [] s

/-! ## Decoding -/

/-- Why bytes are not UTF-8. -/
inductive Fault
  /-- A faulty piece of `size` bytes at `index`. -/
  | invalid (index size : Nat)
  /-- The input ends inside the character that starts at `index`. -/
  | incomplete (index : Nat)
  deriving DecidableEq

/-- The wording of a fault. -/
def Fault.note : Fault → String
  | .invalid index size =>
    "invalid utf-8 sequence of " ++ toString size ++ " bytes from index " ++ toString index
  | .incomplete index => "incomplete utf-8 byte sequence from index " ++ toString index

/-- The character of a piece, if it is one. -/
def Piece.char? : Piece → Option Char
  | .char c => some c
  | _ => none

/-- The text that bytes stand for, or the first fault. -/
def decode (s : Bytes) : Except Fault (List Char) :=
  let all := pieces s
  let good := all.takeWhile (·.char?.isSome)
  let index := good.foldl (· + ·.size) 0
  match all.dropWhile (·.char?.isSome) with
  | .invalid bad :: _ => .error (.invalid index bad.length)
  | .truncated _ :: _ => .error (.incomplete index)
  | _ => .ok (good.filterMap Piece.char?)

/-- The character that stands for bytes which are none. -/
def replacement : Char := '\uFFFD'

/-- The text with one replacement character for each faulty piece. -/
def lossy (s : Bytes) : List Char := (pieces s).map fun p => p.char?.getD replacement

/-- The text of some bytes, faulty pieces replaced. -/
def lossyString (s : Bytes) : String := String.ofList (lossy s)

end Coprocess.Utf8
