import Coprocess.Bytes

/-!
# Base64

The standard alphabet with canonical padding: every encoded text is a sequence of quads, only the
last of which is padded, and the bits that a padded quad leaves over are zero.

* `encode`: bytes as base64;
* `decode`: the bytes back, or the first `Fault`. The quads before the last are judged first, then
  the last one symbol by symbol, then its length, its padding and its left-over bits.
-/

namespace Coprocess.Base64

/-- The padding symbol. -/
def pad : UInt8 := 61

/-- The symbol for a number below 64. -/
def symbol (n : Nat) : UInt8 :=
  if n < 26 then .ofNat (n + 65)
  else if n < 52 then .ofNat (n + 71)
  else if n < 62 then .ofNat (n - 4)
  else if n = 62 then 43 else 47

/-- The number that a symbol stands for. -/
def value? (b : UInt8) : Option Nat :=
  let n := b.toNat
  if 65 ≤ n ∧ n ≤ 90 then some (n - 65)
  else if 97 ≤ n ∧ n ≤ 122 then some (n - 71)
  else if 48 ≤ n ∧ n ≤ 57 then some (n + 4)
  else if n = 43 then some 62
  else if n = 47 then some 63
  else none

/-! ## Encoding -/

/-- Bytes as base64. -/
def encode : Bytes → Bytes
  | [] => []
  | [a] => [symbol (a.toNat / 4), symbol (a.toNat % 4 * 16), pad, pad]
  | [a, b] =>
    [symbol (a.toNat / 4), symbol (a.toNat % 4 * 16 + b.toNat / 16),
      symbol (b.toNat % 16 * 4), pad]
  | a :: b :: c :: s =>
    symbol (a.toNat / 4) :: symbol (a.toNat % 4 * 16 + b.toNat / 16) ::
      symbol (b.toNat % 16 * 4 + c.toNat / 64) :: symbol (c.toNat % 64) :: encode s

/-! ## Decoding -/

/-- Why a text is not base64. -/
inductive Fault
  | symbol (byte : UInt8) (offset : Nat)
  | length (symbols : Nat)
  | padding
  /-- The last symbol has bits left over that are not zero. -/
  | lastSymbol (byte : UInt8) (offset : Nat)
  deriving DecidableEq

/-- The wording of a fault. -/
def Fault.note : Fault → String
  | .symbol byte offset =>
    "Invalid symbol " ++ toString byte.toNat ++ ", offset " ++ toString offset ++ "."
  | .length symbols => "Invalid input length: " ++ toString symbols
  | .padding => "Invalid padding"
  | .lastSymbol byte offset =>
    "Invalid last symbol " ++ toString byte.toNat ++ ", offset " ++ toString offset ++ "."

/-- A text cut into quads; the last one may be shorter. -/
def quads : Bytes → List Bytes
  | a :: b :: c :: d :: e :: s => [a, b, c, d] :: quads (e :: s)
  | s => [s]

/-- The number for the symbol at `offset`. -/
def number (offset : Nat) (b : UInt8) : Except Fault Nat :=
  match value? b with
  | some n => .ok n
  | none => .error (.symbol b offset)

/-- The numbers of the symbols that start at `offset`. -/
def numbers (offset : Nat) : Bytes → Except Fault (List Nat)
  | [] => .ok []
  | b :: s => do
    let n ← number offset b
    let rest ← numbers (offset + 1) s
    return n :: rest

/-- The whole bytes that numbers of six bits hold; bits left over are dropped. -/
def bytesOf : List Nat → Bytes
  | [a, b] => [.ofNat (a * 4 + b / 16)]
  | [a, b, c] => [.ofNat (a * 4 + b / 16), .ofNat (b % 16 * 16 + c / 4)]
  | [a, b, c, d] =>
    [.ofNat (a * 4 + b / 16), .ofNat (b % 16 * 16 + c / 4), .ofNat (c % 4 * 64 + d)]
  | _ => []

/-- The bits that the numbers of a quad leave over. -/
def leftOver : List Nat → Nat
  | [_, b] => b % 16
  | [_, _, c] => c % 4
  | _ => 0

/-- The numbers of the last quad, which starts at `offset`, and the length of its padding. Padding
comes last and not before the third place. -/
def lastQuad (offset : Nat) (quad : Bytes) : Except Fault (List Nat × Nat) := do
  let symbols := quad.takeWhile (· ≠ pad)
  let padding := quad.dropWhile (· ≠ pad)
  let ns ← numbers offset symbols
  if padding ≠ [] ∧ (symbols.length < 2 ∨ padding.any (· ≠ pad)) then
    throw (.symbol pad (offset + symbols.length))
  return (ns, padding.length)

/-- The bytes of the last quad. -/
def decodeLast (offset : Nat) (quad : Bytes) : Except Fault Bytes := do
  let (ns, padding) ← lastQuad offset quad
  if ns.length < 2 then throw (.length (offset + ns.length))
  if (ns.length + padding) % 4 ≠ 0 then throw .padding
  if leftOver ns ≠ 0 then
    let last := ns.length - 1
    throw (.lastSymbol (quad.getD last 0) (offset + last))
  return bytesOf ns

/-- A text one symbol longer than whole quads whose last symbol is none is refused for that symbol
before all others. -/
def checkStray (s : Bytes) : Except Fault Unit :=
  match s.getLast? with
  | some b =>
    if s.length % 4 = 1 ∧ b ≠ pad ∧ (value? b).isNone then .error (.symbol b (s.length - 1))
    else .ok ()
  | none => .ok ()

/-- The bytes that a base64 text stands for. -/
def decode (s : Bytes) : Except Fault Bytes := do
  if s.isEmpty then return []
  checkStray s
  let all := quads s
  let whole ← all.dropLast.zipIdx.mapM fun (quad, i) => bytesOf <$> numbers (4 * i) quad
  let last ← decodeLast (4 * (all.length - 1)) (all.getLastD [])
  return whole.flatten ++ last

end Coprocess.Base64
