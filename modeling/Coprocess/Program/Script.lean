import Coprocess.Bytes

/-!
# Arguments of programs as text

Patterns and scripts are read byte by byte; each byte is seen as the character with its number.

* `charsOf`, `bytesOf`: between bytes and such characters;
* `readDecimal`, `readOctal`, `readHexadecimal`: numbers at the start of a text;
* `signed?`: a whole number;
* `escaped?`: the character that a backslash and what follows it stand for.
-/

namespace Coprocess.Program

/-- A byte for each character. -/
def bytesOf (text : List Char) : Bytes := text.map fun c => .ofNat c.toNat

/-- A character for each byte. -/
def charsOf (s : Bytes) : List Char := s.map fun b => Char.ofNat b.toNat

/-- The byte of a character. -/
def byteOf (c : Char) : UInt8 := .ofNat c.toNat

/-- The decimal number with which a text starts, and what follows it. -/
def readDecimal (text : List Char) : Option (Nat × List Char) :=
  let digits := text.takeWhile Char.isDigit
  if digits.isEmpty then none
  else
    some (digits.foldl (fun n c => n * 10 + (c.toNat - '0'.toNat)) 0, text.dropWhile Char.isDigit)

/-- A digit below 8. -/
def isOctal (c : Char) : Bool := '0' ≤ c && c ≤ '7'

/-- The number of up to `most` octal digits with which a text starts, and what follows it. -/
def readOctal (most : Nat) (text : List Char) : Nat × List Char :=
  let digits := (text.take most).takeWhile isOctal
  (digits.foldl (fun n c => n * 8 + (c.toNat - '0'.toNat)) 0, text.drop digits.length)

/-- The number that a hexadecimal digit stands for. -/
def hexadecimal? (c : Char) : Option Nat :=
  if c.isDigit then some (c.toNat - '0'.toNat)
  else if 'a' ≤ c.toLower && c.toLower ≤ 'f' then some (c.toLower.toNat - 'a'.toNat + 10)
  else none

/-- The number of up to `most` hexadecimal digits with which a text starts, and what follows it. -/
def readHexadecimal (most : Nat) (text : List Char) : Option (Nat × List Char) :=
  let digits := (text.take most).takeWhile fun c => (hexadecimal? c).isSome
  if digits.isEmpty then none
  else some ((digits.filterMap hexadecimal?).foldl (fun n d => n * 16 + d) 0,
    text.drop digits.length)

/-- The character that a backslash and what follows it stand for: a letter for a control character,
or a letter and the number of a byte. -/
def escaped? (text : List Char) : Option (Char × List Char) :=
  let numbered (number : Nat × List Char) := some (Char.ofNat (number.1 % 256), number.2)
  match text with
  | 'n' :: rest => some ('\n', rest)
  | 't' :: rest => some ('\t', rest)
  | 'r' :: rest => some ('\r', rest)
  | 'f' :: rest => some ('\x0c', rest)
  | 'v' :: rest => some ('\x0b', rest)
  | 'a' :: rest => some ('\x07', rest)
  | 'x' :: rest => (readHexadecimal 2 rest).bind numbered
  | 'o' :: rest => if rest.head?.any isOctal then numbered (readOctal 3 rest) else none
  | 'd' :: rest =>
    let digits := (rest.take 3).takeWhile Char.isDigit
    (readDecimal digits).bind fun (n, _) => numbered (n, rest.drop digits.length)
  | 'c' :: c :: rest =>
    if c = '\\' then none else some (Char.ofNat (Nat.xor (c.toUpper.toNat % 256) 64), rest)
  | _ => none

/-- A blank or a tab. -/
def isBlank (c : Char) : Bool := c = ' ' || c = '\t'

/-- A whole number, perhaps with a sign and with blanks around it. -/
def signed? (text : List Char) : Option Int :=
  let text := text.dropWhile Char.isWhitespace
  let (negative, digits) := match text with
    | '-' :: rest => (true, rest)
    | '+' :: rest => (false, rest)
    | _ => (false, text)
  match readDecimal digits with
  | some (n, rest) =>
    if rest.all Char.isWhitespace then some (if negative then -(n : Int) else n) else none
  | none => none

end Coprocess.Program
