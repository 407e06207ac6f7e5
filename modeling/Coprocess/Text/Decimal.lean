
/-!
# Decimal words

Numbers are written in decimal digits, with an optional plus sign, and fit 64 bits.

* `parse`: the number that a text stands for, or a `Fault`;
* `word?`: the number alone.
-/

namespace Coprocess.Decimal

/-- One more than the largest number of 64 bits. -/
def wordBound : Nat := UInt64.size

/-- Why a text is no number. -/
inductive Fault
  | empty
  | notADigit
  | tooLarge
  deriving DecidableEq

/-- The wording of a fault. -/
def Fault.note : Fault → String
  | empty => "cannot parse integer from empty string"
  | notADigit => "invalid digit found in string"
  | tooLarge => "number too large to fit in target type"

/-- The number that digits stand for after others, which stand for `n`. The first character that
cannot belong to a number decides the fault. -/
def parseDigits (n : Nat) : List Char → Except Fault Nat
  | [] => .ok n
  | c :: rest =>
    if !c.isDigit then .error .notADigit
    else
      let n := n * 10 + (c.toNat - '0'.toNat)
      if wordBound ≤ n then .error .tooLarge else parseDigits n rest

/-- The number of 64 bits that a text stands for. -/
def parse (text : List Char) : Except Fault Nat :=
  match text with
  | [] => .error .empty
  | ['+'] => .error .notADigit
  | '+' :: digits => parseDigits 0 digits
  | _ => parseDigits 0 text

/-- The number of 64 bits that a text stands for, if it is one. -/
def word? (text : List Char) : Option Nat := (parse text).toOption

end Coprocess.Decimal
