import Coprocess.Text.Printable

/-!
# Quoted text

A text between double quotes, in which quotes, backslashes and unprintable characters are escaped.

* `escape`: the escaped form of a character;
* `quote`: a text in quotes.
-/

namespace Coprocess.Text

/-- The hexadecimal digits of a number, lower case. -/
def hexDigits (n : Nat) : List Char := Nat.toDigits 16 n

/-- A character as it stands inside quotes. -/
def escape (c : Char) : List Char :=
  if c = '"' ∨ c = '\\' then ['\\', c]
  else if c = '\x00' then ['\\', '0']
  else if c = '\t' then ['\\', 't']
  else if c = '\n' then ['\\', 'n']
  else if c = '\r' then ['\\', 'r']
  else if isPrintable c then [c]
  else ['\\', 'u', '\x7b'] ++ hexDigits c.toNat ++ ['\x7d']

/-- A text in double quotes. -/
def quote (text : List Char) : String :=
  String.ofList (['"'] ++ text.flatMap escape ++ ['"'])

end Coprocess.Text
