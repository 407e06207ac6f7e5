import Coprocess.Program.Script

/-!
# Classes of bytes

* `lower`, `upper`: the two cases of ASCII letters;
* `classTest`: the classes that patterns and sets name; `isWordByte`.
-/

namespace Coprocess.Program

/-- The lower case of an ASCII letter. -/
def lower (b : UInt8) : UInt8 := if 65 ≤ b ∧ b ≤ 90 then b + 32 else b

/-- The upper case of an ASCII letter. -/
def upper (b : UInt8) : UInt8 := if 97 ≤ b ∧ b ≤ 122 then b - 32 else b

/-- The bytes of a named class. -/
def classTest (name : String) : Option (UInt8 → Bool) :=
  let on (p : Char → Bool) : UInt8 → Bool := fun b => b < 128 && p (Char.ofNat b.toNat)
  let graph (c : Char) : Bool := 0x21 ≤ c.toNat && c.toNat ≤ 0x7E
  match name with
  | "alpha" => some (on Char.isAlpha)
  | "digit" => some (on Char.isDigit)
  | "alnum" => some (on Char.isAlphanum)
  | "upper" => some (on Char.isUpper)
  | "lower" => some (on Char.isLower)
  | "space" => some (on fun c => c = ' ' || (9 ≤ c.toNat && c.toNat ≤ 13))
  | "blank" => some (on isBlank)
  | "punct" => some (on fun c => graph c && !c.isAlphanum)
  | "print" => some (on fun c => graph c || c = ' ')
  | "graph" => some (on graph)
  | "cntrl" => some (on fun c => c.toNat < 32 || c.toNat = 127)
  | "xdigit" => some (on fun c => c.isDigit || ('a' ≤ c && c ≤ 'f') || ('A' ≤ c && c ≤ 'F'))
  | _ => none

/-- A byte of a word. -/
def isWordByte (b : UInt8) : Bool :=
  b = 95 || (b < 128 && (Char.ofNat b.toNat).isAlphanum)

end Coprocess.Program
