import Coprocess.Text.Ranges

/-!
# Blank space

* `isBlank`: spaces, line ends and tabs of every script;
* `trim`: a text without the blank space around it.
-/

namespace Coprocess.Text

/-- The ranges of blank characters, both ends included. -/
def blankRanges : Array (Nat × Nat) :=
  #[(0x9, 0xD), (0x20, 0x20), (0x85, 0x85), (0xA0, 0xA0), (0x1680, 0x1680), (0x2000, 0x200A),
    (0x2028, 0x2029), (0x202F, 0x202F), (0x205F, 0x205F), (0x3000, 0x3000)]

/-- A character that stands for blank space. -/
def isBlank (c : Char) : Bool := inRanges blankRanges c.toNat

/-- A text without the blank space around it. -/
def trim (text : List Char) : List Char :=
  ((text.dropWhile isBlank).reverse.dropWhile isBlank).reverse

end Coprocess.Text
