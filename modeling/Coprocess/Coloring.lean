/-!
# Colors

* `isColored`: whether complaints are colored, although they go to no terminal.
-/

namespace Coprocess

/-- A variable of the environment has a value other than `no`. -/
def isSetBut (no : String) (value : Option String) : Bool := value.any (· ≠ no)

/-- A sequence of zeros, with or without a plus sign. -/
def isZero : List Char → Bool
  | '+' :: digits => !digits.isEmpty && digits.all (· = '0')
  | digits => !digits.isEmpty && digits.all (· = '0')

/-- Colors are asked for, whatever the output is. -/
def forcesColor (lookup : String → Option String) : Bool :=
  match lookup "FORCE_COLOR" with
  | some text => text ≠ "false" && !isZero text.toList
  | none => isSetBut "0" (lookup "CLICOLOR_FORCE")

/-- The name of a terminal that shows colors. -/
def namesColors (terminal : String) : Bool :=
  ["screen", "xterm", "vt100", "vt220", "rxvt"].any (terminal.startsWith ·) ||
    ["direct", "truecolor", "256", "256color"].any (terminal.endsWith ·) ||
    ["color", "ansi", "cygwin", "linux"].any fun part => 1 < (terminal.splitOn part).length

/-- The surroundings show colors. -/
def showsColors (lookup : String → Option String) : Bool :=
  (lookup "COLORTERM").isSome || (lookup "TERM").any namesColors ||
    (lookup "TERM_PROGRAM").any ["iTerm.app", "Apple_Terminal"].contains ||
    isSetBut "0" (lookup "CLICOLOR") || (lookup "CI").any ["true", "1", "woodpecker"].contains

/-- Complaints are colored: on request, or when the output is to be taken for a terminal that shows
colors. -/
def isColored (lookup : String → Option String) : Bool :=
  forcesColor lookup ||
    (!isSetBut "0" (lookup "NO_COLOR") && lookup "TERM" ≠ some "dumb" &&
      isSetBut "0" (lookup "IGNORE_IS_TERMINAL") && showsColors lookup)

end Coprocess
