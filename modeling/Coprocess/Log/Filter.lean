import Coprocess.Log.Pattern
import Coprocess.Text.Decimal
import Coprocess.Text.Utf8

/-!
# Log filters

A filter is a list of directives between commas. A directive is a level, a target, a target with a
span in brackets, or any of these with a level after an equals sign. A span may have a field in
braces, and the field a value, which is a number or a pattern.

Blank space around a directive is passed over. The places of its parts are counted from the first
character that is not blank, but looked up from the start of the text, so that blank space in front
shifts the parts, and one at the end belongs to a level.

* `Fault`: why a text is no filter;
* `directive`, `check`: judge a directive and a filter.
-/

namespace Coprocess.LogFilter

/-- Why a text is no filter. -/
inductive Fault
  | malformed
  /-- A part starts or ends inside a character. -/
  | split
  deriving DecidableEq

/-! ## Parts -/

/-- The bytes of a text can be cut at a place. -/
def canCut (text : Bytes) (i : Nat) : Bool :=
  (text.drop i).head?.all fun b => b < 0x80 || 0xC0 ≤ b

/-- The part of a text between two places. -/
def part (text : Bytes) (start stop : Nat) : Except Fault (List Char) :=
  if canCut text start ∧ canCut text stop then
    .ok (Utf8.lossy ((text.take stop).drop start))
  else .error .split

/-- The names of the levels. -/
def levelNames : List String := ["off", "error", "warn", "info", "debug", "trace"]

/-- A text names a level, or is its number; the empty text stands for the last level. -/
def isLevel (text : List Char) : Bool :=
  text.isEmpty || (Decimal.word? text).any (· ≤ 5) ||
    levelNames.contains (String.ofList (text.map Char.toLower))

/-- What follows a sign, if there is one. -/
def dropSign : List Char → List Char
  | '+' :: rest => rest
  | '-' :: rest => rest
  | rest => rest

/-- A text is a number in decimal or scientific notation, without a sign. -/
def isDecimal (text : List Char) : Bool :=
  let digits := text.takeWhile Char.isDigit
  let rest := text.dropWhile Char.isDigit
  let (places, rest) := match rest with
    | '.' :: rest => (rest.takeWhile Char.isDigit, rest.dropWhile Char.isDigit)
    | rest => ([], rest)
  let exponentOk := match rest with
    | [] => true
    | c :: rest =>
      let exponent := dropSign rest
      (c = 'e' || c = 'E') && !exponent.isEmpty && exponent.all Char.isDigit
  !(digits ++ places).isEmpty && exponentOk

/-- A text is a number. -/
def isNumber (text : List Char) : Bool :=
  let text := dropSign text
  isDecimal text || ["inf", "infinity", "nan"].contains (String.ofList (text.map Char.toLower))

/-- A text is a field of a span: a name, and perhaps a value after an equals sign. -/
def isField (text : List Char) : Bool :=
  match text.dropWhile (· ≠ '=') with
  | [] => !text.isEmpty
  | _ :: rest =>
    let value := rest.takeWhile (· ≠ '=')
    isNumber value || LogPattern.isPattern value

/-! ## Directives -/

/-- Where the reading of a directive stands. -/
inductive Stand
  | fresh
  /-- In a level or a target. -/
  | name
  /-- In the name of a span, which starts at a place. -/
  | span (start : Nat)
  /-- In the field of a span. -/
  | field (start : Nat)
  /-- After the field of a span. -/
  | fields
  /-- After a span. -/
  | target
  /-- In a level after an equals sign. -/
  | level (start : Nat)

/-- A character with which a level or a target may start. -/
def startsName (c : Char) : Bool := "-:_".toList.contains c || Text.isLetterOrNumeral c

/-- Reads the character at place `i`. -/
def Stand.read (text : Bytes) (i : Nat) (c : Char) : Stand → Except Fault Stand
  | .fresh =>
    if c = '[' then .ok (.span (i + 1)) else if startsName c then .ok .name else .error .malformed
  | .name => do
    if c = '=' ∨ c = '[' then discard (part text 0 i)
    return if c = '=' then .level (i + 1) else if c = '[' then .span (i + 1) else .name
  | .span start => do
    if c = ']' ∨ c = '\x7b' then discard (part text start i)
    return if c = ']' then .target else if c = '\x7b' then .field (i + 1) else .span start
  | .field start => do
    if c = '\x7d' then
      if isField (← part text start i) then return .fields else throw .malformed
    return .field start
  | .fields => if c = ']' then .ok .target else .error .malformed
  | .target => if c = '=' then .ok (.level (i + 1)) else .error .malformed
  | .level start => .ok (.level start)

/-- Ends the reading of a directive. -/
def Stand.close (text : Bytes) : Stand → Except Fault Unit
  | .name => .ok ()
  | .target => .ok ()
  | .level start => do
    if isLevel (← part text start text.length) then return else throw .malformed
  | _ => .error .malformed

/-- Judges a directive. -/
def directive (text : List Char) : Except Fault Unit := do
  let bytes := Utf8.encode text
  let (_, stand) ← (Text.trim text).foldlM (fun (i, stand) c => do
    return (i + Utf8.width c, ← stand.read bytes i c)) (0, Stand.fresh)
  stand.close bytes

/-- Judges a filter; the first directive with a fault decides. -/
def check (text : String) : Except Fault Unit :=
  ((text.splitOn ",").filter (· ≠ "")).forM fun piece => directive piece.toList

end Coprocess.LogFilter
